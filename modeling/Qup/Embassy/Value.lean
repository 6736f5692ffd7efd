import Qup.Core.Payload

/-!
# Key values

The value half of `qup-embassy/src/lib.rs` and the enum derive of
`qup-embassy-proc`. A response buffer is written from its front and only the
written prefix is read back, so a buffer is modelled by its capacity and an
encoder returns the prefix; a write past the end panics.

`LawfulQupValue` is what a key type owes the protocol: what it encodes is the
layout of one wire value, and decoding never invents a value.
-/

namespace Qup.Embassy
open Foundation Foundation.Utf8

inductive Perm where
  | none
  | r
  | w
  | rw
  | n
  | rn
  | wn
  | rwn
  deriving DecidableEq, Repr

namespace Perm

def flagsBits : Perm → UInt8
  | none => 0
  | r => KeyFlags.readable
  | w => KeyFlags.writable
  | rw => KeyFlags.readable ||| KeyFlags.writable
  | n => KeyFlags.observable
  | rn => KeyFlags.readable ||| KeyFlags.observable
  | wn => KeyFlags.writable ||| KeyFlags.observable
  | rwn => KeyFlags.readable ||| KeyFlags.writable ||| KeyFlags.observable

def readable (p : Perm) : Bool := p.flagsBits &&& KeyFlags.readable != 0
def writable (p : Perm) : Bool := p.flagsBits &&& KeyFlags.writable != 0
def observable (p : Perm) : Bool := p.flagsBits &&& KeyFlags.observable != 0

def keyFlags (p : Perm) : KeyFlags := ⟨p.flagsBits, by cases p <;> rfl⟩

end Perm

inductive WireValueRef where
  | bool (value : Bool)
  | i64 (value : Int64)
  | str (value : Str)
  | oversizedStr
  deriving DecidableEq

inductive WireValueError where
  | typeMismatch
  | valueTooLarge
  | stringContainsNul
  deriving DecidableEq, Repr

def WireValueRef.ofValue : ValueRef → WireValueRef
  | .bool b => .bool b
  | .i64 x => .i64 x
  | .str s => .str s

inductive EncodeFault where
  | invalid (error : WireValueError)
  | panic
  deriving DecidableEq, Repr

class QupValue (T : Type) where
  default : T
  maxWireLen : ℕ
  maxStrLen : ℕ
  validate : T → Except WireValueError Unit
  encode : T → (capacity : ℕ) → Except EncodeFault (List UInt8)
  decode : WireValueRef → Except WireValueError T

def reserve (capacity n : ℕ) : Except EncodeFault Unit :=
  if n ≤ capacity then .ok () else .error .panic

def writeExact (capacity : ℕ) (src : List UInt8) : Except EncodeFault (List UInt8) :=
  if src.length ≤ capacity then .ok src else .error .panic

instance : QupValue Bool where
  default := false
  maxWireLen := 2
  maxStrLen := 0
  validate _ := .ok ()
  encode value capacity := writeExact capacity [ValueKind.bool.asByte, boolByte value]
  decode
    | .bool value => .ok value
    | .i64 _ | .str _ | .oversizedStr => .error .typeMismatch

instance : QupValue Int64 where
  default := 0
  maxWireLen := 9
  maxStrLen := 0
  validate _ := .ok ()
  encode value capacity := do
    reserve capacity 1
    let body ← writeExact (capacity - 1) (be64 value)
    pure (ValueKind.i64.asByte :: body)
  decode
    | .i64 value => .ok value
    | .bool _ | .str _ | .oversizedStr => .error .typeMismatch

abbrev HString (N : ℕ) : Type := { s : Str // s.length ≤ N }

namespace HString

def validate (value : Str) : Except WireValueError Unit :=
  if value.bytes.contains 0x00 then .error .stringContainsNul
  else if value.length > 65535 then .error .valueTooLarge
  else .ok ()

def encodeBody (value : Str) (capacity : ℕ) : Except EncodeFault (List UInt8) := do
  reserve capacity 1
  if value.length ≤ 65535 then
    reserve capacity 3
    let len ← writeExact 2 (be16 (UInt16.ofNat value.length))
    reserve capacity (3 + value.length)
    let body ← writeExact value.length value.bytes
    pure (ValueKind.str.asByte :: len ++ body)
  else .error (.invalid .valueTooLarge)

end HString

instance (N : ℕ) : QupValue (HString N) where
  default := ⟨Str.empty, Nat.zero_le N⟩
  maxWireLen := 3 + N
  maxStrLen := N
  validate value := HString.validate value.val
  encode value capacity :=
    match HString.validate value.val with
    | .error e => .error (.invalid e)
    | .ok () => HString.encodeBody value.val capacity
  decode
    | .str value => if h : value.length ≤ N then .ok ⟨value, h⟩ else .error .typeMismatch
    | .oversizedStr => .error .typeMismatch
    | .bool _ | .i64 _ => .error .typeMismatch

/-- What the derive accepts: at least one unit variant, and distinct wire names
that are non-empty, free of NUL and short enough for `str16`. -/
structure DerivedEnum where
  names : List Str
  wire : ∀ s ∈ names, s ≠ Str.empty ∧ WireStr s
  nodup : names.Nodup
  defaultVariant : Fin names.length

namespace DerivedEnum

abbrev Variant (e : DerivedEnum) : Type := Fin e.names.length

def name (e : DerivedEnum) (v : e.Variant) : Str := e.names.get v

def maxLen (e : DerivedEnum) : ℕ := (e.names.map Str.length).foldr max 0

def encodeStrValue (value : Str) (capacity : ℕ) : Except EncodeFault (List UInt8) :=
  if value.bytes.contains 0x00 then .error (.invalid .stringContainsNul)
  else if value.length ≤ 65535 then HString.encodeBody value capacity
  else .error (.invalid .valueTooLarge)

theorem length_le_maxLen (e : DerivedEnum) (v : e.Variant) : (e.name v).length ≤ e.maxLen := by
  have h : ∀ (l : List Str) (s : Str), s ∈ l → s.length ≤ (l.map Str.length).foldr max 0 := by
    intro l
    induction l with
    | nil => simp
    | cons t l ih =>
      intro s hs
      simp only [List.map_cons, List.foldr_cons]
      rcases List.mem_cons.mp hs with rfl | hs
      · exact le_max_left _ _
      · exact le_trans (ih s hs) (le_max_right _ _)
  exact h _ _ (List.get_mem _ _)

end DerivedEnum

instance (e : DerivedEnum) : QupValue e.Variant where
  default := e.defaultVariant
  maxWireLen := 3 + e.maxLen
  maxStrLen := e.maxLen
  validate _ := .ok ()
  encode value capacity := DerivedEnum.encodeStrValue (e.name value) capacity
  decode
    | .str value =>
      match (List.finRange e.names.length).find? (fun v => e.name v == value) with
      | some v => .ok v
      | none => .error .typeMismatch
    | .bool _ | .i64 _ | .oversizedStr => .error .typeMismatch

class LawfulQupValue (T : Type) [QupValue T] where
  wire : T → ValueRef
  validate_default : QupValue.validate (QupValue.default : T) = .ok ()
  encode_ok : ∀ {v : T} {capacity : ℕ} {b : List UInt8}, QupValue.encode v capacity = .ok b →
    b = (wire v).bytes ∧ (wire v).OnWire
  encode_of_validate : ∀ {v : T} {capacity : ℕ}, QupValue.validate v = .ok () →
    QupValue.maxWireLen T ≤ capacity → QupValue.encode v capacity = .ok (wire v).bytes
  encode_ne_panic : ∀ {v : T} {capacity : ℕ}, QupValue.maxWireLen T ≤ capacity →
    QupValue.encode v capacity ≠ .error .panic
  encode_ne_invalid : ∀ {v : T} {capacity : ℕ} {e : WireValueError},
    QupValue.validate v = .ok () → QupValue.encode v capacity ≠ .error (.invalid e)
  decode_ok : ∀ {r : WireValueRef} {v : T}, QupValue.decode r = .ok v → r = .ofValue (wire v)

theorem HString.validate_ok_iff (s : Str) : HString.validate s = .ok () ↔ WireStr s := by
  unfold HString.validate
  constructor
  · intro h
    split_ifs at h with h0 h1
    exact ⟨by simpa using h0, by omega⟩
  · intro h
    rw [if_neg (by rw [h.noNul]; simp), if_neg (by have := h.fits; omega)]

theorem HString.encodeBody_eq {s : Str} (hs : s.length ≤ 65535) {capacity : ℕ} :
    HString.encodeBody s capacity =
      if 3 + s.length ≤ capacity then .ok (ValueRef.str s).bytes else .error .panic := by
  have hbody : writeExact s.length s.bytes = .ok s.bytes := if_pos (Nat.le_refl _)
  have hlen : writeExact 2 (be16 (UInt16.ofNat s.length)) = .ok (be16 (UInt16.ofNat s.length)) :=
    if_pos (Nat.le_of_eq (length_be16 _))
  unfold HString.encodeBody
  rw [if_pos hs, hbody, hlen]
  unfold reserve
  split_ifs <;> first | omega | rfl

instance : LawfulQupValue Bool where
  wire := .bool
  validate_default := rfl
  encode_ok := by
    intro v capacity b h
    simp only [QupValue.encode, writeExact] at h
    split_ifs at h
    cases h
    exact ⟨rfl, trivial⟩
  encode_of_validate := by
    intro v capacity _ hc
    exact if_pos hc
  encode_ne_panic := by
    intro v capacity hc h
    rw [show QupValue.encode v capacity = .ok (ValueRef.bool v).bytes from if_pos hc] at h
    cases h
  encode_ne_invalid := by
    intro v capacity e _ h
    simp only [QupValue.encode, writeExact] at h
    split_ifs at h
    cases h
  decode_ok := by
    intro r v h
    cases r <;> cases h
    rfl

theorem encode_int64 (v : Int64) (capacity : ℕ) : QupValue.encode v capacity =
    if 9 ≤ capacity then .ok (ValueRef.i64 v).bytes else .error .panic := by
  simp only [QupValue.encode, reserve, writeExact, length_be64]
  split_ifs <;> first | omega | rfl

instance : LawfulQupValue Int64 where
  wire := .i64
  validate_default := rfl
  encode_ok := by
    intro v capacity b h
    rw [encode_int64] at h
    split_ifs at h
    cases h
    exact ⟨rfl, trivial⟩
  encode_of_validate := by
    intro v capacity _ hc
    rw [encode_int64]
    exact if_pos hc
  encode_ne_panic := by
    intro v capacity hc h
    change 9 ≤ capacity at hc
    rw [encode_int64, if_pos hc] at h
    cases h
  encode_ne_invalid := by
    intro v capacity e _ h
    rw [encode_int64] at h
    split_ifs at h
    cases h
  decode_ok := by
    intro r v h
    cases r <;> cases h
    rfl

theorem encode_hstring {N : ℕ} (v : HString N) (capacity : ℕ) : QupValue.encode v capacity =
    match HString.validate v.val with
    | .error e => .error (.invalid e)
    | .ok () => HString.encodeBody v.val capacity := rfl

instance (N : ℕ) : LawfulQupValue (HString N) where
  wire v := .str v.val
  validate_default := rfl
  encode_ok := by
    intro v capacity b h
    rw [encode_hstring] at h
    cases hv : HString.validate v.val with
    | error e =>
      rw [hv] at h
      cases h
    | ok u =>
      have hw := (HString.validate_ok_iff v.val).mp hv
      rw [hv] at h
      simp only [HString.encodeBody_eq hw.fits] at h
      split_ifs at h
      cases h
      exact ⟨rfl, hw⟩
  encode_of_validate := by
    intro v capacity hv hc
    have hw := (HString.validate_ok_iff v.val).mp hv
    have hN := v.property
    change 3 + N ≤ capacity at hc
    rw [encode_hstring, (HString.validate_ok_iff v.val).mpr hw]
    simp only [HString.encodeBody_eq hw.fits]
    exact if_pos (by omega)
  encode_ne_panic := by
    intro v capacity hc h
    have hN := v.property
    change 3 + N ≤ capacity at hc
    rw [encode_hstring] at h
    cases hv : HString.validate v.val with
    | error e =>
      rw [hv] at h
      cases h
    | ok u =>
      have hw := (HString.validate_ok_iff v.val).mp hv
      rw [hv] at h
      simp only [HString.encodeBody_eq hw.fits] at h
      rw [if_pos (by omega)] at h
      cases h
  encode_ne_invalid := by
    intro v capacity e hv h
    have hw := (HString.validate_ok_iff v.val).mp hv
    rw [encode_hstring, (HString.validate_ok_iff v.val).mpr hw] at h
    simp only [HString.encodeBody_eq hw.fits] at h
    split_ifs at h
    cases h
  decode_ok := by
    intro r v h
    cases r with
    | str s =>
      simp only [QupValue.decode] at h
      split_ifs at h
      cases h
      rfl
    | bool b => cases h
    | i64 x => cases h
    | oversizedStr => cases h

theorem encode_variant (e : DerivedEnum) (v : e.Variant) (capacity : ℕ) :
    QupValue.encode v capacity = if 3 + (e.name v).length ≤ capacity
      then .ok (ValueRef.str (e.name v)).bytes else .error .panic := by
  have hw := (e.wire (e.name v) (List.get_mem _ _)).2
  change DerivedEnum.encodeStrValue (e.name v) capacity = _
  rw [DerivedEnum.encodeStrValue, if_neg (by rw [hw.noNul]; simp), if_pos hw.fits,
    HString.encodeBody_eq hw.fits]

instance (e : DerivedEnum) : LawfulQupValue e.Variant where
  wire v := .str (e.name v)
  validate_default := rfl
  encode_ok := by
    intro v capacity b h
    rw [encode_variant] at h
    split_ifs at h
    cases h
    exact ⟨rfl, (e.wire _ (List.get_mem _ _)).2⟩
  encode_of_validate := by
    intro v capacity _ hc
    have hl := e.length_le_maxLen v
    change 3 + e.maxLen ≤ capacity at hc
    rw [encode_variant, if_pos (by omega)]
  encode_ne_panic := by
    intro v capacity hc h
    have hl := e.length_le_maxLen v
    change 3 + e.maxLen ≤ capacity at hc
    rw [encode_variant, if_pos (by omega)] at h
    cases h
  encode_ne_invalid := by
    intro v capacity e _ h
    rw [encode_variant] at h
    split_ifs at h
    cases h
  decode_ok := by
    intro r v h
    cases r with
    | str s =>
      simp only [QupValue.decode] at h
      cases hf : (List.finRange e.names.length).find? (fun v => e.name v == s) with
      | none =>
        rw [hf] at h
        cases h
      | some u =>
        rw [hf] at h
        cases h
        have hs := List.find?_some hf
        simp only [beq_iff_eq] at hs
        rw [← hs]
        rfl
    | bool b => cases h
    | i64 x => cases h
    | oversizedStr => cases h

inductive KeyType where
  | bool
  | i64
  | string (N : ℕ)
  | derived (e : DerivedEnum)

namespace KeyType

def Value : KeyType → Type
  | bool => Bool
  | i64 => Int64
  | string N => HString N
  | derived e => e.Variant

instance : (t : KeyType) → DecidableEq t.Value
  | bool => inferInstanceAs (DecidableEq Bool)
  | i64 => inferInstanceAs (DecidableEq Int64)
  | string N => inferInstanceAs (DecidableEq (HString N))
  | derived e => inferInstanceAs (DecidableEq e.Variant)

instance : (t : KeyType) → QupValue t.Value
  | bool => inferInstanceAs (QupValue Bool)
  | i64 => inferInstanceAs (QupValue Int64)
  | string N => inferInstanceAs (QupValue (HString N))
  | derived e => inferInstanceAs (QupValue e.Variant)

instance : (t : KeyType) → LawfulQupValue t.Value
  | bool => inferInstanceAs (LawfulQupValue Bool)
  | i64 => inferInstanceAs (LawfulQupValue Int64)
  | string N => inferInstanceAs (LawfulQupValue (HString N))
  | derived e => inferInstanceAs (LawfulQupValue e.Variant)

end KeyType
end Qup.Embassy
