import Qup.Embassy.Derive
import Mathlib.Data.List.Nodup

/-!
# The value codec

The encoders with the buffer they are given, and the law that they and
`ValueRef::decode` of the core share for every key type. `QupValue.encode` is the
prefix that such an encoder writes.
-/

namespace Qup.Embassy
open Foundation Foundation.Utf8

/-- `write_exact(&mut buffer[i..], src)`; indexing past the end panics. -/
def writeAt (buffer : List UInt8) (i : ℕ) (src : List UInt8) : Except EncodeFault (List UInt8) :=
  if i + src.length ≤ buffer.length then
    .ok (buffer.take i ++ src ++ buffer.drop (i + src.length))
  else .error .panic

def overwrite (buffer front : List UInt8) : List UInt8 := front ++ buffer.drop front.length

theorem writeAt_overwrite {buffer front : List UInt8} (src : List UInt8)
    (h : front.length ≤ buffer.length) : writeAt (overwrite buffer front) front.length src =
      if (front ++ src).length ≤ buffer.length then .ok (overwrite buffer (front ++ src))
      else .error .panic := by
  have hlen : (overwrite buffer front).length = buffer.length := by
    rw [overwrite, List.length_append, List.length_drop]
    omega
  rw [writeAt, hlen, List.length_append]
  split_ifs with hfits
  · rw [overwrite, List.take_left, List.drop_append, List.drop_of_length_le (by omega),
      List.nil_append, List.drop_drop, overwrite, List.length_append]
    have hsub : front.length + (front.length + src.length - front.length) =
        front.length + src.length := by omega
    rw [hsub]
  · rfl

theorem writeAt_zero (buffer src : List UInt8) : writeAt buffer 0 src =
    if src.length ≤ buffer.length then .ok (overwrite buffer src) else .error .panic := by
  simp only [writeAt, overwrite, Nat.zero_add, List.take_zero, List.nil_append]

def encodeBool (value : Bool) (buffer : List UInt8) : Except EncodeFault (ℕ × List UInt8) := do
  let buffer ← writeAt buffer 0 [ValueKind.bool.asByte, boolByte value]
  pure (2, buffer)

def encodeI64 (value : Int64) (buffer : List UInt8) : Except EncodeFault (ℕ × List UInt8) := do
  let buffer ← writeAt buffer 0 [ValueKind.i64.asByte]
  let buffer ← writeAt buffer 1 (be64 value)
  pure (9, buffer)

def encodeString (value : Str) (buffer : List UInt8) : Except EncodeFault (ℕ × List UInt8) :=
  match HString.validate value with
  | .error e => .error (.invalid e)
  | .ok () => do
    let buffer ← writeAt buffer 0 [ValueKind.str.asByte]
    if value.length ≤ 65535 then
      let buffer ← writeAt buffer 1 (be16 (UInt16.ofNat value.length))
      let buffer ← writeAt buffer 3 value.bytes
      pure (3 + value.length, buffer)
    else .error (.invalid .valueTooLarge)

def encodeStrValue (value : Str) (buffer : List UInt8) : Except EncodeFault (ℕ × List UInt8) :=
  if value.bytes.contains 0x00 then .error (.invalid .stringContainsNul)
  else if value.length ≤ 65535 then do
    let buffer ← writeAt buffer 0 [ValueKind.str.asByte]
    let buffer ← writeAt buffer 1 (be16 (UInt16.ofNat value.length))
    let buffer ← writeAt buffer 3 value.bytes
    pure (3 + value.length, buffer)
  else .error (.invalid .valueTooLarge)

def KeyType.encodeInto : (t : KeyType) → t.Value → List UInt8 → Except EncodeFault (ℕ × List UInt8)
  | .bool, value => encodeBool value
  | .i64, value => encodeI64 value
  | .string _, value => encodeString value.val
  | .derived e, value => encodeStrValue (e.name value)

def writeValue (v : ValueRef) (buffer : List UInt8) : Except EncodeFault (ℕ × List UInt8) :=
  if v.bytes.length ≤ buffer.length then .ok (v.bytes.length, overwrite buffer v.bytes)
  else .error .panic

theorem encodeBool_eq (value : Bool) (buffer : List UInt8) :
    encodeBool value buffer = writeValue (.bool value) buffer := by
  rw [encodeBool, writeAt_zero, writeValue]
  change (if 2 ≤ buffer.length then _ else _) >>= _ = if 2 ≤ buffer.length then _ else _
  split_ifs <;> rfl

theorem encodeI64_eq (value : Int64) (buffer : List UInt8) :
    encodeI64 value buffer = writeValue (.i64 value) buffer := by
  have hlen : (ValueRef.i64 value).bytes.length = 9 := by simp [ValueRef.bytes]
  have hkind : [ValueKind.i64.asByte].length = 1 := rfl
  rw [encodeI64, writeAt_zero, writeValue, hlen, hkind]
  by_cases hone : 1 ≤ buffer.length
  · have hsecond := @writeAt_overwrite buffer [ValueKind.i64.asByte] (be64 value) hone
    have hbytes : [ValueKind.i64.asByte] ++ be64 value = (ValueRef.i64 value).bytes := rfl
    rw [hbytes, hlen, hkind] at hsecond
    rw [if_pos hone]
    simp only [bind, Except.bind, hsecond]
    split_ifs <;> rfl
  · rw [if_neg hone, if_neg (by omega)]
    rfl

theorem writeString_eq {value : Str} (hfits : value.length ≤ 65535) (buffer : List UInt8) :
    (do
      let buffer ← writeAt buffer 0 [ValueKind.str.asByte]
      let buffer ← writeAt buffer 1 (be16 (UInt16.ofNat value.length))
      let buffer ← writeAt buffer 3 value.bytes
      pure (3 + value.length, buffer) : Except EncodeFault (ℕ × List UInt8)) =
      writeValue (.str value) buffer := by
  have hkind : [ValueKind.str.asByte].length = 1 := rfl
  have hhead : ([ValueKind.str.asByte] ++ be16 (UInt16.ofNat value.length)).length = 3 := by
    rw [List.length_append, length_be16]
    rfl
  have hbytes : [ValueKind.str.asByte] ++ be16 (UInt16.ofNat value.length) ++ value.bytes =
      (ValueRef.str value).bytes := rfl
  have hlen : (ValueRef.str value).bytes.length = 3 + value.length := by
    rw [← hbytes, List.length_append, hhead]
    rfl
  rw [writeAt_zero, writeValue, hlen, hkind]
  by_cases hone : 1 ≤ buffer.length
  · have hsecond := @writeAt_overwrite buffer [ValueKind.str.asByte]
      (be16 (UInt16.ofNat value.length)) hone
    rw [hhead, hkind] at hsecond
    rw [if_pos hone]
    by_cases hthree : 3 ≤ buffer.length
    · have hthird := @writeAt_overwrite buffer _ value.bytes (hhead.symm ▸ hthree)
      rw [hbytes, hhead, hlen] at hthird
      rw [if_pos hthree] at hsecond
      simp only [bind, Except.bind, hsecond, hthird]
      split_ifs <;> rfl
    · rw [if_neg hthree] at hsecond
      simp only [bind, Except.bind, hsecond]
      rw [if_neg (by omega)]
  · rw [if_neg hone, if_neg (by omega)]
    rfl

theorem encodeString_eq {value : Str} (h : WireStr value) (buffer : List UInt8) :
    encodeString value buffer = writeValue (.str value) buffer := by
  rw [← writeString_eq h.fits, encodeString, (HString.validate_ok_iff value).mpr h]
  simp only [if_pos h.fits]

theorem encodeStrValue_eq {value : Str} (h : WireStr value) (buffer : List UInt8) :
    encodeStrValue value buffer = writeValue (.str value) buffer := by
  rw [← writeString_eq h.fits, encodeStrValue, if_neg (by rw [h.noNul]; simp), if_pos h.fits]

theorem encodeInto_eq {t : KeyType} {v : t.Value} (h : (LawfulQupValue.wire v).OnWire)
    (buffer : List UInt8) : t.encodeInto v buffer = writeValue (LawfulQupValue.wire v) buffer := by
  cases t with
  | bool => exact encodeBool_eq v buffer
  | i64 => exact encodeI64_eq v buffer
  | string N => exact encodeString_eq h buffer
  | derived e => exact encodeStrValue_eq h buffer

theorem onWire_of_validate {t : KeyType} {v : t.Value} (h : QupValue.validate v = .ok ()) :
    (LawfulQupValue.wire v).OnWire :=
  (LawfulQupValue.encode_ok (LawfulQupValue.encode_of_validate h (le_refl _))).2

theorem bytes_le_maxWireLen {t : KeyType} (v : t.Value) :
    (LawfulQupValue.wire v).bytes.length ≤ QupValue.maxWireLen t.Value := by
  cases t with
  | bool => exact le_refl 2
  | i64 => exact Nat.le_of_eq (by simp [ValueRef.bytes, LawfulQupValue.wire]; rfl)
  | string N =>
    have hN := v.property
    change (ValueRef.str v.val).bytes.length ≤ 3 + N
    rw [ValueRef.bytes, List.length_cons, length_str16]
    omega
  | derived e =>
    have hl := e.length_le_maxLen v
    change (ValueRef.str (e.name v)).bytes.length ≤ 3 + e.maxLen
    rw [ValueRef.bytes, List.length_cons, length_str16]
    omega

theorem decode_str_iff (e : DerivedEnum) (s : Str) (v : e.Variant) :
    (QupValue.decode (.str s) : Except WireValueError e.Variant) = .ok v ↔ e.name v = s := by
  have hfind : (QupValue.decode (.str s) : Except WireValueError e.Variant) = .ok v ↔
      (List.finRange e.names.length).find? (fun v => e.name v == s) = some v := by
    simp only [QupValue.decode]
    cases (List.finRange e.names.length).find? (fun v => e.name v == s) with
    | none => simp
    | some u => simp
  rw [hfind]
  constructor
  · intro h
    simpa using List.find?_some h
  · intro h
    cases hfound : (List.finRange e.names.length).find? (fun v => e.name v == s) with
    | none =>
      have hnone := List.find?_eq_none.mp hfound v (List.mem_finRange v)
      simp [h] at hnone
    | some u =>
      have hu : e.name u = s := by simpa using List.find?_some hfound
      rw [List.nodup_iff_injective_get.mp e.nodup (hu.trans h.symm)]

theorem decode_wire {t : KeyType} (v : t.Value) :
    (QupValue.decode (.ofValue (LawfulQupValue.wire v)) : Except WireValueError t.Value) =
      .ok v := by
  cases t with
  | bool => rfl
  | i64 => rfl
  | string N => exact dif_pos v.property
  | derived e => exact (decode_str_iff e (e.name v) v).mpr rfl

structure CodecLaw (t : KeyType) : Prop where
  encode_decode : ∀ (v : t.Value) (buffer : List UInt8), QupValue.validate v = .ok () →
    QupValue.maxWireLen t.Value ≤ buffer.length →
      ∃ n out, t.encodeInto v buffer = .ok (n, out) ∧ n ≤ QupValue.maxWireLen t.Value ∧
        out.length = buffer.length ∧ out.drop n = buffer.drop n ∧
          ∃ w, ValueRef.decode (out.take n) = .ok (w, []) ∧ QupValue.decode (.ofValue w) = .ok v
  decode_encode : ∀ (bytes rest : List UInt8) (w : ValueRef) (v : t.Value) (buffer : List UInt8),
    ValueRef.decode bytes = .ok (w, rest) → QupValue.decode (.ofValue w) = .ok v →
      QupValue.maxWireLen t.Value ≤ buffer.length →
        ∃ n out, t.encodeInto v buffer = .ok (n, out) ∧ bytes = out.take n ++ rest

theorem writeValue_ok {v : ValueRef} {buffer : List UInt8} (h : v.bytes.length ≤ buffer.length) :
    writeValue v buffer = .ok (v.bytes.length, overwrite buffer v.bytes) ∧
      (overwrite buffer v.bytes).length = buffer.length ∧
      (overwrite buffer v.bytes).drop v.bytes.length = buffer.drop v.bytes.length ∧
      (overwrite buffer v.bytes).take v.bytes.length = v.bytes := by
  refine ⟨if_pos h, ?_, List.drop_left, List.take_left⟩
  rw [overwrite, List.length_append, List.length_drop]
  omega

theorem codecLaw (t : KeyType) : CodecLaw t := by
  constructor
  · intro v buffer hvalid hcapacity
    have hwire := onWire_of_validate hvalid
    obtain ⟨hwrite, hlen, hdrop, htake⟩ :=
      writeValue_ok (le_trans (bytes_le_maxWireLen v) hcapacity)
    rw [encodeInto_eq hwire, hwrite]
    refine ⟨_, _, rfl, bytes_le_maxWireLen v, hlen, hdrop, LawfulQupValue.wire v, ?_,
      decode_wire v⟩
    have hdecode := ValueRef.decode_bytes hwire []
    rw [List.append_nil] at hdecode
    rw [htake, hdecode]
  · intro bytes rest w v buffer hbytes hdecode hcapacity
    obtain ⟨rfl, honWire⟩ := ValueRef.decode_ok hbytes
    obtain rfl : w = LawfulQupValue.wire v := by
      have h := LawfulQupValue.decode_ok hdecode
      cases w <;> cases hv : LawfulQupValue.wire v <;> rw [hv] at h <;> cases h <;> rfl
    obtain ⟨hwrite, -, -, htake⟩ := writeValue_ok (le_trans (bytes_le_maxWireLen v) hcapacity)
    rw [encodeInto_eq honWire, hwrite]
    exact ⟨_, _, rfl, by rw [htake]⟩

/-- The law holds for every key type, and for whatever enum the derive accepts, whose
names are those of the input's variants: it decodes exactly these, each to its own variant. -/
theorem codec_law : (∀ t : KeyType, CodecLaw t) ∧
    ∀ (toSnakeCase : Str → Str) (input : DeriveInput) (impl : EnumImpl),
      Derive.expandValueDerive toSnakeCase input = .ok impl →
        (∃ variants, input = .enumData variants ∧ impl.Of toSnakeCase variants) ∧
        ∃ e : DerivedEnum, impl.Generates e ∧ CodecLaw (.derived e) ∧
          (∀ s, (∃ v, (QupValue.decode (.str s) : Except WireValueError e.Variant) = .ok v) ↔
            s ∈ impl.variants.map fun p => p.wireName) ∧
          (∀ s v, (QupValue.decode (.str s) : Except WireValueError e.Variant) = .ok v ↔
            (impl.variants.map fun p => p.wireName)[v.val]? = some s) ∧
          ∀ v : e.Variant, (e.name v).length ≤ QupValue.maxStrLen e.Variant := by
  refine ⟨codecLaw, fun toSnakeCase input impl h => ?_⟩
  obtain ⟨hof, e, hgenerates⟩ := Derive.generates h
  have hname : ∀ s (v : e.Variant), e.name v = s ↔ e.names[v.val]? = some s := by
    intro s v
    rw [List.getElem?_eq_getElem v.isLt, Option.some.injEq]
    rfl
  refine ⟨hof, e, hgenerates, codecLaw _, fun s => ?_, fun s v => ?_, e.length_le_maxLen⟩
  · simp only [decode_str_iff, ← hgenerates.names]
    constructor
    · rintro ⟨v, rfl⟩
      exact List.get_mem _ _
    · intro hs
      obtain ⟨v, hv⟩ := List.get_of_mem hs
      exact ⟨v, hv⟩
  · have hget := congrArg (fun names : List Str => names[v.val]?) hgenerates.names
    rw [decode_str_iff, hname, ← hget]

/-- Two variants, one of them renamed and the default. -/
def renamedVariants : List EnumVariant :=
  [⟨⟨[0x6f, 0x6e], by decide⟩, .unit, []⟩,
    ⟨⟨[0x6f, 0x66, 0x66], by decide⟩, .unit, [⟨true, [.default, .name ⟨[0x6e, 0x6f], by decide⟩]⟩]⟩]

def renamedImpl : EnumImpl where
  variants := [⟨⟨[0x6f, 0x6e], by decide⟩, ⟨[0x6f, 0x6e], by decide⟩, false⟩,
    ⟨⟨[0x6f, 0x66, 0x66], by decide⟩, ⟨[0x6e, 0x6f], by decide⟩, true⟩]
  defaultVariant := 1
  maxWireLen := 2

theorem codec_law_renamed :
    Derive.expandValueDerive id (.enumData renamedVariants) = .ok renamedImpl ∧
      ∃ e : DerivedEnum, renamedImpl.Generates e ∧ CodecLaw (.derived e) := by
  have hresult : Derive.expandValueDerive id (.enumData renamedVariants) = .ok renamedImpl := by
    decide
  obtain ⟨-, e, hgenerates, hlaw, -⟩ := codec_law.2 id _ renamedImpl hresult
  exact ⟨hresult, e, hgenerates, hlaw⟩

end Qup.Embassy
