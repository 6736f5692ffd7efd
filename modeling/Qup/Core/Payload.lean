import Qup.Core.Frame
import Qup.Foundation.Utf8

/-!
# Payload bodies

`qup-core/src/types/cursor.rs`, `scalar.rs`, `value.rs`, `caps.rs` and the
payload half of `error.rs`. A cursor is the unread tail of a payload; each read
returns the value and the new tail. `ValueRef.bytes` is the layout of the
`value` type in the protocol document, and decoding inverts it.
-/

namespace Qup
open Foundation Foundation.Utf8

inductive PayloadError where
  | invalidLength (opcode : Opcode) (expected actual : ℕ)
  | internalLengthExceedsPayload
  | trailingBytes (remaining : ℕ)
  | invalidUtf8 (error : Utf8.Error)
  | stringContainsNul
  | invalidBool (value : UInt8)
  | invalidKeyFlags (bits : UInt8)
  | invalidValueKind (value : UInt8)
  | unknownOpcode (opcode : Opcode)
  | malformedCaps
  deriving DecidableEq, Repr

def be64 (x : Int64) : List UInt8 := BigEndian.toBe 8 x.toUInt64.toNat

def ofBe64 (bs : List UInt8) : Int64 := (UInt64.ofNat (BigEndian.ofBe bs)).toInt64

@[simp] theorem length_be64 (x : Int64) : (be64 x).length = 8 := BigEndian.length_toBe 8 _

@[simp] theorem ofBe64_be64 (x : Int64) : ofBe64 (be64 x) = x := by
  rw [ofBe64, be64, BigEndian.ofBe_toBe]
  · rw [UInt64.ofNat_toNat]
    rfl
  · have h := x.toUInt64.toNat_lt
    norm_num at h ⊢
    exact h

theorem be64_ofBe64 {bs : List UInt8} (h : bs.length = 8) : be64 (ofBe64 bs) = bs := by
  have hlt := BigEndian.ofBe_lt bs
  rw [h] at hlt
  have hn : (ofBe64 bs).toUInt64.toNat = BigEndian.ofBe bs := by
    change (UInt64.ofNat (BigEndian.ofBe bs)).toNat = _
    rw [UInt64.toNat_ofNat']
    exact Nat.mod_eq_of_lt (by norm_num at hlt ⊢; exact hlt)
  rw [be64, hn, ← h, BigEndian.toBe_ofBe]

namespace PayloadCursor

def finish (remaining : List UInt8) : Except PayloadError Unit :=
  if remaining.isEmpty then .ok () else .error (.trailingBytes remaining.length)

def take (len : ℕ) (remaining : List UInt8) : Except PayloadError (List UInt8 × List UInt8) :=
  if remaining.length < len then .error .internalLengthExceedsPayload
  else .ok (remaining.take len, remaining.drop len)

def readU8 (remaining : List UInt8) : Except PayloadError (UInt8 × List UInt8) :=
  match take 1 remaining with
  | .ok ([b], rest) => .ok (b, rest)
  | .ok _ => .error .internalLengthExceedsPayload
  | .error e => .error e

def readU16 (remaining : List UInt8) : Except PayloadError (UInt16 × List UInt8) :=
  match take 2 remaining with
  | .ok ([hi, lo], rest) => .ok (ofBe16 hi lo, rest)
  | .ok _ => .error .internalLengthExceedsPayload
  | .error e => .error e

def readI64 (remaining : List UInt8) : Except PayloadError (Int64 × List UInt8) :=
  match take 8 remaining with
  | .ok (bytes, rest) => .ok (ofBe64 bytes, rest)
  | .error e => .error e

def readBytes16 (remaining : List UInt8) : Except PayloadError (List UInt8 × List UInt8) :=
  match readU16 remaining with
  | .ok (len, rest) => take len.toNat rest
  | .error e => .error e

def readStr16 (remaining : List UInt8) : Except PayloadError (Str × List UInt8) :=
  match readBytes16 remaining with
  | .error e => .error e
  | .ok (bytes, rest) =>
    if bytes.contains 0x00 then .error .stringContainsNul
    else match fromUtf8 bytes with
      | .ok s => .ok (s, rest)
      | .error e => .error (.invalidUtf8 e)

theorem finish_ok_iff (r : List UInt8) (u : Unit) : finish r = .ok u ↔ r = [] := by
  cases r <;> simp [finish]

@[simp] theorem take_append {len : ℕ} {bs : List UInt8} (h : bs.length = len) (r : List UInt8) :
    take len (bs ++ r) = .ok (bs, r) := by
  subst h
  simp [take]

theorem take_ok {len : ℕ} {r bs rest : List UInt8} (h : take len r = .ok (bs, rest)) :
    r = bs ++ rest ∧ bs.length = len := by
  unfold take at h
  split_ifs at h with hl
  cases h
  exact ⟨(List.take_append_drop len r).symm, by rw [List.length_take]; omega⟩

@[simp] theorem readU8_cons (b : UInt8) (r : List UInt8) : readU8 (b :: r) = .ok (b, r) := by
  simp [readU8, take]

theorem readU8_ok {r rest : List UInt8} {b : UInt8} (h : readU8 r = .ok (b, rest)) :
    r = b :: rest := by
  cases r with
  | nil => simp [readU8, take] at h
  | cons c r =>
    rw [readU8_cons] at h
    cases h
    rfl

@[simp] theorem readU16_append (x : UInt16) (r : List UInt8) :
    readU16 (be16 x ++ r) = .ok (x, r) := by
  rw [readU16, take_append (length_be16 x)]
  simp [be16]

theorem readU16_ok {r rest : List UInt8} {x : UInt16} (h : readU16 r = .ok (x, rest)) :
    r = be16 x ++ rest := by
  match r with
  | [] => simp [readU16, take] at h
  | [_] => simp [readU16, take] at h
  | hi :: lo :: r =>
    simp only [readU16, take, List.length_cons] at h
    rw [if_neg (by omega)] at h
    cases h
    rw [be16_ofBe16]
    rfl

@[simp] theorem readI64_append (x : Int64) (r : List UInt8) :
    readI64 (be64 x ++ r) = .ok (x, r) := by
  simp [readI64, take_append (length_be64 x)]

theorem readI64_ok {r rest : List UInt8} {x : Int64} (h : readI64 r = .ok (x, rest)) :
    r = be64 x ++ rest := by
  simp only [readI64] at h
  cases ht : take 8 r with
  | error e =>
    rw [ht] at h
    cases h
  | ok p =>
    obtain ⟨bs, rest'⟩ := p
    rw [ht] at h
    cases h
    obtain ⟨hr, hl⟩ := take_ok ht
    rw [hr, be64_ofBe64 hl]

end PayloadCursor

def str16 (s : Str) : List UInt8 := be16 (UInt16.ofNat s.length) ++ s.bytes

structure WireStr (s : Str) : Prop where
  noNul : s.bytes.contains 0x00 = false
  fits : s.length ≤ 65535

theorem wireStr_empty : WireStr Str.empty := ⟨by decide, by decide⟩

@[simp] theorem length_str16 (s : Str) : (str16 s).length = s.length + 2 := by
  rw [str16, List.length_append, length_be16, Str.length]
  omega

namespace PayloadCursor

theorem readStr16_append {s : Str} (hs : WireStr s) (r : List UInt8) :
    readStr16 (str16 s ++ r) = .ok (s, r) := by
  have hn := toNat_ofNat16 hs.fits
  have hb : readBytes16 (str16 s ++ r) = .ok (s.bytes, r) := by
    rw [readBytes16, str16, List.append_assoc, readU16_append]
    exact take_append hn.symm r
  rw [readStr16, hb]
  simp only [hs.noNul, Bool.false_eq_true, if_false, fromUtf8_bytes]

theorem readStr16_ok {r rest : List UInt8} {s : Str} (h : readStr16 r = .ok (s, rest)) :
    r = str16 s ++ rest ∧ WireStr s := by
  unfold readStr16 at h
  cases hb : readBytes16 r with
  | error e =>
    rw [hb] at h
    cases h
  | ok p =>
    obtain ⟨bytes, rest'⟩ := p
    rw [hb] at h
    simp only at h
    split_ifs at h with hnul
    cases hu : fromUtf8 bytes with
    | error e =>
      rw [hu] at h
      cases h
    | ok s' =>
      rw [hu] at h
      cases h
      have hbytes := fromUtf8_ok_iff.mp hu
      unfold readBytes16 at hb
      cases hl : readU16 r with
      | error e =>
        rw [hl] at hb
        cases hb
      | ok q =>
        obtain ⟨len, rest₁⟩ := q
        rw [hl] at hb
        obtain ⟨hr₁, hlen⟩ := take_ok hb
        have hr := readU16_ok hl
        have hlt := len.toNat_lt
        refine ⟨?_, by rw [hbytes]; simpa using hnul, by rw [Str.length, hbytes]; omega⟩
        rw [str16, Str.length, hbytes, hlen, UInt16.ofNat_toNat, hr, hr₁, List.append_assoc]

end PayloadCursor

def decodeBool (byte : UInt8) : Except PayloadError Bool :=
  if byte = 0x00 then .ok false
  else if byte = 0x01 then .ok true
  else .error (.invalidBool byte)

def boolByte (b : Bool) : UInt8 := if b then 1 else 0

@[simp] theorem decodeBool_boolByte (b : Bool) : decodeBool (boolByte b) = .ok b := by
  cases b <;> rfl

theorem decodeBool_ok {byte : UInt8} {b : Bool} (h : decodeBool byte = .ok b) :
    byte = boolByte b := by
  unfold decodeBool at h
  split_ifs at h with h0 h1 <;> cases h
  · exact h0
  · exact h1

/-- `keyflags`: only bits `0..=2` may be set. -/
structure KeyFlags where
  bits : UInt8
  valid : bits &&& ~~~0x07 = 0
  deriving DecidableEq

namespace KeyFlags

def readable : UInt8 := 0b001
def writable : UInt8 := 0b010
def observable : UInt8 := 0b100

def new (bits : UInt8) : Except PayloadError KeyFlags :=
  if h : bits &&& ~~~0x07 = 0 then .ok ⟨bits, h⟩ else .error (.invalidKeyFlags bits)

def isReadable (f : KeyFlags) : Bool := f.bits &&& readable != 0
def isWritable (f : KeyFlags) : Bool := f.bits &&& writable != 0
def isObservable (f : KeyFlags) : Bool := f.bits &&& observable != 0

@[simp] theorem new_bits (f : KeyFlags) : new f.bits = .ok f := by
  rw [new, dif_pos f.valid]

theorem new_ok {bits : UInt8} {f : KeyFlags} (h : new bits = .ok f) : f.bits = bits := by
  unfold new at h
  split_ifs at h
  cases h
  rfl

end KeyFlags

inductive ValueKind where
  | bool
  | i64
  | str
  deriving DecidableEq, Repr

namespace ValueKind

def fromByte (byte : UInt8) : Except PayloadError ValueKind :=
  if byte = 0x01 then .ok .bool
  else if byte = 0x02 then .ok .i64
  else if byte = 0x03 then .ok .str
  else .error (.invalidValueKind byte)

def asByte : ValueKind → UInt8
  | .bool => 0x01
  | .i64 => 0x02
  | .str => 0x03

@[simp] theorem fromByte_asByte (k : ValueKind) : fromByte k.asByte = .ok k := by
  cases k <;> rfl

theorem fromByte_ok {byte : UInt8} {k : ValueKind} (h : fromByte byte = .ok k) :
    byte = k.asByte := by
  unfold fromByte at h
  split_ifs at h with h1 h2 h3 <;> cases h
  · exact h1
  · exact h2
  · exact h3

end ValueKind

inductive ValueRef where
  | bool (value : Bool)
  | i64 (value : Int64)
  | str (value : Str)
  deriving DecidableEq

namespace ValueRef

def decode (cursor : List UInt8) : Except PayloadError (ValueRef × List UInt8) :=
  match PayloadCursor.readU8 cursor with
  | .error e => .error e
  | .ok (byte, rest) =>
    match ValueKind.fromByte byte with
    | .error e => .error e
    | .ok .bool =>
      match PayloadCursor.readU8 rest with
      | .error e => .error e
      | .ok (value, rest) => (decodeBool value).map fun b => (.bool b, rest)
    | .ok .i64 => (PayloadCursor.readI64 rest).map fun r => (.i64 r.1, r.2)
    | .ok .str => (PayloadCursor.readStr16 rest).map fun r => (.str r.1, r.2)

def bytes : ValueRef → List UInt8
  | .bool b => [ValueKind.bool.asByte, boolByte b]
  | .i64 x => ValueKind.i64.asByte :: be64 x
  | .str s => ValueKind.str.asByte :: str16 s

def OnWire : ValueRef → Prop
  | .bool _ => True
  | .i64 _ => True
  | .str s => WireStr s

theorem decode_bytes {v : ValueRef} (hv : v.OnWire) (r : List UInt8) :
    decode (v.bytes ++ r) = .ok (v, r) := by
  cases v with
  | bool b => simp [decode, bytes, Except.map]
  | i64 x => simp [decode, bytes, Except.map]
  | str s => simp [decode, bytes, PayloadCursor.readStr16_append hv, Except.map]

theorem decode_ok {c rest : List UInt8} {v : ValueRef} (h : decode c = .ok (v, rest)) :
    c = v.bytes ++ rest ∧ v.OnWire := by
  unfold decode at h
  cases hk : PayloadCursor.readU8 c with
  | error e =>
    rw [hk] at h
    cases h
  | ok p =>
    obtain ⟨byte, rest₁⟩ := p
    rw [hk] at h
    simp only at h
    have hc := PayloadCursor.readU8_ok hk
    cases hf : ValueKind.fromByte byte with
    | error e =>
      rw [hf] at h
      cases h
    | ok k =>
      rw [hf] at h
      have hb := ValueKind.fromByte_ok hf
      subst hc hb
      cases k with
      | bool =>
        simp only at h
        cases hv : PayloadCursor.readU8 rest₁ with
        | error e =>
          rw [hv] at h
          cases h
        | ok q =>
          obtain ⟨value, rest₂⟩ := q
          rw [hv] at h
          simp only [Except.map] at h
          cases hd : decodeBool value with
          | error e =>
            rw [hd] at h
            cases h
          | ok b =>
            rw [hd] at h
            cases h
            rw [PayloadCursor.readU8_ok hv, decodeBool_ok hd]
            exact ⟨rfl, trivial⟩
      | i64 =>
        simp only [Except.map] at h
        cases hv : PayloadCursor.readI64 rest₁ with
        | error e =>
          rw [hv] at h
          cases h
        | ok q =>
          obtain ⟨x, rest₂⟩ := q
          rw [hv] at h
          cases h
          rw [PayloadCursor.readI64_ok hv]
          exact ⟨rfl, trivial⟩
      | str =>
        simp only [Except.map] at h
        cases hv : PayloadCursor.readStr16 rest₁ with
        | error e =>
          rw [hv] at h
          cases h
        | ok q =>
          obtain ⟨s, rest₂⟩ := q
          rw [hv] at h
          cases h
          obtain ⟨hr, hs⟩ := PayloadCursor.readStr16_ok hv
          rw [hr]
          exact ⟨rfl, hs⟩

end ValueRef

def checkedAdd (a b : ℕ) : Option ℕ := if a + b < 2 ^ 64 then some (a + b) else none

structure CapsRef where
  raw : Str
  supportsChanged : Bool
  deriving DecidableEq

namespace CapsRef

/-- The loop of `CapsRef::parse` at position `index` of a string of `total`
bytes; `rest` is the string from there on and `seen` the response recorded for
each request letter, or zero. -/
def parseLoop (total : ℕ) : List UInt8 → ℕ → List UInt8 → Except PayloadError Unit
  | [], _, _ => .ok ()
  | requestByte :: rest, index, seen =>
    if requestByte = 0x21 then
      if checkedAdd index 1 ≠ some total then .error .malformedCaps else .ok ()
    else
      match checkedAdd index 1 with
      | none => .error .malformedCaps
      | some responseIndex =>
        match rest with
        | [] => .error .malformedCaps
        | responseByte :: rest =>
          let request : Opcode := ⟨requestByte⟩
          let response : Opcode := ⟨responseByte⟩
          if request.opcodeClass ≠ .request then .error .malformedCaps
          else if response.opcodeClass ≠ .ordinaryResponse then .error .malformedCaps
          else if request.expectedOrdinaryResponse.any (fun expected => expected != response) then
            .error .malformedCaps
          else if request.byte < 0x41 then .error .malformedCaps
          else
            let slot := (request.byte - 0x41).toNat
            match seen[slot]? with
            | none => .error .malformedCaps
            | some seenResponse =>
              if seenResponse ≠ 0 ∧ seenResponse ≠ response.byte then .error .malformedCaps
              else
                let seen := if seenResponse = 0 then seen.set slot response.byte else seen
                parseLoop total rest (responseIndex + 1) seen

def parse (raw : Str) : Except PayloadError CapsRef :=
  if raw.bytes.any (fun b => 0x80 ≤ b) then .error .malformedCaps
  else match parseLoop raw.length raw.bytes 0 (List.replicate 26 0) with
    | .error e => .error e
    | .ok () => .ok ⟨raw, raw.bytes.getLast? == some 0x21⟩

theorem parse_raw {raw : Str} {caps : CapsRef} (h : parse raw = .ok caps) : caps.raw = raw := by
  unfold parse at h
  split_ifs at h
  cases hl : parseLoop raw.length raw.bytes 0 (List.replicate 26 0) with
  | error e =>
    rw [hl] at h
    cases h
  | ok u =>
    rw [hl] at h
    cases h
    rfl

end CapsRef
end Qup
