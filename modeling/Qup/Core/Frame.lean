import Qup.Core.Opcode
import Qup.Foundation.BigEndian

/-!
# Checksums and whole frames

`qup-core/src/parser/checksum.rs`, `parser/frame.rs` and `types/frame.rs`.
`frameBytes` is the layout of the protocol document: opcode, big-endian
length, payload, checksum. `parseFrame` accepts exactly the byte strings of
this form with a legal opcode.
-/

namespace Qup
open Foundation

def hiByte (x : UInt16) : UInt8 := UInt8.ofNat (x.toNat / 256)

def loByte (x : UInt16) : UInt8 := UInt8.ofNat x.toNat

def be16 (x : UInt16) : List UInt8 := [hiByte x, loByte x]

def ofBe16 (hi lo : UInt8) : UInt16 := UInt16.ofNat (BigEndian.ofBe [hi, lo])

theorem be16_eq_toBe (x : UInt16) : be16 x = BigEndian.toBe 2 x.toNat := rfl

@[simp] theorem length_be16 (x : UInt16) : (be16 x).length = 2 := rfl

@[simp] theorem ofBe16_be16 (x : UInt16) : ofBe16 (hiByte x) (loByte x) = x := by
  have h : BigEndian.ofBe (be16 x) = x.toNat := by
    rw [be16_eq_toBe, BigEndian.ofBe_toBe]
    exact x.toNat_lt
  rw [ofBe16]
  exact (congrArg UInt16.ofNat h).trans UInt16.ofNat_toNat

theorem toNat_ofBe16 (hi lo : UInt8) : (ofBe16 hi lo).toNat = BigEndian.ofBe [hi, lo] := by
  rw [ofBe16, UInt16.toNat_ofNat']
  have h := BigEndian.ofBe_lt [hi, lo]
  simp only [List.length_cons, List.length_nil] at h
  omega

@[simp] theorem be16_ofBe16 (hi lo : UInt8) : be16 (ofBe16 hi lo) = [hi, lo] := by
  rw [be16_eq_toBe, toNat_ofBe16]
  exact BigEndian.toBe_ofBe [hi, lo]

theorem toNat_ofNat16 {n : ℕ} (h : n ≤ 65535) : (UInt16.ofNat n).toNat = n := by
  rw [UInt16.toNat_ofNat']
  omega

def frameSum (frame : List UInt8) : UInt8 := frame.foldl (fun acc byte => acc + byte) 0

theorem foldl_sum (acc : UInt8) (bs : List UInt8) :
    bs.foldl (fun acc byte => acc + byte) acc = acc + frameSum bs := by
  unfold frameSum
  induction bs generalizing acc with
  | nil => simp
  | cons b bs ih =>
    rw [List.foldl_cons, List.foldl_cons, ih, ih (0 + b)]
    grind

@[simp] theorem frameSum_nil : frameSum [] = 0 := rfl

@[simp] theorem frameSum_cons (b : UInt8) (bs : List UInt8) :
    frameSum (b :: bs) = b + frameSum bs := by
  rw [frameSum, List.foldl_cons, foldl_sum]
  grind

@[simp] theorem frameSum_append (bs cs : List UInt8) :
    frameSum (bs ++ cs) = frameSum bs + frameSum cs := by
  rw [frameSum, List.foldl_append, foldl_sum]
  rfl

/-- The payload length is truncated to `u16`, as the cast in the source does. -/
def computeChecksum (opcode : Opcode) (payload : List UInt8) : UInt8 :=
  let length := UInt16.ofNat payload.length
  let acc := 0 + opcode.byte + hiByte length + loByte length
  0 - payload.foldl (fun acc byte => acc + byte) acc

theorem computeChecksum_eq (opcode : Opcode) (payload : List UInt8) :
    computeChecksum opcode payload = 0 - (opcode.byte + hiByte (UInt16.ofNat payload.length) +
      loByte (UInt16.ofNat payload.length) + frameSum payload) := by
  rw [computeChecksum, foldl_sum]
  grind

def frameOverhead : ℕ := 4

structure FrameHeader where
  opcode : Opcode
  payloadLen : UInt16
  checksum : UInt8
  deriving DecidableEq, Repr

structure FrameView where
  header : FrameHeader
  payload : List UInt8
  deriving DecidableEq, Repr

def FrameView.opcode (v : FrameView) : Opcode := v.header.opcode

def rawFrame (opcode : Opcode) (payload : List UInt8) (checksum : UInt8) : List UInt8 :=
  opcode.byte :: be16 (UInt16.ofNat payload.length) ++ payload ++ [checksum]

def frameBytes (opcode : Opcode) (payload : List UInt8) : List UInt8 :=
  rawFrame opcode payload (computeChecksum opcode payload)

def frameView (opcode : Opcode) (payload : List UInt8) : FrameView :=
  ⟨⟨opcode, UInt16.ofNat payload.length, computeChecksum opcode payload⟩, payload⟩

@[simp] theorem length_rawFrame (opcode : Opcode) (payload : List UInt8) (c : UInt8) :
    (rawFrame opcode payload c).length = payload.length + 4 := by
  simp only [rawFrame, List.length_append, List.length_cons, List.length_nil, length_be16]
  omega

theorem rawFrame_eq (opcode : Opcode) (payload : List UInt8) (c : UInt8) :
    rawFrame opcode payload c = [opcode.byte, hiByte (UInt16.ofNat payload.length),
      loByte (UInt16.ofNat payload.length)] ++ (payload ++ [c]) := rfl

theorem frameSum_eq_zero_iff (opcode : Opcode) (payload : List UInt8) (c : UInt8) :
    frameSum (rawFrame opcode payload c) = 0 ↔ c = computeChecksum opcode payload := by
  rw [computeChecksum_eq, rawFrame]
  simp only [be16, List.cons_append, List.nil_append, frameSum_cons, frameSum_append, frameSum_nil]
  constructor <;> intro h <;> grind

theorem frameSum_frameBytes (opcode : Opcode) (payload : List UInt8) :
    frameSum (frameBytes opcode payload) = 0 :=
  (frameSum_eq_zero_iff opcode payload _).mpr rfl

def parseFrame (direction : WireDirection) (frame : List UInt8) : Except FrameError FrameView :=
  if frame.length < frameOverhead then .error .truncated
  else match frame with
  | opcodeByte :: lengthHi :: lengthLo :: _ =>
    let opcode : Opcode := ⟨opcodeByte⟩
    let length := ofBe16 lengthHi lengthLo
    let payloadLen := frame.length - frameOverhead
    if payloadLen ≠ length.toNat then .error (.lengthMismatch length payloadLen)
    else
      let sum := frameSum frame
      if sum ≠ 0 then .error (.checksumMismatch sum)
      else match opcode.validate direction with
        | .error e => .error e
        | .ok () =>
          match frame.getLast? with
          | none => .error .truncated
          | some checksum =>
            let withoutChecksum := frame.dropLast
            if withoutChecksum.length < 3 then .error .truncated
            else .ok ⟨⟨opcode, length, checksum⟩, withoutChecksum.drop 3⟩
  | _ => .error .truncated

/-- What `parseFrame` does once the declared length is right: the checksum is
looked at before the opcode. -/
theorem parseFrame_rawFrame (direction : WireDirection) (opcode : Opcode) (payload : List UInt8)
    (hlen : payload.length ≤ 65535) (c : UInt8) :
    parseFrame direction (rawFrame opcode payload c) =
      if c = computeChecksum opcode payload then
        (opcode.validate direction).map fun _ => frameView opcode payload
      else .error (.checksumMismatch (frameSum (rawFrame opcode payload c))) := by
  have hn := toNat_ofNat16 hlen
  have hiff := frameSum_eq_zero_iff opcode payload c
  have hlength := length_rawFrame opcode payload c
  have hlast : (rawFrame opcode payload c).getLast? = some c := List.getLast?_concat
  have hdrop : (rawFrame opcode payload c).dropLast =
      opcode.byte :: be16 (UInt16.ofNat payload.length) ++ payload := List.dropLast_concat
  unfold parseFrame
  rw [if_neg (by rw [hlength, frameOverhead]; omega)]
  simp only [hlength]
  simp only [rawFrame, be16, List.cons_append, List.nil_append] at hiff hlast hdrop ⊢
  simp only [ofBe16_be16, hn, frameOverhead, Nat.add_sub_cancel, ne_eq, not_true_eq_false,
    if_false, hlast, hdrop]
  by_cases hc : c = computeChecksum opcode payload
  · rw [if_neg (not_not.mpr (hiff.mpr hc)), if_pos hc]
    cases opcode.validate direction with
    | error e => rfl
    | ok u => simp [Except.map, frameView, hc]
  · rw [if_pos (fun h => hc (hiff.mp h)), if_neg hc]

theorem parseFrame_shape {direction : WireDirection} {b : List UInt8} {view : FrameView}
    (h : parseFrame direction b = .ok view) :
    ∃ (opcode : Opcode) (payload : List UInt8) (c : UInt8), payload.length ≤ 65535 ∧
      b = rawFrame opcode payload c := by
  unfold parseFrame at h
  split_ifs at h with hshort
  simp only [frameOverhead, not_lt] at hshort
  split at h
  · rename_i opcodeByte hi lo rest
    simp only [frameOverhead, List.length_cons] at h hshort
    have hl : rest.length + 1 + 1 + 1 - 4 = (ofBe16 hi lo).toNat := by
      by_contra hl
      rw [if_pos hl] at h
      cases h
    have hne : rest ≠ [] := by
      rintro rfl
      simp at hshort
    have hrest : rest.dropLast ++ [rest.getLast hne] = rest := List.dropLast_concat_getLast hne
    have hdl : rest.dropLast.length = (ofBe16 hi lo).toNat := by
      rw [List.length_dropLast]
      omega
    refine ⟨⟨opcodeByte⟩, rest.dropLast, rest.getLast hne, ?_, ?_⟩
    · have hlt := (ofBe16 hi lo).toNat_lt
      omega
    · rw [rawFrame, hdl, UInt16.ofNat_toNat, be16_ofBe16]
      simp only [List.cons_append, List.nil_append, hrest]
  · cases h

theorem parseFrame_ok_iff (direction : WireDirection) (b : List UInt8) (view : FrameView) :
    parseFrame direction b = .ok view ↔
      ∃ (opcode : Opcode) (payload : List UInt8), opcode.Legal direction ∧
        payload.length ≤ 65535 ∧ b = frameBytes opcode payload ∧ view = frameView opcode payload := by
  constructor
  · intro h
    obtain ⟨opcode, payload, c, hlen, rfl⟩ := parseFrame_shape h
    rw [parseFrame_rawFrame direction opcode payload hlen c] at h
    split_ifs at h with hc
    subst hc
    cases hv : opcode.validate direction with
    | error e =>
      rw [hv] at h
      cases h
    | ok u =>
      rw [hv] at h
      cases h
      exact ⟨opcode, payload, (opcode.validate_ok_iff direction).mp hv, hlen, rfl, rfl⟩
  · rintro ⟨opcode, payload, hlegal, hlen, rfl, rfl⟩
    rw [frameBytes, parseFrame_rawFrame direction opcode payload hlen, if_pos rfl,
      (opcode.validate_ok_iff direction).mpr hlegal]
    rfl

def declaredLen : List UInt8 → ℕ
  | _ :: hi :: lo :: _ => (ofBe16 hi lo).toNat
  | _ => 0

theorem declaredLen_rawFrame (opcode : Opcode) {payload : List UInt8}
    (hlen : payload.length ≤ 65535) (c : UInt8) (t : List UInt8) :
    declaredLen (rawFrame opcode payload c ++ t) = payload.length := by
  simp only [rawFrame, be16, List.cons_append, declaredLen, ofBe16_be16, toNat_ofNat16 hlen]

theorem stream_eq_rawFrame {s : List UInt8} (h : declaredLen s + 4 ≤ s.length) :
    ∃ (opcode : Opcode) (payload : List UInt8) (c : UInt8) (t : List UInt8),
      payload.length ≤ 65535 ∧ s = rawFrame opcode payload c ++ t := by
  match s with
  | [] | [_] | [_, _] => simp at h
  | op :: hi :: lo :: s =>
    simp only [declaredLen, List.length_cons] at h
    have hlt := (ofBe16 hi lo).toNat_lt
    have hp : (s.take (ofBe16 hi lo).toNat).length = (ofBe16 hi lo).toNat := by
      rw [List.length_take]
      omega
    obtain ⟨c, t, ht⟩ : ∃ c t, s.drop (ofBe16 hi lo).toNat = c :: t := by
      apply List.exists_cons_of_length_pos
      rw [List.length_drop]
      omega
    refine ⟨⟨op⟩, s.take (ofBe16 hi lo).toNat, c, t, by omega, ?_⟩
    rw [rawFrame, hp, UInt16.ofNat_toNat, be16_ofBe16, List.append_assoc, List.singleton_append,
      ← ht, List.append_assoc, List.take_append_drop]
    rfl

theorem parseFrame_frameBytes {direction : WireDirection} {opcode : Opcode}
    {payload : List UInt8} (hlegal : opcode.Legal direction) (hlen : payload.length ≤ 65535) :
    parseFrame direction (frameBytes opcode payload) = .ok (frameView opcode payload) :=
  (parseFrame_ok_iff direction _ _).mpr ⟨opcode, payload, hlegal, hlen, rfl, rfl⟩

end Qup
