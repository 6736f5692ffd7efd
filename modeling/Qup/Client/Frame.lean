import Qup.Core.Frame

/-!
# The client's frame encoder

`build_frame` of `qup/src/client.rs`. It and `parseFrame` are inverse to each
other on legal frames.
-/

namespace Qup.Client
open Foundation

inductive ErrorKind where
  | invalidInput
  | unexpectedEof
  deriving DecidableEq, Repr

structure IoError where
  kind : ErrorKind
  message : String
  deriving DecidableEq, Repr

def buildFrame (opcode : Opcode) (payload : List UInt8) : Except IoError (List UInt8) :=
  if payload.length ≤ 65535 then
    let payloadLen := UInt16.ofNat payload.length
    let frame := [opcode.byte]
    let frame := frame ++ be16 payloadLen
    let frame := frame ++ payload
    .ok (frame ++ [computeChecksum opcode payload])
  else .error ⟨.invalidInput, "payload exceeds u16 wire length"⟩

theorem buildFrame_ok_iff (opcode : Opcode) (payload b : List UInt8) :
    buildFrame opcode payload = .ok b ↔
      payload.length ≤ 65535 ∧ b = frameBytes opcode payload := by
  unfold buildFrame
  split_ifs with h
  · rw [Except.ok.injEq]
    exact ⟨fun hb => ⟨h, hb ▸ rfl⟩, fun hb => hb.2 ▸ rfl⟩
  · exact ⟨fun hb => (by cases hb), fun hb => absurd hb.1 h⟩

theorem buildFrame_eq {payload : List UInt8} (h : payload.length ≤ 65535) (opcode : Opcode) :
    buildFrame opcode payload = .ok (frameBytes opcode payload) :=
  (buildFrame_ok_iff opcode payload _).mpr ⟨h, rfl⟩

/-- `parseFrame` accepts exactly what `buildFrame` produces for a legal opcode,
its view carries what was encoded, and building from the view gives the same
bytes again. -/
theorem parseFrame_buildFrame_bijection (direction : WireDirection) :
    (∀ b, (∃ view, parseFrame direction b = .ok view) ↔
      ∃ (opcode : Opcode) (payload : List UInt8), opcode.Legal direction ∧
        payload.length ≤ 65535 ∧ buildFrame opcode payload = .ok b) ∧
    (∀ opcode payload b, opcode.Legal direction → buildFrame opcode payload = .ok b →
        ∃ view, parseFrame direction b = .ok view ∧ view.opcode = opcode ∧
          view.payload = payload ∧ view.header.payloadLen.toNat = payload.length ∧
            b.getLast? = some view.header.checksum) ∧
    (∀ b view, parseFrame direction b = .ok view →
      buildFrame view.opcode view.payload = .ok b) := by
  refine ⟨fun b => ⟨?_, ?_⟩, ?_, ?_⟩
  · rintro ⟨view, h⟩
    obtain ⟨opcode, payload, hlegal, hlen, rfl, rfl⟩ := (parseFrame_ok_iff direction b view).mp h
    exact ⟨opcode, payload, hlegal, hlen, buildFrame_eq hlen opcode⟩
  · rintro ⟨opcode, payload, hlegal, -, hb⟩
    obtain ⟨hlen, rfl⟩ := (buildFrame_ok_iff opcode payload b).mp hb
    exact ⟨frameView opcode payload, parseFrame_frameBytes hlegal hlen⟩
  · intro opcode payload b hlegal hb
    obtain ⟨hlen, rfl⟩ := (buildFrame_ok_iff opcode payload b).mp hb
    exact ⟨frameView opcode payload, parseFrame_frameBytes hlegal hlen, rfl, rfl,
      toNat_ofNat16 hlen, List.getLast?_concat⟩
  · intro b view h
    obtain ⟨opcode, payload, -, hlen, rfl, rfl⟩ := (parseFrame_ok_iff direction b view).mp h
    exact buildFrame_eq hlen opcode

end Qup.Client
