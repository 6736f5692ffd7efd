import Qup.Client.Call

/-!
# A `WRITE` on the stream

`Client::send_write_request` with its effects: the payload and the frame are built
first, then the frame is traced and written in one piece. So an error leaves the
stream as it was, and the two limits it can come from amount to one on the string.
-/

namespace Qup.Client
open Foundation Foundation.Utf8

inductive StreamOp where
  | trace (frame : List UInt8)
  | writeAll (bytes : List UInt8)

@[reducible] def StreamOp.Res : StreamOp → Type
  | trace _ => Unit
  | writeAll _ => Except IoError Unit

def sendFrame (opcode : Opcode) (payload : List UInt8) : Program StreamOp.Res IoError Unit := do
  let frame ← Program.lift (buildFrame opcode payload)
  .act (.trace frame) fun _ => .act (.writeAll frame) fun (result : Except IoError Unit) =>
    Program.lift result

def writeRequest (keyref : UInt16) (value : Value) : Program StreamOp.Res IoError Unit := do
  let payload ← Program.lift (pushValue (be16 keyref) value)
  sendFrame .write payload

structure Traffic where
  written : List UInt8
  tracing : Bool
  traced : List (List UInt8)
  deriving DecidableEq

def Traffic.exec : (o : StreamOp) → Traffic → o.Res × Traffic
  | .trace frame, s => ((), if s.tracing then { s with traced := s.traced ++ [frame] } else s)
  | .writeAll bytes, s => (.ok (), { s with written := s.written ++ bytes })

def Traffic.send (s : Traffic) (frame : List UInt8) : Traffic :=
  { s with
    written := s.written ++ frame
    traced := if s.tracing then s.traced ++ [frame] else s.traced }

def Traffic.outcome (s : Traffic) : Except IoError (List UInt8) → Except IoError Unit × Traffic
  | .ok frame => (.ok (), s.send frame)
  | .error e => (.error e, s)

theorem eval_sendFrame (opcode : Opcode) (payload : List UInt8) (s : Traffic) :
    (sendFrame opcode payload).eval Traffic.exec s = s.outcome (buildFrame opcode payload) := by
  unfold sendFrame
  cases buildFrame opcode payload with
  | error e => rfl
  | ok frame =>
    simp only [Program.lift_ok, Program.ret_bind, Program.eval, Traffic.exec, Traffic.outcome,
      Traffic.send]
    by_cases htracing : s.tracing = true
    · simp only [if_pos htracing]
    · simp only [if_neg htracing]

theorem eval_writeRequest (keyref : UInt16) (value : Value) (s : Traffic) :
    (writeRequest keyref value).eval Traffic.exec s = s.outcome (sendWriteRequest keyref value) := by
  unfold writeRequest sendWriteRequest
  cases pushValue (be16 keyref) value with
  | error e => rfl
  | ok payload => exact eval_sendFrame .write payload s

theorem sendWriteRequest_error (keyref : UInt16) (value : Value) {e : IoError}
    (h : sendWriteRequest keyref value = .error e) : e.kind = .invalidInput := by
  unfold sendWriteRequest at h
  cases hpush : pushValue (be16 keyref) value with
  | error e' =>
    rw [hpush] at h
    cases h
    cases value with
    | bool b => cases hpush
    | i64 x => cases hpush
    | str s =>
      simp only [pushValue, pushStr16] at hpush
      split_ifs at hpush <;> (cases hpush; rfl)
  | ok payload =>
    rw [hpush] at h
    change buildFrame .write payload = .error e at h
    unfold buildFrame at h
    split_ifs at h
    cases h
    rfl

theorem payload_write_le (keyref : UInt16) (value : Value) :
    (valueRef value).OnWire ∧ (Call.write keyref value).message.payload.length ≤ 65535 ↔
      ∀ text, value = .str text → 0x00 ∉ text.bytes ∧ text.length ≤ 65530 := by
  cases value with
  | bool b => simp [valueRef, ValueRef.OnWire, Call.message, MessageRef.payload,
      RequestRef.payload, ValueRef.bytes]
  | i64 x => simp [valueRef, ValueRef.OnWire, Call.message, MessageRef.payload,
      RequestRef.payload, ValueRef.bytes]
  | str s =>
    have hlen : (Call.write keyref (.str s)).message.payload.length = s.length + 5 := by
      simp only [Call.message, MessageRef.payload, RequestRef.payload, valueRef, ValueRef.bytes,
        List.length_append, length_be16, List.length_cons, length_str16]
      omega
    rw [hlen]
    constructor
    · rintro ⟨hwire, hfits⟩ text htext
      cases htext
      exact ⟨by simpa using hwire.noNul, by omega⟩
    · intro h
      obtain ⟨hnul, hfits⟩ := h s rfl
      exact ⟨⟨by simpa using hnul, by omega⟩, by omega⟩

/-- One whole frame of the intended message, or nothing at all; the error is
exactly the string's. -/
theorem write_all_or_nothing (keyref : UInt16) (value : Value) (s : Traffic) :
    let r := (writeRequest keyref value).eval Traffic.exec s
    ((r.1 = .ok () ∧ ∃ frame, r.2 = s.send frame ∧
        ∃ view, parseFrame .clientToNode frame = .ok view ∧
          MessageRef.decode view.opcode view.payload =
            .ok (.request (.write keyref (valueRef value)))) ∨
      ((∃ e, r.1 = .error e ∧ e.kind = .invalidInput) ∧ r.2 = s)) ∧
    ((∃ e, r.1 = .error e ∧ e.kind = .invalidInput) ↔
      ∃ text, value = .str text ∧ (0x00 ∈ text.bytes ∨ 65530 < text.length)) := by
  intro r
  have hr : r = s.outcome (sendWriteRequest keyref value) := eval_writeRequest keyref value s
  have hlegal := (Call.write keyref value).opcode_legal
  have hbad : (¬ ∃ text, value = .str text ∧ (0x00 ∈ text.bytes ∨ 65530 < text.length)) ↔
      ∃ frame, sendWriteRequest keyref value = .ok frame := by
    have hsend : (∃ frame, sendWriteRequest keyref value = .ok frame) ↔
        (valueRef value).OnWire ∧ (Call.write keyref value).message.payload.length ≤ 65535 := by
      constructor
      · rintro ⟨frame, hframe⟩
        exact ((Call.send_ok_iff (.write keyref value) frame).mp hframe).1.2
      · intro h
        exact ⟨_, (Call.send_ok_iff (.write keyref value) _).mpr ⟨⟨hlegal, h⟩, rfl⟩⟩
    rw [hsend, payload_write_le]
    simp only [not_exists, not_and, not_or, Nat.not_lt]
  cases hsend : sendWriteRequest keyref value with
  | ok frame =>
    rw [hsend] at hr
    obtain ⟨hwf, rfl⟩ := (Call.send_ok_iff (.write keyref value) frame).mp hsend
    have hr' : r = (.ok (), s.send (Call.write keyref value).message.frame) := hr
    refine ⟨Or.inl ⟨by rw [hr'], (Call.write keyref value).message.frame, by rw [hr'],
      frameView _ _, parseFrame_frameBytes hwf.1 hwf.2.2, MessageRef.decode_payload hwf.2.1⟩, ?_⟩
    rw [hr']
    constructor
    · rintro ⟨e, he, -⟩
      cases he
    · intro h
      exact absurd h (hbad.mpr ⟨_, hsend⟩)
  | error e =>
    rw [hsend] at hr
    have hkind := sendWriteRequest_error keyref value hsend
    have hr' : r = (.error e, s) := hr
    refine ⟨Or.inr ⟨⟨e, by rw [hr'], hkind⟩, by rw [hr']⟩, ?_⟩
    rw [hr']
    refine ⟨fun _ => ?_, fun _ => ⟨e, rfl, hkind⟩⟩
    by_contra h
    obtain ⟨frame, hframe⟩ := hbad.mp h
    rw [hsend] at hframe
    cases hframe

end Qup.Client
