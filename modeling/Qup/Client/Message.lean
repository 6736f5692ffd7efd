import Qup.Client.Frame
import Qup.Core.Message
import Qup.Core.ReadFrame

/-!
# The client's messages

Owned values and messages of `qup/src/client.rs`, `next_message` as a reader
over the stream, and the request methods up to the point where each of them
waits for its response.
-/

namespace Qup.Client
open Foundation Foundation.Utf8

inductive Value where
  | bool (value : Bool)
  | i64 (value : Int64)
  | str (value : Str)
  deriving DecidableEq

inductive Message where
  | ok
  | caps (caps : Str)
  | identified (nodeId : Str)
  | keytabLen (count : UInt16)
  | key (keyflags : KeyFlags) (name : Str)
  | value (value : Value)
  | written (value : Value)
  | error (code : UInt8)
  | changed (keyref : UInt16)
  deriving DecidableEq

inductive ProtocolError where
  | frame (error : FrameError)
  | payload (error : PayloadError)
  | text (message : String)
  deriving DecidableEq

inductive ClientError where
  | io (error : IoError)
  | protocol (error : ProtocolError)
  | requestError (request : Opcode) (code : UInt8)
  | unexpectedMessage (expected : String) (actual : Message)
  deriving DecidableEq

def protocolError (message : String) : ClientError := .protocol (.text message)

def frameError (error : FrameError) : ClientError := .protocol (.frame error)

def payloadError (error : PayloadError) : ClientError := .protocol (.payload error)

def ownedValue : ValueRef → Value
  | .bool value => .bool value
  | .i64 value => .i64 value
  | .str value => .str value

def ownedOrdinaryMessage : OrdinaryResponseRef → Message
  | .ok => .ok
  | .identified nodeid => .identified nodeid
  | .keytabLen count => .keytabLen count
  | .key keyflags name => .key keyflags name
  | .value value => .value (ownedValue value)
  | .written value => .written (ownedValue value)

def ownedMessage : MessageRef → Except ClientError Message
  | .ordinaryResponse ordinary => .ok (ownedOrdinaryMessage ordinary)
  | .compatibilityResponse caps => .ok (.caps caps.raw)
  | .error error => .ok (.error error.code)
  | .changed keyref => .ok (.changed keyref)
  | .request _ | .compatibilityRequest =>
    .error (protocolError "node sent a client-direction message")

def decodeFrame (frame : List UInt8) : Except ClientError Message :=
  match parseFrame .nodeToClient frame with
  | .error error => .error (frameError error)
  | .ok view =>
    match MessageRef.decode view.opcode view.payload with
    | .error error => .error (payloadError error)
    | .ok message => ownedMessage message

def nextMessage : Reader UInt8 ClientError Message := do
  let header ← Reader.readExact 3
  let payloadLen := (ofBe16 (byteAt header 1) (byteAt header 2)).toNat
  let payload ← Reader.readExact payloadLen
  let checksum ← Reader.readExact 1
  Program.lift (decodeFrame (header ++ payload ++ checksum))

def pushStr16 (payload : List UInt8) (value : Str) : Except IoError (List UInt8) :=
  if value.bytes.contains 0x00 then .error ⟨.invalidInput, "strings must not contain NUL bytes"⟩
  else if value.length ≤ 65535 then
    .ok (payload ++ be16 (UInt16.ofNat value.length) ++ value.bytes)
  else .error ⟨.invalidInput, "string exceeds u16 wire length"⟩

def pushValue (payload : List UInt8) : Value → Except IoError (List UInt8)
  | .bool value => .ok (payload ++ [ValueKind.bool.asByte] ++ [boolByte value])
  | .i64 value => .ok (payload ++ [ValueKind.i64.asByte] ++ be64 value)
  | .str value => pushStr16 (payload ++ [ValueKind.str.asByte]) value

def sendEmptyRequest (opcode : Opcode) : Except IoError (List UInt8) := buildFrame opcode []

def sendKeyrefRequest (opcode : Opcode) (keyref : UInt16) : Except IoError (List UInt8) :=
  buildFrame opcode (be16 keyref)

def sendWriteRequest (keyref : UInt16) (value : Value) : Except IoError (List UInt8) := do
  let payload ← pushValue (be16 keyref) value
  buildFrame .write payload

theorem ownedMessage_legal {m : MessageRef} (hm : m.opcode.Legal .nodeToClient) :
    ∃ message, ownedMessage m = .ok message := by
  cases m with
  | request r =>
    have h : ¬ r.opcode.Legal .nodeToClient := by cases r <;> (simp only [RequestRef.opcode]; decide)
    exact absurd hm h
  | compatibilityRequest => exact absurd hm (by decide)
  | ordinaryResponse r => exact ⟨_, rfl⟩
  | compatibilityResponse caps => exact ⟨_, rfl⟩
  | error e => exact ⟨_, rfl⟩
  | changed keyref => exact ⟨_, rfl⟩

theorem decodeFrame_frameBytes {m : MessageRef} (hm : m.WellFormed .nodeToClient) :
    decodeFrame m.frame = ownedMessage m := by
  obtain ⟨hlegal, hwire, hlen⟩ := hm
  rw [decodeFrame, MessageRef.frame, parseFrame_frameBytes hlegal hlen]
  simp only [frameView, FrameView.opcode, MessageRef.decode_payload hwire]

theorem run_nextMessage_frame {m : MessageRef} (hm : m.WellFormed .nodeToClient) (t : List UInt8) :
    Reader.run nextMessage (m.frame ++ t) =
      Reader.run (Program.lift (ownedMessage m)) t := by
  have hlen := hm.2.2
  have hdecode := decodeFrame_frameBytes hm
  rw [MessageRef.frame, frameBytes, rawFrame_eq] at hdecode ⊢
  rw [nextMessage, Reader.readExact_bind, List.append_assoc,
    Reader.run_act_append _ (show _ = 3 from rfl)]
  simp only [byteAt, List.getD_cons_zero, List.getD_cons_succ, ofBe16_be16, toNat_ofNat16 hlen,
    Reader.readExact_bind]
  rw [List.append_assoc, Reader.run_act_append _ rfl, Reader.run_act_append _ (show _ = 1 from rfl),
    ← hdecode, List.append_assoc]

theorem run_nextMessage_short {s : List UInt8} (hs : s.length < declaredLen s + 4) :
    Reader.run nextMessage s = .starved := by
  match s with
  | [] | [_] | [_, _] => exact Reader.run_act_of_lt _ (by simp)
  | op :: hi :: lo :: s =>
    simp only [declaredLen, List.length_cons] at hs
    rw [nextMessage, Reader.readExact_bind, Reader.run_act_three]
    simp only [byteAt, List.getD_cons_zero, List.getD_cons_succ, Reader.readExact_bind]
    by_cases hp : (ofBe16 hi lo).toNat ≤ s.length
    · rw [Reader.run_act_of_le _ hp]
      refine Reader.run_act_of_lt _ ?_
      rw [List.length_drop]
      omega
    · exact Reader.run_act_of_lt _ (by omega)

end Qup.Client
