import Qup.Client.Message

/-!
# The request methods

`ping` to `unobserve` of `qup/src/client.rs`. Each sends one request and judges
the first message that is not a `CHANGED`; a method is these two halves, so that
frames can arrive between them.
-/

namespace Qup.Client
open Foundation Foundation.Utf8

structure KeyInfo where
  keyref : UInt16
  keyflags : KeyFlags
  name : Str
  deriving DecidableEq

inductive Answer where
  | done
  | text (text : Str)
  | count (count : UInt16)
  | info (info : KeyInfo)
  | value (value : Value)
  deriving DecidableEq

structure Method where
  send : Except IoError (List UInt8)
  accept : Message → Except ClientError Answer

def unexpectedMessage (request : Opcode) (expected : String) : Message → ClientError
  | .error code => .requestError request code
  | actual => .unexpectedMessage expected actual

def expectOk (request : Opcode) : Message → Except ClientError Answer
  | .ok => .ok .done
  | actual => .error (unexpectedMessage request "OK" actual)

def ping : Method := ⟨sendEmptyRequest .ping, expectOk .ping⟩

def caps : Method where
  send := sendEmptyRequest .getcaps
  accept
    | .caps caps => .ok (.text caps)
    | actual => .error (unexpectedMessage .getcaps "CAPS" actual)

def identify : Method where
  send := sendEmptyRequest .identify
  accept
    | .identified nodeId => .ok (.text nodeId)
    | actual => .error (unexpectedMessage .identify "IDENTIFIED" actual)

def keyCount : Method where
  send := sendEmptyRequest .getkeytablen
  accept
    | .keytabLen count => .ok (.count count)
    | actual => .error (unexpectedMessage .getkeytablen "KEYTABLEN" actual)

def key (keyref : UInt16) : Method where
  send := sendKeyrefRequest .getkey keyref
  accept
    | .key keyflags name => .ok (.info ⟨keyref, keyflags, name⟩)
    | actual => .error (unexpectedMessage .getkey "KEY" actual)

def get (keyref : UInt16) : Method where
  send := sendKeyrefRequest .get keyref
  accept
    | .value value => .ok (.value value)
    | actual => .error (unexpectedMessage .get "VALUE" actual)

def write (keyref : UInt16) (value : Value) : Method where
  send := sendWriteRequest keyref value
  accept
    | .written value => .ok (.value value)
    | actual => .error (unexpectedMessage .write "WRITTEN" actual)

def observe (keyref : UInt16) : Method := ⟨sendKeyrefRequest .observe keyref, expectOk .observe⟩

def unobserve (keyref : UInt16) : Method :=
  ⟨sendKeyrefRequest .unobserve keyref, expectOk .unobserve⟩

inductive Call where
  | ping
  | caps
  | identify
  | keyCount
  | key (keyref : UInt16)
  | get (keyref : UInt16)
  | write (keyref : UInt16) (value : Value)
  | observe (keyref : UInt16)
  | unobserve (keyref : UInt16)
  deriving DecidableEq

def valueRef : Value → ValueRef
  | .bool value => .bool value
  | .i64 value => .i64 value
  | .str value => .str value

@[simp] theorem ownedValue_valueRef (v : Value) : ownedValue (valueRef v) = v := by
  cases v <;> rfl

namespace Call

def method : Call → Method
  | .ping => Client.ping
  | .caps => Client.caps
  | .identify => Client.identify
  | .keyCount => Client.keyCount
  | .key keyref => Client.key keyref
  | .get keyref => Client.get keyref
  | .write keyref value => Client.write keyref value
  | .observe keyref => Client.observe keyref
  | .unobserve keyref => Client.unobserve keyref

def message : Call → MessageRef
  | .ping => .request .ping
  | .caps => .compatibilityRequest
  | .identify => .request .identify
  | .keyCount => .request .getKeytabLen
  | .key keyref => .request (.getKey keyref)
  | .get keyref => .request (.get keyref)
  | .write keyref value => .request (.write keyref (valueRef value))
  | .observe keyref => .request (.observe keyref)
  | .unobserve keyref => .request (.unobserve keyref)

/-- What a call returns for the bytes of one frame. -/
def outcome (call : Call) (frame : List UInt8) : Except ClientError Answer :=
  decodeFrame frame >>= call.method.accept

end Call

theorem pushValue_ok_iff {payload bytes : List UInt8} {v : Value} :
    pushValue payload v = .ok bytes ↔
      (valueRef v).OnWire ∧ bytes = payload ++ (valueRef v).bytes := by
  cases v with
  | bool b => simp [pushValue, valueRef, ValueRef.bytes, ValueRef.OnWire, eq_comm]
  | i64 x => simp [pushValue, valueRef, ValueRef.bytes, ValueRef.OnWire, eq_comm]
  | str s =>
    simp only [pushValue, pushStr16]
    split_ifs with hnul hlen
    · exact ⟨fun h => (by cases h), fun h => absurd h.1.noNul (by rw [hnul]; simp)⟩
    · constructor
      · rintro h
        cases h
        exact ⟨⟨by simpa using hnul, hlen⟩, by simp [valueRef, ValueRef.bytes, str16]⟩
      · rintro ⟨-, rfl⟩
        simp [valueRef, ValueRef.bytes, str16]
    · exact ⟨fun h => (by cases h), fun h => absurd h.1.fits hlen⟩

theorem Call.opcode_legal (call : Call) : call.message.opcode.Legal .clientToNode := by
  cases call <;> (simp only [Call.message, MessageRef.opcode, RequestRef.opcode]; decide)

theorem Call.send_ok_iff (call : Call) (frame : List UInt8) : call.method.send = .ok frame ↔
    call.message.WellFormed .clientToNode ∧ frame = call.message.frame := by
  have hframe : call.message.OnWire → (buildFrame call.message.opcode call.message.payload =
      .ok frame ↔ call.message.WellFormed .clientToNode ∧ frame = call.message.frame) := by
    intro hwire
    rw [buildFrame_ok_iff]
    exact ⟨fun h => ⟨⟨call.opcode_legal, hwire, h.1⟩, h.2⟩, fun h => ⟨h.1.2.2, h.2⟩⟩
  cases call with
  | write keyref value =>
    change (pushValue (be16 keyref) value >>= buildFrame .write) = _ ↔ _
    rw [bind_ok_iff]
    constructor
    · rintro ⟨payload, hp, hbuild⟩
      obtain ⟨hwire, rfl⟩ := pushValue_ok_iff.mp hp
      exact (hframe hwire).mp hbuild
    · intro h
      exact ⟨_, pushValue_ok_iff.mpr ⟨h.1.2.1, rfl⟩, (hframe h.1.2.1).mpr h⟩
  | _ => exact hframe trivial

theorem Call.outcome_frame (call : Call) {m : MessageRef} (hm : m.WellFormed .nodeToClient) :
    call.outcome m.frame = ownedMessage m >>= call.method.accept := by
  rw [outcome, decodeFrame_frameBytes hm]

end Qup.Client
