import Qup.TestNode.Keys
import Qup.Foundation.Program

/-!
# The test node's tasks

What a connection's task does with a message, and what the background tasks do,
as programs over the shared state. A request is one access another task can see:
one atomic operation, one critical section of a mutex, or one frame put into a
connection's outgoing queue.
-/

namespace Qup.TestNode
open Foundation Foundation.Program Foundation.Utf8

inductive Counter where
  | rngSeed
  | mirrorGeneration
  deriving DecidableEq

inductive Op where
  | load (cell : Cell)
  | swap (cell : Cell) (value : cell.Value)
  | loadCounter (counter : Counter)
  | fetchAdd (counter : Counter) (amount : UInt64)
  | elapsed
  | connections
  | isObserving (connection : ℕ) (keyref : UInt16)
  | observe (connection : ℕ) (keyref : UInt16)
  | unobserve (connection : ℕ) (keyref : UInt16)
  /-- Puts a frame into a connection's queue; answers whether its writer still takes frames. -/
  | send (connection : ℕ) (frame : MessageRef)
  | scheduleMirrorUpdate (generation : UInt64)
  deriving DecidableEq

@[reducible] def Op.Res : Op → Type
  | .load cell => cell.Value
  | .swap cell _ => cell.Value
  | .loadCounter _ | .fetchAdd _ _ | .elapsed => UInt64
  | .connections => List ℕ
  | .isObserving _ _ | .send _ _ => Bool
  | .observe _ _ | .unobserve _ _ | .scheduleMirrorUpdate _ => Unit

abbrev Action (ε α : Type) := Program Op.Res ε α

variable {ε : Type}

def send (connection : ℕ) (frame : MessageRef) : Action ε Bool := .act (.send connection frame) .ret

def encodeOk : MessageRef := .ordinaryResponse .ok
def encodeIdentified : MessageRef := .ordinaryResponse (.identified nodeId)
def encodeKeytabLen : MessageRef := .ordinaryResponse (.keytabLen keyCount)
def encodeKey (spec : KeySpec) : MessageRef := .ordinaryResponse (.key spec.flags spec.name)
def encodeValue (value : WireValue) : MessageRef := .ordinaryResponse (.value value.valueRef)
def encodeWritten (value : WireValue) : MessageRef := .ordinaryResponse (.written value.valueRef)
def encodeError (code : UInt8) : MessageRef := .error ⟨code⟩
def encodeCaps : MessageRef := .compatibilityResponse ⟨caps, true⟩
def encodeChanged (keyref : UInt16) : MessageRef := .changed keyref

def notifyAll (keyref : UInt16) : List ℕ → Action ε Unit
  | [] => pure ()
  | connection :: connections => do
    let observing ← perform (.isObserving connection keyref)
    if observing then
      let _sent ← send connection (encodeChanged keyref)
      notifyAll keyref connections
    else notifyAll keyref connections

def broadcastChanged (keyref : UInt16) : Action ε Unit := do
  let connections ← perform .connections
  notifyAll keyref connections

def read (cell : Cell) : Action ε WireValue := do
  let value ← perform (.load cell)
  pure (cell.wire value)

def uptimeSeconds : Action ε Int64 := do
  let seconds ← perform .elapsed
  pure (u64ToWire seconds)

def getValue (keyref : UInt16) : Action UInt8 WireValue :=
  match keySpec keyref with
  | none => .fail errUnknownKeyref
  | some spec =>
    if !spec.flags.isReadable then .fail errPermission
    else if keyref = keyVoltageMa then read .voltageMa
    else if keyref = keyUptime then do
      let seconds ← uptimeSeconds
      pure (.i64 seconds)
    else if keyref = keyGp1String then read .gp1String
    else if keyref = keyGp2U64 then read .gp2U64
    else if keyref = keyGp3I64 then read .gp3I64
    else if keyref = keyMirrorOut then read .mirrorOut
    else if keyref = keySmallStr10 then read .smallStr10
    else if keyref = keySmallStr0 then read .smallStr0
    else if keyref = keyPermU64Rw then read .permU64Rw
    else if keyref = keyPermU64R then pure (.i64 1337)
    else .fail errPermission

structure WriteSuccess where
  value : WireValue
  changedKeyref : Option UInt16

def replace (keyref : UInt16) (cell : Cell) (value : cell.Value) : Action ε WriteSuccess := do
  let previous ← perform (.swap cell value)
  pure ⟨cell.wire value, observableChange keyref (previous != value)⟩

def saturatingSucc (value : UInt64) : UInt64 := UInt64.ofNat (min (value.toNat + 1) (2 ^ 64 - 1))

def writeValue (keyref : UInt16) (value : ValueRef) : Action UInt8 WriteSuccess :=
  match keySpec keyref with
  | none => .fail errUnknownKeyref
  | some spec =>
    if !spec.flags.isWritable then .fail errPermission
    else if keyref = keyGp1String then do
      let value ← lift (expectStr value)
      replace keyref .gp1String value
    else if keyref = keyGp2U64 then do
      let value ← lift (expectU64 value)
      replace keyref .gp2U64 value
    else if keyref = keyGp3I64 then do
      let value ← lift (expectI64 value)
      replace keyref .gp3I64 value
    else if keyref = keyMirrorIn then do
      let value ← lift (expectStr value)
      let _ ← perform (.swap .mirrorIn value)
      let _ ← perform (.swap .mirrorPending value)
      let generation ← perform (.fetchAdd .mirrorGeneration 1)
      let _ ← perform (.scheduleMirrorUpdate (saturatingSucc generation))
      pure ⟨.str value, none⟩
    else if keyref = keySmallStr10 then do
      let value ← lift (expectStr value)
      if value.length > 10 then .fail errTypeMismatch
      else replace keyref .smallStr10 value
    else if keyref = keySmallStr0 then do
      let _ ← lift (expectStr value)
      .fail errTypeMismatch
    else if keyref = keyPermU64W then do
      let value ← lift (expectU64 value)
      let _ ← perform (.swap .permU64W value)
      pure ⟨.i64 (u64ToWire value), none⟩
    else if keyref = keyPermU64Rw then do
      let value ← lift (expectU64 value)
      let _ ← perform (.swap .permU64Rw value)
      pure ⟨.i64 (u64ToWire value), none⟩
    else .fail errPermission

def canObserve (keyref : UInt16) : Except UInt8 Unit :=
  match keySpec keyref with
  | none => .error errUnknownKeyref
  | some spec => if !spec.flags.isObservable then .error errPermission else .ok ()

def validateKeyref (keyref : UInt16) : Except UInt8 Unit :=
  if (keySpec keyref).isSome then .ok () else .error errUnknownKeyref

def dispatchRequest (connection : ℕ) : RequestRef → Action Empty Bool
  | .ping => send connection encodeOk
  | .identify => send connection encodeIdentified
  | .getKeytabLen => send connection encodeKeytabLen
  | .getKey keyref =>
    match keySpec keyref with
    | none => send connection (encodeError errUnknownKeyref)
    | some spec => send connection (encodeKey spec)
  | .get keyref => do
    match ← (getValue keyref).attempt with
    | .ok value => send connection (encodeValue value)
    | .error code => send connection (encodeError code)
  | .write keyref value => do
    match ← (writeValue keyref value).attempt with
    | .ok success => do
      let sent ← send connection (encodeWritten success.value)
      if !sent then pure false
      else match success.changedKeyref with
        | some changedKeyref => do
          broadcastChanged changedKeyref
          pure true
        | none => pure true
    | .error code => send connection (encodeError code)
  | .observe keyref =>
    match canObserve keyref with
    | .ok () => do
      let sent ← send connection encodeOk
      if !sent then pure false
      else do
        let _ ← perform (.observe connection keyref)
        pure true
    | .error code => send connection (encodeError code)
  | .unobserve keyref =>
    match validateKeyref keyref with
    | .ok () => do
      let _ ← perform (.unobserve connection keyref)
      send connection encodeOk
    | .error code => send connection (encodeError code)

/-- The frame that was read, decoded; `none` ends the connection. -/
def readNextMessage (frame : List UInt8) : Option MessageRef :=
  match parseFrame .clientToNode frame with
  | .error _ => none
  | .ok view => (MessageRef.decode view.opcode view.payload).toOption

def dispatchMessage (connection : ℕ) : MessageRef → Action Empty Bool
  | .compatibilityRequest => send connection encodeCaps
  | .request request => dispatchRequest connection request
  | .ordinaryResponse _ | .compatibilityResponse _ | .error _ | .changed _ => pure false

def mixU64 (value : UInt64) : UInt64 :=
  let first := value ^^^ (value >>> 30)
  let second := first * 0xbf58476d1ce4e5b9
  let third := second ^^^ (second >>> 27)
  let fourth := third * 0x94d049bb133111eb
  fourth ^^^ (fourth >>> 31)

def saturatingAdd (a b : Int64) : Int64 := Int64.ofIntClamp (a.toInt + b.toInt)
def saturatingSub (a b : Int64) : Int64 := Int64.ofIntClamp (a.toInt - b.toInt)

def nextVoltageOffset : Action ε Int64 := do
  let seed ← perform (.fetchAdd .rngSeed 0x9e3779b97f4a7c15)
  let mixed := mixU64 seed
  let bucket := mixed % 41
  pure (saturatingSub (if bucket.toNat < 2 ^ 63 then Int64.ofNat bucket.toNat else 0) 20)

def updateVoltage : Action ε Unit := do
  let offset ← nextVoltageOffset
  let nextValue := saturatingAdd 250 offset
  let previous ← perform (.swap .voltageMa nextValue)
  if previous != nextValue then broadcastChanged keyVoltageMa

def flushMirrorUpdate (generation : UInt64) : Action ε Unit := do
  let current ← perform (.loadCounter .mirrorGeneration)
  if current != generation then pure ()
  else do
    let nextValue ← perform (.load .mirrorPending)
    let previous ← perform (.swap .mirrorOut nextValue)
    if previous != nextValue then broadcastChanged keyMirrorOut

end Qup.TestNode
