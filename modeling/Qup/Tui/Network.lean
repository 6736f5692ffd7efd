import Qup.Tui.Events
import Qup.Foundation.Routine

/-!
# The worker of the monitor

`qup-test-tui/src/network.rs`, as routines over what the worker asks of its
client, of the clock and of the two channels to the interface. `Vec` and
`BTreeMap` are lists: the keys come from `list_keys` in the order of their keyrefs.
-/

namespace Qup.Tui
open Foundation Foundation.Routine Foundation.Utf8 Client

inductive Wait where
  | networkPoll
  | response (remaining : ℕ)
  deriving DecidableEq

inductive Op where
  | connect
  | send (call : Call)
  | nextMessage
  | nextMessageTimeout (wait : Wait)
  | now
  | emit (event : NetworkEvent)
  | tryRecv
  | sleep
  deriving DecidableEq

@[reducible] def Op.Res : Op → Type
  | .connect | .send _ => Except IoError Unit
  | .nextMessage => Except ClientError Message
  | .nextMessageTimeout _ => Except ClientError (Option Message)
  | .now => ℕ
  | .emit _ => Bool
  | .tryRecv => Option WorkerCommand
  | .sleep => Unit

abbrev Action (ε α : Type) := Routine Op.Res ε α

variable {ε α : Type}

def heartbeatIdle : ℕ := 3000000000
def requestTimeout : ℕ := 2000000000

section
variable (call : Call) (wait : Wait) (event : NetworkEvent)

def connect : Action ε (Except IoError Unit) := .act .connect .ret
def sendRequest : Action ε (Except IoError Unit) := .act (.send call) .ret
def nextMessage : Action ε (Except ClientError Message) := .act .nextMessage .ret
def nextMessageTimeout : Action ε (Except ClientError (Option Message)) :=
  .act (.nextMessageTimeout wait) .ret
def now : Action ε ℕ := .act .now .ret
def send : Action ε Bool := .act (.emit event) .ret
def tryRecv : Action ε (Option WorkerCommand) := .act .tryRecv .ret
def sleep : Action ε Unit := .act .sleep .ret

end

def readRequestResponse : Action ClientError Message :=
  iterate () fun _ => do
    match ← nextMessage with
    | .error error => .fail error
    | .ok (.changed _) => pure (.inl ())
    | .ok message => pure (.inr message)

def clientCall (call : Call) (accept : Message → Except ClientError α) : Action ClientError α := do
  match ← sendRequest call with
  | .error error => .fail (.io error)
  | .ok () => do
    let message ← readRequestResponse
    match accept message with
    | .ok answer => pure answer
    | .error error => .fail error

def identify : Action ClientError Str :=
  clientCall .identify fun
    | .identified nodeId => .ok nodeId
    | actual => .error (unexpectedMessage .identify "IDENTIFIED" actual)

def keyCount : Action ClientError UInt16 :=
  clientCall .keyCount fun
    | .keytabLen count => .ok count
    | actual => .error (unexpectedMessage .getkeytablen "KEYTABLEN" actual)

def key (keyref : UInt16) : Action ClientError KeyInfo :=
  clientCall (.key keyref) fun
    | .key keyflags name => .ok ⟨keyref, keyflags, name⟩
    | actual => .error (unexpectedMessage .getkey "KEY" actual)

def keysOf : List ℕ → Action ClientError (List KeyInfo)
  | [] => pure []
  | keyref :: keyrefs => do
    let info ← key (UInt16.ofNat keyref)
    let infos ← keysOf keyrefs
    pure (info :: infos)

def listKeys : Action ClientError (List KeyInfo) := do
  let count ← keyCount
  keysOf (List.range count.toNat)

def enqueueChangedKey (pendingChanged : List UInt16) (keyref : UInt16) : List UInt16 :=
  if keyref ∈ pendingChanged then pendingChanged else pendingChanged ++ [keyref]

def enqueueChangedKeys (pendingChanged keyrefs : List UInt16) : List UInt16 :=
  keyrefs.foldl enqueueChangedKey pendingChanged

theorem mem_enqueueChangedKey {pendingChanged : List UInt16} {keyref other : UInt16} :
    other ∈ enqueueChangedKey pendingChanged keyref ↔ other ∈ pendingChanged ∨ other = keyref := by
  unfold enqueueChangedKey
  split_ifs with h
  · exact ⟨.inl, fun ho => ho.elim id fun heq => heq ▸ h⟩
  · simp

theorem mem_enqueueChangedKeys {pendingChanged keyrefs : List UInt16} {other : UInt16} :
    other ∈ enqueueChangedKeys pendingChanged keyrefs ↔
      other ∈ pendingChanged ∨ other ∈ keyrefs := by
  unfold enqueueChangedKeys
  induction keyrefs generalizing pendingChanged with
  | nil => simp
  | cons keyref keyrefs ih =>
    rw [List.foldl_cons, ih, mem_enqueueChangedKey, List.mem_cons, or_assoc]

/-- What a wait does with what it is given: `refused` makes the error of an
`ERROR` reply, `failed` that of every other failure. -/
def takeReply (accept : Message → Option α) (refused failed : Failure → ε)
    (changed : List UInt16) :
    Except ClientError (Option Message) → Action ε (List UInt16 ⊕ (α × List UInt16))
  | .ok (some message) =>
    match accept message, message with
    | some answer, _ => .ret (.inr (answer, changed))
    | none, .changed keyref => .ret (.inl (enqueueChangedKey changed keyref))
    | none, .error code => .fail (refused (.requestFailed code))
    | none, other => .fail (failed (.unexpectedResponse other))
  | .ok none => .fail (failed .timedOutResponse)
  | .error error => .fail (failed (.client error))

def waitFor (accept : Message → Option α) (expected : String) (refused failed : Failure → ε) :
    Action ε (α × List UInt16) := do
  let started ← now
  iterate [] fun changed => do
    let instant ← now
    let remaining := requestTimeout - (instant - started)
    if remaining = 0 then .fail (failed (.timedOut expected))
    else
      let reply ← nextMessageTimeout (.response remaining)
      takeReply accept refused failed changed reply

def acceptOk : Message → Option Unit
  | .ok => some ()
  | _ => none

def acceptValue : Message → Option Value
  | .value value => some value
  | _ => none

def acceptWritten : Message → Option Value
  | .written value => some value
  | _ => none

def waitForOkWithChanges : Action Failure (Unit × List UInt16) := waitFor acceptOk "OK" id id

def waitForValueWithChanges : Action Failure (Value × List UInt16) :=
  waitFor acceptValue "VALUE" id id

inductive WriteCommandError where
  | request (error : Failure)
  | connection (error : Failure)
  deriving DecidableEq

def waitForWrittenWithChanges : Action WriteCommandError (Value × List UInt16) :=
  waitFor acceptWritten "WRITTEN" .request .connection

def requestWithChanges (call : Call) (failed : Failure → ε) (wait : Action ε (α × List UInt16)) :
    Action ε (α × List UInt16) := do
  match ← sendRequest call with
  | .error error => .fail (failed (.send error))
  | .ok () => wait

def observeWithChanges (keyref : UInt16) : Action Failure (Unit × List UInt16) :=
  requestWithChanges (.observe keyref) id waitForOkWithChanges

def readValueWithChanges (keyref : UInt16) : Action Failure (Value × List UInt16) :=
  requestWithChanges (.get keyref) id waitForValueWithChanges

def writeValueWithChanges (keyref : UInt16) (value : Value) :
    Action WriteCommandError (Value × List UInt16) :=
  requestWithChanges (.write keyref value) .connection waitForWrittenWithChanges

def pingWithChanges : Action Failure (Unit × List UInt16) :=
  requestWithChanges .ping id waitForOkWithChanges

def emit (event : NetworkEvent) : Action Failure Unit := do
  if ← send event then pure () else .fail .viewerClosed

def refreshKey (key : KeyInfo) (pendingChanged : List UInt16) : Action Failure (List UInt16) := do
  let (value, changed) ← (readValueWithChanges key.keyref).mapError (.refresh key.name)
  let pendingChanged := enqueueChangedKeys pendingChanged changed
  let instant ← now
  emit (.valueUpdated key.keyref (.formatted value) (some instant))
  pure pendingChanged

def rereadAllReadableKeys : List KeyInfo → List UInt16 → Action Failure (List UInt16)
  | [], pendingChanged => pure pendingChanged
  | key :: keys, pendingChanged => do
    if !key.keyflags.isReadable then rereadAllReadableKeys keys pendingChanged
    else
      let pendingChanged ← refreshKey key pendingChanged
      rereadAllReadableKeys keys pendingChanged

def lookup (keysByRef : List KeyInfo) (keyref : UInt16) : Option KeyInfo :=
  keysByRef.find? fun key => key.keyref = keyref

def drainChangedKeys (keysByRef : List KeyInfo) (pendingChanged : List UInt16) :
    Action Failure Unit :=
  iterate pendingChanged fun pendingChanged =>
    match pendingChanged.getLast? with
    | none => pure (.inr ())
    | some keyref => do
      let pendingChanged := pendingChanged.dropLast
      match lookup keysByRef keyref with
      | none => pure (.inl pendingChanged)
      | some key =>
        if key.keyflags.isReadable then do
          let pendingChanged ← refreshKey key pendingChanged
          pure (.inl pendingChanged)
        else do
          emit (.valueUpdated keyref .changedUnreadable none)
          pure (.inl pendingChanged)

def processCommands (keysByRef : List KeyInfo) (pendingChanged : List UInt16) :
    Action Failure (List UInt16) :=
  iterate pendingChanged fun pendingChanged => do
    match ← tryRecv with
    | none => pure (.inr pendingChanged)
    | some .refreshAllReadable => do
      let pendingChanged ← rereadAllReadableKeys keysByRef pendingChanged
      pure (.inl pendingChanged)
    | some (.writeValue keyref value) => do
      match ← (writeValueWithChanges keyref value).attempt with
      | .ok (written, changed) => do
        let pendingChanged := enqueueChangedKeys pendingChanged changed
        let instant ← now
        emit (.writeSucceeded keyref (.formatted written) instant)
        pure (.inl pendingChanged)
      | .error (.request error) => do
        emit (.writeFailed keyref error)
        pure (.inl pendingChanged)
      | .error (.connection error) => .fail error

def initialRow (key : KeyInfo) : KeyRow := ⟨key, initialDisplayValue key, none⟩

def observeRow (key : KeyInfo) (pendingChanged : List UInt16) : Action Failure (List UInt16) :=
  if key.keyflags.isObservable then do
    let (_, changed) ← (observeWithChanges key.keyref).mapError (.observe key.name)
    pure (enqueueChangedKeys pendingChanged changed)
  else pure pendingChanged

def readRow (row : KeyRow) (pendingChanged : List UInt16) :
    Action Failure (KeyRow × List UInt16) :=
  if row.info.keyflags.isReadable then do
    let (value, changed) ←
      (readValueWithChanges row.info.keyref).mapError (.initialRead row.info.name)
    let instant ← now
    pure ({ row with value := .formatted value, lastRead := some instant },
      enqueueChangedKeys pendingChanged changed)
  else pure (row, pendingChanged)

def setupRow (row : KeyRow) (pendingChanged : List UInt16) :
    Action Failure (KeyRow × List UInt16) := do
  let pendingChanged ← observeRow row.info pendingChanged
  readRow row pendingChanged

def setupRows : List KeyRow → List UInt16 → Action Failure (List KeyRow × List UInt16)
  | [], pendingChanged => pure ([], pendingChanged)
  | row :: rows, pendingChanged => do
    let (row, pendingChanged) ← setupRow row pendingChanged
    let (rows, pendingChanged) ← setupRows rows pendingChanged
    pure (row :: rows, pendingChanged)

def mainLoop (keysByRef : List KeyInfo) (lastTraffic : ℕ) : Action Failure Unit :=
  iterate ([], lastTraffic) fun (pendingChanged, lastTraffic) => do
    let pendingChanged ← processCommands keysByRef pendingChanged
    drainChangedKeys keysByRef pendingChanged
    match ← nextMessageTimeout .networkPoll with
    | .ok (some (.changed keyref)) => do
      let instant ← now
      pure (.inl (enqueueChangedKey [] keyref, instant))
    | .ok (some _) => .fail .unexpectedUnsolicited
    | .ok none => do
      let instant ← now
      if heartbeatIdle ≤ instant - lastTraffic then do
        let (_, changed) ← pingWithChanges.mapError .heartbeat
        let instant ← now
        pure (.inl (enqueueChangedKeys [] changed, instant))
      else pure (.inl ([], lastTraffic))
    | .error error => .fail (.connectionLost error)

def runConnection : Action Failure Unit := do
  match ← connect with
  | .error error => .fail (.connect error)
  | .ok () => do
    let nodeId ← identify.mapError .identify
    let keys ← listKeys.mapError .keyEnumeration
    let (rows, pendingChanged) ← setupRows (keys.map initialRow) []
    emit (.connected nodeId rows)
    let lastTraffic ← now
    drainChangedKeys keys pendingChanged
    mainLoop keys lastTraffic

def connectionManager : Action Empty Unit :=
  iterate () fun _ => do
    if !(← send .connecting) then pure (.inr ())
    else do
      let result ← runConnection.attempt
      let error := match result with
        | .ok () => Failure.connectionClosed
        | .error error => error
      if !(← send (.disconnected error)) then pure (.inr ())
      else do
        let _ ← sleep
        pure (.inl ())

end Qup.Tui
