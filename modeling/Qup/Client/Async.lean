import Qup.Client.Call
import Qup.Foundation.World

/-!
# The client's methods as routines

The `async` methods of `qup/src/client.rs` over the two things they ask of the
stream: to write the frame of a request and to read the next message. A method
that names its key fetches the key table first.
-/

namespace Qup.Client.Async
open Foundation Foundation.Routine Foundation.Utf8

inductive Op where
  | send (call : Call)
  | nextMessage
  deriving DecidableEq

@[reducible] def Op.Res : Op → Type
  | .send _ => Except IoError Unit
  | .nextMessage => Except ClientError Message

abbrev Action (ε α : Type) := Routine Op.Res ε α

inductive Error where
  | client (error : ClientError)
  | keyNotFound (name : Str)
  | ambiguousKey (name : Str)
  deriving DecidableEq

variable {ε α : Type}

def sendRequest (call : Call) : Action ε (Except IoError Unit) := .act (.send call) .ret
def nextMessage : Action ε (Except ClientError Message) := .act .nextMessage .ret

def readRequestResponse : Action ClientError Message :=
  iterate () fun _ => do
    match ← nextMessage with
    | .error error => .fail error
    | .ok (.changed _) => pure (.inl ())
    | .ok message => pure (.inr message)

def request (call : Call) (accept : Message → Except ClientError α) : Action ClientError α := do
  match ← sendRequest call with
  | .error error => .fail (.io error)
  | .ok () => do
    let message ← readRequestResponse
    match accept message with
    | .ok answer => pure answer
    | .error error => .fail error

def acceptOk (request : Opcode) : Message → Except ClientError Unit
  | .ok => .ok ()
  | actual => .error (unexpectedMessage request "OK" actual)

def acceptKeytabLen : Message → Except ClientError UInt16
  | .keytabLen count => .ok count
  | actual => .error (unexpectedMessage .getkeytablen "KEYTABLEN" actual)

def acceptKey (keyref : UInt16) : Message → Except ClientError KeyInfo
  | .key keyflags name => .ok ⟨keyref, keyflags, name⟩
  | actual => .error (unexpectedMessage .getkey "KEY" actual)

def acceptValue : Message → Except ClientError Value
  | .value value => .ok value
  | actual => .error (unexpectedMessage .get "VALUE" actual)

def acceptWritten : Message → Except ClientError Value
  | .written value => .ok value
  | actual => .error (unexpectedMessage .write "WRITTEN" actual)

def keyCount : Action ClientError UInt16 := request .keyCount acceptKeytabLen

def key (keyref : UInt16) : Action ClientError KeyInfo := request (.key keyref) (acceptKey keyref)

def get (keyref : UInt16) : Action ClientError Value := request (.get keyref) acceptValue

def write (value : Value) (keyref : UInt16) : Action ClientError Value :=
  request (.write keyref value) acceptWritten

def observe (keyref : UInt16) : Action ClientError Unit :=
  request (.observe keyref) (acceptOk .observe)

def unobserve (keyref : UInt16) : Action ClientError Unit :=
  request (.unobserve keyref) (acceptOk .unobserve)

def keysOf : List ℕ → Action ClientError (List KeyInfo)
  | [] => pure []
  | keyref :: keyrefs => do
    let info ← key (UInt16.ofNat keyref)
    let infos ← keysOf keyrefs
    pure (info :: infos)

def listKeys : Action ClientError (List KeyInfo) := do
  let count ← keyCount
  keysOf (List.range count.toNat)

def select (name : Str) (keys : List KeyInfo) : Except Error KeyInfo :=
  match keys.filter fun key => decide (key.name = name) with
  | [] => .error (.keyNotFound name)
  | [first] => .ok first
  | _ :: _ :: _ => .error (.ambiguousKey name)

def resolveKeyrefByName (name : Str) : Action Error UInt16 := do
  let keys ← listKeys.mapError .client
  match select name keys with
  | .ok first => pure first.keyref
  | .error error => .fail error

def byName (name : Str) (method : UInt16 → Action ClientError α) : Action Error α := do
  let keyref ← resolveKeyrefByName name
  (method keyref).mapError .client

def keyByName (name : Str) : Action Error KeyInfo := byName name key
def getByName (name : Str) : Action Error Value := byName name get
def writeByName (name : Str) (value : Value) : Action Error Value := byName name (write value)
def observeByName (name : Str) : Action Error Unit := byName name observe
def unobserveByName (name : Str) : Action Error Unit := byName name unobserve

end Qup.Client.Async
