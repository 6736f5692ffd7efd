import Qup.Client.Call

/-!
# What the worker and the interface of the monitor tell each other

The data of `qup-test-tui/src/app.rs` and the display texts of `network.rs`. A
text is kept as what it is made from, an instant as nanoseconds.
-/

namespace Qup.Tui
open Foundation.Utf8 Client

inductive Display where
  | waitingForUpdate
  | loading
  | observableUnreadable
  | unreadable
  | changedUnreadable
  | formatted (value : Value)
  deriving DecidableEq

structure KeyRow where
  info : KeyInfo
  value : Display
  lastRead : Option ℕ
  deriving DecidableEq

inductive Failure where
  | connectionClosed
  | viewerClosed
  | unexpectedUnsolicited
  | connect (error : IoError)
  | identify (error : ClientError)
  | keyEnumeration (error : ClientError)
  | connectionLost (error : ClientError)
  | observe (name : Str) (cause : Failure)
  | initialRead (name : Str) (cause : Failure)
  | refresh (name : Str) (cause : Failure)
  | heartbeat (cause : Failure)
  | send (error : IoError)
  | timedOut (expected : String)
  | timedOutResponse
  | requestFailed (code : UInt8)
  | unexpectedResponse (message : Message)
  | client (error : ClientError)
  deriving DecidableEq

inductive NetworkEvent where
  | connecting
  | connected (nodeId : Str) (keys : List KeyRow)
  | disconnected (error : Failure)
  | valueUpdated (keyref : UInt16) (value : Display) (lastRead : Option ℕ)
  | writeSucceeded (keyref : UInt16) (value : Display) (lastRead : ℕ)
  | writeFailed (keyref : UInt16) (error : Failure)
  deriving DecidableEq

inductive WorkerCommand where
  | refreshAllReadable
  | writeValue (keyref : UInt16) (value : Value)
  deriving DecidableEq

def unreadableText (key : KeyInfo) : Display :=
  if key.keyflags.isObservable then .observableUnreadable else .unreadable

def initialDisplayValue (key : KeyInfo) : Display :=
  if !key.keyflags.isReadable then unreadableText key
  else if key.keyflags.isObservable then .waitingForUpdate
  else .loading

end Qup.Tui
