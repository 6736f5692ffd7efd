import Qup.Client.Async
import Qup.Tui.App

/-!
# The test client

`qup-test-cli/src/main.rs`, from a command on. Reading a command line is the
user's part: what `shlex` and `clap` make of it is what `readLine` answers. A line
of output is kept as what it is made from.
-/

namespace Qup.Cli
open Foundation Foundation.Routine Foundation.Utf8
open Client (Call ClientError KeyInfo Message Value)
open Client.Async (listKeys resolveKeyrefByName)
open Tui (IntErrorKind isAsciiDigit parseI64)

inductive ValueInputKind where
  | bool
  | i64
  | str
  deriving DecidableEq

inductive Command where
  | ping
  | caps
  | identify
  | keyCount
  | listKeys
  | key (key : Str)
  | get (key : Str)
  | write (key : Str) (kind : ValueInputKind) (value : List Str)
  | observe (key : Str)
  | unobserve (key : Str)
  | read (timeoutMs : Option ℕ)
  | repl
  | exit
  deriving DecidableEq

inductive Input where
  | eof
  | blank
  | help
  /-- `shlex` or `clap` does not take it for a command. -/
  | rejected
  | command (command : Command)
  deriving DecidableEq

inductive Line where
  | message (message : Message)
  | answer (keyref : UInt16) (message : Message)
  | keyInfo (key : KeyInfo)
  | count (count : UInt16)
  | followed (value : Value)
  | timeout
  | alreadyInRepl
  | helpText
  | parseError
  | newline
  deriving DecidableEq

inductive InputError where
  | missingValue
  | boolTokens
  | i64Tokens
  | invalidBool (raw : Str)
  | invalidI64 (error : IntErrorKind)
  deriving DecidableEq

inductive Failure where
  | io (error : Client.IoError)
  | client (error : Client.Async.Error)
  | input (error : InputError)
  | followNotFound (name : Str)
  | followAmbiguous (name : Str)
  | followPermission (name : Str) (flags : KeyFlags)
  | followUnexpected (key : KeyInfo) (message : Message)
  deriving DecidableEq

def clientError : Client.Async.Error → Failure
  | .client (.io error) => .io error
  | error => .client error

inductive Op where
  | client (o : Client.Async.Op)
  | nextMessageTimeout (ms : ℕ)
  | print (line : Line)
  | readLine
  deriving DecidableEq

@[reducible] def Op.Res : Op → Type
  | .client o => o.Res
  | .nextMessageTimeout _ => Except ClientError (Option Message)
  | .print _ => Unit
  | .readLine => Input

abbrev Action (ε α : Type) := Routine Op.Res ε α

variable {ε α : Type}

def client (method : Client.Async.Action ε α) : Action ε α := method.embed Op.client fun _ r => r

def sendRequest (call : Call) : Action ε (Except Client.IoError Unit) := .act (.client (.send call)) .ret
def nextMessage : Action ε (Except ClientError Message) := .act (.client .nextMessage) .ret
def nextMessageTimeout (ms : ℕ) : Action ε (Except ClientError (Option Message)) :=
  .act (.nextMessageTimeout ms) .ret
def println (line : Line) : Action ε Unit := .act (.print line) .ret
def readLine : Action ε Input := .act .readLine .ret

def awaitMethod (method : Client.Async.Action ClientError α) : Action Failure α :=
  (client method).mapError fun error => clientError (.client error)

def parseU16Digits : ℕ → List UInt8 → Option UInt16
  | result, [] => some (UInt16.ofNat result)
  | result, b :: bs =>
    if !isAsciiDigit b then none
    else
      let result := result * 10 + (b - 0x30).toNat
      if 65535 < result then none else parseU16Digits result bs

def parseU16 : List UInt8 → Option UInt16
  | [] => none
  | [0x2b] | [0x2d] => none
  | 0x2b :: bs => parseU16Digits 0 bs
  | bs => parseU16Digits 0 bs

def resolveKeyref (selector : Str) : Action Failure UInt16 :=
  match parseU16 selector.bytes with
  | some keyref => pure keyref
  | none => (client (resolveKeyrefByName selector)).mapError clientError

theorem valid_space : Valid [0x20] := by decide

def joinTokens : List Str → Str
  | [] => Str.empty
  | [token] => token
  | token :: tokens =>
    ⟨token.bytes ++ ([0x20] ++ (joinTokens tokens).bytes),
      token.valid.append (valid_space.append (joinTokens tokens).valid)⟩

def parseBool (raw : Str) : Except InputError Bool :=
  if raw.bytes = "true".toUTF8.toList ∨ raw.bytes = "1".toUTF8.toList then .ok true
  else if raw.bytes = "false".toUTF8.toList ∨ raw.bytes = "0".toUTF8.toList then .ok false
  else .error (.invalidBool raw)

def parseInputValue : ValueInputKind → List Str → Except InputError Value
  | _, [] => .error .missingValue
  | .bool, [token] => (parseBool token).map .bool
  | .bool, _ => .error .boolTokens
  | .i64, [token] =>
    match parseI64 token.bytes with
    | .ok value => .ok (.i64 value)
    | .error error => .error (.invalidI64 error)
  | .i64, _ => .error .i64Tokens
  | .str, tokens => .ok (.str (joinTokens tokens))

def commandLine (keyref : UInt16) : Message → Line
  | .ok => .answer keyref .ok
  | .value value => .answer keyref (.value value)
  | .written value => .answer keyref (.written value)
  | .error code => .answer keyref (.error code)
  | message => .message message

def readRequestResponse : Action Failure Message :=
  iterate () fun _ => do
    match ← nextMessage with
    | .error error => .fail (clientError (.client error))
    | .ok (.changed keyref) => do
      println (.message (.changed keyref))
      pure (.inl ())
    | .ok message => pure (.inr message)

def exchange (call : Call) : Action Failure Message := do
  match ← sendRequest call with
  | .error error => .fail (.io error)
  | .ok () => readRequestResponse

def plainCommand (call : Call) : Action Failure Bool := do
  let message ← exchange call
  println (.message message)
  pure true

def keyCommand (selector : Str) (call : UInt16 → Call) : Action Failure Bool := do
  let keyref ← resolveKeyref selector
  let message ← exchange (call keyref)
  println (commandLine keyref message)
  pure true

def printKeys : List KeyInfo → Action ε Unit
  | [] => pure ()
  | key :: keys => do
    println (.keyInfo key)
    printKeys keys

/-- The answer says whether the REPL goes on. -/
def executeCommand : Command → Action Failure Bool
  | .ping => plainCommand .ping
  | .caps => plainCommand .caps
  | .identify => plainCommand .identify
  | .keyCount => do
    let count ← awaitMethod Client.Async.keyCount
    println (.count count)
    pure true
  | .listKeys => do
    let keys ← awaitMethod listKeys
    printKeys keys
    pure true
  | .key selector => do
    let keyref ← resolveKeyref selector
    let info ← awaitMethod (Client.Async.key keyref)
    println (.keyInfo info)
    pure true
  | .get selector => keyCommand selector .get
  | .write selector kind raw => do
    let keyref ← resolveKeyref selector
    match parseInputValue kind raw with
    | .error error => .fail (.input error)
    | .ok value => do
      let message ← exchange (.write keyref value)
      println (commandLine keyref message)
      pure true
  | .observe selector => keyCommand selector .observe
  | .unobserve selector => keyCommand selector .unobserve
  | .read (some ms) => do
    match ← nextMessageTimeout ms with
    | .error error => .fail (clientError (.client error))
    | .ok (some message) => do
      println (.message message)
      pure true
    | .ok none => do
      println .timeout
      pure true
  | .read none => do
    match ← nextMessage with
    | .error error => .fail (clientError (.client error))
    | .ok message => do
      println (.message message)
      pure true
  | .repl => do
    println .alreadyInRepl
    pure true
  | .exit => pure false

def runRepl : Action Failure Unit :=
  iterate () fun _ => do
    match ← readLine with
    | .eof => do
      println .newline
      pure (.inr ())
    | .blank => pure (.inl ())
    | .help => do
      println .helpText
      pure (.inl ())
    | .rejected => do
      println .parseError
      pure (.inl ())
    | .command command => do
      if ← executeCommand command then pure (.inl ()) else pure (.inr ())

def selectFollowKey (keys : List KeyInfo) (name : Str) : Except Failure KeyInfo :=
  match keys.filter fun key => decide (key.name = name) with
  | [] => .error (.followNotFound name)
  | [key] =>
    if !key.keyflags.isReadable || !key.keyflags.isObservable then
      .error (.followPermission name key.keyflags)
    else .ok key
  | _ :: _ :: _ => .error (.followAmbiguous name)

def resolveFollowKey (name : Str) : Action Failure KeyInfo := do
  let keys ← awaitMethod listKeys
  match selectFollowKey keys name with
  | .ok key => pure key
  | .error error => .fail error

def followLoop (key : KeyInfo) : Action Failure Unit :=
  iterate () fun _ => do
    match ← nextMessage with
    | .error error => .fail (clientError (.client error))
    | .ok (.changed keyref) =>
      if keyref = key.keyref then do
        let value ← awaitMethod (Client.Async.get key.keyref)
        println (.followed value)
        pure (.inl ())
      else pure (.inl ())
    | .ok message => .fail (.followUnexpected key message)

def runFollowMode (name : Str) : Action Failure Unit := do
  let key ← resolveFollowKey name
  awaitMethod (Client.Async.observe key.keyref)
  followLoop key

end Qup.Cli
