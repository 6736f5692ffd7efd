import Qup.Embassy.Request
import Mathlib.Logic.Function.Basic
import Mathlib.Data.Fin.Basic

/-!
# Keys and their shared state

`Key` and `ErasedKey` of `qup-embassy/src/lib.rs`. A key is a static name,
`keyref`, type and permission over shared state: the value cell, the generation
counter, its change signal and the pointer to the notifier. Everything that
touches shared state or the transport is one operation of a program, so that
other tasks can run between any two of them. A signal is its one-slot latch.
-/

namespace Qup.Embassy
open Foundation Foundation.Utf8

structure ErasedKey where
  type : KeyType
  perm : Perm
  name : Str
  keyref : UInt16
  nameOnWire : WireStr name

namespace ErasedKey

def readable (k : ErasedKey) : Bool := k.perm.readable
def writable (k : ErasedKey) : Bool := k.perm.writable
def observable (k : ErasedKey) : Bool := k.perm.observable
def keyflags (k : ErasedKey) : UInt8 := k.perm.flagsBits

end ErasedKey

structure Frame where
  opcode : Opcode
  payload : List UInt8
  deriving DecidableEq, Repr

def Frame.bytes (f : Frame) : List UInt8 := frameBytes f.opcode f.payload

variable {N : ℕ}

/-- `writeAll` names the frame that its bytes complete, if they are its last. -/
inductive Op (keys : Fin N → ErasedKey) where
  | loadValue (i : Fin N)
  | storeValue (i : Fin N) (value : (keys i).type.Value)
  | loadGeneration (i : Fin N)
  | fetchAddGeneration (i : Fin N)
  | signalChange (i : Fin N)
  | loadNotifier (i : Fin N)
  | storeNotifier (i : Fin N) (notifier : ℕ)
  | signal (notifier : ℕ)
  | writeAll (bytes : List UInt8) (completes : Option Frame)

/-- `storeValue` answers with the value it replaced, `fetchAddGeneration` with
the count before, `writeAll` with whether the transport took the bytes. -/
@[reducible] def Op.Res {keys : Fin N → ErasedKey} : Op keys → Type
  | loadValue i => (keys i).type.Value
  | storeValue i _ => (keys i).type.Value
  | loadGeneration _ => UInt32
  | fetchAddGeneration _ => UInt32
  | signalChange _ => Unit
  | loadNotifier _ => Option ℕ
  | storeNotifier _ _ => Unit
  | signal _ => Unit
  | writeAll _ _ => Bool

abbrev Action (keys : Fin N → ErasedKey) (α : Type) := Program (@Op.Res N keys) Exit α

structure Memory (keys : Fin N → ErasedKey) where
  value : (i : Fin N) → (keys i).type.Value
  generation : Fin N → UInt32
  changeSignal : Fin N → Bool
  notifier : Fin N → Option ℕ
  latch : ℕ → Bool

def Op.exec {keys : Fin N → ErasedKey} (accepted : Bool) (m : Memory keys) :
    (o : Op keys) → o.Res × Memory keys
  | loadValue i => (m.value i, m)
  | storeValue i v => (m.value i, { m with value := Function.update m.value i v })
  | loadGeneration i => (m.generation i, m)
  | fetchAddGeneration i =>
    (m.generation i,
      { m with generation := Function.update m.generation i (m.generation i + 1) })
  | signalChange i => ((), { m with changeSignal := Function.update m.changeSignal i true })
  | loadNotifier i => (m.notifier i, m)
  | storeNotifier i s => ((), { m with notifier := Function.update m.notifier i (some s) })
  | signal s => ((), { m with latch := Function.update m.latch s true })
  | writeAll _ _ => (accepted, m)

section
variable {keys : Fin N → ErasedKey}

namespace Key

def get (i : Fin N) : Action keys (keys i).type.Value := Program.act (.loadValue i) .ret

def generation (i : Fin N) : Action keys UInt32 := Program.act (.loadGeneration i) .ret

def notifyChanged (i : Fin N) : Action keys Unit :=
  .act (.fetchAddGeneration i) fun _ =>
  .act (.signalChange i) fun _ =>
  if !(keys i).observable then .ret ()
  else .act (.loadNotifier i) fun (notifier : Option ℕ) =>
    match notifier with
    | some s => .act (.signal s) fun _ => .ret ()
    | none => .ret ()

def trySet (i : Fin N) (value : (keys i).type.Value) :
    Action keys (Except WireValueError Bool) :=
  match QupValue.validate value with
  | .error e => .ret (.error e)
  | .ok () => .act (.storeValue i value) fun (previous : (keys i).type.Value) => do
    let changed := decide (previous ≠ value)
    notifyChanged i
    pure (.ok changed)

def encodeCurrentValue (i : Fin N) (capacity : ℕ) :
    Action keys (Except EncodeFault (List UInt8)) := do
  let value ← get i
  pure (QupValue.encode value capacity)

def writeAndEncode (i : Fin N) (value : WireValueRef) (capacity : ℕ) :
    Action keys (Except EncodeFault (List UInt8)) :=
  match (QupValue.decode value : Except WireValueError (keys i).type.Value) with
  | .error e => .ret (.error (.invalid e))
  | .ok decoded =>
    match QupValue.validate decoded with
    | .error e => .ret (.error (.invalid e))
    | .ok () => .act (.storeValue i decoded) fun _ => do
      notifyChanged i
      pure (QupValue.encode decoded capacity)

def attachNotifier (i : Fin N) (notifier : ℕ) : Action keys Unit :=
  if (keys i).observable then .act (.storeNotifier i notifier) fun _ => .ret () else .ret ()

end Key
end
end Qup.Embassy
