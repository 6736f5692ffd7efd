import Mathlib.Tactic.Common

/-!
# Opcodes, directions and frame errors

`qup-core/src/types/opcode.rs` and the frame half of `error.rs`. An opcode is a
raw byte; its class fixes the direction it may travel in, and `validate` checks
that the byte is classified, defined and legal in a direction, in this order.
-/

namespace Qup

inductive WireDirection where
  | clientToNode
  | nodeToClient
  deriving DecidableEq, Repr

inductive OpcodeClass where
  | request
  | ordinaryResponse
  | errorResponse
  | changedNotification
  | compatibilityRequest
  | compatibilityResponse
  | reserved
  deriving DecidableEq, Repr

structure Opcode where
  byte : UInt8
  deriving DecidableEq, Repr

inductive FrameError where
  | truncated
  | lengthMismatch (declared : UInt16) (actual : ℕ)
  | reservedOpcode (opcode : Opcode)
  | unknownOpcode (opcode : Opcode)
  | invalidDirection (opcode : Opcode) (direction : WireDirection)
  | checksumMismatch (sum : UInt8)
  deriving DecidableEq, Repr

namespace Opcode

def ping : Opcode := ⟨0x50⟩ -- b'P'
def identify : Opcode := ⟨0x49⟩ -- b'I'
def getkeytablen : Opcode := ⟨0x43⟩ -- b'C'
def getkey : Opcode := ⟨0x53⟩ -- b'S'
def get : Opcode := ⟨0x47⟩ -- b'G'
def write : Opcode := ⟨0x57⟩ -- b'W'
def observe : Opcode := ⟨0x4e⟩ -- b'N'
def unobserve : Opcode := ⟨0x55⟩ -- b'U'
def getcaps : Opcode := ⟨0x3f⟩ -- b'?'
def ok : Opcode := ⟨0x6b⟩ -- b'k'
def identified : Opcode := ⟨0x69⟩ -- b'i'
def keytablen : Opcode := ⟨0x63⟩ -- b'c'
def key : Opcode := ⟨0x73⟩ -- b's'
def value : Opcode := ⟨0x67⟩ -- b'g'
def written : Opcode := ⟨0x77⟩ -- b'w'
def caps : Opcode := ⟨0x3a⟩ -- b':'
def error : Opcode := ⟨0x40⟩ -- b'@'
def changed : Opcode := ⟨0x21⟩ -- b'!'

def opcodeClass (o : Opcode) : OpcodeClass :=
  if 0x41 ≤ o.byte ∧ o.byte ≤ 0x5a then .request
  else if 0x61 ≤ o.byte ∧ o.byte ≤ 0x7a then .ordinaryResponse
  else if o.byte = 0x40 then .errorResponse
  else if o.byte = 0x21 then .changedNotification
  else if o.byte = 0x3f then .compatibilityRequest
  else if o.byte = 0x3a then .compatibilityResponse
  else .reserved

def isReserved (o : Opcode) : Bool := o.opcodeClass == .reserved

def defined : List Opcode :=
  [ping, identify, getkeytablen, getkey, get, write, observe, unobserve, getcaps,
    ok, identified, keytablen, key, value, written, caps, error, changed]

def isDefined (o : Opcode) : Bool := o ∈ defined

def expectedOrdinaryResponse (o : Opcode) : Option Opcode :=
  if o = ping ∨ o = observe ∨ o = unobserve then some ok
  else if o = identify then some identified
  else if o = getkeytablen then some keytablen
  else if o = getkey then some key
  else if o = get then some value
  else if o = write then some written
  else none

def requiredDirection (o : Opcode) : Option WireDirection :=
  match o.opcodeClass with
  | .request | .compatibilityRequest => some .clientToNode
  | .ordinaryResponse | .errorResponse | .changedNotification | .compatibilityResponse =>
    some .nodeToClient
  | .reserved => none

def validate (o : Opcode) (direction : WireDirection) : Except FrameError Unit :=
  if o.isReserved then .error (.reservedOpcode o)
  else if !o.isDefined then .error (.unknownOpcode o)
  else match o.requiredDirection with
    | some .clientToNode =>
      match direction with
      | .clientToNode => .ok ()
      | .nodeToClient => .error (.invalidDirection o direction)
    | some .nodeToClient =>
      match direction with
      | .nodeToClient => .ok ()
      | .clientToNode => .error (.invalidDirection o direction)
    | none => .error (.reservedOpcode o)

def Legal (o : Opcode) (direction : WireDirection) : Prop :=
  o.isDefined = true ∧ o.requiredDirection = some direction

instance (o : Opcode) (direction : WireDirection) : Decidable (o.Legal direction) :=
  inferInstanceAs (Decidable (_ ∧ _))

theorem validate_ok_iff (o : Opcode) (direction : WireDirection) :
    o.validate direction = .ok () ↔ o.Legal direction := by
  have hres : o.isReserved = true → o.requiredDirection = none := by
    intro h
    simp only [isReserved, beq_iff_eq] at h
    simp [requiredDirection, h]
  unfold validate Legal
  by_cases hr : o.isReserved = true
  · simp [hr, hres hr]
  · cases hd : o.isDefined
    · simp [hr]
    · cases hq : o.requiredDirection with
      | none => simp [hr]
      | some d => cases d <;> cases direction <;> simp [hr]

theorem legal_clientToNode_iff (o : Opcode) : o.Legal .clientToNode ↔
    o ∈ [ping, identify, getkeytablen, getkey, get, write, observe, unobserve, getcaps] := by
  constructor
  · rintro ⟨hd, hdir⟩
    have hmem : o ∈ defined := by simpa [isDefined] using hd
    have hall : ∀ p ∈ defined, p.requiredDirection = some .clientToNode →
        p ∈ [ping, identify, getkeytablen, getkey, get, write, observe, unobserve, getcaps] := by
      decide
    exact hall o hmem hdir
  · revert o
    decide

end Opcode
end Qup
