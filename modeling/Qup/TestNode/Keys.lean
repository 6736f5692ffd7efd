import Qup.Core.Message
import Mathlib.Logic.Function.Basic

/-!
# The test node's keys

The constants, the key table and the value checks of `qup-test-node/src/main.rs`,
the cells its values are stored in, and the bit mask in which a connection keeps
what it observes.
-/

namespace Qup.TestNode
open Foundation Foundation.Utf8

def literal (text : String) (valid : Valid (text.toList.map fun c => UInt8.ofNat c.toNat)) : Str :=
  ⟨text.toList.map fun c => UInt8.ofNat c.toNat, valid⟩

def caps : Str := literal "PkIiCcSsGgWwNkUk!" (by decide)
def nodeId : Str := literal "qup-test-node" (by decide)

def keyCount : UInt16 := 14

def errUnknownKeyref : UInt8 := 0x01
def errPermission : UInt8 := 0x02
def errTypeMismatch : UInt8 := 0x03

def keyVoltageMa : UInt16 := 0
def keyUptime : UInt16 := 1
def keyGp1String : UInt16 := 2
def keyGp2U64 : UInt16 := 3
def keyGp3I64 : UInt16 := 4
def keyMirrorIn : UInt16 := 5
def keyMirrorOut : UInt16 := 6
def keySmallStr10 : UInt16 := 7
def keySmallStr0 : UInt16 := 8
def keyPermU64W : UInt16 := 11
def keyPermU64Rw : UInt16 := 12
def keyPermU64R : UInt16 := 13

structure KeySpec where
  name : Str
  flags : KeyFlags

section
open KeyFlags

def flagsR : KeyFlags := ⟨readable, by decide⟩
def flagsW : KeyFlags := ⟨writable, by decide⟩
def flagsRW : KeyFlags := ⟨readable ||| writable, by decide⟩
def flagsRO : KeyFlags := ⟨readable ||| observable, by decide⟩
def flagsRWO : KeyFlags := ⟨readable ||| writable ||| observable, by decide⟩
def flagsNone : KeyFlags := ⟨0, by decide⟩

end

def keySpecs : List KeySpec := [
  ⟨literal "voltage_ma" (by decide), flagsRO⟩,
  ⟨literal "uptime" (by decide), flagsR⟩,
  ⟨literal "gp1_string" (by decide), flagsRWO⟩,
  ⟨literal "gp2_u64" (by decide), flagsRWO⟩,
  ⟨literal "gp3_i64" (by decide), flagsRWO⟩,
  ⟨literal "mirror_in" (by decide), flagsW⟩,
  ⟨literal "mirror_out" (by decide), flagsRO⟩,
  ⟨literal "small_str10" (by decide), flagsRWO⟩,
  ⟨literal "small_str0" (by decide), flagsRWO⟩,
  ⟨literal "dead" (by decide), flagsNone⟩,
  ⟨literal "dead2" (by decide), flagsNone⟩,
  ⟨literal "perm_u64_w" (by decide), flagsW⟩,
  ⟨literal "perm_u64_rw" (by decide), flagsRW⟩,
  ⟨literal "perm_u64_r" (by decide), flagsR⟩]

def keySpec (keyref : UInt16) : Option KeySpec := keySpecs[keyref.toNat]?

inductive WireValue where
  | i64 (value : Int64)
  | str (value : Str)
  deriving DecidableEq

def WireValue.valueRef : WireValue → ValueRef
  | .i64 value => .i64 value
  | .str value => .str value

theorem WireValue.valueRef_injective {a b : WireValue} (h : a.valueRef = b.valueRef) : a = b := by
  cases a <;> cases b <;> cases h <;> rfl

def u64ToWire (value : UInt64) : Int64 := Int64.ofIntClamp value.toNat

def expectI64 : ValueRef → Except UInt8 Int64
  | .i64 value => .ok value
  | .bool _ | .str _ => .error errTypeMismatch

def expectU64 (value : ValueRef) : Except UInt8 UInt64 := do
  let value ← expectI64 value
  if value < 0 then .error errTypeMismatch
  else .ok value.toUInt64

def expectStr : ValueRef → Except UInt8 Str
  | .str value => .ok value
  | .bool _ | .i64 _ => .error errTypeMismatch

def observableChange (keyref : UInt16) (changed : Bool) : Option UInt16 :=
  if changed && (keySpec keyref).any (fun spec => spec.flags.isObservable) then some keyref
  else none

inductive Cell where
  | voltageMa
  | gp1String
  | gp2U64
  | gp3I64
  | mirrorIn
  | mirrorPending
  | mirrorOut
  | smallStr10
  | smallStr0
  | permU64W
  | permU64Rw
  deriving DecidableEq

namespace Cell

inductive Kind where
  | i64
  | u64
  | str

def kind : Cell → Kind
  | voltageMa | gp3I64 => .i64
  | gp2U64 | permU64W | permU64Rw => .u64
  | gp1String | mirrorIn | mirrorPending | mirrorOut | smallStr10 | smallStr0 => .str

def Kind.Value : Kind → Type
  | .i64 => Int64
  | .u64 => UInt64
  | .str => Str

abbrev Value (cell : Cell) : Type := cell.kind.Value

instance (kind : Kind) : DecidableEq kind.Value :=
  match kind with
  | .i64 => inferInstanceAs (DecidableEq Int64)
  | .u64 => inferInstanceAs (DecidableEq UInt64)
  | .str => inferInstanceAs (DecidableEq Str)

def Kind.wire : (kind : Kind) → kind.Value → WireValue
  | .i64, value => .i64 value
  | .u64, value => .i64 (u64ToWire value)
  | .str, value => .str value

def wire (cell : Cell) (value : cell.Value) : WireValue := cell.kind.wire value

def initial : (cell : Cell) → cell.Value
  | voltageMa => (250 : Int64)
  | gp3I64 => (0 : Int64)
  | gp2U64 | permU64W | permU64Rw => (0 : UInt64)
  | gp1String | mirrorIn | mirrorPending | mirrorOut | smallStr10 | smallStr0 => Str.empty

def keyref : Cell → Option UInt16
  | voltageMa => some keyVoltageMa
  | gp1String => some keyGp1String
  | gp2U64 => some keyGp2U64
  | gp3I64 => some keyGp3I64
  | mirrorOut => some keyMirrorOut
  | smallStr10 => some keySmallStr10
  | smallStr0 => some keySmallStr0
  | permU64Rw => some keyPermU64Rw
  | mirrorIn | mirrorPending | permU64W => none

end Cell

def keyMask (keyref : UInt16) : Option UInt16 :=
  if keyref < 16 then some (1 <<< keyref) else none

structure ObservedMask where
  bits : UInt16
  deriving DecidableEq

namespace ObservedMask

def new : ObservedMask := ⟨0⟩

def observe (m : ObservedMask) (keyref : UInt16) : ObservedMask :=
  match keyMask keyref with
  | some mask => ⟨m.bits ||| mask⟩
  | none => m

def unobserve (m : ObservedMask) (keyref : UInt16) : ObservedMask :=
  match keyMask keyref with
  | some mask => ⟨m.bits &&& ~~~mask⟩
  | none => m

def isObserving (m : ObservedMask) (keyref : UInt16) : Bool :=
  (keyMask keyref).any fun mask => m.bits &&& mask != 0

def bit (m : ObservedMask) (keyref : UInt16) : Bool := m.bits.toBitVec.getLsbD keyref.toNat

theorem toBitVec_mask {keyref : UInt16} (hk : keyref < 16) :
    (1 <<< keyref : UInt16).toBitVec = BitVec.twoPow 16 keyref.toNat := by
  have hmod : keyref.toNat % 16 = keyref.toNat := Nat.mod_eq_of_lt hk
  simp [BitVec.twoPow, hmod]

theorem isObserving_eq (m : ObservedMask) (keyref : UInt16) :
    m.isObserving keyref = (decide (keyref < 16) && m.bit keyref) := by
  unfold isObserving keyMask
  by_cases hk : keyref < 16
  · have hk' : keyref.toNat < 16 := hk
    simp only [hk, if_true, Option.any_some, decide_true, Bool.true_and]
    rw [Bool.eq_iff_iff, bne_iff_ne, ne_eq, ← UInt16.toBitVec_inj, UInt16.toBitVec_and,
      toBitVec_mask hk, BitVec.and_twoPow]
    have hpow : BitVec.twoPow 16 keyref.toNat ≠ 0#16 := fun h => by
      have hbit := congrArg (fun v => v.getLsbD keyref.toNat) h
      simp [hk'] at hbit
    cases hbit : m.bits.toBitVec.getLsbD keyref.toNat with
    | true => simpa [bit, hbit] using hpow
    | false => simp [bit, hbit]
  · simp [hk]

theorem bit_observe (m : ObservedMask) (keyref other : UInt16) :
    (m.observe keyref).bit other = (m.bit other || decide (keyref < 16 ∧ keyref = other)) := by
  unfold observe keyMask
  by_cases hk : keyref < 16
  · have hk' : keyref.toNat < 16 := hk
    simp only [hk, if_true, bit, UInt16.toBitVec_or, toBitVec_mask hk, BitVec.getLsbD_or,
      BitVec.getLsbD_twoPow, hk', true_and, decide_true, Bool.true_and, UInt16.toNat_inj]
  · simp [hk]

theorem bit_unobserve (m : ObservedMask) (keyref other : UInt16) :
    (m.unobserve keyref).bit other = (m.bit other && !decide (keyref < 16 ∧ keyref = other)) := by
  unfold unobserve keyMask
  by_cases hk : keyref < 16
  · have hk' : keyref.toNat < 16 := hk
    by_cases ho : other.toNat < 16
    · simp [hk, bit, toBitVec_mask hk, ho, UInt16.toNat_inj, eq_comm]
    · have hne : keyref ≠ other := fun h => ho (h ▸ hk')
      simp [hk, bit, hne, BitVec.getLsbD_of_ge _ _ (Nat.le_of_not_lt ho)]
  · simp [hk]

theorem isObserving_new (keyref : UInt16) : new.isObserving keyref = false := by
  simp [isObserving_eq, new, bit]

theorem isObserving_observe (m : ObservedMask) (keyref other : UInt16) :
    (m.observe keyref).isObserving other =
      (m.isObserving other || decide (other < 16 ∧ keyref = other)) := by
  rw [isObserving_eq, isObserving_eq, bit_observe]
  by_cases ho : other < 16
  · by_cases hk : keyref = other
    · simp [ho, hk]
    · simp [hk]
  · simp [ho]

theorem isObserving_unobserve (m : ObservedMask) (keyref other : UInt16) :
    (m.unobserve keyref).isObserving other = (m.isObserving other && decide (keyref ≠ other)) := by
  rw [isObserving_eq, isObserving_eq, bit_unobserve]
  by_cases ho : other < 16
  · by_cases hk : keyref = other
    · simp [ho, hk]
    · simp [hk]
  · simp [ho]

end ObservedMask
end Qup.TestNode
