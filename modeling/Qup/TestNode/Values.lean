import Qup.TestNode.Dispatch

/-!
# What `get_value` and `write_value` come to

Both are one `match` over the keys. Most arms are alike: a read of the key's cell,
and a value check followed by a store into the cell. What differs are the keys
without a cell, `mirror_in`, and the key that nobody reads.
-/

namespace Qup.TestNode
open Foundation Foundation.Program Foundation.Utf8

def Cell.Kind.expect : (kind : Kind) → ValueRef → Except UInt8 kind.Value
  | .i64 => expectI64
  | .u64 => expectU64
  | .str => expectStr

def Cell.admits : (cell : Cell) → cell.Value → Bool
  | .smallStr10, value => Str.length value ≤ 10
  | .smallStr0, _ => false
  | _, _ => true

def Cell.accept (cell : Cell) (value : ValueRef) : Except UInt8 cell.Value := do
  let value ← cell.kind.expect value
  if cell.admits value then .ok value else .error errTypeMismatch

/-- The cells of the keys that are both readable and writable. -/
def sharedCells : List Cell :=
  [.gp1String, .gp2U64, .gp3I64, .smallStr10, .smallStr0, .permU64Rw]

def Cell.isShared (cell : Cell) : Bool := cell ∈ sharedCells

def writeMirrorIn (value : Str) : Action UInt8 WriteSuccess := do
  let _ ← perform (.swap .mirrorIn value)
  let _ ← perform (.swap .mirrorPending value)
  let generation ← perform (.fetchAdd .mirrorGeneration 1)
  let _ ← perform (.scheduleMirrorUpdate (saturatingSucc generation))
  pure ⟨.str value, none⟩

def writePermU64W (value : UInt64) : Action UInt8 WriteSuccess := do
  let _ ← perform (.swap .permU64W value)
  pure ⟨.i64 (u64ToWire value), none⟩

inductive Getting (keyref : UInt16) : Action UInt8 WireValue → Prop where
  | fails (code : UInt8) : Getting keyref (.fail code)
  | reads (cell : Cell) (h : cell.keyref = some keyref) : Getting keyref (read cell)
  | uptime (h : keyref = keyUptime) :
      Getting keyref (uptimeSeconds >>= fun seconds => pure (.i64 seconds))
  | constant (h : keyref = keyPermU64R) : Getting keyref (.ret (.i64 1337))

inductive Writing (keyref : UInt16) (value : ValueRef) : Action UInt8 WriteSuccess → Prop where
  | fails (code : UInt8) : Writing keyref value (.fail code)
  | replaces (cell : Cell) (stored : cell.Value) (h : cell.keyref = some keyref)
      (hshared : cell.isShared) (haccept : cell.accept value = .ok stored) :
      Writing keyref value (replace keyref cell stored)
  | mirrors (text : Str) (h : keyref = keyMirrorIn) (haccept : expectStr value = .ok text) :
      Writing keyref value (writeMirrorIn text)
  | stores (stored : UInt64) (h : keyref = keyPermU64W) (haccept : expectU64 value = .ok stored) :
      Writing keyref value (writePermU64W stored)

theorem getValue_getting (keyref : UInt16) : Getting keyref (getValue keyref) := by
  have hread {cell : Cell} {key : UInt16} (hcell : cell.keyref = some key) (hkey : keyref = key) :
      Getting keyref (read cell) := .reads cell (hkey ▸ hcell)
  unfold getValue
  cases keySpec keyref with
  | none => exact .fails _
  | some spec =>
    refine iteInduction (fun _ => .fails _) fun _ => ?_
    refine iteInduction (hread rfl) fun _ => ?_
    refine iteInduction .uptime fun _ => ?_
    refine iteInduction (hread rfl) fun _ => ?_
    refine iteInduction (hread rfl) fun _ => ?_
    refine iteInduction (hread rfl) fun _ => ?_
    refine iteInduction (hread rfl) fun _ => ?_
    refine iteInduction (hread rfl) fun _ => ?_
    refine iteInduction (hread rfl) fun _ => ?_
    refine iteInduction (hread rfl) fun _ => ?_
    exact iteInduction .constant fun _ => .fails _

theorem writing_lift {keyref : UInt16} {value : ValueRef} {α : Type} (x : Except UInt8 α)
    {f : α → Action UInt8 WriteSuccess} (hf : ∀ a, x = .ok a → Writing keyref value (f a)) :
    Writing keyref value (lift x >>= f) := by
  cases x with
  | ok a => exact hf a rfl
  | error code => exact .fails code

theorem accept_of_expect {cell : Cell} {value : ValueRef} {stored : cell.Value}
    (h : cell.kind.expect value = .ok stored) (hadmits : cell.admits stored) :
    cell.accept value = .ok stored := by
  simp only [Cell.accept, h]
  exact if_pos hadmits

theorem expect_of_accept {cell : Cell} {value : ValueRef} {stored : cell.Value}
    (h : cell.accept value = .ok stored) :
    cell.kind.expect value = .ok stored ∧ cell.admits stored := by
  cases hexpect : cell.kind.expect value with
  | error code =>
    rw [Cell.accept, hexpect] at h
    cases h
  | ok checked =>
    have hchecked : (if cell.admits checked then Except.ok checked else .error errTypeMismatch) =
        .ok stored := by
      rw [Cell.accept, hexpect] at h
      exact h
    split_ifs at hchecked with hadmits
    cases hchecked
    exact ⟨rfl, hadmits⟩

theorem replace_permU64Rw (value : UInt64) :
    (do let _ ← perform (.swap .permU64Rw value); pure ⟨.i64 (u64ToWire value), none⟩ :
      Action UInt8 WriteSuccess) = replace keyPermU64Rw .permU64Rw value := by
  have hquiet (changed : Bool) : observableChange keyPermU64Rw changed = none := by
    cases changed <;> rfl
  simp only [replace, hquiet]
  rfl

theorem writeValue_writing (keyref : UInt16) (value : ValueRef) :
    Writing keyref value (writeValue keyref value) := by
  have hreplace {cell : Cell} {key : UInt16} (hcell : cell.keyref = some key)
      (hshared : cell.isShared) (hkey : keyref = key) {stored : cell.Value}
      (hexpect : cell.kind.expect value = .ok stored) (hadmits : cell.admits stored) :
      Writing keyref value (replace keyref cell stored) :=
    .replaces cell stored (hkey ▸ hcell) hshared (accept_of_expect hexpect hadmits)
  unfold writeValue
  cases keySpec keyref with
  | none => exact .fails _
  | some spec =>
    refine iteInduction (fun _ => .fails _) fun _ => ?_
    refine iteInduction (fun hkey => writing_lift _ fun _ h => ?_) fun _ => ?_
    · exact @hreplace .gp1String _ rfl rfl hkey _ h rfl
    refine iteInduction (fun hkey => writing_lift _ fun _ h => ?_) fun _ => ?_
    · exact @hreplace .gp2U64 _ rfl rfl hkey _ h rfl
    refine iteInduction (fun hkey => writing_lift _ fun _ h => ?_) fun _ => ?_
    · exact @hreplace .gp3I64 _ rfl rfl hkey _ h rfl
    refine iteInduction (fun hkey => writing_lift _ fun text h => .mirrors text hkey h) fun _ => ?_
    refine iteInduction (fun hkey => writing_lift _ fun text h => ?_) fun _ => ?_
    · refine iteInduction (fun _ => .fails _) fun hshort => ?_
      exact @hreplace .smallStr10 _ rfl rfl hkey _ h (decide_eq_true (Nat.le_of_not_lt hshort))
    refine iteInduction (fun _ => writing_lift _ fun _ _ => .fails _) fun _ => ?_
    refine iteInduction (fun hkey => writing_lift _ fun _ h => .stores _ hkey h) fun _ => ?_
    refine iteInduction (fun hkey => writing_lift _ fun stored h => ?_) fun _ => .fails _
    have hkeyref : replace keyPermU64Rw .permU64Rw stored =
        (replace keyref .permU64Rw stored : Action UInt8 WriteSuccess) := by rw [hkey]
    rw [replace_permU64Rw, hkeyref]
    exact @hreplace .permU64Rw _ rfl rfl hkey _ h rfl

theorem sharedCells_cover : ∀ i : Fin keySpecs.length, keySpecs[i].flags.isReadable →
    keySpecs[i].flags.isWritable → ∃ cell ∈ sharedCells, cell.keyref = some (UInt16.ofNat i) := by
  decide

theorem exists_shared {keyref : UInt16} {spec : KeySpec} (hspec : keySpec keyref = some spec)
    (hreadable : spec.flags.isReadable) (hwritable : spec.flags.isWritable) :
    ∃ cell : Cell, cell.isShared ∧ cell.keyref = some keyref := by
  obtain ⟨hlt, rfl⟩ := List.getElem?_eq_some_iff.mp hspec
  obtain ⟨cell, hcell, hkeyref⟩ := sharedCells_cover ⟨keyref.toNat, hlt⟩ hreadable hwritable
  refine ⟨cell, decide_eq_true hcell, ?_⟩
  simpa using hkeyref

theorem getValue_shared {cell : Cell} {keyref : UInt16} (hshared : cell.isShared)
    (h : cell.keyref = some keyref) : getValue keyref = read cell := by
  cases cell <;> first | (cases h; rfl) | cases hshared

theorem accept_eq_expect {cell : Cell} (hadmits : ∀ stored, cell.admits stored)
    (value : ValueRef) : cell.accept value = cell.kind.expect value := by
  cases h : cell.kind.expect value with
  | error code =>
    simp only [Cell.accept, h]
    rfl
  | ok stored => exact accept_of_expect h (hadmits stored)

theorem writeValue_shared {cell : Cell} {keyref : UInt16} (hshared : cell.isShared)
    (h : cell.keyref = some keyref) (value : ValueRef) :
    writeValue keyref value = (lift (cell.accept value) >>= replace keyref cell) := by
  cases cell with
  | gp1String =>
    cases h
    rw [accept_eq_expect fun _ => rfl]
    rfl
  | gp2U64 =>
    cases h
    rw [accept_eq_expect fun _ => rfl]
    rfl
  | gp3I64 =>
    cases h
    rw [accept_eq_expect fun _ => rfl]
    rfl
  | smallStr10 =>
    cases h
    cases value with
    | str text =>
      by_cases hshort : text.length ≤ 10
      · have haccept : Cell.smallStr10.accept (.str text) = .ok text :=
          accept_of_expect rfl (decide_eq_true hshort)
        rw [haccept]
        exact if_neg (Nat.not_lt.mpr hshort)
      · have haccept : Cell.smallStr10.accept (.str text) = .error errTypeMismatch :=
          if_neg (by simpa [Cell.admits] using hshort)
        rw [haccept]
        exact if_pos (Nat.lt_of_not_le hshort)
    | bool value => rfl
    | i64 value => rfl
  | smallStr0 =>
    cases h
    cases value <;> rfl
  | permU64Rw =>
    cases h
    have hreplace : (fun stored => replace keyPermU64Rw Cell.permU64Rw stored :
        UInt64 → Action UInt8 WriteSuccess) = _ := funext fun stored => (replace_permU64Rw stored).symm
    rw [accept_eq_expect fun _ => rfl]
    exact congrArg (lift (expectU64 value) >>= ·) hreplace.symm
  | _ => cases hshared

end Qup.TestNode
