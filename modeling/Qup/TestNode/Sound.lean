import Qup.TestNode.Moves
import Qup.TestNode.Values
import Qup.Foundation.Contract

/-!
# What the cells hold

Every stored value could be written back: the value check of its key reads it from
its own wire form, and it fits a `WRITE`. A `u64` is at most `i64::MAX` although the
conversion saturates, since it came from an `i64`. The background tasks store into
one cell each and announce only the key of that cell.
-/

namespace Qup.TestNode
open Foundation Foundation.Program Foundation.Utf8

structure Cell.Sound (cell : Cell) (value : cell.Value) : Prop where
  expect : cell.kind.expect (cell.wire value).valueRef = .ok value
  admits : cell ≠ .smallStr0 → cell.admits value
  onWire : (cell.wire value).valueRef.OnWire
  fits : (cell.wire value).valueRef.bytes.length ≤ 65533

theorem u64ToWire_toUInt64 {value : Int64} (h : 0 ≤ value) : u64ToWire value.toUInt64 = value := by
  have hnonneg : 0 ≤ value.toInt := by simpa using Int64.le_iff_toInt_le.mp h
  have hnat : (value.toUInt64.toNat : Int) = value.toInt := by
    rw [Int64.toNat_toUInt64_of_le h]
    exact Int.toNat_of_nonneg hnonneg
  rw [u64ToWire, hnat, Int64.ofIntClamp_toInt]

theorem wire_of_expect {kind : Cell.Kind} {value : ValueRef} {stored : kind.Value}
    (h : kind.expect value = .ok stored) : (kind.wire stored).valueRef = value := by
  cases kind with
  | i64 =>
    cases value with
    | i64 value =>
      cases h
      rfl
    | bool value => cases h
    | str value => cases h
  | str =>
    cases value with
    | str value =>
      cases h
      rfl
    | bool value => cases h
    | i64 value => cases h
  | u64 =>
    cases value with
    | i64 value =>
      have hexpect : (if value < 0 then Except.error errTypeMismatch
          else .ok value.toUInt64) = .ok stored := h
      split_ifs at hexpect with hneg
      · cases hexpect
        exact congrArg ValueRef.i64 (u64ToWire_toUInt64 (Int64.not_lt.mp hneg))
    | bool value => cases h
    | str value => cases h

theorem sound_of_expect {cell : Cell} {value : ValueRef} {stored : cell.Value}
    (h : cell.kind.expect value = .ok stored) (hadmits : cell ≠ .smallStr0 → cell.admits stored)
    (hvalue : value.OnWire) (hfits : value.bytes.length ≤ 65533) : cell.Sound stored := by
  have hwire : (cell.wire stored).valueRef = value := wire_of_expect h
  refine ⟨?_, hadmits, ?_, ?_⟩
  · rw [hwire]
    exact h
  · rw [hwire]
    exact hvalue
  · rw [hwire]
    exact hfits

theorem sound_initial (cell : Cell) : cell.Sound cell.initial where
  expect := by cases cell <;> rfl
  admits h := by cases cell <;> first | rfl | exact absurd rfl h
  onWire := by cases cell <;> first | exact trivial | exact wireStr_empty
  fits := by cases cell <;> decide

theorem sound_voltage (value : Int64) : Cell.voltageMa.Sound value := by
  have hlength : (ValueRef.i64 value).bytes.length ≤ 65533 := by simp [ValueRef.bytes]
  exact ⟨rfl, fun _ => rfl, trivial, hlength⟩

theorem sound_mirrorOut {value : Str} (h : Cell.mirrorPending.Sound value) :
    Cell.mirrorOut.Sound value :=
  ⟨h.expect, fun _ => rfl, h.onWire, h.fits⟩

def TaskId.stores : TaskId → Option Cell
  | .connection _ => none
  | .voltage => some .voltageMa
  | .mirror _ => some .mirrorOut

def TaskId.MayStore (t : TaskId) (cell : Cell) : Prop :=
  (∃ c, t = .connection c) ∨ t.stores = some cell

def TaskId.MaySend (t : TaskId) (frame : MessageRef) : Prop :=
  (∃ c, t = .connection c) ∨ ∃ cell keyref, t.stores = some cell ∧ cell.keyref = some keyref ∧
    frame = encodeChanged keyref

def keeping (t : TaskId) : Contract Op.Res where
  asks
    | .swap cell value => cell.Sound value ∧ t.MayStore cell
    | .send _ frame => t.MaySend frame
    | _ => True
  gives
    | .load cell, value => cell.Sound value
    | _, _ => True

abbrev Keeps {ε α : Type} (t : TaskId) (program : Action ε α) : Prop :=
  program.Meets (keeping t) (fun _ => True) fun _ => True

section
variable {t : TaskId} {ε α β : Type}

theorem bind_keeps {p : Action ε α} {f : α → Action ε β} (hp : Keeps t p)
    (hf : ∀ a, Keeps t (f a)) : Keeps t (p >>= f) :=
  meets_bind hp fun a _ => hf a

theorem notifyAll_keeps {keyref : UInt16} (h : t.MaySend (encodeChanged keyref))
    (connections : List ℕ) : Keeps t (notifyAll keyref connections : Action ε Unit) := by
  induction connections with
  | nil => trivial
  | cons c connections ih =>
    refine ⟨trivial, fun observing _ => ?_⟩
    cases observing with
    | false => exact ih
    | true => exact ⟨h, fun _ _ => ih⟩

theorem broadcastChanged_keeps {keyref : UInt16} (h : t.MaySend (encodeChanged keyref)) :
    Keeps t (broadcastChanged keyref : Action ε Unit) :=
  ⟨trivial, fun connections _ => notifyAll_keeps h connections⟩

theorem updateVoltage_keeps : Keeps .voltage (updateVoltage : Action ε Unit) := by
  apply bind_keeps
  · exact ⟨trivial, fun _ _ => trivial⟩
  intro offset
  refine ⟨⟨sound_voltage _, .inr rfl⟩, fun previous _ => ?_⟩
  apply meets_ite
  · exact fun _ => broadcastChanged_keeps (.inr ⟨.voltageMa, _, rfl, rfl, rfl⟩)
  · exact fun _ => trivial

theorem flushMirrorUpdate_keeps (j : ℕ) (generation : UInt64) :
    Keeps (.mirror j) (flushMirrorUpdate generation : Action ε Unit) := by
  refine ⟨trivial, fun current _ => ?_⟩
  apply meets_ite
  · exact fun _ => trivial
  intro _
  refine ⟨trivial, fun value hvalue => ⟨⟨sound_mirrorOut hvalue, .inr rfl⟩, fun previous _ => ?_⟩⟩
  apply meets_ite
  · exact fun _ => broadcastChanged_keeps (.inr ⟨.mirrorOut, _, rfl, rfl, rfl⟩)
  · exact fun _ => trivial

theorem read_keeps (cell : Cell) : Keeps t (read cell : Action ε WireValue) :=
  ⟨trivial, fun _ _ => trivial⟩

theorem getValue_keeps (keyref : UInt16) : Keeps t (getValue keyref) := by
  have hprogram := getValue_getting keyref
  generalize getValue keyref = program at hprogram ⊢
  cases hprogram with
  | fails code => trivial
  | reads cell _ => exact read_keeps cell
  | uptime _ => exact ⟨trivial, fun _ _ => trivial⟩
  | constant _ => trivial

/-- A value that came in a frame is sound where it is stored. -/
theorem sound_of_accept {cell : Cell} {value : ValueRef} {stored : cell.Value}
    (h : cell.accept value = .ok stored) (hvalue : value.OnWire)
    (hfits : value.bytes.length ≤ 65533) : cell.Sound stored := by
  obtain ⟨hexpect, hadmits⟩ := expect_of_accept h
  exact sound_of_expect hexpect (fun _ => hadmits) hvalue hfits

theorem writeValue_keeps {c : ℕ} (keyref : UInt16) {value : ValueRef} (hvalue : value.OnWire)
    (hfits : value.bytes.length ≤ 65533) : Keeps (.connection c) (writeValue keyref value) := by
  have hown {cell : Cell} : TaskId.MayStore (.connection c) cell := .inl ⟨c, rfl⟩
  have hprogram := writeValue_writing keyref value
  generalize writeValue keyref value = program at hprogram ⊢
  cases hprogram with
  | fails code => trivial
  | replaces cell stored _ _ haccept =>
    exact ⟨⟨sound_of_accept haccept hvalue hfits, hown⟩, fun _ _ => trivial⟩
  | mirrors text _ haccept =>
    have hin : Cell.mirrorIn.Sound text := sound_of_expect haccept (fun _ => rfl) hvalue hfits
    have hpending : Cell.mirrorPending.Sound text :=
      sound_of_expect haccept (fun _ => rfl) hvalue hfits
    exact ⟨⟨hin, hown⟩, fun _ _ => ⟨⟨hpending, hown⟩, fun _ _ => ⟨trivial, fun _ _ =>
      ⟨trivial, fun _ _ => trivial⟩⟩⟩⟩
  | stores stored _ haccept =>
    have hstored : Cell.permU64W.Sound stored :=
      sound_of_expect haccept (fun _ => rfl) hvalue hfits
    exact ⟨⟨hstored, hown⟩, fun _ _ => trivial⟩

theorem readNextMessage_eq_some_iff (frame : List UInt8) (message : MessageRef) :
    readNextMessage frame = some message ↔
      message.WellFormed .clientToNode ∧ frame = message.frame := by
  unfold readNextMessage
  constructor
  · intro h
    cases hparse : parseFrame .clientToNode frame with
    | error e =>
      rw [hparse] at h
      cases h
    | ok view =>
      rw [hparse] at h
      obtain ⟨opcode, payload, hlegal, hlen, rfl, rfl⟩ := (parseFrame_ok_iff _ _ _).mp hparse
      cases hdecode : MessageRef.decode opcode payload with
      | error e =>
        simp only [frameView, FrameView.opcode, hdecode] at h
        cases h
      | ok decoded =>
        simp only [frameView, FrameView.opcode, hdecode] at h
        cases h
        obtain ⟨rfl, rfl, honWire⟩ := (MessageRef.decode_ok_iff _ _ _).mp hdecode
        exact ⟨⟨hlegal, honWire, hlen⟩, rfl⟩
  · rintro ⟨⟨hlegal, honWire, hlen⟩, rfl⟩
    rw [MessageRef.frame, parseFrame_frameBytes hlegal hlen]
    simp only [frameView, FrameView.opcode, MessageRef.decode_payload honWire]
    rfl

theorem dispatchRequest_keeps {c : ℕ} {request : RequestRef}
    (h : (MessageRef.request request).WellFormed .clientToNode) :
    Keeps (.connection c) (dispatchRequest c request) := by
  have hown (frame : MessageRef) : TaskId.MaySend (.connection c) frame := .inl ⟨c, rfl⟩
  have hsend (frame : MessageRef) : Keeps (.connection c) (send c frame : Action Empty Bool) :=
    ⟨hown frame, fun _ _ => trivial⟩
  cases request with
  | ping => exact hsend _
  | identify => exact hsend _
  | getKeytabLen => exact hsend _
  | getKey keyref =>
    simp only [dispatchRequest]
    cases keySpec keyref <;> exact hsend _
  | get keyref =>
    apply bind_keeps (meets_attempt (getValue_keeps keyref))
    intro result
    cases result <;> exact hsend _
  | write keyref value =>
    have hlength : (be16 keyref ++ value.bytes).length ≤ 65535 := h.2.2
    have hfits : value.bytes.length ≤ 65533 := by
      rw [List.length_append, length_be16] at hlength
      omega
    apply bind_keeps (meets_attempt (writeValue_keeps keyref h.2.1 hfits))
    intro result
    cases result with
    | error code => exact hsend _
    | ok success =>
      refine ⟨hown _, fun sent _ => ?_⟩
      apply meets_ite
      · exact fun _ => trivial
      intro _
      cases success.changedKeyref with
      | none => trivial
      | some changed => exact bind_keeps (broadcastChanged_keeps (hown _)) fun _ => trivial
  | observe keyref =>
    simp only [dispatchRequest]
    cases canObserve keyref with
    | error code => exact hsend _
    | ok _ =>
      refine ⟨hown _, fun sent _ => ?_⟩
      apply meets_ite
      · exact fun _ => trivial
      · exact fun _ => ⟨trivial, fun _ _ => trivial⟩
  | unobserve keyref =>
    simp only [dispatchRequest]
    cases validateKeyref keyref with
    | error code => exact hsend _
    | ok _ => exact ⟨trivial, fun _ _ => hsend _⟩

theorem starts_keeps {task : Task} (h : Starts t task) : Keeps t task.program := by
  cases h with
  | dispatch c message hread =>
    obtain ⟨frame, hread⟩ := hread
    have hmessage := ((readNextMessage_eq_some_iff frame message).mp hread).1
    cases message with
    | request request => exact dispatchRequest_keeps hmessage
    | compatibilityRequest => exact ⟨.inl ⟨c, rfl⟩, fun _ _ => trivial⟩
    | _ => trivial
  | voltage => exact bind_keeps updateVoltage_keeps fun _ => trivial
  | mirror j generation => exact bind_keeps (flushMirrorUpdate_keeps j generation) fun _ => trivial

end

structure Node.Sound (s : Node) : Prop where
  store : ∀ cell : Cell, cell.Sound (s.store cell)
  tasks : ∀ t task, s.task t = some task → Keeps t task.program

theorem nodeSound_initial (seed : UInt64) : (Node.initial seed).Sound where
  store := sound_initial
  tasks t task h := by cases t <;> simp [Node.initial, Node.task] at h

theorem answer_gives {s : Node} (hs : s.Sound) (t : TaskId) (o : Op) :
    (keeping t).gives o (s.answer o) := by
  cases o with
  | load cell => exact hs.store cell
  | _ => trivial

theorem nodeSound_step {s s' : Node} {l : Label} (hs : s.Sound) (h : s.step l = some s') :
    s'.Sound := by
  constructor
  · intro cell
    rcases Node.step_stays h with hstays | ⟨t, task, o, k, rfl, htask, hprogram, rfl⟩
    · rw [hstays.store]
      exact hs.store cell
    · have hkeeps := hs.tasks t task htask
      rw [hprogram] at hkeeps
      by_cases hswap : ∃ value, o = .swap cell value
      · obtain ⟨value, rfl⟩ := hswap
        rw [Node.performed_swap]
        exact hkeeps.1.1
      · rw [Node.performed_store (not_exists.mp hswap)]
        exact hs.store cell
  · intro t task ht
    cases Node.step_moves h with
    | outside _ _ _ htask =>
      rcases htask t task ht with hold | hstart
      · exact hs.tasks t task hold
      · exact starts_keeps hstart
    | @act t' task' o k htask hprogram =>
      rcases Node.task_act s htask ht with ⟨rfl, rfl⟩ | ⟨_, hold | hstart⟩
      · have hkeeps := hs.tasks t task' htask
        rw [hprogram] at hkeeps
        exact hkeeps.2 _ (answer_gives hs t o)
      · exact hs.tasks t task hold
      · exact starts_keeps hstart

theorem nodeSound_of_reachable {seed : UInt64} {s : Node}
    (h : Reachable Node.step (Node.initial seed) s) : s.Sound :=
  h.invariant Node.Sound (nodeSound_initial seed) fun _ _ _ hu hstep => nodeSound_step hu hstep

end Qup.TestNode
