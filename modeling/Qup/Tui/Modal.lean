import Qup.Tui.Writes

/-!
# The write that a modal waits for

The interface within one connection: `App`, and the commands that it has sent and
that are not answered yet. They are answered in order, a write by one
`WriteSucceeded` or `WriteFailed` for its key. Modals are counted as they are
opened, and a command is kept with the count of the modal it was sent from.
-/

namespace Qup.Tui
open Foundation Foundation.Utf8 Client

structure Desk where
  app : App
  queue : List (WorkerCommand × ℕ)
  opened : ℕ

inductive Happening where
  | input (isOpen : Bool) (geometry : UiGeometry) (event : Event)
  | valueUpdated (keyref : UInt16) (value : Display) (lastRead : Option ℕ)
  | writeSucceeded (value : Display) (lastRead : ℕ)
  | writeFailed (error : Failure)
  | refreshed

def clicked (geometry : UiGeometry) : Event → Option ModalClickTarget
  | .mouse mouse =>
    if mouse.isLeftDown then geometry.modal.bind fun g => g.targetAt mouse.column mouse.row
    else none
  | _ => none

def ModalClickTarget.submits : ModalClickTarget → Bool
  | .stringInput | .numberInput => false
  | _ => true

def chosen (app : App) (geometry : UiGeometry) : Event → Option KeyRow
  | .mouse mouse =>
    if mouse.isLeftDown && geometry.modal.isNone then
      ((geometry.table.bind fun g => g.rowAt mouse.column mouse.row app.keys.length).bind
        fun rowIndex => app.keys[rowIndex]?).filter fun row => row.info.keyflags.isWritable
    else none
  | _ => none

def Happening.answers : Happening → Bool
  | .writeSucceeded _ _ | .writeFailed _ => true
  | _ => false

def WorkerCommand.writes (keyref : UInt16) : WorkerCommand → Bool
  | .writeValue k _ => k = keyref
  | .refreshAllReadable => false

namespace Desk

/-- The connection has delivered its table; commands may still be queued. -/
def initial (app : App) (nodeId : Str) (rows : List KeyRow) (queue : List WorkerCommand) : Desk :=
  ⟨app.apply (.connected nodeId rows), queue.map fun command => (command, 0), 0⟩

def input (s : Desk) (handled : Handled) (opens : Bool) : Desk where
  app := handled.app
  queue := s.queue ++ (handled.command.map fun command => (command, s.opened)).toList
  opened := if opens then s.opened + 1 else s.opened

def answer (s : Desk) (event : UInt16 → NetworkEvent) : Option Desk :=
  match s.queue with
  | (.writeValue keyref _, _) :: queue =>
    some { s with app := s.app.apply (event keyref), queue }
  | _ => none

def step (s : Desk) : Happening → Option Desk
  | .input isOpen geometry event =>
    some (s.input (handleEvent isOpen s.app geometry event) (chosen s.app geometry event).isSome)
  | .valueUpdated keyref value lastRead =>
    some { s with app := s.app.apply (.valueUpdated keyref value lastRead) }
  | .writeSucceeded value lastRead => s.answer fun keyref => .writeSucceeded keyref value lastRead
  | .writeFailed error => s.answer fun keyref => .writeFailed keyref error
  | .refreshed =>
    match s.queue with
    | (.refreshAllReadable, _) :: queue => some { s with queue }
    | _ => none

def outstanding (s : Desk) (keyref : UInt16) : ℕ := s.queue.countP fun q => q.1.writes keyref

/-- An open modal waits for its own write, and for no other. -/
structure Accounts (s : Desk) : Prop where
  outstanding_eq : ∀ modal, s.app.modal = some modal →
    s.outstanding modal.keyref = if modal.submitting then 1 else 0
  own : ∀ modal, s.app.modal = some modal → ∀ q ∈ s.queue, q.1.writes modal.keyref = true →
    q.2 = s.opened

/-- No button is clicked in a modal that is submitting, and no modal is opened for a
key of which a write is not answered yet. -/
def Patient (s : Desk) : Happening → Prop
  | .input _ geometry event =>
    (∀ target, clicked geometry event = some target → target.submits = true →
      ∀ modal, s.app.modal = some modal → modal.submitting = false) ∧
    ∀ row, chosen s.app geometry event = some row → s.outstanding row.info.keyref = 0
  | _ => True

end Desk

def Submitted (modal : EditModal) (r : EditModal × Option WorkerCommand) : Prop :=
  r.1.keyref = modal.keyref ∧
    ((r.1.submitting = true ∧ ∃ value, r.2 = some (.writeValue modal.keyref value)) ∨
      (r.1.submitting = false ∧ r.2 = none))

inductive Effect (app : App) (geometry : UiGeometry) (event : Event) (handled : Handled) :
    Prop where
  | keeps (hmodal : ∀ modal, handled.app.modal = some modal → ∃ old, app.modal = some old ∧
        old.keyref = modal.keyref ∧ old.submitting = modal.submitting)
      (hcommand : ∀ keyref value, handled.command ≠ some (.writeValue keyref value))
      (hclicked : ∀ target, clicked geometry event = some target → target.submits = true →
        app.modal = none)
      (hchosen : chosen app geometry event = none)
  | submits (old new : EditModal) (hold : app.modal = some old)
      (hnew : handled.app.modal = some new)
      (hsubmitted : Submitted old (new, handled.command))
      (hwhen : old.submitting = false ∨
        ∃ target, clicked geometry event = some target ∧ target.submits = true)
      (hchosen : chosen app geometry event = none)
  | opens (row : KeyRow) (new : EditModal) (hnew : handled.app.modal = some new)
      (hkeyref : new.keyref = row.info.keyref) (hsubmitting : new.submitting = false)
      (hcommand : handled.command = none) (hclicked : clicked geometry event = none)
      (hchosen : chosen app geometry event = some row)

section
variable {isOpen : Bool} {app : App} {geometry : UiGeometry}

theorem submitted_queueWriteCommand (modal : EditModal) (value : Value) :
    Submitted modal (queueWriteCommand isOpen modal (.writeValue modal.keyref value)) := by
  cases isOpen with
  | true => exact ⟨rfl, .inl ⟨rfl, value, rfl⟩⟩
  | false => exact ⟨rfl, .inr ⟨rfl, rfl⟩⟩

theorem modifyModal_some {modal : EditModal} (hmodal : app.modal = some modal)
    (f : EditModal → EditModal × Option WorkerCommand) :
    modifyModal app f = ({ app with modal := some (f modal).1 }, (f modal).2) := by
  simp only [modifyModal, hmodal]

theorem modifyModal_none (hmodal : app.modal = none)
    (f : EditModal → EditModal × Option WorkerCommand) : modifyModal app f = (app, none) := by
  simp only [modifyModal, hmodal]

theorem submitted_clickModal (isOpen : Bool) (app : App) {target : ModalClickTarget}
    (htarget : target.submits = true) : ∃ f, (∀ modal, Submitted modal (f modal)) ∧
      clickModal isOpen app target = modifyModal app f := by
  cases target with
  | stringInput => cases htarget
  | numberInput => cases htarget
  | stringSet => exact ⟨_, fun modal => submitted_queueWriteCommand modal _, rfl⟩
  | boolTrue => exact ⟨_, fun modal => submitted_queueWriteCommand modal _, rfl⟩
  | boolFalse => exact ⟨_, fun modal => submitted_queueWriteCommand modal _, rfl⟩
  | numberSet =>
    refine ⟨_, fun modal => ?_, rfl⟩
    cases parseI64 modal.numberInput with
    | ok value => exact submitted_queueWriteCommand modal _
    | error error => exact ⟨rfl, .inr ⟨rfl, rfl⟩⟩

theorem submittedFocused_eq (isOpen : Bool) {modal : EditModal} (hmodal : app.modal = some modal) :
    ∃ target : ModalClickTarget, target.submits = true ∧
      submitFocusedModalValue isOpen app = clickModal isOpen app target := by
  unfold submitFocusedModalValue
  rw [hmodal, Option.map_some]
  cases modal.focus with
  | stringInput => exact ⟨.stringSet, rfl, rfl⟩
  | numberInput => exact ⟨.numberSet, rfl, rfl⟩

theorem submitting_pushCharacter (modal : EditModal) (character : Str) :
    (pushCharacter modal character).submitting = modal.submitting := by
  unfold pushCharacter
  split
  · rfl
  · split_ifs <;> rfl
  · rfl

theorem submitting_popCharacter (modal : EditModal) :
    (popCharacter modal).submitting = modal.submitting := by
  unfold popCharacter
  cases modal.focus <;> rfl

theorem effect_same {event : Event} {outcome : InputOutcome} {command : Option WorkerCommand}
    (hcommand : ∀ keyref value, command ≠ some (.writeValue keyref value))
    (hclicked : ∀ target, clicked geometry event = some target → target.submits = true →
      app.modal = none) (hchosen : chosen app geometry event = none) :
    Effect app geometry event ⟨app, outcome, command⟩ :=
  .keeps (fun modal hmodal => ⟨modal, hmodal, rfl, rfl⟩) hcommand hclicked hchosen

theorem effect_ite {event : Event} {c : Prop} [Decidable c] {p q : Handled}
    (hp : c → Effect app geometry event p) (hq : ¬c → Effect app geometry event q) :
    Effect app geometry event (if c then p else q) := by
  split_ifs with h
  · exact hp h
  · exact hq h

theorem effect_edited {key : KeyEvent} {old new : EditModal} (hold : app.modal = some old)
    (hkeyref : new.keyref = old.keyref) (hsubmitting : new.submitting = old.submitting) :
    Effect app geometry (.key key) (redrawn { app with modal := some new } none) := by
  refine .keeps (fun modal hmodal => ⟨old, hold, ?_⟩) nofun nofun rfl
  cases hmodal
  exact ⟨hkeyref.symm, hsubmitting.symm⟩

theorem effect_handleModalKeyEvent {modal : EditModal} (hmodal : app.modal = some modal)
    (key : KeyEvent) :
    Effect app geometry (.key key) (handleModalKeyEvent isOpen app modal key) := by
  have hignored : Effect app geometry (.key key) (ignored app) := effect_same nofun nofun rfl
  have hclosed : Effect app geometry (.key key) (redrawn { app with modal := none } none) :=
    .keeps nofun nofun nofun rfl
  refine effect_ite (fun _ => effect_ite (fun _ => hclosed) fun _ => hignored)
    fun hsubmitting => ?_
  cases key.code with
  | esc => exact hclosed
  | tab => exact effect_edited hmodal rfl rfl
  | backTab => exact effect_edited hmodal rfl rfl
  | backspace =>
    exact effect_edited hmodal (keyref_popCharacter modal) (submitting_popCharacter modal)
  | enter =>
    obtain ⟨target, htarget, hfocused⟩ := submittedFocused_eq isOpen hmodal
    obtain ⟨f, hf, hclick⟩ := submitted_clickModal isOpen app htarget
    dsimp only
    rw [hfocused, hclick, modifyModal_some hmodal]
    exact .submits modal (f modal).1 hmodal rfl (hf modal) (.inl (by simpa using hsubmitting)) rfl
  | char character =>
    exact effect_ite (fun _ => hignored) fun _ => effect_edited hmodal
      (keyref_pushCharacter modal character) (submitting_pushCharacter modal character)
  | other => exact hignored

theorem effect_handleKeyEvent (key : KeyEvent) :
    Effect app geometry (.key key) (handleKeyEvent isOpen app key) := by
  have hsame : ∀ {outcome command}, (∀ keyref value, command ≠ some (.writeValue keyref value)) →
      Effect app geometry (.key key) ⟨app, outcome, command⟩ :=
    fun hcommand => effect_same hcommand nofun rfl
  refine effect_ite (fun _ => hsame nofun) fun _ => effect_ite (fun _ => hsame nofun) fun _ => ?_
  cases hmodal : app.modal with
  | some modal => exact effect_handleModalKeyEvent hmodal key
  | none =>
    refine effect_ite (fun _ => hsame nofun) fun _ => effect_ite (fun _ => hsame ?_) fun _ =>
      hsame nofun
    cases isOpen <;> exact nofun

theorem effect_clickModal {mouse : MouseEvent} {target : ModalClickTarget}
    (hclicked : clicked geometry (.mouse mouse) = some target)
    (hchosen : chosen app geometry (.mouse mouse) = none) :
    Effect app geometry (.mouse mouse)
      (redrawn (clickModal isOpen app target).1 (clickModal isOpen app target).2) := by
  cases htarget : target.submits with
  | true =>
    obtain ⟨f, hf, hclick⟩ := submitted_clickModal isOpen app htarget
    rw [hclick]
    cases hmodal : app.modal with
    | none =>
      rw [modifyModal_none hmodal]
      exact effect_same nofun (fun _ _ _ => hmodal) hchosen
    | some modal =>
      rw [modifyModal_some hmodal]
      exact .submits modal (f modal).1 hmodal rfl (hf modal) (.inr ⟨target, hclicked, htarget⟩)
        hchosen
  | false =>
    obtain ⟨focus, hclick⟩ : ∃ focus, clickModal isOpen app target =
        modifyModal app fun modal => ({ modal with focus }, none) := by
      cases target with
      | stringInput => exact ⟨.stringInput, rfl⟩
      | numberInput => exact ⟨.numberInput, rfl⟩
      | stringSet => cases htarget
      | boolTrue => cases htarget
      | boolFalse => cases htarget
      | numberSet => cases htarget
    have hnone : ∀ other, clicked geometry (.mouse mouse) = some other → other.submits = true →
        app.modal = none := by
      intro other hother hsubmits
      cases hclicked.symm.trans hother
      rw [htarget] at hsubmits
      cases hsubmits
    rw [hclick]
    cases hmodal : app.modal with
    | none =>
      rw [modifyModal_none hmodal]
      exact effect_same nofun hnone hchosen
    | some modal =>
      rw [modifyModal_some hmodal]
      refine .keeps (fun new hnew => ⟨modal, hmodal, ?_⟩) nofun hnone hchosen
      cases hnew
      exact ⟨rfl, rfl⟩

theorem openModalForKey_of_mem {row : KeyRow} (hmem : row ∈ app.keys)
    (hwritable : row.info.keyflags.isWritable = true) : ∃ new : EditModal,
      (app.openModalForKey row.info.keyref).modal = some new ∧ new.keyref = row.info.keyref ∧
        new.submitting = false := by
  unfold App.openModalForKey
  cases hfind : app.keys.find? fun other =>
      other.info.keyref = row.info.keyref && other.info.keyflags.isWritable with
  | none =>
    have hnot := List.find?_eq_none.mp hfind row hmem
    simp [hwritable] at hnot
  | some found =>
    have hfound := List.find?_some hfind
    rw [Bool.and_eq_true, decide_eq_true_eq] at hfound
    exact ⟨.fromRow found, rfl, hfound.1, rfl⟩

theorem effect_clickTable {mouse : MouseEvent} {g : TableGeometry}
    (hmouse : mouse.isLeftDown = true) (hmodal : geometry.modal = none)
    (htable : geometry.table = some g) :
    Effect app geometry (.mouse mouse) (clickTable app g mouse) := by
  have hclicked : clicked geometry (.mouse mouse) = none := by
    simp only [clicked, hmouse, hmodal, if_true, Option.bind_none]
  have hchosen : chosen app geometry (.mouse mouse) =
      ((g.rowAt mouse.column mouse.row app.keys.length).bind
        fun rowIndex => app.keys[rowIndex]?).filter fun row => row.info.keyflags.isWritable := by
    simp only [chosen, hmouse, hmodal, htable, Option.isNone_none, Bool.and_self, if_true,
      Option.bind_some]
  have hnone : ∀ other, clicked geometry (.mouse mouse) = some other → other.submits = true →
      app.modal = none := by
    rw [hclicked]
    exact nofun
  unfold clickTable
  cases hindex : g.rowAt mouse.column mouse.row app.keys.length with
  | none =>
    rw [hindex, Option.bind_none, Option.filter_none] at hchosen
    exact effect_same nofun hnone hchosen
  | some rowIndex =>
    rw [hindex, Option.bind_some] at hchosen
    dsimp only
    cases hrow : app.keys[rowIndex]? with
    | none =>
      rw [hrow, Option.filter_none] at hchosen
      exact effect_same nofun hnone hchosen
    | some row =>
      rw [hrow] at hchosen
      cases hwritable : row.info.keyflags.isWritable with
      | false =>
        rw [Option.filter_some, if_neg (by simp [hwritable])] at hchosen
        refine effect_ite (fun _ => effect_same nofun hnone hchosen) fun h => ?_
        simp [hwritable] at h
      | true =>
        rw [Option.filter_some, if_pos hwritable] at hchosen
        refine effect_ite (fun h => ?_) fun _ => ?_
        · simp [hwritable] at h
        · obtain ⟨new, hnew, hkeyref, hsubmitting⟩ :=
            openModalForKey_of_mem (List.mem_of_getElem? hrow) hwritable
          exact .opens row new hnew hkeyref hsubmitting rfl hclicked hchosen

theorem effect_handleMouseEvent (mouse : MouseEvent) :
    Effect app geometry (.mouse mouse) (handleMouseEvent isOpen app geometry mouse) := by
  unfold handleMouseEvent
  refine effect_ite (fun hmouse => ?_) fun hmouse => ?_
  · have hup : mouse.isLeftDown = false := by simpa using hmouse
    refine effect_same nofun (fun target htarget => ?_) ?_
    · simp [clicked, hup] at htarget
    · simp [chosen, hup]
  · have hdown : mouse.isLeftDown = true := by simpa using hmouse
    cases hmodal : geometry.modal with
    | some g =>
      have hchosen : chosen app geometry (.mouse mouse) = none := by simp [chosen, hmodal]
      have hclicked : clicked geometry (.mouse mouse) = g.targetAt mouse.column mouse.row := by
        simp only [clicked, hdown, hmodal, if_true, Option.bind_some]
      dsimp only
      cases htarget : g.targetAt mouse.column mouse.row with
      | some target => exact effect_clickModal (hclicked.trans htarget) hchosen
      | none =>
        have hnone : ∀ other, clicked geometry (.mouse mouse) = some other →
            other.submits = true → app.modal = none := by
          rw [hclicked, htarget]
          exact nofun
        exact effect_ite (fun _ => .keeps nofun nofun hnone hchosen) fun _ =>
          effect_same nofun hnone hchosen
    | none =>
      cases htable : geometry.table with
      | some g => exact effect_clickTable hdown hmodal htable
      | none =>
        refine effect_same nofun (fun target htarget => ?_) ?_
        · simp [clicked, hmodal] at htarget
        · simp [chosen, htable]

theorem effect_handleEvent (isOpen : Bool) (app : App) (geometry : UiGeometry) (event : Event) :
    Effect app geometry event (handleEvent isOpen app geometry event) := by
  cases event with
  | key key => exact effect_handleKeyEvent key
  | mouse mouse => exact effect_handleMouseEvent mouse
  | resize => exact effect_same nofun nofun rfl
  | other => exact effect_same nofun nofun rfl

end

namespace Desk

theorem answer_eq_some {s t : Desk} {event : UInt16 → NetworkEvent} (h : s.answer event = some t) :
    ∃ keyref value tag queue, s.queue = (.writeValue keyref value, tag) :: queue ∧
      t = { s with app := s.app.apply (event keyref), queue } := by
  unfold answer at h
  split at h
  · rename_i keyref value tag queue hqueue
    exact ⟨keyref, value, tag, queue, hqueue, (Option.some.inj h).symm⟩
  · cases h

theorem step_refreshed {s t : Desk} (h : s.step .refreshed = some t) :
    ∃ tag queue, s.queue = (.refreshAllReadable, tag) :: queue ∧ t = { s with queue } := by
  dsimp only [step] at h
  split at h
  · rename_i tag queue hqueue
    exact ⟨tag, queue, hqueue, (Option.some.inj h).symm⟩
  · cases h

theorem Patient.of_none {s : Desk} {isOpen : Bool} {geometry : UiGeometry} {event : Event}
    (hclicked : ∀ target, clicked geometry event = some target → target.submits = true →
      s.app.modal = none) (hchosen : chosen s.app geometry event = none) :
    s.Patient (.input isOpen geometry event) := by
  refine ⟨fun target htarget hsubmits modal hmodal => ?_, fun row hrow => ?_⟩
  · rw [hclicked target htarget hsubmits] at hmodal
    cases hmodal
  · rw [hchosen] at hrow
    cases hrow

section
variable {s : Desk} {handled : Handled} {opens : Bool}

theorem mem_input {q : WorkerCommand × ℕ} (hq : q ∈ (s.input handled opens).queue) :
    q ∈ s.queue ∨ ∃ command, handled.command = some command ∧ q = (command, s.opened) := by
  rcases List.mem_append.mp hq with hold | hnew
  · exact .inl hold
  · rw [Option.mem_toList, Option.map_eq_some_iff] at hnew
    obtain ⟨command, hcommand, rfl⟩ := hnew
    exact .inr ⟨command, hcommand, rfl⟩

theorem outstanding_quiet
    (hcommand : ∀ keyref value, handled.command ≠ some (.writeValue keyref value))
    (keyref : UInt16) : (s.input handled opens).outstanding keyref = s.outstanding keyref := by
  unfold outstanding input
  dsimp only
  cases hc : handled.command with
  | none => rw [Option.map_none, Option.toList_none, List.append_nil]
  | some command =>
    cases command with
    | refreshAllReadable => simp [WorkerCommand.writes]
    | writeValue k value => exact absurd hc (hcommand k value)

theorem outstanding_sent {keyref : UInt16} {value : Value}
    (hcommand : handled.command = some (.writeValue keyref value)) :
    (s.input handled opens).outstanding keyref = s.outstanding keyref + 1 := by
  unfold outstanding input
  rw [hcommand, Option.map_some, Option.toList_some, List.countP_append]
  simp [WorkerCommand.writes]

theorem mem_quiet
    (hcommand : ∀ keyref value, handled.command ≠ some (.writeValue keyref value))
    {keyref : UInt16} {q : WorkerCommand × ℕ} (hq : q ∈ (s.input handled opens).queue)
    (hwrites : q.1.writes keyref = true) : q ∈ s.queue := by
  rcases mem_input hq with hqueued | ⟨command, hsent, rfl⟩
  · exact hqueued
  · cases command with
    | refreshAllReadable => cases hwrites
    | writeValue k value => exact absurd hsent (hcommand k value)

theorem accounts_submitted {old new : EditModal} (hs : s.Accounts)
    (hold : s.app.modal = some old) (hnew : handled.app.modal = some new)
    (hsubmitted : Submitted old (new, handled.command)) :
    (s.input handled false).Accounts ↔ old.submitting = false := by
  have hkeyref : new.keyref = old.keyref := hsubmitted.1
  have hcount : (s.input handled false).outstanding new.keyref =
      (if old.submitting then 1 else 0) + if new.submitting then 1 else 0 := by
    rw [hkeyref, ← hs.outstanding_eq old hold]
    rcases hsubmitted.2 with ⟨hsubmitting, value, hcommand⟩ | ⟨hsubmitting, hcommand⟩
    · rw [outstanding_sent hcommand, if_pos hsubmitting]
    · have hquiet : ∀ keyref value, handled.command ≠ some (.writeValue keyref value) := by
        intro keyref value hsent
        cases hcommand.symm.trans hsent
      rw [outstanding_quiet hquiet, if_neg (by simpa using hsubmitting), Nat.add_zero]
  constructor
  · intro ht
    have hafter := ht.outstanding_eq new hnew
    rw [hcount] at hafter
    cases hsubmitting : old.submitting with
    | false => rfl
    | true =>
      rw [hsubmitting, if_pos rfl] at hafter
      omega
  · intro hidle
    refine ⟨fun modal hmodal => ?_, fun modal hmodal q hq hwrites => ?_⟩
    · cases hnew.symm.trans hmodal
      rw [hcount, hidle, if_neg Bool.false_ne_true, Nat.zero_add]
    · cases hnew.symm.trans hmodal
      rcases mem_input hq with hqueued | ⟨command, -, rfl⟩
      · exact hs.own old hold q hqueued (hkeyref ▸ hwrites)
      · rfl

end

theorem Accounts.of_none {s : Desk} (hmodal : s.app.modal = none) : s.Accounts := by
  refine ⟨fun modal h => ?_, fun modal h => ?_⟩
  · cases hmodal.symm.trans h
  · cases hmodal.symm.trans h

theorem Accounts.carried {s t : Desk} (hs : s.Accounts) (hopened : t.opened = s.opened)
    (hmodal : ∀ modal, t.app.modal = some modal → ∃ old, s.app.modal = some old ∧
      old.keyref = modal.keyref ∧ old.submitting = modal.submitting)
    (houtstanding : ∀ keyref, t.outstanding keyref = s.outstanding keyref)
    (hqueue : ∀ keyref, ∀ q ∈ t.queue, q.1.writes keyref = true → q ∈ s.queue) : t.Accounts := by
  refine ⟨fun modal h => ?_, fun modal h q hq hwrites => ?_⟩
  · obtain ⟨old, hold, hkeyref, hsubmitting⟩ := hmodal modal h
    rw [houtstanding, ← hkeyref, ← hsubmitting]
    exact hs.outstanding_eq old hold
  · obtain ⟨old, hold, hkeyref, -⟩ := hmodal modal h
    rw [hopened]
    exact hs.own old hold q (hqueue _ q hq hwrites) (hkeyref ▸ hwrites)

theorem accounts_input_iff {s : Desk} (hs : s.Accounts) (isOpen : Bool) (geometry : UiGeometry)
    (event : Event) :
    (s.input (handleEvent isOpen s.app geometry event)
        (chosen s.app geometry event).isSome).Accounts ↔
      s.Patient (.input isOpen geometry event) := by
  rcases effect_handleEvent isOpen s.app geometry event with
    ⟨hmodal, hcommand, hclicked, hchosen⟩ |
    ⟨old, new, hold, hnew, hsubmitted, hwhen, hchosen⟩ |
    ⟨row, new, hnew, hkeyref, hsubmitting, hcommand, hclicked, hchosen⟩
  · refine iff_of_true ?_ (.of_none hclicked hchosen)
    rw [hchosen]
    exact hs.carried rfl hmodal (outstanding_quiet hcommand) fun _ _ => mem_quiet hcommand
  · rw [hchosen, Option.isSome_none, accounts_submitted hs hold hnew hsubmitted]
    constructor
    · intro hidle
      refine ⟨fun _ _ _ modal hmodal => ?_, fun row hrow => ?_⟩
      · cases hold.symm.trans hmodal
        exact hidle
      · rw [hchosen] at hrow
        cases hrow
    · rintro ⟨hpatient, -⟩
      rcases hwhen with hidle | ⟨target, htarget, hsubmits⟩
      · exact hidle
      · exact hpatient target htarget hsubmits old hold
  · have hquiet : ∀ keyref value, (handleEvent isOpen s.app geometry event).command ≠
        some (.writeValue keyref value) := by
      rw [hcommand]
      exact nofun
    constructor
    · intro ht
      have hafter := ht.outstanding_eq new hnew
      rw [outstanding_quiet hquiet, hsubmitting, hkeyref] at hafter
      refine ⟨fun target htarget => ?_, fun other hother => ?_⟩
      · rw [hclicked] at htarget
        cases htarget
      · cases hchosen.symm.trans hother
        exact hafter
    · rintro ⟨-, hpatient⟩
      have hnone := hpatient row hchosen
      refine ⟨fun modal hmodal => ?_, fun modal hmodal q hq hwrites => ?_⟩
      · cases hnew.symm.trans hmodal
        rw [outstanding_quiet hquiet, hsubmitting, hkeyref]
        exact hnone
      · cases hnew.symm.trans hmodal
        rw [hkeyref] at hwrites
        exact absurd hwrites (List.countP_eq_zero.mp hnone q (mem_quiet hquiet hq hwrites))

theorem accounts_answered {s : Desk} (hs : s.Accounts) {keyref : UInt16} {value : Value} {tag : ℕ}
    {queue : List (WorkerCommand × ℕ)} (hqueue : s.queue = (.writeValue keyref value, tag) :: queue)
    {f : EditModal → Option EditModal}
    (hf : ∀ modal next, f modal = some next → next.keyref = modal.keyref ∧ next.submitting = false)
    {app : App} (happ : app.modal = s.app.modal) :
    Accounts { s with app := app.updateModal keyref f, queue } := by
  have hown : ∀ old, s.app.modal = some old → ∀ q ∈ queue, q.1.writes old.keyref = true →
      q.2 = s.opened :=
    fun old hold q hq => hs.own old hold q (by rw [hqueue]; exact List.mem_cons_of_mem _ hq)
  have hmodal : ∀ modal, (app.updateModal keyref f).modal = some modal →
      ∃ old, s.app.modal = some old ∧ old.keyref = modal.keyref ∧
        queue.countP (fun q => q.1.writes modal.keyref) = if modal.submitting then 1 else 0 := by
    intro modal h
    obtain ⟨old, hold, hnext⟩ := Option.bind_eq_some_iff.mp h
    rw [happ] at hold
    have hbefore := hs.outstanding_eq old hold
    rw [outstanding, hqueue] at hbefore
    split_ifs at hnext with hkeyref
    · obtain ⟨hsame, hidle⟩ := hf old modal hnext
      have hfirst : WorkerCommand.writes old.keyref (.writeValue keyref value) = true :=
        decide_eq_true hkeyref.symm
      rw [List.countP_cons, if_pos hfirst] at hbefore
      refine ⟨old, hold, hsame.symm, ?_⟩
      rw [hsame, hidle, if_neg Bool.false_ne_true]
      split_ifs at hbefore
      · omega
    · obtain rfl := Option.some.inj hnext
      have hfirst : ¬WorkerCommand.writes old.keyref (.writeValue keyref value) = true := by
        simpa [WorkerCommand.writes] using Ne.symm hkeyref
      rw [List.countP_cons, if_neg hfirst] at hbefore
      exact ⟨old, hold, rfl, hbefore⟩
  refine ⟨fun modal h => ?_, fun modal h q hq hwrites => ?_⟩
  · obtain ⟨-, -, -, hcount⟩ := hmodal modal h
    exact hcount
  · obtain ⟨old, hold, hkeyref, -⟩ := hmodal modal h
    exact hown old hold q hq (hkeyref ▸ hwrites)

theorem accounts_step {s t : Desk} {l : Happening} (hs : s.Accounts) (h : s.step l = some t) :
    t.Accounts ↔ s.Patient l := by
  cases l with
  | input isOpen geometry event =>
    cases h
    exact accounts_input_iff hs isOpen geometry event
  | valueUpdated keyref value lastRead =>
    cases h
    refine iff_of_true (hs.carried rfl (fun modal hnew => ?_) (fun _ => rfl) fun _ _ hq _ => hq)
      trivial
    obtain ⟨old, hold, hnext⟩ := Option.bind_eq_some_iff.mp hnew
    refine ⟨old, hold, ?_⟩
    split_ifs at hnext
    · cases hnext
      exact ⟨rfl, rfl⟩
    · cases hnext
      exact ⟨rfl, rfl⟩
  | writeSucceeded value lastRead =>
    obtain ⟨keyref, written, tag, queue, hqueue, rfl⟩ := answer_eq_some h
    refine iff_of_true (accounts_answered hs hqueue (fun modal next hnext => ?_) rfl) trivial
    cases hnext
  | writeFailed error =>
    obtain ⟨keyref, written, tag, queue, hqueue, rfl⟩ := answer_eq_some h
    refine iff_of_true (accounts_answered hs hqueue (fun modal next hnext => ?_) rfl) trivial
    cases hnext
    exact ⟨rfl, rfl⟩
  | refreshed =>
    obtain ⟨tag, queue, hqueue, rfl⟩ := step_refreshed h
    refine iff_of_true (hs.carried rfl (fun modal hmodal => ⟨modal, hmodal, rfl, rfl⟩)
      (fun keyref => ?_) fun _ q hq _ => ?_) trivial
    · have hfirst : ¬WorkerCommand.writes keyref .refreshAllReadable = true := Bool.false_ne_true
      rw [outstanding, outstanding, hqueue, List.countP_cons, if_neg hfirst]
      rfl
    · rw [hqueue]
      exact List.mem_cons_of_mem _ hq

/-- In the state after a step an open modal waits for its own write. The step itself
sends no write from a modal that is submitting, and an answer to a write of an
earlier modal leaves the open one as it is. -/
structure Settled (s : Desk) (l : Happening) (t : Desk) : Prop where
  accounts : t.Accounts
  once : ∀ isOpen geometry event, l = .input isOpen geometry event →
    ∀ modal, s.app.modal = some modal → modal.submitting = true →
      ∀ keyref value, (handleEvent isOpen s.app geometry event).command ≠
        some (.writeValue keyref value)
  later : l.answers = true → ∀ q, s.queue.head? = some q → q.2 ≠ s.opened →
    t.app.modal = s.app.modal

def Settles (s : Desk) (l : Happening) : Prop := ∀ t, s.step l = some t → s.Settled l t

theorem command_of_patient {s : Desk} {isOpen : Bool} {geometry : UiGeometry} {event : Event}
    (h : s.Patient (.input isOpen geometry event)) {modal : EditModal}
    (hmodal : s.app.modal = some modal) (hsubmitting : modal.submitting = true) (keyref : UInt16)
    (value : Value) :
    (handleEvent isOpen s.app geometry event).command ≠ some (.writeValue keyref value) := by
  rcases effect_handleEvent isOpen s.app geometry event with
    ⟨-, hcommand, -, -⟩ | ⟨old, new, hold, -, -, hwhen, -⟩ | ⟨-, -, -, -, -, hcommand, -, -⟩
  · exact hcommand keyref value
  · exfalso
    have hidle : old.submitting = false := by
      rcases hwhen with hidle | ⟨target, htarget, hsubmits⟩
      · exact hidle
      · exact h.1 target htarget hsubmits old hold
    cases hold.symm.trans hmodal
    rw [hsubmitting] at hidle
    cases hidle
  · rw [hcommand]
    exact nofun

theorem modal_updateModal {app : App} {keyref : UInt16} {f : EditModal → Option EditModal}
    (h : ∀ modal, app.modal = some modal → modal.keyref ≠ keyref) :
    (app.updateModal keyref f).modal = app.modal := by
  unfold App.updateModal
  cases hmodal : app.modal with
  | none => rfl
  | some modal => exact if_neg (h modal hmodal)

theorem modal_answered {s t : Desk} (hs : s.Accounts) {l : Happening} (h : s.step l = some t)
    (hanswers : l.answers = true) {q : WorkerCommand × ℕ} (hq : s.queue.head? = some q)
    (hlater : q.2 ≠ s.opened) : t.app.modal = s.app.modal := by
  have hother : ∀ {keyref value tag queue},
      s.queue = (WorkerCommand.writeValue keyref value, tag) :: queue →
        ∀ modal, s.app.modal = some modal → modal.keyref ≠ keyref := by
    intro keyref value tag queue hqueue modal hmodal hkeyref
    rw [hqueue, List.head?_cons, Option.some.injEq] at hq
    subst hq
    exact hlater (hs.own modal hmodal _ (by rw [hqueue]; exact List.mem_cons_self)
      (decide_eq_true hkeyref.symm))
  cases l with
  | writeSucceeded value lastRead =>
    obtain ⟨keyref, written, tag, queue, hqueue, rfl⟩ := answer_eq_some h
    exact modal_updateModal (hother hqueue)
  | writeFailed error =>
    obtain ⟨keyref, written, tag, queue, hqueue, rfl⟩ := answer_eq_some h
    exact modal_updateModal (hother hqueue)
  | input isOpen geometry event => cases hanswers
  | valueUpdated keyref value lastRead => cases hanswers
  | refreshed => cases hanswers

theorem settled_of_patient {s t : Desk} {l : Happening} (hs : s.Accounts) (hpatient : s.Patient l)
    (h : s.step l = some t) : s.Settled l t where
  accounts := (accounts_step hs h).mpr hpatient
  once isOpen geometry event hl modal hmodal hsubmitting := by
    subst hl
    exact command_of_patient hpatient hmodal hsubmitting
  later hanswers q hq := modal_answered hs h hanswers hq

end Desk

/-- A modal accounts for its own write all along a run if and only if every step of
the run is patient. -/
theorem modal_accounts (app : App) (nodeId : Str) (rows : List KeyRow)
    (queue : List WorkerCommand) (labels : List Happening) (s : Desk) :
    (Desk.initial app nodeId rows queue).Accounts ∧
        Path Desk.step Desk.Settles (Desk.initial app nodeId rows queue) labels s ↔
      Path Desk.step Desk.Patient (Desk.initial app nodeId rows queue) labels s := by
  constructor
  · rintro ⟨hinitial, hpath⟩
    refine (hpath.strengthen Desk.Accounts hinitial fun u l v hu hsettles hstep => ?_).1
    have hv := (hsettles v hstep).accounts
    exact ⟨(Desk.accounts_step hu hstep).mp hv, hv⟩
  · intro hpath
    have hinitial : (Desk.initial app nodeId rows queue).Accounts := .of_none rfl
    refine ⟨hinitial, (hpath.strengthen Desk.Accounts hinitial fun u l v hu hpatient hstep => ?_).1⟩
    have hv := (Desk.accounts_step hu hstep).mpr hpatient
    refine ⟨fun w hw => ?_, hv⟩
    exact Desk.settled_of_patient hu hpatient hw

def openRow : Happening := .input true ⟨some tableGeometry, none⟩ (.mouse ⟨true, 10, 5⟩)

def clickTrue : Happening :=
  .input true ⟨some tableGeometry, some modalGeometry⟩ (.mouse ⟨true, 10, 10⟩)

def pressEsc : Happening :=
  .input true ⟨some tableGeometry, some modalGeometry⟩ (.key ⟨true, false, .esc⟩)

def writableDesk : Desk := .initial .new Str.empty [initialRow (writableKey Str.empty)] []

def Desk.waits (s : Desk) : Option (UInt16 × Bool × ℕ) :=
  s.app.modal.map fun modal => (modal.keyref, modal.submitting, s.outstanding modal.keyref)

theorem waits_of_accounts {s : Desk} (hs : s.Accounts) {keyref : UInt16} {submitting : Bool} {n : ℕ}
    (h : s.waits = some (keyref, submitting, n)) : n = if submitting then 1 else 0 := by
  obtain ⟨modal, hmodal, hwaits⟩ := Option.map_eq_some_iff.mp h
  cases hwaits
  exact hs.outstanding_eq modal hmodal

/-- A second click sends a second write, and the answer to a write closes a modal
that was opened after it. -/
theorem modal_waits_for_another :
    (∃ s, Path Desk.step (fun _ _ => True) writableDesk [openRow, clickTrue, clickTrue] s ∧
      s.waits = some (0, true, 2) ∧ ¬s.Accounts) ∧
    ∃ s t, Path Desk.step (fun _ _ => True) writableDesk [openRow, clickTrue, pressEsc, openRow] s ∧
      s.waits = some (0, false, 1) ∧ ¬s.Accounts ∧
        s.step (.writeSucceeded .loading 0) = some t ∧ t.app.modal = none := by
  have htwice : (runLabels Desk.step writableDesk [openRow, clickTrue, clickTrue]).map Desk.waits =
      some (some (0, true, 2)) := by decide +kernel
  have hlater : (runLabels Desk.step writableDesk [openRow, clickTrue, pressEsc, openRow]).map
      (fun s => (s.waits, (s.step (.writeSucceeded .loading 0)).map fun t => t.waits)) =
        some (some (0, false, 1), some none) := by decide +kernel
  obtain ⟨s, hs, hwaits⟩ := Option.map_eq_some_iff.mp htwice
  obtain ⟨t, ht, hstep⟩ := Option.map_eq_some_iff.mp hlater
  rw [Prod.mk.injEq, Option.map_eq_some_iff] at hstep
  obtain ⟨hopen, u, hu, hclosed⟩ := hstep
  refine ⟨⟨s, .of_runLabels hs, hwaits, fun haccounts => ?_⟩, t, u, .of_runLabels ht, hopen,
    fun haccounts => ?_, hu, Option.map_eq_none_iff.mp hclosed⟩
  · exact absurd (waits_of_accounts haccounts hwaits) (by decide)
  · exact absurd (waits_of_accounts haccounts hopen) (by decide)

end Qup.Tui
