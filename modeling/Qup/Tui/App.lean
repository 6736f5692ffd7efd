import Qup.Tui.Events
import Mathlib.Data.Option.Basic

/-!
# The interface of the monitor

`App` and the event handlers of `qup-test-tui/src/app.rs`, with the part of
`ui.rs` that they use. Where the rectangles are is up to the layout and arbitrary.
A string being edited is the list of its characters; the number being edited holds
only signs and digits and is its bytes.
-/

namespace Qup.Tui
open Foundation.Utf8 Client

structure Rect where
  x : UInt16
  y : UInt16
  width : UInt16
  height : UInt16

def satAdd (a b : UInt16) : UInt16 := UInt16.ofNat (min (a.toNat + b.toNat) 0xffff)

def containsPoint (rect : Rect) (column row : UInt16) : Bool :=
  rect.x ≤ column && column < satAdd rect.x rect.width &&
    rect.y ≤ row && row < satAdd rect.y rect.height

structure TableGeometry where
  body : Rect
  visibleRows : ℕ

def TableGeometry.rowAt (g : TableGeometry) (column row : UInt16) (totalRows : ℕ) : Option ℕ :=
  if !containsPoint g.body column row then none
  else
    let rowIndex := row.toNat - g.body.y.toNat
    if rowIndex < min g.visibleRows totalRows then some rowIndex else none

inductive ModalClickTarget where
  | stringInput
  | stringSet
  | boolTrue
  | boolFalse
  | numberInput
  | numberSet

structure ModalGeometry where
  outer : Rect
  stringInput : Rect
  stringSetButton : Rect
  boolTrueButton : Rect
  boolFalseButton : Rect
  numberInput : Rect
  numberSetButton : Rect

def ModalGeometry.targetAt (g : ModalGeometry) (column row : UInt16) : Option ModalClickTarget :=
  if containsPoint g.stringInput column row then some .stringInput
  else if containsPoint g.stringSetButton column row then some .stringSet
  else if containsPoint g.boolTrueButton column row then some .boolTrue
  else if containsPoint g.boolFalseButton column row then some .boolFalse
  else if containsPoint g.numberInput column row then some .numberInput
  else if containsPoint g.numberSetButton column row then some .numberSet
  else none

structure UiGeometry where
  table : Option TableGeometry
  modal : Option ModalGeometry

inductive IntErrorKind where
  | empty
  | invalidDigit
  | posOverflow
  | negOverflow
  deriving DecidableEq

def isAsciiDigit (b : UInt8) : Bool := 0x30 ≤ b && b ≤ 0x39

def parseDigits (negative : Bool) : ℤ → List UInt8 → Except IntErrorKind Int64
  | result, [] => .ok (Int64.ofInt result)
  | result, b :: bs =>
    if !isAsciiDigit b then .error .invalidDigit
    else
      let digit : ℤ := (b - 0x30).toNat
      let result := if negative then result * 10 - digit else result * 10 + digit
      if result < Int64.minValue.toInt then .error .negOverflow
      else if Int64.maxValue.toInt < result then .error .posOverflow
      else parseDigits negative result bs

def parseI64 : List UInt8 → Except IntErrorKind Int64
  | [] => .error .empty
  | [0x2b] | [0x2d] => .error .invalidDigit
  | 0x2b :: bs => parseDigits false 0 bs
  | 0x2d :: bs => parseDigits true 0 bs
  | bs => parseDigits false 0 bs

def decimal (value : Int64) : List UInt8 :=
  (toString value.toInt).toList.map fun c => UInt8.ofNat c.toNat

/-- The number that a text of the value column is, as its characters. `format_value`
escapes strings, and leaves signs and digits as they are. -/
def Display.number : Display → Option (List UInt8)
  | .formatted (.i64 value) => some (decimal value)
  | .formatted (.str value) => (parseI64 value.bytes).toOption.map fun _ => value.bytes
  | _ => none

inductive ModalFocus where
  | stringInput
  | numberInput
  deriving DecidableEq

def ModalFocus.toggle : ModalFocus → ModalFocus
  | .stringInput => .numberInput
  | .numberInput => .stringInput

inductive ModalError where
  | connectionManagerStopped
  | invalidNumber (error : IntErrorKind)
  | writeFailed (error : Failure)

structure EditModal where
  keyref : UInt16
  keyName : Str
  currentValue : Display
  stringInput : List Str
  numberInput : List UInt8
  focus : ModalFocus
  error : Option ModalError
  submitting : Bool

def joinStr : List Str → Str
  | [] => Str.empty
  | s :: ss => ⟨s.bytes ++ (joinStr ss).bytes, s.valid.append (joinStr ss).valid⟩

namespace EditModal

def fromRow (row : KeyRow) : EditModal where
  keyref := row.info.keyref
  keyName := row.info.name
  currentValue := row.value
  stringInput := []
  numberInput := row.value.number.getD []
  focus := .stringInput
  error := none
  submitting := false

def markSubmitting (modal : EditModal) : EditModal :=
  { modal with error := none, submitting := true }

def setError (modal : EditModal) (error : ModalError) : EditModal :=
  { modal with error := some error, submitting := false }

end EditModal

inductive AppStatus where
  | connecting
  | connected
  | disconnected (error : Failure)

structure App where
  status : AppStatus
  nodeId : Option Str
  keys : List KeyRow
  modal : Option EditModal

namespace App

def new : App := ⟨.connecting, none, [], none⟩

def setRow (keyref : UInt16) (value : Display) (lastRead : Option ℕ) : List KeyRow → List KeyRow
  | [] => []
  | row :: rows =>
    if row.info.keyref = keyref then { row with value, lastRead } :: rows
    else row :: setRow keyref value lastRead rows

def updateKeyValue (app : App) (keyref : UInt16) (value : Display) (lastRead : Option ℕ) : App :=
  { app with keys := setRow keyref value lastRead app.keys }

def updateModal (app : App) (keyref : UInt16) (f : EditModal → Option EditModal) : App :=
  { app with modal := app.modal.bind fun modal =>
      if modal.keyref = keyref then f modal else some modal }

def apply (app : App) : NetworkEvent → App
  | .connecting => { app with status := .connecting, nodeId := none, modal := none }
  | .connected nodeId keys => ⟨.connected, some nodeId, keys, none⟩
  | .disconnected error =>
    { app with status := .disconnected error, nodeId := none, modal := none }
  | .valueUpdated keyref value lastRead =>
    (app.updateKeyValue keyref value lastRead).updateModal keyref fun modal =>
      some { modal with currentValue := value }
  | .writeSucceeded keyref value lastRead =>
    (app.updateKeyValue keyref value (some lastRead)).updateModal keyref fun _ => none
  | .writeFailed keyref error =>
    app.updateModal keyref fun modal => some (modal.setError (.writeFailed error))

def openModalForKey (app : App) (keyref : UInt16) : App :=
  match app.keys.find? fun row => row.info.keyref = keyref && row.info.keyflags.isWritable with
  | none => app
  | some row => { app with modal := some (.fromRow row) }

end App

inductive KeyCode where
  | char (character : Str)
  | esc
  | tab
  | backTab
  | backspace
  | enter
  | other
  deriving DecidableEq

structure KeyEvent where
  isPress : Bool
  control : Bool
  code : KeyCode

structure MouseEvent where
  isLeftDown : Bool
  column : UInt16
  row : UInt16

inductive Event where
  | key (key : KeyEvent)
  | mouse (mouse : MouseEvent)
  | resize
  | other

structure InputOutcome where
  needsRedraw : Bool
  quit : Bool

structure Handled where
  app : App
  outcome : InputOutcome
  command : Option WorkerCommand

def ignored (app : App) : Handled := ⟨app, ⟨false, false⟩, none⟩

def redrawn (app : App) (command : Option WorkerCommand) : Handled := ⟨app, ⟨true, false⟩, command⟩

section
variable (isOpen : Bool) (app : App)

def modifyModal (f : EditModal → EditModal × Option WorkerCommand) : App × Option WorkerCommand :=
  match app.modal with
  | none => (app, none)
  | some modal => ({ app with modal := some (f modal).1 }, (f modal).2)

/-- `isOpen`: the worker has not dropped its end of the channel. -/
def queueWriteCommand (modal : EditModal) (command : WorkerCommand) :
    EditModal × Option WorkerCommand :=
  if isOpen then (modal.markSubmitting, some command)
  else (modal.markSubmitting.setError .connectionManagerStopped, none)

def submitStringModal : App × Option WorkerCommand :=
  modifyModal app fun modal =>
    queueWriteCommand isOpen modal (.writeValue modal.keyref (.str (joinStr modal.stringInput)))

def submitBoolModal (value : Bool) : App × Option WorkerCommand :=
  modifyModal app fun modal =>
    queueWriteCommand isOpen modal (.writeValue modal.keyref (.bool value))

def submitNumberModal : App × Option WorkerCommand :=
  modifyModal app fun modal =>
    match parseI64 modal.numberInput with
    | .ok value => queueWriteCommand isOpen modal (.writeValue modal.keyref (.i64 value))
    | .error error => (modal.setError (.invalidNumber error), none)

def submitFocusedModalValue : App × Option WorkerCommand :=
  match app.modal.map EditModal.focus with
  | some .stringInput => submitStringModal isOpen app
  | some .numberInput => submitNumberModal isOpen app
  | none => (app, none)

def pushCharacter (modal : EditModal) (character : Str) : EditModal :=
  match modal.focus, character.bytes with
  | .stringInput, _ => { modal with stringInput := modal.stringInput ++ [character] }
  | .numberInput, [b] =>
    if isAsciiDigit b || (b = 0x2d && modal.numberInput.isEmpty) then
      { modal with numberInput := modal.numberInput ++ [b] }
    else modal
  | .numberInput, _ => modal

def popCharacter (modal : EditModal) : EditModal :=
  match modal.focus with
  | .stringInput => { modal with stringInput := modal.stringInput.dropLast }
  | .numberInput => { modal with numberInput := modal.numberInput.dropLast }

def handleModalKeyEvent (modal : EditModal) (key : KeyEvent) : Handled :=
  if modal.submitting then
    if key.code = .esc then redrawn { app with modal := none } none else ignored app
  else
    match key.code with
    | .esc => redrawn { app with modal := none } none
    | .tab | .backTab =>
      redrawn { app with modal := some { modal with focus := modal.focus.toggle } } none
    | .backspace => redrawn { app with modal := some (popCharacter modal) } none
    | .enter =>
      let submitted := submitFocusedModalValue isOpen app
      redrawn submitted.1 submitted.2
    | .char character =>
      if key.control then ignored app
      else redrawn { app with modal := some (pushCharacter modal character) } none
    | .other => ignored app

def KeyCode.isChar (code : KeyCode) (b : UInt8) : Bool :=
  match code with
  | .char character => character.bytes = [b]
  | _ => false

def handleKeyEvent (key : KeyEvent) : Handled :=
  if !key.isPress then ignored app
  -- Ctrl-C
  else if key.control && key.code.isChar 0x63 then ⟨app, ⟨false, true⟩, none⟩
  else
    match app.modal with
    | some modal => handleModalKeyEvent isOpen app modal key
    | none =>
      -- `q`, `r` and `R`
      if key.code.isChar 0x71 then ⟨app, ⟨false, true⟩, none⟩
      else if key.code.isChar 0x72 || key.code.isChar 0x52 then
        redrawn app (if isOpen then some .refreshAllReadable else none)
      else ignored app

def clickModal : ModalClickTarget → App × Option WorkerCommand
  | .stringInput => modifyModal app fun modal => ({ modal with focus := .stringInput }, none)
  | .stringSet => submitStringModal isOpen app
  | .boolTrue => submitBoolModal isOpen app true
  | .boolFalse => submitBoolModal isOpen app false
  | .numberInput => modifyModal app fun modal => ({ modal with focus := .numberInput }, none)
  | .numberSet => submitNumberModal isOpen app

def clickTable (geometry : TableGeometry) (mouse : MouseEvent) : Handled :=
  match geometry.rowAt mouse.column mouse.row app.keys.length with
  | none => ignored app
  | some rowIndex =>
    match app.keys[rowIndex]? with
    | none => ignored app
    | some row =>
      if !row.info.keyflags.isWritable then ignored app
      else redrawn (app.openModalForKey row.info.keyref) none

def handleMouseEvent (geometry : UiGeometry) (mouse : MouseEvent) : Handled :=
  if !mouse.isLeftDown then ignored app
  else
    match geometry.modal, geometry.table with
    | some modalGeometry, _ =>
      match modalGeometry.targetAt mouse.column mouse.row with
      | some target =>
        let clicked := clickModal isOpen app target
        redrawn clicked.1 clicked.2
      | none =>
        if !containsPoint modalGeometry.outer mouse.column mouse.row then
          redrawn { app with modal := none } none
        else ignored app
    | none, some tableGeometry => clickTable app tableGeometry mouse
    | none, none => ignored app

def handleEvent (geometry : UiGeometry) : Event → Handled
  | .key key => handleKeyEvent isOpen app key
  | .mouse mouse => handleMouseEvent isOpen app geometry mouse
  | .resize => redrawn app none
  | .other => ignored app

end

/-- The table stays as it is, an open modal stays with its key, a new one is for a
writable key of the table, and only an open modal writes. -/
structure Handles (app : App) (handled : Handled) : Prop where
  keys : handled.app.keys = app.keys
  modal : ∀ modal, handled.app.modal = some modal →
    (∃ old, app.modal = some old ∧ old.keyref = modal.keyref) ∨
      app.modal = none ∧ ∃ row ∈ app.keys, row.info.keyref = modal.keyref ∧
        row.info.keyflags.isWritable = true
  command : ∀ keyref value, handled.command = some (.writeValue keyref value) →
    ∃ modal, app.modal = some modal ∧ modal.keyref = keyref

section
variable {isOpen : Bool} {app : App}

theorem handles_same {outcome : InputOutcome} {command : Option WorkerCommand}
    (h : ∀ keyref value, command ≠ some (.writeValue keyref value)) :
    Handles app ⟨app, outcome, command⟩ where
  keys := rfl
  modal modal hmodal := .inl ⟨modal, hmodal, rfl⟩
  command keyref value hwrite := absurd hwrite (h keyref value)

theorem handles_ignored : Handles app (ignored app) := handles_same nofun

theorem handles_ite {c : Prop} [Decidable c] {p q : Handled} (hp : Handles app p)
    (hq : Handles app q) : Handles app (if c then p else q) := by
  split_ifs
  · exact hp
  · exact hq

theorem handles_closed : Handles app (redrawn { app with modal := none } none) where
  keys := rfl
  modal _ h := by cases h
  command _ _ h := by cases h

theorem handles_changed {old modal : EditModal} {command : Option WorkerCommand}
    (hold : app.modal = some old) (hkeyref : old.keyref = modal.keyref)
    (hcommand : ∀ keyref value, command = some (.writeValue keyref value) → old.keyref = keyref) :
    Handles app (redrawn { app with modal := some modal } command) where
  keys := rfl
  modal other h := by
    cases h
    exact .inl ⟨old, hold, hkeyref⟩
  command keyref value h := ⟨old, hold, hcommand keyref value h⟩

theorem handles_modifyModal {f : EditModal → EditModal × Option WorkerCommand}
    (hkeyref : ∀ modal, (f modal).1.keyref = modal.keyref)
    (hcommand : ∀ modal keyref value, (f modal).2 = some (.writeValue keyref value) →
      modal.keyref = keyref) :
    Handles app (redrawn (modifyModal app f).1 (modifyModal app f).2) := by
  cases hmodal : app.modal with
  | none =>
    simp only [modifyModal, hmodal]
    exact handles_same nofun
  | some modal =>
    simp only [modifyModal, hmodal]
    exact handles_changed hmodal (hkeyref modal).symm (hcommand modal)

theorem keyref_queueWriteCommand (modal : EditModal) (command : WorkerCommand) :
    (queueWriteCommand isOpen modal command).1.keyref = modal.keyref := by
  cases isOpen <;> rfl

theorem command_queueWriteCommand {modal : EditModal} {command other : WorkerCommand}
    (h : (queueWriteCommand isOpen modal command).2 = some other) : command = other := by
  cases isOpen with
  | true => exact Option.some.inj h
  | false => cases h

theorem handles_submitStringModal :
    Handles app (redrawn (submitStringModal isOpen app).1 (submitStringModal isOpen app).2) :=
  handles_modifyModal (fun _ => keyref_queueWriteCommand _ _) fun _ _ _ h => by
    cases command_queueWriteCommand h
    rfl

theorem handles_submitBoolModal (value : Bool) : Handles app
    (redrawn (submitBoolModal isOpen app value).1 (submitBoolModal isOpen app value).2) :=
  handles_modifyModal (fun _ => keyref_queueWriteCommand _ _) fun _ _ _ h => by
    cases command_queueWriteCommand h
    rfl

theorem handles_submitNumberModal :
    Handles app (redrawn (submitNumberModal isOpen app).1 (submitNumberModal isOpen app).2) := by
  refine handles_modifyModal (fun modal => ?_) fun modal keyref value h => ?_
  · cases parseI64 modal.numberInput with
    | ok number => exact keyref_queueWriteCommand _ _
    | error error => rfl
  · cases hnumber : parseI64 modal.numberInput with
    | ok number =>
      simp only [hnumber] at h
      cases command_queueWriteCommand h
      rfl
    | error error =>
      simp only [hnumber] at h
      cases h

theorem handles_submitFocusedModalValue : Handles app
    (redrawn (submitFocusedModalValue isOpen app).1 (submitFocusedModalValue isOpen app).2) := by
  unfold submitFocusedModalValue
  cases app.modal.map EditModal.focus with
  | none => exact handles_same nofun
  | some focus =>
    cases focus with
    | stringInput => exact handles_submitStringModal
    | numberInput => exact handles_submitNumberModal

theorem keyref_pushCharacter (modal : EditModal) (character : Str) :
    (pushCharacter modal character).keyref = modal.keyref := by
  unfold pushCharacter
  split
  · rfl
  · split_ifs <;> rfl
  · rfl

theorem keyref_popCharacter (modal : EditModal) :
    (popCharacter modal).keyref = modal.keyref := by
  unfold popCharacter
  cases modal.focus <;> rfl

theorem handles_handleModalKeyEvent {modal : EditModal} (hmodal : app.modal = some modal)
    (key : KeyEvent) : Handles app (handleModalKeyEvent isOpen app modal key) := by
  unfold handleModalKeyEvent
  refine handles_ite (handles_ite handles_closed handles_ignored) ?_
  cases key.code with
  | esc => exact handles_closed
  | tab => exact handles_changed hmodal rfl nofun
  | backTab => exact handles_changed hmodal rfl nofun
  | backspace => exact handles_changed hmodal (keyref_popCharacter modal).symm nofun
  | enter => exact handles_submitFocusedModalValue
  | char character =>
    exact handles_ite handles_ignored
      (handles_changed hmodal (keyref_pushCharacter modal character).symm nofun)
  | other => exact handles_ignored

theorem handles_handleKeyEvent (key : KeyEvent) :
    Handles app (handleKeyEvent isOpen app key) := by
  unfold handleKeyEvent
  refine handles_ite handles_ignored (handles_ite (handles_same nofun) ?_)
  cases hmodal : app.modal with
  | some modal => exact handles_handleModalKeyEvent hmodal key
  | none =>
    refine handles_ite (handles_same nofun) (handles_ite (handles_same ?_) handles_ignored)
    cases isOpen <;> exact nofun

theorem handles_clickModal (target : ModalClickTarget) :
    Handles app (redrawn (clickModal isOpen app target).1 (clickModal isOpen app target).2) := by
  cases target with
  | stringInput => exact handles_modifyModal (fun _ => rfl) fun _ _ _ h => by cases h
  | stringSet => exact handles_submitStringModal
  | boolTrue => exact handles_submitBoolModal true
  | boolFalse => exact handles_submitBoolModal false
  | numberInput => exact handles_modifyModal (fun _ => rfl) fun _ _ _ h => by cases h
  | numberSet => exact handles_submitNumberModal

theorem handles_openModalForKey (hmodal : app.modal = none) (keyref : UInt16) :
    Handles app (redrawn (app.openModalForKey keyref) none) := by
  unfold App.openModalForKey
  cases hrow : app.keys.find? fun row => row.info.keyref = keyref && row.info.keyflags.isWritable with
  | none => exact handles_same nofun
  | some row =>
    refine ⟨rfl, fun modal h => .inr ⟨hmodal, row, List.mem_of_find?_eq_some hrow, ?_⟩, nofun⟩
    cases h
    have hwritable := List.find?_some hrow
    rw [Bool.and_eq_true] at hwritable
    exact ⟨rfl, hwritable.2⟩

theorem handles_clickTable (hmodal : app.modal = none) (geometry : TableGeometry)
    (mouse : MouseEvent) : Handles app (clickTable app geometry mouse) := by
  unfold clickTable
  cases geometry.rowAt mouse.column mouse.row app.keys.length with
  | none => exact handles_ignored
  | some rowIndex =>
    dsimp only
    cases app.keys[rowIndex]? with
    | none => exact handles_ignored
    | some row => exact handles_ite handles_ignored (handles_openModalForKey hmodal _)

theorem handles_handleEvent {geometry : UiGeometry}
    (hgeometry : geometry.modal.isSome = app.modal.isSome) (event : Event) :
    Handles app (handleEvent isOpen app geometry event) := by
  cases event with
  | key key => exact handles_handleKeyEvent key
  | resize => exact handles_same nofun
  | other => exact handles_ignored
  | mouse mouse =>
    refine handles_ite handles_ignored ?_
    cases hdrawn : geometry.modal with
    | some modalGeometry =>
      dsimp only
      cases modalGeometry.targetAt mouse.column mouse.row with
      | some target => exact handles_clickModal target
      | none => exact handles_ite handles_closed handles_ignored
    | none =>
      have hmodal : app.modal = none := by
        rw [hdrawn] at hgeometry
        simpa using hgeometry.symm
      cases geometry.table with
      | some tableGeometry => exact handles_clickTable hmodal tableGeometry mouse
      | none => exact handles_ignored

end

theorem map_info_setRow (keyref : UInt16) (value : Display) (lastRead : Option ℕ)
    (rows : List KeyRow) :
    (App.setRow keyref value lastRead rows).map KeyRow.info = rows.map KeyRow.info := by
  induction rows with
  | nil => rfl
  | cons row rows ih =>
    unfold App.setRow
    split_ifs
    · rfl
    · rw [List.map_cons, List.map_cons, ih]

theorem keyref_updateModal {app : App} {keyref : UInt16} {f : EditModal → Option EditModal}
    (hf : ∀ modal next, f modal = some next → next.keyref = modal.keyref) {modal : EditModal}
    (h : (app.updateModal keyref f).modal = some modal) :
    ∃ old, app.modal = some old ∧ old.keyref = modal.keyref := by
  obtain ⟨old, hold, hmodal⟩ := Option.bind_eq_some_iff.mp h
  refine ⟨old, hold, ?_⟩
  split_ifs at hmodal
  · exact (hf old modal hmodal).symm
  · cases hmodal
    rfl

/-- Only a new table changes the keys, and an open modal stays with its key. -/
theorem apply_kept (app : App) {event : NetworkEvent}
    (hevent : ∀ nodeId rows, event ≠ .connected nodeId rows) :
    (app.apply event).keys.map KeyRow.info = app.keys.map KeyRow.info ∧
      ∀ modal, (app.apply event).modal = some modal →
        ∃ old, app.modal = some old ∧ old.keyref = modal.keyref := by
  cases event with
  | connected nodeId rows => exact absurd rfl (hevent nodeId rows)
  | connecting => exact ⟨rfl, nofun⟩
  | disconnected error => exact ⟨rfl, nofun⟩
  | valueUpdated keyref value lastRead =>
    refine ⟨map_info_setRow _ _ _ _, fun modal h => keyref_updateModal ?_ h⟩
    intro modal next hnext
    cases hnext
    rfl
  | writeSucceeded keyref value lastRead =>
    refine ⟨map_info_setRow _ _ _ _, fun modal h => keyref_updateModal ?_ h⟩
    intro modal next hnext
    cases hnext
  | writeFailed keyref error =>
    refine ⟨rfl, fun modal h => keyref_updateModal ?_ h⟩
    intro modal next hnext
    cases hnext
    rfl

end Qup.Tui
