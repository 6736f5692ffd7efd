import Qup.EndToEnd.Monitored
import Qup.Tui.Session

/-!
# What the monitor shows

The monitor with its interface and the two channels, against a node that keeps to its
key table: the test node with its other clients, or a server. The interface may lag
behind the worker, and its user may do anything at any time, but what is shown is the
node's own table with values that the node has answered, and a write that the user
makes on it is refused for the type of its value only.
-/

namespace Qup.EndToEnd
open Foundation Foundation.Routine Foundation.Utf8 Link
open Client (Call ClientError KeyInfo Message Value)
open Embassy (Memory Server lampMemory lampServer lampServer_distinct programs typeMismatch)
open Tui (App Event Handled Handles KeyRow NetworkEvent UiGeometry Viewer WorkerCommand)
open TestNode (Label Node)

/-- The row shows a value that the node has answered to a `GET` or a `WRITE` of its key. -/
def Backed (log : List Happening) (row : KeyRow) : Prop :=
  ∃ value instant, row.value = .formatted value ∧ row.lastRead = some instant ∧
    (.answered (.get row.info.keyref) (.value value) ∈ log ∨
      .answered (.write row.info.keyref value) (.written value) ∈ log)

def Current (log : List Happening) (row : KeyRow) : Prop :=
  if row.info.keyflags.isReadable then Backed log row
  else row = Tui.initialRow row.info ∨ (row.value = .changedUnreadable ∧ row.lastRead = none) ∨
    row.info.keyflags.isWritable = true ∧ Backed log row

namespace Profile

def Writable (profile : Profile) (r : UInt16) : Prop :=
  r < profile.table.count ∧ (profile.table.flags r).isWritable = true

def Carries (profile : Profile) (command : WorkerCommand) : Prop :=
  ∀ r value, command = .writeValue r value → profile.Writable r

/-- Nothing is shown, or the whole table. -/
def Tabled (profile : Profile) (log : List Happening) (rows : List KeyRow) : Prop :=
  rows = [] ∨ rows.map KeyRow.info = profile.keys ∧ ∀ row ∈ rows, Current log row

end Profile

section
variable {profile : Profile} {r : UInt16} {log log' : List Happening} {row : KeyRow}
  {rows : List KeyRow}

theorem Backed.mono (h : Backed log row) (hlog : log ⊆ log') : Backed log' row := by
  obtain ⟨value, instant, hvalue, hread, hmem⟩ := h
  exact ⟨value, instant, hvalue, hread, hmem.imp (fun h => hlog h) fun h => hlog h⟩

theorem Current.mono (h : Current log row) (hlog : log ⊆ log') : Current log' row := by
  unfold Current at h ⊢
  split_ifs at h ⊢
  · exact h.mono hlog
  · exact h.imp id fun h => h.imp id fun h => ⟨h.1, h.2.mono hlog⟩

theorem Profile.Tabled.mono (h : profile.Tabled log rows) (hlog : log ⊆ log') :
    profile.Tabled log' rows :=
  h.imp id fun h => ⟨h.1, fun row hrow => (h.2 row hrow).mono hlog⟩

theorem current_of_filled (h : Filled log row) : Current log row := by
  unfold Filled at h
  unfold Current
  split_ifs at h ⊢
  · obtain ⟨value, instant, hvalue, hread, hmem⟩ := h
    exact ⟨value, instant, hvalue, hread, .inl (List.takeWhile_subset _ hmem)⟩
  · exact .inl h

theorem mem_setRow {value : Tui.Display} {lastRead : Option ℕ}
    (h : row ∈ App.setRow r value lastRead rows) :
    row ∈ rows ∨ ∃ old ∈ rows, old.info.keyref = r ∧ row = { old with value, lastRead } := by
  induction rows with
  | nil => cases h
  | cons first rows ih =>
    unfold App.setRow at h
    split_ifs at h with hr
    · rcases List.mem_cons.mp h with rfl | h
      · exact .inr ⟨first, List.mem_cons_self, hr, rfl⟩
      · exact .inl (List.mem_cons_of_mem _ h)
    · rcases List.mem_cons.mp h with rfl | h
      · exact .inl List.mem_cons_self
      · rcases ih h with h | ⟨old, hold, hkeyref, hrow⟩
        · exact .inl (List.mem_cons_of_mem _ h)
        · exact .inr ⟨old, List.mem_cons_of_mem _ hold, hkeyref, hrow⟩

theorem Profile.Tabled.setRow (h : profile.Tabled log rows) {value : Tui.Display} {lastRead : Option ℕ}
    (hvalue : ∀ old : KeyRow, old.info.keyref = r → old.info.keyflags = profile.table.flags r →
      Current log { old with value, lastRead }) :
    profile.Tabled log (App.setRow r value lastRead rows) := by
  rcases h with rfl | ⟨hkeys, hrows⟩
  · exact .inl rfl
  · refine .inr ⟨(Tui.map_info_setRow _ _ _ _).trans hkeys, fun row hrow => ?_⟩
    rcases mem_setRow hrow with hrow | ⟨old, hold, rfl, rfl⟩
    · exact hrows row hrow
    · have hkey : old.info ∈ profile.keys := hkeys ▸ List.mem_map_of_mem hold
      exact hvalue old rfl (mem_keys hkey).2

theorem current_of_shows {key : KeyInfo} {value : Tui.Display} {instant : Option ℕ}
    (h : Shows log key value instant) {old : KeyRow} (hkeyref : old.info.keyref = key.keyref)
    (hflags : old.info.keyflags = key.keyflags) :
    Current log { old with value, lastRead := instant } := by
  unfold Shows at h
  unfold Current
  simp only [hflags]
  split_ifs at h ⊢
  · obtain ⟨v, t, rfl, rfl, hanswered⟩ := h
    refine ⟨v, t, rfl, rfl, .inl ?_⟩
    rw [hkeyref]
    exact List.mem_of_head? hanswered
  · exact .inr (.inl h)

theorem writable_of_written {value : Value} (h : profile.Replies (.write r value) (.written value)) :
    profile.Writable r := by
  rw [Profile.Replies] at h
  split_ifs at h with hcount hwritable
  · exact ⟨UInt16.not_le.mp hcount, hwritable⟩

theorem allowed_of_mem (h : Justified (Happening.Allowed profile) log) {event : NetworkEvent}
    (hevent : .sent event ∈ log) : ∃ older, older ⊆ log ∧
      Justified (Happening.Allowed profile) older ∧ MaySend profile older event := by
  obtain ⟨newer, older, rfl⟩ := List.append_of_mem hevent
  have holder : older ⊆ newer ++ .sent event :: older :=
    List.subset_append_of_subset_right _ (List.subset_cons_self _ _)
  exact ⟨older, holder, h.older.2, h.allowed_at⟩

theorem Profile.Tabled.apply {app : App} (h : profile.Tabled log app.keys)
    (hjustified : Justified (Happening.Allowed profile) log) {event : NetworkEvent}
    (hsent : .sent event ∈ log) : profile.Tabled log (app.apply event).keys := by
  obtain ⟨older, holder, hbefore, hevent⟩ := allowed_of_mem hjustified hsent
  cases event with
  | connecting => exact h
  | disconnected error => exact h
  | writeFailed r error => exact h
  | connected nodeId rows =>
    obtain ⟨-, -, hkeys, hrows⟩ := hevent
    exact .inr ⟨hkeys, fun row hrow => (current_of_filled (hrows row hrow)).mono holder⟩
  | valueUpdated r value instant =>
    obtain ⟨-, key, hkey, rfl, hshows⟩ := hevent
    exact h.setRow fun old hkeyref hflags =>
      (current_of_shows hshows hkeyref (hflags.trans (mem_keys hkey).2.symm)).mono holder
  | writeSucceeded r value instant =>
    obtain ⟨-, v, oldest, -, rfl, rfl⟩ := hevent
    refine h.setRow fun old hkeyref hflags => ?_
    have hreplies : profile.Replies (.write r v) (.written v) := hbefore.1
    have hwritable : old.info.keyflags.isWritable = true :=
      hflags ▸ (writable_of_written hreplies).2
    have hbacked : Backed log { old with value := .formatted v, lastRead := some instant } :=
      ⟨v, instant, rfl, rfl, .inr (hkeyref ▸ holder List.mem_cons_self)⟩
    unfold Current
    split_ifs
    · exact hbacked
    · exact .inr (.inr ⟨hwritable, hbacked⟩)

theorem Profile.Tabled.writable (h : profile.Tabled log rows) (hrow : row ∈ rows)
    (hwritable : row.info.keyflags.isWritable = true) : profile.Writable row.info.keyref := by
  rcases h with rfl | ⟨hkeys, -⟩
  · cases hrow
  · obtain ⟨hlt, hflags⟩ := mem_keys (hkeys ▸ List.mem_map_of_mem hrow)
    exact ⟨hlt, hflags ▸ hwritable⟩

end

structure Screen (σ : Type) where
  watcher : Watcher σ
  viewer : Viewer
  app : App
  events : List NetworkEvent
  commands : List WorkerCommand

inductive ScreenAct (ℓ : Type) where
  | node (a : ℓ)
  | update
  | poll
  | timeout
  | input (isOpen : Bool) (geometry : UiGeometry) (event : Event)

section
variable {σ μ ℓ : Type} {station : Station σ μ ℓ}

namespace Screen

def start (p : σ) : Screen σ := ⟨.start p, .draining, .new, [], []⟩

def serve (station : Station σ μ ℓ) (s : Screen σ) (answer : Answer μ) :
    (o : Tui.Op) → Option (o.Res × Screen σ)
  | .emit event =>
    (s.watcher.serve station answer (.emit event)).bind fun reply =>
      if reply.1 || s.viewer = .gone then
        some (reply.1, { s with
          watcher := reply.2
          events := s.events ++ if reply.1 then [event] else [] })
      else none
  | .tryRecv =>
    (s.watcher.serve station (.command s.commands.head?) .tryRecv).map fun reply =>
      (reply.1, { s with watcher := reply.2, commands := s.commands.tail })
  | o =>
    (s.watcher.serve station answer o).map fun reply => (reply.1, { s with watcher := reply.2 })

def input (s : Screen σ) (handled : Handled) : Screen σ :=
  { s with
    app := handled.app
    viewer := if handled.outcome.quit then .gone else .draining
    commands := s.commands ++ handled.command.toList }

def move (station : Station σ μ ℓ) (s : Screen σ) : ScreenAct ℓ → Option (Screen σ)
  | .node a => (s.watcher.move station a).map fun watcher => { s with watcher }
  | .update =>
    match s.viewer, s.events with
    | .draining, event :: events => some { s with app := s.app.apply event, events }
    | _, _ => none
  | .poll =>
    if s.viewer = .draining ∧ s.events = [] then some { s with viewer := .polling } else none
  | .timeout => if s.viewer = .polling then some { s with viewer := .draining } else none
  | .input isOpen geometry event =>
    if s.viewer = .polling ∧ geometry.modal.isSome = s.app.modal.isSome then
      some (s.input (Tui.handleEvent isOpen s.app geometry event))
    else none

def world (station : Station σ μ ℓ) : World (Screen σ) Tui.Op.Res (Answer μ) (ScreenAct ℓ) :=
  ⟨serve station, move station⟩

end Screen

/-- What is on the screen and what the user has asked for there fit the key table. -/
structure Presents (profile : Profile) (I : σ → Talk → Prop) (J : σ → Prop) (s : Screen σ)
    (desk : Desk) : Prop where
  watches : Watches profile I J s.watcher desk
  events : ∀ event ∈ s.events, .sent event ∈ s.watcher.log
  shown : profile.Tabled s.watcher.log s.app.keys
  modal : ∀ modal, s.app.modal = some modal → profile.Writable modal.keyref
  commands : ∀ command ∈ s.commands, profile.Carries command
  taken : ∀ command, .took command ∈ s.watcher.log → profile.Carries command

variable {profile : Profile} {I : σ → Talk → Prop} {J : σ → Prop} {s s' : Screen σ} {desk : Desk}

def Hears (log log' : List Happening) : Prop :=
  ∃ news, log' = news ++ log ∧ ∀ h ∈ news, ∃ call m, h = .answered call m

theorem hears_refl (log : List Happening) : Hears log log := ⟨[], rfl, fun h hh => by cases hh⟩

theorem hears_answers (awaiting : Option Call) (reply : Except ClientError Message)
    (log : List Happening) : Hears log (answers awaiting reply ++ log) := by
  refine ⟨_, rfl, fun h hh => ?_⟩
  cases reply with
  | error error => cases hh
  | ok m =>
    have hanswer : h ∈ awaiting.toList.map fun call => Happening.answered call m := by
      cases m with
      | changed r => cases hh
      | _ => exact hh
    obtain ⟨call, -, rfl⟩ := List.mem_map.mp hanswer
    exact ⟨call, m, rfl⟩

theorem Watcher.network_log {w w' : Watcher σ} {o : Client.Async.Op} {reply : o.Res}
    (hserve : w.network station o = some (reply, w')) : Hears w.log w'.log := by
  obtain ⟨-, hserve⟩ := Option.ite_none_right_eq_some.mp hserve
  obtain ⟨⟨reply', port⟩, -, hpair⟩ := Option.map_eq_some_iff.mp hserve
  obtain ⟨rfl, rfl⟩ := Prod.mk.inj hpair
  cases o with
  | send call => cases reply' <;> exact hears_refl _
  | nextMessage => exact hears_answers _ _ _

theorem Watcher.serve_log {w w' : Watcher σ} {answer : Answer μ} {o : Tui.Op} {reply : o.Res}
    (hemit : ∀ event, o ≠ .emit event) (htry : o ≠ .tryRecv)
    (hserve : w.serve station answer o = some (reply, w')) : Hears w.log w'.log := by
  cases o with
  | emit event => exact absurd rfl (hemit event)
  | tryRecv => exact absurd rfl htry
  | connect =>
    cases answer with
    | connected choice =>
      obtain ⟨port, -, hpair⟩ := Option.map_eq_some_iff.mp hserve
      cases hpair
      exact hears_refl _
    | refused error =>
      cases hserve
      exact hears_refl _
    | _ => cases hserve
  | send call =>
    cases answer with
    | network => exact network_log hserve
    | broken error =>
      cases hserve
      exact hears_refl _
    | _ => cases hserve
  | nextMessage =>
    cases answer with
    | network => exact network_log hserve
    | broken error =>
      cases hserve
      exact hears_refl _
    | _ => cases hserve
  | nextMessageTimeout wait =>
    cases answer with
    | network =>
      obtain ⟨⟨message, w₁⟩, hserved, hpair⟩ := Option.map_eq_some_iff.mp hserve
      obtain ⟨-, rfl⟩ := Prod.mk.inj hpair
      exact network_log hserved
    | elapsed | broken =>
      cases hserve
      exact hears_refl _
    | _ => cases hserve
  | now | sleep =>
    cases answer <;> cases hserve
    exact hears_refl _

theorem Watcher.move_log {w w' : Watcher σ} {a : ℓ} (hmove : w.move station a = some w') :
    Hears w.log w'.log := by
  obtain ⟨port, -, rfl⟩ := Option.map_eq_some_iff.mp hmove
  exact hears_refl _

theorem Presents.quiet (h : Presents profile I J s desk) {w : Watcher σ} {next : Desk}
    (hw : Watches profile I J w next) (hlog : Hears s.watcher.log w.log) :
    Presents profile I J { s with watcher := w } next := by
  obtain ⟨news, hnews, hanswers⟩ := hlog
  have hsubset : s.watcher.log ⊆ w.log := hnews ▸ List.subset_append_right _ _
  refine ⟨hw, fun event hevent => hsubset (h.events event hevent), h.shown.mono hsubset, h.modal,
    h.commands, fun command hcommand => ?_⟩
  rcases List.mem_append.mp (hnews ▸ hcommand) with hnew | hold
  · obtain ⟨call, m, hanswer⟩ := hanswers _ hnew
    cases hanswer
  · exact h.taken command hold

theorem Presents.emit (h : Presents profile I J s desk) {event : NetworkEvent} {present : Bool}
    {next : Desk} (hw : Watches profile I J (s.watcher.emit event present) next) :
    Presents profile I J { s with
      watcher := s.watcher.emit event present
      events := s.events ++ if present then [event] else [] } next := by
  have htaken : ∀ command, .took command ∈ (s.watcher.emit event present).log →
      profile.Carries command := by
    intro command hcommand
    cases present with
    | true => exact h.taken command ((List.mem_cons.mp hcommand).resolve_left Happening.noConfusion)
    | false => exact h.taken command hcommand
  have hshown : profile.Tabled (s.watcher.emit event present).log s.app.keys := by
    cases present with
    | true => exact h.shown.mono (List.subset_cons_self _ _)
    | false => exact h.shown
  refine ⟨hw, fun later hlater => ?_, hshown, h.modal, h.commands, htaken⟩
  cases present with
  | true =>
    rcases List.mem_append.mp hlater with hold | hnew
    · exact List.mem_cons_of_mem _ (h.events later hold)
    · rw [List.mem_singleton.mp hnew]
      exact List.mem_cons_self
  | false => exact h.events later (by simpa using hlater)

theorem Presents.tryRecv (h : Presents profile I J s desk) {next : Desk}
    (hw : Watches profile I J { s.watcher with
      log := (s.commands.head?.map Happening.took).toList ++ s.watcher.log } next) :
    Presents profile I J { s with
      watcher := { s.watcher with
        log := (s.commands.head?.map Happening.took).toList ++ s.watcher.log }
      commands := s.commands.tail } next := by
  refine ⟨hw, fun event hevent => List.mem_append_right _ (h.events event hevent),
    h.shown.mono (List.subset_append_right _ _), h.modal,
    fun command hcommand => h.commands command (List.mem_of_mem_tail hcommand), fun command htook => ?_⟩
  rcases List.mem_append.mp htook with hnew | hold
  · obtain ⟨taken, htaken, heq⟩ := Option.map_eq_some_iff.mp (Option.mem_toList.mp hnew)
    cases heq
    exact h.commands command (List.mem_of_head? htaken)
  · exact h.taken command hold

theorem Presents.update (h : Presents profile I J s desk) {event : NetworkEvent}
    {events : List NetworkEvent} (hevents : s.events = event :: events) :
    Presents profile I J { s with app := s.app.apply event, events } desk := by
  have hmem : .sent event ∈ s.watcher.log := h.events event (hevents ▸ List.mem_cons_self)
  refine ⟨h.watches, fun later hlater => h.events later (hevents ▸ List.mem_cons_of_mem _ hlater),
    h.shown.apply h.watches.justified hmem, fun modal hmodal => ?_, h.commands, h.taken⟩
  by_cases hconnected : ∃ nodeId rows, event = .connected nodeId rows
  · obtain ⟨nodeId, rows, rfl⟩ := hconnected
    cases hmodal
  · have hother : ∀ nodeId rows, event ≠ .connected nodeId rows :=
      fun nodeId rows heq => hconnected ⟨nodeId, rows, heq⟩
    obtain ⟨old, hold, hkeyref⟩ := (Tui.apply_kept s.app hother).2 modal hmodal
    exact hkeyref ▸ h.modal old hold

theorem Presents.input (h : Presents profile I J s desk) {handled : Handled}
    (hhandled : Handles s.app handled) : Presents profile I J (s.input handled) desk := by
  refine ⟨h.watches, h.events, ?_, fun modal hmodal => ?_, fun command hcommand => ?_, h.taken⟩
  · change profile.Tabled s.watcher.log handled.app.keys
    rw [hhandled.keys]
    exact h.shown
  · rcases hhandled.modal modal hmodal with ⟨old, hold, hkeyref⟩ | ⟨-, row, hrow, hkeyref, hwritable⟩
    · exact hkeyref ▸ h.modal old hold
    · exact hkeyref ▸ h.shown.writable hrow hwritable
  · rcases List.mem_append.mp hcommand with hold | hnew
    · exact h.commands command hold
    · intro r value hwrite
      have hcommand : handled.command = some (.writeValue r value) :=
        hwrite ▸ Option.mem_toList.mp hnew
      obtain ⟨modal, hmodal, hkeyref⟩ := hhandled.command r value hcommand
      exact hkeyref ▸ h.modal modal hmodal

theorem Presents.move (hstation : station.Keeps profile I J) (h : Presents profile I J s desk)
    {a : ScreenAct ℓ} (hmove : s.move station a = some s') : Presents profile I J s' desk := by
  cases a with
  | node a =>
    obtain ⟨watcher, hwatcher, rfl⟩ := Option.map_eq_some_iff.mp hmove
    exact h.quiet (h.watches.move hstation hwatcher) (Watcher.move_log hwatcher)
  | update =>
    simp only [Screen.move] at hmove
    split at hmove
    · rename_i hevents
      cases hmove
      exact h.update hevents
    · cases hmove
  | poll =>
    simp only [Screen.move] at hmove
    split_ifs at hmove
    cases hmove
    exact { h with }
  | timeout =>
    simp only [Screen.move] at hmove
    split_ifs at hmove
    cases hmove
    exact { h with }
  | input isOpen geometry event =>
    simp only [Screen.move] at hmove
    split_ifs at hmove with hinput
    cases hmove
    exact h.input (Tui.handles_handleEvent hinput.2 event)

theorem screen_keeps (hstation : station.Keeps profile I J) :
    (Screen.world station).Keeps (monitoring profile) profile.Tells (Presents profile I J) where
  serve := by
    intro s s' desk answer o reply h hallows hserve
    cases o with
    | emit event =>
      obtain ⟨⟨present, w⟩, hserved, hserve⟩ := Option.bind_eq_some_iff.mp hserve
      obtain ⟨hpromise, hw⟩ := (watcher_keeps hstation).serve h.watches hallows hserved
      obtain ⟨-, hpair⟩ := Option.ite_none_right_eq_some.mp hserve
      cases hpair
      cases answer with
      | viewer =>
        cases hserved
        exact ⟨hpromise, h.emit hw⟩
      | _ => cases hserved
    | tryRecv =>
      cases hserve
      have hserved :
          (Watcher.world station).serve s.watcher (.command s.commands.head?) .tryRecv = some _ := rfl
      obtain ⟨hpromise, hw⟩ := (watcher_keeps hstation).serve h.watches hallows hserved
      exact ⟨hpromise, h.tryRecv hw⟩
    | _ =>
      obtain ⟨⟨answered, w⟩, hserved, hpair⟩ := Option.map_eq_some_iff.mp hserve
      obtain ⟨hpromise, hw⟩ := (watcher_keeps hstation).serve h.watches hallows hserved
      obtain ⟨rfl, rfl⟩ := Prod.mk.inj hpair
      have hlog := Watcher.serve_log (fun _ heq => by cases heq) (fun heq => by cases heq) hserved
      exact ⟨hpromise, h.quiet hw hlog⟩
  move h hmove := h.move hstation hmove

abbrev MonitorRun (σ : Type) := Hosted (Screen σ) Tui.Op.Res Empty Unit

def monitor (station : Station σ μ ℓ) :
    MonitorRun σ → Beat (Answer μ) (ScreenAct ℓ) → Option (MonitorRun σ) :=
  Hosted.step (Screen.world station)

def monitorStart (p : σ) : MonitorRun σ := ⟨.start p, Tui.connectionManager⟩

/-- What the user sees and is told. -/
structure Faithful (profile : Profile) (s : Screen σ) : Prop where
  shown : profile.Tabled s.watcher.log s.app.keys
  modal : ∀ modal, s.app.modal = some modal → profile.Writable modal.keyref
  refused : ∀ r failure, .sent (.writeFailed r failure) ∈ s.watcher.log →
    failure = .requestFailed typeMismatch

theorem Presents.faithful (h : Presents profile I J s desk) : Faithful profile s := by
  refine ⟨h.shown, h.modal, fun r failure hfailed => ?_⟩
  obtain ⟨log, hlog, hjustified, -, v, code, older, hwriting, rfl, rfl⟩ :=
    allowed_of_mem h.watches.justified hfailed
  have hreplies : profile.Replies (.write r v) (.error code) := hjustified.1
  have htook : .took (.writeValue r v) ∈ s.watcher.log :=
    hlog (List.mem_cons_of_mem _ (List.mem_of_head? hwriting))
  obtain ⟨hlt, hwritable⟩ := h.taken _ htook r v rfl
  rw [Profile.Replies, if_neg (UInt16.not_le.mpr hlt), if_pos hwritable] at hreplies
  rcases hreplies with heq | heq
  · cases heq
  · rw [Client.Message.error.inj heq]

theorem presents_start {p : σ} (h : J p) : Presents profile I J (.start p) ⟨.idle [], []⟩ := by
  refine ⟨watches_start h, fun event hevent => ?_, .inl rfl, fun modal hmodal => ?_,
    fun command hcommand => ?_, fun command htook => ?_⟩
  · cases hevent
  · cases hmodal
  · cases hcommand
  · cases htook

theorem presented (hstation : station.Keeps profile I J) {p : σ} (hp : J p)
    {beats : List (Beat (Answer μ) (ScreenAct ℓ))} {h : MonitorRun σ}
    (hrun : Path (monitor station) (fun _ _ => True) (monitorStart p) beats h) :
    ∃ desk, Presents profile I J h.world desk := by
  have hstart : (monitorStart p).Follows (monitoring profile) profile.Tells (Presents profile I J)
      fun _ _ => True := ⟨⟨.idle [], []⟩, presents_start hp, connectionManager_follows rfl⟩
  obtain ⟨desk, hpresents, -⟩ := hstart.path (screen_keeps hstation) hrun
  exact ⟨desk, hpresents⟩

end

/-- Over all connections, whatever the user, the other clients and the node's tasks do: what the
monitor shows is nothing or the node's own table, only its writable keys can be edited, and a write
is only refused for the type of its value. -/
theorem monitor_faithful {seed : UInt64} {ls : List Label} {s : Node}
    (hbefore : Path Node.step (fun _ _ => True) (Node.initial seed) ls s)
    {beats : List (Beat (Answer Unit) (ScreenAct NodeAct))} {h : MonitorRun NodePort}
    (hrun : Path (monitor nodeStation) (fun _ _ => True) (monitorStart (.start s)) beats h) :
    Faithful testNode h.world := by
  obtain ⟨desk, hpresents⟩ := presented (nodeStation_keeps seed) ⟨ls, hbefore⟩ hrun
  exact hpresents.faithful

def behindScreen {μ ℓ : Type} : Beat (Answer μ) ℓ → Beat (Answer μ) (ScreenAct ℓ)
  | .request answer => .request answer
  | .unroll => .unroll
  | .move a => .move (.node a)

def tableDrawn : UiGeometry := ⟨some ⟨⟨0, 0, 80, 14⟩, 14⟩, none⟩
def modalDrawn : UiGeometry :=
  ⟨none, some ⟨⟨0, 0, 80, 24⟩, ⟨0, 0, 0, 0⟩, ⟨0, 0, 0, 0⟩, ⟨4, 8, 8, 1⟩, ⟨0, 0, 0, 0⟩, ⟨0, 0, 0, 0⟩,
    ⟨0, 0, 0, 0⟩⟩⟩

def clicking {ℓ : Type} (row : UInt16) (event : Event) : List (ScreenAct ℓ) :=
  [.update, .update, .poll, .input true tableDrawn (.mouse ⟨true, 0, row⟩), .poll,
    .input true modalDrawn event]

def refusing : List (Beat (Answer Unit) NodeAct) :=
  [.request (.clock 0), .unroll, .unroll, .unroll, .request (.command none)] ++ asked 1 1 ++
    [.request (.viewer true)]

def screenRun : List (Beat (Answer Unit) (ScreenAct NodeAct)) :=
  watching.map behindScreen ++ (clicking 3 (.key ⟨true, false, .enter⟩)).map .move ++
    refusing.map behindScreen

theorem monitor_faithful_mismatch : ∃ h : MonitorRun NodePort,
    Path (monitor nodeStation) (fun _ _ => True) (monitorStart (.start (Node.initial 0))) screenRun h ∧
      h.world.watcher.log.take 3 =
        [.sent (.writeFailed TestNode.keyGp2U64 (.requestFailed typeMismatch)),
          .answered (.write TestNode.keyGp2U64 (.str Str.empty)) (.error typeMismatch),
          .took (.writeValue TestNode.keyGp2U64 (.str Str.empty))] ∧ Faithful testNode h.world := by
  have hrun : (runLabels (monitor nodeStation) (monitorStart (.start (Node.initial 0))) screenRun).map
      (fun h => h.world.watcher.log.take 3) = some
        [.sent (.writeFailed TestNode.keyGp2U64 (.requestFailed typeMismatch)),
          .answered (.write TestNode.keyGp2U64 (.str Str.empty)) (.error typeMismatch),
          .took (.writeValue TestNode.keyGp2U64 (.str Str.empty))] := by
    decide +kernel
  obtain ⟨h, hh, hlog⟩ := Option.map_eq_some_iff.mp hrun
  have hpath := Path.of_runLabels hh
  exact ⟨h, hpath, hlog, monitor_faithful (.nil _) hpath⟩

/-- The same of any server, on connections that find any values of its keys: whatever its tasks and
the user do, the worker only tells what is so, and the monitor shows what it tells. -/
theorem monitor_server {N : ℕ} {server : Server N} (hdistinct : server.Distinct) {nodeId : Str}
    {k : Pair server} {beats : List (Beat (Answer (Memory server.keys)) (ScreenAct (Act server.keys)))}
    {h : MonitorRun (Pair server)}
    (hrun : Path (monitor (serverStation server nodeId)) (fun _ _ => True) (monitorStart k) beats h) :
    Justified (Happening.Allowed (Server.profile server nodeId)) h.world.watcher.log ∧
      Faithful (Server.profile server nodeId) h.world := by
  obtain ⟨desk, hpresents⟩ := presented (serverStation_keeps server nodeId hdistinct) trivial hrun
  exact ⟨hpresents.watches.justified, hpresents.faithful⟩

def lampServes (labels : List (Embassy.Label lampServer.keys)) (reads acts : ℕ) :
    List (Embassy.Label lampServer.keys) :=
  labels ++ List.replicate reads .read ++ .serve :: List.replicate acts (.act true)

def lampHeard (labels : List (Embassy.Label lampServer.keys)) :
    List (Beat (Answer (Memory lampServer.keys)) (Act lampServer.keys)) :=
  .move .deliver :: labels.map (.move ∘ .node) ++ [.request .network]

def lampFetching (labels : List (Embassy.Label lampServer.keys)) (reads acts : ℕ) :
    List (Beat (Answer (Memory lampServer.keys)) (Act lampServer.keys)) :=
  [.request .network, .unroll] ++ lampHeard (lampServes labels reads acts)

def lampAsked (labels : List (Embassy.Label lampServer.keys)) (reads acts : ℕ) :
    List (Beat (Answer (Memory lampServer.keys)) (Act lampServer.keys)) :=
  [.request .network, .request (.clock 0), .unroll, .request (.clock 0)] ++
    lampHeard (lampServes labels reads acts)

def lampWatching : List (Beat (Answer (Memory lampServer.keys)) (Act lampServer.keys)) :=
  [.unroll, .request (.viewer true), .request (.connected lampMemory)] ++
    lampFetching [.act true, .finish] 2 4 ++ lampFetching [.finish, .finish] 2 3 ++
    lampFetching [.finish, .finish] 3 5 ++ lampAsked [.finish, .finish] 3 4 ++
    lampAsked [.finish, .act true, .finish] 3 4 ++
    [.request (.clock 0), .request (.viewer true), .request (.clock 0), .unroll, .unroll, .unroll]

def lampWriting : List (Beat (Answer (Memory lampServer.keys)) (Act lampServer.keys)) :=
  [.request (.command none)] ++ lampAsked [.finish, .act true, .finish] 5 8 ++
    [.request (.clock 0), .request (.viewer true), .unroll, .request (.command none), .unroll,
      .move (.node .finish)] ++ List.replicate 4 (.move (.node (.act true))) ++
    [.request .network, .request (.clock 0), .unroll, .unroll, .request (.command none), .unroll] ++
    lampAsked [.finish] 3 4 ++ [.request (.clock 0), .request (.viewer true)]

def switchingOn : List (Beat (Answer (Memory lampServer.keys)) (ScreenAct (Act lampServer.keys))) :=
  lampWatching.map behindScreen ++ (clicking 0 (.mouse ⟨true, 4, 8⟩)).map .move ++
    lampWriting.map behindScreen

theorem monitor_server_switched : ∃ h : MonitorRun (Pair lampServer),
    Path (monitor (serverStation lampServer Str.empty)) (fun _ _ => True)
        (monitorStart (Link.initial (programs lampServer Str.empty) lampMemory)) switchingOn h ∧
      h.world.watcher.log.take 5 =
        [.sent (.valueUpdated 0 (.formatted (.bool true)) (some 0)),
          .answered (.get 0) (.value (.bool true)),
          .sent (.writeSucceeded 0 (.formatted (.bool true)) 0),
          .answered (.write 0 (.bool true)) (.written (.bool true)),
          .took (.writeValue 0 (.bool true))] ∧
      Justified (Happening.Allowed (Server.profile lampServer Str.empty)) h.world.watcher.log ∧
      Faithful (Server.profile lampServer Str.empty) h.world := by
  have hrun : (runLabels (monitor (serverStation lampServer Str.empty))
      (monitorStart (Link.initial (programs lampServer Str.empty) lampMemory)) switchingOn).map
      (fun h => h.world.watcher.log.take 5) = some
        [.sent (.valueUpdated 0 (.formatted (.bool true)) (some 0)),
          .answered (.get 0) (.value (.bool true)),
          .sent (.writeSucceeded 0 (.formatted (.bool true)) 0),
          .answered (.write 0 (.bool true)) (.written (.bool true)),
          .took (.writeValue 0 (.bool true))] := by
    decide +kernel
  obtain ⟨h, hh, hlog⟩ := Option.map_eq_some_iff.mp hrun
  have hpath := Path.of_runLabels hh
  exact ⟨h, hpath, hlog, monitor_server lampServer_distinct hpath⟩

end Qup.EndToEnd
