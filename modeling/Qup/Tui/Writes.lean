import Qup.Tui.Session
import Qup.Tui.Commanding

/-!
# Where a write goes

The worker only carries out a command that it has just taken, on a connection that
has delivered its table. The commands in the channel outlive the connection,
though, and the interface goes on offering the old table.
-/

namespace Qup.Tui
open Foundation Foundation.Routine Client

def Session.stage (s : Session) : Stage := ⟨s.up, s.taken.map Submission.command⟩

theorem Session.stage_perform (s : Session) {o : Op} {r : o.Res} (h : s.answers o r = true) :
    (s.perform o r).stage = commanding.next s.stage o r := by
  cases o with
  | send call => cases call <;> rfl
  | emit event => cases event <;> cases r <;> rfl
  | tryRecv =>
    have hr : r = s.commands.head?.map Submission.command := of_decide_eq_true h
    subst hr
    rfl
  | _ => rfl

def Offers (tables : List (ℕ × List KeyInfo)) (connection : ℕ) (keyref : UInt16) : Prop :=
  ∃ keys, (connection, keys) ∈ tables ∧ ∃ key ∈ keys, key.keyref = keyref ∧
    key.keyflags.isWritable = true

def Submission.Offered (tables : List (ℕ × List KeyInfo)) (q : Submission) : Prop :=
  ∀ keyref value, q.command = .writeValue keyref value → Offers tables q.table keyref

structure Session.Chosen (s : Session) : Prop where
  events : ∀ n nodeId rows, (n, NetworkEvent.connected nodeId rows) ∈ s.events →
    (n, rows.map KeyRow.info) ∈ s.tables
  shown : s.app.keys = [] ∨ (s.table, s.app.keys.map KeyRow.info) ∈ s.tables
  modal : ∀ modal, s.app.modal = some modal → Offers s.tables s.modalTable modal.keyref
  commands : ∀ q ∈ s.commands, q.Offered s.tables
  taken : ∀ q, s.taken = some q → q.Offered s.tables
  writes : ∀ w ∈ s.writes, ∀ q, w.submission = some q → q.Offered s.tables

theorem Offers.mono {tables more : List (ℕ × List KeyInfo)} {n : ℕ} {keyref : UInt16}
    (h : Offers tables n keyref) : Offers (tables ++ more) n keyref := by
  obtain ⟨keys, hkeys, hkey⟩ := h
  exact ⟨keys, List.mem_append_left _ hkeys, hkey⟩

theorem Submission.Offered.mono {tables more : List (ℕ × List KeyInfo)} {q : Submission}
    (h : q.Offered tables) : q.Offered (tables ++ more) :=
  fun keyref value hq => (h keyref value hq).mono

namespace Session

theorem chosen_initial : initial.Chosen where
  events _ _ _ h := by cases h
  shown := .inl rfl
  modal _ h := by cases h
  commands _ h := by cases h
  taken _ h := by cases h
  writes _ h := by cases h

theorem Chosen.push {s : Session} (h : s.Chosen) (event : NetworkEvent) : (s.push event).Chosen := by
  cases event with
  | connected nodeId rows =>
    refine ⟨fun n nodeId' rows' hevent => ?_, ?_, fun modal hmodal => (h.modal modal hmodal).mono,
      fun q hq => (h.commands q hq).mono, fun q hq => (h.taken q hq).mono,
      fun w hw q hq => (h.writes w hw q hq).mono⟩
    · rcases List.mem_append.mp hevent with hold | hnew
      · exact List.mem_append_left _ (h.events n nodeId' rows' hold)
      · cases List.mem_singleton.mp hnew
        exact List.mem_append_right _ (List.mem_singleton.mpr rfl)
    · exact h.shown.imp id fun hshown => List.mem_append_left _ hshown
  | _ =>
    refine { h with events := fun n nodeId rows hevent => ?_ }
    rcases List.mem_append.mp hevent with hold | hnew
    · exact h.events n nodeId rows hold
    · cases List.mem_singleton.mp hnew

theorem Chosen.mark {s : Session} (h : s.Chosen) (event : NetworkEvent) : (s.mark event).Chosen := by
  cases event with
  | connected nodeId rows => exact { h with taken := nofun }
  | disconnected error => exact { h with taken := nofun }
  | _ => exact h

theorem Chosen.perform {s : Session} (h : s.Chosen) (o : Op) (r : o.Res) :
    (s.perform o r).Chosen := by
  cases o with
  | connect => exact { h with taken := nofun }
  | send call =>
    cases call with
    | write keyref value =>
      refine { h with taken := nofun, writes := fun w hw q hq => ?_ }
      rcases List.mem_append.mp hw with hold | hnew
      · exact h.writes w hold q hq
      · cases List.mem_singleton.mp hnew
        exact h.taken q hq
    | _ => exact { h with taken := nofun }
  | emit event =>
    refine .mark ?_ event
    split_ifs
    · exact h.push event
    · exact h
  | tryRecv =>
    exact { h with
      commands := fun q hq => h.commands q (List.mem_of_mem_tail hq)
      taken := fun q hq => h.commands q (List.mem_of_head? hq) }
  | _ => exact h

theorem Chosen.update {s : Session} (h : s.Chosen) {n : ℕ} {event : NetworkEvent}
    (hevent : ∀ nodeId rows, event = .connected nodeId rows →
      (n, rows.map KeyRow.info) ∈ s.tables) : (s.update n event).Chosen := by
  by_cases hconnected : ∃ nodeId rows, event = .connected nodeId rows
  · obtain ⟨nodeId, rows, rfl⟩ := hconnected
    exact { h with
      shown := .inr (hevent nodeId rows rfl)
      modal := fun modal hmodal => by cases hmodal }
  · have hother : ∀ nodeId rows, event ≠ .connected nodeId rows :=
      fun nodeId rows heq => hconnected ⟨nodeId, rows, heq⟩
    obtain ⟨hkeys, hmodal⟩ := apply_kept s.app hother
    have htable : (s.update n event).table = s.table := by
      cases event with
      | connected nodeId rows => exact absurd rfl (hother nodeId rows)
      | _ => rfl
    refine { h with shown := ?_, modal := fun modal hopen => ?_ }
    · rw [htable]
      change (s.app.apply event).keys = [] ∨
        (s.table, (s.app.apply event).keys.map KeyRow.info) ∈ s.tables
      rw [hkeys]
      refine h.shown.imp (fun hnil => ?_) id
      rw [hnil] at hkeys
      exact List.map_eq_nil_iff.mp hkeys
    · obtain ⟨old, hold, hkeyref⟩ := hmodal modal hopen
      exact hkeyref ▸ h.modal old hold

theorem Chosen.offers {s : Session} (h : s.Chosen) {handled : Handled}
    (hhandled : Handles s.app handled) {modal : EditModal}
    (hmodal : handled.app.modal = some modal) : Offers s.tables s.origin modal.keyref := by
  unfold origin
  rcases hhandled.modal modal hmodal with ⟨old, hold, hkeyref⟩ | ⟨hnone, row, hrow, hkeyref, hw⟩
  · rw [hold, Option.isSome_some, if_pos rfl, ← hkeyref]
    exact h.modal old hold
  · rw [hnone, Option.isSome_none, if_neg Bool.false_ne_true]
    rcases h.shown with hnil | hshown
    · rw [hnil] at hrow
      cases hrow
    · exact ⟨_, hshown, row.info, List.mem_map_of_mem hrow, hkeyref, hw⟩

theorem Chosen.input {s : Session} (h : s.Chosen) {handled : Handled}
    (hhandled : Handles s.app handled) : (s.input handled).Chosen := by
  refine { h with
    shown := ?_, modal := fun modal hmodal => h.offers hhandled hmodal,
    commands := fun q hq => ?_ }
  · change handled.app.keys = [] ∨ (s.table, handled.app.keys.map KeyRow.info) ∈ s.tables
    rw [hhandled.keys]
    exact h.shown
  · rcases List.mem_append.mp hq with hold | hnew
    · exact h.commands q hold
    · obtain ⟨command, hcommand, rfl⟩ := Option.map_eq_some_iff.mp (Option.mem_toList.mp hnew)
      intro keyref value hwrite
      obtain ⟨modal, hmodal, hkeyref⟩ :=
        hhandled.command keyref value (hcommand.trans (congrArg some hwrite))
      unfold origin
      rw [hmodal, Option.isSome_some, if_pos rfl, ← hkeyref]
      exact h.modal modal hmodal

theorem Chosen.step {s s' : Session} (h : s.Chosen) {l : Label} (hs : s.step l = some s') :
    s'.Chosen := by
  cases l with
  | worker o r =>
    simp only [Session.step] at hs
    split_ifs at hs
    obtain ⟨routine, -, rfl⟩ := Option.map_eq_some_iff.mp hs
    exact { h.perform o r with }
  | unroll =>
    obtain ⟨routine, -, rfl⟩ := Option.map_eq_some_iff.mp hs
    exact { h with }
  | update =>
    simp only [Session.step] at hs
    split at hs
    · rename_i connection event events _ hevents
      cases hs
      have hnext : (s.update connection event).Chosen := by
        refine h.update fun nodeId rows heq => h.events connection nodeId rows ?_
        rw [hevents, heq]
        exact List.mem_cons_self
      refine { hnext with events := fun n nodeId rows hmem => h.events n nodeId rows ?_ }
      rw [hevents]
      exact List.mem_cons_of_mem _ hmem
    · cases hs
  | poll =>
    simp only [Session.step] at hs
    split_ifs at hs
    cases hs
    exact { h with }
  | timeout =>
    simp only [Session.step] at hs
    split_ifs at hs
    cases hs
    exact { h with }
  | input geometry event =>
    simp only [Session.step] at hs
    split_ifs at hs with hpolling
    cases hs
    exact h.input (handles_handleEvent hpolling.2 event)
  | abort =>
    simp only [Session.step] at hs
    split_ifs at hs
    cases hs
    exact { h with }

end Session

def WorkerCommand.isWrite : WorkerCommand → Bool
  | .writeValue _ _ => true
  | .refreshAllReadable => false

def Label.delivers : Label → Bool
  | .worker (.emit (.connected _ _)) _ => true
  | _ => false

def Session.submits (s : Session) : Label → Bool
  | .input geometry event => (s.handled geometry event).command.any WorkerCommand.isWrite
  | _ => false

/-- A connection delivers its table when no write is queued, and while it is up a
write is only submitted from a modal that was opened on its table. -/
def Timely (s : Session) (l : Label) : Prop :=
  (l.delivers = true → ∀ q ∈ s.commands, q.command.isWrite = false) ∧
    (s.up = true → s.submits l = true → s.modalTable = s.connection)

instance (s : Session) (l : Label) : Decidable (Timely s l) := inferInstanceAs (Decidable (_ ∧ _))

namespace Session

/-- A write that waits for its turn on a connection is for its table. -/
structure Current (s : Session) : Prop where
  commands : s.up = true → ∀ q ∈ s.commands, q.command.isWrite = true → q.table = s.connection
  taken : s.up = true → ∀ q, s.taken = some q → q.command.isWrite = true → q.table = s.connection
  writes : ∀ w ∈ s.writes, w.submission = some ⟨.writeValue w.keyref w.value, w.connection⟩

theorem current_initial : initial.Current where
  commands h := by cases h
  taken h := by cases h
  writes _ h := by cases h

theorem Current.push {s : Session} (h : s.Current) (event : NetworkEvent) :
    (s.push event).Current := by
  cases event <;> exact { h with }

theorem Current.perform {s : Session} (h : s.Current) {o : Op} {r : o.Res}
    (hallowed : commanding.allows s.stage o) (htimely : Timely s (.worker o r)) :
    (s.perform o r).Current := by
  cases o with
  | connect => exact { h with commands := nofun, taken := nofun }
  | send call =>
    cases call with
    | write keyref value =>
      refine { h with taken := fun _ => nofun, writes := fun w hw => ?_ }
      rcases List.mem_append.mp hw with hold | hnew
      · exact h.writes w hold
      · obtain ⟨hup, hheld⟩ := hallowed
        obtain ⟨q, hq, hcommand⟩ := Option.map_eq_some_iff.mp hheld
        have htable : q.table = s.connection := h.taken hup q hq (by rw [hcommand]; rfl)
        cases List.mem_singleton.mp hnew
        change s.taken = some ⟨.writeValue keyref value, s.connection⟩
        rw [hq, ← hcommand, ← htable]
    | _ => exact { h with taken := fun _ => nofun }
  | emit event =>
    have hpushed : (if r = true then s.push event else s).Current := by
      split_ifs
      · exact h.push event
      · exact h
    cases event with
    | connected nodeId rows =>
      refine { hpushed with commands := fun _ q hq hwrite => ?_, taken := fun _ => nofun }
      have hqueued : q ∈ s.commands := by
        cases r <;> exact hq
      rw [htimely.1 rfl q hqueued] at hwrite
      cases hwrite
    | disconnected error => exact { hpushed with commands := nofun, taken := nofun }
    | _ => exact hpushed
  | tryRecv =>
    exact { h with
      commands := fun hup q hq => h.commands hup q (List.mem_of_mem_tail hq)
      taken := fun hup q hq => h.commands hup q (List.mem_of_head? hq) }
  | _ => exact h

theorem Current.input {s : Session} (h : s.Current) {handled : Handled}
    (hhandled : Handles s.app handled)
    (htimely : s.up = true → handled.command.any WorkerCommand.isWrite = true →
      s.modalTable = s.connection) : (s.input handled).Current := by
  refine { h with commands := fun hup q hq hwrite => ?_ }
  rcases List.mem_append.mp hq with hold | hnew
  · exact h.commands hup q hold hwrite
  · obtain ⟨command, hcommand, rfl⟩ := Option.map_eq_some_iff.mp (Option.mem_toList.mp hnew)
    have htable := htimely hup (by rw [hcommand]; exact hwrite)
    cases command with
    | refreshAllReadable => cases hwrite
    | writeValue keyref value =>
      obtain ⟨modal, hmodal, -⟩ := hhandled.command keyref value hcommand
      change s.origin = s.connection
      unfold origin
      rw [hmodal, Option.isSome_some, if_pos rfl]
      exact htable

structure Orderly (s : Session) : Prop extends s.Current where
  follows : s.routine.Follows commanding Any (fun _ _ => True) s.stage

theorem Orderly.step {s s' : Session} (h : s.Orderly) {l : Label} (htimely : Timely s l)
    (hs : s.step l = some s') : s'.Orderly := by
  cases l with
  | worker o r =>
    simp only [Session.step] at hs
    split_ifs at hs with hanswers
    obtain ⟨routine, hroutine, rfl⟩ := Option.map_eq_some_iff.mp hs
    have hallowed : commanding.allows s.stage o := by
      obtain ⟨k, hk, -⟩ := answer_eq_some hroutine
      have hfollows := h.follows
      rw [hk] at hfollows
      exact hfollows.1
    refine ⟨{ h.toCurrent.perform hallowed htimely with }, ?_⟩
    change routine.Follows commanding Any (fun _ _ => True) (s.perform o r).stage
    rw [s.stage_perform hanswers]
    exact h.follows.answer hroutine trivial
  | unroll =>
    obtain ⟨routine, hroutine, rfl⟩ := Option.map_eq_some_iff.mp hs
    exact ⟨{ h.toCurrent with }, h.follows.unroll hroutine⟩
  | update =>
    simp only [Session.step] at hs
    split at hs
    · cases hs
      exact { h with }
    · cases hs
  | poll =>
    simp only [Session.step] at hs
    split_ifs at hs
    cases hs
    exact { h with }
  | timeout =>
    simp only [Session.step] at hs
    split_ifs at hs
    cases hs
    exact { h with }
  | input geometry event =>
    simp only [Session.step] at hs
    split_ifs at hs with hpolling
    cases hs
    exact ⟨h.toCurrent.input (handles_handleEvent hpolling.2 event) htimely.2, h.follows⟩
  | abort =>
    simp only [Session.step] at hs
    split_ifs at hs
    cases hs
    exact ⟨{ h.toCurrent with }, trivial⟩

end Session

/-- A write on a connection was chosen from the table that this connection delivered. -/
theorem write_from_own_table {s : Session} {labels : List Label}
    (hp : Path Session.step Timely .initial labels s) {w : Sent} (hw : w ∈ s.writes) :
    w.submission = some ⟨.writeValue w.keyref w.value, w.connection⟩ ∧
      Offers s.tables w.connection w.keyref := by
  have horderly : s.Orderly := hp.invariant Session.Orderly
    ⟨Session.current_initial, connectionManager_commanding⟩ fun _ _ _ h hl hs => h.step hl hs
  have hchosen : s.Chosen := hp.invariant Session.Chosen
    Session.chosen_initial fun _ _ _ h _ hs => h.step hs
  have hsubmission := horderly.writes w hw
  exact ⟨hsubmission, hchosen.writes w hw _ hsubmission w.keyref w.value rfl⟩

def writableKey (name : Utf8.Str) : KeyInfo := ⟨0, ⟨0b010, by decide⟩, name⟩

def answered (request : Call) (response : Message) : List Label :=
  [.worker (.send request) (.ok ()), .unroll, .worker .nextMessage (.ok response)]

def delivering (key : KeyInfo) : List Label :=
  [.unroll, .worker (.emit .connecting) true, .worker .connect (.ok ())] ++
    answered .identify (.identified Utf8.Str.empty) ++ answered .keyCount (.keytabLen 1) ++
    answered (.key 0) (.key key.keyflags key.name) ++
    [.worker (.emit (.connected Utf8.Str.empty [initialRow key])) true,
      .worker .now 0, .unroll, .unroll, .unroll]

def modalGeometry : ModalGeometry where
  outer := ⟨4, 4, 72, 15⟩
  stringInput := ⟨5, 6, 60, 3⟩
  stringSetButton := ⟨65, 6, 10, 3⟩
  boolTrueButton := ⟨5, 9, 12, 3⟩
  boolFalseButton := ⟨17, 9, 12, 3⟩
  numberInput := ⟨5, 12, 60, 3⟩
  numberSetButton := ⟨65, 12, 10, 3⟩

def tableGeometry : TableGeometry := ⟨⟨1, 5, 78, 18⟩, 18⟩

def submitting : List Label :=
  [.poll, .input ⟨some tableGeometry, none⟩ (.mouse ⟨true, 10, 5⟩),
    .poll, .input ⟨some tableGeometry, some modalGeometry⟩ (.mouse ⟨true, 10, 10⟩)]

def writing : List Label :=
  [.worker .tryRecv (some (.writeValue 0 (.bool true))),
    .worker (.send (.write 0 (.bool true))) (.ok ())]

theorem write_from_own_table_first : ∃ s : Session,
    Path Session.step Timely .initial
      (delivering (writableKey Utf8.Str.empty) ++ [.update, .update] ++ submitting ++ writing) s ∧
      s.writes = [⟨1, 0, .bool true, some ⟨.writeValue 0 (.bool true), 1⟩⟩] ∧
      Offers s.tables 1 0 := by
  have hrun : (runLabels (fun s l => if Timely s l then Session.step s l else none) .initial
      (delivering (writableKey Utf8.Str.empty) ++ [.update, .update] ++ submitting ++ writing)).map
      Session.writes = some [⟨1, 0, .bool true, some ⟨.writeValue 0 (.bool true), 1⟩⟩] := by
    decide +kernel
  obtain ⟨s, hs, hwrites⟩ := Option.map_eq_some_iff.mp hrun
  have hpath := Path.of_guarded hs
  have hw : ⟨1, 0, .bool true, some ⟨.writeValue 0 (.bool true), 1⟩⟩ ∈ s.writes := by
    rw [hwrites]
    exact List.mem_cons_self
  exact ⟨s, hpath, hwrites, (write_from_own_table hpath hw).2⟩

/-- The connection is lost, the user chooses from its table, and the write goes to
another key of the next connection. -/
def losing : List Label :=
  [.worker .tryRecv none, .unroll,
    .worker (.nextMessageTimeout .networkPoll) (.error (.io ⟨.unexpectedEof, ""⟩)),
    .worker (.emit (.disconnected (.connectionLost (.io ⟨.unexpectedEof, ""⟩)))) true,
    .worker .sleep ()]

theorem write_replayed_on_next_connection : ¬ ∀ (labels : List Label) (s : Session),
    Path Session.step (fun _ _ => True) .initial labels s → ∀ w ∈ s.writes,
      w.submission = some ⟨.writeValue w.keyref w.value, w.connection⟩ := by
  intro hall
  have hrun : (runLabels Session.step .initial
      (delivering (writableKey Utf8.Str.empty) ++ losing ++ [.update, .update, .update] ++
        submitting ++ delivering (writableKey ⟨[0x78], by decide⟩) ++ writing)).map
      Session.writes = some [⟨2, 0, .bool true, some ⟨.writeValue 0 (.bool true), 1⟩⟩] := by
    decide +kernel
  obtain ⟨s, hs, hwrites⟩ := Option.map_eq_some_iff.mp hrun
  have hw := hall _ s (.of_runLabels hs) ⟨2, 0, .bool true, _⟩
    (by rw [hwrites]; exact List.mem_cons_self)
  cases hw

end Qup.Tui
