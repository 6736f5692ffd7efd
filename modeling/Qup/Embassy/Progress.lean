import Qup.Embassy.Alignment

/-!
# The server's task can always go on

Handlers and flushes are finite programs and a request that has arrived whole is
read to its end, so from any state the server's own steps lead back to reading,
or to a stop.
-/

namespace Qup.Embassy
open Foundation Foundation.Utf8

variable {N : ℕ} {server : Server N} {nodeId : Str}

def Label.Own {keys : Fin N → ErasedKey} : Label keys → Prop
  | .read | .pend | .serve | .wake | .park | .repoll | .act true | .finish => True
  | .arrive _ | .readFail | .act false | .spawn _ _ | .update _ => False

def Drives (nodeId : Str) (s s' : Connection server) : Prop :=
  ∃ labels, Path (Sys.step (programs server nodeId)) (fun _ l => l.Own) s labels s' ∧
    s'.inbox = s.inbox

def IsStopped {P : Type} (ctrl : Ctrl N P) : Prop := ∃ e, ctrl = .stopped e

theorem Drives.refl (s : Connection server) : Drives nodeId s s := ⟨[], .nil s, rfl⟩

theorem Drives.trans {s t u : Connection server} (h : Drives nodeId s t) (h' : Drives nodeId t u) :
    Drives nodeId s u := by
  obtain ⟨ls, hp, hi⟩ := h
  obtain ⟨ks, hq, hj⟩ := h'
  exact ⟨ls ++ ks, hp.trans hq, hj.trans hi⟩

theorem Drives.one {s t : Connection server} {l : Label server.keys} (hl : l.Own)
    (h : s.Steps (programs server nodeId) l t) (hi : t.inbox = s.inbox) : Drives nodeId s t :=
  ⟨[l], .one hl h.step_eq, hi⟩

theorem Drives.finish {s : Connection server} {activity : Activity} {l : Locals N}
    (hs : s.ctrl = .running activity (.ret l)) :
    Drives nodeId s (s.next (programs server nodeId) activity l) := by
  refine .one (l := .finish) trivial (.finish activity (.ret l) l hs rfl) ?_
  cases activity with
  | starting => rfl
  | handling q =>
    simp only [Sys.next]
    split_ifs <;> rfl
  | flushing => rfl

def ended (activity : Activity) :
    Except Exit (Locals N) → Ctrl N (server.Handler (Locals N))
  | .ok l => .running activity (.ret l)
  | .error e => .stopped e

theorem drives_eval (nodeId : Str) {activity : Activity} (task : server.Handler (Locals N)) :
    ∀ s : Connection server, s.ctrl = .running activity task →
      ∃ s', Drives nodeId s s' ∧
        s'.memory = (task.eval (fun o m => o.exec true m) s.memory).2 ∧
        s'.ctrl = ended activity (task.eval (fun o m => o.exec true m) s.memory).1 := by
  induction task with
  | ret l => exact fun s hs => ⟨s, .refl s, rfl, hs⟩
  | fail e =>
    intro s hs
    exact ⟨{ s with ctrl := .stopped e },
      .one (l := .finish) trivial (.exit activity (.fail e) e hs rfl) rfl, rfl, rfl⟩
  | act o k ih =>
    intro s hs
    have hfirst : Drives nodeId s (s.perform activity true o k) :=
      .one (l := .act true) trivial (.act true activity (.act o k) o k hs rfl) rfl
    obtain ⟨s', hdrives, hmemory, hend⟩ := ih _ (s.perform activity true o k) rfl
    exact ⟨s', hfirst.trans hdrives, hmemory, hend⟩

theorem drives_task (nodeId : Str) {activity : Activity} (task : server.Handler (Locals N))
    (s : Connection server) (hs : s.ctrl = .running activity task) :
    ∃ s', Drives nodeId s s' ∧
      ((∃ l, s'.ctrl = .running activity (.ret l)) ∨ IsStopped s'.ctrl) := by
  obtain ⟨s', hdrives, -, hend⟩ := drives_eval nodeId task s hs
  cases hresult : (task.eval (fun o m => o.exec true m) s.memory).1 with
  | ok l =>
    rw [hresult] at hend
    exact ⟨s', hdrives, Or.inl ⟨l, hend⟩⟩
  | error e =>
    rw [hresult] at hend
    exact ⟨s', hdrives, Or.inr ⟨e, hend⟩⟩

def Fetching (s : Connection server) : Prop :=
  ∃ l reader reads, s.ctrl = .reading l reader reads

theorem drives_flush (nodeId : Str) (s : Connection server) {task : server.Handler (Locals N)}
    (hs : s.ctrl = .running .flushing task) :
    ∃ s', Drives nodeId s s' ∧ (Fetching s' ∨ IsStopped s'.ctrl) := by
  obtain ⟨t, hdrives, ⟨l, ht⟩ | hstop⟩ := drives_task nodeId task s hs
  · exact ⟨_, hdrives.trans (.finish ht), Or.inl ⟨l, _, _, rfl⟩⟩
  · exact ⟨t, hdrives, Or.inr hstop⟩

/-- Whatever the server is doing, it gets back to reading or stops. -/
theorem drives_fetching (nodeId : Str) (s : Connection server) :
    ∃ s', Drives nodeId s s' ∧ (Fetching s' ∨ IsStopped s'.ctrl) := by
  have hparked : ∀ (s : Connection server) l reader reads, s.ctrl = .parked l reader reads →
      ∃ s', Drives nodeId s s' ∧ (Fetching s' ∨ IsStopped s'.ctrl) := by
    intro s l reader reads hs
    exact ⟨{ s with ctrl := .reading l reader reads },
      .one (l := .repoll) trivial (.repoll l reader reads hs) rfl, Or.inl ⟨l, reader, reads, rfl⟩⟩
  rcases hctrl : s.ctrl with ⟨l, reader, reads⟩ | ⟨l, reader, reads⟩ | ⟨l, reader, reads⟩ |
    ⟨activity, task⟩ | e
  · exact ⟨s, .refl s, Or.inl ⟨l, reader, reads, hctrl⟩⟩
  · cases hlatch : s.memory.latch server.notifier with
    | true =>
      let s' := Sys.beginFlush (programs server nodeId) { s with memory := { s.memory with
        latch := Function.update s.memory.latch server.notifier false } } l
      have hwoken : Drives nodeId s s' :=
        .one (l := .wake) trivial (.wake l reader reads hctrl hlatch) rfl
      obtain ⟨t, hdrives, hend⟩ := drives_flush nodeId s' rfl
      exact ⟨t, hwoken.trans hdrives, hend⟩
    | false =>
      have hsuspended : Drives nodeId s { s with ctrl := .parked l reader reads } :=
        .one (l := .park) trivial (.park l reader reads hctrl hlatch) rfl
      obtain ⟨t, hdrives, hend⟩ := hparked { s with ctrl := .parked l reader reads } l reader reads rfl
      exact ⟨t, hsuspended.trans hdrives, hend⟩
  · exact hparked s l reader reads hctrl
  · obtain ⟨t, hdrives, ⟨l, ht⟩ | hstop⟩ := drives_task nodeId task s hctrl
    · have hfinish := hdrives.trans (.finish ht)
      cases activity with
      | starting => exact ⟨_, hfinish, Or.inl ⟨l, _, _, rfl⟩⟩
      | flushing => exact ⟨_, hfinish, Or.inl ⟨l, _, _, rfl⟩⟩
      | handling q =>
        rw [Sys.next] at hfinish
        split_ifs at hfinish
        · obtain ⟨u, hflush, hend⟩ := drives_flush nodeId
            (t.beginFlush (programs server nodeId) l) rfl
          exact ⟨u, hfinish.trans hflush, hend⟩
        · exact ⟨_, hfinish, Or.inl ⟨l, _, _, rfl⟩⟩
    · exact ⟨t, hdrives, Or.inr hstop⟩
  · exact ⟨s, .refl s, Or.inr ⟨e, hctrl⟩⟩

theorem drives_serve (nodeId : Str) {l : Locals N} {q : IncomingRequest} {rest : List UInt8}
    (reader : RequestReader IncomingRequest) :
    ∀ (s : Connection server) (reads : ℕ), s.ctrl = .reading l reader reads →
      Reader.run reader s.inbox = .done q rest →
      ∃ labels s', Path (Sys.step (programs server nodeId)) (fun _ l => l.Own) s labels s' ∧
        s'.ctrl = .running (.handling q) (server.handleRequest nodeId q l) ∧
          s'.memory = s.memory ∧ s'.log = .served q :: s.log := by
  induction reader with
  | ret r =>
    intro s reads hs hrun
    cases hrun
    refine ⟨[.serve], { s with
      ctrl := .running (.handling q) (server.handleRequest nodeId q l)
      log := .served q :: s.log },
      .one trivial (Sys.Steps.step_eq (.serve l q reads hs)), rfl, rfl, rfl⟩
  | fail e =>
    intro s reads hs hrun
    cases hrun
  | act n k ih =>
    intro s reads hs hrun
    rw [Reader.run_act] at hrun
    split_ifs at hrun with hn
    have hstep : s.step (programs server nodeId) .read = _ :=
      Sys.Steps.step_eq (.read l n k reads hs hn)
    obtain ⟨labels, s', hpath, hctrl, hmemory, hlog⟩ := ih (s.inbox.take n) { s with
      inbox := s.inbox.drop n
      ctrl := .reading l (k (s.inbox.take n)) (reads + 1) } (reads + 1) rfl hrun
    exact ⟨[.read] ++ labels, s', (Path.one (l := .read) trivial hstep).trans hpath, hctrl,
      hmemory, hlog⟩

end Qup.Embassy
