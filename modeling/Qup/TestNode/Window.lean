import Qup.TestNode.Moves
import Qup.TestNode.Values

/-!
# The observation window

Whether every `CHANGED` in a connection's queue stands between the `OK` of an
`OBSERVE` of its key and the next `OK` of an `UNOBSERVE`. The bit of a key is set
after the one `OK` and cleared before the other, so a bit that is found set lies in
the window; the `CHANGED` that follows the check need not.
-/

namespace Qup.TestNode
open Foundation Foundation.Program

def Sent.Acknowledges (entry : Sent) (request : RequestRef) : Prop :=
  entry.frame = encodeOk ∧ entry.request = some request

/-- The last `OK` for an `OBSERVE` or an `UNOBSERVE` of the key is one for an `OBSERVE`. -/
def Observing (keyref : UInt16) (queue : List Sent) : Prop :=
  ∃ before ok after, queue = before ++ ok :: after ∧ ok.Acknowledges (.observe keyref) ∧
    ∀ entry ∈ after, ¬ entry.Acknowledges (.unobserve keyref)

/-- Every `CHANGED` stands in the observation window of its key. -/
def Windowed (queue : List Sent) : Prop :=
  ∀ before entry after keyref, queue = before ++ entry :: after →
    entry.frame = encodeChanged keyref → Observing keyref before

theorem observing_append {keyref : UInt16} {queue : List Sent} {entry : Sent}
    (h : Observing keyref queue) (hentry : ¬ entry.Acknowledges (.unobserve keyref)) :
    Observing keyref (queue ++ [entry]) := by
  obtain ⟨before, ok, after, rfl, hok, hafter⟩ := h
  refine ⟨before, ok, after ++ [entry], by simp, hok, fun e he => ?_⟩
  rcases List.mem_append.mp he with he | he
  · exact hafter e he
  · rw [List.mem_singleton.mp he]
    exact hentry

theorem observing_acknowledged {keyref : UInt16} {queue : List Sent} {entry : Sent}
    (h : entry.Acknowledges (.observe keyref)) : Observing keyref (queue ++ [entry]) :=
  ⟨queue, entry, [], rfl, h, by simp⟩

theorem windowed_append {queue : List Sent} {entry : Sent} (h : Windowed queue)
    (hentry : ∀ keyref, entry.frame = encodeChanged keyref → Observing keyref queue) :
    Windowed (queue ++ [entry]) := by
  intro before e after keyref hsplit he
  rcases List.eq_nil_or_concat after with rfl | ⟨after, last, rfl⟩
  · obtain ⟨rfl, hlast⟩ := List.append_inj' hsplit rfl
    cases hlast
    exact hentry keyref he
  · have hsplit' : queue ++ [entry] = (before ++ e :: after) ++ [last] := by simp [hsplit]
    obtain ⟨rfl, -⟩ := List.append_inj' hsplit' rfl
    exact h before e after keyref rfl he

theorem observing_again {keyref : UInt16} {before between : List Sent} {ok : Sent}
    (hok : ok.Acknowledges (.unobserve keyref)) (h : Observing keyref (before ++ ok :: between)) :
    ∃ again ∈ between, again.Acknowledges (.observe keyref) := by
  obtain ⟨before', again, after, hsplit, hagain, hafter⟩ := h
  have hne : ok ≠ again := by
    rintro rfl
    have hrequest := hok.2.symm.trans hagain.2
    cases hrequest
  rcases List.append_eq_append_iff.mp hsplit with ⟨mid, -, hrest⟩ | ⟨mid, -, hrest⟩
  · cases mid with
    | nil =>
      cases hrest
      exact absurd rfl hne
    | cons e mid =>
      cases hrest
      exact ⟨again, by simp, hagain⟩
  · cases mid with
    | nil =>
      cases hrest
      exact absurd rfl hne
    | cons e mid =>
      cases hrest
      exact absurd hok (hafter ok (by simp))

/-- What a task knows about an observation after its last request. -/
inductive Standing where
  | plain
  | seen (c : ℕ) (keyref : UInt16)
  | granted (c : ℕ) (keyref : UInt16)
  | revoked (c : ℕ) (keyref : UInt16)

def Standing.after (t : TaskId) (request : Option RequestRef) : (o : Op) → o.Res → Standing
  | .isObserving c keyref, true => .seen c keyref
  | .unobserve c keyref, _ => .revoked c keyref
  | .send c frame, true =>
    match request with
    | some (.observe keyref) =>
      if t = .connection c ∧ frame = encodeOk then .granted c keyref else .plain
    | _ => .plain
  | _, _ => .plain

def Standing.Allows (t : TaskId) (request : Option RequestRef) (standing : Standing) : Op → Prop
  | .send c frame =>
    (∀ keyref, frame = encodeChanged keyref → standing = .seen c keyref) ∧
      ∀ keyref, t = .connection c → request = some (.unobserve keyref) → frame = encodeOk →
        standing = .revoked c keyref
  | .observe c keyref => t = .connection c ∧ standing = .granted c keyref
  | .unobserve c _ => t = .connection c
  | _ => True

/-- `CHANGED` is only sent right after the bit was found set; a task sets a bit
of its own connection right after the `OK`, and clears it right before the `OK`. -/
def window (t : TaskId) (request : Option RequestRef) : Discipline Op.Res Standing where
  allows := Standing.Allows t request
  next _ := Standing.after t request

section
variable {t : TaskId} {request : Option RequestRef} {ε : Type} {standing : Standing}

theorem notifyAll_window (keyref : UInt16) (connections : List ℕ) :
    (notifyAll keyref connections : Action ε Unit).Follows (window t request) (fun _ _ => True)
      standing := by
  induction connections generalizing standing with
  | nil => trivial
  | cons c connections ih =>
    refine ⟨trivial, fun observing => ?_⟩
    cases observing with
    | false => exact ih
    | true =>
      refine ⟨⟨fun other h => ?_, fun _ _ _ h => nomatch h⟩, fun _ => ih⟩
      cases h
      rfl

theorem broadcastChanged_window (keyref : UInt16) :
    (broadcastChanged keyref : Action ε Unit).Follows (window t request) (fun _ _ => True)
      standing :=
  ⟨trivial, fun connections => notifyAll_window keyref connections⟩

theorem read_window (cell : Cell) :
    (read cell : Action ε WireValue).Follows (window t request) (fun _ _ => True) standing :=
  ⟨trivial, fun _ => trivial⟩

theorem getValue_window (keyref : UInt16) :
    (getValue keyref).Follows (window t request) (fun _ _ => True) standing := by
  have hprogram := getValue_getting keyref
  generalize getValue keyref = program at hprogram ⊢
  cases hprogram with
  | fails code => trivial
  | reads cell _ => exact read_window cell
  | uptime _ => exact ⟨trivial, fun _ => trivial⟩
  | constant _ => trivial

theorem replace_window (keyref : UInt16) (cell : Cell) (value : cell.Value) :
    (replace keyref cell value : Action ε WriteSuccess).Follows (window t request)
      (fun _ _ => True) standing :=
  ⟨trivial, fun _ => trivial⟩

theorem writeValue_window (keyref : UInt16) (value : ValueRef) :
    (writeValue keyref value).Follows (window t request) (fun _ _ => True) standing := by
  have hprogram := writeValue_writing keyref value
  generalize writeValue keyref value = program at hprogram ⊢
  cases hprogram with
  | fails code => trivial
  | replaces cell stored _ _ _ => exact replace_window keyref cell stored
  | mirrors text _ _ =>
    exact ⟨trivial, fun _ => ⟨trivial, fun _ => ⟨trivial, fun _ => ⟨trivial, fun _ => trivial⟩⟩⟩⟩
  | stores stored _ _ => exact ⟨trivial, fun _ => trivial⟩

theorem allows_send {frame : MessageRef} (c : ℕ) (hframe : ∀ keyref, frame ≠ encodeChanged keyref)
    (hok : ∀ keyref, request = some (.unobserve keyref) → frame ≠ encodeOk) :
    standing.Allows t request (.send c frame) :=
  ⟨fun keyref h => absurd h (hframe keyref), fun keyref _ hr h => absurd h (hok keyref hr)⟩

theorem dispatchRequest_window (c : ℕ) (request : RequestRef) :
    (dispatchRequest c request).Follows (window (.connection c) (some request)) (fun _ _ => True)
      standing := by
  cases request with
  | ping => exact ⟨allows_send c nofun nofun, fun _ => trivial⟩
  | identify => exact ⟨allows_send c nofun nofun, fun _ => trivial⟩
  | getKeytabLen => exact ⟨allows_send c nofun nofun, fun _ => trivial⟩
  | getKey keyref =>
    simp only [dispatchRequest]
    cases keySpec keyref <;> exact ⟨allows_send c nofun nofun, fun _ => trivial⟩
  | get keyref =>
    simp only [dispatchRequest]
    rw [follows_bind, follows_attempt]
    refine (getValue_window keyref).mono fun _ result _ => ?_
    cases result <;> exact ⟨allows_send c nofun nofun, fun _ => trivial⟩
  | write keyref value =>
    simp only [dispatchRequest]
    rw [follows_bind, follows_attempt]
    refine (writeValue_window keyref value).mono fun _ result _ => ?_
    cases result with
    | error code => exact ⟨allows_send c nofun nofun, fun _ => trivial⟩
    | ok success =>
      refine ⟨allows_send c nofun nofun, fun sent => ?_⟩
      refine follows_ite (fun _ => trivial) fun _ => ?_
      cases success.changedKeyref with
      | none => trivial
      | some changedKeyref =>
        rw [follows_bind]
        refine (broadcastChanged_window changedKeyref).mono fun _ result _ => ?_
        cases result <;> trivial
  | observe keyref =>
    simp only [dispatchRequest]
    cases canObserve keyref with
    | error code => exact ⟨allows_send c nofun nofun, fun _ => trivial⟩
    | ok _ =>
      refine ⟨allows_send c nofun nofun, fun sent => ?_⟩
      cases sent with
      | false => trivial
      | true => exact ⟨⟨rfl, by simp [window, Standing.after]⟩, fun _ => trivial⟩
  | unobserve keyref =>
    simp only [dispatchRequest]
    cases validateKeyref keyref with
    | error code => exact ⟨allows_send c nofun fun _ _ => nofun, fun _ => trivial⟩
    | ok _ =>
      refine ⟨rfl, fun _ => ⟨⟨nofun, fun other _ hr _ => ?_⟩, fun _ => trivial⟩⟩
      cases hr
      rfl

theorem nextVoltageOffset_window :
    (nextVoltageOffset : Action ε Int64).Follows (window t request) (fun _ _ => True) standing :=
  ⟨trivial, fun _ => trivial⟩

theorem updateVoltage_window :
    (updateVoltage : Action ε Unit).Follows (window t request) (fun _ _ => True) standing := by
  unfold updateVoltage
  rw [follows_bind]
  refine nextVoltageOffset_window.mono fun _ result _ => ?_
  cases result with
  | error e => trivial
  | ok offset =>
    refine ⟨trivial, fun previous => ?_⟩
    exact follows_ite (fun _ => broadcastChanged_window _) fun _ => trivial

theorem flushMirrorUpdate_window (generation : UInt64) :
    (flushMirrorUpdate generation : Action ε Unit).Follows (window t request) (fun _ _ => True)
      standing := by
  refine ⟨trivial, fun current => follows_ite (fun _ => trivial) fun _ => ?_⟩
  refine ⟨trivial, fun nextValue => ⟨trivial, fun previous => ?_⟩⟩
  exact follows_ite (fun _ => broadcastChanged_window _) fun _ => trivial

theorem background_window {program : Action Empty Unit}
    (h : program.Follows (window t request) (fun _ _ => True) standing) :
    (Task.background program).program.Follows (window t request) (fun _ _ => True) standing := by
  rw [Task.background, follows_bind]
  refine h.mono fun _ result _ => ?_
  cases result <;> trivial

theorem starts_window {task : Task} (h : Starts t task) :
    task.program.Follows (window t task.request) (fun _ _ => True) .plain := by
  cases h with
  | dispatch c message =>
    cases message with
    | request request => exact dispatchRequest_window c request
    | compatibilityRequest => exact ⟨allows_send c nofun nofun, fun _ => trivial⟩
    | _ => trivial
  | voltage => exact background_window updateVoltage_window
  | mirror j generation => exact background_window (flushMirrorUpdate_window generation)

end
/-- No task has found the bit of the key set and not yet put its `CHANGED` into
the queue. -/
def Node.Settled (s : Node) (c : ℕ) (keyref : UInt16) : Prop :=
  ∀ task ∈ s.tasks, task.next ≠ some (.send c (encodeChanged keyref))

instance (s : Node) (c : ℕ) (keyref : UInt16) : Decidable (s.Settled c keyref) :=
  inferInstanceAs (Decidable (∀ task ∈ s.tasks, task.next ≠ _))

def Task.unobserves (task : Task) : Option UInt16 :=
  match task.request with
  | some (.unobserve keyref) => some keyref
  | _ => none

/-- The step does not put the `OK` of an `UNOBSERVE` into the queue between the
check and the `CHANGED` of a task that notifies. -/
def Undisturbed (s : Node) : Label → Prop
  | .act (.connection c) => ∀ task ∈ s.task (.connection c), ∀ keyref ∈ task.unobserves,
      task.next = some (.send c encodeOk) → s.Settled c keyref
  | _ => True

instance (s : Node) (l : Label) : Decidable (Undisturbed s l) :=
  match l with
  -- spelled out, so that no instance runs through all the keyrefs
  | .act (.connection c) =>
    have hkey (task : Task) (keyref : UInt16) :
        Decidable (task.next = some (.send c encodeOk) → s.Settled c keyref) := inferInstance
    @Option.decidableForallMem _ _
      (fun task => @Option.decidableForallMem _ _ (hkey task) task.unobserves)
      (s.task (.connection c))
  | .act .voltage | .act (.mirror _) | .accept | .register _ | .receive _ _ | .unregister _
  | .writerFailed _ | .second | .voltageTick => .isTrue trivial

def Standing.Agrees (s : Node) (t : TaskId) (task : Task) : Standing → Prop
  | .plain => True
  | .seen c keyref =>
    task.next = some (.send c (encodeChanged keyref)) → Observing keyref (s.queue c)
  | .granted c keyref => t = .connection c ∧ Observing keyref (s.queue c)
  | .revoked c keyref => t = .connection c ∧ s.observes c keyref = false

theorem agrees_congr {s s' : Node} {t : TaskId} {task : Task} {standing : Standing}
    (hqueue : s'.queue = s.queue) (hobserves : s'.observes = s.observes) :
    standing.Agrees s' t task ↔ standing.Agrees s t task := by
  cases standing <;> simp only [Standing.Agrees, hqueue, hobserves]

structure Node.InWindow (s : Node) : Prop where
  windowed : ∀ c, Windowed (s.queue c)
  observes : ∀ c keyref, s.observes c keyref → Observing keyref (s.queue c)
  tasks : ∀ t task, s.task t = some task → ∃ standing,
    task.program.Follows (window t task.request) (fun _ _ => True) standing ∧
      standing.Agrees s t task

theorem entry_acknowledges {s : Node} {t : TaskId} {task : Task} {c : ℕ} {frame : MessageRef}
    {request : RequestRef} (h : (s.entry t task c frame).Acknowledges request) :
    t = .connection c ∧ task.request = some request ∧ frame = encodeOk := by
  obtain ⟨ht, hrequest⟩ := Node.entry_request h.2
  exact ⟨ht, hrequest, h.1⟩

section
variable {s : Node} {t : TaskId} {task : Task} {o : Op} {k : o.Res → Action Empty Bool}
  {standing : Standing}

theorem observing_effect {c : ℕ} {keyref : UInt16} (h : Observing keyref (s.queue c))
    (hother : ¬ (t = .connection c ∧ task.request = some (.unobserve keyref) ∧
      o = .send c encodeOk)) :
    Observing keyref ((s.effect t task o).queue c) := by
  rcases s.queue_effect_cases t task o c with hq | ⟨frame, rfl, -, hq⟩
  · rw [hq]
    exact h
  · rw [hq]
    refine observing_append h fun hack => hother ?_
    obtain ⟨ht, hrequest, rfl⟩ := entry_acknowledges hack
    exact ⟨ht, hrequest, rfl⟩

theorem windowed_effect (hs : s.InWindow) (hnext : task.next = some o)
    (hallows : standing.Allows t task.request o) (hagrees : standing.Agrees s t task) (c : ℕ) :
    Windowed ((s.effect t task o).queue c) := by
  rcases s.queue_effect_cases t task o c with hq | ⟨frame, rfl, -, hq⟩
  · rw [hq]
    exact hs.windowed c
  · rw [hq]
    refine windowed_append (hs.windowed c) fun keyref hframe => ?_
    cases hframe
    have hseen := hallows.1 keyref rfl
    subst hseen
    exact hagrees hnext

theorem observes_effect_observing (hs : s.InWindow) (hallows : standing.Allows t task.request o)
    (hagrees : standing.Agrees s t task) {c : ℕ} {keyref : UInt16}
    (h : (s.effect t task o).observes c keyref) :
    Observing keyref ((s.effect t task o).queue c) := by
  rcases Node.observes_effect s h with ⟨hbit, -⟩ | rfl
  · refine observing_effect (hs.observes c keyref hbit) ?_
    rintro ⟨ht, hrequest, rfl⟩
    have hrevoked := hallows.2 keyref ht hrequest rfl
    subst hrevoked
    rw [hagrees.2] at hbit
    cases hbit
  · obtain ⟨-, rfl⟩ := hallows
    exact observing_effect hagrees.2 nofun

theorem agrees_advance (hs : s.InWindow) (hallows : standing.Allows t task.request o)
    (next : Task) :
    (Standing.after t task.request o (s.answer o)).Agrees
      ((s.effect t task o).setTask (s.advance task o k) t) t next := by
  cases o with
  | isObserving c keyref =>
    cases hbit : s.answer (.isObserving c keyref) with
    | false => trivial
    | true =>
      intro _
      rw [Node.queue_setTask]
      exact hs.observes c keyref hbit
  | unobserve c keyref =>
    refine ⟨hallows, ?_⟩
    rw [Node.observes_setTask, Bool.eq_false_iff]
    intro hbit
    rcases Node.observes_effect s hbit with ⟨-, hne⟩ | heq
    · exact hne rfl
    · cases heq
  | send c frame =>
    cases hsent : s.answer (.send c frame) with
    | false => trivial
    | true =>
      simp only [Standing.after]
      split
      · rename_i keyref hrequest
        split_ifs with hok
        · obtain ⟨rfl, rfl⟩ := hok
          refine ⟨rfl, ?_⟩
          have hwriting : s.writing c := hsent
          rw [Node.queue_setTask, s.queue_send hwriting]
          exact observing_acknowledged ⟨rfl, by simp [Node.entry, hrequest]⟩
        · trivial
      · trivial
  | _ => trivial

theorem agrees_other {t' : TaskId} {task' : Task} {standing' : Standing} (ht : t' ≠ t)
    (hprogram : task.program = .act o k) (htask : s.task t = some task)
    (hquiet : Undisturbed s (.act t)) (hallows : standing.Allows t task.request o)
    (htask' : s.task t' = some task') (hagrees : standing'.Agrees s t' task') :
    standing'.Agrees ((s.effect t task o).setTask (s.advance task o k) t) t' task' := by
  have hnext : task.next = some o := by simp [Task.next, hprogram]
  cases standing' with
  | plain => trivial
  | seen c keyref =>
    intro hnotify
    rw [Node.queue_setTask]
    refine observing_effect (hagrees hnotify) ?_
    rintro ⟨rfl, hrequest, rfl⟩
    have hunobserves : keyref ∈ task.unobserves := by simp [Task.unobserves, hrequest]
    exact hquiet task htask keyref hunobserves hnext task' (s.mem_tasks htask') hnotify
  | granted c keyref =>
    obtain ⟨rfl, hobserving⟩ := hagrees
    refine ⟨rfl, ?_⟩
    rw [Node.queue_setTask]
    exact observing_effect hobserving fun h => ht h.1.symm
  | revoked c keyref =>
    obtain ⟨rfl, hbit⟩ := hagrees
    refine ⟨rfl, ?_⟩
    rw [Node.observes_setTask, Bool.eq_false_iff]
    intro h
    rcases Node.observes_effect s h with ⟨hold, -⟩ | rfl
    · rw [hbit] at hold
      cases hold
    · exact ht hallows.1.symm

end

theorem inWindow_initial (seed : UInt64) : (Node.initial seed).InWindow where
  windowed c := by
    intro before entry after keyref h
    simp [Node.initial, Node.queue] at h
  observes c keyref h := by simp [Node.initial, Node.observes] at h
  tasks t task h := by cases t <;> simp [Node.initial, Node.task] at h

theorem inWindow_step {s s' : Node} {l : Label} (hs : s.InWindow) (hquiet : Undisturbed s l)
    (h : s.step l = some s') : s'.InWindow := by
  cases Node.step_moves h with
  | outside hqueue hobserves hlog htask =>
    refine ⟨fun c => ?_, fun c keyref hbit => ?_, fun t task ht => ?_⟩
    · rw [hqueue]
      exact hs.windowed c
    · rw [hqueue]
      rw [hobserves] at hbit
      exact hs.observes c keyref hbit
    · rcases htask t task ht with hold | hstart
      · obtain ⟨standing, hfollows, hagrees⟩ := hs.tasks t task hold
        exact ⟨standing, hfollows, (agrees_congr hqueue hobserves).mpr hagrees⟩
      · exact ⟨.plain, starts_window hstart, trivial⟩
  | @act t task o k htask hprogram =>
    obtain ⟨standing, hfollows, hagrees⟩ := hs.tasks t task htask
    rw [hprogram] at hfollows
    obtain ⟨hallows, hrest⟩ := hfollows
    have hnext : task.next = some o := by simp [Task.next, hprogram]
    refine ⟨fun c => ?_, fun c keyref hbit => ?_, fun t' task' ht' => ?_⟩
    · rw [Node.queue_setTask]
      exact windowed_effect hs hnext hallows hagrees c
    · rw [Node.queue_setTask]
      rw [Node.observes_setTask] at hbit
      exact observes_effect_observing hs hallows hagrees hbit
    · rcases Node.task_act s htask ht' with ⟨rfl, rfl⟩ | ⟨hne, hold | hstart⟩
      · exact ⟨_, hrest _, agrees_advance hs hallows _⟩
      · obtain ⟨standing', hfollows', hagrees'⟩ := hs.tasks t' task' hold
        exact ⟨standing', hfollows', agrees_other hne hprogram htask hquiet hallows hold hagrees'⟩
      · exact ⟨.plain, starts_window hstart, trivial⟩

/-- In a run in which every `OK` for an `UNOBSERVE` is undisturbed, every `CHANGED` stands in
the observation window of its key. -/
theorem changed_in_window {seed : UInt64} {ls : List Label} {s : Node}
    (hrun : Path Node.step Undisturbed (Node.initial seed) ls s) (c : ℕ) :
    Windowed (s.queue c) ∧
      ∀ before ok between entry after keyref, s.queue c = before ++ ok :: between ++ entry :: after →
        ok.Acknowledges (.unobserve keyref) → entry.frame = encodeChanged keyref →
          ∃ again ∈ between, again.Acknowledges (.observe keyref) := by
  have hs : s.InWindow := hrun.invariant Node.InWindow (inWindow_initial seed)
    fun u l v hu hl hstep => inWindow_step hu hl hstep
  refine ⟨hs.windowed c, fun before ok between entry after keyref hsplit hok hentry => ?_⟩
  have hobserving := hs.windowed c (before ++ ok :: between) entry after keyref
    (by simp [hsplit]) hentry
  exact observing_again hok hobserving

/-- An `OK` that is put into the queue too early is followed by a `CHANGED`, if the
connection is still written. -/
theorem changed_after_disturbed {s s' : Node} {l : Label} (h : s.step l = some s')
    (hl : ¬ Undisturbed s l) : ∃ c t s'', s'.step (.act t) = some s'' ∧
      (s.writing c → ¬ Windowed (s''.queue c)) := by
  obtain ⟨c, rfl⟩ : ∃ c, l = .act (.connection c) := by
    unfold Undisturbed at hl
    split at hl
    · exact ⟨_, rfl⟩
    · exact absurd trivial hl
  simp only [Undisturbed, Node.Settled, not_forall, not_not, exists_prop] at hl
  obtain ⟨task, htask, keyref, hkeyref, hok, other, hother, hchanged⟩ := hl
  obtain ⟨k, hprogram⟩ := Task.next_eq hok
  obtain ⟨k', hprogram'⟩ := Task.next_eq hchanged
  obtain ⟨t, ht⟩ := s.exists_of_mem_tasks hother
  have hne : t ≠ .connection c := by
    rintro rfl
    rw [Option.mem_def, ht] at htask
    cases htask
    rw [hok] at hchanged
    cases hchanged
  rw [Node.act_eq htask hprogram] at h
  cases h
  have hstill : ((s.effect (.connection c) task (.send c encodeOk)).setTask
      (s.advance task (.send c encodeOk) k) (.connection c)).task t = some other := by
    rw [Node.task_setTask_ne _ hne]
    rcases s.task_effect (.connection c) task (.send c encodeOk) t with heq | ⟨hnone, -⟩
    · rw [heq, ht]
    · rw [ht] at hnone
      cases hnone
  refine ⟨c, t, _, Node.act_eq hstill hprogram', fun hwriting hwindowed => ?_⟩
  rw [Node.queue_setTask, Node.queue_send, Node.queue_setTask, Node.queue_send s hwriting]
    at hwindowed
  · have hobserving := hwindowed _ _ [] keyref rfl rfl
    have hrequest : task.request = some (.unobserve keyref) := by
      unfold Task.unobserves at hkeyref
      split at hkeyref
      · cases hkeyref
        assumption
      · cases hkeyref
    obtain ⟨again, hagain, -⟩ := @observing_again keyref (s.queue c) [] _
      ⟨rfl, by simp [Node.entry, hrequest]⟩ hobserving
    cases hagain
  · rw [Node.writing_setTask, Node.writing_send]
    exact hwriting

def noticing : List Label :=
  [.accept, .register 0, .request 0 (.observe keyVoltageMa), .act (.connection 0),
    .act (.connection 0), .act (.connection 0), .voltageTick, .act .voltage, .act .voltage,
    .act .voltage, .act .voltage]

def leaving : List Label :=
  [.request 0 (.unobserve keyVoltageMa),
    .act (.connection 0), .act (.connection 0), .act (.connection 0)]

theorem changed_in_window_voltage : ∃ s : Node,
    Path Node.step Undisturbed (Node.initial 0) (noticing ++ [.act .voltage] ++ leaving) s ∧
      s.queue 0 = [⟨encodeOk, some (.observe keyVoltageMa), none, 0⟩,
        ⟨encodeChanged keyVoltageMa, none, some 0, 1⟩,
        ⟨encodeOk, some (.unobserve keyVoltageMa), none, 1⟩] ∧ Windowed (s.queue 0) := by
  have hrun : (runLabels (fun s l => if Undisturbed s l then Node.step s l else none)
      (Node.initial 0) (noticing ++ [.act .voltage] ++ leaving)).map (fun s => s.queue 0) =
      some [⟨encodeOk, some (.observe keyVoltageMa), none, 0⟩,
        ⟨encodeChanged keyVoltageMa, none, some 0, 1⟩,
        ⟨encodeOk, some (.unobserve keyVoltageMa), none, 1⟩] := by decide +kernel
  obtain ⟨s, hs, hqueue⟩ := Option.map_eq_some_iff.mp hrun
  have hpath := Path.of_guarded hs
  exact ⟨s, hpath, hqueue, (changed_in_window hpath 0).1⟩

/-- The `OK` of an `UNOBSERVE` overtakes a `CHANGED` whose sender had already
looked at the mask. -/
theorem changed_after_unobserve : ¬ ∀ (seed : UInt64) (s : Node),
    Reachable Node.step (Node.initial seed) s → ∀ c, Windowed (s.queue c) := by
  intro hall
  have hrun : (runLabels Node.step (Node.initial 0) (noticing ++ leaving ++ [.act .voltage])).map
      (fun s => s.queue 0) =
      some [⟨encodeOk, some (.observe keyVoltageMa), none, 0⟩,
        ⟨encodeOk, some (.unobserve keyVoltageMa), none, 1⟩,
        ⟨encodeChanged keyVoltageMa, none, some 0, 1⟩] := by decide +kernel
  obtain ⟨s, hs, hqueue⟩ := Option.map_eq_some_iff.mp hrun
  have hwindowed := hall 0 s (.of_runLabels hs) 0
  rw [hqueue] at hwindowed
  have hobserving := hwindowed [_, _] _ [] keyVoltageMa rfl rfl
  obtain ⟨again, hagain, -⟩ := @observing_again keyVoltageMa [_] [] _ ⟨rfl, rfl⟩ hobserving
  cases hagain

end Qup.TestNode
