import Qup.TestNode.Node
import Qup.Foundation.Discipline

/-!
# What a step of the test node can do

A step from outside changes no queue, no mask and no stored value, and starts a
task at most. A step of a task changes what its request says. Everything that is
proved about runs goes through `Node.step_moves`.
-/

namespace Qup.TestNode
open Foundation

theorem Task.next_eq {task : Task} {o : Op} (h : task.next = some o) :
    ∃ k : o.Res → Action Empty Bool, task.program = .act o k := by
  unfold Task.next at h
  split at h
  · rename_i o' k hprogram
    cases h
    exact ⟨k, hprogram⟩
  · cases h

inductive Starts : TaskId → Task → Prop where
  | dispatch (c : ℕ) (message : MessageRef) (h : ∃ frame, readNextMessage frame = some message) :
      Starts (.connection c) (.dispatch c message)
  | voltage : Starts .voltage (.background updateVoltage)
  | mirror (j : ℕ) (generation : UInt64) :
      Starts (.mirror j) (.background (flushMirrorUpdate generation))

namespace Node
variable (s : Node)

theorem mem_tasks {t : TaskId} {task : Task} (h : s.task t = some task) : task ∈ s.tasks := by
  simp only [tasks, List.mem_append, List.mem_filterMap, Option.mem_toList]
  cases t with
  | connection c =>
    obtain ⟨conn, hconn, htask⟩ := Option.bind_eq_some_iff.mp h
    exact .inl (.inl ⟨conn, List.mem_of_getElem? hconn, htask⟩)
  | voltage => exact .inl (.inr h)
  | mirror j => exact .inr (List.mem_of_getElem? h)

theorem exists_of_mem_tasks {task : Task} (h : task ∈ s.tasks) : ∃ t, s.task t = some task := by
  simp only [tasks, List.mem_append, List.mem_filterMap, Option.mem_toList] at h
  obtain (⟨conn, hconn, htask⟩ | hvoltage) | hmirror := h
  · obtain ⟨c, hc⟩ := List.getElem?_of_mem hconn
    exact ⟨.connection c, Option.bind_eq_some_iff.mpr ⟨conn, hc, htask⟩⟩
  · exact ⟨.voltage, hvoltage⟩
  · obtain ⟨j, hj⟩ := List.getElem?_of_mem hmirror
    exact ⟨.mirror j, hj⟩

theorem queue_modify (c d : ℕ) (f : Connection → Connection) :
    (s.modify c f).queue d =
      if c = d then (s.connections[d]?).elim [] fun conn => (f conn).queue else s.queue d := by
  simp only [queue, modify, List.getElem?_modify]
  split_ifs with h
  · cases s.connections[d]? <;> rfl
  · cases s.connections[d]? <;> rfl

theorem observes_modify (c d : ℕ) (f : Connection → Connection) (keyref : UInt16) :
    (s.modify c f).observes d keyref =
      if c = d then (s.connections[d]?).any fun conn => (f conn).observedMask.isObserving keyref
      else s.observes d keyref := by
  simp only [observes, modify, List.getElem?_modify]
  split_ifs with h
  · cases s.connections[d]? <;> rfl
  · cases s.connections[d]? <;> rfl

theorem task_modify (c : ℕ) (f : Connection → Connection) (t : TaskId) :
    (s.modify c f).task t =
      if t = .connection c then (s.connections[c]?).bind fun conn => (f conn).task
      else s.task t := by
  cases t with
  | connection d =>
    simp only [task, modify, List.getElem?_modify, TaskId.connection.injEq]
    by_cases h : d = c
    · subst h
      cases s.connections[d]? <;> simp
    · cases s.connections[d]? <;> simp [h, Ne.symm h]
  | voltage => simp [task, modify]
  | mirror j => simp [task, modify]

theorem queue_modify_of_eq {c : ℕ} {f : Connection → Connection}
    (hf : ∀ conn, (f conn).queue = conn.queue) : (s.modify c f).queue = s.queue := by
  funext d
  rw [queue_modify]
  split_ifs
  · simp only [hf, queue]
  · rfl

theorem observes_modify_of_eq {c : ℕ} {f : Connection → Connection}
    (hf : ∀ conn, (f conn).observedMask = conn.observedMask) :
    (s.modify c f).observes = s.observes := by
  funext d keyref
  rw [observes_modify]
  split_ifs
  · simp only [hf, observes]
  · rfl

theorem task_modify_of_eq {c : ℕ} {f : Connection → Connection}
    (hf : ∀ conn, (f conn).stage = conn.stage) : (s.modify c f).task = s.task := by
  funext t
  rw [task_modify]
  split_ifs with h
  · subst h
    have htask : (fun conn => (f conn).task) = Connection.task := by
      funext conn
      simp only [Connection.task, hf]
    rw [htask]
    rfl
  · rfl

theorem writing_modify_of_eq {c : ℕ} {f : Connection → Connection}
    (hf : ∀ conn, (f conn).writing = conn.writing) : (s.modify c f).writing = s.writing := by
  funext d
  simp only [writing, modify, List.getElem?_modify]
  split_ifs
  · cases s.connections[d]? with
    | none => rfl
    | some conn => exact hf conn
  · cases s.connections[d]? <;> rfl

@[simp] theorem queue_setTask (task : Task) (t : TaskId) : (s.setTask task t).queue = s.queue := by
  cases t with
  | connection c => exact s.queue_modify_of_eq fun _ => rfl
  | voltage => rfl
  | mirror j => rfl

@[simp] theorem observes_setTask (task : Task) (t : TaskId) :
    (s.setTask task t).observes = s.observes := by
  cases t with
  | connection c => exact s.observes_modify_of_eq fun _ => rfl
  | voltage => rfl
  | mirror j => rfl

@[simp] theorem writing_setTask (task : Task) (t : TaskId) :
    (s.setTask task t).writing = s.writing := by
  cases t with
  | connection c => exact s.writing_modify_of_eq fun _ => rfl
  | voltage => rfl
  | mirror j => rfl

@[simp] theorem log_setTask (task : Task) (t : TaskId) : (s.setTask task t).log = s.log := by
  cases t <;> rfl

theorem task_setTask_self {t : TaskId} {old : Task} (h : s.task t = some old) (task : Task) :
    (s.setTask task t).task t = some task := by
  cases t with
  | connection c =>
    simp only [setTask, setStage, task_modify, if_true]
    simp only [Node.task] at h
    cases hc : s.connections[c]? with
    | none => simp [hc] at h
    | some conn => rfl
  | voltage => rfl
  | mirror j =>
    have hj : j < s.mirrors.length := (List.getElem?_eq_some_iff.mp h).1
    simp [setTask, Node.task, hj]

theorem task_setTask_ne {t t' : TaskId} (h : t' ≠ t) (task : Task) :
    (s.setTask task t).task t' = s.task t' := by
  cases t with
  | connection c => simp only [setTask, setStage, task_modify, h, if_false]
  | voltage => cases t' <;> simp_all [setTask, Node.task]
  | mirror j => cases t' <;> simp_all [setTask, Node.task, List.getElem?_set_ne, Ne.symm]

theorem queue_effect (t : TaskId) (task : Task) (o : Op) (c : ℕ) :
    (s.effect t task o).queue c =
      match o with
      | .send d frame => if d = c ∧ s.writing c then s.queue c ++ [s.entry t task c frame]
          else s.queue c
      | _ => s.queue c := by
  cases o with
  | send d frame =>
    simp only [effect, queue_modify]
    by_cases hd : d = c
    · subst hd
      simp only [queue, writing]
      cases s.connections[d]? with
      | none => simp
      | some conn =>
        simp only [Option.elim_some, Option.any_some, Connection.put]
        split_ifs <;> simp_all
    · simp [hd]
  | observe d keyref =>
    rw [effect, queue_modify_of_eq]
    exact fun _ => rfl
  | unobserve d keyref =>
    rw [effect, queue_modify_of_eq]
    exact fun _ => rfl
  | _ => rfl

theorem queue_send {t : TaskId} {task : Task} {c : ℕ} (h : s.writing c) (frame : MessageRef) :
    (s.effect t task (.send c frame)).queue c = s.queue c ++ [s.entry t task c frame] := by
  simp [queue_effect, h]

theorem writing_send (t : TaskId) (task : Task) (c : ℕ) (frame : MessageRef) :
    (s.effect t task (.send c frame)).writing = s.writing := by
  rw [effect, writing_modify_of_eq]
  intro conn
  unfold Connection.put
  split_ifs <;> rfl

theorem queue_effect_cases (t : TaskId) (task : Task) (o : Op) (c : ℕ) :
    (s.effect t task o).queue c = s.queue c ∨
      ∃ frame, o = .send c frame ∧ s.writing c ∧
        (s.effect t task o).queue c = s.queue c ++ [s.entry t task c frame] := by
  rw [queue_effect]
  cases o with
  | send d frame =>
    dsimp only
    split_ifs with h
    · obtain ⟨rfl, hwriting⟩ := h
      exact .inr ⟨frame, rfl, hwriting, rfl⟩
    · exact .inl rfl
  | _ => exact .inl rfl

theorem observes_effect {t : TaskId} {task : Task} {o : Op} {c : ℕ} {keyref : UInt16}
    (h : (s.effect t task o).observes c keyref) :
    s.observes c keyref ∧ o ≠ .unobserve c keyref ∨ o = .observe c keyref := by
  cases o with
  | observe d other =>
    rw [effect, observes_modify] at h
    split_ifs at h with hd
    · subst hd
      simp only [ObservedMask.isObserving_observe, Option.any_eq_true, Bool.or_eq_true,
        decide_eq_true_eq] at h
      obtain ⟨conn, hconn, hbit | ⟨_, rfl⟩⟩ := h
      · exact .inl ⟨by simp [observes, hconn, hbit], nofun⟩
      · exact .inr rfl
    · exact .inl ⟨h, nofun⟩
  | unobserve d other =>
    rw [effect, observes_modify] at h
    split_ifs at h with hd
    · subst hd
      simp only [ObservedMask.isObserving_unobserve, Option.any_eq_true, Bool.and_eq_true,
        decide_eq_true_eq] at h
      obtain ⟨conn, hconn, hbit, hne⟩ := h
      exact .inl ⟨by simp [observes, hconn, hbit], by simpa using hne⟩
    · exact .inl ⟨h, by simpa using fun hdc => absurd hdc hd⟩
  | send d frame =>
    rw [effect, observes_modify_of_eq] at h
    · exact .inl ⟨h, nofun⟩
    · intro conn
      unfold Connection.put
      split_ifs <;> rfl
  | _ => exact .inl ⟨h, nofun⟩

theorem log_effect (t : TaskId) (task : Task) (o : Op) :
    (s.effect t task o).log =
      match o with
      | .load cell => s.log ++ [.load cell (s.store cell)]
      | .swap cell value => s.log ++ [.swap cell (s.store cell) value]
      | _ => s.log := by
  cases o <;> rfl

theorem log_effect_append (t : TaskId) (task : Task) (o : Op) :
    ∃ more, (s.effect t task o).log = s.log ++ more := by
  rw [log_effect]
  cases o <;> first | exact ⟨_, rfl⟩ | exact ⟨[], (List.append_nil _).symm⟩

theorem task_effect (t : TaskId) (task : Task) (o : Op) (t' : TaskId) :
    (s.effect t task o).task t' = s.task t' ∨
      s.task t' = none ∧ ∀ task', (s.effect t task o).task t' = some task' → Starts t' task' := by
  cases o with
  | observe d keyref =>
    rw [effect, task_modify_of_eq]
    · exact .inl rfl
    · exact fun _ => rfl
  | unobserve d keyref =>
    rw [effect, task_modify_of_eq]
    · exact .inl rfl
    · exact fun _ => rfl
  | send d frame =>
    rw [effect, task_modify_of_eq]
    · exact .inl rfl
    · intro conn
      unfold Connection.put
      split_ifs <;> rfl
  | scheduleMirrorUpdate generation =>
    cases t' with
    | mirror j =>
      simp only [effect, Node.task, List.getElem?_append]
      split_ifs with hj
      · exact .inl rfl
      · refine .inr ⟨List.getElem?_eq_none (Nat.le_of_not_lt hj), fun task' h => ?_⟩
        obtain rfl := List.mem_singleton.mp (List.mem_of_getElem? h)
        exact .mirror j generation
    | _ => exact .inl rfl
  | _ => exact .inl rfl

theorem task_effect_self {t : TaskId} {task : Task} (h : s.task t = some task) (o : Op) :
    (s.effect t task o).task t = some task := by
  rcases s.task_effect t task o t with heq | ⟨hnone, -⟩
  · rw [heq, h]
  · rw [h] at hnone
    cases hnone

theorem task_act {t t' : TaskId} {task task' next : Task} {o : Op} (htask : s.task t = some task)
    (h : ((s.effect t task o).setTask next t).task t' = some task') :
    t' = t ∧ task' = next ∨ t' ≠ t ∧ (s.task t' = some task' ∨ Starts t' task') := by
  by_cases ht : t' = t
  · subst ht
    rw [task_setTask_self _ (s.task_effect_self htask o)] at h
    cases h
    exact .inl ⟨rfl, rfl⟩
  · rw [task_setTask_ne _ ht] at h
    rcases s.task_effect t task o t' with heq | ⟨-, hstart⟩
    · rw [heq] at h
      exact .inr ⟨ht, .inl h⟩
    · exact .inr ⟨ht, .inr (hstart task' h)⟩

variable {s} in
theorem entry_request {t : TaskId} {task : Task} {c : ℕ} {frame : MessageRef}
    {request : RequestRef} (h : (s.entry t task c frame).request = some request) :
    t = .connection c ∧ task.request = some request := by
  simp only [entry] at h
  split_ifs at h with ht
  exact ⟨ht, h⟩

@[simp] theorem store_setTask (task : Task) (t : TaskId) : (s.setTask task t).store = s.store := by
  cases t <;> rfl

@[simp] theorem counters_setTask (task : Task) (t : TaskId) :
    (s.setTask task t).counters = s.counters := by
  cases t <;> rfl

theorem store_effect_swap (t : TaskId) (task : Task) (cell : Cell) (value : cell.Value) :
    (s.effect t task (.swap cell value)).store cell = value := by
  simp [effect]

theorem store_effect_of_ne (t : TaskId) (task : Task) {o : Op} {cell : Cell}
    (ho : ∀ value, o ≠ .swap cell value) : (s.effect t task o).store cell = s.store cell := by
  cases o with
  | swap other value =>
    have hne : cell ≠ other := by
      rintro rfl
      exact ho value rfl
    simp [effect, hne]
  | _ => rfl

theorem counters_effect_add (t : TaskId) (task : Task) (counter : Counter) (amount : UInt64) :
    (s.effect t task (.fetchAdd counter amount)).counters counter = s.counters counter + amount := by
  simp [effect]

theorem counters_effect_of_ne (t : TaskId) (task : Task) {o : Op} {counter : Counter}
    (ho : ∀ amount, o ≠ .fetchAdd counter amount) :
    (s.effect t task o).counters counter = s.counters counter := by
  cases o with
  | fetchAdd other amount =>
    have hne : counter ≠ other := by
      rintro rfl
      exact ho amount rfl
    simp [effect, hne]
  | _ => rfl

inductive Moves : Label → Node → Prop where
  | outside {l : Label} {s' : Node} (hqueue : s'.queue = s.queue)
      (hobserves : s'.observes = s.observes) (hlog : s'.log = s.log)
      (htask : ∀ t task, s'.task t = some task → s.task t = some task ∨ Starts t task) :
      Moves l s'
  | act {t : TaskId} {task : Task} {o : Op} {k : o.Res → Action Empty Bool}
      (htask : s.task t = some task) (hprogram : task.program = .act o k) :
      Moves (.act t) ((s.effect t task o).setTask (s.advance task o k) t)

variable {s}

theorem act_eq {t : TaskId} {task : Task} {o : Op} {k : o.Res → Action Empty Bool}
    (htask : s.task t = some task) (hprogram : task.program = .act o k) :
    s.step (.act t) = some ((s.effect t task o).setTask (s.advance task o k) t) := by
  simp only [step, act, htask, hprogram]

theorem moves_stage {l : Label} {c : ℕ} {f : Connection → Connection}
    (hqueue : ∀ conn, (f conn).queue = conn.queue)
    (hmask : ∀ conn, (f conn).observedMask = conn.observedMask)
    (htask : ∀ conn task, (f conn).task = some task →
      conn.task = some task ∨ Starts (.connection c) task) :
    s.Moves l (s.modify c f) := by
  refine .outside (s.queue_modify_of_eq hqueue) (s.observes_modify_of_eq hmask) rfl ?_
  intro t task h
  rw [task_modify] at h
  split_ifs at h with ht
  · subst ht
    obtain ⟨conn, hconn, hstage⟩ := Option.bind_eq_some_iff.mp h
    rcases htask conn task hstage with hold | hstart
    · exact .inl (Option.bind_eq_some_iff.mpr ⟨conn, hconn, hold⟩)
    · exact .inr hstart
  · exact .inl h

theorem connections_accept (connections : List Connection) (c : ℕ) :
    (connections ++ [.new])[c]? = connections[c]? ∨
      connections[c]? = none ∧ (connections ++ [.new])[c]? = some .new := by
  rw [List.getElem?_append]
  split_ifs with hc
  · exact .inl rfl
  · cases hn : c - connections.length with
    | zero => exact .inr ⟨List.getElem?_eq_none (by omega), rfl⟩
    | succ n => exact .inl (by simp [List.getElem?_eq_none (Nat.le_of_not_lt hc)])

theorem queue_accept : queue { s with connections := s.connections ++ [.new] } = s.queue := by
  funext c
  rcases connections_accept s.connections c with h | ⟨hnone, hnew⟩
  · simp only [queue, h]
  · simp only [queue, hnone, hnew]
    rfl

theorem moves_accept : s.Moves .accept { s with connections := s.connections ++ [.new] } := by
  refine .outside queue_accept ?_ rfl fun t task h => .inl ?_
  · funext c keyref
    rcases connections_accept s.connections c with h | ⟨hnone, hnew⟩
    · simp only [observes, h]
    · simp only [observes, hnone, hnew, Option.any_some, Option.any_none]
      exact ObservedMask.isObserving_new keyref
  · cases t with
    | connection c =>
      rcases connections_accept s.connections c with hc | ⟨hnone, hnew⟩
      · simpa only [Node.task, hc] using h
      · rw [Node.task, hnew] at h
        cases h
    | _ => exact h

theorem moves_finish {t : TaskId} {goesOn : Bool} {s' : Node} (h : s.finish goesOn t = some s') :
    s.Moves (.act t) s' := by
  cases t with
  | connection c =>
    cases h
    refine moves_stage (fun _ => rfl) (fun _ => rfl) fun conn task htask => ?_
    cases goesOn <;> cases htask
  | voltage =>
    cases h
    refine .outside rfl rfl rfl fun t task ht => ?_
    cases t with
    | voltage => cases ht
    | _ => exact .inl ht
  | mirror j => cases h

theorem moves_receive (c : ℕ) (frame : Option (List UInt8)) :
    s.Moves (.receive c frame) (s.receive c frame) := by
  unfold receive
  cases hmessage : frame.bind readNextMessage with
  | none => exact moves_stage (fun _ => rfl) (fun _ => rfl) fun _ _ htask => by cases htask
  | some message =>
    obtain ⟨bytes, -, hread⟩ := Option.bind_eq_some_iff.mp hmessage
    refine moves_stage (fun _ => rfl) (fun _ => rfl) fun conn task htask => ?_
    cases htask
    exact .inr (.dispatch c message ⟨bytes, hread⟩)

theorem step_moves {l : Label} {s' : Node} (h : s.step l = some s') : s.Moves l s' := by
  cases l with
  | accept =>
    cases h
    exact moves_accept
  | register c =>
    simp only [step] at h
    split at h
    · cases h
      exact moves_stage (fun _ => rfl) (fun _ => rfl) fun _ _ htask => by cases htask
    · cases h
  | receive c frame =>
    simp only [step] at h
    split at h
    · cases h
      exact moves_receive c frame
    · cases h
  | unregister c =>
    simp only [step] at h
    split at h
    · cases h
      exact moves_stage (fun _ => rfl) (fun _ => rfl) fun _ _ htask => by cases htask
    · cases h
  | writerFailed c =>
    cases h
    exact moves_stage (fun _ => rfl) (fun _ => rfl) fun _ _ => .inl
  | second =>
    cases h
    exact .outside rfl rfl rfl fun _ _ => .inl
  | voltageTick =>
    simp only [step] at h
    split at h
    · cases h
      refine .outside rfl rfl rfl fun t task ht => ?_
      cases t with
      | voltage =>
        cases ht
        exact .inr .voltage
      | _ => exact .inl ht
    · cases h
  | act t =>
    simp only [step, act] at h
    split at h
    · cases h
    · rename_i task htask
      split at h
      · exact moves_finish h
      · rename_i e _
        exact nomatch e
      · rename_i o k hprogram
        cases h
        exact .act htask hprogram

def performed (s : Node) (t : TaskId) (task : Task) (o : Op) (k : o.Res → Action Empty Bool) : Node :=
  (s.effect t task o).setTask (s.advance task o k) t

section
variable {t : TaskId} {task : Task} {o : Op} {k : o.Res → Action Empty Bool}

theorem performed_task (htask : s.task t = some task) :
    (s.performed t task o k).task t = some (s.advance task o k) :=
  task_setTask_self _ (s.task_effect_self htask o) _

theorem performed_task_ne {t' : TaskId} {task' : Task} (ht : t' ≠ t)
    (h : s.task t' = some task') : (s.performed t task o k).task t' = some task' := by
  rw [performed, task_setTask_ne _ ht]
  rcases s.task_effect t task o t' with heq | ⟨hnone, -⟩
  · rw [heq, h]
  · rw [h] at hnone
    cases hnone

theorem performed_store {cell : Cell} (ho : ∀ value, o ≠ .swap cell value) :
    (s.performed t task o k).store cell = s.store cell := by
  rw [performed, store_setTask]
  exact s.store_effect_of_ne t task ho

theorem performed_swap {cell : Cell} {value : cell.Value}
    {k : (Op.swap cell value).Res → Action Empty Bool} :
    (s.performed t task (.swap cell value) k).store cell = value := by
  rw [performed, store_setTask]
  exact s.store_effect_swap t task cell value

theorem performed_counters {counter : Counter} (ho : ∀ amount, o ≠ .fetchAdd counter amount) :
    (s.performed t task o k).counters counter = s.counters counter := by
  rw [performed, counters_setTask]
  exact s.counters_effect_of_ne t task ho

theorem performed_fetchAdd {counter : Counter} {amount : UInt64}
    {k : (Op.fetchAdd counter amount).Res → Action Empty Bool} :
    (s.performed t task (.fetchAdd counter amount) k).counters counter =
      s.counters counter + amount := by
  rw [performed, counters_setTask]
  exact s.counters_effect_add t task counter amount

end

/-- What a step that is no request of a task leaves alone. -/
structure Stays (s s' : Node) : Prop where
  queue : s'.queue = s.queue
  store : s'.store = s.store
  counters : s'.counters = s.counters
  busy : ∀ t task, s.task t = some task → task.next ≠ none → s'.task t = some task
  kept : ∀ t task task', s.task t = some task → s'.task t = some task' → task' = task
  connected : s.connections.length ≤ s'.connections.length
  writing : ∀ c < s.connections.length, s'.writing c → s.writing c

theorem writing_modify {c d : ℕ} {f : Connection → Connection}
    (hf : ∀ conn, (f conn).writing → conn.writing) (h : (s.modify c f).writing d) :
    s.writing d := by
  simp only [writing, modify, List.getElem?_modify, Option.any_eq_true] at h ⊢
  obtain ⟨conn, hconn, hwriting⟩ := h
  obtain ⟨old, hold, rfl⟩ := Option.map_eq_some_iff.mp hconn
  refine ⟨old, hold, ?_⟩
  split_ifs at hwriting
  · exact hf old hwriting
  · exact hwriting

theorem task_eq_none {c : ℕ} {stage : Stage}
    (h : (s.connections[c]?).map Connection.stage = some stage)
    (hstage : ∀ task, stage ≠ .dispatching task) : s.task (.connection c) = none := by
  obtain ⟨conn, hconn, rfl⟩ := Option.map_eq_some_iff.mp h
  simp only [Node.task, hconn, Option.bind_some, Connection.task]

theorem stays_stage {c : ℕ} {f : Connection → Connection}
    (hqueue : ∀ conn, (f conn).queue = conn.queue)
    (hwriting : ∀ conn, (f conn).writing → conn.writing)
    (hidle : ∀ task, s.task (.connection c) = some task →
      task.next = none ∧ ∀ conn, (f conn).task = none) : s.Stays (s.modify c f) where
  queue := s.queue_modify_of_eq hqueue
  store := rfl
  counters := rfl
  busy t task htask hnext := by
    rw [task_modify]
    split_ifs with ht
    · subst ht
      exact absurd (hidle task htask).1 hnext
    · exact htask
  kept t task task' htask htask' := by
    rw [task_modify] at htask'
    split_ifs at htask' with ht
    · subst ht
      obtain ⟨conn, -, hstage⟩ := Option.bind_eq_some_iff.mp htask'
      rw [(hidle task htask).2 conn] at hstage
      cases hstage
    · exact Option.some.inj (htask'.symm.trans htask)
  connected := by simp [modify]
  writing _ _ := writing_modify hwriting

theorem stays_tasks {s' : Node} (hqueue : s'.queue = s.queue) (hstore : s'.store = s.store)
    (hcounters : s'.counters = s.counters)
    (htask : ∀ t task, s.task t = some task → s'.task t = some task)
    (hconnected : s.connections.length ≤ s'.connections.length)
    (hwriting : ∀ c < s.connections.length, s'.writing c → s.writing c) : s.Stays s' where
  queue := hqueue
  store := hstore
  counters := hcounters
  busy t task h _ := htask t task h
  kept t task _ h h' := Option.some.inj (h'.symm.trans (htask t task h))
  connected := hconnected
  writing := hwriting

theorem stays_accept : s.Stays { s with connections := s.connections ++ [.new] } := by
  refine stays_tasks queue_accept rfl rfl (fun t task htask => ?_) (by simp) fun c hc h => ?_
  · cases t with
    | connection c =>
      obtain ⟨conn, hconn, hstage⟩ := Option.bind_eq_some_iff.mp htask
      have hc := (List.getElem?_eq_some_iff.mp hconn).1
      simp only [Node.task, List.getElem?_append_left hc, hconn]
      exact hstage
    | _ => exact htask
  · simpa only [Node.writing, List.getElem?_append_left hc] using h

theorem stays_finish {t : TaskId} {task : Task} {goesOn : Bool} {s' : Node}
    (htask : s.task t = some task) (hnext : task.next = none) (h : s.finish goesOn t = some s') :
    s.Stays s' := by
  cases t with
  | connection c =>
    cases h
    have hstage (conn : Connection) : Connection.task { conn with stage :=
        if goesOn then Stage.reading else Stage.closing } = none := by
      cases goesOn <;> rfl
    refine stays_stage (fun _ => rfl) (fun _ => id) fun other hother => ⟨?_, hstage⟩
    rw [htask] at hother
    cases hother
    exact hnext
  | voltage =>
    cases h
    refine ⟨rfl, rfl, rfl, fun t other hother hbusy => ?_, fun t other _ hother hother' => ?_,
      le_rfl, fun _ _ => id⟩
    · cases t with
      | voltage =>
        rw [htask] at hother
        cases hother
        exact absurd hnext hbusy
      | _ => exact hother
    · cases t with
      | voltage => cases hother'
      | _ => exact Option.some.inj (hother'.symm.trans hother)
  | mirror j => cases h

/-- A step is a request of a task, or leaves alone what the tasks work on. -/
theorem step_stays {l : Label} {s' : Node} (h : s.step l = some s') :
    s.Stays s' ∨ ∃ t task o, ∃ k : o.Res → Action Empty Bool, l = .act t ∧ s.task t = some task ∧
      task.program = .act o k ∧ s' = s.performed t task o k := by
  have hstage {c : ℕ} {stage : Stage} {f : Connection → Connection}
      (hconn : (s.connections[c]?).map Connection.stage = some stage)
      (hidle : ∀ task, stage ≠ .dispatching task) (hqueue : ∀ conn, (f conn).queue = conn.queue)
      (hf : ∀ conn, (f conn).writing → conn.writing) : s.Stays (s.modify c f) := by
    apply stays_stage hqueue hf
    intro task htask
    rw [task_eq_none hconn hidle] at htask
    cases htask
  cases l with
  | accept =>
    cases h
    exact .inl stays_accept
  | register c =>
    simp only [step] at h
    split at h
    · rename_i hconn
      cases h
      exact .inl (hstage hconn (fun _ hne => by cases hne) (fun _ => rfl) fun _ => id)
    · cases h
  | receive c frame =>
    simp only [step] at h
    split at h
    · rename_i hconn
      cases h
      unfold receive
      cases frame.bind readNextMessage with
      | none => exact .inl (hstage hconn (fun _ hne => by cases hne) (fun _ => rfl) fun _ => id)
      | some message =>
        exact .inl (hstage hconn (fun _ hne => by cases hne) (fun _ => rfl) fun _ => id)
    · cases h
  | unregister c =>
    simp only [step] at h
    split at h
    · rename_i hconn
      cases h
      exact .inl (hstage hconn (fun _ hne => by cases hne) (fun _ => rfl) fun _ => id)
    · cases h
  | writerFailed c =>
    cases h
    refine .inl (stays_tasks (s.queue_modify_of_eq fun _ => rfl) rfl rfl (fun t task htask => ?_)
      (by simp [modify]) fun _ _ => writing_modify fun _ hfalse => by cases hfalse)
    rw [task_modify_of_eq]
    · exact htask
    · exact fun _ => rfl
  | second =>
    cases h
    exact .inl (stays_tasks rfl rfl rfl (fun _ _ => id) le_rfl fun _ _ => id)
  | voltageTick =>
    simp only [step] at h
    split at h
    · rename_i hvoltage
      cases h
      refine .inl (stays_tasks rfl rfl rfl (fun t task htask => ?_) le_rfl fun _ _ => id)
      cases t with
      | voltage =>
        rw [Node.task, hvoltage] at htask
        cases htask
      | _ => exact htask
    · cases h
  | act t =>
    simp only [step, act] at h
    split at h
    · cases h
    · rename_i task htask
      split at h
      · rename_i goesOn hprogram
        exact .inl (stays_finish htask (by simp [Task.next, hprogram]) h)
      · rename_i e _
        exact nomatch e
      · rename_i o k hprogram
        cases h
        exact .inr ⟨t, task, o, k, rfl, htask, hprogram, rfl⟩

end Node
end Qup.TestNode
