import Qup.TestNode.Mirror

/-!
# Convergence of the mirror

When no write of `mirror_in` is under way and no flush remains, `mirror_out` holds
what `mirror_in` holds, provided that no value was lost on the way: a request that
hands on a value which its source no longer holds needs another task that is still
to hand on the current one. Two writes that cross, a flush that is overtaken between
its copy and its store, and the wrap of the generation are what loses one.
-/

namespace Qup.TestNode
open Foundation Foundation.Program Foundation.Utf8

namespace Node

def mirrorIn (s : Node) : Str := s.store .mirrorIn
def mirrorPending (s : Node) : Str := s.store .mirrorPending
def mirrorOut (s : Node) : Str := s.store .mirrorOut
def mirrorGeneration (s : Node) : UInt64 := s.counters .mirrorGeneration

end Node

/-- The task is to store in `mirror_pending` what `mirror_in` holds then. -/
inductive Task.Renews (current : Str) (task : Task) : Prop where
  | writes (value : Str) (h : task.next = some (.swap .mirrorIn value))
  | stores (h : task.next = some (.swap .mirrorPending current))

/-- The task is to store in `mirror_out` what `mirror_pending` holds then, unless a later
generation takes this over. -/
inductive Task.Flushes (generation : UInt64) (pending : Str) (task : Task) : Prop where
  | writes (value : Str) (h : task.next = some (.swap .mirrorIn value))
  | stores (value : Str) (h : task.next = some (.swap .mirrorPending value))
  | counts (h : task.next = some (.fetchAdd .mirrorGeneration 1))
  | schedules (h : task.next = some (.scheduleMirrorUpdate generation))
  | checks (h : task.program = (Task.background (flushMirrorUpdate generation)).program)
  | copies (h : task.next = some (.load .mirrorPending))
  | publishes (h : task.next = some (.swap .mirrorOut pending))

namespace Node

def Another (s : Node) (t : TaskId) (P : Task → Prop) : Prop :=
  ∃ t' task, t' ≠ t ∧ s.task t' = some task ∧ P task

def isCurrent (stored value : Str) : Bool := stored = value

theorem eq_of_isCurrent {stored value : Str} (h : isCurrent stored value) : stored = value :=
  of_decide_eq_true h

def upToDate (s : Node) : Op → Bool
  | .swap .mirrorPending value => isCurrent s.mirrorIn value
  | .swap .mirrorOut value => isCurrent s.mirrorPending value
  | .fetchAdd .mirrorGeneration _ => s.mirrorGeneration + 1 != 0
  | _ => true

def MadeGood (s : Node) (t : TaskId) : Op → Prop
  | .swap .mirrorPending _ => s.Another t (Task.Renews s.mirrorIn)
  | .swap .mirrorOut _ => s.Another t (Task.Flushes s.mirrorGeneration s.mirrorPending)
  | .fetchAdd .mirrorGeneration _ => s.mirrorOut = s.mirrorPending ∨
      s.Another t (Task.Flushes (s.mirrorGeneration + 1) s.mirrorPending)
  | _ => False

/-- The step loses no value. -/
def Lossless (s : Node) (l : Label) : Prop :=
  ∀ t task o, l = .act t → s.task t = some task → task.next = some o →
    s.upToDate o ∨ s.MadeGood t o

structure Converging (s : Node) : Prop where
  promising : s.Promising
  renewed : s.mirrorPending = s.mirrorIn ∨
    ∃ t task, s.task t = some task ∧ task.Renews s.mirrorIn
  flushed : s.mirrorOut = s.mirrorPending ∨
    ∃ t task, s.task t = some task ∧ task.Flushes s.mirrorGeneration s.mirrorPending

end Node

section
variable {s : Node} {t : TaskId} {task : Task} {o : Op} {k : o.Res → Action Empty Bool}

theorem renewed_performed (hs : s.Converging) (htask : s.task t = some task)
    (hprogram : task.program = .act o k) (ho : s.upToDate o ∨ s.MadeGood t o) {s' : Node}
    (hs' : s' = s.performed t task o k) :
    s'.mirrorPending = s'.mirrorIn ∨ ∃ t task, s'.task t = some task ∧ task.Renews s'.mirrorIn := by
  have hnext : task.next = some o := by simp [Task.next, hprogram]
  have hself : s'.task t = some (s.advance task o k) := hs' ▸ Node.performed_task htask
  have hothers {t' : TaskId} {task' : Task} (hne : t' ≠ t) (h : s.task t' = some task') :
      s'.task t' = some task' := hs' ▸ Node.performed_task_ne hne h
  by_cases hwrites : ∃ value, o = .swap .mirrorIn value
  · obtain ⟨value, rfl⟩ := hwrites
    have hvalue : s'.mirrorIn = value := by
      rw [hs']
      exact Node.performed_swap
    rw [hvalue]
    exact .inr ⟨t, _, hself, .stores (next_advance hs.promising htask hprogram rfl)⟩
  have hin : s'.mirrorIn = s.mirrorIn := by
    rw [hs']
    exact Node.performed_store (not_exists.mp hwrites)
  rw [hin]
  by_cases hstores : ∃ value, o = .swap .mirrorPending value
  · obtain ⟨value, rfl⟩ := hstores
    rcases ho with hcurrent | ⟨t', task', hne, htask', hrenews⟩
    · left
      rw [hs', Node.eq_of_isCurrent hcurrent]
      exact Node.performed_swap
    · exact .inr ⟨t', task', hothers hne htask', hrenews⟩
  have hpending : s'.mirrorPending = s.mirrorPending := by
    rw [hs']
    exact Node.performed_store (not_exists.mp hstores)
  rw [hpending]
  rcases hs.renewed with heq | ⟨t', task', htask', hrenews⟩
  · exact .inl heq
  · refine .inr ⟨t', task', hothers ?_ htask', hrenews⟩
    rintro rfl
    rw [htask] at htask'
    cases htask'
    cases hrenews with
    | writes value h =>
      rw [hnext] at h
      exact hwrites ⟨value, Option.some.inj h⟩
    | stores h =>
      rw [hnext] at h
      exact hstores ⟨_, Option.some.inj h⟩

theorem performed_mirror {generation : UInt64}
    {k : (Op.scheduleMirrorUpdate generation).Res → Action Empty Bool}
    (htask : s.task t = some task) :
    (s.performed t task (.scheduleMirrorUpdate generation) k).task (.mirror s.mirrors.length) =
      some (.background (flushMirrorUpdate generation)) := by
  have hne : TaskId.mirror s.mirrors.length ≠ t := by
    rintro rfl
    have hlt := (List.getElem?_eq_some_iff.mp htask).1
    omega
  rw [Node.performed, Node.task_setTask_ne _ hne]
  simp [Node.effect, Node.task]

theorem flushes_performed (hs : s.Promising) (htask : s.task t = some task)
    (hprogram : task.program = .act o k) (hflushes : task.Flushes s.mirrorGeneration s.mirrorPending)
    (hcounts : ∀ amount, o ≠ .fetchAdd .mirrorGeneration amount)
    (hpublishes : ∀ value, o ≠ .swap .mirrorOut value) {s' : Node}
    (hs' : s' = s.performed t task o k) :
    ∃ t' task', s'.task t' = some task' ∧ task'.Flushes s'.mirrorGeneration s'.mirrorPending := by
  have hnext : task.next = some o := by simp [Task.next, hprogram]
  have hself : s'.task t = some (s.advance task o k) := hs' ▸ Node.performed_task htask
  have hpromise {o' : Op} (ho : promised o (s.answer o) = some o') :
      (s.advance task o k).next = some o' := next_advance hs htask hprogram ho
  have hgeneration : s'.mirrorGeneration = s.mirrorGeneration := by
    rw [hs']
    exact Node.performed_counters hcounts
  have hpending (hne : ∀ value, o ≠ .swap .mirrorPending value) :
      s'.mirrorPending = s.mirrorPending := by
    rw [hs']
    exact Node.performed_store hne
  rw [hgeneration]
  cases hflushes with
  | writes value h =>
    obtain rfl := Option.some.inj (hnext.symm.trans h)
    exact ⟨t, _, hself, .stores value (hpromise rfl)⟩
  | stores value h =>
    obtain rfl := Option.some.inj (hnext.symm.trans h)
    exact ⟨t, _, hself, .counts (hpromise rfl)⟩
  | counts h => exact absurd (Option.some.inj (hnext.symm.trans h)) (hcounts 1)
  | schedules h =>
    obtain rfl := Option.some.inj (hnext.symm.trans h)
    refine ⟨.mirror s.mirrors.length, .background (flushMirrorUpdate s.mirrorGeneration), ?_,
      .checks rfl⟩
    rw [hs']
    exact performed_mirror htask
  | checks h =>
    rw [hprogram] at h
    cases h
    refine ⟨t, _, hself, .copies ?_⟩
    simp [Task.next, Node.advance, Node.answer, Node.mirrorGeneration, Program.bind]
  | copies h =>
    obtain rfl := Option.some.inj (hnext.symm.trans h)
    rw [hpending (fun value heq => by cases heq)]
    exact ⟨t, _, hself, .publishes (hpromise rfl)⟩
  | publishes h => exact absurd (Option.some.inj (hnext.symm.trans h)) (hpublishes _)

theorem flushed_performed (hs : s.Converging) (htask : s.task t = some task)
    (hprogram : task.program = .act o k) (ho : s.upToDate o ∨ s.MadeGood t o) {s' : Node}
    (hs' : s' = s.performed t task o k) :
    s'.mirrorOut = s'.mirrorPending ∨ ∃ t task, s'.task t = some task ∧
      task.Flushes s'.mirrorGeneration s'.mirrorPending := by
  have hself : s'.task t = some (s.advance task o k) := hs' ▸ Node.performed_task htask
  have hothers {t' : TaskId} {task' : Task} (hne : t' ≠ t) (h : s.task t' = some task') :
      s'.task t' = some task' := hs' ▸ Node.performed_task_ne hne h
  have hgeneration (hne : ∀ amount, o ≠ .fetchAdd .mirrorGeneration amount) :
      s'.mirrorGeneration = s.mirrorGeneration := by
    rw [hs']
    exact Node.performed_counters hne
  by_cases hstores : ∃ value, o = .swap .mirrorPending value
  · obtain ⟨value, rfl⟩ := hstores
    exact .inr ⟨t, _, hself, .counts (next_advance hs.promising htask hprogram rfl)⟩
  have hpending : s'.mirrorPending = s.mirrorPending := by
    rw [hs']
    exact Node.performed_store (not_exists.mp hstores)
  rw [hpending]
  by_cases hpublishes : ∃ value, o = .swap .mirrorOut value
  · obtain ⟨value, rfl⟩ := hpublishes
    rcases ho with hcurrent | ⟨t', task', hne, htask', hflushes⟩
    · left
      rw [hs', Node.eq_of_isCurrent hcurrent]
      exact Node.performed_swap
    · rw [hgeneration nofun]
      exact .inr ⟨t', task', hothers hne htask', hflushes⟩
  have hout : s'.mirrorOut = s.mirrorOut := by
    rw [hs']
    exact Node.performed_store (not_exists.mp hpublishes)
  rw [hout]
  by_cases hcounts : ∃ amount, o = .fetchAdd .mirrorGeneration amount
  · obtain ⟨amount, rfl⟩ := hcounts
    obtain rfl : amount = 1 := amount_eq_one hs.promising htask hprogram
    have hnext : s'.mirrorGeneration = s.mirrorGeneration + 1 := by
      rw [hs']
      exact Node.performed_fetchAdd
    rw [hnext]
    rcases ho with hfits | heq | ⟨t', task', hne, htask', hflushes⟩
    · refine .inr ⟨t, _, hself, .schedules ?_⟩
      rw [← saturatingSucc_eq (bne_iff_ne.mp hfits)]
      exact next_advance hs.promising htask hprogram rfl
    · exact .inl heq
    · exact .inr ⟨t', task', hothers hne htask', hflushes⟩
  rcases hs.flushed with heq | ⟨t', task', htask', hflushes⟩
  · exact .inl heq
  by_cases hne : t' = t
  · subst hne
    rw [htask] at htask'
    cases htask'
    rw [← hpending]
    exact .inr (flushes_performed hs.promising htask hprogram hflushes (not_exists.mp hcounts)
      (not_exists.mp hpublishes) hs')
  · rw [hgeneration (not_exists.mp hcounts)]
    exact .inr ⟨t', task', hothers hne htask', hflushes⟩

end

theorem converging_initial (seed : UInt64) : (Node.initial seed).Converging where
  promising := promising_initial seed
  renewed := .inl rfl
  flushed := .inl rfl

theorem Task.Renews.busy {current : Str} {task : Task} (h : task.Renews current) :
    task.next ≠ none := by
  cases h with
  | writes value h => simp [h]
  | stores h => simp [h]

theorem Task.Flushes.busy {generation : UInt64} {pending : Str} {task : Task}
    (h : task.Flushes generation pending) : task.next ≠ none := by
  cases h with
  | checks h =>
    rw [Task.next, h]
    exact fun hnone => by cases hnone
  | _ => simp_all

theorem converging_step {s s' : Node} {l : Label} (hs : s.Converging) (hl : s.Lossless l)
    (h : s.step l = some s') : s'.Converging := by
  have hpromising := promising_step hs.promising h
  rcases Node.step_stays h with hstays | ⟨t, task, o, k, rfl, htask, hprogram, hs'⟩
  · have hin : s'.mirrorIn = s.mirrorIn := congrFun hstays.store _
    have hpending : s'.mirrorPending = s.mirrorPending := congrFun hstays.store _
    have hout : s'.mirrorOut = s.mirrorOut := congrFun hstays.store _
    have hgeneration : s'.mirrorGeneration = s.mirrorGeneration := congrFun hstays.counters _
    refine ⟨hpromising, ?_, ?_⟩
    · rw [hin, hpending]
      rcases hs.renewed with heq | ⟨t, task, htask, hrenews⟩
      · exact .inl heq
      · exact .inr ⟨t, task, hstays.busy t task htask hrenews.busy, hrenews⟩
    · rw [hout, hpending, hgeneration]
      rcases hs.flushed with heq | ⟨t, task, htask, hflushes⟩
      · exact .inl heq
      · exact .inr ⟨t, task, hstays.busy t task htask hflushes.busy, hflushes⟩
  · have ho := hl t task o rfl htask (by simp [Task.next, hprogram])
    exact ⟨hpromising, renewed_performed hs htask hprogram ho hs',
      flushed_performed hs htask hprogram ho hs'⟩

/-- No write of `mirror_in` is under way and no flush remains. -/
def Node.MirrorRests (s : Node) : Prop :=
  ∀ t task, s.task t = some task → Concerned t task.request → task.next = none

theorem Task.Renews.mirrors {current : Str} {task : Task} (h : task.Renews current) :
    ∃ o, task.next = some o ∧ o.mirrors := by
  cases h with
  | writes value h => exact ⟨_, h, rfl⟩
  | stores h => exact ⟨_, h, rfl⟩

theorem Task.Flushes.mirrors {generation : UInt64} {pending : Str} {task : Task}
    (h : task.Flushes generation pending) : ∃ o, task.next = some o ∧ o.mirrors := by
  cases h with
  | checks h =>
    refine ⟨.loadCounter .mirrorGeneration, ?_, rfl⟩
    rw [Task.next, h]
    rfl
  | writes value h => exact ⟨_, h, rfl⟩
  | stores value h => exact ⟨_, h, rfl⟩
  | counts h => exact ⟨_, h, rfl⟩
  | schedules h => exact ⟨_, h, rfl⟩
  | copies h => exact ⟨_, h, rfl⟩
  | publishes h => exact ⟨_, h, rfl⟩

theorem Node.Converging.mirrorOut_eq {s : Node} (hs : s.Converging) (hrests : s.MirrorRests) :
    s.mirrorOut = s.mirrorIn := by
  have hidle {t : TaskId} {task : Task} (htask : s.task t = some task)
      (h : ∃ o, task.next = some o ∧ o.mirrors) : False := by
    obtain ⟨o, hnext, ho⟩ := h
    have hnone := hrests t task htask (concerned_of_mirrors hs.promising htask hnext ho)
    rw [hnext] at hnone
    cases hnone
  have hpending : s.mirrorPending = s.mirrorIn := by
    rcases hs.renewed with heq | ⟨t, task, htask, hrenews⟩
    · exact heq
    · exact absurd hrenews.mirrors (hidle htask)
  rcases hs.flushed with heq | ⟨t, task, htask, hflushes⟩
  · exact heq.trans hpending
  · exact absurd hflushes.mirrors (hidle htask)

inductive Telling where
  | idle
  | changed
  | listed
  | asked
  deriving DecidableEq

def Telling.after (c : ℕ) : Telling → (o : Op) → o.Res → Telling
  | .idle, .swap .mirrorOut value, previous => if previous = value then .idle else .changed
  | .changed, .connections, connections => if c ∈ connections then .listed else .idle
  | .listed, .isObserving d keyref, observing =>
    if d = c ∧ keyref = keyMirrorOut then bif observing then .asked else .idle else .listed
  | .asked, .send _ _, _ => .idle
  | telling, _, _ => telling

def Telling.Allows (c : ℕ) : Telling → Op → Prop
  | .changed, o => o = .connections
  | .asked, o => o = .send c (encodeChanged keyMirrorOut)
  | _, _ => True

def tells (c : ℕ) : Discipline Op.Res Telling where
  allows := Telling.Allows c
  next := Telling.after c

section
variable {c : ℕ}

theorem tells_unconcerned : Unconcerned (tells c) .idle := by
  intro o ho
  refine ⟨trivial, fun r => ?_⟩
  cases o with
  | swap cell value => cases cell <;> first | rfl | cases ho
  | _ => rfl

theorem notifyAll_tells {connections : List ℕ} (hc : c ∈ connections) :
    (notifyAll keyMirrorOut connections : Action Empty Unit).Follows (tells c) (Settles .idle)
      .listed := by
  induction connections with
  | nil => cases hc
  | cons d connections ih =>
    refine ⟨trivial, fun observing => ?_⟩
    by_cases hd : d = c
    · subst hd
      have hrest := @notifyAll_settles _ Empty _ _ (@tells_unconcerned d) keyMirrorOut connections
      have hnext : (tells d).next .listed (.isObserving d keyMirrorOut) observing =
          bif observing then .asked else .idle := if_pos ⟨rfl, rfl⟩
      rw [hnext]
      cases observing with
      | false => exact hrest
      | true => exact ⟨rfl, fun _ => hrest⟩
    · have hmem : c ∈ connections := by
        rcases List.mem_cons.mp hc with rfl | hmem
        · exact absurd rfl hd
        · exact hmem
      have hnext : (tells c).next .listed (.isObserving d keyMirrorOut) observing = .listed :=
        if_neg fun h => hd h.1
      rw [hnext]
      cases observing with
      | false => exact ih hmem
      | true => exact ⟨trivial, fun _ => ih hmem⟩

theorem broadcastChanged_tells :
    (broadcastChanged keyMirrorOut : Action Empty Unit).Follows (tells c) (Settles .idle)
      .changed := by
  refine ⟨rfl, fun connections => ?_⟩
  by_cases hc : c ∈ connections
  · have hnext : (tells c).next .changed .connections connections = .listed := if_pos hc
    rw [hnext]
    exact notifyAll_tells hc
  · have hnext : (tells c).next .changed .connections connections = .idle := if_neg hc
    rw [hnext]
    exact notifyAll_settles tells_unconcerned keyMirrorOut connections

theorem published_tells (previous value : Str) :
    (if previous != value then broadcastChanged keyMirrorOut else pure () :
      Action Empty Unit).Follows (tells c) (Settles .idle)
        (if previous = value then .idle else .changed) := by
  by_cases heq : previous = value
  · have hsame : ¬ (previous != value) = true := by simp [heq]
    rw [if_neg hsame, if_pos heq]
    exact ret_settles ()
  · rw [if_pos (bne_iff_ne.mpr heq), if_neg heq]
    exact broadcastChanged_tells

theorem flushMirrorUpdate_tells (generation : UInt64) :
    (flushMirrorUpdate generation : Action Empty Unit).Follows (tells c) (Settles .idle)
      .idle := by
  refine ⟨trivial, fun current => ?_⟩
  apply follows_ite (fun _ => ret_settles _)
  intro _
  exact ⟨trivial, fun value => ⟨trivial, fun previous => published_tells previous value⟩⟩

theorem starts_tells {t : TaskId} {task : Task} (h : Starts t task) :
    task.program.Follows (tells c) (Settles .idle) .idle := by
  apply starts_settles tells_unconcerned h
  · intro _ _ value
    exact ⟨trivial, fun _ => ⟨trivial, fun _ => ⟨trivial, fun _ => ⟨trivial, fun _ => rfl⟩⟩⟩⟩
  · exact fun _ _ => flushMirrorUpdate_tells

def Node.Tells (c : ℕ) (s : Node) : Prop :=
  ∀ t task, s.task t = some task →
    ∃ telling, task.program.Follows (tells c) (Settles .idle) telling

theorem tells_initial (seed : UInt64) : (Node.initial seed).Tells c := by
  intro t task h
  cases t <;> simp [Node.initial, Node.task] at h

theorem tells_step {s s' : Node} {l : Label} (hs : s.Tells c) (h : s.step l = some s') :
    s'.Tells c := by
  intro t task ht
  cases Node.step_moves h with
  | outside _ _ _ htask =>
    rcases htask t task ht with hold | hstart
    · exact hs t task hold
    · exact ⟨.idle, starts_tells hstart⟩
  | @act t' task' o k htask hprogram =>
    rcases Node.task_act s htask ht with ⟨rfl, rfl⟩ | ⟨_, hold | hstart⟩
    · obtain ⟨telling, hfollows⟩ := hs t task' htask
      rw [hprogram] at hfollows
      exact ⟨_, hfollows.2 _⟩
    · exact hs t task hold
    · exact ⟨.idle, starts_tells hstart⟩

def Node.Listens (s : Node) (c : ℕ) : Prop :=
  (s.connections[c]?).any Connection.registered ∧ s.writing c ∧ s.observes c keyMirrorOut

instance (s : Node) (c : ℕ) : Decidable (s.Listens c) :=
  inferInstanceAs (Decidable (_ ∧ _ ∧ _))

/-- Since its queue was `n` frames long, the connection has been told of the change, or
task `t` is still to tell it. -/
structure Node.Told (c n : ℕ) (t : TaskId) (s : Node) : Prop where
  queue : n ≤ (s.queue c).length
  told : (∃ entry ∈ (s.queue c).drop n, entry.frame = encodeChanged keyMirrorOut) ∨
    ∃ task telling, s.task t = some task ∧ Concerned t task.request ∧ telling ≠ .idle ∧
      task.program.Follows (tells c) (Settles .idle) telling

section
variable {n : ℕ} {t : TaskId} {s : Node}

theorem told_queue {queue more : List Sent} (hn : n ≤ queue.length)
    (h : ∃ entry ∈ queue.drop n, entry.frame = encodeChanged keyMirrorOut) :
    ∃ entry ∈ (queue ++ more).drop n, entry.frame = encodeChanged keyMirrorOut := by
  obtain ⟨entry, hentry, hframe⟩ := h
  rw [List.drop_append_of_le_length hn]
  exact ⟨entry, List.mem_append_left _ hentry, hframe⟩

theorem busy_of_telling {task : Task} {telling : Telling} (htelling : telling ≠ .idle)
    (h : task.program.Follows (tells c) (Settles .idle) telling) : task.next ≠ none := by
  unfold Task.next
  cases hprogram : task.program with
  | ret a =>
    rw [hprogram] at h
    exact absurd h htelling
  | fail e => cases e
  | act o k => exact fun hnone => by cases hnone

theorem telling_performed {task : Task} {telling : Telling} {o : Op}
    {k : o.Res → Action Empty Bool} (hlistens : s.Listens c)
    (hprogram : task.program = .act o k) (htelling : telling ≠ .idle)
    (hfollows : task.program.Follows (tells c) (Settles .idle) telling) :
    telling.after c o (s.answer o) ≠ .idle ∨ o = .send c (encodeChanged keyMirrorOut) := by
  rw [hprogram] at hfollows
  have hallows := hfollows.1
  obtain ⟨hregistered, hwriting, hobserves⟩ := hlistens
  cases telling with
  | idle => exact absurd rfl htelling
  | changed =>
    obtain rfl : o = .connections := hallows
    left
    have hlt : c < s.connections.length := by
      rw [Option.any_eq_true] at hregistered
      obtain ⟨conn, hconn, _⟩ := hregistered
      exact (List.getElem?_eq_some_iff.mp hconn).1
    have hmem : c ∈ s.answer .connections :=
      List.mem_filter.mpr ⟨List.mem_range.mpr hlt, hregistered⟩
    simp [Telling.after, hmem]
  | listed =>
    left
    cases o with
    | isObserving d keyref =>
      by_cases hd : d = c ∧ keyref = keyMirrorOut
      · obtain ⟨rfl, rfl⟩ := hd
        simp [Telling.after, Node.answer, hobserves]
      · simp [Telling.after, hd]
    | _ => exact fun h => by cases h
  | asked => exact .inr hallows

theorem told_step {s' : Node} {l : Label} (hs : s.Told c n t) (hlistens : s.Listens c)
    (h : s.step l = some s') : s'.Told c n t := by
  obtain ⟨hn, htold⟩ := hs
  rcases Node.step_stays h with hstays | ⟨t', task', o, k, rfl, htask', hprogram, rfl⟩
  · refine ⟨by rwa [hstays.queue], ?_⟩
    rw [hstays.queue]
    rcases htold with htold | ⟨task, telling, htask, hconcerned, htelling, hfollows⟩
    · exact .inl htold
    · have hbusy := busy_of_telling htelling hfollows
      exact .inr ⟨task, telling, hstays.busy t task htask hbusy, hconcerned, htelling, hfollows⟩
  · obtain ⟨more, hmore⟩ : ∃ more, (s.performed t' task' o k).queue c = s.queue c ++ more := by
      rw [Node.performed, Node.queue_setTask]
      rcases s.queue_effect_cases t' task' o c with hsame | ⟨frame, -, -, hput⟩
      · exact ⟨[], by simpa using hsame⟩
      · exact ⟨_, hput⟩
    refine ⟨by rw [hmore, List.length_append]; omega, ?_⟩
    rcases htold with htold | ⟨task, telling, htask, hconcerned, htelling, hfollows⟩
    · rw [hmore]
      exact .inl (told_queue hn htold)
    by_cases ht : t = t'
    · subst ht
      rw [htask'] at htask
      cases htask
      rcases telling_performed hlistens hprogram htelling hfollows with hstill | rfl
      · rw [hprogram] at hfollows
        exact .inr ⟨_, _, Node.performed_task htask', hconcerned, hstill, hfollows.2 _⟩
      · left
        rw [Node.performed, Node.queue_setTask, Node.queue_send s hlistens.2.1,
          List.drop_append_of_le_length hn]
        exact ⟨_, List.mem_append_right _ (List.mem_singleton_self _), rfl⟩
    · exact .inr ⟨task, telling, Node.performed_task_ne ht htask, hconcerned, htelling, hfollows⟩

theorem Node.Told.announced (hs : s.Told c n t) (hrests : s.MirrorRests) :
    ∃ entry ∈ (s.queue c).drop n, entry.frame = encodeChanged keyMirrorOut := by
  rcases hs.told with htold | ⟨task, telling, htask, hconcerned, htelling, hfollows⟩
  · exact htold
  · exact absurd (hrests t task htask hconcerned) (busy_of_telling htelling hfollows)

theorem told_of_changed {s' : Node} {l : Label} (hpromising : s.Promising) (htells : s.Tells c)
    (h : s.step l = some s') (hchanged : s'.mirrorOut ≠ s.mirrorOut) :
    ∃ t, s'.Told c (s'.queue c).length t := by
  rcases Node.step_stays h with hstays | ⟨t, task, o, k, rfl, htask, hprogram, rfl⟩
  · exact absurd (congrFun hstays.store _) hchanged
  by_cases hpublishes : ∃ value, o = .swap .mirrorOut value
  · obtain ⟨value, rfl⟩ := hpublishes
    have hnext : task.next = some (.swap .mirrorOut value) := by simp [Task.next, hprogram]
    have hconcerned := concerned_of_mirrors hpromising htask hnext rfl
    obtain ⟨telling, hfollows⟩ := htells t task htask
    rw [hprogram] at hfollows
    refine ⟨t, le_rfl, .inr ⟨_, _, Node.performed_task htask, hconcerned, ?_, hfollows.2 _⟩⟩
    cases telling with
    | idle =>
      have hne : s.mirrorOut ≠ value := by
        rintro rfl
        exact hchanged Node.performed_swap
      exact fun hidle => by
        rw [show (tells c).next .idle (.swap .mirrorOut value) (s.answer _) = .changed from
          if_neg hne] at hidle
        cases hidle
    | changed => cases hfollows.1
    | listed => exact fun hidle => by cases hidle
    | asked => cases hfollows.1
  · exact absurd (Node.performed_store (not_exists.mp hpublishes)) hchanged

end
end

/-- In a run that loses no value, whenever the mirror rests `mirror_out` holds what `mirror_in`
holds, and who has listened since a change has been told of it. -/
theorem mirror_converges {seed : UInt64} {ls : List Label} {s : Node}
    (hrun : Path Node.step Node.Lossless (Node.initial seed) ls s) (hrests : s.MirrorRests) :
    s.mirrorOut = s.mirrorIn ∧
      ∀ s₀ l s₁ after c, Reachable Node.step (Node.initial seed) s₀ → s₀.step l = some s₁ →
        s₁.mirrorOut ≠ s₀.mirrorOut → Path Node.step (fun u _ => u.Listens c) s₁ after s →
          ∃ entry ∈ (s.queue c).drop (s₁.queue c).length,
            entry.frame = encodeChanged keyMirrorOut := by
  have hs : s.Converging := hrun.invariant Node.Converging (converging_initial seed)
    fun u l v hu hl hstep => converging_step hu hl hstep
  refine ⟨hs.mirrorOut_eq hrests, fun s₀ l s₁ after c hreach hstep hchanged hpath => ?_⟩
  have hpromising : s₀.Promising := hreach.invariant Node.Promising (promising_initial seed)
    fun u l v hu hstep => promising_step hu hstep
  have htells : s₀.Tells c := hreach.invariant (Node.Tells c) (tells_initial seed)
    fun u l v hu hstep => tells_step hu hstep
  obtain ⟨t, htold⟩ := told_of_changed hpromising htells hstep hchanged
  have hlast : s.Told c (s₁.queue c).length t :=
    hpath.invariant (Node.Told c (s₁.queue c).length t) htold
      fun u l v hu hlistens hstep => told_step hu hlistens hstep
  exact hlast.announced hrests

def Node.InStep (s : Node) : Label → Prop
  | .act t => ∀ task ∈ s.task t, ∀ o ∈ task.next, s.upToDate o
  | _ => True

theorem Node.InStep.lossless {s : Node} {l : Label} (h : s.InStep l) : s.Lossless l := by
  rintro t task o rfl htask hnext
  exact .inl (h task htask o hnext)

instance (s : Node) (l : Label) : Decidable (s.InStep l) :=
  match l with
  | .act t => inferInstanceAs (Decidable (∀ task ∈ s.task t, ∀ o ∈ task.next, s.upToDate o))
  | .accept | .register _ | .receive _ _ | .unregister _ | .writerFailed _ | .second
  | .voltageTick => instDecidableTrue

theorem mirrorRests_of_tasks {s : Node} (h : s.tasks.all fun task => task.next.isNone) :
    s.MirrorRests := by
  intro t task htask _
  exact Option.isNone_iff_eq_none.mp (List.all_eq_true.mp h task (s.mem_tasks htask))

def writing (c : ℕ) (value : Str) : Label := .request c (.write keyMirrorIn (.str value))

def flushing : List Label :=
  [.accept, .accept, .register 0, .register 1, .request 0 (.observe keyMirrorOut)] ++
    List.replicate 3 (.act (.connection 0)) ++ [writing 1 nodeId] ++
    List.replicate 6 (.act (.connection 1)) ++ List.replicate 2 (.act (.mirror 0))

def publishing : Label := .act (.mirror 0)

def telling : List Label := List.replicate 4 publishing

theorem mirror_converges_written : ∃ ls s, Path Node.step Node.Lossless (Node.initial 0) ls s ∧
    s.MirrorRests ∧ s.mirrorIn = nodeId ∧ s.mirrorOut = nodeId ∧
      ∃ entry ∈ s.queue 0, entry.frame = encodeChanged keyMirrorOut := by
  have hrun : ((runLabels (fun s l => if s.InStep l then Node.step s l else none) (Node.initial 0)
      flushing).bind fun s₀ => (Node.step s₀ publishing).bind fun s₁ =>
        (runLabels (fun s l => if s.InStep l ∧ s.Listens 0 then Node.step s l else none) s₁
          telling).map fun s => decide (s₀.InStep publishing ∧ s₁.mirrorOut ≠ s₀.mirrorOut ∧
            s.tasks.all (fun task => task.next.isNone) ∧ s.mirrorIn = nodeId)) = some true := by
    decide +kernel
  obtain ⟨s₀, hfirst, hrun⟩ := Option.bind_eq_some_iff.mp hrun
  obtain ⟨s₁, hstep, hrun⟩ := Option.bind_eq_some_iff.mp hrun
  obtain ⟨s, hlast, hfacts⟩ := Option.map_eq_some_iff.mp hrun
  obtain ⟨hin, hchanged, htasks, hvalue⟩ := of_decide_eq_true hfacts
  have hflushing := (Path.of_guarded hfirst).mono fun _ _ => Node.InStep.lossless
  have htelling := Path.of_guarded hlast
  have hbefore := Foundation.Path.trans hflushing (.one hin.lossless hstep)
  have hpath := hbefore.trans (htelling.mono fun _ _ h => h.1.lossless)
  have hrests := mirrorRests_of_tasks htasks
  obtain ⟨hout, htold⟩ := mirror_converges hpath hrests
  obtain ⟨entry, hentry, hframe⟩ := htold s₀ publishing s₁ telling 0
    ⟨_, hflushing.mono fun _ _ _ => trivial⟩ hstep hchanged (htelling.mono fun _ _ h => h.2)
  exact ⟨_, s, hpath, hrests, hvalue, hout.trans hvalue, entry, List.mem_of_mem_drop hentry, hframe⟩

/-- Connections 0 and 1 write `mirror_in`; the second value gets there last, the first one stays
in `mirror_pending`. -/
def crossing : List Label :=
  [.accept, .accept, .register 0, .register 1, writing 0 nodeId, writing 1 caps,
    .act (.connection 0)] ++ List.replicate 6 (.act (.connection 1)) ++
    List.replicate 5 (.act (.connection 0)) ++ List.replicate 1 (.act (.mirror 0)) ++
    List.replicate 6 (.act (.mirror 1))

theorem mirror_diverges : ¬ ∀ (seed : UInt64) (s : Node),
    Reachable Node.step (Node.initial seed) s → s.MirrorRests → s.mirrorOut = s.mirrorIn := by
  intro hall
  have hrun : (runLabels Node.step (Node.initial 0) crossing).map (fun s =>
      decide (s.tasks.all (fun task => task.next.isNone) ∧ s.mirrorOut ≠ s.mirrorIn)) =
        some true := by decide +kernel
  obtain ⟨s, hs, hfacts⟩ := Option.map_eq_some_iff.mp hrun
  obtain ⟨htasks, hdiffer⟩ := of_decide_eq_true hfacts
  exact hdiffer (hall 0 s (.of_runLabels hs) (mirrorRests_of_tasks htasks))

end Qup.TestNode
