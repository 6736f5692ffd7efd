import Qup.Embassy.TypedKey
import Qup.Foundation.Transition
import Qup.Foundation.EventLog

/-!
# Tasks inside `Key::next`

One key, any number of contexts that update it and any number of tasks inside
`next`, each access to the key being one step. The change signal is a one-slot
latch: whoever waits takes it and clears it, so a task can take a signal that
was set for another one.
-/

namespace Qup.Embassy
open Foundation

variable {T : Type}

inductive Update where
  | bump
  | ring
  | lookup
  | notify
  | done
  deriving DecidableEq

def Update.Rings : Update → Prop
  | .bump | .ring => True
  | .lookup | .notify | .done => False

instance : DecidablePred Update.Rings := fun u => by
  cases u <;> simp only [Update.Rings] <;> infer_instance

def Update.step (k : TypedKey T) : Update → Option (Update × TypedKey T)
  | .bump => some (.ring, k.fetchAddGeneration)
  | .ring => some (if !k.perm.observable then .done else .lookup, k.signalChange)
  | .lookup => some (if k.notifier.isSome then .notify else .done, k)
  | .notify => some (.done, k.signalNotifier)
  | .done => none

inductive Waiter (T : Type) where
  | start
  | waiting (observed : UInt32)
  | compare (observed : UInt32)
  | read
  | returned (value : T)
  deriving DecidableEq

def Waiter.step (k : TypedKey T) : Waiter T → Option (Waiter T × TypedKey T)
  | .start => some (.waiting k.generation, k)
  | .waiting g =>
    -- a wait that finds the latch clear suspends
    if k.changeSignal then some (.compare g, { k with changeSignal := false }) else none
  | .compare g => some (if k.generation ≠ g then .read else .waiting g, k)
  | .read => some (.returned k.value, k)
  | .returned _ => none

def Waiter.Suspended : Waiter T → Prop
  | .waiting _ => True
  | _ => False

def Waiter.Recorded (generation : UInt32) : Waiter T → Prop
  | .waiting g => generation = g
  | _ => True

instance : DecidablePred (Waiter.Suspended (T := T)) := fun w => by
  cases w <;> simp only [Waiter.Suspended] <;> infer_instance

instance (generation : UInt32) : DecidablePred (Waiter.Recorded (T := T) generation) := fun w => by
  cases w <;> simp only [Waiter.Recorded] <;> infer_instance

inductive KeyEvent (T : Type) where
  | stored (value : T)
  | bumped
  | recorded (task : ℕ) (generation : UInt32)
  | returned (task : ℕ) (value : T)

structure Waiting (T : Type) where
  key : TypedKey T
  updates : List Update
  waiters : List (Waiter T)
  log : List (KeyEvent T)

inductive WaitingLabel (T : Type) where
  | store (value : T)
  | update (j : ℕ)
  | enter
  | waiter (j : ℕ)

namespace Waiting

def initial (key : TypedKey T) : Waiting T := ⟨key, [], [], []⟩

def updateEvent : Update → List (KeyEvent T)
  | .bump => [.bumped]
  | _ => []

def waiterEvent (k : TypedKey T) (j : ℕ) : Waiter T → List (KeyEvent T)
  | .start => [.recorded j k.generation]
  | .read => [.returned j k.value]
  | _ => []

def step (impl : ValueImpl T) (s : Waiting T) : WaitingLabel T → Option (Waiting T)
  | .store value =>
    match impl.validate value with
    | .error _ => none
    | .ok () => some { s with
        key := s.key.storeValue value
        updates := s.updates ++ [.bump]
        log := .stored value :: s.log }
  | .update j =>
    match s.updates[j]? with
    | none => none
    | some u => (u.step s.key).map fun (u', key) =>
      { s with key := key, updates := s.updates.set j u', log := updateEvent u ++ s.log }
  | .enter => some { s with waiters := s.waiters ++ [.start] }
  | .waiter j =>
    match s.waiters[j]? with
    | none => none
    | some w => (w.step s.key).map fun (w', key) =>
      { s with key := key, waiters := s.waiters.set j w', log := waiterEvent s.key j w ++ s.log }

/-- No task sleeps over an update once the updates in progress are over. -/
def Heard (s : Waiting T) : Prop :=
  (∀ u ∈ s.updates, u = .done) → s.key.changeSignal = false →
    ∀ (j : ℕ) (g : UInt32), s.waiters[j]? = some (.waiting g) → s.key.generation = g

def held (value : T) : List (KeyEvent T) → T
  | [] => value
  | .stored v :: _ => v
  | _ :: log => held value log

def Overtaken (j : ℕ) (log : List (KeyEvent T)) : Prop :=
  ∃ between before g, log = between ++ .bumped :: before ∧ .recorded j g ∈ before

def Returns (value : T) : KeyEvent T → List (KeyEvent T) → Prop
  | .returned j v, log => v = held value log ∧ Overtaken j log
  | _, _ => True

/-- The step does not take a signal that another task still needs: an update
will set it again, or every other suspended task has recorded the current
generation. -/
def Spares (s : Waiting T) : WaitingLabel T → Prop
  | .waiter j => (∃ g, s.waiters[j]? = some (.waiting g)) → (∃ u ∈ s.updates, u.Rings) ∨
      ∀ (j' : ℕ) (g' : UInt32), j' ≠ j → s.waiters[j']? = some (.waiting g') →
        s.key.generation = g'
  | _ => True

section
variable {impl : ValueImpl T} {s s' : Waiting T} {l : WaitingLabel T} {value : T}

inductive Steps (impl : ValueImpl T) (s : Waiting T) : WaitingLabel T → Waiting T → Prop where
  | store (value : T) (hvalid : impl.validate value = .ok ()) :
      Steps impl s (.store value) { s with
        key := s.key.storeValue value
        updates := s.updates ++ [.bump]
        log := .stored value :: s.log }
  | update (j : ℕ) (u u' : Update) (key : TypedKey T) (hj : s.updates[j]? = some u)
      (hu : u.step s.key = some (u', key)) :
      Steps impl s (.update j)
        { s with key := key, updates := s.updates.set j u', log := updateEvent u ++ s.log }
  | enter : Steps impl s .enter { s with waiters := s.waiters ++ [.start] }
  | waiter (j : ℕ) (w w' : Waiter T) (key : TypedKey T) (hj : s.waiters[j]? = some w)
      (hw : w.step s.key = some (w', key)) :
      Steps impl s (.waiter j)
        { s with key := key, waiters := s.waiters.set j w', log := waiterEvent s.key j w ++ s.log }

theorem step_cases (h : s.step impl l = some s') : Steps impl s l s' := by
  cases l with
  | store value =>
    simp only [step] at h
    cases hv : impl.validate value with
    | error e => simp [hv] at h
    | ok u =>
      rw [hv] at h
      cases h
      exact .store value hv
  | update j =>
    simp only [step] at h
    cases hj : s.updates[j]? with
    | none => simp [hj] at h
    | some u =>
      rw [hj] at h
      obtain ⟨⟨u', key⟩, hu, rfl⟩ := Option.map_eq_some_iff.mp h
      exact .update j u u' key hj hu
  | enter =>
    cases h
    exact .enter
  | waiter j =>
    simp only [step] at h
    cases hj : s.waiters[j]? with
    | none => simp [hj] at h
    | some w =>
      rw [hj] at h
      obtain ⟨⟨w', key⟩, hw, rfl⟩ := Option.map_eq_some_iff.mp h
      exact .waiter j w w' key hj hw

theorem rings_set {updates : List Update} {j : ℕ} {u u' : Update} (hj : updates[j]? = some u)
    (hkeep : u.Rings → u'.Rings) (h : ∃ u ∈ updates, u.Rings) :
    ∃ u ∈ updates.set j u', u.Rings := by
  obtain ⟨v, hv, hrings⟩ := h
  obtain ⟨i, hi⟩ := List.mem_iff_getElem?.mp hv
  have hlt := (List.getElem?_eq_some_iff.mp hj).1
  by_cases hij : j = i
  · subst hij
    have hvu : v = u := Option.some.inj (hi.symm.trans hj)
    exact ⟨u', List.mem_iff_getElem?.mpr ⟨j, List.getElem?_set_self hlt⟩, hkeep (hvu ▸ hrings)⟩
  · exact ⟨v, List.mem_iff_getElem?.mpr ⟨i, by rw [List.getElem?_set_ne hij, hi]⟩, hrings⟩

/-- A suspended task that an update has overtaken has a signal coming. -/
def Alert (s : Waiting T) : Prop :=
  ∀ (j : ℕ) (g : UInt32), s.waiters[j]? = some (.waiting g) → s.key.generation ≠ g →
    s.key.changeSignal = true ∨ ∃ u ∈ s.updates, u.Rings

theorem Alert.heard (h : Alert s) : Heard s := by
  intro hdone hclear j g hj
  by_contra hne
  rcases h j g hj hne with hset | ⟨u, hu, hrings⟩
  · rw [hclear] at hset
    cases hset
  · rw [hdone u hu] at hrings
    exact hrings

theorem Alert.update (h : Alert s) {j : ℕ} {u u' : Update} {key : TypedKey T}
    (hj : s.updates[j]? = some u) (hu : u.step s.key = some (u', key))
    (log : List (KeyEvent T)) :
    Alert { s with key := key, updates := s.updates.set j u', log := log } := by
  have hlt := (List.getElem?_eq_some_iff.mp hj).1
  have hmem : u' ∈ s.updates.set j u' := List.mem_iff_getElem?.mpr ⟨j, List.getElem?_set_self hlt⟩
  intro i g hi hne
  cases u with
  | bump =>
    cases hu
    exact Or.inr ⟨_, hmem, trivial⟩
  | ring =>
    cases hu
    exact Or.inl rfl
  | lookup =>
    cases hu
    exact (h i g hi hne).imp id (rings_set hj fun h => h.elim)
  | notify =>
    cases hu
    exact (h i g hi hne).imp id (rings_set hj fun h => h.elim)
  | done => cases hu

theorem Alert.step (h : Alert s) (hspares : Spares s l) (hstep : s.step impl l = some s') :
    Alert s' := by
  cases step_cases hstep with
  | store value hvalid =>
    intro j g hj hne
    exact Or.inr ⟨.bump, List.mem_append_right _ (List.mem_singleton_self _), trivial⟩
  | update j u u' key hj hu => exact h.update hj hu _
  | enter =>
    intro j g hj hne
    change (s.waiters ++ [.start])[j]? = _ at hj
    rw [List.getElem?_append] at hj
    split_ifs at hj
    · exact h j g hj hne
    · rw [List.getElem?_singleton] at hj
      split_ifs at hj
      cases hj
  | waiter j w w' key hj hw =>
    have hlt := (List.getElem?_eq_some_iff.mp hj).1
    intro i g hi hne
    change (s.waiters.set j w')[i]? = _ at hi
    by_cases hij : j = i
    · subst hij
      rw [List.getElem?_set_self hlt] at hi
      obtain rfl := Option.some.inj hi
      cases w with
      | start =>
        cases hw
        exact absurd rfl hne
      | waiting g' =>
        simp only [Waiter.step] at hw
        split_ifs at hw
        cases hw
      | compare g' =>
        simp only [Waiter.step] at hw
        split_ifs at hw with hcmp
        · cases hw
        · cases hw
          exact absurd (not_not.mp hcmp) hne
      | read => cases hw
      | returned v => cases hw
    · rw [List.getElem?_set_ne hij] at hi
      cases w with
      | waiting g' =>
        simp only [Waiter.step] at hw
        split_ifs at hw with hset
        cases hw
        -- the signal is gone; whoever still needs it is spared
        rcases hspares ⟨g', hj⟩ with hrings | hcurrent
        · exact Or.inr hrings
        · exact absurd (hcurrent i g (Ne.symm hij) hi) hne
      | start =>
        cases hw
        exact h i g hi hne
      | compare g' =>
        simp only [Waiter.step] at hw
        split_ifs at hw <;> cases hw <;> exact h i g hi hne
      | read =>
        cases hw
        exact h i g hi hne
      | returned v => cases hw

theorem Overtaken.append {j : ℕ} {log : List (KeyEvent T)} (h : Overtaken j log)
    (newer : List (KeyEvent T)) : Overtaken j (newer ++ log) := by
  obtain ⟨between, before, g, rfl, hrecorded⟩ := h
  exact ⟨newer ++ between, before, g, (List.append_assoc _ _ _).symm, hrecorded⟩

structure Tracked (value : T) (s : Waiting T) : Prop where
  value_eq : s.key.value = held value s.log
  recorded : ∀ (j : ℕ) (g : UInt32),
    s.waiters[j]? = some (.waiting g) ∨ s.waiters[j]? = some (.compare g) →
      .recorded j g ∈ s.log ∧ (s.key.generation = g ∨ Overtaken j s.log)
  read : ∀ j : ℕ, s.waiters[j]? = some .read → Overtaken j s.log
  justified : Justified (Returns value) s.log

theorem Tracked.elsewhere (h : Tracked value s) {key : TypedKey T} {updates : List Update}
    {newer : List (KeyEvent T)} (hvalue : key.value = held value (newer ++ s.log))
    (hgeneration : key.generation = s.key.generation ∨ newer = [.bumped])
    (hnewer : Justified (Returns value) (newer ++ s.log)) :
    Tracked value { s with key := key, updates := updates, log := newer ++ s.log } where
  value_eq := hvalue
  recorded := by
    intro j g hj
    obtain ⟨hmem, hcur⟩ := h.recorded j g hj
    refine ⟨List.mem_append_right _ hmem, ?_⟩
    rcases hgeneration with hsame | rfl
    · exact hcur.imp (hsame.trans ·) (·.append newer)
    · exact Or.inr ⟨[], s.log, g, rfl, hmem⟩
  read := fun j hj => (h.read j hj).append newer
  justified := hnewer

theorem Tracked.update (h : Tracked value s) {u u' : Update} {key : TypedKey T}
    (hu : u.step s.key = some (u', key)) (updates : List Update) :
    Tracked value { s with key := key, updates := updates, log := updateEvent u ++ s.log } := by
  cases u with
  | bump =>
    cases hu
    exact h.elsewhere h.value_eq (Or.inr rfl) ⟨trivial, h.justified⟩
  | ring =>
    cases hu
    exact h.elsewhere h.value_eq (Or.inl rfl) h.justified
  | lookup =>
    cases hu
    exact h.elsewhere h.value_eq (Or.inl rfl) h.justified
  | notify =>
    cases hu
    exact h.elsewhere h.value_eq (Or.inl rfl) h.justified
  | done => cases hu

theorem Tracked.waiter (h : Tracked value s) {j : ℕ} {w w' : Waiter T} {key : TypedKey T}
    (hj : s.waiters[j]? = some w) (hw : w.step s.key = some (w', key)) :
    Tracked value { s with
      key := key, waiters := s.waiters.set j w', log := waiterEvent s.key j w ++ s.log } := by
  have hlt := (List.getElem?_eq_some_iff.mp hj).1
  -- another task
  have hother : ∀ {i : ℕ}, j ≠ i → (s.waiters.set j w')[i]? = s.waiters[i]? :=
    fun hij => List.getElem?_set_ne hij
  have hself : (s.waiters.set j w')[j]? = some w' := List.getElem?_set_self hlt
  -- the tasks of the new state, where the generation has not changed
  have hbuild : ∀ {newer : List (KeyEvent T)} {key : TypedKey T}, key.value = s.key.value →
      key.generation = s.key.generation → held value (newer ++ s.log) = held value s.log →
      Justified (Returns value) (newer ++ s.log) →
      (∀ g, w' = .waiting g ∨ w' = .compare g → .recorded j g ∈ newer ++ s.log ∧
        (s.key.generation = g ∨ Overtaken j (newer ++ s.log))) →
      (w' = .read → Overtaken j (newer ++ s.log)) →
      Tracked value { s with key := key, waiters := s.waiters.set j w', log := newer ++ s.log } := by
    intro newer key hvalue hgeneration hheld hjust hpending hread
    refine ⟨by rw [hheld, hvalue, h.value_eq], fun i g hi => ?_, fun i hi => ?_, hjust⟩
    · by_cases hij : j = i
      · subst hij
        rw [hself, Option.some_inj, Option.some_inj] at hi
        rw [hgeneration]
        exact hpending g hi
      · rw [hother hij] at hi
        obtain ⟨hmem, hcur⟩ := h.recorded i g hi
        rw [hgeneration]
        exact ⟨List.mem_append_right _ hmem, hcur.imp id (·.append newer)⟩
    · by_cases hij : j = i
      · subst hij
        rw [hself, Option.some_inj] at hi
        exact hread hi
      · rw [hother hij] at hi
        exact (h.read i hi).append newer
  cases w with
  | start =>
    cases hw
    refine hbuild rfl rfl rfl ⟨trivial, h.justified⟩ ?_ (by simp)
    rintro g (hg | hg) <;> cases hg
    exact ⟨List.mem_cons_self, Or.inl rfl⟩
  | waiting g' =>
    simp only [Waiter.step] at hw
    split_ifs at hw with hset
    cases hw
    refine hbuild rfl rfl rfl h.justified ?_ (by simp)
    rintro g (hg | hg) <;> cases hg
    exact h.recorded j g' (Or.inl hj)
  | compare g' =>
    have hrec := h.recorded j g' (Or.inr hj)
    simp only [Waiter.step] at hw
    split_ifs at hw with hcmp
    · cases hw
      refine hbuild rfl rfl rfl h.justified (by simp) fun _ => hrec.2.resolve_left hcmp
    · cases hw
      refine hbuild rfl rfl rfl h.justified ?_ (by simp)
      rintro g (hg | hg) <;> cases hg
      exact hrec
  | read =>
    cases hw
    exact hbuild rfl rfl rfl ⟨⟨h.value_eq, h.read j hj⟩, h.justified⟩ (by simp) (by simp)
  | returned v => cases hw

theorem Tracked.step (h : Tracked value s) (hstep : s.step impl l = some s') :
    Tracked value s' := by
  cases step_cases hstep with
  | store v hvalid =>
    have hnewer : Justified (Returns value) ([.stored v] ++ s.log) := ⟨trivial, h.justified⟩
    refine h.elsewhere ?_ (Or.inl ?_) hnewer <;> rfl
  | update j u u' key hj hu => exact h.update hu _
  | enter =>
    refine ⟨h.value_eq, fun j g hj => h.recorded j g ?_, fun j hj => h.read j ?_, h.justified⟩
    · change (s.waiters ++ [.start])[j]? = _ ∨ (s.waiters ++ [.start])[j]? = _ at hj
      rw [List.getElem?_append] at hj
      split_ifs at hj
      · exact hj
      · rw [List.getElem?_singleton] at hj
        split_ifs at hj <;> simp at hj
    · change (s.waiters ++ [.start])[j]? = _ at hj
      rw [List.getElem?_append] at hj
      split_ifs at hj
      · exact hj
      · rw [List.getElem?_singleton] at hj
        split_ifs at hj
        cases hj
  | waiter j w w' key hj hw => exact h.waiter hj hw

/-- In a run whose steps take no signal from a task that needs it, nobody sleeps
over an update; in every run, what is returned was the value of the key after an
update that followed the recording. -/
theorem next_hears_every_update (impl : ValueImpl T) (key : TypedKey T)
    (labels : List (WaitingLabel T)) (s : Waiting T) :
    (Path (step impl) Spares (initial key) labels s → Heard s) ∧
      (Path (step impl) (fun _ _ => True) (initial key) labels s →
        ∀ newer j v older, s.log = newer ++ .returned j v :: older →
          v = held key.value older ∧ Overtaken j older) := by
  constructor
  · intro hrun
    refine Alert.heard (hrun.invariant Alert ?_ fun _ _ _ h hp hs => h.step hp hs)
    intro j g hj
    cases hj
  · intro hrun newer j v older hlog
    have htracked := hrun.invariant (Tracked key.value)
      ⟨rfl, fun j g hj => (by rcases hj with hj | hj <;> cases hj), fun j hj => (by cases hj), trivial⟩
      fun _ _ _ h _ hs => h.step hs
    have hjust := htracked.justified
    rw [hlog] at hjust
    exact hjust.allowed_at

end

/-- Two tasks are suspended when the key is updated; the first one polled takes
the signal. -/
def twoTasks : List (WaitingLabel Int64) :=
  [.enter, .enter, .waiter 0, .waiter 1, .store 7] ++ List.replicate 4 (.update 0) ++
    [.waiter 0, .waiter 0, .waiter 0]

theorem next_sleeps_through_update : ∃ s : Waiting Int64,
    Path (step TypedKey.percent) (fun _ _ => True) (initial TypedKey.percentKey) twoTasks s ∧
      s.waiters = [.returned 7, .waiting 0] ∧ s.updates = [.done] ∧
        s.key.changeSignal = false ∧ s.key.generation = 1 ∧ ¬ Heard s := by
  have hrun : (runLabels (step TypedKey.percent) (initial TypedKey.percentKey) twoTasks).map
      (fun s => (s.waiters, s.updates, s.key.changeSignal, s.key.generation)) =
        some ([.returned 7, .waiting 0], [.done], false, 1) := by decide +kernel
  obtain ⟨s, hs, heq⟩ := Option.map_eq_some_iff.mp hrun
  simp only [Prod.mk.injEq] at heq
  obtain ⟨hwaiters, hupdates, hsignal, hgeneration⟩ := heq
  refine ⟨s, .of_runLabels hs, hwaiters, hupdates, hsignal, hgeneration, fun hheard => ?_⟩
  have hone := hheard (by simp [hupdates]) hsignal 1 0 (by rw [hwaiters]; rfl)
  rw [hgeneration] at hone
  exact absurd hone (by decide)

theorem spares_waiter_iff {s : Waiting T} {j : ℕ} :
    ((∃ w ∈ s.waiters[j]?, w.Suspended) → (∃ u ∈ s.updates, u.Rings) ∨
        ∀ j' < s.waiters.length, j' ≠ j → ∀ w ∈ s.waiters[j']?, w.Recorded s.key.generation) ↔
      Spares s (.waiter j) := by
  constructor
  · rintro h ⟨g, hg⟩
    refine (h ⟨_, hg, trivial⟩).imp id fun hall j' g' hne hg' => ?_
    exact hall j' (List.getElem?_eq_some_iff.mp hg').1 hne _ hg'
  · rintro h ⟨w, hw, hsuspended⟩
    cases w with
    | waiting g =>
      refine (h ⟨g, hw⟩).imp id fun hall j' _ hne w' hw' => ?_
      cases w' with
      | waiting g' => exact hall j' g' hne hw'
      | _ => trivial
    | _ => exact hsuspended.elim

instance (s : Waiting T) : (l : WaitingLabel T) → Decidable (Spares s l)
  | .waiter _ => decidable_of_iff _ spares_waiter_iff
  | .store _ | .update _ | .enter => .isTrue trivial

/-- Two suspended tasks and two updates: the first signal is taken while the second
update has yet to set it again. -/
def sparedTasks : List (WaitingLabel Int64) :=
  [.enter, .enter, .waiter 0, .waiter 1, .store 7, .update 0, .update 0, .store 8, .waiter 0,
    .update 1, .update 1, .waiter 1, .waiter 0, .waiter 0, .waiter 1, .waiter 1, .update 0,
    .update 0, .update 1, .update 1]

theorem next_hears_every_update_spared : ∃ s : Waiting Int64,
    Path (step TypedKey.percent) Spares (initial TypedKey.percentKey) sparedTasks s ∧
      s.waiters = [.returned 8, .returned 8] ∧ s.updates = [.done, .done] ∧
        s.key.changeSignal = false ∧ Heard s ∧
          ∀ newer j v older, s.log = newer ++ .returned j v :: older →
            v = held TypedKey.percentKey.value older ∧ Overtaken j older := by
  have hrun : (runLabels (fun u l => if Spares u l then step TypedKey.percent u l else none)
      (initial TypedKey.percentKey) sparedTasks).map
        (fun s => (s.waiters, s.updates, s.key.changeSignal)) =
          some ([.returned 8, .returned 8], [.done, .done], false) := by decide +kernel
  obtain ⟨s, hs, heq⟩ := Option.map_eq_some_iff.mp hrun
  simp only [Prod.mk.injEq] at heq
  obtain ⟨hwaiters, hupdates, hsignal⟩ := heq
  have hpath := Path.of_guarded hs
  obtain ⟨hheard, hreturned⟩ := next_hears_every_update TypedKey.percent TypedKey.percentKey _ s
  exact ⟨s, hpath, hwaiters, hupdates, hsignal, hheard hpath,
    hreturned (hpath.mono fun _ _ _ => trivial)⟩

end Waiting
end Qup.Embassy
