import Qup.Embassy.Waiting
import Qup.Foundation.WrappingCounter

/-!
# `Key::wait_for`

One task that calls `next` until it returns the expected value, among any number
of updates. Between the value that one call read and the generation that the
following call records, an update can store the expected value unseen.
-/

namespace Qup.Embassy
open Foundation

variable {T : Type}

inductive WaitForEvent where
  | stored (j : ℕ)
  | bumped (j : ℕ)
  | loaded
  deriving DecidableEq

structure WaitFor (T : Type) where
  key : TypedKey T
  updates : List Update
  next : Waiter T
  log : List WaitForEvent

inductive WaitForLabel (T : Type) where
  | store (value : T)
  | update (j : ℕ)
  | waiter

namespace WaitFor

def initial (key : TypedKey T) : WaitFor T := ⟨key, [], .start, []⟩

def updateEvent (j : ℕ) : Update → List WaitForEvent
  | .bump => [.bumped j]
  | _ => []

def waiterEvent : Waiter T → List WaitForEvent
  | .start => [.loaded]
  | _ => []

def loopStep (impl : ValueImpl T) (expected : T) (k : TypedKey T) (w : Waiter T) :
    Option (Waiter T × TypedKey T) :=
  match w with
  | .returned value => if impl.eq value expected then none else some (.start, k)
  | w => w.step k

def step (impl : ValueImpl T) (expected : T) (s : WaitFor T) :
    WaitForLabel T → Option (WaitFor T)
  | .store value =>
    match impl.validate value with
    | .error _ => none
    | .ok () => some { s with
        key := s.key.storeValue value
        updates := s.updates ++ [.bump]
        log := .stored s.updates.length :: s.log }
  | .update j =>
    match s.updates[j]? with
    | none => none
    | some u => (u.step s.key).map fun (u', key) =>
      { s with key := key, updates := s.updates.set j u', log := updateEvent j u ++ s.log }
  | .waiter => (loopStep impl expected s.key s.next).map fun (w, key) =>
      { s with key := key, next := w, log := waiterEvent s.next ++ s.log }

def lastStore : List WaitForEvent → Option ℕ
  | [] => none
  | .stored j :: _ => some j
  | _ :: log => lastStore log

def AcceptedAfterLoad (j : ℕ) (log : List WaitForEvent) : Prop :=
  ∃ newer older, log = newer ++ .bumped j :: older ∧ .loaded ∈ older

def acceptedUpdates : List WaitForEvent → ℕ
  | [] => 0
  | .bumped _ :: log => acceptedUpdates log + 1
  | _ :: log => acceptedUpdates log

def sinceLoad : List WaitForEvent → ℕ
  | [] => 0
  | .loaded :: _ => 0
  | .bumped _ :: log => sinceLoad log + 1
  | _ :: log => sinceLoad log

/-- The task sleeps through its value. -/
structure Oversleeps (impl : ValueImpl T) (expected : T) (s : WaitFor T) : Prop where
  settled : ∀ u ∈ s.updates, u = .done
  clear : s.key.changeSignal = false
  suspended : ∃ g, s.next = .waiting g
  expected : impl.eq s.key.value expected = true
  accepted : ∃ j, lastStore s.log = some j ∧ AcceptedAfterLoad j s.log

/-- A call of `next` after the first does not begin with the expected value in
the key, unless an update has still to be accepted. -/
def Rearms (impl : ValueImpl T) (expected : T) (s : WaitFor T) : WaitForLabel T → Prop
  | .waiter => s.next = .start → .loaded ∈ s.log →
      impl.eq s.key.value expected = false ∨ .bump ∈ s.updates
  | _ => True

instance [DecidableEq T] (impl : ValueImpl T) (expected : T) (s : WaitFor T) (l : WaitForLabel T) :
    Decidable (Rearms impl expected s l) :=
  match l with
  | .waiter => inferInstanceAs (Decidable (s.next = .start → .loaded ∈ s.log →
      impl.eq s.key.value expected = false ∨ .bump ∈ s.updates))
  | .store _ | .update _ => .isTrue trivial

section
variable {impl : ValueImpl T} {expected : T} {s s' : WaitFor T} {l : WaitForLabel T}

inductive Steps (impl : ValueImpl T) (expected : T) (s : WaitFor T) :
    WaitForLabel T → WaitFor T → Prop where
  | store (value : T) (hvalid : impl.validate value = .ok ()) :
      Steps impl expected s (.store value) { s with
        key := s.key.storeValue value
        updates := s.updates ++ [.bump]
        log := .stored s.updates.length :: s.log }
  | update (j : ℕ) (u u' : Update) (key : TypedKey T) (hj : s.updates[j]? = some u)
      (hu : u.step s.key = some (u', key)) :
      Steps impl expected s (.update j)
        { s with key := key, updates := s.updates.set j u', log := updateEvent j u ++ s.log }
  | load (h : s.next = .start) :
      Steps impl expected s .waiter
        { s with next := .waiting s.key.generation, log := .loaded :: s.log }
  | take (g : UInt32) (h : s.next = .waiting g) (hset : s.key.changeSignal = true) :
      Steps impl expected s .waiter
        { s with key := { s.key with changeSignal := false }, next := .compare g }
  | moved (g : UInt32) (h : s.next = .compare g) (hne : s.key.generation ≠ g) :
      Steps impl expected s .waiter { s with next := .read }
  | same (g : UInt32) (h : s.next = .compare g) (heq : s.key.generation = g) :
      Steps impl expected s .waiter { s with next := .waiting g }
  | read (h : s.next = .read) :
      Steps impl expected s .waiter { s with next := .returned s.key.value }
  | again (value : T) (h : s.next = .returned value) (hne : impl.eq value expected = false) :
      Steps impl expected s .waiter { s with next := .start }

theorem step_cases (h : s.step impl expected l = some s') : Steps impl expected s l s' := by
  cases l with
  | store value =>
    simp only [step] at h
    cases hv : impl.validate value with
    | error e => simp [hv] at h
    | ok u =>
      rw [hv] at h
      cases h
      exact .store value hv
  | update j =>
    simp only [step] at h
    cases hj : s.updates[j]? with
    | none => simp [hj] at h
    | some u =>
      rw [hj] at h
      obtain ⟨⟨u', key⟩, hu, rfl⟩ := Option.map_eq_some_iff.mp h
      exact .update j u u' key hj hu
  | waiter =>
    simp only [step] at h
    obtain ⟨⟨w, key⟩, hw, rfl⟩ := Option.map_eq_some_iff.mp h
    cases hnext : s.next with
    | start =>
      rw [hnext] at hw
      cases hw
      exact .load hnext
    | waiting g =>
      rw [hnext] at hw
      simp only [loopStep, Waiter.step] at hw
      split_ifs at hw with hset
      cases hw
      exact .take g hnext hset
    | compare g =>
      rw [hnext] at hw
      simp only [loopStep, Waiter.step] at hw
      split_ifs at hw with hcmp
      · cases hw
        exact .moved g hnext hcmp
      · cases hw
        exact .same g hnext (not_not.mp hcmp)
    | read =>
      rw [hnext] at hw
      cases hw
      exact .read hnext
    | returned value =>
      rw [hnext] at hw
      simp only [loopStep] at hw
      split_ifs at hw with heq
      cases hw
      exact .again value hnext (by simpa using heq)

def Recorded (s : WaitFor T) (g : UInt32) : Prop := s.next = .waiting g ∨ s.next = .compare g

structure Awake (impl : ValueImpl T) (expected : T) (s : WaitFor T) : Prop where
  alert : ∀ g, s.next = .waiting g → s.key.generation ≠ g →
    s.key.changeSignal = true ∨ ∃ u ∈ s.updates, u.Rings
  generation_eq : ∀ g, Recorded s g → s.key.generation = g + UInt32.ofNat (sinceLoad s.log)
  unseen : ∀ g, Recorded s g → impl.eq s.key.value expected = true →
    ∀ j, lastStore s.log = some j → AcceptedAfterLoad j s.log →
      0 < sinceLoad s.log ∨ .bump ∈ s.updates

theorem sinceLoad_le (log : List WaitForEvent) : sinceLoad log ≤ acceptedUpdates log := by
  induction log with
  | nil => exact Nat.le_refl 0
  | cons e log ih =>
    cases e with
    | stored j => exact ih
    | bumped j => exact Nat.succ_le_succ ih
    | loaded => exact Nat.zero_le _

theorem AcceptedAfterLoad.of_cons {j : ℕ} {e : WaitForEvent} {log : List WaitForEvent}
    (he : e ≠ .bumped j) (h : AcceptedAfterLoad j (e :: log)) : AcceptedAfterLoad j log := by
  obtain ⟨newer, older, hlog, hloaded⟩ := h
  cases newer with
  | nil => exact absurd (List.cons.inj hlog).1 he
  | cons d newer => exact ⟨newer, older, (List.cons.inj hlog).2, hloaded⟩

theorem AcceptedAfterLoad.loaded_mem {j : ℕ} {log : List WaitForEvent}
    (h : AcceptedAfterLoad j log) : .loaded ∈ log := by
  obtain ⟨newer, older, rfl, hloaded⟩ := h
  exact List.mem_append_right _ (List.mem_cons_of_mem _ hloaded)

theorem bump_mem_set {updates : List Update} {j : ℕ} {u u' : Update} (hj : updates[j]? = some u)
    (hu : u ≠ .bump) (h : .bump ∈ updates) : .bump ∈ updates.set j u' := by
  obtain ⟨i, hi⟩ := List.mem_iff_getElem?.mp h
  have hij : j ≠ i := by
    rintro rfl
    exact hu (Option.some.inj (hj.symm.trans hi))
  exact List.mem_iff_getElem?.mpr ⟨i, by rw [List.getElem?_set_ne hij, hi]⟩

theorem Awake.store (h : Awake impl expected s) (value : T) :
    Awake impl expected { s with
      key := s.key.storeValue value
      updates := s.updates ++ [.bump]
      log := .stored s.updates.length :: s.log } where
  alert _ _ _ := Or.inr ⟨.bump, List.mem_append_right _ (List.mem_singleton_self _), trivial⟩
  generation_eq := h.generation_eq
  unseen _ _ _ _ _ _ := Or.inr (List.mem_append_right _ (List.mem_singleton_self _))

theorem Awake.elsewhere (h : Awake impl expected s) {j : ℕ} {u u' : Update}
    (hj : s.updates[j]? = some u) (hbump : u ≠ .bump) {key : TypedKey T}
    (hvalue : key.value = s.key.value) (hgeneration : key.generation = s.key.generation)
    (hsignal : key.changeSignal = true ∨ key.changeSignal = s.key.changeSignal ∧ ¬ u.Rings) :
    Awake impl expected { s with key := key, updates := s.updates.set j u' } where
  alert g hg hne := by
    rcases hsignal with hset | ⟨hsame, hrings⟩
    · exact Or.inl hset
    · rcases h.alert g hg (hgeneration ▸ hne) with hset | hexists
      · exact Or.inl (hsame.trans hset)
      · exact Or.inr (Waiting.rings_set hj (fun hr => absurd hr hrings) hexists)
  generation_eq g hg := hgeneration.trans (h.generation_eq g hg)
  unseen g hg hexpected i hi haccepted :=
    (h.unseen g hg (hvalue ▸ hexpected) i hi haccepted).imp id (bump_mem_set hj hbump)

theorem Awake.update (h : Awake impl expected s) {j : ℕ} {u u' : Update} {key : TypedKey T}
    (hj : s.updates[j]? = some u) (hu : u.step s.key = some (u', key)) :
    Awake impl expected
      { s with key := key, updates := s.updates.set j u', log := updateEvent j u ++ s.log } := by
  cases u with
  | bump =>
    cases hu
    have hlt := (List.getElem?_eq_some_iff.mp hj).1
    refine ⟨fun g _ _ => Or.inr ⟨.ring, ?_, trivial⟩, fun g hg => ?_, fun _ _ _ _ _ _ => Or.inl ?_⟩
    · exact List.mem_iff_getElem?.mpr ⟨j, List.getElem?_set_self hlt⟩
    · change s.key.generation + 1 = g + UInt32.ofNat (sinceLoad s.log + 1)
      rw [ofNat32_succ, h.generation_eq g hg, UInt32.add_assoc]
    · exact Nat.succ_pos (sinceLoad s.log)
  | ring =>
    cases hu
    exact h.elsewhere hj (by simp) rfl rfl (Or.inl rfl)
  | lookup =>
    cases hu
    exact h.elsewhere hj (by simp) rfl rfl (Or.inr ⟨rfl, fun hr => hr⟩)
  | notify =>
    cases hu
    exact h.elsewhere hj (by simp) rfl rfl (Or.inr ⟨rfl, fun hr => hr⟩)
  | done => cases hu

theorem awake_load (hnext : s.next = .start)
    (hrearms : Rearms impl expected s .waiter) :
    Awake impl expected
      { s with next := .waiting s.key.generation, log := .loaded :: s.log } where
  alert g hg hne := by
    cases hg
    exact absurd rfl hne
  generation_eq g hg := by
    rcases hg with hg | hg <;> cases hg
    change s.key.generation = s.key.generation + UInt32.ofNat 0
    simp
  unseen g _ hexpected j _ haccepted := by
    have hloaded := (haccepted.of_cons (by simp)).loaded_mem
    rcases hrearms hnext hloaded with hother | hbump
    · rw [hother] at hexpected
      cases hexpected
    · exact Or.inr hbump

theorem Awake.step (h : Awake impl expected s) (hrearms : Rearms impl expected s l)
    (hstep : s.step impl expected l = some s') : Awake impl expected s' := by
  -- a step that ends a call of `next`
  have hended : ∀ {w : Waiter T}, (∀ g, ¬ (w = .waiting g ∨ w = .compare g)) →
      Awake impl expected { s with next := w } := fun hw =>
    ⟨fun g hg => absurd (Or.inl hg) (hw g), fun g hg => absurd hg (hw g),
      fun g hg => absurd hg (hw g)⟩
  cases step_cases hstep with
  | store value hvalid => exact h.store value
  | update j u u' key hj hu => exact h.update hj hu
  | load hnext => exact awake_load hnext hrearms
  | take g hnext hset =>
    refine ⟨fun g' hg => (by cases hg), fun g' hg => ?_, fun g' hg => ?_⟩
    · rcases hg with hg | hg <;> cases hg
      exact h.generation_eq g (Or.inl hnext)
    · rcases hg with hg | hg <;> cases hg
      exact h.unseen g (Or.inl hnext)
  | same g hnext heq =>
    refine ⟨fun g' hg hne => ?_, fun g' hg => ?_, fun g' hg => ?_⟩
    · cases hg
      exact absurd heq hne
    · rcases hg with hg | hg <;> cases hg
      exact h.generation_eq g (Or.inr hnext)
    · rcases hg with hg | hg <;> cases hg
      exact h.unseen g (Or.inr hnext)
  | moved g hnext hne => exact hended (by simp)
  | read hnext => exact hended (by simp)
  | again value hnext hne => exact hended (by simp)

/-- With fewer than `2 ^ 32` updates the task does not sleep through its value. -/
theorem Awake.not_oversleeps (h : Awake impl expected s) (hfew : acceptedUpdates s.log < 2 ^ 32) :
    ¬ Oversleeps impl expected s := by
  intro hbad
  obtain ⟨g, hg⟩ := hbad.suspended
  obtain ⟨j, hj, haccepted⟩ := hbad.accepted
  have hpos : 0 < sinceLoad s.log := by
    rcases h.unseen g (Or.inl hg) hbad.expected j hj haccepted with hpos | hbump
    · exact hpos
    · exact absurd (hbad.settled _ hbump) (by decide)
  have hne : s.key.generation ≠ g := by
    intro heq
    have hgeneration := h.generation_eq g (Or.inl hg)
    rw [heq] at hgeneration
    have hzero : UInt32.ofNat (sinceLoad s.log) = 0 :=
      ((UInt32.add_right_inj g).mp ((UInt32.add_zero g).trans hgeneration)).symm
    exact ofNat32_ne_zero hpos (Nat.lt_of_le_of_lt (sinceLoad_le s.log) hfew) hzero
  rcases h.alert g hg hne with hset | ⟨u, hu, hrings⟩
  · rw [hbad.clear] at hset
    cases hset
  · rw [hbad.settled u hu] at hrings
    exact hrings

theorem wait_for_sees_its_value (impl : ValueImpl T) (expected : T) (key : TypedKey T)
    (labels : List (WaitForLabel T)) (s : WaitFor T)
    (hrun : Path (step impl expected) (Rearms impl expected) (initial key) labels s)
    (hfew : acceptedUpdates s.log < 2 ^ 32) : ¬ Oversleeps impl expected s := by
  have hinitial : Awake impl expected (initial key) :=
    ⟨fun g hg => (by cases hg), fun g hg => (by rcases hg with hg | hg <;> cases hg),
      fun g hg => (by rcases hg with hg | hg <;> cases hg)⟩
  exact (hrun.invariant (Awake impl expected) hinitial fun _ _ _ h hr hs => h.step hr hs).not_oversleeps
    hfew

end

/-- The first update wakes the task; the second one stores the expected value
after the first has been read and before the generation is recorded again. -/
def unluckyUpdates : List (WaitForLabel Int64) :=
  [.waiter, .store 1] ++ List.replicate 4 (.update 0) ++ [.waiter, .waiter, .waiter, .store 2] ++
    List.replicate 4 (.update 1) ++ [.waiter, .waiter, .waiter, .waiter]

theorem wait_for_oversleeps : ∃ s : WaitFor Int64,
    Path (step TypedKey.percent 2) (fun _ _ => True) (initial TypedKey.percentKey) unluckyUpdates s ∧
      acceptedUpdates s.log = 2 ∧ Oversleeps TypedKey.percent 2 s := by
  have hrun : (runLabels (step TypedKey.percent 2) (initial TypedKey.percentKey)
      unluckyUpdates).map (fun s => (s.next, s.updates, s.key.changeSignal, s.key.value, s.log)) =
        some (.waiting 2, [.done, .done], false, 2,
          [.loaded, .bumped 1, .stored 1, .bumped 0, .stored 0, .loaded]) := by decide +kernel
  obtain ⟨s, hs, heq⟩ := Option.map_eq_some_iff.mp hrun
  simp only [Prod.mk.injEq] at heq
  obtain ⟨hnext, hupdates, hsignal, hvalue, hlog⟩ := heq
  refine ⟨s, .of_runLabels hs, by rw [hlog]; rfl, ⟨by simp [hupdates], hsignal, ⟨2, hnext⟩,
    by rw [hvalue]; rfl, 1, by rw [hlog]; rfl, ?_⟩⟩
  exact ⟨[.loaded], [.stored 1, .bumped 0, .stored 0, .loaded], hlog, by simp⟩

def luckyUpdates : List (WaitForLabel Int64) :=
  [.waiter, .store 1] ++ List.replicate 4 (.update 0) ++
    [.waiter, .waiter, .waiter, .waiter, .waiter, .store 2] ++ List.replicate 4 (.update 1) ++
    [.waiter, .waiter, .waiter]

theorem wait_for_sees_its_value_lucky : ∃ s : WaitFor Int64,
    Path (step TypedKey.percent 2) (Rearms TypedKey.percent 2) (initial TypedKey.percentKey)
        luckyUpdates s ∧ s.next = .returned 2 ∧ ¬ Oversleeps TypedKey.percent 2 s := by
  have hrun : (runLabels (fun u l => if Rearms TypedKey.percent 2 u l
      then step TypedKey.percent 2 u l else none) (initial TypedKey.percentKey)
      luckyUpdates).map (fun s => (s.next, acceptedUpdates s.log)) = some (.returned 2, 2) := by
    decide +kernel
  obtain ⟨s, hs, heq⟩ := Option.map_eq_some_iff.mp hrun
  obtain ⟨hnext, haccepted⟩ := Prod.mk.inj heq
  exact ⟨s, .of_guarded hs, hnext,
    wait_for_sees_its_value TypedKey.percent 2 TypedKey.percentKey _ s (.of_guarded hs)
      (by rw [haccepted]; decide)⟩

end WaitFor
end Qup.Embassy
