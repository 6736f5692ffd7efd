import Qup.Embassy.Device

/-!
# Announcements on their way

Which task is at which point of `notify_changed`. Between the store of a value
and the increment of its key's generation, the task that stored it is on its way
to the increment.
-/

namespace Qup.Embassy
open Foundation Foundation.Utf8

variable {N : ℕ} {server : Server N} {nodeId : Str}

def Announce.Will (n : ℕ) : Announce → Prop
  | bump => False
  | touch => True
  | lookup => True
  | ring m => m = n

def Phase.announcing : Phase server → Option (Fin N × Announce)
  | .announce a i _ _ => some (i, a)
  | _ => none

def UpdatePhase.announcing : UpdatePhase server → Option (Fin N × Announce)
  | .announce a i _ => some (i, a)
  | _ => none

theorem Phase.not_announces {p : Phase server} {o : Op server.keys} {k : o.Res → Phase server}
    (hview : p.view = .act o k) (h : p.announcing = none) : ¬ o.Announces := by
  cases p with
  | announce a i v l => cases h
  | _ =>
    cases hview
    try exact fun ho => ho

theorem UpdatePhase.not_announces {u : UpdatePhase server} {o : Op server.keys}
    {k : o.Res → UpdatePhase server} (hview : u.view = .act o k) (h : u.announcing = none) :
    ¬ o.Announces := by
  cases u with
  | announce a i changed => cases h
  | finished result => cases hview
  | store i v =>
    cases hview
    exact fun ho => ho

theorem UpdatePhase.not_reads {u : UpdatePhase server} {o : Op server.keys}
    {k : o.Res → UpdatePhase server} (hview : u.view = .act o k) (i : Fin N) :
    o ≠ .loadGeneration i := by
  rintro rfl
  cases u with
  | finished result => cases hview
  | store i v => cases hview
  | announce a i changed => cases a <;> cases hview

def Sys.Announcing (s : PhaseSys server) (i : Fin N) (a : Announce) : Prop :=
  (∃ activity p, s.ctrl = .running activity p ∧ p.announcing = some (i, a)) ∨
    ∃ u ∈ s.updates, u.announcing = some (i, a)

def Config.Announcing (c : Config server) (i : Fin N) (a : Announce) : Prop :=
  (∃ activity p, c.position = .running activity p ∧ p.announcing = some (i, a)) ∨
    ∃ u ∈ c.updates, u.announcing = some (i, a)

theorem Config.announcing_iff {s : PhaseSys server} {i : Fin N} {a : Announce} :
    (PhaseSys.config s).Announcing i a ↔ s.Announcing i a := by
  have hposition : ∀ activity p, PhaseSys.position s = .running activity p ↔
      s.ctrl = .running activity p := by
    intro activity p
    rw [PhaseSys.position]
    cases s.ctrl <;> simp
  simp only [Config.Announcing, Sys.Announcing, PhaseSys.config, hposition]

theorem Still.memory_eq {c c' : Config server} (h : Still server nodeId c c') :
    c'.memory = c.memory := by
  cases h <;> rfl

theorem Still.announcing {s t : PhaseSys server}
    (h : Still server nodeId (PhaseSys.config s) (PhaseSys.config t)) {i : Fin N} {a : Announce}
    (hs : s.Announcing i a) : t.Announcing i a := by
  rw [← Config.announcing_iff] at hs ⊢
  generalize PhaseSys.config s = c at h hs
  generalize PhaseSys.config t = c' at h
  cases h with
  | quiet => exact hs
  | spawn c i v =>
    refine hs.imp_right fun hu => ?_
    obtain ⟨u, hu, ha⟩ := hu
    exact ⟨u, List.mem_append_left _ hu, ha⟩
  | _ =>
    rcases hs with ⟨activity, p, hp, ha⟩ | hu
    · cases hp
      try cases ha
    · exact Or.inr hu

theorem updating_of_announcing {s : PhaseSys server} {i : Fin N} {a : Announce}
    (h : s.Announcing i a) :
    (s.map Phase.task UpdatePhase.task).Updating (programs server nodeId) := by
  have hop : (a.op i : Op server.keys).Announces := by cases a <;> trivial
  rcases h with ⟨activity, p, hctrl, ha⟩ | ⟨u, hu, ha⟩
  · cases p with
    | announce a i v l =>
      cases ha
      refine Or.inl ⟨activity, Phase.task (.announce a i v l), _, _, ?_, Phase.view_task _, hop⟩
      simp only [Sys.map, hctrl, Ctrl.map]
    | _ => cases ha
  · cases u with
    | announce a i changed =>
      cases ha
      exact Or.inr ⟨_, List.mem_map_of_mem hu, _, _, UpdatePhase.view_task _, hop⟩
    | _ => cases ha

def unbumped {keys : Fin N → ErasedKey} (i : Fin N) : List (Event keys) → Bool
  | [] => false
  | .stored _ j _ :: log => if j = i then true else unbumped i log
  | .updated _ j :: log => if j = i then false else unbumped i log
  | _ :: log => unbumped i log

theorem unbumped_observe {i : Fin N} {actor : Actor} {o : Op server.keys} {r : o.Res}
    {log : List (Event server.keys)} (h : unbumped i (o.observe actor r ++ log) = true) :
    (∃ v, o = .storeValue i v) ∨ (unbumped i log = true ∧ o ≠ .fetchAddGeneration i) := by
  cases o with
  | storeValue j v =>
    by_cases hji : j = i
    · subst hji
      exact Or.inl ⟨v, rfl⟩
    · refine Or.inr ⟨?_, by simp⟩
      simpa only [Op.observe, List.singleton_append, unbumped, if_neg hji] using h
  | fetchAddGeneration j =>
    simp only [Op.observe, List.singleton_append, unbumped] at h
    split_ifs at h with hji
    exact Or.inr ⟨h, by simpa using hji⟩
  | writeAll bytes completes =>
    refine Or.inr ⟨?_, by simp⟩
    cases completes with
    | none => exact h
    | some f => cases r <;> exact h
  | _ => exact Or.inr ⟨h, by simp⟩

theorem Phase.bumps {p : Phase server} {o : Op server.keys} {k : o.Res → Phase server} {i : Fin N}
    (hview : p.view = .act o k) :
    (∀ v r, o = .storeValue i v → (k r).announcing = some (i, .bump)) ∧
      (p.announcing = some (i, .bump) → o = .fetchAddGeneration i) := by
  cases p with
  | announce a j v l =>
    cases hview
    refine ⟨fun v r ho => (by cases a <;> cases ho), fun h => ?_⟩
    cases h
    rfl
  | store j v l =>
    cases hview
    refine ⟨fun v r ho => ?_, fun h => (by cases h)⟩
    cases ho
    rfl
  | _ =>
    cases hview
    try exact ⟨nofun, nofun⟩

theorem UpdatePhase.bumps {u : UpdatePhase server} {o : Op server.keys}
    {k : o.Res → UpdatePhase server} {i : Fin N} (hview : u.view = .act o k) :
    (∀ v r, o = .storeValue i v → (k r).announcing = some (i, .bump)) ∧
      (u.announcing = some (i, .bump) → o = .fetchAddGeneration i) := by
  cases u with
  | finished result => cases hview
  | announce a j changed =>
    cases hview
    refine ⟨fun v r ho => (by cases a <;> cases ho), fun h => ?_⟩
    cases h
    rfl
  | store j v =>
    cases hview
    refine ⟨fun v r ho => ?_, fun h => (by cases h)⟩
    cases ho
    rfl

theorem exists_mem_set {α : Type} {p : α → Prop} {xs : List α} {j : ℕ} {x : α}
    (hj : xs[j]? = some x) (y : α) (h : ∃ z ∈ xs, p z) : (∃ z ∈ xs.set j y, p z) ∨ p x := by
  obtain ⟨z, hz, hp⟩ := h
  obtain ⟨k, hk, rfl⟩ := List.mem_iff_getElem.mp hz
  by_cases hjk : j = k
  · subst hjk
    rw [List.getElem?_eq_getElem hk] at hj
    exact Or.inr (Option.some.inj hj ▸ hp)
  · refine Or.inl ⟨_, ?_, hp⟩
    have hlt : k < (xs.set j y).length := by rwa [List.length_set]
    exact List.mem_iff_getElem.mpr ⟨k, hlt, List.getElem_set_ne hjk _⟩

def Config.Bumping (i : Fin N) (c : Config server) : Prop :=
  unbumped i c.log = true → c.position = .stopped ∨ c.Announcing i .bump

theorem Config.Bumping.move {i : Fin N} {c c' : Config server} (h : c.Bumping i)
    (hm : Move server nodeId c c') : c'.Bumping i := by
  cases hm with
  | quiet => exact h
  | stop => exact fun _ => Or.inl rfl
  | serve | wake | start | flush | answered | flushed =>
    intro hu
    rcases h hu with hstop | ⟨activity, p, hp, ha⟩ | hupdates
    · cases hstop
    · cases hp
      try cases ha
    · exact Or.inr (Or.inr hupdates)
  | spawn c j v =>
    intro hu
    rcases h hu with hstop | hp | ⟨u, hmem, ha⟩
    · exact Or.inl hstop
    · exact Or.inr (Or.inl hp)
    · exact Or.inr (Or.inr ⟨u, List.mem_append_left _ hmem, ha⟩)
  | act activity p o k accepted m us w log hview =>
    intro hu
    rcases unbumped_observe hu with ⟨v, ho⟩ | ⟨hu, ho⟩
    · exact Or.inr (Or.inl ⟨activity, _, rfl, (Phase.bumps hview).1 v _ ho⟩)
    · rcases h hu with hstop | ⟨activity', p', hp, ha⟩ | hupdates
      · cases hstop
      · cases hp
        exact absurd ((Phase.bumps hview).2 ha) ho
      · exact Or.inr (Or.inr hupdates)
  | update j u o k position m us w log hj hview =>
    intro hu
    rcases unbumped_observe hu with ⟨v, ho⟩ | ⟨hu, ho⟩
    · obtain ⟨hlt, -⟩ := List.getElem?_eq_some_iff.mp hj
      exact Or.inr (Or.inr ⟨_, List.mem_set hlt _, (UpdatePhase.bumps hview).1 v _ ho⟩)
    · rcases h hu with hstop | hp | hupdates
      · exact Or.inl hstop
      · exact Or.inr (Or.inl hp)
      · refine Or.inr (Or.inr ((exists_mem_set hj _ hupdates).resolve_right fun ha => ?_))
        exact ho ((UpdatePhase.bumps hview).2 ha)

end Qup.Embassy
