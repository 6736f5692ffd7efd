import Mathlib.Data.List.Basic

/-!
# Runs of a labelled partial step function

`step s l` is the state after the labelled step `l`, or `none` where the step
is not enabled. A path records its labels; a guard `P` restricts which labels
may be taken in which state, so that a statement about guarded runs is a
statement about `Path step P`.
-/

namespace Foundation

section
variable {σ ℓ : Type*} (step : σ → ℓ → Option σ)

def runLabels : σ → List ℓ → Option σ
  | s, [] => some s
  | s, l :: ls => (step s l).bind (fun t => runLabels t ls)

inductive Path (P : σ → ℓ → Prop) : σ → List ℓ → σ → Prop where
  | nil (s : σ) : Path P s [] s
  | snoc {s t u : σ} {ls : List ℓ} {l : ℓ} :
      Path P s ls t → P t l → step t l = some u → Path P s (ls ++ [l]) u

def Reachable (s t : σ) : Prop := ∃ ls, Path step (fun _ _ => True) s ls t

end

section
variable {σ ℓ : Type*} {step : σ → ℓ → Option σ} {P : σ → ℓ → Prop}

theorem Path.cons {s t u : σ} {ls : List ℓ} {l : ℓ} (hP : P s l) (h : step s l = some t)
    (hp : Path step P t ls u) : Path step P s (l :: ls) u := by
  induction hp with
  | nil =>
    have h1 : Path step P s ([] ++ [l]) t := .snoc (.nil s) hP h
    exact h1
  | @snoc v w ls k _ hQ hs ih =>
    have h1 : Path step P s ((l :: ls) ++ [k]) w := .snoc ih hQ hs
    exact h1

theorem Path.trans {s t u : σ} {ls ks : List ℓ} (hp : Path step P s ls t)
    (hq : Path step P t ks u) : Path step P s (ls ++ ks) u := by
  induction hq with
  | nil => simpa using hp
  | snoc _ hP hs ih =>
    rw [← List.append_assoc]
    exact .snoc ih hP hs

theorem Path.one {s t : σ} {l : ℓ} (hP : P s l) (h : step s l = some t) : Path step P s [l] t :=
  .snoc (.nil s) hP h

theorem Path.of_runLabels {s t : σ} {ls : List ℓ} (h : runLabels step s ls = some t) :
    Path step (fun _ _ => True) s ls t := by
  induction ls generalizing s with
  | nil =>
    cases h
    exact .nil _
  | cons l ls ih =>
    simp only [runLabels, Option.bind_eq_some_iff] at h
    obtain ⟨u, hu, ht⟩ := h
    exact .cons trivial hu (ih ht)

theorem Path.of_guarded [∀ u l, Decidable (P u l)] {s t : σ} {ls : List ℓ}
    (h : runLabels (fun u l => if P u l then step u l else none) s ls = some t) :
    Path step P s ls t := by
  induction ls generalizing s with
  | nil =>
    cases h
    exact .nil _
  | cons l ls ih =>
    simp only [runLabels, Option.bind_eq_some_iff] at h
    obtain ⟨u, hu, ht⟩ := h
    split_ifs at hu with hP
    exact .cons hP hu (ih ht)

theorem Path.invariant {s t : σ} {ls : List ℓ} (hp : Path step P s ls t) (I : σ → Prop)
    (h0 : I s) (hstep : ∀ u l v, I u → P u l → step u l = some v → I v) : I t := by
  induction hp with
  | nil => exact h0
  | snoc _ hP hs ih => exact hstep _ _ _ ih hP hs

theorem Path.mono {Q : σ → ℓ → Prop} {s t : σ} {ls : List ℓ} (hp : Path step P s ls t)
    (h : ∀ u l, P u l → Q u l) : Path step Q s ls t := by
  induction hp with
  | nil => exact .nil _
  | snoc _ hP hs ih => exact .snoc ih (h _ _ hP) hs

theorem Path.strengthen {Q : σ → ℓ → Prop} {s t : σ} {ls : List ℓ} (hp : Path step P s ls t)
    (I : σ → Prop) (h0 : I s)
    (hstep : ∀ u l v, I u → P u l → step u l = some v → Q u l ∧ I v) :
    Path step Q s ls t ∧ I t := by
  induction hp with
  | nil => exact ⟨.nil _, h0⟩
  | snoc _ hP hs ih =>
    obtain ⟨hQ, hv⟩ := hstep _ _ _ ih.2 hP hs
    exact ⟨.snoc ih.1 hQ hs, hv⟩

theorem Path.with_mem {s t : σ} {ls : List ℓ} (hp : Path step P s ls t) :
    Path step (fun u l => P u l ∧ l ∈ ls) s ls t := by
  induction hp with
  | nil => exact .nil _
  | @snoc t u ls l _ hP hs ih =>
    have hmono : Path step (fun u k => P u k ∧ k ∈ ls ++ [l]) s ls t :=
      ih.mono fun _ _ h => ⟨h.1, List.mem_append_left _ h.2⟩
    exact .snoc hmono ⟨hP, by simp⟩ hs

theorem Path.eq_of_nil {s t : σ} (hp : Path step P s [] t) : s = t := by
  generalize hls : ([] : List ℓ) = ls at hp
  cases hp with
  | nil => rfl
  | snoc _ _ _ => simp at hls

theorem Path.head {s t : σ} {l : ℓ} {ls : List ℓ} (hp : Path step P s (l :: ls) t) :
    ∃ u, P s l ∧ step s l = some u ∧ Path step P u ls t := by
  generalize hks : l :: ls = ks at hp
  induction hp generalizing ls with
  | nil => cases hks
  | @snoc v w ks k hpath hP hs ih =>
    cases ks with
    | nil =>
      obtain rfl := hpath.eq_of_nil
      cases hks
      exact ⟨w, hP, hs, .nil w⟩
    | cons m ks =>
      rw [List.cons_append] at hks
      obtain ⟨rfl, rfl⟩ := List.cons.inj hks
      obtain ⟨u, hPl, hl, hrest⟩ := ih rfl
      exact ⟨u, hPl, hl, .snoc hrest hP hs⟩

theorem Path.lift {σ' : Type*} {step' : σ' → ℓ → Option σ'} {P' : σ' → ℓ → Prop} {f : σ → σ'}
    (hstep : ∀ s l, step' (f s) l = (step s l).map f) {s : σ} {ls : List ℓ} {t' : σ'}
    (hp : Path step' P' (f s) ls t') :
    ∃ t, Path step (fun u l => P' (f u) l) s ls t ∧ f t = t' := by
  induction hp with
  | nil => exact ⟨s, .nil s, rfl⟩
  | snoc _ hP hu ih =>
    obtain ⟨t, ht, rfl⟩ := ih
    rw [hstep, Option.map_eq_some_iff] at hu
    obtain ⟨u, hu, rfl⟩ := hu
    exact ⟨u, .snoc ht hP hu, rfl⟩

/-- Every step of one system is answered by a run of another with the same
visible labels. -/
theorem Path.simulate {σ' : Type*} {step' : σ' → ℓ → Option σ'} {P' : σ' → ℓ → Prop}
    {R : σ → σ' → Prop} {visible : ℓ → Bool}
    (hstep : ∀ u u' l v, R u u' → P u l → step u l = some v → ∃ ks v',
      Path step' P' u' ks v' ∧ R v v' ∧ ks.filter visible = [l].filter visible)
    {s t : σ} {s' : σ'} {ls : List ℓ} (hp : Path step P s ls t) (h0 : R s s') :
    ∃ ks t', Path step' P' s' ks t' ∧ R t t' ∧ ks.filter visible = ls.filter visible := by
  induction hp with
  | nil => exact ⟨[], s', .nil s', h0, rfl⟩
  | snoc _ hP hs ih =>
    obtain ⟨ks, u', hpath, hR, hvisible⟩ := ih
    obtain ⟨ks', v', hpath', hR', hvisible'⟩ := hstep _ _ _ _ hR hP hs
    refine ⟨ks ++ ks', v', hpath.trans hpath', hR', ?_⟩
    rw [List.filter_append, List.filter_append, hvisible, hvisible']

/-- With one permitted label in each state, runs that cannot go on have the
same end. -/
theorem Path.end_unique
    (hdet : ∀ u l k v w, P u l → P u k → step u l = some v → step u k = some w → l = k)
    {s t t' : σ} {ls ks : List ℓ} (hp : Path step P s ls t) (hq : Path step P s ks t')
    (ht : ∀ l, P t l → step t l = none) (ht' : ∀ l, P t' l → step t' l = none) : t = t' := by
  have hstarts : ∃ more, Path step P t more t' := by
    clear ht
    induction hp with
    | nil => exact ⟨ks, hq⟩
    | @snoc v u _ l _ hP hs ih =>
      obtain ⟨more, hmore⟩ := ih
      cases more with
      | nil =>
        obtain rfl := hmore.eq_of_nil
        rw [ht' l hP] at hs
        cases hs
      | cons k more =>
        obtain ⟨w, hPk, hk, hrest⟩ := hmore.head
        obtain rfl := hdet _ _ _ _ _ hP hPk hs hk
        rw [hs] at hk
        cases hk
        exact ⟨more, hrest⟩
  obtain ⟨more, hmore⟩ := hstarts
  cases more with
  | nil => exact hmore.eq_of_nil
  | cons l more =>
    obtain ⟨w, hP, hs, -⟩ := hmore.head
    rw [ht l hP] at hs
    cases hs

theorem Reachable.invariant {s t : σ} (hr : Reachable step s t) (I : σ → Prop)
    (h0 : I s) (hstep : ∀ u l v, I u → step u l = some v → I v) : I t := by
  obtain ⟨ls, hp⟩ := hr
  exact hp.invariant I h0 (fun u l v hu _ hs => hstep u l v hu hs)

theorem Reachable.of_runLabels {s t : σ} {ls : List ℓ} (h : runLabels step s ls = some t) :
    Reachable step s t := ⟨ls, .of_runLabels h⟩

end
end Foundation
