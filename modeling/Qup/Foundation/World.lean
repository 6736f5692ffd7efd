import Qup.Foundation.Routine
import Qup.Foundation.Transition

/-!
# Routines in a world

A world answers the requests of a routine and moves on its own in between. What
is proved of the routine against a discipline and a promise about the answers
holds in every run of it in every world that keeps the promise.
-/

namespace Foundation

structure World (σ : Type) {Op : Type} (Res : Op → Type) (κ ℓ : Type) where
  /-- Answers a request; the choice `κ` settles what the world leaves open. -/
  serve : σ → κ → (o : Op) → Option (Res o × σ)
  move : σ → ℓ → Option σ

structure Hosted (σ : Type) {Op : Type} (Res : Op → Type) (ε α : Type) where
  world : σ
  routine : Routine Res ε α

inductive Beat (κ ℓ : Type) where
  | request (c : κ)
  | unroll
  | move (l : ℓ)

section
variable {σ Op : Type} {Res : Op → Type} {κ ℓ S ε α : Type}

def Hosted.step (W : World σ Res κ ℓ) (h : Hosted σ Res ε α) : Beat κ ℓ → Option (Hosted σ Res ε α)
  | .request c =>
    match h.routine with
    | .act o k => (W.serve h.world c o).map fun reply => ⟨reply.2, k reply.1⟩
    | _ => none
  | .unroll => h.routine.unroll.map fun routine => { h with routine }
  | .move l => (W.move h.world l).map fun world => { h with world }

inductive Hosted.Steps (W : World σ Res κ ℓ) : Hosted σ Res ε α → Beat κ ℓ → Hosted σ Res ε α → Prop
    where
  | request (w w' : σ) (c : κ) (o : Op) (k : Res o → Routine Res ε α) (r : Res o)
      (hserve : W.serve w c o = some (r, w')) : Steps W ⟨w, .act o k⟩ (.request c) ⟨w', k r⟩
  | unroll (w : σ) (p q : Routine Res ε α) (hq : p.unroll = some q) : Steps W ⟨w, p⟩ .unroll ⟨w, q⟩
  | move (w w' : σ) (l : ℓ) (p : Routine Res ε α) (hmove : W.move w l = some w') :
      Steps W ⟨w, p⟩ (.move l) ⟨w', p⟩

theorem Hosted.step_cases {W : World σ Res κ ℓ} {h h' : Hosted σ Res ε α} {b : Beat κ ℓ}
    (hs : h.step W b = some h') : Hosted.Steps W h b h' := by
  obtain ⟨w, p⟩ := h
  cases b with
  | request c =>
    cases p with
    | act o k =>
      obtain ⟨⟨r, w'⟩, hserve, rfl⟩ := Option.map_eq_some_iff.mp hs
      exact .request w w' c o k r hserve
    | _ => cases hs
  | unroll =>
    obtain ⟨q, hq, rfl⟩ := Option.map_eq_some_iff.mp hs
    exact .unroll w p q hq
  | move l =>
    obtain ⟨w', hmove, rfl⟩ := Option.map_eq_some_iff.mp hs
    exact .move w w' l p hmove

/-- A world keeps a promise about its answers: `I` ties its state to that of the discipline. -/
structure World.Keeps (W : World σ Res κ ℓ) (D : Discipline Res S) (G : S → (o : Op) → Res o → Prop)
    (I : σ → S → Prop) : Prop where
  serve : ∀ {w w' s c o r}, I w s → D.allows s o → W.serve w c o = some (r, w') →
    G s o r ∧ I w' (D.next s o r)
  move : ∀ {w w' s l}, I w s → W.move w l = some w' → I w' s

variable {W : World σ Res κ ℓ} {D : Discipline Res S} {G : S → (o : Op) → Res o → Prop}
  {I : σ → S → Prop} {R : S → Except ε α → Prop}

/-- The routine follows the discipline from a state that the world is in. -/
def Hosted.Follows (D : Discipline Res S) (G : S → (o : Op) → Res o → Prop) (I : σ → S → Prop)
    (R : S → Except ε α → Prop) (h : Hosted σ Res ε α) : Prop :=
  ∃ s, I h.world s ∧ h.routine.Follows D G R s

theorem Hosted.Follows.step (hW : W.Keeps D G I) {h h' : Hosted σ Res ε α} {b : Beat κ ℓ}
    (hf : h.Follows D G I R) (hs : h.step W b = some h') : h'.Follows D G I R := by
  obtain ⟨s, hI, hp⟩ := hf
  cases Hosted.step_cases hs with
  | request w w' c o k r hserve =>
    obtain ⟨hr, hI'⟩ := hW.serve hI hp.1 hserve
    exact ⟨D.next s o r, hI', hp.2 r hr⟩
  | unroll w p q hq => exact ⟨s, hI, hp.unroll hq⟩
  | move w w' l p hmove => exact ⟨s, hW.move hI hmove, hp⟩

theorem Hosted.Follows.path (hW : W.Keeps D G I) {h h' : Hosted σ Res ε α}
    {Q : Hosted σ Res ε α → Beat κ ℓ → Prop} {beats : List (Beat κ ℓ)} (hf : h.Follows D G I R)
    (hrun : Path (Hosted.step W) Q h beats h') : h'.Follows D G I R :=
  hrun.invariant (Hosted.Follows D G I R) hf fun _ _ _ hu _ hs => hu.step hW hs

theorem Hosted.reachable {τ ℓ' : Type} {step : τ → ℓ' → Option τ} {view : σ → τ}
    (hserve : ∀ {w w' c o r}, W.serve w c o = some (r, w') → Reachable step (view w) (view w'))
    (hmove : ∀ {w w' l}, W.move w l = some w' → Reachable step (view w) (view w'))
    {h h' : Hosted σ Res ε α} {Q : Hosted σ Res ε α → Beat κ ℓ → Prop} {beats : List (Beat κ ℓ)}
    (hrun : Path (Hosted.step W) Q h beats h') : Reachable step (view h.world) (view h'.world) := by
  induction hrun with
  | nil => exact ⟨[], .nil _⟩
  | @snoc h₁ h₂ beats b _ _ hs ih =>
    obtain ⟨ls, hls⟩ := ih
    have hstep : Reachable step (view h₁.world) (view h₂.world) := by
      cases Hosted.step_cases hs with
      | request w w' c o k r hr => exact hserve hr
      | unroll w p q hq => exact ⟨[], .nil _⟩
      | move w w' l p hl => exact hmove hl
    obtain ⟨ls', hls'⟩ := hstep
    exact ⟨ls ++ ls', hls.trans hls'⟩

end

namespace Routine
variable {Op : Type} {Res : Op → Type} {ε ε' α β γ τ : Type}

theorem bind_assoc (p : Routine Res ε α) (f : α → Routine Res ε β) (g : β → Routine Res ε γ) :
    (p.bind f).bind g = p.bind fun a => (f a).bind g := by
  induction p with
  | ret a => rfl
  | fail e => rfl
  | act o k ih =>
    simp only [bind]
    congr 1
    funext r
    exact ih r f
  | loop x body k _ ihk =>
    simp only [bind]
    congr 1
    funext b
    exact ihk b f

def afterAttempt (f : α → Routine Res ε β) : Except ε α → Routine Res ε' (Except ε β)
  | .ok a => (f a).attempt
  | .error e => .ret (.error e)

theorem attempt_bind (p : Routine Res ε α) (f : α → Routine Res ε β) :
    ((p.bind f).attempt : Routine Res ε' (Except ε β)) = p.attempt.bind (afterAttempt f) := by
  induction p with
  | ret a => rfl
  | fail e => rfl
  | act o k ih =>
    simp only [bind, attempt]
    congr 1
    funext r
    exact ih r f
  | loop x body k _ ihk =>
    simp only [bind, attempt]
    congr 1
    funext b
    cases b with
    | ok b => exact ihk b f
    | error e => rfl

theorem unroll_bind {p q : Routine Res ε α} (h : p.unroll = some q) (f : α → Routine Res ε β) :
    (p.bind f).unroll = some (q.bind f) := by
  cases p with
  | loop x body k =>
    cases h
    simp only [bind, unroll, bind_assoc]
    congr 2
    funext y
    cases y <;> rfl
  | _ => cases h

theorem unroll_attempt {p q : Routine Res ε α} (h : p.unroll = some q) :
    (p.attempt : Routine Res ε' (Except ε α)).unroll = some q.attempt := by
  cases p with
  | loop x body k =>
    cases h
    simp only [attempt, unroll, bind_assoc, attempt_bind]
    congr 2
    funext y
    cases y with
    | error e => rfl
    | ok y =>
      cases y with
      | inl x =>
        simp only [afterAttempt, afterRound, attempt]
        rfl
      | inr b => rfl
  | _ => cases h

def returned : Routine Res ε α → Option α
  | .ret a => some a
  | _ => none

theorem eq_ret_of_returned {p : Routine Res ε α} {a : α} (h : p.returned = some a) : p = .ret a := by
  cases p with
  | ret b => exact congrArg _ (Option.some.inj h)
  | _ => cases h

end Routine

namespace Routine
variable {Op Op' : Type} {Res : Op → Type} {Res' : Op' → Type} {S ε α : Type}

def embed (f : Op → Op') (g : (o : Op) → Res' (f o) → Res o) {α : Type} :
    Routine Res ε α → Routine Res' ε α
  | .ret a => .ret a
  | .fail e => .fail e
  | .act o k => .act (f o) fun r => (k (g o r)).embed f g
  | .loop x body k => .loop x (fun x => (body x).embed f g) fun b => (k b).embed f g

variable {f : Op → Op'} {g : (o : Op) → Res' (f o) → Res o}

/-- A discipline of the requests `Op'` that treats those of the routine as `D` does the
part `view` of its state, and leaves the part `rest` alone. -/
theorem Follows.embed {S' F : Type} {D : Discipline Res S} {G : S → (o : Op) → Res o → Prop}
    {D' : Discipline Res' S'} {G' : S' → (o : Op') → Res' o → Prop} {view : S' → S} {rest : S' → F}
    (hallows : ∀ s o, D.allows (view s) o → D'.allows s (f o))
    (hanswers : ∀ s o r, G' s (f o) r → G (view s) o (g o r))
    (hnext : ∀ s o r, view (D'.next s (f o) r) = D.next (view s) o (g o r))
    (hrest : ∀ s o r, rest (D'.next s (f o) r) = rest s) {p : Routine Res ε α}
    {R : S → Except ε α → Prop} {s : S'} (h : p.Follows D G R (view s)) :
    (p.embed f g).Follows D' G' (fun t r => R (view t) r ∧ rest t = rest s) s := by
  induction p generalizing s with
  | ret a => exact ⟨h, rfl⟩
  | fail e => exact ⟨h, rfl⟩
  | act o k ih =>
    refine ⟨hallows s o h.1, fun r hr => ?_⟩
    have hk := h.2 (g o r) (hanswers s o r hr)
    rw [← hnext] at hk
    refine (ih (g o r) hk).mono fun t r' ht => ⟨ht.1, ?_⟩
    rw [ht.2, hrest]
  | loop x body k ihbody ihk =>
    obtain ⟨J, hJ, hround⟩ := h
    refine ⟨fun x t => J x (view t) ∧ rest t = rest s, ⟨hJ, rfl⟩, fun x t hx => ?_⟩
    refine (ihbody x (hround x (view t) hx.1)).mono fun u r hr => ?_
    have hsame : rest u = rest s := hr.2.trans hx.2
    match r, hr with
    | .ok (.inl x), hr => exact ⟨hr.1, hsame⟩
    | .ok (.inr b), hr => exact (ihk b hr.1).mono fun v r' hv => ⟨hv.1, hv.2.trans hsame⟩
    | .error e, hr => exact ⟨hr.1, hsame⟩

end Routine
end Foundation
