import Qup.Foundation.Discipline

/-!
# Routines

Programs with unbounded loops. `loop x body k` runs `body` from `x` again and
again, with the state that each round returns, until a round returns a result for
`k`; it need not end. Running a routine alternates its requests with rounds of its
loops that are unrolled one at a time, and `Follows` is kept by both: a loop
follows a discipline when an invariant does.
-/

namespace Foundation

inductive Routine {Op : Type} (Res : Op → Type) (ε : Type) : Type → Type 1 where
  | ret {α : Type} : α → Routine Res ε α
  | fail {α : Type} : ε → Routine Res ε α
  | act {α : Type} : (o : Op) → (Res o → Routine Res ε α) → Routine Res ε α
  | loop {σ β α : Type} : σ → (σ → Routine Res ε (σ ⊕ β)) → (β → Routine Res ε α) →
      Routine Res ε α

namespace Routine
variable {Op : Type} {Res : Op → Type} {S ε ε' α β σ : Type}

def bind : Routine Res ε α → (α → Routine Res ε β) → Routine Res ε β
  | .ret a, f => f a
  | .fail e, _ => .fail e
  | .act o k, f => .act o (fun r => (k r).bind f)
  | .loop x body k, f => .loop x body (fun b => (k b).bind f)

instance : Monad (Routine Res ε) where
  pure := .ret
  bind := bind

def iterate (x : σ) (body : σ → Routine Res ε (σ ⊕ β)) : Routine Res ε β := .loop x body .ret

def attemptRound : Except ε (σ ⊕ β) → σ ⊕ Except ε β
  | .ok (.inl x) => .inl x
  | .ok (.inr b) => .inr (.ok b)
  | .error e => .inr (.error e)

def attempt {α : Type} : Routine Res ε α → Routine Res ε' (Except ε α)
  | .ret a => .ret (.ok a)
  | .fail e => .ret (.error e)
  | .act o k => .act o (fun r => (k r).attempt)
  | .loop x body k =>
    .loop x (fun x => (body x).attempt.bind fun r => .ret (attemptRound r)) fun
      | .ok b => (k b).attempt
      | .error e => .ret (.error e)

def mapError (f : ε → ε') (p : Routine Res ε α) : Routine Res ε' α :=
  p.attempt.bind fun
    | .ok a => .ret a
    | .error e => .fail (f e)

@[simp] theorem pure_eq (a : α) : (pure a : Routine Res ε α) = .ret a := rfl

@[simp] theorem bind_eq (p : Routine Res ε α) (f : α → Routine Res ε β) : (p >>= f) = p.bind f :=
  rfl

def afterRound (body : σ → Routine Res ε (σ ⊕ β)) (k : β → Routine Res ε α) :
    σ ⊕ β → Routine Res ε α
  | .inl x => .loop x body k
  | .inr b => k b

def unroll : Routine Res ε α → Option (Routine Res ε α)
  | .loop x body k => some ((body x).bind (afterRound body k))
  | _ => none

def answer [DecidableEq Op] (o : Op) (r : Res o) : Routine Res ε α → Option (Routine Res ε α)
  | .act o' k => if h : o = o' then some (k (h ▸ r)) else none
  | _ => none

def next : Routine Res ε α → Option Op
  | .act o _ => some o
  | _ => none

theorem answer_eq_some [DecidableEq Op] {o : Op} {r : Res o} {p q : Routine Res ε α}
    (h : p.answer o r = some q) : ∃ k, p = .act o k ∧ q = k r := by
  cases p with
  | act o' k =>
    simp only [answer] at h
    split_ifs at h with ho
    subst ho
    cases h
    exact ⟨k, rfl, rfl⟩
  | _ => cases h

-- `G` is what may be counted on in the answers.
variable {D : Discipline Res S} {G : S → (o : Op) → Res o → Prop}

def Follows (D : Discipline Res S) (G : S → (o : Op) → Res o → Prop) {α : Type} :
    Routine Res ε α → (S → Except ε α → Prop) → S → Prop
  | .ret a, R, s => R s (.ok a)
  | .fail e, R, s => R s (.error e)
  | .act o k, R, s => D.allows s o ∧ ∀ r, G s o r → (k r).Follows D G R (D.next s o r)
  | @loop _ _ _ σ _ _ x body k, R, s => ∃ I : σ → S → Prop, I x s ∧
      ∀ x s, I x s → (body x).Follows D G (fun s r => match r with
        | .ok (.inl x) => I x s
        | .ok (.inr b) => (k b).Follows D G R s
        | .error e => R s (.error e)) s

theorem Follows.mono {p : Routine Res ε α} {R R' : S → Except ε α → Prop} {s : S}
    (h : p.Follows D G R s) (hR : ∀ s r, R s r → R' s r) : p.Follows D G R' s := by
  induction p generalizing s with
  | ret a => exact hR s _ h
  | fail e => exact hR s _ h
  | act o k ih => exact ⟨h.1, fun r hr => ih r (h.2 r hr) hR⟩
  | loop x body k ihbody ihk =>
    obtain ⟨I, hI, hround⟩ := h
    refine ⟨I, hI, fun x s hx => ihbody x (hround x s hx) fun s r hr => ?_⟩
    match r, hr with
    | .ok (.inl x), hr => exact hr
    | .ok (.inr b), hr => exact ihk b hr hR
    | .error e, hr => exact hR s _ hr

def AndThen (D : Discipline Res S) (G : S → (o : Op) → Res o → Prop)
    (R : S → Except ε β → Prop) (f : α → Routine Res ε β) (s : S) : Except ε α → Prop
  | .ok a => (f a).Follows D G R s
  | .error e => R s (.error e)

theorem Follows.bind {p : Routine Res ε α} {f : α → Routine Res ε β} {R : S → Except ε β → Prop}
    {s : S} (h : p.Follows D G (AndThen D G R f) s) : (p.bind f).Follows D G R s := by
  induction p generalizing s with
  | ret a => exact h
  | fail e => exact h
  | act o k ih => exact ⟨h.1, fun r hr => ih r (h.2 r hr)⟩
  | loop x body k ihbody ihk =>
    obtain ⟨I, hI, hround⟩ := h
    refine ⟨I, hI, fun x s hx => (hround x s hx).mono fun s r hr => ?_⟩
    match r, hr with
    | .ok (.inl x), hr => exact hr
    | .ok (.inr b), hr => exact ihk b hr
    | .error e, hr => exact hr

theorem Follows.ask {o : Op} {f : Res o → Routine Res ε β} {R : S → Except ε β → Prop} {s : S}
    (ho : D.allows s o) (hf : ∀ r, G s o r → (f r).Follows D G R (D.next s o r)) :
    ((Routine.act o .ret).bind f).Follows D G R s := ⟨ho, hf⟩

theorem Follows.attempt {p : Routine Res ε α} {R : S → Except ε' (Except ε α) → Prop} {s : S}
    (h : p.Follows D G (fun s r => R s (.ok r)) s) :
    (p.attempt : Routine Res ε' (Except ε α)).Follows D G R s := by
  induction p generalizing s with
  | ret a => exact h
  | fail e => exact h
  | act o k ih => exact ⟨h.1, fun r hr => ih r (h.2 r hr)⟩
  | loop x body k ihbody ihk =>
    obtain ⟨I, hI, hround⟩ := h
    unfold Routine.attempt
    refine ⟨I, hI, fun x s hx => .bind (ihbody x ((hround x s hx).mono fun s r hr => ?_))⟩
    match r, hr with
    | .ok (.inl x), hr => exact hr
    | .ok (.inr b), hr => exact ihk b hr
    | .error e, hr => exact hr

theorem Follows.mapError {p : Routine Res ε α} {f : ε → ε'} {R : S → Except ε' α → Prop} {s : S}
    (h : p.Follows D G (fun s r => R s (r.mapError f)) s) : (p.mapError f).Follows D G R s := by
  refine .bind (.attempt (h.mono fun s r hr => ?_))
  cases r <;> exact hr

/-- What a round of a loop with invariant `I` may end in. -/
def RoundEnd (I : σ → S → Prop) (R : S → Except ε β → Prop) (s : S) : Except ε (σ ⊕ β) → Prop
  | .ok (.inl x) => I x s
  | .ok (.inr b) => R s (.ok b)
  | .error e => R s (.error e)

theorem Follows.iterate {x : σ} {body : σ → Routine Res ε (σ ⊕ β)} {R : S → Except ε β → Prop}
    {s : S} (I : σ → S → Prop) (hI : I x s)
    (hround : ∀ x s, I x s → (body x).Follows D G (RoundEnd I R) s) :
    (iterate x body).Follows D G R s := by
  refine ⟨I, hI, fun x s hx => (hround x s hx).mono fun s r hr => ?_⟩
  match r, hr with
  | .ok (.inl x), hr => exact hr
  | .ok (.inr b), hr => exact hr
  | .error e, hr => exact hr

theorem follows_ite {c : Prop} [Decidable c] {p q : Routine Res ε α} {R : S → Except ε α → Prop}
    {s : S} (hp : c → p.Follows D G R s) (hq : ¬ c → q.Follows D G R s) :
    (if c then p else q).Follows D G R s := by
  split_ifs with hc
  · exact hp hc
  · exact hq hc

theorem Follows.unroll {p q : Routine Res ε α} {R : S → Except ε α → Prop} {s : S}
    (h : p.Follows D G R s) (hq : p.unroll = some q) : q.Follows D G R s := by
  cases p with
  | loop x body k =>
    cases hq
    obtain ⟨I, hI, hround⟩ := h
    refine .bind ((hround x s hI).mono fun s r hr => ?_)
    match r, hr with
    | .ok (.inl x), hr => exact ⟨I, hr, hround⟩
    | .ok (.inr b), hr => exact hr
    | .error e, hr => exact hr
  | _ => cases hq

theorem Follows.answer [DecidableEq Op] {p q : Routine Res ε α} {R : S → Except ε α → Prop}
    {s : S} (h : p.Follows D G R s) {o : Op} {r : Res o} (hq : p.answer o r = some q)
    (hr : G s o r) : q.Follows D G R (D.next s o r) := by
  obtain ⟨k, rfl, rfl⟩ := answer_eq_some hq
  exact h.2 r hr

theorem Follows.allows {p : Routine Res ε α} {R : S → Except ε α → Prop} {s : S}
    (h : p.Follows D G R s) {o : Op} (ho : p.next = some o) : D.allows s o := by
  cases p with
  | act o' k =>
    cases ho
    exact h.1
  | _ => cases ho

def Within (A : Op → Prop) {α : Type} : Routine Res ε α → Prop
  | .ret _ | .fail _ => True
  | .act o k => A o ∧ ∀ r, (k r).Within A
  | .loop _ body k => (∀ x, (body x).Within A) ∧ ∀ b, (k b).Within A

theorem Within.bind {A : Op → Prop} {p : Routine Res ε α} {f : α → Routine Res ε β}
    (hp : p.Within A) (hf : ∀ a, (f a).Within A) : (p.bind f).Within A := by
  induction p with
  | ret a => exact hf a
  | fail e => trivial
  | act o k ih => exact ⟨hp.1, fun r => ih r (hp.2 r) hf⟩
  | loop x body k _ ihk => exact ⟨hp.1, fun b => ihk b (hp.2 b) hf⟩

theorem Within.ask {A : Op → Prop} {o : Op} {f : Res o → Routine Res ε β} (ho : A o)
    (hf : ∀ r, (f r).Within A) : ((Routine.act o .ret).bind f).Within A := ⟨ho, hf⟩

theorem Within.attempt {A : Op → Prop} {p : Routine Res ε α} (hp : p.Within A) :
    (p.attempt : Routine Res ε' (Except ε α)).Within A := by
  induction p with
  | ret a => trivial
  | fail e => trivial
  | act o k ih => exact ⟨hp.1, fun r => ih r (hp.2 r)⟩
  | loop x body k ihbody ihk =>
    unfold Routine.attempt
    refine ⟨fun x => (ihbody x (hp.1 x)).bind fun r => trivial, fun b => ?_⟩
    cases b with
    | ok b => exact ihk b (hp.2 b)
    | error e => trivial

theorem Within.mapError {A : Op → Prop} {p : Routine Res ε α} {f : ε → ε'} (hp : p.Within A) :
    (p.mapError f).Within A := by
  refine hp.attempt.bind fun r => ?_
  cases r <;> trivial

theorem Within.iterate {A : Op → Prop} {x : σ} {body : σ → Routine Res ε (σ ⊕ β)}
    (hbody : ∀ x, (body x).Within A) : (iterate x body).Within A := ⟨hbody, fun _ => trivial⟩

theorem within_ite {A : Op → Prop} {c : Prop} [Decidable c] {p q : Routine Res ε α}
    (hp : p.Within A) (hq : q.Within A) : (if c then p else q).Within A := by
  split_ifs
  · exact hp
  · exact hq

/-- Requests in `A` are allowed under `I` and keep it. -/
theorem Within.follows {A : Op → Prop} {I : S → Prop} {p : Routine Res ε α}
    {R : S → Except ε α → Prop} {s : S} (hp : p.Within A) (hI : I s)
    (hallows : ∀ s o, A o → I s → D.allows s o)
    (hnext : ∀ s o r, A o → I s → I (D.next s o r)) (hR : ∀ s r, I s → R s r) :
    p.Follows D G R s := by
  induction p generalizing s with
  | ret a => exact hR s _ hI
  | fail e => exact hR s _ hI
  | act o k ih =>
    exact ⟨hallows s o hp.1 hI, fun r _ => ih r (hp.2 r) (hnext s o r hp.1 hI) hR⟩
  | loop x body k ihbody ihk =>
    refine ⟨fun _ => I, hI, fun x s hx => ihbody x (hp.1 x) hx fun s r hs => ?_⟩
    match r with
    | .ok (.inl x) => exact hs
    | .ok (.inr b) => exact ihk b (hp.2 b) hs hR
    | .error e => exact hR s _ hs

end Routine
end Foundation
