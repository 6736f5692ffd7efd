import Qup.Foundation.Program

/-!
# Contracts

What a program may ask of its requests and what it may count on in their
answers. Programs that meet one contract can run interleaved: as long as every
operation keeps the invariant behind the contract, none of them leaves it. A
program alone has postconditions in the usual way.
-/

namespace Foundation

structure Contract {Op : Type} (Res : Op → Type) where
  asks : Op → Prop
  gives : (o : Op) → Res o → Prop

variable {Op : Type} {Res : Op → Type} {ε α β σ : Type}

def Contract.KeptBy (C : Contract Res) (exec : (o : Op) → σ → Res o × σ) (I : σ → Prop) : Prop :=
  ∀ o s, I s → C.asks o → C.gives o (exec o s).1 ∧ I (exec o s).2

namespace Program

/-- As long as the answers are as promised, every request may be made, every
early exit is in `Q` and every result in `R`. -/
def Meets (C : Contract Res) (Q : ε → Prop) (R : α → Prop) : Program Res ε α → Prop
  | .ret a => R a
  | .fail e => Q e
  | .act o k => C.asks o ∧ ∀ r, C.gives o r → (k r).Meets C Q R

variable {C : Contract Res} {Q : ε → Prop} {R : α → Prop} {S : β → Prop}

theorem Meets.mono {Q' : ε → Prop} {R' : α → Prop} {p : Program Res ε α} (h : p.Meets C Q R)
    (hQ : ∀ e, Q e → Q' e) (hR : ∀ a, R a → R' a) : p.Meets C Q' R' := by
  induction p with
  | ret a => exact hR a h
  | fail e => exact hQ e h
  | act o k ih => exact ⟨h.1, fun r hr => ih r (h.2 r hr)⟩

theorem meets_bind {p : Program Res ε α} {f : α → Program Res ε β} (hp : p.Meets C Q R)
    (hf : ∀ a, R a → (f a).Meets C Q S) : (p >>= f).Meets C Q S := by
  induction p with
  | ret a => exact hf a hp
  | fail e => exact hp
  | act o k ih => exact ⟨hp.1, fun r hr => ih r (hp.2 r hr)⟩

theorem meets_attempt {ε' : Type} {Q' : ε' → Prop} {R' : Except ε α → Prop}
    {p : Program Res ε α} (hp : p.Meets C (fun e => R' (.error e)) (fun a => R' (.ok a))) :
    (p.attempt : Program Res ε' (Except ε α)).Meets C Q' R' := by
  induction p with
  | ret a => exact hp
  | fail e => exact hp
  | act o k ih => exact ⟨hp.1, fun r hr => ih r (hp.2 r hr)⟩

theorem meets_ite {c : Prop} [Decidable c] {p q : Program Res ε α} (hp : c → p.Meets C Q R)
    (hq : ¬ c → q.Meets C Q R) : (if c then p else q).Meets C Q R := by
  split_ifs with hc
  · exact hp hc
  · exact hq hc

theorem Meets.exec {exec : (o : Op) → σ → Res o × σ} {I : σ → Prop} (hC : C.KeptBy exec I)
    {o : Op} {k : Res o → Program Res ε α} (h : (Program.act o k).Meets C Q R) {s : σ} (hs : I s) :
    (k (exec o s).1).Meets C Q R ∧ I (exec o s).2 :=
  have hkept := hC o s hs h.1
  ⟨h.2 _ hkept.1, hkept.2⟩

def Ensures (exec : (o : Op) → σ → Res o × σ) (p : Program Res ε α) (s : σ) (P : α → σ → Prop) :
    Prop :=
  ∀ a, (p.eval exec s).1 = .ok a → P a (p.eval exec s).2

variable {exec : (o : Op) → σ → Res o × σ} {s : σ} {P P' : α → σ → Prop}

theorem ensures_ret {a : α} (h : P a s) : (Program.ret a : Program Res ε α).Ensures exec s P := by
  intro b hb
  cases hb
  exact h

theorem ensures_fail (e : ε) : (Program.fail e : Program Res ε α).Ensures exec s P := by
  intro b hb
  cases hb

theorem Ensures.mono {p : Program Res ε α} (h : p.Ensures exec s P)
    (hP : ∀ a t, P a t → P' a t) : p.Ensures exec s P' :=
  fun a ha => hP a _ (h a ha)

theorem ensures_bind {p : Program Res ε α} {f : α → Program Res ε β} {R : β → σ → Prop}
    (hp : p.Ensures exec s P) (hf : ∀ a t, P a t → (f a).Ensures exec t R) :
    (p >>= f).Ensures exec s R := by
  intro b hb
  cases h : (p.eval exec s).1 with
  | ok a =>
    rw [eval_bind_ok h] at hb ⊢
    exact hf a _ (hp a h) b hb
  | error e =>
    rw [eval_bind_error h] at hb
    cases hb

/-- Whatever the operations do, the result and the last state are in `P`. In `s` the
operation `o` may answer `r` and lead to `t` when `A o s r t`. -/
def Assures (A : (o : Op) → σ → Res o → σ → Prop) (P : Except ε α → σ → Prop) :
    Program Res ε α → σ → Prop
  | .ret a, s => P (.ok a) s
  | .fail e, s => P (.error e) s
  | .act o k, s => ∀ r t, A o s r t → (k r).Assures A P t

variable {A : (o : Op) → σ → Res o → σ → Prop}

theorem assures_bind {p : Program Res ε α} {f : α → Program Res ε β} {s : σ}
    {P : Except ε α → σ → Prop} {R : Except ε β → σ → Prop} (hp : p.Assures A P s)
    (hok : ∀ a t, P (.ok a) t → (f a).Assures A R t)
    (herror : ∀ e t, P (.error e) t → R (.error e) t) : (p >>= f).Assures A R s := by
  induction p generalizing s with
  | ret a => exact hok a s hp
  | fail e => exact herror e s hp
  | act o k ih => exact fun r t hA => ih r (hp r t hA)

end Program
end Foundation
