import Qup.Foundation.Program

/-!
# Disciplines

Which request a program may make next, given what its requests so far and their
answers have led to. A discipline is a typestate: a state that every answered
request moves, and the requests that each state allows. What is proved of a
program here holds whatever runs between its requests.
-/

namespace Foundation

structure Discipline {Op : Type} (Res : Op → Type) (S : Type) where
  allows : S → Op → Prop
  next : S → (o : Op) → Res o → S

namespace Program
variable {Op : Type} {Res : Op → Type} {S ε ε' α β : Type} {D : Discipline Res S}

/-- From state `s`, every request is allowed when it is made, and the state and
the result at the end are in `R`. -/
def Follows (D : Discipline Res S) (R : S → Except ε α → Prop) : S → Program Res ε α → Prop
  | s, .ret a => R s (.ok a)
  | s, .fail e => R s (.error e)
  | s, .act o k => D.allows s o ∧ ∀ r, (k r).Follows D R (D.next s o r)

variable {R : S → Except ε α → Prop} {s : S}

@[simp] theorem follows_ret (a : α) :
    (Program.ret a : Program Res ε α).Follows D R s ↔ R s (.ok a) := .rfl

@[simp] theorem follows_fail (e : ε) :
    (Program.fail e : Program Res ε α).Follows D R s ↔ R s (.error e) := .rfl

@[simp] theorem follows_act (o : Op) (k : Res o → Program Res ε α) :
    (Program.act o k).Follows D R s ↔ D.allows s o ∧ ∀ r, (k r).Follows D R (D.next s o r) := .rfl

theorem Follows.mono {p : Program Res ε α} {R' : S → Except ε α → Prop} (h : p.Follows D R s)
    (hR : ∀ s r, R s r → R' s r) : p.Follows D R' s := by
  induction p generalizing s with
  | ret a => exact hR s _ h
  | fail e => exact hR s _ h
  | act o k ih => exact ⟨h.1, fun r => ih r (h.2 r)⟩

/-- What `f` needs of the first part: its results lead on, its exits are final. -/
def AndThen (D : Discipline Res S) (R : S → Except ε β → Prop) (f : α → Program Res ε β) (s : S) :
    Except ε α → Prop
  | .ok a => (f a).Follows D R s
  | .error e => R s (.error e)

theorem follows_bind {p : Program Res ε α} {f : α → Program Res ε β} {R : S → Except ε β → Prop} :
    (p >>= f).Follows D R s ↔ p.Follows D (AndThen D R f) s := by
  induction p generalizing s with
  | ret a => exact .rfl
  | fail e => exact .rfl
  | act o k ih =>
    simp only [act_bind, follows_act]
    exact and_congr_right fun _ => forall_congr' fun r => ih r

theorem follows_attempt {p : Program Res ε α} {R : S → Except ε' (Except ε α) → Prop} :
    (p.attempt : Program Res ε' (Except ε α)).Follows D R s ↔
      p.Follows D (fun s r => R s (.ok r)) s := by
  induction p generalizing s with
  | ret a => exact .rfl
  | fail e => exact .rfl
  | act o k ih =>
    simp only [attempt, follows_act]
    exact and_congr_right fun _ => forall_congr' fun r => ih r

theorem follows_ite {c : Prop} [Decidable c] {p q : Program Res ε α}
    (hp : c → p.Follows D R s) (hq : ¬ c → q.Follows D R s) :
    (if c then p else q).Follows D R s := by
  split_ifs with hc
  · exact hp hc
  · exact hq hc

end Program
end Foundation
