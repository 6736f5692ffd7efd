import Mathlib.Data.List.Basic

/-!
# Finite effectful programs

A program is a finite tree of typed requests. Each request `act o k` performs
the operation `o` and continues with `k` at the answer; `fail` is an early exit.
Nothing here fixes what an operation does: an interpreter assigns a meaning to
`Op`, and the laws below hold for every interpretation.
-/

namespace Foundation

inductive Program {Op : Type} (Res : Op → Type) (ε α : Type) where
  | ret : α → Program Res ε α
  | fail : ε → Program Res ε α
  | act : (o : Op) → (Res o → Program Res ε α) → Program Res ε α

namespace Program
variable {Op : Type} {Res : Op → Type} {ε α β γ : Type}

def bind : Program Res ε α → (α → Program Res ε β) → Program Res ε β
  | .ret a, f => f a
  | .fail e, _ => .fail e
  | .act o k, f => .act o (fun r => (k r).bind f)

def perform (o : Op) : Program Res ε (Res o) := .act o .ret

def lift : Except ε α → Program Res ε α
  | .ok a => .ret a
  | .error e => .fail e

def attempt {ε' : Type} : Program Res ε α → Program Res ε' (Except ε α)
  | .ret a => .ret (.ok a)
  | .fail e => .ret (.error e)
  | .act o k => .act o (fun r => (k r).attempt)

instance : Monad (Program Res ε) where
  pure := .ret
  bind := bind

@[simp] theorem pure_eq (a : α) : (pure a : Program Res ε α) = .ret a := rfl

@[simp] theorem ret_bind (a : α) (f : α → Program Res ε β) : (Program.ret a >>= f) = f a := rfl

@[simp] theorem fail_bind (e : ε) (f : α → Program Res ε β) :
    ((Program.fail e : Program Res ε α) >>= f) = .fail e := rfl

@[simp] theorem act_bind (o : Op) (k : Res o → Program Res ε α) (f : α → Program Res ε β) :
    (Program.act o k >>= f) = .act o (fun r => k r >>= f) := rfl

@[simp] theorem perform_bind (o : Op) (f : Res o → Program Res ε β) :
    (perform o >>= f) = .act o f := rfl

@[simp] theorem lift_ok (a : α) : (lift (.ok a) : Program Res ε α) = .ret a := rfl

@[simp] theorem lift_error (e : ε) : (lift (.error e) : Program Res ε α) = .fail e := rfl

theorem bind_assoc (p : Program Res ε α) (f : α → Program Res ε β) (g : β → Program Res ε γ) :
    (p >>= f >>= g) = (p >>= fun a => f a >>= g) := by
  induction p with
  | ret a => rfl
  | fail e => rfl
  | act o k ih =>
    simp only [act_bind]
    congr 1
    funext r
    exact ih r

def FailsIn (Q : ε → Prop) : Program Res ε α → Prop
  | .ret _ => True
  | .fail e => Q e
  | .act _ k => ∀ r, (k r).FailsIn Q

@[simp] theorem failsIn_ret (Q : ε → Prop) (a : α) :
    (Program.ret a : Program Res ε α).FailsIn Q := trivial

theorem failsIn_bind {Q : ε → Prop} {p : Program Res ε α} {f : α → Program Res ε β}
    (hp : p.FailsIn Q) (hf : ∀ a, (f a).FailsIn Q) : (p >>= f).FailsIn Q := by
  induction p with
  | ret a => exact hf a
  | fail e => exact hp
  | act o k ih => exact fun r => ih r (hp r)

def eval {σ : Type} (exec : (o : Op) → σ → Res o × σ) : Program Res ε α → σ → Except ε α × σ
  | .ret a, s => (.ok a, s)
  | .fail e, s => (.error e, s)
  | .act o k, s => eval exec (k (exec o s).1) (exec o s).2

theorem eval_bind_ok {σ : Type} {exec : (o : Op) → σ → Res o × σ} {p : Program Res ε α} {s : σ}
    {a : α} (h : (p.eval exec s).1 = .ok a) (f : α → Program Res ε β) :
    (p >>= f).eval exec s = (f a).eval exec (p.eval exec s).2 := by
  induction p generalizing s with
  | ret b =>
    cases h
    rfl
  | fail e => cases h
  | act o k ih => exact ih _ h

theorem eval_bind_error {σ : Type} {exec : (o : Op) → σ → Res o × σ} {p : Program Res ε α} {s : σ}
    {e : ε} (h : (p.eval exec s).1 = .error e) (f : α → Program Res ε β) :
    ((p >>= f).eval exec s).1 = .error e := by
  induction p generalizing s with
  | ret b => cases h
  | fail e' =>
    cases h
    rfl
  | act o k ih => exact ih _ h

inductive View {Op : Type} (Res : Op → Type) (ε α P : Type) where
  | ret : α → View Res ε α P
  | fail : ε → View Res ε α P
  | act : (o : Op) → (Res o → P) → View Res ε α P

def View.map {P Q : Type} (f : P → Q) : View Res ε α P → View Res ε α Q
  | .ret a => .ret a
  | .fail e => .fail e
  | .act o k => .act o (fun r => f (k r))

def view : Program Res ε α → View Res ε α (Program Res ε α)
  | .ret a => .ret a
  | .fail e => .fail e
  | .act o k => .act o k

theorem eq_ret_of_view {p : Program Res ε α} {a : α} (h : p.view = .ret a) : p = .ret a := by
  cases p <;> cases h
  rfl

theorem eq_fail_of_view {p : Program Res ε α} {e : ε} (h : p.view = .fail e) : p = .fail e := by
  cases p <;> cases h
  rfl

theorem eq_act_of_view {p : Program Res ε α} {o : Op} {k : Res o → Program Res ε α}
    (h : p.view = .act o k) : p = .act o k := by
  cases p <;> cases h
  rfl

def times (p : Program Res ε α) : ℕ → Program Res ε (List α)
  | 0 => .ret []
  | n + 1 => do
    let a ← p
    let rest ← p.times n
    pure (a :: rest)

end Program
end Foundation
