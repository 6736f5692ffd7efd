import Qup.Foundation.Program
import Mathlib.Data.List.TakeDrop
import Mathlib.Tactic.Common

/-!
# Exact reads from a stream

A reader is a program whose only request is `n`: fill a buffer of exactly `n`
elements. The reference meaning `run` has the whole stream at hand. The other
interpreters deliver the stream piece by piece: `runFragments` loops over
fragments inside one read, `drive` suspends between arrivals. Both are proved
equal to `run` on the concatenation, so a statement about `run` holds for every
fragmentation.
-/

namespace Foundation

abbrev Reader (β ε α : Type) := Program (fun _ : ℕ => List β) ε α

inductive Outcome (β ε α : Type) where
  | starved
  | failed (e : ε) (rest : List β)
  | done (a : α) (rest : List β)
  deriving DecidableEq

namespace Reader
variable {β ε α γ : Type}

def readExact (n : ℕ) : Reader β ε (List β) := 
  @Program.perform ℕ (fun _ => List β) ε n

@[simp] theorem readExact_bind (n : ℕ) (f : List β → Reader β ε α) :
    (readExact n >>= f) = .act n f := rfl

def run : Reader β ε α → List β → Outcome β ε α
  | .ret a, s => .done a s
  | .fail e, s => .failed e s
  | .act n k, s => if n ≤ s.length then run (k (s.take n)) (s.drop n) else .starved

@[simp] theorem run_ret (a : α) (s : List β) : run (.ret a : Reader β ε α) s = .done a s := rfl

@[simp] theorem run_fail (e : ε) (s : List β) : run (.fail e : Reader β ε α) s = .failed e s := rfl

theorem run_act (n : ℕ) (k : List β → Reader β ε α) (s : List β) :
    run (.act n k) s = if n ≤ s.length then run (k (s.take n)) (s.drop n) else .starved := rfl

theorem run_act_of_le {n : ℕ} (k : List β → Reader β ε α) {s : List β} (h : n ≤ s.length) :
    run (.act n k) s = run (k (s.take n)) (s.drop n) := if_pos h

theorem run_act_of_lt {n : ℕ} (k : List β → Reader β ε α) {s : List β} (h : s.length < n) :
    run (.act n k) s = .starved := if_neg (by omega)

theorem run_act_append {n : ℕ} (k : List β → Reader β ε α) {s : List β} (h : s.length = n)
    (t : List β) : run (.act n k) (s ++ t) = run (k s) t := by
  subst h
  rw [run_act_of_le k (by simp), List.take_left, List.drop_left]

@[simp] theorem run_act_one (k : List β → Reader β ε α) (x : β) (s : List β) :
    run (.act 1 k) (x :: s) = run (k [x]) s :=
  run_act_append k (s := [x]) rfl s

@[simp] theorem run_act_three (k : List β → Reader β ε α) (x y z : β) (s : List β) :
    run (.act 3 k) (x :: y :: z :: s) = run (k [x, y, z]) s :=
  run_act_append k (s := [x, y, z]) rfl s

theorem run_bind (p : Reader β ε α) (f : α → Reader β ε γ) (s : List β) :
    run (p >>= f) s = match run p s with
      | .starved => .starved
      | .failed e rest => .failed e rest
      | .done a rest => run (f a) rest := by
  induction p generalizing s with
  | ret a => rfl
  | fail e => rfl
  | act n k ih =>
    rw [Program.act_bind, run_act, run_act]
    split_ifs
    · exact ih _ _
    · rfl

theorem run_append {p : Reader β ε α} {s : List β} (t : List β) :
    (∀ a rest, run p s = .done a rest → run p (s ++ t) = .done a (rest ++ t)) ∧
    (∀ e rest, run p s = .failed e rest → run p (s ++ t) = .failed e (rest ++ t)) := by
  induction p generalizing s with
  | ret a =>
    refine ⟨fun b rest h => ?_, fun e rest h => by cases h⟩
    cases h
    rfl
  | fail e =>
    refine ⟨fun b rest h => (by cases h), fun e' rest h => ?_⟩
    cases h
    rfl
  | act n k ih =>
    by_cases hn : n ≤ s.length
    · have hs : n ≤ (s ++ t).length := by
        rw [List.length_append]
        omega
      rw [run_act_of_le k hn, run_act_of_le k hs, List.take_append_of_le_length hn,
        List.drop_append_of_le_length hn]
      exact ih (s.take n)
    · rw [run_act_of_lt k (by omega)]
      exact ⟨fun a rest h => (by cases h), fun e rest h => (by cases h)⟩

def takeFragments : ℕ → List (List β) → Option (List β × List (List β))
  | 0, cs => some ([], cs)
  | _ + 1, [] => none
  | n + 1, c :: cs =>
    if n + 1 ≤ c.length then some (c.take (n + 1), c.drop (n + 1) :: cs)
    else (takeFragments (n + 1 - c.length) cs).map fun r => (c ++ r.1, r.2)

theorem takeFragments_eq (n : ℕ) (cs : List (List β)) :
    (takeFragments n cs).map (fun r => (r.1, r.2.flatten)) =
      if n ≤ cs.flatten.length then some (cs.flatten.take n, cs.flatten.drop n) else none := by
  induction cs generalizing n with
  | nil => cases n <;> simp [takeFragments]
  | cons c cs ih =>
    cases n with
    | zero => simp [takeFragments]
    | succ n =>
      simp only [takeFragments, List.flatten_cons, List.length_append]
      split_ifs with hc hl hl
      · have hz : n + 1 - c.length = 0 := by omega
        simp [List.take_append, List.drop_append, hz]
      · omega
      · have h := ih (n + 1 - c.length)
        rw [if_pos (by omega)] at h
        simp only [Option.map_eq_some_iff, Option.map_map] at h ⊢
        obtain ⟨r, hr, he⟩ := h
        simp only [Prod.mk.injEq] at he
        refine ⟨r, hr, ?_⟩
        rw [List.take_append, List.drop_append, List.take_of_length_le (by omega : c.length ≤ n + 1),
          List.drop_of_length_le (by omega : c.length ≤ n + 1), List.nil_append]
        simp only [Function.comp_apply, he.1, he.2]
      · have h := ih (n + 1 - c.length)
        rw [if_neg (by omega)] at h
        simp only [Option.map_eq_none_iff] at h ⊢
        exact h

def runFragments : Reader β ε α → List (List β) → Outcome β ε α × List (List β)
  | .ret a, cs => (.done a cs.flatten, cs)
  | .fail e, cs => (.failed e cs.flatten, cs)
  | .act n k, cs =>
    match takeFragments n cs with
    | none => (.starved, [])
    | some (bs, cs') => runFragments (k bs) cs'

theorem runFragments_eq_run (p : Reader β ε α) (cs : List (List β)) :
    (runFragments p cs).1 = run p cs.flatten := by
  induction p generalizing cs with
  | ret a => rfl
  | fail e => rfl
  | act n k ih =>
    have h := takeFragments_eq n cs
    rw [runFragments, run_act]
    cases ht : takeFragments n cs with
    | none =>
      rw [ht] at h
      split_ifs at h ⊢
      · simp at h
      · rfl
    | some r =>
      rw [ht] at h
      split_ifs at h ⊢ with hn
      · simp only [Option.map_some, Option.some.injEq, Prod.mk.injEq] at h
        simp only
        rw [ih, h.1, h.2]
      · simp at h

def poll : Reader β ε α → List β → Reader β ε α × List β
  | .ret a, s => (.ret a, s)
  | .fail e, s => (.fail e, s)
  | .act n k, s => if n ≤ s.length then poll (k (s.take n)) (s.drop n) else (.act n k, s)

theorem run_poll (p : Reader β ε α) (s t : List β) :
    run (poll p s).1 ((poll p s).2 ++ t) = run p (s ++ t) := by
  induction p generalizing s with
  | ret a => rfl
  | fail e => rfl
  | act n k ih =>
    rw [poll]
    split_ifs with hn
    · have hs : n ≤ (s ++ t).length := by
        rw [List.length_append]
        omega
      rw [run_act_of_le k hs, List.take_append_of_le_length hn, List.drop_append_of_le_length hn]
      exact ih _ _
    · rfl

theorem run_poll_nil (p : Reader β ε α) (s : List β) :
    run (poll p s).1 (poll p s).2 = run p s := by
  simpa using run_poll p s []

theorem poll_of_done {p : Reader β ε α} {s rest : List β} {a : α} (h : run p s = .done a rest) :
    poll p s = (.ret a, rest) := by
  induction p generalizing s with
  | ret b =>
    cases h
    rfl
  | fail e => cases h
  | act n k ih =>
    rw [run_act] at h
    rw [poll]
    split_ifs at h ⊢
    exact ih _ h

theorem poll_of_failed {p : Reader β ε α} {s rest : List β} {e : ε}
    (h : run p s = .failed e rest) : poll p s = (.fail e, rest) := by
  induction p generalizing s with
  | ret b => cases h
  | fail e =>
    cases h
    rfl
  | act n k ih =>
    rw [run_act] at h
    rw [poll]
    split_ifs at h ⊢
    exact ih _ h

theorem poll_of_starved {p : Reader β ε α} {s : List β} (h : run p s = .starved) :
    ∃ n k rest, poll p s = (.act n k, rest) ∧ rest.length < n := by
  induction p generalizing s with
  | ret b => cases h
  | fail e => cases h
  | act n k ih =>
    rw [run_act] at h
    rw [poll]
    split_ifs at h ⊢ with hn
    · exact ih _ h
    · exact ⟨n, k, s, rfl, by omega⟩

def drive (p : Reader β ε α) (s : List β) : List (List β) → Outcome β ε α
  | [] => run (poll p s).1 (poll p s).2
  | c :: cs =>
    match (poll p s).1 with
    | .ret a => .done a ((poll p s).2 ++ (c :: cs).flatten)
    | .fail e => .failed e ((poll p s).2 ++ (c :: cs).flatten)
    | .act n k => drive (.act n k) ((poll p s).2 ++ c) cs

theorem drive_eq_run (p : Reader β ε α) (s : List β) (cs : List (List β)) :
    drive p s cs = run p (s ++ cs.flatten) := by
  induction cs generalizing p s with
  | nil => simpa [drive] using run_poll_nil p s
  | cons c cs ih =>
    have h := run_poll p s (c :: cs).flatten
    rw [drive]
    cases hp : (poll p s).1 with
    | ret a =>
      rw [hp] at h
      exact h
    | fail e =>
      rw [hp] at h
      exact h
    | act n k =>
      rw [hp] at h
      simp only
      rw [ih, List.append_assoc]
      exact h

/-- `q` on the unread elements `inbox` is what is left of `p` on `pend`. -/
def Resumes (p : Reader β ε α) (pend : List β) (q : Reader β ε α) (inbox : List β) : Prop :=
  ∀ t, run q (inbox ++ t) = run p (pend ++ t)

theorem Resumes.start (p : Reader β ε α) (s : List β) : Resumes p s p s := fun _ => rfl

theorem Resumes.append {p q : Reader β ε α} {pend inbox : List β} (h : Resumes p pend q inbox)
    (s : List β) : Resumes p (pend ++ s) q (inbox ++ s) := by
  intro t
  rw [List.append_assoc, List.append_assoc]
  exact h (s ++ t)

theorem Resumes.read {p : Reader β ε α} {pend inbox : List β} {n : ℕ}
    {k : List β → Reader β ε α} (h : Resumes p pend (.act n k) inbox) (hn : n ≤ inbox.length) :
    Resumes p pend (k (inbox.take n)) (inbox.drop n) := by
  intro t
  have hs : n ≤ (inbox ++ t).length := by
    rw [List.length_append]
    omega
  rw [← h t, run_act_of_le k hs, List.take_append_of_le_length hn,
    List.drop_append_of_le_length hn]

theorem Resumes.stopped {γ : Type} {p q : Reader β ε α} {pend inbox : List β}
    (h : Resumes p pend q inbox) (h0 : run p [] = .starved) (bytes : γ → List β) {rest : List γ}
    (hrest : ∀ m ∈ rest, ∃ a, ∀ t, run p (bytes m ++ t) = .done a t)
    (hpre : pend <+: (rest.map bytes).flatten) :
    (∀ e, q ≠ .fail e) ∧ ∀ a, q = .ret a → ∃ m rest', rest = m :: rest' ∧
      (∀ t, run p (bytes m ++ t) = .done a t) ∧ pend = bytes m ++ inbox := by
  obtain ⟨t, ht⟩ := hpre
  have hr := h t
  rw [ht] at hr
  cases rest with
  | nil =>
    rw [List.map_nil, List.flatten_nil, h0] at hr
    constructor
    · rintro e rfl
      cases hr
    · rintro a rfl
      cases hr
  | cons m rest' =>
    obtain ⟨a, ha⟩ := hrest m List.mem_cons_self
    rw [List.map_cons, List.flatten_cons, ha] at hr
    constructor
    · rintro e rfl
      cases hr
    · rintro b rfl
      injection hr with hab hin
      subst hab
      refine ⟨m, rest', rfl, ha, ?_⟩
      rw [List.map_cons, List.flatten_cons, ← hin, ← List.append_assoc] at ht
      exact List.append_cancel_right ht

/-- A source whose pending read holds on to a part of the elements reads one at a time. -/
def readAll : ℕ → Reader β ε (List β)
  | 0 => .ret []
  | n + 1 => .act 1 fun b => (readAll n) >>= fun bs => .ret (b ++ bs)

theorem run_readAll (n : ℕ) (s : List β) :
    run (readAll n : Reader β ε (List β)) s =
      if n ≤ s.length then .done (s.take n) (s.drop n) else .starved := by
  induction n generalizing s with
  | zero => simp [readAll]
  | succ n ih =>
    cases s with
    | nil => simp [readAll, run_act]
    | cons x s =>
      rw [readAll, run_act_of_le _ (by simp)]
      simp only [List.take_succ_cons, List.take_zero, List.drop_succ_cons, List.drop_zero,
        List.length_cons, Nat.add_le_add_iff_right]
      rw [run_bind, ih]
      split_ifs <;> simp

def bytewise : Reader β ε α → Reader β ε α
  | .ret a => .ret a
  | .fail e => .fail e
  | .act n k => readAll n >>= fun bs => bytewise (k bs)

theorem run_bytewise (p : Reader β ε α) (s : List β) : run (bytewise p) s = run p s := by
  induction p generalizing s with
  | ret a => rfl
  | fail e => rfl
  | act n k ih =>
    rw [bytewise, run_bind, run_readAll, run_act]
    split_ifs
    · exact ih _ _
    · rfl

/-- The results of `p` on one item after the other, each with the elements it
consumed, up to the first item that fails, is starved or consumes nothing. -/
def collect (p : Reader β ε α) (s : List β) : List (α × List β) :=
  match run p s with
  | .done a rest =>
    if rest.length < s.length then
      (a, s.take (s.length - rest.length)) :: collect p rest
    else []
  | .failed _ _ => []
  | .starved => []
termination_by s.length

theorem collect_done {p : Reader β ε α} {s rest : List β} {a : α} (h : run p s = .done a rest)
    (hl : rest.length < s.length) :
    collect p s = (a, s.take (s.length - rest.length)) :: collect p rest := by
  rw [collect, h]
  simp only [if_pos hl]

theorem collect_of_not_done {p : Reader β ε α} {s : List β}
    (h : ∀ a rest, run p s ≠ .done a rest) : collect p s = [] := by
  rw [collect]
  cases hr : run p s with
  | done a rest => exact absurd hr (h a rest)
  | failed e rest => rfl
  | starved => rfl

theorem run_times {p : Reader β ε α} {pieces : List (List β)} {as : List α} (rest : List β)
    (h : List.Forall₂ (fun c a => ∀ t, run p (c ++ t) = .done a t) pieces as) :
    run (p.times pieces.length) (pieces.flatten ++ rest) = .done as rest := by
  induction h with
  | nil => rfl
  | cons hc _ ih =>
    simp only [List.length_cons, Program.times, List.flatten_cons, List.append_assoc]
    rw [run_bind, hc]
    simp only
    rw [run_bind, ih]
    rfl

end Reader
end Foundation
