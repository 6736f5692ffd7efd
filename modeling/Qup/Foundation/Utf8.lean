import Mathlib.Data.List.TakeDrop
import Mathlib.Tactic.Common

/-!
# UTF-8 validation

Well-formed UTF-8 as a machine over bytes. Between characters nothing is owed;
a lead byte fixes the range of each continuation byte that has to follow, and
each continuation byte pays one of them off. The ranges exclude overlong
encodings, surrogates and everything above `U+10FFFF`.

`check` reports the two facts a validator gives about a failure: how many bytes
form complete characters, and whether the failure is a byte that can never be
there or a string that only ends too early.
-/

namespace Foundation.Utf8

abbrev State := List (UInt8 × UInt8)

def tail : UInt8 × UInt8 := (0x80, 0xbf)

def lead (b : UInt8) : Option State :=
  if b < 0x80 then some []
  else if 0xc2 ≤ b ∧ b ≤ 0xdf then some [tail]
  else if b = 0xe0 then some [(0xa0, 0xbf), tail]
  else if b = 0xed then some [(0x80, 0x9f), tail]
  else if 0xe1 ≤ b ∧ b ≤ 0xef then some [tail, tail]
  else if b = 0xf0 then some [(0x90, 0xbf), tail, tail]
  else if 0xf1 ≤ b ∧ b ≤ 0xf3 then some [tail, tail, tail]
  else if b = 0xf4 then some [(0x80, 0x8f), tail, tail]
  else none

def step : State → UInt8 → Option State
  | [], b => lead b
  | r :: rs, b => if r.1 ≤ b ∧ b ≤ r.2 then some rs else none

def run : State → List UInt8 → Option State
  | q, [] => some q
  | q, b :: bs => (step q b).bind fun q' => run q' bs

def Valid (bs : List UInt8) : Prop := run [] bs = some []

instance (bs : List UInt8) : Decidable (Valid bs) := inferInstanceAs (Decidable (_ = _))

theorem run_append (q : State) (bs cs : List UInt8) :
    run q (bs ++ cs) = (run q bs).bind fun q' => run q' cs := by
  induction bs generalizing q with
  | nil => rfl
  | cons b bs ih =>
    simp only [List.cons_append, run]
    cases step q b with
    | none => rfl
    | some q' => exact ih q'

theorem Valid.append {bs cs : List UInt8} (hb : Valid bs) (hc : Valid cs) : Valid (bs ++ cs) := by
  rw [Valid, run_append, hb]
  exact hc

theorem Valid.run_append {bs : List UInt8} (hb : Valid bs) (cs : List UInt8) :
    run [] (bs ++ cs) = run [] cs := by
  rw [Utf8.run_append, hb]
  rfl

theorem length_lead {b : UInt8} {q : State} (h : lead b = some q) : q.length ≤ 3 := by
  unfold lead at h
  split_ifs at h <;> cases h <;> decide

/-- A failed validation: the length of the longest prefix of complete
characters, and the length of the rejected sequence, or `none` when the input
ended inside a character. -/
structure Error where
  validUpTo : ℕ
  errorLen : Option ℕ
  deriving DecidableEq, Repr

/-- `done` bytes form complete characters and `pending` bytes the current one. -/
def checkFrom : State → (done pending : ℕ) → List UInt8 → Except Error Unit
  | [], _, _, [] => .ok ()
  | _ :: _, d, _, [] => .error ⟨d, none⟩
  | q, d, p, b :: bs =>
    match step q b with
    | none => .error ⟨d, some (max 1 p)⟩
    | some [] => checkFrom [] (d + p + 1) 0 bs
    | some (r :: rs) => checkFrom (r :: rs) d (p + 1) bs

def check (bs : List UInt8) : Except Error Unit := checkFrom [] 0 0 bs

theorem checkFrom_spec (q : State) (d p : ℕ) (bs : List UInt8) :
    match checkFrom q d p bs with
    | .ok () => run q bs = some []
    | .error ⟨_, some _⟩ => run q bs = none
    | .error ⟨_, none⟩ => ∃ q', q' ≠ [] ∧ run q bs = some q' := by
  induction bs generalizing q d p with
  | nil =>
    cases q with
    | nil => rfl
    | cons r rs => exact ⟨r :: rs, List.cons_ne_nil r rs, rfl⟩
  | cons b bs ih =>
    simp only [checkFrom]
    cases hs : step q b with
    | none => simp [run, hs]
    | some q₁ =>
      have hrun : run q (b :: bs) = run q₁ bs := by simp [run, hs]
      rw [hrun]
      cases q₁ with
      | nil => exact ih [] (d + p + 1) 0
      | cons r rs => exact ih (r :: rs) d (p + 1)

theorem check_ok_iff (bs : List UInt8) : check bs = .ok () ↔ Valid bs := by
  have h := checkFrom_spec [] 0 0 bs
  simp only [check, Valid]
  revert h
  rcases checkFrom [] 0 0 bs with ⟨v, _ | l⟩ | u
  · rintro ⟨q', hne, hq'⟩
    simp [hq', hne]
  · intro h
    simp [h]
  · intro h
    simp [h]

theorem check_invalid {bs : List UInt8} {v l : ℕ} (h : check bs = .error ⟨v, some l⟩) :
    run [] bs = none := by
  have hs := checkFrom_spec [] 0 0 bs
  rw [check] at h
  rw [h] at hs
  exact hs

structure Str where
  bytes : List UInt8
  valid : Valid bytes

namespace Str

@[ext] theorem ext {s t : Str} (h : s.bytes = t.bytes) : s = t := by
  cases s
  cases t
  cases h
  rfl

instance : DecidableEq Str := fun s t =>
  decidable_of_iff (s.bytes = t.bytes) ⟨Str.ext, congrArg Str.bytes⟩

def length (s : Str) : ℕ := s.bytes.length

def empty : Str := ⟨[], rfl⟩

end Str

def fromUtf8 (bs : List UInt8) : Except Error Str :=
  match h : check bs with
  | .ok () => .ok ⟨bs, (check_ok_iff bs).mp h⟩
  | .error e => .error e

theorem fromUtf8_ok_iff {bs : List UInt8} {s : Str} : fromUtf8 bs = .ok s ↔ s.bytes = bs := by
  unfold fromUtf8
  split
  · rename_i h
    rw [Except.ok.injEq]
    exact ⟨fun he => he ▸ rfl, fun he => Str.ext he.symm⟩
  · rename_i e h
    refine ⟨fun he => (by cases he), fun he => ?_⟩
    subst he
    rw [(check_ok_iff _).mpr s.valid] at h
    cases h

@[simp] theorem fromUtf8_bytes (s : Str) : fromUtf8 s.bytes = .ok s := fromUtf8_ok_iff.mpr rfl

end Foundation.Utf8
