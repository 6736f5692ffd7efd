import Qup.Foundation.PrefixCode
import Qup.Foundation.Utf8

/-!
# Characters in UTF-8

The words of UTF-8: a lead byte and the continuation bytes that it fixes. They are
a prefix code, and the strings that `check` accepts are the sequences of them.
Where `check` finds that a string ends too early, it says where the unfinished
character begins.
-/

namespace Foundation.Utf8
open Computability

def Pays (q : State) (bs : List UInt8) : Prop :=
  List.Forall₂ (fun r b => r.1 ≤ b ∧ b ≤ r.2) q bs

def characters : Language UInt8 := {c | ∃ b q bs, c = b :: bs ∧ lead b = some q ∧ Pays q bs}

theorem run_pays {q : State} {bs : List UInt8} (h : Pays q bs) (rest : List UInt8) :
    run q (bs ++ rest) = run [] rest := by
  induction h with
  | nil => rfl
  | cons hb hbs ih =>
    rw [List.cons_append, run, step, if_pos hb]
    exact ih

theorem valid_of_mem {c : List UInt8} (h : c ∈ characters) : Valid c := by
  obtain ⟨b, q, bs, rfl, hlead, hpays⟩ := h
  rw [Valid, run, step, hlead, Option.bind_some, ← List.append_nil bs, run_pays hpays]
  rfl

theorem prefixCode_characters : PrefixCode characters where
  ne_nil := by
    rintro _ ⟨b, q, bs, rfl, -, -⟩
    exact List.cons_ne_nil b bs
  eq_of_prefix := by
    rintro _ ⟨b, q, bs, rfl, hlead, hpays⟩ _ ⟨b', q', bs', rfl, hlead', hpays'⟩ hstarts
    have hb : b = b' := (List.cons_prefix_cons.mp hstarts).1
    subst hb
    cases hlead.symm.trans hlead'
    refine hstarts.eq_of_length ?_
    rw [List.length_cons, List.length_cons, ← hpays.length_eq, ← hpays'.length_eq]

/-- A character begins with `read`, and `q` is owed to finish it. -/
def Owes (q : State) (read : List UInt8) : Prop :=
  ∃ b paid bs, read = b :: bs ∧ lead b = some (paid ++ q) ∧ Pays paid bs

theorem Owes.mem {read : List UInt8} (h : Owes [] read) : read ∈ characters := by
  obtain ⟨b, paid, bs, rfl, hlead, hpays⟩ := h
  rw [List.append_nil] at hlead
  exact ⟨b, paid, bs, rfl, hlead, hpays⟩

theorem lead_ranges {b : UInt8} {q : State} (h : lead b = some q) : ∀ r ∈ q, r.1 ≤ r.2 := by
  unfold lead at h
  split_ifs at h <;> cases h <;> simp [tail]

theorem Owes.unfinished {r : UInt8 × UInt8} {q : State} {read : List UInt8}
    (h : Owes (r :: q) read) : Unfinished characters read := by
  obtain ⟨b, paid, bs, rfl, hlead, hpays⟩ := h
  have hranges := lead_ranges hlead
  -- the least byte of each range
  have hrest : Pays (r :: q) ((r :: q).map Prod.fst) := by
    rw [Pays, List.forall₂_map_right_iff, List.forall₂_same]
    exact fun s hs => ⟨UInt8.le_refl _, hranges s (List.mem_append_right paid hs)⟩
  refine ⟨b :: (bs ++ (r :: q).map Prod.fst),
    ⟨b, paid ++ r :: q, _, rfl, hlead, List.rel_append hpays hrest⟩,
    ⟨(r :: q).map Prod.fst, rfl⟩, fun heq => ?_⟩
  have hlen := congrArg List.length heq
  simp at hlen

def Within (q : State) (read : List UInt8) : Prop := q = [] ∧ read = [] ∨ q ≠ [] ∧ Owes q read

theorem Within.step {q q' : State} {read : List UInt8} {b : UInt8} (h : Within q read)
    (hstep : step q b = some q') : Owes q' (read ++ [b]) := by
  rcases h with ⟨rfl, rfl⟩ | ⟨hne, lead, paid, bs, rfl, hlead, hpays⟩
  · exact ⟨b, [], [], rfl, hstep, .nil⟩
  · cases q with
    | nil => exact absurd rfl hne
    | cons r rs =>
      rw [Utf8.step] at hstep
      split_ifs at hstep with hrange
      cases hstep
      refine ⟨lead, paid ++ [r], bs ++ [b], rfl, ?_,
        List.rel_append hpays (.cons hrange .nil)⟩
      rw [List.append_assoc]
      exact hlead

theorem unfinished_nil : Unfinished characters [] :=
  .of_mem prefixCode_characters ⟨0x61, [], [], rfl, rfl, .nil⟩

theorem checkFrom_split {bs read : List UInt8} {q : State} (h : Within q read) (d : ℕ) :
    (checkFrom q d read.length bs = .ok () → read ++ bs ∈ characters∗) ∧
      ∀ v, checkFrom q d read.length bs = .error ⟨v, none⟩ → ∃ front tail,
        Split characters (read ++ bs) front tail ∧ tail ≠ [] ∧ v = d + front.length := by
  induction bs generalizing q read d with
  | nil =>
    rw [List.append_nil]
    rcases h with ⟨rfl, rfl⟩ | ⟨hne, howes⟩
    · exact ⟨fun _ => Language.nil_mem_kstar characters, fun v hv => by cases hv⟩
    · cases q with
      | nil => exact absurd rfl hne
      | cons r rs =>
        refine ⟨fun hok => (by cases hok), fun v hv => ⟨[], read, ?_, ?_, ?_⟩⟩
        · exact ⟨rfl, Language.nil_mem_kstar characters, howes.unfinished⟩
        · obtain ⟨b, paid, bs, rfl, -⟩ := howes
          exact List.cons_ne_nil b bs
        · cases hv
          rfl
  | cons b bs ih =>
    rw [List.append_cons]
    simp only [checkFrom]
    cases hstep : step q b with
    | none =>
      constructor
      · intro hok
        cases hok
      · intro v hv
        cases hv
    | some q' =>
      have howes := h.step hstep
      cases q' with
      | nil =>
        -- the character is complete
        have hcharacter := mem_kstar_of_mem howes.mem
        obtain ⟨hok, hunfinished⟩ := ih (.inl ⟨rfl, rfl⟩) (d + read.length + 1)
        refine ⟨fun hrest => append_mem_kstar hcharacter (hok hrest), fun v hv => ?_⟩
        obtain ⟨front, tail, hsplit, hne, hlen⟩ := hunfinished v hv
        refine ⟨read ++ [b] ++ front, tail, ?_, hne, ?_⟩
        · exact (Split.whole unfinished_nil hcharacter).append hsplit
        · rw [hlen, List.length_append, List.length_append, List.length_singleton]
          omega
      | cons r rs =>
        have hlen : (read ++ [b]).length = read.length + 1 := by simp
        rw [← hlen]
        exact ih (.inr ⟨List.cons_ne_nil r rs, howes⟩) d

theorem valid_iff_mem (bs : List UInt8) : Valid bs ↔ bs ∈ characters∗ := by
  constructor
  · intro h
    exact (checkFrom_split (.inl ⟨rfl, rfl⟩) 0).1 ((check_ok_iff bs).mpr h)
  · intro h
    obtain ⟨cs, rfl, hcs⟩ := Language.mem_kstar.mp h
    clear h
    induction cs with
    | nil => rfl
    | cons c cs ih =>
      exact (valid_of_mem (hcs c List.mem_cons_self)).append
        (ih fun d hd => hcs d (List.mem_cons_of_mem c hd))

theorem not_mem_of_invalid {bs : List UInt8} {v l : ℕ} (h : check bs = .error ⟨v, some l⟩)
    (more : List UInt8) : bs ++ more ∉ characters∗ := by
  rw [← valid_iff_mem, Valid, run_append, check_invalid h]
  intro hvalid
  cases hvalid

/-- A string ends too early exactly where its last bytes are a proper beginning of
a character, and they follow complete characters. -/
theorem check_unfinished_iff {bs : List UInt8} {v : ℕ} :
    check bs = .error ⟨v, none⟩ ↔
      v < bs.length ∧ Split characters bs (bs.take v) (bs.drop v) := by
  have hsplit : ∀ {u}, check bs = .error ⟨u, none⟩ →
      u < bs.length ∧ Split characters bs (bs.take u) (bs.drop u) := by
    intro u hu
    obtain ⟨front, tail, hs, hne, hlen⟩ := (checkFrom_split (.inl ⟨rfl, rfl⟩) 0).2 u hu
    have hbs : bs = front ++ tail := hs.eq_append
    have hu : u = front.length := by rw [hlen, Nat.zero_add]
    subst hu
    rw [hbs, List.take_left, List.drop_left, ← hbs]
    refine ⟨?_, hs⟩
    have hpos := List.length_pos_iff.mpr hne
    rw [hbs, List.length_append]
    omega
  refine ⟨hsplit, fun ⟨hlt, hs⟩ => ?_⟩
  cases hcheck : check bs with
  | ok u =>
    have hmem := (valid_iff_mem bs).mp ((check_ok_iff bs).mp hcheck)
    rw [prefixCode_characters.mem_kstar_iff hs, List.drop_eq_nil_iff] at hmem
    omega
  | error e =>
    obtain ⟨u, _ | l⟩ := e
    · obtain ⟨hu, hs'⟩ := hsplit hcheck
      have hfront := congrArg List.length (prefixCode_characters.unique hs' hs).1
      rw [List.length_take_of_le hu.le, List.length_take_of_le hlt.le] at hfront
      rw [hfront]
    · obtain ⟨more, hmore⟩ := hs.completable
      exact absurd hmore (not_mem_of_invalid hcheck more)

theorem length_of_unfinished {tail : List UInt8} (h : Unfinished characters tail) :
    tail.length ≤ 3 := by
  obtain ⟨w, ⟨b, q, bs, rfl, hlead, hpays⟩, hstarts, hne⟩ := h
  have hq := length_lead hlead
  have hbs : q.length = bs.length := hpays.length_eq
  have hle := hstarts.length_le
  rw [List.length_cons] at hle
  by_contra hlong
  exact hne (hstarts.eq_of_length (by rw [List.length_cons]; omega))

/-- What remains of a string after its complete characters, if `check` finds no
impossible byte. -/
def carry (bs : List UInt8) : Option (List UInt8) :=
  match check bs with
  | .ok () => some []
  | .error ⟨validUpTo, none⟩ => some (bs.drop validUpTo)
  | .error ⟨_, some _⟩ => none

theorem reads_carry : Reads characters carry where
  split bs tail h := by
    unfold carry at h
    split at h
    · rename_i hcheck
      cases h
      exact ⟨bs, .whole unfinished_nil ((valid_iff_mem bs).mp ((check_ok_iff bs).mp hcheck))⟩
    · rename_i v hcheck
      cases h
      exact ⟨bs.take v, (check_unfinished_iff.mp hcheck).2⟩
    · cases h
  doomed bs h := by
    unfold carry at h
    split at h
    · cases h
    · cases h
    · rename_i v l hcheck
      exact not_mem_of_invalid hcheck

end Foundation.Utf8
