import Mathlib.Data.List.Basic
import Mathlib.Data.List.Induction

/-!
# Samples

What is read off a growing history, one read after the other: every value was in
the history, and none is older than the one read before it.
-/

namespace Foundation

variable {α : Type*} {history seen : List α}

/-- Each of `seen` is in the history, and none is older there than the one before it. -/
def Sampled (history seen : List α) : Prop :=
  ∃ times : List ℕ, times.Pairwise (· ≤ ·) ∧ times.map (fun t => history[t]?) = seen.map some

theorem Sampled.of_prefix {first : List α} (h : Sampled history seen) (hfirst : first <+: seen) :
    Sampled history first := by
  obtain ⟨times, hordered, htimes⟩ := h
  obtain ⟨rest, rfl⟩ := hfirst
  refine ⟨times.take first.length, hordered.sublist (List.take_sublist _ _), ?_⟩
  rw [List.map_take, htimes, List.map_append, List.take_append_of_le_length (by simp)]
  exact List.take_of_length_le (by simp)

theorem Sampled.of_entries {ρ : Type*} {entries : List ρ} {read : ρ → Option α}
    {ReadAt : ℕ → ℕ → Prop}
    (hread : ∀ j x v, entries[j]? = some x → read x = some v →
      ∃ t, ReadAt j t ∧ history[t]? = some v)
    (hordered : ∀ j j' t t', j < j' → ReadAt j t → ReadAt j' t' → t ≤ t') :
    Sampled history (entries.filterMap read) := by
  suffices h : ∃ times : List ℕ, times.Pairwise (· ≤ ·) ∧
      times.map (fun t => history[t]?) = (entries.filterMap read).map some ∧
        ∀ t ∈ times, ∃ j < entries.length, ReadAt j t by
    obtain ⟨times, hpairwise, htimes, -⟩ := h
    exact ⟨times, hpairwise, htimes⟩
  induction entries using List.reverseRecOn with
  | nil => exact ⟨[], .nil, rfl, fun t ht => by cases ht⟩
  | append_singleton entries x ih =>
    have hlonger : ∀ {j : ℕ} {y : ρ}, entries[j]? = some y → (entries ++ [x])[j]? = some y := by
      intro j y hy
      rw [List.getElem?_append_left (List.getElem?_eq_some_iff.mp hy).1, hy]
    obtain ⟨times, hpairwise, htimes, hreads⟩ := ih fun j y v hy => hread j y v (hlonger hy)
    have hearlier : ∀ t ∈ times, ∃ j < (entries ++ [x]).length, ReadAt j t := by
      intro t ht
      obtain ⟨j, hj, hreadAt⟩ := hreads t ht
      exact ⟨j, by simp; omega, hreadAt⟩
    rw [List.filterMap_append]
    cases hx : read x with
    | none => exact ⟨times, hpairwise, by simp [hx, htimes], hearlier⟩
    | some v =>
      obtain ⟨t, hreadAt, hv⟩ := hread entries.length x v List.getElem?_concat_length hx
      refine ⟨times ++ [t], ?_, by simp [hx, htimes, hv], fun s hs => ?_⟩
      · rw [List.pairwise_append]
        refine ⟨hpairwise, List.pairwise_singleton _ t, fun s hs u hu => ?_⟩
        obtain ⟨j, hj, hs⟩ := hreads s hs
        exact hordered j _ s u hj hs (List.mem_singleton.mp hu ▸ hreadAt)
      · rcases List.mem_append.mp hs with hs | hs
        · exact hearlier s hs
        · exact ⟨entries.length, by simp, List.mem_singleton.mp hs ▸ hreadAt⟩

end Foundation
