import Mathlib.Computability.Language

/-!
# Prefix codes

A set of words none of which starts another. What has been read of a sequence of
words splits in one way into whole words and the part read of the next one. A
reader that gets the sequence in pieces has to carry that part only.
-/

namespace Foundation
open Computability

section
variable {α : Type*}

structure PrefixCode (code : Language α) : Prop where
  ne_nil : ∀ w ∈ code, w ≠ []
  eq_of_prefix : ∀ v ∈ code, ∀ w ∈ code, v <+: w → v = w

/-- The part read of a word, which may be none of it. -/
def Unfinished (code : Language α) (tail : List α) : Prop :=
  ∃ w ∈ code, tail <+: w ∧ tail ≠ w

structure Split (code : Language α) (read front tail : List α) : Prop where
  eq_append : read = front ++ tail
  front_mem : front ∈ code∗
  unfinished : Unfinished code tail

variable {code : Language α} {read front tail : List α}

theorem append_mem_kstar {v w : List α} (hv : v ∈ code∗) (hw : w ∈ code∗) : v ++ w ∈ code∗ := by
  rw [← kstar_mul_kstar code]
  exact Language.append_mem_mul hv hw

theorem mem_kstar_of_mem {w : List α} (hw : w ∈ code) : w ∈ code∗ := by
  have hle : code ≤ code∗ := le_kstar
  exact hle hw

namespace PrefixCode
variable (h : PrefixCode code)
include h

theorem word_append_mem_iff {w rest : List α} (hw : w ∈ code) :
    w ++ rest ∈ code∗ ↔ rest ∈ code∗ := by
  refine ⟨fun hmem => ?_, append_mem_kstar (mem_kstar_of_mem hw)⟩
  obtain ⟨words, hwords, hall⟩ := Language.mem_kstar.mp hmem
  cases words with
  | nil => exact absurd (List.append_eq_nil_iff.mp hwords).1 (h.ne_nil w hw)
  | cons v words =>
    rw [List.flatten_cons] at hwords
    have hv := hall v List.mem_cons_self
    have hsame : w = v := by
      rcases List.prefix_or_prefix_of_prefix (List.prefix_append w rest)
        (hwords ▸ List.prefix_append v words.flatten) with hstarts | hstarts
      · exact h.eq_of_prefix w hw v hv hstarts
      · exact (h.eq_of_prefix v hv w hw hstarts).symm
    subst hsame
    rw [List.append_cancel_left hwords]
    exact Language.join_mem_kstar fun u hu => hall u (List.mem_cons_of_mem _ hu)

theorem append_mem_iff {rest : List α} (hfront : front ∈ code∗) :
    front ++ rest ∈ code∗ ↔ rest ∈ code∗ := by
  obtain ⟨words, rfl, hall⟩ := Language.mem_kstar.mp hfront
  clear hfront
  induction words with
  | nil => rfl
  | cons w words ih =>
    rw [List.flatten_cons, List.append_assoc, h.word_append_mem_iff (hall w List.mem_cons_self)]
    exact ih fun v hv => hall v (List.mem_cons_of_mem _ hv)

theorem eq_nil_of_unfinished {read : List α} (hunfinished : Unfinished code tail)
    (hstarts : read <+: tail) (hread : read ∈ code∗) : read = [] := by
  obtain ⟨w, hw, htail, hne⟩ := hunfinished
  obtain ⟨words, rfl, hall⟩ := Language.mem_kstar.mp hread
  cases words with
  | nil => rfl
  | cons v words =>
    rw [List.flatten_cons] at hstarts
    have hv : v <+: tail := (List.prefix_append v _).trans hstarts
    have hsame := h.eq_of_prefix v (hall v List.mem_cons_self) w hw (hv.trans htail)
    subst hsame
    exact absurd (htail.eq_of_length_le hv.length_le) hne

theorem unique {front' tail' : List α} (hs : Split code read front tail)
    (hs' : Split code read front' tail') : front = front' ∧ tail = tail' := by
  -- the longer front has read on in the other's tail
  have hlonger : ∀ {f t g u : List α}, Split code read f t → Split code read g u → f <+: g →
      f = g ∧ t = u := by
    rintro f t g u hf hg ⟨more, rfl⟩
    have htail : t = more ++ u := by
      have heq := hf.eq_append.symm.trans hg.eq_append
      rw [List.append_assoc] at heq
      exact List.append_cancel_left heq
    have hmore : more = [] := h.eq_nil_of_unfinished hf.unfinished ⟨u, htail.symm⟩
      ((h.append_mem_iff hf.front_mem).mp hg.front_mem)
    subst hmore
    exact ⟨(List.append_nil f).symm, htail⟩
  have hfront : front <+: read := ⟨tail, hs.eq_append.symm⟩
  have hfront' : front' <+: read := ⟨tail', hs'.eq_append.symm⟩
  rcases List.prefix_or_prefix_of_prefix hfront hfront' with hstarts | hstarts
  · exact hlonger hs hs' hstarts
  · obtain ⟨hf, ht⟩ := hlonger hs' hs hstarts
    exact ⟨hf.symm, ht.symm⟩

theorem mem_kstar_iff (hs : Split code read front tail) : read ∈ code∗ ↔ tail = [] := by
  rw [hs.eq_append, h.append_mem_iff hs.front_mem]
  refine ⟨h.eq_nil_of_unfinished hs.unfinished (List.prefix_refl tail), fun hnil => ?_⟩
  rw [hnil]
  exact Language.nil_mem_kstar code

end PrefixCode

theorem Unfinished.of_mem {w : List α} (h : PrefixCode code) (hw : w ∈ code) :
    Unfinished code [] := ⟨w, hw, List.nil_prefix, (h.ne_nil w hw).symm⟩

theorem Split.nil (h : Unfinished code []) : Split code [] [] [] :=
  ⟨rfl, Language.nil_mem_kstar code, h⟩

theorem Split.whole (h : Unfinished code []) (hread : read ∈ code∗) : Split code read read [] :=
  ⟨(List.append_nil read).symm, hread, h⟩

theorem Split.append {chunk front' tail' : List α} (hs : Split code read front tail)
    (hnext : Split code (tail ++ chunk) front' tail') :
    Split code (read ++ chunk) (front ++ front') tail' := by
  refine ⟨?_, append_mem_kstar hs.front_mem hnext.front_mem, hnext.unfinished⟩
  rw [hs.eq_append, List.append_assoc, hnext.eq_append, List.append_assoc]

theorem Split.completable (hs : Split code read front tail) : ∃ more, read ++ more ∈ code∗ := by
  obtain ⟨w, hw, ⟨more, rfl⟩, -⟩ := hs.unfinished
  refine ⟨more, ?_⟩
  rw [hs.eq_append, List.append_assoc]
  exact append_mem_kstar hs.front_mem (mem_kstar_of_mem hw)

/-- What is carried after a sequence that `next` is given at once, or nothing where
no word can go on as it does. -/
structure Reads (code : Language α) (next : List α → Option (List α)) : Prop where
  split : ∀ read tail, next read = some tail → ∃ front, Split code read front tail
  doomed : ∀ read, next read = none → ∀ more, read ++ more ∉ code∗

def readPieces (next : List α → Option (List α)) : List α → List (List α) → Option (List α)
  | tail, [] => some tail
  | tail, piece :: pieces => (next (tail ++ piece)).bind fun tail => readPieces next tail pieces

variable {next : List α → Option (List α)}

theorem split_readPieces (h : Reads code next) {pieces : List (List α)} {tail' : List α}
    (hs : Split code read front tail) (hread : readPieces next tail pieces = some tail') :
    ∃ front', Split code (read ++ pieces.flatten) front' tail' := by
  induction pieces generalizing read front tail with
  | nil =>
    cases hread
    exact ⟨front, by simpa using hs⟩
  | cons piece pieces ih =>
    obtain ⟨carried, hnext, hrest⟩ := Option.bind_eq_some_iff.mp hread
    obtain ⟨front', hfront'⟩ := h.split _ _ hnext
    rw [List.flatten_cons, ← List.append_assoc]
    exact ih (hs.append hfront') hrest

theorem doomed_readPieces (hcode : PrefixCode code) (h : Reads code next)
    {pieces : List (List α)} (hs : Split code read front tail)
    (hread : readPieces next tail pieces = none) : read ++ pieces.flatten ∉ code∗ := by
  induction pieces generalizing read front tail with
  | nil => cases hread
  | cons piece pieces ih =>
    rw [List.flatten_cons, ← List.append_assoc]
    cases hnext : next (tail ++ piece) with
    | some carried =>
      rw [readPieces, hnext, Option.bind_some] at hread
      obtain ⟨front', hfront'⟩ := h.split _ _ hnext
      exact ih (hs.append hfront') hread
    | none =>
      rw [hs.eq_append, List.append_assoc, List.append_assoc, hcode.append_mem_iff hs.front_mem,
        ← List.append_assoc]
      exact h.doomed _ hnext _

/-- In whatever pieces it comes, a sequence is read to its end if and only if it
consists of whole words. -/
theorem readPieces_eq_nil_iff (hcode : PrefixCode code) (h : Reads code next)
    (hstart : Unfinished code []) (pieces : List (List α)) :
    readPieces next [] pieces = some [] ↔ pieces.flatten ∈ code∗ := by
  have hs : Split code [] [] [] := .nil hstart
  cases hread : readPieces next [] pieces with
  | none =>
    have hnot := doomed_readPieces hcode h hs hread
    exact ⟨nofun, fun hmem => absurd hmem hnot⟩
  | some tail =>
    obtain ⟨front, hfront⟩ := split_readPieces h hs hread
    rw [List.nil_append] at hfront
    rw [Option.some.injEq, hcode.mem_kstar_iff hfront]

end

end Foundation
