import Qup.Core.Payload

/-!
# The grammar of `CAPS`

A `CAPS` string is a sequence of request/response pairs and at most one terminal
`!`. The parser keeps, for each request letter, the response it has seen; the
invariant of its loop is what that memory says about the pairs still to come.
-/

namespace Qup
open Foundation Foundation.Utf8

namespace CapsRef

def pairBytes (pairs : List (UInt8 × UInt8)) (changed : Bool) : List UInt8 :=
  pairs.flatMap (fun p => [p.1, p.2]) ++ if changed then [0x21] else []

/-- A request letter and an ordinary response letter, which is the defined one
where this crate defines the request. -/
structure IsPair (p : UInt8 × UInt8) : Prop where
  request : 0x41 ≤ p.1 ∧ p.1 ≤ 0x5a
  response : 0x61 ≤ p.2 ∧ p.2 ≤ 0x7a
  defined : ∀ e, (⟨p.1⟩ : Opcode).expectedOrdinaryResponse = some e → e = ⟨p.2⟩

structure Grammar (bytes : List UInt8) (pairs : List (UInt8 × UInt8)) (changed : Bool) :
    Prop where
  bytes_eq : bytes = pairBytes pairs changed
  pair : ∀ p ∈ pairs, IsPair p
  consistent : ∀ p ∈ pairs, ∀ q ∈ pairs, p.1 = q.1 → p.2 = q.2

def slot (request : UInt8) : ℕ := (request - 0x41).toNat

theorem slot_lt {request : UInt8} (h : 0x41 ≤ request ∧ request ≤ 0x5a) : slot request < 26 := by
  obtain ⟨hlo, hhi⟩ := h
  rw [UInt8.le_iff_toNat_le] at hlo hhi
  rw [slot, UInt8.toNat_sub_of_le _ _ (UInt8.le_iff_toNat_le.mpr hlo)]
  simp only [UInt8.reduceToNat] at hlo hhi ⊢
  omega

theorem slot_injective {a b : UInt8} (h : slot a = slot b) : a = b := by
  have hadd := congrArg (· + 0x41) (UInt8.toNat_inj.mp h)
  simpa using hadd

theorem opcodeClass_request (b : UInt8) :
    (⟨b⟩ : Opcode).opcodeClass = .request ↔ 0x41 ≤ b ∧ b ≤ 0x5a := by
  unfold Opcode.opcodeClass
  split_ifs <;> simp_all

theorem opcodeClass_ordinaryResponse (b : UInt8) :
    (⟨b⟩ : Opcode).opcodeClass = .ordinaryResponse ↔ 0x61 ≤ b ∧ b ≤ 0x7a := by
  constructor
  · unfold Opcode.opcodeClass
    split_ifs <;> simp_all
  · intro h
    have hnot : ¬ (0x41 ≤ b ∧ b ≤ 0x5a) := by
      rintro ⟨-, hb⟩
      exact absurd (UInt8.le_trans h.1 hb) (by decide)
    rw [Opcode.opcodeClass, if_neg hnot, if_pos h]

theorem parseLoop_pair {total index : ℕ} {p : UInt8 × UInt8} {rest seen : List UInt8}
    (hlen : seen.length = 26) (hindex : index + 1 < 2 ^ 64) (hp : p.1 ≠ 0x21) :
    parseLoop total (p.1 :: p.2 :: rest) index seen = .ok () ↔
      IsPair p ∧ (seen[slot p.1]? = some 0 ∨ seen[slot p.1]? = some p.2) ∧
        parseLoop total rest (index + 2) (seen.set (slot p.1) p.2) = .ok () := by
  have hadd : checkedAdd index 1 = some (index + 1) := if_pos hindex
  simp only [parseLoop, if_neg hp, hadd]
  constructor
  · intro h
    split_ifs at h with hrequest hresponse hdefined hlow
    have hpair : IsPair p := by
      refine ⟨(opcodeClass_request p.1).mp (not_not.mp hrequest),
        (opcodeClass_ordinaryResponse p.2).mp (not_not.mp hresponse), fun e he => ?_⟩
      rw [he] at hdefined
      simpa using hdefined
    have hslot : slot p.1 < seen.length := hlen ▸ slot_lt hpair.request
    rw [show (p.1 - 0x41).toNat = slot p.1 from rfl, List.getElem?_eq_getElem hslot] at h
    simp only at h
    split_ifs at h with hconflict hzero
    · exact ⟨hpair, Or.inl (by rw [List.getElem?_eq_getElem hslot, hzero]), h⟩
    · have heq : seen[slot p.1] = p.2 := by
        by_contra hne
        exact hconflict ⟨hzero, hne⟩
      refine ⟨hpair, Or.inr (by rw [List.getElem?_eq_getElem hslot, heq]), ?_⟩
      rwa [← heq, List.set_getElem_self]
  · rintro ⟨hpair, hseen, hrest⟩
    have hrequest := (opcodeClass_request p.1).mpr hpair.request
    have hresponse := (opcodeClass_ordinaryResponse p.2).mpr hpair.response
    have hdefined : (⟨p.1⟩ : Opcode).expectedOrdinaryResponse.any
        (fun expected => expected != ⟨p.2⟩) = false := by
      cases he : (⟨p.1⟩ : Opcode).expectedOrdinaryResponse with
      | none => rfl
      | some e => simp [hpair.defined e he]
    have hlow : ¬ p.1 < 0x41 := UInt8.not_lt.mpr hpair.request.1
    rw [if_neg (not_not.mpr hrequest), if_neg (not_not.mpr hresponse), hdefined,
      if_neg Bool.false_ne_true, if_neg hlow]
    rw [show (p.1 - 0x41).toNat = slot p.1 from rfl]
    rcases hseen with hseen | hseen
    · simp only [hseen, ne_eq, not_true_eq_false, false_and, if_false, if_true]
      exact hrest
    · have hslot : slot p.1 < seen.length := hlen ▸ slot_lt hpair.request
      have heq : seen.set (slot p.1) p.2 = seen := by
        rw [List.getElem?_eq_getElem hslot] at hseen
        rw [← Option.some.inj hseen, List.set_getElem_self]
      rw [heq] at hrest
      simp only [hseen, ne_eq, not_true_eq_false, and_false, if_false, heq, ite_self]
      exact hrest

/-- The string from a position on is in the grammar, and its pairs agree with
those before it. -/
structure Follows (rest seen : List UInt8) (pairs : List (UInt8 × UInt8)) (changed : Bool) :
    Prop extends Grammar rest pairs changed where
  agrees : ∀ p ∈ pairs, seen[slot p.1]? = some 0 ∨ seen[slot p.1]? = some p.2

theorem follows_cons_iff {rest seen : List UInt8} {p : UInt8 × UInt8}
    {pairs : List (UInt8 × UInt8)} {changed : Bool} (hlen : seen.length = 26) :
    Follows (p.1 :: p.2 :: rest) seen (p :: pairs) changed ↔
      IsPair p ∧ (seen[slot p.1]? = some 0 ∨ seen[slot p.1]? = some p.2) ∧
        Follows rest (seen.set (slot p.1) p.2) pairs changed := by
  have hbytes : p.1 :: p.2 :: rest = pairBytes (p :: pairs) changed ↔
      rest = pairBytes pairs changed := by
    simp [pairBytes]
  constructor
  · intro h
    have hp := h.pair p List.mem_cons_self
    refine ⟨hp, h.agrees p List.mem_cons_self, ⟨hbytes.mp h.bytes_eq,
      fun q hq => h.pair q (List.mem_cons_of_mem _ hq),
      fun q hq r hr => h.consistent q (List.mem_cons_of_mem _ hq) r (List.mem_cons_of_mem _ hr)⟩,
      fun q hq => ?_⟩
    by_cases hslot : slot p.1 = slot q.1
    · right
      rw [← hslot, List.getElem?_set_self (hlen ▸ slot_lt hp.request),
        h.consistent p List.mem_cons_self q (List.mem_cons_of_mem _ hq) (slot_injective hslot)]
    · rw [List.getElem?_set_ne hslot]
      exact h.agrees q (List.mem_cons_of_mem _ hq)
  · rintro ⟨hp, hagrees, h⟩
    have hset : (seen.set (slot p.1) p.2)[slot p.1]? = some p.2 :=
      List.getElem?_set_self (hlen ▸ slot_lt hp.request)
    have hsame : ∀ q ∈ pairs, p.1 = q.1 → p.2 = q.2 := by
      intro q hq heq
      have hq' := h.agrees q hq
      rw [← heq, hset] at hq'
      rcases hq' with hq' | hq'
      · have hzero : p.2 = 0 := Option.some.inj hq'
        exact absurd (hzero ▸ hp.response.1) (by decide)
      · exact Option.some.inj hq'
    refine ⟨⟨hbytes.mpr h.bytes_eq, ?_, ?_⟩, ?_⟩
    · intro q hq
      rcases List.mem_cons.mp hq with rfl | hq
      · exact hp
      · exact h.pair q hq
    · intro q hq r hr heq
      rw [List.mem_cons] at hq hr
      rcases hq with rfl | hq <;> rcases hr with rfl | hr
      · rfl
      · exact hsame r hr heq
      · exact (hsame q hq heq.symm).symm
      · exact h.consistent q hq r hr heq
    · intro q hq
      rcases List.mem_cons.mp hq with rfl | hq
      · exact hagrees
      · by_cases hslot : slot p.1 = slot q.1
        · have heq := slot_injective hslot
          rw [← hsame q hq heq, ← heq]
          exact hagrees
        · have hq' := h.agrees q hq
          rwa [List.getElem?_set_ne hslot] at hq'

theorem Follows.head {p : UInt8 × UInt8} {pairs : List (UInt8 × UInt8)} {changed : Bool}
    {rest seen : List UInt8} (h : Follows rest seen (p :: pairs) changed) :
    ∃ tail, rest = p.1 :: p.2 :: tail ∧ p.1 ≠ 0x21 := by
  refine ⟨pairBytes pairs changed, by rw [h.bytes_eq]; simp [pairBytes], fun heq => ?_⟩
  have hrequest := (h.pair p List.mem_cons_self).request.1
  rw [heq] at hrequest
  exact absurd hrequest (by decide)

theorem parseLoop_ok_iff (total : ℕ) (htotal : total < 2 ^ 64) (rest : List UInt8) :
    ∀ (index : ℕ) (seen : List UInt8), index + rest.length = total → seen.length = 26 →
      (parseLoop total rest index seen = .ok () ↔
        ∃ pairs changed, Follows rest seen pairs changed) := by
  have hnone : ∀ {rest seen : List UInt8} {changed : Bool}, rest = pairBytes [] changed →
      Follows rest seen [] changed := fun h => ⟨⟨h, by simp, by simp⟩, by simp⟩
  induction rest using List.twoStepInduction with
  | nil =>
    intro index seen _ _
    exact ⟨fun _ => ⟨[], false, hnone rfl⟩, fun _ => rfl⟩
  | singleton b =>
    intro index seen hindex _
    simp only [List.length_cons, List.length_nil, zero_add] at hindex
    have hadd : checkedAdd index 1 = some total := by rw [checkedAdd, hindex, if_pos htotal]
    by_cases hb : b = 0x21
    · simp only [parseLoop, if_pos hb, hadd, ne_eq, not_true_eq_false, if_false, true_iff]
      exact ⟨[], true, hnone (by rw [hb]; rfl)⟩
    · simp only [parseLoop, if_neg hb, hadd, reduceCtorEq, false_iff]
      rintro ⟨pairs, changed, h⟩
      cases pairs with
      | nil =>
        have hbytes := h.bytes_eq
        cases changed with
        | false => cases hbytes
        | true => exact hb (List.cons.inj hbytes).1
      | cons p pairs =>
        obtain ⟨tail, htail, -⟩ := h.head
        cases htail
  | cons_cons a b rest ih _ =>
    intro index seen hindex hlen
    simp only [List.length_cons] at hindex
    by_cases ha : a = 0x21
    · have hadd : checkedAdd index 1 ≠ some total := by
        rw [checkedAdd, if_pos (by omega)]
        intro h
        have := Option.some.inj h
        omega
      simp only [parseLoop, if_pos ha, if_pos hadd, reduceCtorEq, false_iff]
      rintro ⟨pairs, changed, h⟩
      cases pairs with
      | nil =>
        have hbytes := congrArg List.length h.bytes_eq
        cases changed <;> simp [pairBytes] at hbytes
      | cons p pairs =>
        obtain ⟨tail, htail, hne⟩ := h.head
        exact hne ((List.cons.inj htail).1.symm.trans ha)
    · have hrec := ih (index + 2) (seen.set (slot a) b) (by omega) (by rw [List.length_set, hlen])
      rw [parseLoop_pair (p := (a, b)) hlen (by omega) ha, hrec]
      constructor
      · rintro ⟨hpair, hagrees, pairs, changed, h⟩
        exact ⟨(a, b) :: pairs, changed, (follows_cons_iff hlen).mpr ⟨hpair, hagrees, h⟩⟩
      · rintro ⟨pairs, changed, h⟩
        cases pairs with
        | nil =>
          have hbytes := congrArg List.length h.bytes_eq
          cases changed <;> simp [pairBytes] at hbytes
        | cons p pairs =>
          obtain ⟨tail, htail, -⟩ := h.head
          obtain ⟨rfl, hrest⟩ := List.cons.inj htail
          obtain ⟨rfl, rfl⟩ := List.cons.inj hrest
          obtain ⟨hpair, hagrees, hfollows⟩ := (follows_cons_iff (p := p) hlen).mp h
          exact ⟨hpair, hagrees, pairs, changed, hfollows⟩

theorem Grammar.changed_eq {bytes : List UInt8} {pairs : List (UInt8 × UInt8)} {changed : Bool}
    (h : Grammar bytes pairs changed) : (bytes.getLast? == some 0x21) = changed := by
  rw [h.bytes_eq, pairBytes]
  cases changed with
  | true => simp
  | false =>
    rcases List.eq_nil_or_concat pairs with rfl | ⟨init, p, rfl⟩
    · rfl
    · have hp := (h.pair p (by simp)).response.1
      have hne : p.2 ≠ 0x21 := by
        rintro heq
        rw [heq] at hp
        exact absurd hp (by decide)
      simp [List.getLast?_append, hne]

theorem Grammar.ascii {bytes : List UInt8} {pairs : List (UInt8 × UInt8)} {changed : Bool}
    (h : Grammar bytes pairs changed) : bytes.any (fun b => 0x80 ≤ b) = false := by
  have hlt : ∀ b ∈ bytes, b ≤ 0x7a := by
    intro b hb
    rw [h.bytes_eq, pairBytes, List.mem_append, List.mem_flatMap] at hb
    rcases hb with ⟨p, hp, hb⟩ | hb
    · have hpair := h.pair p hp
      simp only [List.mem_cons, List.not_mem_nil, or_false] at hb
      rcases hb with rfl | rfl
      · exact UInt8.le_trans hpair.request.2 (by decide)
      · exact hpair.response.2
    · split_ifs at hb with hchanged
      · rw [List.mem_singleton.mp hb]
        decide
      · cases hb
  rw [List.any_eq_false]
  intro b hb hge
  exact absurd (UInt8.le_trans (of_decide_eq_true hge) (hlt b hb)) (by decide)

theorem parse_ok_iff {raw : Str} (hlen : raw.length < 2 ^ 64) (caps : CapsRef) :
    parse raw = .ok caps ↔ caps.raw = raw ∧ ∃ pairs, Grammar raw.bytes pairs caps.supportsChanged := by
  have hloop := parseLoop_ok_iff raw.length hlen raw.bytes 0 (List.replicate 26 0)
    (Nat.zero_add _) (List.length_replicate)
  have hfresh : ∀ pairs changed, Follows raw.bytes (List.replicate 26 0) pairs changed ↔
      Grammar raw.bytes pairs changed := by
    refine fun pairs changed => ⟨fun h => h.toGrammar, fun h => ⟨h, fun p hp => Or.inl ?_⟩⟩
    rw [List.getElem?_replicate, if_pos (slot_lt (h.pair p hp).request)]
  simp only [hfresh] at hloop
  unfold parse
  constructor
  · intro h
    split_ifs at h with hascii
    cases hparse : parseLoop raw.length raw.bytes 0 (List.replicate 26 0) with
    | error e =>
      rw [hparse] at h
      cases h
    | ok u =>
      rw [hparse] at h
      cases h
      obtain ⟨pairs, changed, hgrammar⟩ := hloop.mp hparse
      exact ⟨rfl, pairs, hgrammar.changed_eq ▸ hgrammar⟩
  · rintro ⟨rfl, pairs, hgrammar⟩
    rw [hgrammar.ascii, if_neg Bool.false_ne_true, hloop.mpr ⟨pairs, _, hgrammar⟩]
    simp only [hgrammar.changed_eq]

end CapsRef
end Qup
