import Qup.Core.Caps

/-!
# Reading a `CAPS` string back

`CapsEntry` and `CapsIter` of `qup-core/src/types/caps.rs`, and the loop of
`CapsRef::parse` once more with the place of each `return`. The iterator parses
the string again without checking it; after the parser it finds the same pairs.
-/

namespace Qup
open Foundation Foundation.Utf8

structure CapsEntry where
  request : Opcode
  response : Opcode
  known : Bool
  deriving DecidableEq, Repr

structure CapsIter where
  bytes : List UInt8
  index : ℕ
  deriving DecidableEq, Repr

def saturatingAdd (a b : ℕ) : ℕ := min (a + b) (2 ^ 64 - 1)

namespace CapsIter

def next (it : CapsIter) : Option (CapsEntry × CapsIter) :=
  match it.bytes[it.index]? with
  | none => none
  | some requestByte =>
    if requestByte = 0x21 then none
    else
      match checkedAdd it.index 1 with
      | none => none
      | some responseIndex =>
        match it.bytes[responseIndex]? with
        | none => none
        | some responseByte =>
          let request : Opcode := ⟨requestByte⟩
          let response : Opcode := ⟨responseByte⟩
          some (⟨request, response, request.expectedOrdinaryResponse.isSome⟩,
            { it with index := saturatingAdd responseIndex 1 })

inductive Yields : CapsIter → List CapsEntry → Prop
  | done {it : CapsIter} : it.next = none → Yields it []
  | more {it it' : CapsIter} {entry : CapsEntry} {entries : List CapsEntry} :
      it.next = some (entry, it') → Yields it' entries → Yields it (entry :: entries)

theorem Yields.unique {it : CapsIter} {entries others : List CapsEntry} (h : Yields it entries)
    (h' : Yields it others) : entries = others := by
  induction h generalizing others with
  | done hnone =>
    cases h' with
    | done => rfl
    | more hsome _ => exact absurd (hnone.symm.trans hsome) (by simp)
  | more hsome _ ih =>
    cases h' with
    | done hnone => exact absurd (hnone.symm.trans hsome) (by simp)
    | more hsome' hrest =>
      obtain ⟨rfl, rfl⟩ := Prod.mk.inj (Option.some.inj (hsome.symm.trans hsome'))
      rw [ih hrest]

end CapsIter

def CapsEntry.ofPair (p : UInt8 × UInt8) : CapsEntry :=
  ⟨⟨p.1⟩, ⟨p.2⟩, (⟨p.1⟩ : Opcode).expectedOrdinaryResponse.isSome⟩

namespace CapsRef

def iter (caps : CapsRef) : CapsIter := ⟨caps.raw.bytes, 0⟩

theorem next_pair {front rest : List UInt8} {p : UInt8 × UInt8} (hp : p.1 ≠ 0x21)
    (hlen : (front ++ p.1 :: p.2 :: rest).length < 2 ^ 64) :
    CapsIter.next ⟨front ++ p.1 :: p.2 :: rest, front.length⟩ =
      some (.ofPair p, ⟨front ++ p.1 :: p.2 :: rest, (front ++ [p.1, p.2]).length⟩) := by
  simp only [List.length_append, List.length_cons] at hlen
  have hrequest : (front ++ p.1 :: p.2 :: rest)[front.length]? = some p.1 := by simp
  have hresponse : (front ++ p.1 :: p.2 :: rest)[front.length + 1]? = some p.2 := by simp
  have hadd : checkedAdd front.length 1 = some (front.length + 1) := if_pos (by omega)
  have hsat : saturatingAdd (front.length + 1) 1 = (front ++ [p.1, p.2]).length := by
    rw [saturatingAdd, List.length_append, List.length_cons, List.length_singleton]
    omega
  simp only [CapsIter.next, hrequest, if_neg hp, hadd, hresponse, hsat, CapsEntry.ofPair]

theorem next_end (front : List UInt8) (changed : Bool) :
    CapsIter.next ⟨front ++ pairBytes [] changed, front.length⟩ = none := by
  cases changed with
  | false => simp [CapsIter.next, pairBytes]
  | true => simp [CapsIter.next, pairBytes]

theorem yields_pairs {pairs : List (UInt8 × UInt8)} {changed : Bool}
    (hpairs : ∀ p ∈ pairs, IsPair p) (front : List UInt8)
    (hlen : (front ++ pairBytes pairs changed).length < 2 ^ 64) :
    CapsIter.Yields ⟨front ++ pairBytes pairs changed, front.length⟩
      (pairs.map CapsEntry.ofPair) := by
  induction pairs generalizing front with
  | nil => exact .done (next_end front changed)
  | cons p pairs ih =>
    have hne : p.1 ≠ 0x21 := by
      intro heq
      have hrequest := (hpairs p List.mem_cons_self).request.1
      rw [heq] at hrequest
      exact absurd hrequest (by decide)
    have hsplit : front ++ [p.1, p.2] ++ pairBytes pairs changed =
        front ++ pairBytes (p :: pairs) changed := by simp [pairBytes]
    have hrest := ih (fun q hq => hpairs q (List.mem_cons_of_mem _ hq)) (front ++ [p.1, p.2])
      (by rw [hsplit]; exact hlen)
    rw [hsplit] at hrest
    exact .more (next_pair hne hlen) hrest

inductive Rejection where
  | notAscii
  | markOverflow
  | markNotLast
  | responseOverflow
  | responseMissing
  | notRequest
  | notOrdinaryResponse
  | wrongResponse
  | slotUnderflow
  | slotOutOfRange
  | conflict
  deriving DecidableEq, Repr

/-- Arithmetic that overflows, or a slot outside the memory. A response byte that
is missing is an odd length, and not of these. -/
def Rejection.outOfRange : Rejection → Bool
  | .markOverflow | .responseOverflow | .slotUnderflow | .slotOutOfRange => true
  | _ => false

def rejectionLoop (total : ℕ) : List UInt8 → ℕ → List UInt8 → Option Rejection
  | [], _, _ => none
  | requestByte :: rest, index, seen =>
    if requestByte = 0x21 then
      match checkedAdd index 1 with
      | none => some .markOverflow
      | some last => if last ≠ total then some .markNotLast else none
    else
      match checkedAdd index 1 with
      | none => some .responseOverflow
      | some responseIndex =>
        match rest with
        | [] => some .responseMissing
        | responseByte :: rest =>
          let request : Opcode := ⟨requestByte⟩
          let response : Opcode := ⟨responseByte⟩
          if request.opcodeClass ≠ .request then some .notRequest
          else if response.opcodeClass ≠ .ordinaryResponse then some .notOrdinaryResponse
          else if request.expectedOrdinaryResponse.any (fun expected => expected != response) then
            some .wrongResponse
          else if request.byte < 0x41 then some .slotUnderflow
          else
            let slot := (request.byte - 0x41).toNat
            match seen[slot]? with
            | none => some .slotOutOfRange
            | some seenResponse =>
              if seenResponse ≠ 0 ∧ seenResponse ≠ response.byte then some .conflict
              else
                let seen := if seenResponse = 0 then seen.set slot response.byte else seen
                rejectionLoop total rest (responseIndex + 1) seen

def rejection (raw : Str) : Option Rejection :=
  if raw.bytes.any (fun b => 0x80 ≤ b) then some .notAscii
  else rejectionLoop raw.length raw.bytes 0 (List.replicate 26 0)

theorem parseLoop_eq_rejectionLoop (total : ℕ) (rest : List UInt8) :
    ∀ (index : ℕ) (seen : List UInt8), parseLoop total rest index seen =
      (rejectionLoop total rest index seen).elim (.ok ()) fun _ => .error .malformedCaps := by
  induction rest using List.twoStepInduction with
  | nil => exact fun _ _ => rfl
  | singleton b =>
    intro index seen
    by_cases hb : b = 0x21
    · cases hadd : checkedAdd index 1 with
      | none => simp [parseLoop, rejectionLoop, hb, hadd]
      | some last =>
        by_cases hlast : last = total
        · simp [parseLoop, rejectionLoop, hb, hadd, hlast]
        · simp [parseLoop, rejectionLoop, hb, hadd, hlast]
    · cases hadd : checkedAdd index 1 with
      | none => simp [parseLoop, rejectionLoop, hb, hadd]
      | some last => simp [parseLoop, rejectionLoop, hb, hadd]
  | cons_cons a b rest ih _ =>
    intro index seen
    by_cases ha : a = 0x21
    · cases hadd : checkedAdd index 1 with
      | none => simp [parseLoop, rejectionLoop, ha, hadd]
      | some last =>
        by_cases hlast : last = total
        · simp [parseLoop, rejectionLoop, ha, hadd, hlast]
        · simp [parseLoop, rejectionLoop, ha, hadd, hlast]
    · cases hadd : checkedAdd index 1 with
      | none => simp [parseLoop, rejectionLoop, ha, hadd]
      | some responseIndex =>
        simp only [parseLoop, rejectionLoop, if_neg ha, hadd]
        split_ifs <;> try rfl
        cases hslot : seen[(a - 0x41).toNat]? with
        | none => rfl
        | some seenResponse =>
          simp only
          split_ifs
          · rfl
          · exact ih (responseIndex + 1) _
          · exact ih (responseIndex + 1) _

theorem rejectionLoop_inRange (total : ℕ) (htotal : total < 2 ^ 64) (rest : List UInt8) :
    ∀ (index : ℕ) (seen : List UInt8), index + rest.length = total → seen.length = 26 →
      ∀ why, rejectionLoop total rest index seen = some why → why.outOfRange = false := by
  induction rest using List.twoStepInduction with
  | nil => exact fun _ _ _ _ _ h => by cases h
  | singleton b =>
    intro index seen hindex _ why h
    simp only [List.length_singleton] at hindex
    have hadd : checkedAdd index 1 = some (index + 1) := if_pos (by omega)
    simp only [rejectionLoop, hadd] at h
    split_ifs at h <;> (cases h; rfl)
  | cons_cons a b rest ih _ =>
    intro index seen hindex hseen why h
    simp only [List.length_cons] at hindex
    have hadd : checkedAdd index 1 = some (index + 1) := if_pos (by omega)
    simp only [rejectionLoop, hadd] at h
    by_cases ha : a = 0x21
    · simp only [if_pos ha] at h
      split_ifs at h
      cases h
      rfl
    · rw [if_neg ha] at h
      by_cases hclass : (⟨a⟩ : Opcode).opcodeClass = .request
      · -- a request letter has a slot
        have hrequest := (opcodeClass_request a).mp hclass
        have hslot : (a - 0x41).toNat < seen.length := hseen ▸ slot_lt hrequest
        rw [if_neg (not_not.mpr hclass), if_neg (UInt8.not_lt.mpr hrequest.1),
          List.getElem?_eq_getElem hslot] at h
        simp only at h
        split_ifs at h
        · cases h
          rfl
        · cases h
          rfl
        · cases h
          rfl
        · exact ih (index + 1 + 1) _ (by omega) (by rw [List.length_set, hseen]) why h
        · exact ih (index + 1 + 1) _ (by omega) hseen why h
      · rw [if_pos hclass] at h
        cases h
        rfl

theorem rejection_inRange {raw : Str} (hlen : raw.length < 2 ^ 64) {why : Rejection}
    (h : rejection raw = some why) : why.outOfRange = false := by
  unfold rejection at h
  split_ifs at h
  · cases h
    rfl
  · exact rejectionLoop_inRange raw.length hlen raw.bytes 0 _ (Nat.zero_add _)
      List.length_replicate why h

theorem parse_error_iff (raw : Str) :
    (∃ e, parse raw = .error e) ↔ ∃ why, rejection raw = some why := by
  unfold parse rejection
  split_ifs with hascii
  · exact ⟨fun _ => ⟨_, rfl⟩, fun _ => ⟨_, rfl⟩⟩
  · rw [parseLoop_eq_rejectionLoop]
    cases rejectionLoop raw.length raw.bytes 0 (List.replicate 26 0) with
    | none => simp
    | some why => exact ⟨fun _ => ⟨why, rfl⟩, fun _ => ⟨_, rfl⟩⟩

/-- A string parses exactly when it is in the grammar. Then `supports_changed` is
its last byte and `iter` its pairs; and what is rejected is never rejected for
arithmetic or a slot out of range. -/
theorem parse_reads_grammar {raw : Str} (hlen : raw.length < 2 ^ 64) :
    ((∃ caps, parse raw = .ok caps) ↔ ∃ pairs changed, Grammar raw.bytes pairs changed) ∧
      (∀ caps, parse raw = .ok caps → caps.raw = raw ∧
        (caps.supportsChanged = true ↔ raw.bytes.getLast? = some 0x21) ∧
        ∃ pairs, Grammar raw.bytes pairs caps.supportsChanged ∧
          raw.bytes = pairBytes pairs caps.supportsChanged ∧
          ∀ entries, caps.iter.Yields entries ↔ entries = pairs.map CapsEntry.ofPair) ∧
      ((∃ e, parse raw = .error e) ↔ ∃ why, rejection raw = some why) ∧
      ∀ why, rejection raw = some why → why.outOfRange = false := by
  refine ⟨⟨fun h => ?_, fun h => ?_⟩, fun caps h => ?_, parse_error_iff raw,
    fun why => rejection_inRange hlen⟩
  · obtain ⟨caps, hcaps⟩ := h
    obtain ⟨-, pairs, hgrammar⟩ := (parse_ok_iff hlen caps).mp hcaps
    exact ⟨pairs, caps.supportsChanged, hgrammar⟩
  · obtain ⟨pairs, changed, hgrammar⟩ := h
    exact ⟨⟨raw, changed⟩, (parse_ok_iff hlen _).mpr ⟨rfl, pairs, hgrammar⟩⟩
  · obtain ⟨hraw, pairs, hgrammar⟩ := (parse_ok_iff hlen caps).mp h
    have hlast : caps.supportsChanged = true ↔ raw.bytes.getLast? = some 0x21 := by
      rw [← hgrammar.changed_eq, beq_iff_eq]
    have hyields : caps.iter.Yields (pairs.map CapsEntry.ofPair) := by
      have h := @yields_pairs pairs caps.supportsChanged hgrammar.pair []
        (by rw [List.nil_append, ← hgrammar.bytes_eq]; exact hlen)
      rw [List.nil_append, ← hgrammar.bytes_eq] at h
      rw [iter, hraw]
      exact h
    refine ⟨hraw, hlast, pairs, hgrammar, hgrammar.bytes_eq, fun entries => ⟨fun h => ?_, ?_⟩⟩
    · exact h.unique hyields
    · rintro rfl
      exact hyields

theorem parse_reads_grammar_observe :
    ∃ pairs changed, Grammar [0x4e, 0x6b, 0x21] pairs changed :=
  (@parse_reads_grammar ⟨[0x4e, 0x6b, 0x21], by decide⟩ (by decide)).1.mp ⟨_, rfl⟩

end CapsRef
end Qup
