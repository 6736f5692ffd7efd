import Qup.Core.Frame

/-!
# Corrupted frames

Two slices of one length that differ in one byte. The sum of a slice is injective
in each of its bytes, so at most one of the two sums to zero. `parseFrame` compares
the declared length first, then the sum, then looks at the opcode: a wrong byte
outside the length is a checksum mismatch in either direction.
-/

namespace Qup

structure DifferAt (a b : List UInt8) (i : ℕ) : Prop where
  length_eq : a.length = b.length
  inside : i < a.length
  differs : a[i]? ≠ b[i]?
  agrees : ∀ j, j ≠ i → a[j]? = b[j]?

theorem DifferAt.split {a b : List UInt8} {i : ℕ} (h : DifferAt a b i) :
    ∃ front x y back, a = front ++ x :: back ∧ b = front ++ y :: back ∧ front.length = i ∧
      x ≠ y := by
  have ha : i < a.length := h.inside
  have hb : i < b.length := h.length_eq ▸ ha
  have htake : a.take i = b.take i := by
    apply List.ext_getElem?
    intro j
    by_cases hj : j < i
    · rw [List.getElem?_take_of_lt hj, List.getElem?_take_of_lt hj]
      exact h.agrees j (Nat.ne_of_lt hj)
    · rw [List.getElem?_take_eq_none (Nat.le_of_not_lt hj),
        List.getElem?_take_eq_none (Nat.le_of_not_lt hj)]
  have hdrop : a.drop (i + 1) = b.drop (i + 1) := by
    apply List.ext_getElem?
    intro j
    rw [List.getElem?_drop, List.getElem?_drop]
    exact h.agrees (i + 1 + j) (by omega)
  refine ⟨a.take i, a[i], b[i], a.drop (i + 1), ?_, ?_, ?_, ?_⟩
  · rw [List.getElem_cons_drop, List.take_append_drop]
  · rw [htake, hdrop, List.getElem_cons_drop, List.take_append_drop]
  · rw [List.length_take]
    exact Nat.min_eq_left (Nat.le_of_lt ha)
  · intro heq
    apply h.differs
    rw [List.getElem?_eq_getElem ha, List.getElem?_eq_getElem hb, heq]

theorem frameSum_ne {x y : UInt8} (h : x ≠ y) (front back : List UInt8) :
    frameSum (front ++ x :: back) ≠ frameSum (front ++ y :: back) := by
  intro heq
  simp only [frameSum_append, frameSum_cons] at heq
  exact h (by grind)

theorem parseFrame_badSum (direction : WireDirection) {op hi lo : UInt8} {rest : List UInt8}
    (hlen : rest.length = (ofBe16 hi lo).toNat + 1)
    (hsum : frameSum (op :: hi :: lo :: rest) ≠ 0) :
    parseFrame direction (op :: hi :: lo :: rest) =
      .error (.checksumMismatch (frameSum (op :: hi :: lo :: rest))) := by
  have hlong : ¬ (op :: hi :: lo :: rest).length < frameOverhead := by
    simp only [List.length_cons, frameOverhead]
    omega
  have hpayload : (op :: hi :: lo :: rest).length - frameOverhead = (ofBe16 hi lo).toNat := by
    simp only [List.length_cons, frameOverhead]
    omega
  unfold parseFrame
  rw [if_neg hlong]
  simp only [hpayload, ne_eq, not_true_eq_false, if_false]
  rw [if_pos hsum]

theorem accepted_shape {direction : WireDirection} {a : List UInt8} {view : FrameView}
    (h : parseFrame direction a = .ok view) : frameSum a = 0 ∧
      ∃ op hi lo rest, a = op :: hi :: lo :: rest ∧ rest.length = (ofBe16 hi lo).toNat + 1 := by
  obtain ⟨opcode, payload, -, hlen, rfl, -⟩ := (parseFrame_ok_iff direction a view).mp h
  refine ⟨frameSum_frameBytes opcode payload, opcode.byte, _, _, _,
    rawFrame_eq opcode payload _, ?_⟩
  rw [ofBe16_be16, toNat_ofNat16 hlen]
  change (payload ++ [computeChecksum opcode payload]).length = payload.length + 1
  rw [List.length_append, List.length_singleton]

/-- No single wrong byte goes unnoticed, and outside the length bytes it is the
checksum that notices it. -/
theorem parseFrame_notices {a b : List UInt8} {i : ℕ} (h : DifferAt a b i)
    (direction direction' : WireDirection) :
    ¬ ((∃ view, parseFrame direction a = .ok view) ∧
        ∃ view, parseFrame direction' b = .ok view) ∧
      ((∃ view, parseFrame direction a = .ok view) →
        (∃ e, parseFrame direction' b = .error e) ∧
          (i ≠ 1 → i ≠ 2 → ∃ sum, parseFrame direction' b = .error (.checksumMismatch sum))) := by
  obtain ⟨front, x, y, back, rfl, rfl, hi, hne⟩ := h.split
  have hsum := frameSum_ne hne front back
  have hboth : ¬ ((∃ view, parseFrame direction (front ++ x :: back) = .ok view) ∧
      ∃ view, parseFrame direction' (front ++ y :: back) = .ok view) := by
    rintro ⟨⟨view, hview⟩, view', hview'⟩
    exact hsum ((accepted_shape hview).1.trans (accepted_shape hview').1.symm)
  refine ⟨hboth, fun haccepted => ⟨?_, fun h1 h2 => ?_⟩⟩
  · cases hparse : parseFrame direction' (front ++ y :: back) with
    | error e => exact ⟨e, rfl⟩
    | ok view => exact absurd ⟨haccepted, view, hparse⟩ hboth
  · obtain ⟨view, hview⟩ := haccepted
    obtain ⟨hzero, op, hi', lo, rest, hshape, hlen⟩ := accepted_shape hview
    rw [hzero] at hsum
    -- the byte is the opcode, or it stands after the length
    rcases front with _ | ⟨a₀, _ | ⟨a₁, _ | ⟨a₂, front⟩⟩⟩
    · obtain ⟨-, rfl⟩ := List.cons.inj hshape
      exact ⟨_, parseFrame_badSum direction' hlen hsum.symm⟩
    · exact absurd hi.symm h1
    · exact absurd hi.symm h2
    · simp only [List.cons_append] at hshape hsum ⊢
      cases hshape
      refine ⟨_, parseFrame_badSum direction' ?_ hsum.symm⟩
      rw [← hlen, List.length_append, List.length_append]
      rfl

theorem parseFrame_notices_ping : DifferAt [0x50, 0, 0, 0xb0] [0x51, 0, 0, 0xb0] 0 ∧
    ∃ sum, parseFrame .clientToNode [0x51, 0, 0, 0xb0] = .error (.checksumMismatch sum) := by
  have h : DifferAt [0x50, 0, 0, 0xb0] [0x51, 0, 0, 0xb0] 0 := by
    refine ⟨rfl, by decide, by decide, fun j hj => ?_⟩
    cases j with
    | zero => exact absurd rfl hj
    | succ j => rfl
  have haccepted : ∃ view, parseFrame .clientToNode [0x50, 0, 0, 0xb0] = .ok view :=
    ⟨_, rfl⟩
  exact ⟨h, ((parseFrame_notices h .clientToNode .clientToNode).2 haccepted).2
    (by decide) (by decide)⟩

end Qup
