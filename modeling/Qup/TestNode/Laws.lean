import Qup.TestNode.Handling

/-!
# The laws of reading and writing

For every key that is readable and writable: a value that was written is what the
next read returns, a refused write changes nothing, and writing back what was read
changes nothing either and is announced to nobody. The last does not hold of
`small_str0`, which refuses every write.
-/

namespace Qup.TestNode
open Foundation Foundation.Program Foundation.Utf8

section
variable {noise : Cell → Bool} {c : ℕ} {alive : Prop} {cell : Cell} {keyref : UInt16} {σ : Seen}

def Answered (noise : Cell → Bool) (c : ℕ) (alive : Prop) (σ : Seen) (frame : MessageRef)
    (τ : Seen) : Prop :=
  τ = σ.put noise c frame ∨ ¬ alive ∧ τ = σ

theorem send_answered (frame : MessageRef) :
    (send c frame : Action Empty Bool).Assures (Acts noise c alive)
      (fun _ τ => Answered noise c alive σ frame τ) σ := by
  intro sent τ hacts
  rcases hacts with ⟨-, hput⟩ | ⟨-, hsame, hdead⟩
  · exact .inl hput
  · exact .inr ⟨fun halive => hdead halive rfl, hsame⟩

theorem get_answered (hshared : cell.isShared) (hkeyref : cell.keyref = some keyref)
    (hquiet : noise cell = false) :
    (dispatchRequest c (.get keyref)).Assures (Acts noise c alive)
      (fun _ τ => Answered noise c alive σ (encodeValue (cell.wire (σ.store cell))) τ) σ := by
  simp only [dispatchRequest, getValue_shared hshared hkeyref]
  rintro value τ ⟨hvalue, rfl⟩
  rw [hvalue hquiet]
  exact send_answered _

theorem write_refused (hshared : cell.isShared) (hkeyref : cell.keyref = some keyref)
    {value : ValueRef} {code : UInt8} (haccept : cell.accept value = .error code) :
    (dispatchRequest c (.write keyref value)).Assures (Acts noise c alive)
      (fun _ τ => Answered noise c alive σ (encodeError code) τ) σ := by
  simp only [dispatchRequest, writeValue_shared hshared hkeyref, haccept]
  exact send_answered _

theorem set_same (hquiet : noise cell = false) {value : cell.Value} (h : σ.store cell = value) :
    σ.set noise cell value = σ := by
  simp only [Seen.set, hquiet, ← h, Function.update_eq_self]
  rfl

def announce (c : ℕ) (success : WriteSuccess) : Action Empty Bool := do
  let sent ← send c (encodeWritten success.value)
  if !sent then pure false
  else match success.changedKeyref with
    | some changedKeyref => do
      broadcastChanged changedKeyref
      pure true
    | none => pure true

theorem dispatchRequest_write (hshared : cell.isShared) (hkeyref : cell.keyref = some keyref)
    {value : ValueRef} {stored : cell.Value} (haccept : cell.accept value = .ok stored) :
    dispatchRequest c (.write keyref value) = .act (.swap cell stored) fun previous =>
      announce c ⟨cell.wire stored, observableChange keyref (previous != stored)⟩ := by
  simp only [dispatchRequest, writeValue_shared hshared hkeyref, haccept]
  rfl

theorem write_same (hshared : cell.isShared) (hkeyref : cell.keyref = some keyref)
    (hquiet : noise cell = false) {value : ValueRef} {stored : cell.Value}
    (haccept : cell.accept value = .ok stored) (hstored : σ.store cell = stored) :
    (dispatchRequest c (.write keyref value)).Assures (Acts noise c alive)
      (fun _ τ => Answered noise c alive σ (encodeWritten (cell.wire stored)) τ) σ := by
  rw [dispatchRequest_write hshared hkeyref haccept]
  rintro previous τ ⟨hprevious, rfl⟩
  have hunchanged : observableChange keyref (previous != stored) = none := by
    rw [hprevious hquiet, hstored]
    simp [observableChange]
  dsimp only
  rw [hunchanged, set_same hquiet hstored]
  intro sent τ hacts
  rcases hacts with ⟨rfl, hput⟩ | ⟨rfl, hsame, hdead⟩
  · exact .inl hput
  · exact .inr ⟨fun halive => hdead halive rfl, hsame⟩

/-- The value is stored and the connection has been sent these responses. -/
def Stored (cell : Cell) (stored : cell.Value) (c : ℕ) (responses : List MessageRef) (τ : Seen) :
    Prop :=
  τ.store cell = stored ∧ (τ.frames c).filter (fun frame => !isChanged frame) = responses

theorem stored_notice {stored : cell.Value} {responses : List MessageRef}
    (h : Stored cell stored c responses σ) (d : ℕ) (changed : UInt16) :
    Stored cell stored c responses (σ.put noise d (encodeChanged changed)) := by
  unfold Seen.put
  split_ifs
  · exact h
  · refine ⟨h.1, ?_⟩
    by_cases hd : c = d
    · subst hd
      simpa [encodeChanged, isChanged] using h.2
    · simpa [Function.update_of_ne hd] using h.2

theorem notifyAll_stored {stored : cell.Value} {responses : List MessageRef} (changed : UInt16)
    (connections : List ℕ) (h : Stored cell stored c responses σ) :
    (notifyAll changed connections : Action Empty Unit).Assures (Acts noise c alive)
      (fun _ τ => Stored cell stored c responses τ) σ := by
  induction connections generalizing σ with
  | nil => exact h
  | cons d connections ih =>
    rintro observing τ rfl
    cases observing with
    | false => exact ih h
    | true =>
      intro sent τ hacts
      rcases hacts with ⟨-, rfl⟩ | ⟨-, rfl, -⟩
      · exact ih (stored_notice h d changed)
      · exact ih h

theorem broadcastChanged_stored {stored : cell.Value} {responses : List MessageRef}
    (changed : UInt16) (h : Stored cell stored c responses σ) :
    (broadcastChanged changed : Action Empty Unit).Assures (Acts noise c alive)
      (fun _ τ => Stored cell stored c responses τ) σ := by
  rintro connections τ rfl
  exact notifyAll_stored changed connections h

theorem stored_written {stored : cell.Value} {responses : List MessageRef}
    (h : Stored cell stored c responses σ) (value : WireValue) :
    Stored cell stored c (responses ++ [encodeWritten value])
      (σ.put noise c (encodeWritten value)) := by
  have hframe : isNoise noise (encodeWritten value) = false := by
    simp [isNoise, encodeChanged, encodeWritten]
  rw [Seen.put, hframe, if_neg Bool.false_ne_true]
  refine ⟨h.1, ?_⟩
  dsimp only
  rw [Function.update_self, List.filter_append, h.2]
  rfl

theorem write_stored (hshared : cell.isShared) (hkeyref : cell.keyref = some keyref)
    (hquiet : noise cell = false) {value : ValueRef} {stored : cell.Value}
    (haccept : cell.accept value = .ok stored) {responses : List MessageRef}
    (hresponses : (σ.frames c).filter (fun frame => !isChanged frame) = responses) :
    (dispatchRequest c (.write keyref value)).Assures (Acts noise c alive)
      (fun _ τ => Stored cell stored c (responses ++ [encodeWritten (cell.wire stored)]) τ ∨
        Stored cell stored c responses τ) σ := by
  rw [dispatchRequest_write hshared hkeyref haccept]
  rintro previous τ ⟨-, rfl⟩
  have hset : Stored cell stored c responses (σ.set noise cell stored) := by
    refine ⟨by simp [Seen.set, hquiet], ?_⟩
    simpa [Seen.set, hquiet] using hresponses
  intro sent τ hacts
  rcases hacts with ⟨rfl, rfl⟩ | ⟨rfl, rfl, -⟩
  · have hwritten := @stored_written noise _ _ _ _ _ hset (cell.wire stored)
    cases hchanged : observableChange keyref (previous != stored) with
    | none => exact .inl hwritten
    | some changed =>
      apply assures_bind (broadcastChanged_stored changed hwritten)
      · exact fun _ _ h => .inl h
      · exact fun _ _ h => .inl h
  · exact .inr hset

end

/-- Stored values changed, and announcements were put into queues, only by the background tasks
that acted in these steps. -/
structure Node.Unaltered (s : Node) (ls : List Label) (s' : Node) : Prop where
  store : ∀ cell, noiseOf ls cell = false → s'.store cell = s.store cell
  notices : ∀ d keyref, encodeChanged keyref ∈ s.added s' d →
    ∃ cell : Cell, noiseOf ls cell ∧ cell.keyref = some keyref

section
variable {c : ℕ} {request : RequestRef} {s s' : Node} {ls : List Label} {noise : Cell → Bool}

theorem noiseOf_shared {cell : Cell} (hshared : cell.isShared) (ls : List Label) :
    noiseOf ls cell = false := by
  rw [noiseOf, List.any_eq_false]
  intro l _ hstirs
  cases l with
  | act t =>
    have hstores := of_decide_eq_true hstirs
    cases t <;> cases hstores <;> cases hshared
  | _ => cases hstirs

theorem store_of_seen {cell : Cell} (hquiet : noise cell = false) :
    (s.seen noise).store cell = s.store cell := by
  simp [Node.seen, hquiet]

theorem Handles.responses_eq (h : Handles c request s ls s') {d : ℕ} {new : List MessageRef}
    (hframes : ((s'.seen noise).frames d).filter (fun frame => !isChanged frame) =
      ((s.seen noise).frames d).filter (fun frame => !isChanged frame) ++ new) :
    s.responses s' d = new := by
  simp only [Node.seen, filter_quiet, h.frames d, List.filter_append] at hframes
  exact List.append_cancel_left hframes

theorem isNoise_of_response {frame : MessageRef} (h : isChanged frame = false) :
    isNoise noise frame = false := by
  cases frame with
  | changed keyref => cases h
  | _ => simp [isNoise, encodeChanged]

theorem frames_put {σ : Seen} {frame : MessageRef} (h : isChanged frame = false) (d : ℕ) :
    (σ.put noise c frame).frames d = σ.frames d ++ if d = c then [frame] else [] := by
  rw [Seen.put, isNoise_of_response h, if_neg Bool.false_ne_true]
  dsimp only
  by_cases hd : d = c
  · subst hd
    rw [Function.update_self, if_pos rfl]
  · rw [Function.update_of_ne hd, if_neg hd, List.append_nil]

theorem store_put {σ : Seen} {frame : MessageRef} (d : ℕ) :
    (σ.put noise d frame).store = σ.store := by
  unfold Seen.put
  split_ifs <;> rfl

theorem Handles.answered {alive : Prop} {frame : MessageRef} (h : Handles c request s ls s')
    (hframe : isChanged frame = false)
    (hanswered : Answered noise c alive (s.seen noise) frame (s'.seen noise)) :
    s.responses s' c = [frame] ∨ ¬ alive ∧ s.responses s' c = [] := by
  rcases hanswered with hput | ⟨hdead, hsame⟩
  · left
    apply h.responses_eq
    rw [hput, frames_put hframe, if_pos rfl, List.filter_append]
    congr 1
    simp [hframe]
  · refine .inr ⟨hdead, ?_⟩
    apply h.responses_eq
    rw [hsame, List.append_nil]

theorem Handles.unaltered {alive : Prop} {frame : MessageRef} (h : Handles c request s ls s')
    (hframe : isChanged frame = false) (hanswered : Answered (noiseOf ls) c alive
      (s.seen (noiseOf ls)) frame (s'.seen (noiseOf ls))) : s.Unaltered ls s' := by
  have hstore : (s'.seen (noiseOf ls)).store = (s.seen (noiseOf ls)).store := by
    rcases hanswered with hput | ⟨-, hsame⟩
    · rw [hput, store_put]
    · rw [hsame]
  refine ⟨fun cell hquiet => ?_, fun d keyref hmem => ?_⟩
  · rw [← store_of_seen hquiet, hstore, store_of_seen hquiet]
  · have hadded : quiet (noiseOf ls) (s.added s' d) ⊆ [frame] := by
      rcases hanswered with hput | ⟨-, hsame⟩
      · rw [h.quiet_added (by rw [hput, frames_put hframe])]
        split_ifs <;> simp
      · rw [h.quiet_added (by rw [hsame, List.append_nil])]
        simp
    by_contra hnone
    have hquiet : encodeChanged keyref ∈ quiet (noiseOf ls) (s.added s' d) := by
      refine List.mem_filter.mpr ⟨hmem, ?_⟩
      rw [Bool.not_eq_true', isNoise, List.any_eq_false]
      intro cell _ hnoise
      obtain ⟨hcell, hkeyref⟩ := Bool.and_eq_true_iff.mp hnoise
      obtain ⟨key, hkey, hchanged⟩ := Option.map_eq_some_iff.mp (of_decide_eq_true hkeyref)
      cases hchanged
      exact hnone ⟨cell, hcell, hkey⟩
    obtain rfl := List.mem_singleton.mp (hadded hquiet)
    cases hframe

end

def Between (s : Node) (ls : List Label) (s' : Node) : Prop :=
  Path Node.step (fun _ l => l.Beside none) s ls s'

section
variable {cell : Cell} {keyref : UInt16} {s s' : Node} {ls : List Label}

theorem Between.store (h : Between s ls s') (hs : s.Sound) (hshared : cell.isShared) :
    s'.store cell = s.store cell := by
  have hquiet := noiseOf_shared hshared ls
  have hguarded := (Path.with_mem h).mono (Q := fun _ l => l.Beside none ∧
    ∀ other, l.stirs other → noiseOf ls other) fun u l hl =>
      ⟨hl.1, fun other hstirs => List.any_eq_true.mpr ⟨l, hl.2, hstirs⟩⟩
  rw [← store_of_seen hquiet, seen_between hguarded hs, store_of_seen hquiet]

theorem Handles.sound {c : ℕ} {request : RequestRef} (h : Handles c request s ls s')
    (hs : s.Sound) : s'.Sound := by
  obtain ⟨l, hpath⟩ := h.path
  exact hpath.invariant Node.Sound hs fun _ _ _ hu _ hstep => nodeSound_step hu hstep

theorem Between.sound (h : Between s ls s') (hs : s.Sound) : s'.Sound :=
  Path.invariant h Node.Sound hs fun _ _ _ hu _ hstep => nodeSound_step hu hstep

theorem encodeValue_injective {a b : WireValue} (h : encodeValue a = encodeValue b) : a = b := by
  apply WireValue.valueRef_injective
  simpa [encodeValue] using h

theorem encodeWritten_injective {a b : WireValue} (h : encodeWritten a = encodeWritten b) :
    a = b := by
  apply WireValue.valueRef_injective
  simpa [encodeWritten] using h

theorem Handles.read (hs : s.Sound) (hshared : cell.isShared) (hkeyref : cell.keyref = some keyref)
    {d : ℕ} (h : Handles d (.get keyref) s ls s') :
    s'.store cell = s.store cell ∧ (s.responses s' d = [encodeValue (cell.wire (s.store cell))] ∨
      ¬ s'.writing d ∧ s.responses s' d = []) := by
  have hquiet := noiseOf_shared hshared ls
  obtain ⟨result, hanswered⟩ := h.assured hs (fun _ => id) id (get_answered hshared hkeyref hquiet)
  rw [store_of_seen hquiet] at hanswered
  exact ⟨(h.unaltered rfl hanswered).store cell hquiet, h.answered rfl hanswered⟩

theorem Handles.write (hs : s.Sound) (hshared : cell.isShared)
    (hkeyref : cell.keyref = some keyref) {c : ℕ} {value : ValueRef}
    (h : Handles c (.write keyref value) s ls s') :
    (∃ code, (s.responses s' c = [encodeError code] ∨ s.responses s' c = []) ∧
        s.Unaltered ls s') ∨
      ∃ stored, cell.accept value = .ok stored ∧ s'.store cell = stored ∧
        (s.responses s' c = [encodeWritten (cell.wire stored)] ∨ s.responses s' c = []) := by
  have hquiet := noiseOf_shared hshared ls
  cases haccept : cell.accept value with
  | error code =>
    left
    obtain ⟨result, hanswered⟩ := @Handles.assured _ _ _ _ _ False _ _ h hs (fun _ => id)
      False.elim (write_refused hshared hkeyref haccept)
    refine ⟨code, ?_, h.unaltered rfl hanswered⟩
    rcases h.answered rfl hanswered with hresponses | ⟨-, hnone⟩
    · exact .inl hresponses
    · exact .inr hnone
  | ok stored =>
    right
    obtain ⟨result, hstored⟩ := @Handles.assured _ _ _ _ _ False _ _ h hs (fun _ => id)
      False.elim (write_stored hshared hkeyref hquiet haccept rfl)
    refine ⟨stored, rfl, ?_⟩
    rcases hstored with ⟨hstore, hframes⟩ | ⟨hstore, hframes⟩
    · rw [store_of_seen hquiet] at hstore
      exact ⟨hstore, .inl (h.responses_eq hframes)⟩
    · rw [store_of_seen hquiet] at hstore
      exact ⟨hstore, .inr (h.responses_eq (by rw [hframes, List.append_nil]))⟩

theorem accept_stored (hs : s.Sound) (hcell : cell ≠ .smallStr0) :
    cell.accept (cell.wire (s.store cell)).valueRef = .ok (s.store cell) :=
  accept_of_expect (hs.store cell).expect ((hs.store cell).admits hcell)

theorem Handles.write_back (hs : s.Sound) (hshared : cell.isShared)
    (hkeyref : cell.keyref = some keyref) (hcell : cell ≠ .smallStr0) {c : ℕ}
    (h : Handles c (.write keyref (cell.wire (s.store cell)).valueRef) s ls s')
    (hwriting : s'.writing c) :
    s.responses s' c = [encodeWritten (cell.wire (s.store cell))] ∧ s.Unaltered ls s' := by
  have hquiet := noiseOf_shared hshared ls
  obtain ⟨result, hanswered⟩ := h.assured hs (fun _ => id) id
    (write_same hshared hkeyref hquiet (accept_stored hs hcell) (store_of_seen hquiet))
  refine ⟨?_, h.unaltered rfl hanswered⟩
  rcases h.answered rfl hanswered with hresponses | ⟨hdead, -⟩
  · exact hresponses
  · exact absurd hwriting hdead

theorem readNextMessage_write_back (hs : s.Sound) (keyref : UInt16) :
    readNextMessage (MessageRef.request
      (.write keyref (cell.wire (s.store cell)).valueRef)).frame =
        some (.request (.write keyref (cell.wire (s.store cell)).valueRef)) := by
  have hsound := hs.store cell
  have hlegal : Opcode.write.Legal .clientToNode := by decide
  refine (readNextMessage_eq_some_iff _ _).mpr ⟨⟨hlegal, hsound.onWire, ?_⟩, rfl⟩
  · have hlength := hsound.fits
    simp only [MessageRef.payload, RequestRef.payload, List.length_append, length_be16]
    omega

end

/-- The laws of a key that is readable and writable, in every state that can be reached. -/
theorem readWrite_laws {seed : UInt64} {s : Node} (hreach : Reachable Node.step (Node.initial seed) s)
    {keyref : UInt16} {spec : KeySpec} (hspec : keySpec keyref = some spec)
    (hreadable : spec.flags.isReadable) (hwritable : spec.flags.isWritable) :
    (∀ c value ls s₁ written, Handles c (.write keyref value) s ls s₁ →
      s.responses s₁ c = [encodeWritten written] → written.valueRef = value ∧
        ∀ ks s₂ d ls' s₃, Between s₁ ks s₂ → Handles d (.get keyref) s₂ ls' s₃ → s₃.writing d →
          s₂.responses s₃ d = [encodeValue written]) ∧
    (∀ c value ls s₁ code, Handles c (.write keyref value) s ls s₁ →
      s.responses s₁ c = [encodeError code] → s.Unaltered ls s₁) ∧
    (keyref ≠ keySmallStr0 → ∀ d ls s₁ value ks s₂, Handles d (.get keyref) s ls s₁ →
      s.responses s₁ d = [encodeValue value] → Between s₁ ks s₂ →
        readNextMessage (MessageRef.request (.write keyref value.valueRef)).frame =
            some (.request (.write keyref value.valueRef)) ∧
          ∀ c ls' s₃, Handles c (.write keyref value.valueRef) s₂ ls' s₃ → s₃.writing c →
            s₂.responses s₃ c = [encodeWritten value] ∧ s₂.Unaltered ls' s₃) := by
  obtain ⟨cell, hshared, hkeyref⟩ := exists_shared hspec hreadable hwritable
  have hs := nodeSound_of_reachable hreach
  refine ⟨fun c value ls s₁ written hwrite hwritten => ?_,
    fun c value ls s₁ code hwrite herror => ?_,
    fun hcell d ls s₁ value ks s₂ hread hvalue hbetween => ?_⟩
  · rcases hwrite.write hs hshared hkeyref with
      ⟨code, hrefused, -⟩ | ⟨stored, haccept, hstore, hresponses⟩
    · rw [hwritten] at hrefused
      rcases hrefused with hother | hother <;> cases hother
    rw [hwritten] at hresponses
    rcases hresponses with hsame | hother
    · obtain rfl := encodeWritten_injective (List.singleton_inj.mp hsame)
      refine ⟨wire_of_expect (expect_of_accept haccept).1, ?_⟩
      intro ks s₂ d ls' s₃ hbetween hread hwriting
      have hs₁ := hwrite.sound hs
      have hstored := hbetween.store hs₁ hshared
      rcases (hread.read (hbetween.sound hs₁) hshared hkeyref).2 with hresponses | ⟨hdead, -⟩
      · rw [hresponses, hstored, hstore]
      · exact absurd hwriting hdead
    · cases hother
  · rcases hwrite.write hs hshared hkeyref with ⟨_, -, hunaltered⟩ | ⟨stored, -, -, hresponses⟩
    · exact hunaltered
    · rw [herror] at hresponses
      rcases hresponses with hother | hother <;> cases hother
  · obtain ⟨hsame, hresponses⟩ := hread.read hs hshared hkeyref
    rw [hvalue] at hresponses
    have hs₁ := hread.sound hs
    have hs₂ := hbetween.sound hs₁
    have hstored : s₂.store cell = s.store cell := (hbetween.store hs₁ hshared).trans hsame
    rcases hresponses with hown | ⟨-, hnone⟩
    · obtain rfl := encodeValue_injective (List.singleton_inj.mp hown)
      have hother : cell ≠ .smallStr0 := by
        rintro rfl
        exact hcell (Option.some.inj hkeyref).symm
      rw [← hstored]
      refine ⟨readNextMessage_write_back hs₂ keyref, fun c ls' s₃ hwrite hwriting => ?_⟩
      exact hwrite.write_back hs₂ hshared hkeyref hother hwriting
    · cases hnone

def Node.handle (s : Node) (c : ℕ) (request : RequestRef) (n : ℕ) : Option Node :=
  (s.step (.request c request)).bind fun s₁ =>
    runLabels (fun u l => if (u.task (.connection c)).isSome then Node.step u l else none) s₁
      (List.replicate n (.act (.connection c)))

theorem handles_of_handle {s s' : Node} {c n : ℕ} {request : RequestRef}
    (h : s.handle c request n = some s')
    (hread : readNextMessage (MessageRef.request request).frame = some (.request request))
    (hthrough : (s'.task (.connection c)).isNone) :
    Handles c request s (List.replicate n (.act (.connection c))) s' := by
  obtain ⟨s₁, hstep, hrun⟩ := Option.bind_eq_some_iff.mp h
  refine ⟨⟨_, s₁, hread, hstep, (Path.of_guarded hrun).with_mem.mono fun u l hl => ?_⟩,
    Option.isNone_iff_eq_none.mp hthrough⟩
  obtain ⟨hsome, hmem⟩ := hl
  rw [(List.mem_replicate.mp hmem).2]
  exact ⟨Option.isSome_iff_ne_none.mp hsome, rfl⟩

theorem readWrite_laws_gp2U64 : ∃ (s s₁ s₂ : Node) (ls ls' : List Label),
    Reachable Node.step (Node.initial 0) s ∧ Handles 0 (.write keyGp2U64 (.i64 5)) s ls s₁ ∧
      s.responses s₁ 0 = [encodeWritten (.i64 5)] ∧ Handles 0 (.get keyGp2U64) s₁ ls' s₂ ∧
        s₁.responses s₂ 0 = [encodeValue (.i64 5)] := by
  have hrun : ((runLabels Node.step (Node.initial 0) [.accept, .register 0]).bind fun s =>
      (s.handle 0 (.write keyGp2U64 (.i64 5)) 5).bind fun s₁ =>
        (s₁.handle 0 (.get keyGp2U64) 3).map fun s₂ =>
          decide (s.responses s₁ 0 = [encodeWritten (.i64 5)] ∧ s₂.writing 0 ∧
            (s₁.task (.connection 0)).isNone ∧ (s₂.task (.connection 0)).isNone)) = some true := by
    decide +kernel
  obtain ⟨s, hs, hrun⟩ := Option.bind_eq_some_iff.mp hrun
  obtain ⟨s₁, hwrite, hrun⟩ := Option.bind_eq_some_iff.mp hrun
  obtain ⟨s₂, hget, hfacts⟩ := Option.map_eq_some_iff.mp hrun
  obtain ⟨hwritten, hwriting, hthrough, hthrough'⟩ := of_decide_eq_true hfacts
  have hreach := Reachable.of_runLabels hs
  have hwrites := handles_of_handle hwrite (by decide +kernel) hthrough
  have hgets := handles_of_handle hget (by decide +kernel) hthrough'
  obtain ⟨hlaw, -, -⟩ := @readWrite_laws 0 s hreach keyGp2U64 _ rfl rfl rfl
  have hanswer := (hlaw 0 _ _ s₁ (.i64 5) hwrites hwritten).2 [] s₁ 0 _ s₂ (.nil s₁) hgets hwriting
  exact ⟨s, s₁, s₂, _, _, hreach, hwrites, hwritten, hgets, hanswer⟩

/-- `small_str0` is read as the empty string, and refuses it. -/
theorem small_str0_refuses : ¬ ∀ (seed : UInt64) (s : Node) (keyref : UInt16) (spec : KeySpec),
    Reachable Node.step (Node.initial seed) s → keySpec keyref = some spec →
      spec.flags.isReadable → spec.flags.isWritable → ∀ d ls s₁ value ks s₂,
        Handles d (.get keyref) s ls s₁ → s.responses s₁ d = [encodeValue value] →
          Between s₁ ks s₂ → ∀ c ls' s₃, Handles c (.write keyref value.valueRef) s₂ ls' s₃ →
            s₃.writing c → s₂.responses s₃ c = [encodeWritten value] := by
  intro hall
  have hrun : ((runLabels Node.step (Node.initial 0) [.accept, .register 0]).bind fun s =>
      (s.handle 0 (.get keySmallStr0) 3).bind fun s₁ =>
        (s₁.handle 0 (.write keySmallStr0 (.str Str.empty)) 2).map fun s₂ =>
          decide (s.responses s₁ 0 = [encodeValue (.str Str.empty)] ∧ s₂.writing 0 ∧
            s₁.responses s₂ 0 = [encodeError errTypeMismatch] ∧
              (s₁.task (.connection 0)).isNone ∧ (s₂.task (.connection 0)).isNone)) =
                some true := by decide +kernel
  obtain ⟨s, hs, hrun⟩ := Option.bind_eq_some_iff.mp hrun
  obtain ⟨s₁, hget, hrun⟩ := Option.bind_eq_some_iff.mp hrun
  obtain ⟨s₂, hwrite, hfacts⟩ := Option.map_eq_some_iff.mp hrun
  obtain ⟨hvalue, hwriting, herror, hthrough, hthrough'⟩ := of_decide_eq_true hfacts
  have hreach := Reachable.of_runLabels hs
  have hgets := handles_of_handle hget (by decide +kernel) hthrough
  have hwrites := handles_of_handle hwrite (by decide +kernel) hthrough'
  have hlaw := hall 0 s keySmallStr0 _ hreach rfl rfl rfl 0 _ s₁ (.str Str.empty) [] s₁ hgets hvalue
    (.nil s₁) 0 _ s₂ hwrites hwriting
  rw [herror] at hlaw
  cases hlaw

end Qup.TestNode
