import Qup.Embassy.SessionStep

/-!
# Every run keeps the session invariant

The operations of the handlers and of the flush, and from them the run lemma:
along every run of a server as `run!` builds it, every event is allowed.
-/

namespace Qup.Embassy
open Foundation Foundation.Utf8

variable {N : ℕ} {server : Server N} {nodeId : Str} {busy : Option (Fin N)} {l : Locals N}
  {generation : Fin N → UInt32} {log : List (Event server.keys)} {request : IncomingRequest}
  {f : Frame} {i : Fin N}

theorem Frame.IsResponse.ne_changed (h : f.IsResponse) (r : UInt16) : f ≠ changedFrame r := by
  rintro rfl
  exact not_isResponse_changedFrame r h

theorem Responding.allowed (h : Responding server nodeId request f l generation log)
    (hlen : f.payload.length ≤ 65535) : Allowed server nodeId (.sent f) log := by
  simp only [Allowed, if_pos h.response]
  exact ⟨request, h.pending_some, h.decided, fun hf => (h.quiet_of hf).1, hlen⟩

theorem Responding.sent (h : Responding server nodeId request f l generation log) :
    Ready server nodeId none l generation (.sent f :: log) where
  nodeId_wire := h.nodeId_wire
  recorded_eq := h.recorded_eq
  observable_of := h.observable_of
  known_of := h.known_of
  generation_eq := h.generation_eq
  observed_of j hj := by
    rw [unannounced, if_neg (h.response.ne_changed _)] at hj
    exact h.observed_of j hj
  sinceRead_pos j hj hlt := by
    rw [unannounced, if_neg (h.response.ne_changed _)] at hj
    exact h.sinceRead_pos j hj hlt
  count_le j := by
    rw [changedCount, if_neg (h.response.ne_changed _)]
    exact h.count_le j
  pending_none := by rw [pendingRequest, if_pos h.response]
  subscribed_eq j := by
    rw [exchanges, if_pos h.response, h.pending_some]
    exact h.subscribed_eq j
  owes_none := by
    rw [owesWritten]
    split_ifs with hf
    · rfl
    · exact (h.quiet_of hf).2

theorem Serving.readValue (h : Serving server nodeId request l generation log)
    (v : (server.keys i).type.Value) :
    Serving server nodeId request l generation (.readValue i v :: log) :=
  ⟨⟨h.nodeId_wire, h.recorded_eq, h.observable_of, h.known_of, h.generation_eq, h.observed_of,
    h.sinceRead_pos, h.count_le⟩, h.pending_some, h.subscribed_eq⟩

theorem Serving.stored (h : Serving server nodeId request l generation log)
    (v : (server.keys i).type.Value) :
    Serving server nodeId request l generation (.stored .server i v :: log) :=
  ⟨h.toSynced.stored .server i v, h.pending_some, h.subscribed_eq⟩

theorem Serving.updated (h : Serving server nodeId request l generation log) (i : Fin N) :
    Serving server nodeId request l (Function.update generation i (generation i + 1))
      (.updated .server i :: log) :=
  ⟨h.toSynced.updated .server i, h.pending_some, h.subscribed_eq⟩

theorem Quiet.readValue (h : Quiet log) (v : (server.keys i).type.Value) :
    Quiet (.readValue i v :: log) := by
  intro j
  simpa only [sinceServed, List.mem_cons, reduceCtorEq, false_or] using h j

theorem Quiet.readGeneration (h : Quiet log) (g : UInt32) :
    Quiet (.readGeneration i g :: log) := by
  intro j
  simpa only [sinceServed, List.mem_cons, reduceCtorEq, false_or] using h j

theorem sendValue_ok (h : Serving server nodeId request l generation log) (hquiet : Quiet log)
    (howes : owesWritten log = false) (hk : (server.keys i).readable = true) {r : UInt16}
    (hr : request = .get r) (hreach : Reaches server r i) (v : (server.keys i).type.Value) :
    HandlingOk server nodeId request (Phase.sendValue v l) generation (.readValue i v :: log) := by
  unfold Phase.sendValue
  rcases henc : QupValue.encode v server.maxResponse with (e | _) | payload
  · trivial
  · trivial
  · obtain ⟨rfl, hwire⟩ := LawfulQupValue.encode_ok henc
    subst hr
    refine sendFrame_ok ((h.readValue v).respond (hquiet.readValue v) howes
      (isResponse_of (by decide)) ?_ (by simp))
    simp only [Decides, if_neg hreach.1, hreach.2, if_pos hk]
    exact ⟨v, List.mem_cons_self, rfl, hwire⟩

theorem sendWritten_ok (h : Serving server nodeId request l generation log)
    {v : (server.keys i).type.Value} (hstored : .stored .server i v ∈ sinceServed log)
    (hk : (server.keys i).writable = true) (hval : QupValue.validate v = .ok ()) {r : UInt16}
    (hr : request = .write r (.ofValue (wireOf v))) (hreach : Reaches server r i) :
    HandlingOk server nodeId request (Phase.sendWritten v l) generation log := by
  unfold Phase.sendWritten
  rcases henc : QupValue.encode v server.maxResponse with (e | _) | payload
  · exact absurd henc (LawfulQupValue.encode_ne_invalid hval)
  · trivial
  · obtain ⟨rfl, hwire⟩ := LawfulQupValue.encode_ok henc
    subst hr
    refine sendFrame_ok ⟨h.toSynced, h.pending_some, isResponse_of (by decide), ?_,
      fun hne => absurd rfl hne, fun j => ?_⟩
    · simp only [Decides, if_neg hreach.1, hreach.2, if_pos hk]
      exact Or.inl ⟨v, hstored, rfl, rfl, hwire⟩
    · rw [subscribed_cons_of (by simp), h.subscribed_eq]

theorem Synced.count_le_readGeneration {g : UInt32} (h : Synced server nodeId none l generation log)
    (j : Fin N) : changedCount (server.keys j).keyref (.readGeneration i g :: log) +
      sinceRead j (.readGeneration i g :: log) + (if (none : Option (Fin N)) = some j then 1 else 0) ≤
        updateCount j (.readGeneration i g :: log) := by
  have hc := h.count_le j
  change changedCount _ log + sinceRead j (.readGeneration i _ :: log) + _ ≤ updateCount j log
  rw [sinceRead]
  split_ifs at hc ⊢ <;> omega

theorem recorded_readGeneration {g : UInt32} {j : Fin N} (h : pendingRequest log = none) :
    recorded j (.readGeneration i g :: log) = recorded j log := by
  rw [recorded, h]
  simp only [ite_self]

theorem unannounced_readGeneration {g : UInt32} {j : Fin N} (h : pendingRequest log = none) :
    unannounced j (.readGeneration i g :: log) = unannounced j log := by
  rw [unannounced, if_neg fun hread => ?_]
  rw [h] at hread
  cases hread.2

/-- `OBSERVE` and `UNOBSERVE` set the key's two entries together. -/
theorem Serving.record (hdistinct : Function.Injective fun i => (server.keys i).keyref)
    (h : Serving server nodeId request l generation log) (hquiet : Quiet log)
    (howes : owesWritten log = false) {on : Bool}
    (hk : on = true → (server.keys i).observable = true) {r : UInt16}
    (hr : request = (if on then .observe r else .unobserve r)) (hreach : Reaches server r i) :
    Responding server nodeId request okFrame
      ((l.setObserved i on).setSeen i (generation i)) generation
      (.readGeneration i (generation i) :: log) := by
  have hkey := Server.findSlot_keyref hreach.2
  have hobs : ∀ j, ((l.setObserved i on).setSeen i (generation i)).observed j =
      if i = j then on else l.observed j := by
    intro j
    by_cases hij : i = j
    · subst hij
      simp [Locals.setSeen, Locals.setObserved]
    · simp [Locals.setSeen, Locals.setObserved, hij, Function.update_of_ne (Ne.symm hij)]
  have hpend : (pendingRequest log).isSome = true := by rw [h.pending_some]; rfl
  exact {
    nodeId_wire := h.nodeId_wire
    recorded_eq := by
      intro j
      rw [hobs, recorded, h.pending_some, hr]
      by_cases hij : i = j
      · rw [if_pos hij, if_pos hij]
        cases on <;> rfl
      · rw [if_neg hij, if_neg hij]
        exact h.recorded_eq j
    observable_of := by
      intro j hj
      rw [hobs] at hj
      split_ifs at hj with hij
      · subst hij
        exact hk hj
      · exact h.observable_of j hj
    known_of := by
      intro j hj
      rw [hobs] at hj
      split_ifs at hj with hij
      · subst hij
        rw [hkey]
        exact hreach.1
      · exact h.known_of j hj
    generation_eq := by
      intro j hj
      rw [hobs] at hj
      rw [sinceRead]
      split_ifs at hj ⊢ with hij
      · subst hij
        simp [Locals.setSeen]
      · have hg := h.generation_eq j hj
        simpa [Locals.setSeen, Locals.setObserved, Function.update_of_ne (Ne.symm hij)] using hg
    observed_of := by
      intro j hj
      rw [unannounced] at hj
      rw [hobs]
      by_cases hij : i = j
      · rw [if_pos ⟨hij, hpend⟩] at hj
        cases hj
      · rw [if_neg (fun h => hij h.1)] at hj
        rw [if_neg hij]
        exact h.observed_of j hj
    sinceRead_pos := by
      intro j hj hlt
      rw [unannounced] at hj
      rw [sinceRead]
      by_cases hij : i = j
      · rw [if_pos ⟨hij, hpend⟩] at hj
        cases hj
      · rw [if_neg (fun h => hij h.1)] at hj
        rw [if_neg hij]
        exact h.sinceRead_pos j hj hlt
    count_le := h.count_le_readGeneration
    pending_some := h.pending_some
    response := isResponse_of (by decide)
    decided := by
      subst hr
      cases on with
      | true => simp only [if_true, Decides, if_neg hreach.1, hreach.2, if_pos (hk rfl)]
      | false => simp only [Bool.false_eq_true, if_false, Decides, if_neg hreach.1]
    quiet_of := fun _ => ⟨hquiet.readGeneration _, howes⟩
    subscribed_eq := by
      intro j
      have hex : exchanges (.readGeneration i (generation i) :: log) = exchanges log := rfl
      rw [hobs, hex, h.subscribed_eq, hr]
      by_cases hij : i = j
      · subst hij
        rw [if_pos rfl]
        cases on <;> simp [subscribed, hkey, okFrame]
      · have hne : r ≠ (server.keys j).keyref := by
          rw [← hkey]
          exact fun he => hij (hdistinct he)
        rw [if_neg hij]
        cases on <;> simp [subscribed, hne] }

theorem HandlingOk.act (hdistinct : server.Distinct) {p : Phase server} {m : Memory server.keys}
    (h : HandlingOk server nodeId request p m.generation log) {o : Op server.keys}
    {k : o.Res → Phase server} (hview : p.view = .act o k) (accepted : Bool)
    (hlog : Justified (Allowed server nodeId) log) :
    Justified (Allowed server nodeId) (o.observe .server (o.exec accepted m).1 ++ log) ∧
      HandlingOk server nodeId request (k (o.exec accepted m).1) (o.exec accepted m).2.generation
        (o.observe .server (o.exec accepted m).1 ++ log) := by
  cases p with
  | done l => cases hview
  | exit e => cases hview
  | attach i rest => exact h.elim
  | poll i rest l => exact h.elim
  | notify f piece pieces rest l => exact h.elim
  | respond f piece pieces l =>
    cases hview
    cases accepted with
    | false => cases pieces <;> exact ⟨hlog, trivial⟩
    | true =>
      cases pieces with
      | nil => exact ⟨⟨h.1.allowed h.2, hlog⟩, h.1.sent⟩
      | cons next rest => exact ⟨hlog, h⟩
  | readValue i l =>
    cases hview
    obtain ⟨hs, hquiet, howes, hunread, hk, r, hr, hreach⟩ := h
    refine ⟨⟨⟨hunread, r, hs.pending_some.trans (congrArg some hr), hreach.2⟩, hlog⟩, ?_⟩
    exact sendValue_ok hs hquiet howes hk hr hreach _
  | store i v l =>
    cases hview
    obtain ⟨hs, hk, hval, r, hr, hreach⟩ := h
    refine ⟨⟨⟨r, ?_, hreach.2⟩, hlog⟩, hs.stored v, List.mem_cons_self, hk, hval, r, hr, hreach⟩
    exact hs.pending_some.trans (congrArg some hr)
  | announce a i v l =>
    obtain ⟨hs, hstored, hk, hval, r, hr, hreach⟩ := h
    have hwritten := sendWritten_ok hs hstored hk hval hr hreach
    have hrest : ∀ b, HandlingOk server nodeId request (.announce b i v l) m.generation log :=
      fun b => ⟨hs, hstored, hk, hval, r, hr, hreach⟩
    cases a with
    | bump =>
      cases hview
      refine ⟨⟨⟨r, _, hs.pending_some.trans (congrArg some hr), hreach.2⟩, hlog⟩, hs.updated i,
        List.mem_cons_of_mem _ hstored, hk, hval, r, hr, hreach⟩
    | touch =>
      cases hview
      refine ⟨hlog, ?_⟩
      simp only [Announce.next]
      cases (server.keys i).observable
      · exact hwritten
      · exact hrest .lookup
    | lookup =>
      cases hview
      refine ⟨hlog, ?_⟩
      simp only [Announce.next, Announce.op, Op.exec]
      cases m.notifier i
      · exact hwritten
      · exact hrest (.ring _)
    | ring s =>
      cases hview
      exact ⟨hlog, hwritten⟩
  | record i on l =>
    cases hview
    obtain ⟨hs, hquiet, howes, hk, r, hr, hreach⟩ := h
    have hallowed : Allowed server nodeId (.readGeneration i (m.generation i)) log := by
      intro q hq
      rw [hs.pending_some] at hq
      obtain rfl := Option.some.inj hq
      refine ⟨by rw [← hs.recorded_eq, hs.subscribed_eq], r, ?_⟩
      cases on
      · exact Or.inr hr
      · exact Or.inl hr
    exact ⟨⟨hallowed, hlog⟩,
      sendFrame_ok (hs.record hdistinct hquiet howes hk hr hreach)⟩

theorem flushPhase_ok {js : List (Fin N)} (h : Ready server nodeId none l generation log)
    (hrem : Remaining server js log) :
    FlushingOk server nodeId (Phase.flushPhase js l) generation log := by
  induction js with
  | nil => exact ⟨h, hrem⟩
  | cons i rest ih =>
    rw [Phase.flushPhase]
    split_ifs with hobs
    · rw [Bool.and_eq_true] at hobs
      exact ⟨h, hobs.1, hrem⟩
    · refine ih fun ho j hlt hj => ?_
      obtain ⟨hmem, hu⟩ := hrem ho j hlt hj
      rcases List.mem_cons.mp hmem with rfl | hmem
      · have hj' := h.observed_of j hu
        exact absurd (by rw [hj', h.observable_of j hj']; rfl) hobs
      · exact ⟨hmem, hu⟩

theorem notifyWith_ok {rest : List (Fin N)} {pieces : List (List UInt8)} (hp : pieces ≠ [])
    (h : ∀ piece pieces', FlushingOk server nodeId (.notify f piece pieces' rest l) generation log) :
    FlushingOk server nodeId (Phase.notifyWith f rest l pieces) generation log := by
  cases pieces with
  | nil => exact absurd rfl hp
  | cons piece pieces => exact h piece pieces

theorem flush_ok (h : Ready server nodeId none l generation log) :
    FlushingOk server nodeId (Phase.flush l) generation (.flushBegin :: log) := by
  have hbegin : Ready server nodeId none l generation (.flushBegin :: log) :=
    ⟨⟨h.nodeId_wire, h.recorded_eq, h.observable_of, h.known_of, h.generation_eq, h.observed_of,
      h.sinceRead_pos, h.count_le⟩, h.pending_none, h.subscribed_eq, h.owes_none⟩
  unfold Phase.flush
  split_ifs with ho
  · refine ⟨hbegin, fun ho' => ?_⟩
    rw [ho'] at ho
    cases ho
  · exact flushPhase_ok hbegin fun _ j _ hj => ⟨List.mem_finRange j, hj⟩

theorem Ready.unmoved (h : Ready server nodeId none l generation log)
    (hobs : l.observed i = true) (heq : generation i = l.seenGeneration i) :
    Ready server nodeId none l generation (.readGeneration i (generation i) :: log) ∧
      (updateCount i log < 2 ^ 32 → unannounced i log = false) := by
  have hun : ∀ j, unannounced j (.readGeneration i (generation i) :: log) = unannounced j log :=
    fun j => unannounced_readGeneration h.pending_none
  have hquiet : updateCount i log < 2 ^ 32 → unannounced i log = false := by
    intro hlt
    by_contra hu
    rw [Bool.not_eq_false] at hu
    rcases h.sinceRead_pos i hu hlt with hpos | hbusy
    · have hg := h.generation_eq i hobs
      have hc := h.count_le i
      have hne := ofNat32_ne_zero hpos (by omega)
      rw [heq] at hg
      exact hne (by grind)
    · cases hbusy
  refine ⟨?_, hquiet⟩
  exact {
    nodeId_wire := h.nodeId_wire
    recorded_eq := by
      intro j
      rw [recorded_readGeneration h.pending_none]
      exact h.recorded_eq j
    observable_of := h.observable_of
    known_of := h.known_of
    generation_eq := by
      intro j hj
      rw [sinceRead]
      split_ifs with hij
      · subst hij
        simpa using heq
      · exact h.generation_eq j hj
    observed_of := by
      intro j hj
      rw [hun] at hj
      exact h.observed_of j hj
    sinceRead_pos := by
      intro j hj hlt
      rw [hun] at hj
      rw [sinceRead]
      by_cases hij : i = j
      · subst hij
        rw [hquiet hlt] at hj
        cases hj
      · rw [if_neg hij]
        exact h.sinceRead_pos j hj hlt
    count_le := h.count_le_readGeneration
    pending_none := h.pending_none
    subscribed_eq := h.subscribed_eq
    owes_none := h.owes_none }

theorem Ready.moved (h : Ready server nodeId none l generation log)
    (hobs : l.observed i = true) (hne : generation i ≠ l.seenGeneration i) :
    Ready server nodeId (some i) (l.setSeen i (generation i)) generation
        (.readGeneration i (generation i) :: log) ∧ 0 < sinceRead i log := by
  have hun : ∀ j, unannounced j (.readGeneration i (generation i) :: log) = unannounced j log :=
    fun j => unannounced_readGeneration h.pending_none
  have hpos : 0 < sinceRead i log := by
    rcases Nat.eq_zero_or_pos (sinceRead i log) with h0 | hpos
    · have hg := h.generation_eq i hobs
      rw [h0] at hg
      exact absurd (by simpa using hg) hne
    · exact hpos
  refine ⟨?_, hpos⟩
  exact {
    nodeId_wire := h.nodeId_wire
    recorded_eq := by
      intro j
      rw [recorded_readGeneration h.pending_none]
      exact h.recorded_eq j
    observable_of := h.observable_of
    known_of := h.known_of
    generation_eq := by
      intro j hj
      rw [sinceRead]
      split_ifs with hij
      · subst hij
        simp [Locals.setSeen]
      · have hg := h.generation_eq j hj
        simpa [Locals.setSeen, Function.update_of_ne (Ne.symm hij)] using hg
    observed_of := by
      intro j hj
      rw [hun] at hj
      exact h.observed_of j hj
    sinceRead_pos := by
      intro j hj hlt
      rw [hun] at hj
      rw [sinceRead]
      split_ifs with hij
      · exact Or.inr (congrArg some hij)
      · rcases h.sinceRead_pos j hj hlt with hp | hbusy
        · exact Or.inl hp
        · cases hbusy
    count_le := by
      intro j
      have hc := h.count_le j
      change changedCount _ log + sinceRead j (.readGeneration i _ :: log) + _ ≤ updateCount j log
      rw [sinceRead]
      by_cases hij : i = j
      · subst hij
        rw [if_pos rfl, if_pos rfl]
        simp only [reduceCtorEq, if_false] at hc
        omega
      · rw [if_neg hij, if_neg (fun h => hij (Option.some.inj h))]
        simpa using hc
    pending_none := h.pending_none
    subscribed_eq := h.subscribed_eq
    owes_none := h.owes_none }

theorem Ready.announced (hdistinct : Function.Injective fun i => (server.keys i).keyref)
    (h : Ready server nodeId (some i) l generation log) :
    Ready server nodeId none l generation
      (.sent (changedFrame (server.keys i).keyref) :: log) := by
  have hframe : ∀ j, changedFrame (server.keys i).keyref = changedFrame (server.keys j).keyref ↔
      i = j := fun j => ⟨fun h => hdistinct (changedFrame_injective h), fun h => by rw [h]⟩
  have hnot := not_isResponse_changedFrame (server.keys i).keyref
  exact {
    nodeId_wire := h.nodeId_wire
    recorded_eq := h.recorded_eq
    observable_of := h.observable_of
    known_of := h.known_of
    generation_eq := h.generation_eq
    observed_of := by
      intro j hj
      rw [unannounced] at hj
      split_ifs at hj
      exact h.observed_of j hj
    sinceRead_pos := by
      intro j hj hlt
      rw [unannounced] at hj
      split_ifs at hj with hij
      rcases h.sinceRead_pos j hj hlt with hp | hbusy
      · exact Or.inl hp
      · exact absurd ((hframe j).mpr (Option.some.inj hbusy)) hij
    count_le := by
      intro j
      have hc := h.count_le j
      change changedCount _ (.sent _ :: log) + sinceRead j log + _ ≤ updateCount j log
      rw [changedCount]
      by_cases hij : i = j
      · rw [if_pos ((hframe j).mpr hij)]
        rw [if_pos (congrArg some hij)] at hc
        simp only [reduceCtorEq, if_false]
        omega
      · rw [if_neg (fun h => hij ((hframe j).mp h))]
        simp only [reduceCtorEq, if_false]
        omega
    pending_none := by rw [pendingRequest, if_neg hnot, h.pending_none]
    subscribed_eq := by
      intro j
      rw [exchanges, if_neg hnot, h.subscribed_eq]
    owes_none := by
      rw [owesWritten, if_neg (by simp only [changedFrame]; decide), h.owes_none] }

theorem FlushingOk.act (hdistinct : server.Distinct) {p : Phase server} {m : Memory server.keys}
    (h : FlushingOk server nodeId p m.generation log) {o : Op server.keys}
    {k : o.Res → Phase server} (hview : p.view = .act o k) (accepted : Bool)
    (hlog : Justified (Allowed server nodeId) log) :
    Justified (Allowed server nodeId) (o.observe .server (o.exec accepted m).1 ++ log) ∧
      FlushingOk server nodeId (k (o.exec accepted m).1) (o.exec accepted m).2.generation
        (o.observe .server (o.exec accepted m).1 ++ log) := by
  cases p with
  | done l => cases hview
  | exit e => cases hview
  | attach i rest => exact h.elim
  | respond f piece pieces l => exact h.elim
  | readValue i l => exact h.elim
  | store i v l => exact h.elim
  | announce a i v l => exact h.elim
  | record i on l => exact h.elim
  | poll i rest l =>
    cases hview
    obtain ⟨hready, hobs, hrem⟩ := h
    have hallowed : Allowed server nodeId (.readGeneration i (m.generation i)) log := by
      intro q hq
      rw [hready.pending_none] at hq
      cases hq
    refine ⟨⟨hallowed, hlog⟩, ?_⟩
    have hno : ¬ (pendingRequest log).isSome = true := by rw [hready.pending_none]; simp
    have hun : ∀ j, unannounced j (.readGeneration i (m.generation i) :: log) =
        unannounced j log := by
      intro j
      rw [unannounced, if_neg fun h => hno h.2]
    change FlushingOk server nodeId (if m.generation i = l.seenGeneration i
      then Phase.flushPhase rest l else Phase.sendChanged i rest (l.setSeen i (m.generation i)))
      m.generation (.readGeneration i (m.generation i) :: log)
    split_ifs with hg
    · obtain ⟨hready', hquiet⟩ := hready.unmoved hobs hg
      refine flushPhase_ok hready' fun ho j hlt hj => ?_
      obtain ⟨hmem, hu⟩ := hrem ho j hlt hj
      rcases List.mem_cons.mp hmem with rfl | hmem
      · rw [hquiet hlt] at hu
        cases hu
      · exact ⟨hmem, (hun j).trans hu⟩
    · obtain ⟨hready', hpos⟩ := hready.moved hobs hg
      unfold Phase.sendChanged
      split_ifs
      · refine notifyWith_ok (by simp [Phase.framePieces]) fun _ _ => ⟨i, rfl, hready', hobs, ?_,
          [], m.generation i, log, rfl, by simp, by simp, hready.pending_none, hpos⟩
        intro ho j hlt hj
        obtain ⟨hmem, hu⟩ := hrem ho j hlt hj
        exact ⟨hmem, (hun j).trans hu⟩
      · trivial
  | notify f piece pieces rest l =>
    cases hview
    cases accepted with
    | false => cases pieces <;> exact ⟨hlog, trivial⟩
    | true =>
      cases pieces with
      | cons next rest => exact ⟨hlog, h⟩
      | nil =>
        obtain ⟨i, rfl, hready, hobs, hrem, hfresh⟩ := h
        refine ⟨⟨?_, hlog⟩, ?_⟩
        · have hc := hready.count_le i
          rw [if_pos rfl] at hc
          have hann : Announces server i log :=
            ⟨hready.observable_of i hobs, hready.known_of i hobs,
              by rw [← hready.subscribed_eq, hobs], hready.owes_none, by omega, hfresh⟩
          change Allowed server nodeId (.sent (changedFrame (server.keys i).keyref)) log
          simp only [Allowed, if_neg (not_isResponse_changedFrame _)]
          exact ⟨i, rfl, hann⟩
        · refine flushPhase_ok (hready.announced hdistinct) fun ho j hlt hj => ?_
          change overdue j (.sent _ :: log) = true at hj
          rw [overdue] at hj
          split_ifs at hj with hij
          obtain ⟨hmem, hu⟩ := hrem ho j hlt hj
          rcases List.mem_cons.mp hmem with rfl | hmem
          · exact absurd rfl hij
          · refine ⟨hmem, ?_⟩
            change unannounced j (.sent _ :: log) = true
            rw [unannounced, if_neg hij]
            exact hu

theorem validateWireString_ok {value : Str} (h : Server.validateWireString value = .ok ()) :
    WireStr value := by
  unfold Server.validateWireString at h
  split_ifs at h with h1 h2
  exact ⟨by simpa using h2, by omega⟩

theorem ready_initial (hwire : WireStr nodeId) (generation : Fin N → UInt32) :
    Ready server nodeId none (Locals.initial N) generation [] where
  nodeId_wire := hwire
  recorded_eq _ := rfl
  observable_of _ h := (by cases h)
  known_of _ h := (by cases h)
  generation_eq _ h := (by cases h)
  observed_of _ h := (by cases h)
  sinceRead_pos _ h := (by cases h)
  count_le _ := by simp [changedCount, sinceRead, updateCount]
  pending_none := rfl
  subscribed_eq _ := rfl
  owes_none := rfl

theorem attachPhase_ok (h : Ready server nodeId none (Locals.initial N) generation log)
    (rest : List (Fin N)) :
    StartingOk server nodeId (Phase.attachPhase rest) generation log := by
  induction rest with
  | nil =>
    unfold Phase.attachPhase
    split_ifs
    · exact h
    · trivial
  | cons i rest ih =>
    rw [Phase.attachPhase]
    split_ifs
    · exact h
    · exact ih

theorem start_ok (generation : Fin N → UInt32) :
    StartingOk server nodeId (Phase.start nodeId) generation [] := by
  unfold Phase.start
  cases hv : Server.validateWireString nodeId with
  | error message => trivial
  | ok u => exact attachPhase_ok (ready_initial (validateWireString_ok hv) generation) _

theorem StartingOk.act {p : Phase server} {m : Memory server.keys}
    (h : StartingOk server nodeId p m.generation log) {o : Op server.keys}
    {k : o.Res → Phase server} (hview : p.view = .act o k) (accepted : Bool)
    (hlog : Justified (Allowed server nodeId) log) :
    Justified (Allowed server nodeId) (o.observe .server (o.exec accepted m).1 ++ log) ∧
      StartingOk server nodeId (k (o.exec accepted m).1) (o.exec accepted m).2.generation
        (o.observe .server (o.exec accepted m).1 ++ log) := by
  cases p with
  | attach i rest =>
    cases hview
    exact ⟨hlog, attachPhase_ok h rest⟩
  | done l => cases hview
  | exit e => cases hview
  | respond f piece pieces l => exact h.elim
  | readValue i l => exact h.elim
  | store i v l => exact h.elim
  | announce a i v l => exact h.elim
  | record i on l => exact h.elim
  | poll i rest l => exact h.elim
  | notify f piece pieces rest l => exact h.elim

theorem Ready.flushed (h : Ready server nodeId none l generation log) :
    Ready server nodeId none l generation (.flushEnd :: log) :=
  ⟨⟨h.nodeId_wire, h.recorded_eq, h.observable_of, h.known_of, h.generation_eq, h.observed_of,
    h.sinceRead_pos, h.count_le⟩, h.pending_none, h.subscribed_eq, h.owes_none⟩

theorem Session.move (hdistinct : server.Distinct) {c c' : Config server}
    (h : Session server nodeId c) (hm : Move server nodeId c c') : Session server nodeId c' := by
  obtain ⟨hlog, hpos⟩ := h
  cases hm with
  | quiet => exact ⟨hlog, hpos⟩
  | stop => exact ⟨hlog, trivial⟩
  | serve l request m us w log => exact ⟨⟨Ready.pending_none hpos, hlog⟩, handle_ok hpos request⟩
  | wake l m us w log => exact ⟨⟨trivial, hlog⟩, flush_ok hpos⟩
  | start l m us w log => exact ⟨hlog, hpos⟩
  | flush request l m us w log ho => exact ⟨⟨trivial, hlog⟩, flush_ok hpos⟩
  | answered request l m us w log ho => exact ⟨hlog, hpos⟩
  | flushed l m us w log =>
    obtain ⟨hready, hrem⟩ := hpos
    refine ⟨⟨fun ho j hlt => ?_, hlog⟩, hready.flushed⟩
    by_contra hj
    rw [Bool.not_eq_false] at hj
    exact List.not_mem_nil (hrem ho j hlt hj).1
  | spawn c i v => exact ⟨hlog, hpos⟩
  | update j u o k position m us w log hj hview =>
    exact ⟨UpdatePhase.justified hview m hlog,
      Position.Ok.elsewhere hpos (UpdatePhase.elsewhere hview m log)⟩
  | act activity p o k accepted m us w log hview =>
    cases activity with
    | starting =>
      obtain ⟨hlog', hok⟩ := StartingOk.act hpos hview accepted hlog
      exact ⟨hlog', hok⟩
    | handling request =>
      obtain ⟨hlog', hok⟩ := HandlingOk.act hdistinct hpos hview accepted hlog
      exact ⟨hlog', hok⟩
    | flushing =>
      obtain ⟨hlog', hok⟩ := FlushingOk.act hdistinct hpos hview accepted hlog
      exact ⟨hlog', hok⟩

theorem session_of_path (hdistinct : server.Distinct) {P : PhaseSys server → Label server.keys → Prop}
    {memory : Memory server.keys} {labels : List (Label server.keys)} {s : PhaseSys server}
    (hrun : Path (Sys.step (phases server nodeId)) P (Sys.initial (phases server nodeId) memory)
      labels s) : Session server nodeId (PhaseSys.config s) :=
  PhaseSys.invariant hrun ⟨trivial, start_ok memory.generation⟩ fun _ _ h hm => h.move hdistinct hm

theorem exists_phases {P : Connection server → Label server.keys → Prop}
    {memory : Memory server.keys} {labels : List (Label server.keys)} {s : Connection server}
    (hrun : Path (Sys.step (programs server nodeId)) P
      (Sys.initial (programs server nodeId) memory) labels s) :
    ∃ t : PhaseSys server, Path (Sys.step (phases server nodeId)) (fun _ _ => True)
        (Sys.initial (phases server nodeId) memory) labels t ∧
      t.map Phase.task UpdatePhase.task = s := by
  rw [Sys.initial_map (phasesHom server nodeId)] at hrun
  obtain ⟨t, ht, hs⟩ := hrun.lift (Sys.step_map (phasesHom server nodeId))
  exact ⟨t, ht.mono fun _ _ _ => trivial, hs⟩

/-- Every event of every run is allowed by the events before it. -/
theorem log_justified (hdistinct : server.Distinct) {P : Connection server → Label server.keys → Prop}
    {memory : Memory server.keys} {labels : List (Label server.keys)} {s : Connection server}
    (hrun : Path (Sys.step (programs server nodeId)) P
      (Sys.initial (programs server nodeId) memory) labels s) :
    Justified (Allowed server nodeId) s.log := by
  obtain ⟨t, ht, rfl⟩ := exists_phases hrun
  exact (session_of_path hdistinct ht).justified

end Qup.Embassy
