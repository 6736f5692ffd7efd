import Qup.Embassy.Session
import Qup.Foundation.WrappingCounter

/-!
# The session invariant is kept

First what other tasks do to it, then the server's own phases: how a handler
starts, sends, reads, stores and records, and what a flush does key by key.
-/

namespace Qup.Embassy
open Foundation Foundation.Utf8

variable {N : ℕ}

theorem be16_injective : Function.Injective be16 := by
  intro x y h
  have h' : [hiByte x, loByte x] = [hiByte y, loByte y] := h
  simp only [List.cons.injEq, and_true] at h'
  rw [← ofBe16_be16 x, ← ofBe16_be16 y, h'.1, h'.2]

theorem changedFrame_injective : Function.Injective changedFrame := by
  intro x y h
  exact be16_injective (congrArg Frame.payload h)

theorem isResponse_of {opcode : Opcode} {payload : List UInt8} (h : opcode ≠ .changed) :
    (⟨opcode, payload⟩ : Frame).IsResponse := h

theorem not_isResponse_changedFrame (r : UInt16) : ¬ (changedFrame r).IsResponse :=
  fun h => h rfl

inductive Elsewhere {keys : Fin N → ErasedKey} (generation : Fin N → UInt32)
    (log : List (Event keys)) : (Fin N → UInt32) → List (Event keys) → Prop where
  | silent : Elsewhere generation log generation log
  | stored (i : Fin N) (v : (keys i).type.Value) :
      Elsewhere generation log generation (.stored .update i v :: log)
  | updated (i : Fin N) : Elsewhere generation log
      (Function.update generation i (generation i + 1)) (.updated .update i :: log)

section
variable {server : Server N} {nodeId : Str} {busy : Option (Fin N)} {l : Locals N}
  {generation generation' : Fin N → UInt32} {log log' : List (Event server.keys)}
  {request : IncomingRequest} {f : Frame}

theorem Synced.updated (h : Synced server nodeId busy l generation log) (a : Actor) (i : Fin N) :
    Synced server nodeId busy l (Function.update generation i (generation i + 1))
      (.updated a i :: log) where
  nodeId_wire := h.nodeId_wire
  recorded_eq := h.recorded_eq
  observable_of := h.observable_of
  known_of := h.known_of
  generation_eq j hj := by
    have hg := h.generation_eq j hj
    by_cases hij : i = j
    · subst hij
      rw [Function.update_self, sinceRead, if_pos rfl, ofNat32_succ, hg, UInt32.add_assoc]
    · rw [Function.update_of_ne (Ne.symm hij), sinceRead, if_neg hij]
      exact hg
  observed_of j hj := by
    rw [unannounced] at hj
    split_ifs at hj with hij
    · rw [Bool.or_eq_true] at hj
      rcases hj with hj | hj
      · rw [h.recorded_eq, hj]
      · exact h.observed_of j hj
    · exact h.observed_of j hj
  sinceRead_pos j hj hlt := by
    rw [unannounced] at hj
    rw [updateCount] at hlt
    rw [sinceRead]
    split_ifs at hj hlt ⊢
    · exact Or.inl (Nat.succ_pos _)
    · exact h.sinceRead_pos j hj hlt
  count_le j := by
    have hc := h.count_le j
    change changedCount _ log + sinceRead j (.updated a i :: log) + _ ≤ _
    rw [sinceRead, updateCount]
    by_cases hij : i = j
    · rw [if_pos hij, if_pos hij]
      omega
    · rw [if_neg hij, if_neg hij]
      exact hc

theorem Synced.stored (h : Synced server nodeId busy l generation log) (a : Actor) (i : Fin N)
    (v : (server.keys i).type.Value) :
    Synced server nodeId busy l generation (.stored a i v :: log) :=
  ⟨h.nodeId_wire, h.recorded_eq, h.observable_of, h.known_of, h.generation_eq, h.observed_of,
    h.sinceRead_pos, h.count_le⟩

theorem Synced.elsewhere (h : Synced server nodeId busy l generation log)
    (he : Elsewhere generation log generation' log') :
    Synced server nodeId busy l generation' log' := by
  cases he with
  | silent => exact h
  | stored i v => exact h.stored .update i v
  | updated i => exact h.updated .update i

theorem Elsewhere.pendingRequest (he : Elsewhere generation log generation' log') :
    pendingRequest log' = pendingRequest log := by cases he <;> rfl

theorem Elsewhere.exchanges (he : Elsewhere generation log generation' log') :
    exchanges log' = exchanges log := by cases he <;> rfl

theorem Elsewhere.owesWritten (he : Elsewhere generation log generation' log') :
    owesWritten log' = owesWritten log := by cases he <;> rfl

theorem Elsewhere.mem_sinceServed (he : Elsewhere generation log generation' log')
    {e : Event server.keys} (h : e ∈ sinceServed log) : e ∈ sinceServed log' := by
  cases he with
  | silent => exact h
  | stored i v => exact List.mem_cons_of_mem _ h
  | updated i => exact List.mem_cons_of_mem _ h

theorem Quiet.elsewhere (h : Quiet log) (he : Elsewhere generation log generation' log') :
    Quiet log' := by
  cases he with
  | silent => exact h
  | stored i v =>
    intro j
    simpa only [sinceServed, List.mem_cons, reduceCtorEq, false_or, Event.stored.injEq, false_and]
      using h j
  | updated i =>
    intro j
    simpa only [sinceServed, List.mem_cons, reduceCtorEq, false_or, Event.updated.injEq, false_and]
      using h j

theorem Unread.elsewhere (h : Unread log) (he : Elsewhere generation log generation' log') :
    Unread log' := by
  intro j v
  cases he with
  | silent => exact h j v
  | stored i w => simpa only [sinceServed, List.mem_cons, reduceCtorEq, false_or] using h j v
  | updated i => simpa only [sinceServed, List.mem_cons, reduceCtorEq, false_or] using h j v

theorem Decides.mono (h : Decides server nodeId log request f)
    (hmem : ∀ e ∈ sinceServed log, e ∈ sinceServed log') :
    Decides server nodeId log' request f := by
  cases request with
  | get r =>
    simp only [Decides] at h ⊢
    split_ifs at h ⊢ with hr
    · exact h
    · cases hslot : server.findSlot r with
      | none =>
        rw [hslot] at h
        exact h
      | some i =>
        simp only [hslot] at h ⊢
        split_ifs at h ⊢
        · obtain ⟨v, hv, hf, hw⟩ := h
          exact ⟨v, hmem _ hv, hf, hw⟩
        · exact h
  | write r w =>
    simp only [Decides] at h ⊢
    split_ifs at h ⊢ with hr
    · exact h
    · cases hslot : server.findSlot r with
      | none =>
        rw [hslot] at h
        exact h
      | some i =>
        simp only [hslot] at h ⊢
        split_ifs at h ⊢
        · rcases h with ⟨v, hv, hw, hf⟩ | h
          · exact Or.inl ⟨v, hmem _ hv, hw, hf⟩
          · exact Or.inr h
        · exact h
  | _ => exact h

theorem Ready.elsewhere (h : Ready server nodeId busy l generation log)
    (he : Elsewhere generation log generation' log') :
    Ready server nodeId busy l generation' log' where
  toSynced := h.toSynced.elsewhere he
  pending_none := by rw [he.pendingRequest, h.pending_none]
  subscribed_eq i := by rw [he.exchanges, h.subscribed_eq]
  owes_none := by rw [he.owesWritten, h.owes_none]

theorem Serving.elsewhere (h : Serving server nodeId request l generation log)
    (he : Elsewhere generation log generation' log') :
    Serving server nodeId request l generation' log' where
  toSynced := h.toSynced.elsewhere he
  pending_some := by rw [he.pendingRequest, h.pending_some]
  subscribed_eq i := by rw [he.exchanges, h.subscribed_eq]

theorem Responding.elsewhere (h : Responding server nodeId request f l generation log)
    (he : Elsewhere generation log generation' log') :
    Responding server nodeId request f l generation' log' where
  toSynced := h.toSynced.elsewhere he
  pending_some := by rw [he.pendingRequest, h.pending_some]
  response := h.response
  decided := h.decided.mono fun _ => he.mem_sinceServed
  quiet_of hf := ⟨(h.quiet_of hf).1.elsewhere he, by rw [he.owesWritten, (h.quiet_of hf).2]⟩
  subscribed_eq i := by rw [he.exchanges, h.subscribed_eq]

theorem Remaining.elsewhere {js : List (Fin N)} (h : Remaining server js log)
    (he : Elsewhere generation log generation' log') : Remaining server js log' := by
  cases he with
  | silent => exact h
  | stored i v => exact h
  | updated i =>
    intro ho j hlt hj
    have hle : updateCount j log ≤ updateCount j (.updated .update i :: log) := by
      rw [updateCount]
      split_ifs <;> omega
    obtain ⟨hmem, hu⟩ := h ho j (by omega) hj
    refine ⟨hmem, ?_⟩
    rw [unannounced]
    split_ifs
    · rw [hu, Bool.or_true]
    · exact hu

theorem Fresh.elsewhere {i : Fin N} (h : Fresh server i log)
    (he : Elsewhere generation log generation' log') : Fresh server i log' := by
  obtain ⟨newer, g, older, rfl, hread, hsent, hrest⟩ := h
  cases he with
  | silent => exact ⟨newer, g, older, rfl, hread, hsent, hrest⟩
  | stored j v =>
    exact ⟨.stored .update j v :: newer, g, older, rfl, by simpa using hread, by simpa using hsent,
      hrest⟩
  | updated j =>
    exact ⟨.updated .update j :: newer, g, older, rfl, by simpa using hread, by simpa using hsent,
      hrest⟩

theorem Position.Ok.elsewhere {position : Position server}
    (h : position.Ok server nodeId generation log)
    (he : Elsewhere generation log generation' log') :
    position.Ok server nodeId generation' log' := by
  cases position with
  | idle l => exact Ready.elsewhere h he
  | stopped => trivial
  | running activity p =>
    cases activity with
    | starting =>
      cases p with
      | done l => exact Ready.elsewhere h he
      | attach i rest => exact Ready.elsewhere h he
      | exit e => trivial
      | _ => exact h
    | handling request =>
      cases p with
      | done l => exact Ready.elsewhere h he
      | exit e => trivial
      | respond f piece pieces l => exact ⟨h.1.elsewhere he, h.2⟩
      | readValue i l => exact ⟨h.1.elsewhere he, h.2.1.elsewhere he, he.owesWritten ▸ h.2.2.1,
          h.2.2.2.1.elsewhere he, h.2.2.2.2⟩
      | store i v l => exact ⟨h.1.elsewhere he, h.2⟩
      | announce a i v l => exact ⟨h.1.elsewhere he, he.mem_sinceServed h.2.1, h.2.2⟩
      | record i on l => exact ⟨h.1.elsewhere he, h.2.1.elsewhere he, he.owesWritten ▸ h.2.2.1,
          h.2.2.2⟩
      | _ => exact h
    | flushing =>
      cases p with
      | done l => exact ⟨h.1.elsewhere he, h.2.elsewhere he⟩
      | exit e => trivial
      | poll i rest l => exact ⟨h.1.elsewhere he, h.2.1, h.2.2.elsewhere he⟩
      | notify f piece pieces rest l =>
        obtain ⟨i, hf, hready, hobs, hrem, hfresh⟩ := h
        exact ⟨i, hf, hready.elsewhere he, hobs, hrem.elsewhere he, hfresh.elsewhere he⟩
      | _ => exact h

theorem UpdatePhase.elsewhere {u : UpdatePhase server} {o : Op server.keys}
    {k : o.Res → UpdatePhase server} (h : u.view = .act o k) (m : Memory server.keys)
    (log : List (Event server.keys)) :
    Elsewhere m.generation log (o.exec true m).2.generation
      (o.observe .update (o.exec true m).1 ++ log) := by
  cases u with
  | finished result => cases h
  | store i v =>
    cases h
    exact .stored i v
  | announce a i changed =>
    cases a with
    | bump =>
      cases h
      exact .updated i
    | touch | lookup | ring =>
      cases h
      exact .silent

theorem UpdatePhase.justified {u : UpdatePhase server} {o : Op server.keys}
    {k : o.Res → UpdatePhase server} (h : u.view = .act o k) (m : Memory server.keys)
    (hlog : Justified (Allowed server nodeId) log) :
    Justified (Allowed server nodeId) (o.observe .update (o.exec true m).1 ++ log) := by
  cases u with
  | finished result => cases h
  | store i v =>
    cases h
    exact ⟨trivial, hlog⟩
  | announce a i changed =>
    cases a with
    | bump =>
      cases h
      exact ⟨trivial, hlog⟩
    | touch | lookup | ring =>
      cases h
      exact hlog

theorem Server.findSlot_keyref {r : UInt16} {i : Fin N} (h : server.findSlot r = some i) :
    (server.keys i).keyref = r := by
  have hi := List.find?_some h
  simpa using hi

theorem subscribed_cons_of {keyref : UInt16} {rest : List (IncomingRequest × Frame)}
    (h : ∀ r, request = .observe r ∨ request = .unobserve r → f.opcode ≠ .ok ∨ r ≠ keyref) :
    subscribed keyref ((request, f) :: rest) = subscribed keyref rest := by
  cases request with
  | observe r =>
    rw [subscribed, if_neg]
    rintro ⟨hr, hf⟩
    rcases h r (Or.inl rfl) with h | h
    · exact h hf
    · exact h hr
  | unobserve r =>
    rw [subscribed, if_neg]
    rintro ⟨hr, hf⟩
    rcases h r (Or.inr rfl) with h | h
    · exact h hf
    · exact h hr
  | _ => rfl

theorem Serving.respond (h : Serving server nodeId request l generation log) (hquiet : Quiet log)
    (howes : owesWritten log = false) (hf : f.IsResponse)
    (hd : Decides server nodeId log request f)
    (hsub : ∀ i r, request = .observe r ∨ request = .unobserve r →
      f.opcode ≠ .ok ∨ r ≠ (server.keys i).keyref) :
    Responding server nodeId request f l generation log where
  toSynced := h.toSynced
  pending_some := h.pending_some
  response := hf
  decided := hd
  quiet_of _ := ⟨hquiet, howes⟩
  subscribed_eq i := by rw [subscribed_cons_of (hsub i), h.subscribed_eq]

theorem respondWith_ok (h : Responding server nodeId request f l generation log)
    (hlen : f.payload.length ≤ 65535) {pieces : List (List UInt8)} (hp : pieces ≠ []) :
    HandlingOk server nodeId request (Phase.respondWith f l pieces) generation log := by
  cases pieces with
  | nil => exact absurd rfl hp
  | cons piece pieces => exact ⟨h, hlen⟩

theorem sendFrame_ok (h : Responding server nodeId request f l generation log) :
    HandlingOk server nodeId request (Phase.sendFrame f l) generation log := by
  unfold Phase.sendFrame
  split_ifs with hlen
  · exact respondWith_ok h hlen (by simp [Phase.framePieces])
  · trivial

theorem sendStr16_ok {opcode : Opcode} {value : Str}
    (h : Responding server nodeId request ⟨opcode, str16 value⟩ l generation log) :
    HandlingOk server nodeId request (Phase.sendStr16 opcode value l) generation log := by
  unfold Phase.sendStr16
  split_ifs with hlen
  · exact respondWith_ok h ((length_str16 value).trans_le hlen) (by simp)
  · trivial

theorem sendKey_ok {key : ErasedKey}
    (h : Responding server nodeId request ⟨.key, Phase.keyPayload key⟩ l generation log) :
    HandlingOk server nodeId request (Phase.sendKey key l) generation log := by
  unfold Phase.sendKey
  split_ifs with hlen
  · have hpayload : (Phase.keyPayload key).length = key.name.length + 3 := by
      rw [Phase.keyPayload, List.length_cons, length_str16]
    exact respondWith_ok h (hpayload.trans_le hlen) (by simp)
  · trivial

theorem sendU16_ok {opcode : Opcode} {x : UInt16}
    (h : Responding server nodeId request ⟨opcode, be16 x⟩ l generation log) :
    HandlingOk server nodeId request (Phase.sendU16 opcode x l) generation log := by
  unfold Phase.sendU16
  split_ifs
  · exact sendFrame_ok h
  · trivial

theorem Ready.serve (h : Ready server nodeId none l generation log) (request : IncomingRequest) :
    Serving server nodeId request l generation (.served request :: log) where
  toSynced := ⟨h.nodeId_wire, h.recorded_eq, h.observable_of, h.known_of, h.generation_eq,
    h.observed_of, h.sinceRead_pos, h.count_le⟩
  pending_some := rfl
  subscribed_eq := h.subscribed_eq

theorem unread_served (log : List (Event server.keys)) (request : IncomingRequest) :
    Unread (.served request :: log) := by
  intro i v
  simp [sinceServed]

theorem quiet_served (log : List (Event server.keys)) (request : IncomingRequest) :
    Quiet (.served request :: log) := by
  intro i
  simp [sinceServed]

theorem Ready.respond (h : Ready server nodeId none l generation log) (hf : f.IsResponse)
    (hd : Decides server nodeId (.served request :: log) request f)
    (hsub : ∀ i r, request = .observe r ∨ request = .unobserve r →
      f.opcode ≠ .ok ∨ r ≠ (server.keys i).keyref) :
    Responding server nodeId request f l generation (.served request :: log) :=
  (h.serve request).respond (quiet_served log request) h.owes_none hf hd hsub

theorem Ready.refuse (h : Ready server nodeId none l generation log) (code : UInt8)
    (hd : Decides server nodeId (.served request :: log) request (errorFrame code)) :
    HandlingOk server nodeId request (Phase.sendError code l) generation
      (.served request :: log) :=
  sendFrame_ok (h.respond (f := errorFrame code) (isResponse_of (by decide)) hd
    fun _ _ _ => Or.inl (by simp [errorFrame]; decide))

theorem handle_ok (h : Ready server nodeId none l generation log) (request : IncomingRequest) :
    HandlingOk server nodeId request (Phase.handle nodeId request l) generation
      (.served request :: log) := by
  have hserve := h.serve request
  have hquiet := quiet_served log request
  cases request with
  | ping => exact sendFrame_ok (h.respond (isResponse_of (by decide)) rfl (by simp))
  | identify => exact sendStr16_ok (h.respond (isResponse_of (by decide)) ⟨rfl, h.nodeId_wire⟩ (by simp))
  | getCaps => exact sendStr16_ok (h.respond (isResponse_of (by decide)) rfl (by simp))
  | getKeytabLen => exact sendU16_ok (h.respond (isResponse_of (by decide)) rfl (by simp))
  | getKey r =>
    simp only [Phase.handle]
    split_ifs with hr
    · exact h.refuse _ (by simp only [Decides, if_pos hr])
    · cases hslot : server.findSlot r with
      | none => exact sendFrame_ok (h.respond (isResponse_of (by decide))
          (by simp only [Decides, if_neg hr, hslot]) (by simp))
      | some i => exact sendKey_ok (h.respond (isResponse_of (by decide))
          (by simp only [Decides, if_neg hr, hslot]) (by simp))
  | get r =>
    simp only [Phase.handle]
    split_ifs with hr
    · exact h.refuse _ (by simp only [Decides, if_pos hr])
    · cases hslot : server.findSlot r with
      | none => exact h.refuse _ (by simp only [Decides, if_neg hr, hslot])
      | some i =>
        simp only [Bool.not_eq_true']
        by_cases hk : (server.keys i).readable = true
        · rw [if_neg (by simp [hk])]
          exact ⟨hserve, hquiet, h.owes_none, unread_served _ _, hk, r, rfl, hr, hslot⟩
        · rw [if_pos (by simpa using hk)]
          exact h.refuse _ (by simp only [Decides, if_neg hr, hslot, if_neg hk])
  | write r w =>
    simp only [Phase.handle]
    split_ifs with hr
    · exact h.refuse _ (by simp only [Decides, if_pos hr])
    · cases hslot : server.findSlot r with
      | none => exact h.refuse _ (by simp only [Decides, if_neg hr, hslot])
      | some i =>
        simp only [Bool.not_eq_true']
        by_cases hk : (server.keys i).writable = true
        · rw [if_neg (by simp [hk])]
          have hrefuse : Refuses server i w → Decides server nodeId (.served (.write r w) :: log)
              (.write r w) (errorFrame Server.errorTypeMismatch) := by
            intro href
            simp only [Decides, if_neg hr, hslot, if_pos hk]
            exact Or.inr ⟨trivial, href⟩
          cases hdec : (QupValue.decode w : Except WireValueError (server.keys i).type.Value) with
          | error e =>
            refine h.refuse _ (hrefuse fun v hv => ?_)
            rw [hdec] at hv
            cases hv
          | ok v =>
            cases hval : QupValue.validate v with
            | error e =>
              simp only [hval]
              refine h.refuse _ (hrefuse fun v' hv' => ?_)
              rw [hdec] at hv'
              cases hv'
              simp [hval]
            | ok u =>
              simp only [hval]
              exact ⟨hserve, hk, hval, r, by rw [LawfulQupValue.decode_ok hdec], hr, hslot⟩
        · rw [if_pos (by simpa using hk)]
          exact h.refuse _ (by simp only [Decides, if_neg hr, hslot, if_neg hk])
  | observe r =>
    simp only [Phase.handle]
    split_ifs with hr
    · exact h.refuse _ (by simp only [Decides, if_pos hr])
    · cases hslot : server.findSlot r with
      | none => exact h.refuse _ (by simp only [Decides, if_neg hr, hslot])
      | some i =>
        simp only [Bool.not_eq_true']
        by_cases hk : (server.keys i).observable = true
        · rw [if_neg (by simp [hk])]
          exact ⟨hserve, hquiet, h.owes_none, fun _ => hk, r, rfl, hr, hslot⟩
        · rw [if_pos (by simpa using hk)]
          exact h.refuse _ (by simp only [Decides, if_neg hr, hslot, if_neg hk])
  | unobserve r =>
    simp only [Phase.handle]
    split_ifs with hr
    · exact h.refuse _ (by simp only [Decides, if_pos hr])
    · cases hslot : server.findSlot r with
      | some i => exact ⟨hserve, hquiet, h.owes_none, fun hoff => (by cases hoff), r, rfl, hr, hslot⟩
      | none =>
        refine sendFrame_ok (h.respond (isResponse_of (by decide)) ?_ fun i r' hr' => Or.inr ?_)
        · simp only [Decides, if_neg hr]
          rfl
        · rintro rfl
          simp only [reduceCtorEq, IncomingRequest.unobserve.injEq, false_or] at hr'
          subst hr'
          have hnone := List.find?_eq_none.mp hslot i (List.mem_finRange i)
          simp at hnone

end
end Qup.Embassy
