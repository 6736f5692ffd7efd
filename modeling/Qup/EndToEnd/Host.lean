import Qup.EndToEnd.Replies
import Qup.EndToEnd.Watch

/-!
# The server as a world

A client's routine over the link to a server: its requests are answered by the
two channels, and between any two of them frames reach the node, and the node and
the updates of its keys take steps. The server keeps to the key table of its
registry.
-/

namespace Qup.EndToEnd
open Foundation Foundation.Utf8 Link
open Embassy (Server Event Frame IncomingRequest Decides incoming Allowed servedRequests
  sentFrames programs phases phasesHom Phase UpdatePhase Machine errorFrame okFrame changedFrame)
open Client (Call ClientError Message ownedMessage)
open Client.Async (Op)

variable {N : ℕ} {server : Server N} {nodeId : Str} {A : List Call → Prop}

abbrev Server.profile (server : Server N) (nodeId : Str) : Profile :=
  ⟨server.keyTable, nodeId, server.caps⟩

section
variable {P U : Type}

def linkServe (M : Machine server P U) (k : Link server P U) (_ : Unit) :
    (o : Op) → Option (o.Res × Link server P U)
  | .send call => (k.step M (.call call)).map fun k' => (call.method.send.map fun _ => (), k')
  | .nextMessage =>
    (nextFrame k.toClient).bind fun read =>
      (k.step M (if k.awaiting.isSome then .receive else .next)).map fun k' => (read.1, k')

def linkMove (M : Machine server P U) (k : Link server P U) :
    Act server.keys → Option (Link server P U)
  | .deliver => k.step M .deliver
  | .node l => k.step M (.node l)
  | _ => none

def linkWorld (M : Machine server P U) :
    World (Link server P U) Op.Res Unit (Act server.keys) := ⟨linkServe M, linkMove M⟩

end

theorem step_of_move {P U : Type} {M : Machine server P U} {k k' : Link server P U}
    {a : Act server.keys} (h : linkMove M k a = some k') : k.step M a = some k' := by
  cases a with
  | deliver | node l => exact h
  | _ => cases h

theorem linkWorld_reachable {P U : Type} (M : Machine server P U) :
    (∀ {k k' c o r}, (linkWorld M).serve k c o = some (r, k') → Reachable (Link.step M) k k') ∧
      ∀ {k k' a}, (linkWorld M).move k a = some k' → Reachable (Link.step M) k k' := by
  constructor
  · intro k k' c o r hserve
    cases o with
    | send call =>
      obtain ⟨k₁, hstep, hpair⟩ := Option.map_eq_some_iff.mp hserve
      obtain ⟨-, rfl⟩ := Prod.mk.inj hpair
      exact ⟨_, .one trivial hstep⟩
    | nextMessage =>
      obtain ⟨read, -, hread⟩ := Option.bind_eq_some_iff.mp hserve
      obtain ⟨k₁, hstep, hpair⟩ := Option.map_eq_some_iff.mp hread
      obtain ⟨-, rfl⟩ := Prod.mk.inj hpair
      exact ⟨_, .one trivial hstep⟩
  · intro k k' a hmove
    exact ⟨_, .one trivial (step_of_move hmove)⟩

theorem read_cases {P U : Type} {M : Machine server P U} {k k' : Link server P U}
    {reply : Except ClientError Message} {rest : List (List UInt8)}
    (hnext : nextFrame k.toClient = some (reply, rest))
    (hstep : k.step M (if k.awaiting.isSome then .receive else .next) = some k') :
    (k' = { k with toClient := rest } ∧ (k.awaiting = none ∨ ∃ r, reply = .ok (.changed r))) ∨
      ∃ call, k.awaiting = some call ∧ (∀ r, reply ≠ .ok (.changed r)) ∧ k' = { k with
        toClient := rest
        awaiting := none
        results := k.results ++ [reply >>= call.method.accept] } := by
  rcases Option.eq_none_or_eq_some k.awaiting with hcall | ⟨call, hcall⟩
  · rw [hcall, Option.isSome_none, if_neg Bool.false_ne_true] at hstep
    cases Link.step_cases hstep with
    | hear message rest' hidle hnext' =>
      rw [hnext] at hnext'
      cases hnext'
      exact .inl ⟨rfl, .inl hcall⟩
  · rw [hcall, Option.isSome_some, if_pos rfl] at hstep
    cases Link.step_cases hstep with
    | skip call' r rest' hcall' hnext' =>
      rw [hnext] at hnext'
      cases hnext'
      exact .inl ⟨rfl, .inr ⟨r, rfl⟩⟩
    | finish call' message rest' hcall' hnext' hne =>
      rw [hnext] at hnext'
      cases hnext'
      cases hcall.symm.trans hcall'
      exact .inr ⟨call, hcall, hne, rfl⟩

theorem same_of_move {P U : Type} {M : Machine server P U} {k k' : Link server P U}
    {a : Act server.keys} (h : linkMove M k a = some k') :
    k'.calls = k.calls ∧ k'.awaiting = k.awaiting ∧ k'.results = k.results := by
  have hstep := step_of_move h
  cases a with
  | deliver =>
    cases Link.step_cases hstep with
    | deliver => exact ⟨rfl, rfl, rfl⟩
  | node l =>
    cases Link.step_cases hstep with
    | node => exact ⟨rfl, rfl, rfl⟩
  | _ => cases h

theorem replies_of_decides {log : List (Event server.keys)} {call : Call} {q : IncomingRequest}
    {f : Frame} {m : Message} (hq : incoming server.maxStr call.message = some q)
    (h : Decides server nodeId log q f) (hlen : f.payload.length ≤ 65535)
    (hm : Client.decodeFrame f.bytes = .ok m) : (Server.profile server nodeId).Replies call m := by
  have hframe : ∀ {m' : MessageRef}, f = responseFrame m' → m'.OnWire →
      m'.opcode.Legal .nodeToClient → ownedMessage m' = .ok m := by
    rintro m' rfl hwire hlegal
    exact (Client.decodeFrame_frameBytes ⟨hlegal, hwire, hlen⟩).symm.trans hm
  have herror : ∀ {code : UInt8}, f = errorFrame code → m = .error code := by
    intro code hf
    have hown := @hframe (.error ⟨code⟩) hf trivial error_legal
    exact (Except.ok.inj hown).symm
  have hok : f = okFrame → m = .ok := by
    intro hf
    have hown := @hframe (.ordinaryResponse .ok) hf trivial (ordinary_legal _)
    exact (Except.ok.inj hown).symm
  have hanswers := h.answers
  cases call with
  | ping =>
    cases hq
    exact hok h
  | caps =>
    cases hq
    have hown := @hframe (.compatibilityResponse ⟨server.caps, server.hasObservableKeys⟩) h
      (parse_caps server) caps_legal
    exact (Except.ok.inj hown).symm
  | identify =>
    cases hq
    have hown := @hframe (.ordinaryResponse (.identified nodeId)) h.1 h.2 (ordinary_legal _)
    exact (Except.ok.inj hown).symm
  | keyCount =>
    cases hq
    have hown := @hframe (.ordinaryResponse (.keytabLen server.keyCount)) h trivial
      (ordinary_legal _)
    exact (Except.ok.inj hown).symm
  | key r =>
    cases hq
    by_cases hr : server.keyTable.count ≤ r
    · simp only [Embassy.KeyTable.Answers, if_pos hr] at hanswers
      simp only [Profile.Replies, if_pos hr]
      exact herror hanswers
    · simp only [Embassy.KeyTable.Answers, if_neg hr] at hanswers
      simp only [Profile.Replies, if_neg hr]
      have hown := @hframe
        (.ordinaryResponse (.key (server.keyTable.flags r) (server.keyTable.name r))) hanswers
        (Server.keyTable_name_wire server r) (ordinary_legal _)
      exact (Except.ok.inj hown).symm
  | get r =>
    cases hq
    by_cases hr : server.keyTable.count ≤ r
    · simp only [Embassy.KeyTable.Answers, if_pos hr] at hanswers
      simp only [Profile.Replies, if_pos hr]
      exact herror hanswers
    · simp only [Embassy.KeyTable.Answers, if_neg hr] at hanswers
      simp only [Profile.Replies, if_neg hr]
      by_cases hk : (server.keyTable.flags r).isReadable = true
      · rw [if_pos hk] at hanswers ⊢
        obtain ⟨v, hv, hf⟩ := hanswers
        have hown := @hframe (.ordinaryResponse (.value v)) hf hv (ordinary_legal _)
        exact ⟨_, (Except.ok.inj hown).symm⟩
      · rw [if_neg hk] at hanswers ⊢
        exact herror hanswers
  | write r value =>
    cases hq
    by_cases hr : server.keyTable.count ≤ r
    · simp only [Embassy.KeyTable.Answers, if_pos hr] at hanswers
      simp only [Profile.Replies, if_pos hr]
      exact herror hanswers
    · simp only [Embassy.KeyTable.Answers, if_neg hr] at hanswers
      simp only [Profile.Replies, if_neg hr]
      by_cases hk : (server.keyTable.flags r).isWritable = true
      · rw [if_pos hk] at hanswers ⊢
        rcases hanswers with ⟨v, hv, hw, hf⟩ | hf
        · have hown := @hframe (.ordinaryResponse (.written v)) hf hv (ordinary_legal _)
          refine .inl ((Except.ok.inj hown).symm.trans ?_)
          rw [← wireValue_eq_ofValue hw]
          exact congrArg Message.written (Client.ownedValue_valueRef value)
        · exact .inr (herror hf)
      · rw [if_neg hk] at hanswers ⊢
        exact herror hanswers
  | observe r =>
    cases hq
    by_cases hr : server.keyTable.count ≤ r
    · simp only [Embassy.KeyTable.Answers, if_pos hr] at hanswers
      simp only [Profile.Replies, if_pos hr]
      exact herror hanswers
    · simp only [Embassy.KeyTable.Answers, if_neg hr] at hanswers
      simp only [Profile.Replies, if_neg hr]
      by_cases hk : (server.keyTable.flags r).isObservable = true
      · rw [if_pos hk] at hanswers ⊢
        exact hok hanswers
      · rw [if_neg hk] at hanswers ⊢
        exact herror hanswers
  | unobserve r =>
    cases hq
    by_cases hr : server.keyTable.count ≤ r
    · simp only [Embassy.KeyTable.Answers, if_pos hr] at hanswers
      simp only [Profile.Replies, if_pos hr]
      exact herror hanswers
    · simp only [Embassy.KeyTable.Answers, if_neg hr] at hanswers
      simp only [Profile.Replies, if_neg hr]
      exact hok hanswers

structure InStep {P U : Type} (k : Link server P U) (talk : Talk) : Prop where
  calls_eq : k.calls = talk.calls
  awaiting_eq : k.awaiting = talk.awaiting
  results_eq : k.results = talk.exchanges.map fun x => x.1.method.accept x.2

/-- The node's tasks as phases, in step with a client whose calls are in `A`. -/
def Accompanies (nodeId : Str) (A : List Call → Prop) (k : Pair server) (talk : Talk) : Prop :=
  ∃ t : PhaseLink server, t.map Phase.task UpdatePhase.task = k ∧ Linked nodeId t ∧
    InStep t talk ∧ A talk.calls

theorem exists_phaseStep {t : PhaseLink server} {a : Act server.keys} {k' : Pair server}
    (h : (t.map Phase.task UpdatePhase.task).step (programs server nodeId) a = some k') :
    ∃ t', t.step (phases server nodeId) a = some t' ∧ t'.map Phase.task UpdatePhase.task = k' := by
  have hmap := Link.step_map (phasesHom server nodeId) t a
  have hstep := hmap.symm.trans h
  exact Option.map_eq_some_iff.mp hstep

theorem notifies_of_sent (hdistinct : server.Distinct) {t : PhaseLink server} (h : Linked nodeId t)
    {f : Frame} {r : UInt16} (hf : f ∈ sentFrames t.node.log)
    (hresponse : ¬ f.IsResponse) (hdecode : Client.decodeFrame f.bytes = .ok (.changed r)) :
    (Server.profile server nodeId).Notifies t.calls r := by
  have hjust : Justified (Allowed server nodeId) t.node.log := h.session.justified
  obtain ⟨newer, older, hlog⟩ := List.append_of_mem (mem_sentFrames.mp hf)
  have hallowed : Allowed server nodeId (.sent f) older := (hlog ▸ hjust).allowed_at
  rw [Allowed, if_neg hresponse] at hallowed
  obtain ⟨i, rfl, hi⟩ := hallowed
  obtain rfl := changed_of_decode hdecode rfl
  obtain ⟨later, g, earlier, heq, -⟩ := Embassy.exists_observe_of_subscribed hi.subscribed_log
  have hserved : (servedRequests t.node.log)[earlier.length]? =
      some (.observe (server.keys i).keyref) := by
    have holder : Justified (Allowed server nodeId) older := by
      rw [hlog] at hjust
      exact hjust.older.2
    have hsplit : t.node.log = (newer ++ [.sent (changedFrame (server.keys i).keyref)]) ++ older := by
      rw [hlog, List.append_assoc, List.singleton_append]
    rw [hsplit, servedRequests_append, Embassy.servedRequests_eq holder, heq]
    simp
  obtain ⟨call, hcall, hincoming⟩ := call_at h hserved
  refine ⟨UInt16.not_le.mp hi.known, ?_, ?_⟩
  · have hslot := @Server.findSlot_keyref_self N server hdistinct i
    exact (congrArg KeyFlags.isObservable (Server.keyTable_registered hslot).1).trans hi.observable
  · cases call <;> cases hincoming
    exact List.mem_of_getElem? hcall

/-- The next message is a notification, or the answer to the call that waits. -/
theorem promised_of_read (hdistinct : server.Distinct) {t : PhaseLink server} (h : Linked nodeId t)
    {talk : Talk} (hstep : InStep t talk) {reply : Except ClientError Message} {rest : List (List UInt8)}
    (hnext : nextFrame t.toClient = some (reply, rest)) :
    (Server.profile server nodeId).Promises talk .nextMessage reply := by
  obtain ⟨returned, received, queued, hmatched⟩ := h.matched
  cases queued with
  | nil =>
    rw [hmatched.nextFrame_nil] at hnext
    cases hnext
  | cons f queued =>
    obtain ⟨m, hread, hdecode, hchanged⟩ := hmatched.read h.session.justified
    rw [hread] at hnext
    cases hnext
    by_cases hf : f.IsResponse
    · cases hcall : t.awaiting with
      | none => exact absurd hf (hmatched.notification_of_idle h hcall)
      | some call =>
        -- the call as it will be when it has read `f`
        have hne : ∀ r, m ≠ .changed r := fun r hr => absurd hf (hchanged.mp ⟨r, hr⟩)
        have hreceive : t.step (phases server nodeId) .receive = some { t with
            toClient := queued.map Frame.bytes
            awaiting := none
            results := t.results ++ [.ok m >>= call.method.accept] } := by
          simp only [Link.step, hcall, hread]
          cases m with
          | changed r => exact absurd rfl (hne r)
          | _ => rfl
        have hfinish := hmatched.finish hcall hf
        have hresult : (Except.ok m >>= call.method.accept) = call.outcome f.bytes := by
          rw [Client.Call.outcome, hdecode]
        rw [hresult] at hreceive
        have hlast : (responses (received ++ [f]))[returned.length]? = some f := by
          have hone : responses [f] = [f] := by simp [responses, hf]
          rw [responses_append, hone, ← hmatched.length_eq, List.getElem?_concat_length]
        obtain ⟨q, newer, older, hanswered⟩ := hfinish.answered (h.step hdistinct hreceive)
          (i := returned.length) List.getElem?_concat_length hlast
        exact .inr ⟨call, m, hstep.awaiting_eq ▸ hcall, rfl,
          replies_of_decides hanswered.request hanswered.decides hanswered.fits hdecode⟩
    · obtain ⟨r, rfl⟩ := hchanged.mpr hf
      have hsent : f ∈ sentFrames t.node.log := by
        rw [hmatched.sent_eq]
        exact List.mem_append_right _ List.mem_cons_self
      exact .inl ⟨r, rfl, hstep.calls_eq ▸ notifies_of_sent hdistinct h hsent hf hdecode⟩

theorem InStep.send {t t' : PhaseLink server} {talk : Talk} (h : InStep t talk)
    (hidle : talk.awaiting = none) {call : Call}
    (hstep : t.step (phases server nodeId) (.call call) = some t') :
    InStep t' ((talking A).next talk (.send call) (call.method.send.map fun _ => ())) := by
  have hawaiting := h.awaiting_eq.trans hidle
  have hcalls := h.calls_eq
  rw [Talk.calls, hidle, Option.toList_none, List.append_nil] at hcalls
  cases hsend : call.method.send with
  | error e =>
    simp only [Link.step, hawaiting, hsend] at hstep
    cases hstep
    exact h
  | ok frame =>
    simp only [Link.step, hawaiting, hsend] at hstep
    cases hstep
    exact ⟨congrArg (· ++ [call]) hcalls, rfl, h.results_eq⟩

theorem InStep.hear {t t' : PhaseLink server} {talk : Talk} (h : InStep t talk) {m : Message}
    {rest : List (List UInt8)} (hnext : nextFrame t.toClient = some (.ok m, rest))
    (hstep : t.step (phases server nodeId) (if t.awaiting.isSome then .receive else .next) = some t') :
    InStep t' (talk.hear (.ok m)) ∧ (talk.hear (.ok m)).calls = talk.calls := by
  have hsame : ∀ r, m = .changed r → talk.hear (.ok m) = talk := fun r hr => hr ▸ rfl
  have hother : (∀ r, m ≠ .changed r) → talk.hear (.ok m) =
      .idle (talk.exchanges ++ talk.awaiting.toList.map fun call => (call, m)) := by
    intro hne
    cases m with
    | changed r => exact absurd rfl (hne r)
    | _ => rfl
  have hidle : talk.awaiting = none → talk.hear (.ok m) = talk := by
    intro hidle
    by_cases hchanged : ∃ r, m = .changed r
    · obtain ⟨r, hr⟩ := hchanged
      exact hsame r hr
    · rw [hother fun r hr => hchanged ⟨r, hr⟩, hidle, Option.toList_none, List.map_nil,
        List.append_nil]
      exact congrArg (Talk.mk talk.exchanges) hidle.symm
  rcases read_cases hnext hstep with ⟨rfl, hwhy⟩ | ⟨call, hcall, hne, rfl⟩
  · have htalk : talk.hear (.ok m) = talk := by
      rcases hwhy with hnone | ⟨r, hr⟩
      · exact hidle (h.awaiting_eq.symm.trans hnone)
      · exact hsame r (Except.ok.inj hr)
    rw [htalk]
    exact ⟨⟨h.calls_eq, h.awaiting_eq, h.results_eq⟩, rfl⟩
  · have hsome : talk.awaiting = some call := h.awaiting_eq.symm.trans hcall
    have hcalls : talk.calls = talk.exchanges.map Prod.fst ++ [call] := by
      rw [Talk.calls, hsome, Option.toList_some]
    rw [hother fun r hr => hne r (congrArg _ hr), hsome, Talk.calls_idle, hcalls, List.map_append]
    refine ⟨⟨?_, rfl, ?_⟩, rfl⟩
    · rw [Talk.calls_idle, List.map_append]
      exact h.calls_eq.trans hcalls
    · change t.results ++ _ = List.map _ (talk.exchanges ++ _)
      rw [List.map_append, h.results_eq]
      rfl

/-- Whatever its clients and the updates of its keys do, the server keeps to the
key table of its registry. -/
theorem linkWorld_keeps (hdistinct : server.Distinct) (A : List Call → Prop) :
    (linkWorld (programs server nodeId)).Keeps (talking A) (Server.profile server nodeId).Promises
      (Accompanies nodeId A) where
  serve := by
    rintro k k' talk c o reply ⟨t, rfl, hlinked, hin, hA⟩ hallows hserve
    cases o with
    | send call =>
      obtain ⟨k₁, hstep, hpair⟩ := Option.map_eq_some_iff.mp hserve
      obtain ⟨rfl, rfl⟩ := Prod.mk.inj hpair
      obtain ⟨t', ht', rfl⟩ := exists_phaseStep hstep
      obtain ⟨hidle, hcall⟩ : talk.awaiting = none ∧ A (talk.calls ++ [call]) := hallows
      refine ⟨rfl, t', rfl, hlinked.step hdistinct ht', hin.send hidle ht', ?_⟩
      cases call.method.send with
      | error e => exact hA
      | ok frame =>
        have hcalls : talk.calls = talk.exchanges.map Prod.fst := by
          rw [Talk.calls, hidle, Option.toList_none, List.append_nil]
        rw [hcalls] at hcall
        exact hcall
    | nextMessage =>
      obtain ⟨⟨message, rest⟩, hnext, hread⟩ := Option.bind_eq_some_iff.mp hserve
      obtain ⟨k₁, hstep, hpair⟩ := Option.map_eq_some_iff.mp hread
      obtain ⟨rfl, rfl⟩ := Prod.mk.inj hpair
      obtain ⟨t', ht', rfl⟩ := exists_phaseStep hstep
      have hpromise := promised_of_read hdistinct hlinked hin hnext
      obtain ⟨m, rfl⟩ : ∃ m, message = .ok m := by
        rcases hpromise with ⟨r, rfl, -⟩ | ⟨call, m, -, rfl, -⟩
        · exact ⟨_, rfl⟩
        · exact ⟨m, rfl⟩
      obtain ⟨hheard, hcalls⟩ := hin.hear hnext ht'
      exact ⟨hpromise, t', rfl, hlinked.step hdistinct ht', hheard, hcalls ▸ hA⟩
  move := by
    rintro k k' talk a ⟨t, rfl, hlinked, hin, hA⟩ hmove
    obtain ⟨hcalls, hawaiting, hresults⟩ := same_of_move hmove
    obtain ⟨t', ht', rfl⟩ := exists_phaseStep (step_of_move hmove)
    exact ⟨t', rfl, hlinked.step hdistinct ht', ⟨Eq.trans hcalls hin.calls_eq,
      Eq.trans hawaiting hin.awaiting_eq, Eq.trans hresults hin.results_eq⟩, hA⟩

end Qup.EndToEnd
