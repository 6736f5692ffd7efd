import Qup.EndToEnd.Link

/-!
# Requests and responses stay in step

The invariant of a client and a node: the frames in the channels and in the
node's buffer are the calls not yet served, the frames sent are those the client
has read and those on their way, and what has returned is what the responses
among the former decode to. It is kept by every step, so the `i`-th response
answers the `i`-th call however many notifications are in between.
-/

namespace Qup.EndToEnd
open Foundation Foundation.Utf8 Embassy
open Client (Call Answer ClientError Message ownedMessage)

variable {N : ℕ} {server : Server N} {nodeId : Str}

abbrev PhaseLink (server : Server N) := Link server (Phase server) (UpdatePhase server)

def responses (frames : List Frame) : List Frame := frames.filter fun f => decide f.IsResponse

@[simp] theorem responses_append (fs gs : List Frame) :
    responses (fs ++ gs) = responses fs ++ responses gs := List.filter_append fs gs

theorem sentFrames_append {keys : Fin N → ErasedKey} (newer older : List (Event keys)) :
    sentFrames (newer ++ older) = sentFrames older ++ sentFrames newer := by
  induction newer with
  | nil => simp [sentFrames]
  | cons e newer ih =>
    cases e with
    | sent f => simp only [List.cons_append, sentFrames, ih, List.append_assoc]
    | _ => exact ih

theorem sentFrames_step {s s' : PhaseSys server} {l : Label server.keys}
    (h : s.step (phases server nodeId) l = some s') :
    sentFrames s'.log = sentFrames s.log ++ Link.newFrames s s' := by
  obtain ⟨newer, hlog⟩ := Move.log_grows (PhaseSys.step_move h)
  have hlog' : s'.log = newer ++ s.log := hlog
  rw [Link.newFrames, hlog', sentFrames_append, List.drop_left]

theorem Link.log_grows {k k' : PhaseLink server} {a : Act server.keys}
    (h : k.step (phases server nodeId) a = some k') :
    ∃ newer, k'.node.log = newer ++ k.node.log := by
  cases Link.step_cases h with
  | deliver frame rest s hto hs => exact Move.log_grows (PhaseSys.step_move hs)
  | node l s hl hs => exact Move.log_grows (PhaseSys.step_move hs)
  | _ => exact ⟨[], rfl⟩

namespace Link

def messages (k : PhaseLink server) : List MessageRef := k.calls.map Call.message

/-- The frames sent are those the client has `received` and those `queued` for
it. -/
structure Matched (k : PhaseLink server) (returned : List Call) (received queued : List Frame) :
    Prop where
  calls_eq : k.calls = returned ++ k.awaiting.toList
  sent_eq : sentFrames k.node.log = received ++ queued
  toClient_eq : k.toClient = queued.map Frame.bytes
  length_eq : (responses received).length = returned.length
  results_eq : k.results =
    List.zipWith (fun call f => call.outcome f.bytes) returned (responses received)

/-- While the `select` is suspended `read_request` has not taken anything. -/
def Resting (s : PhaseSys server) : Prop :=
  ∀ l reader reads, s.ctrl = .waiting l reader reads ∨ s.ctrl = .parked l reader reads → reads = 0

structure Sent (k : PhaseLink server) (n : ℕ) : Prop where
  le : n ≤ k.messages.length
  placed : Placed k.messages (streamOf (k.messages.take n))
    (k.node.map Phase.task UpdatePhase.task)
  toNode_eq : k.toNode = (k.messages.drop n).map MessageRef.frame

structure Linked (nodeId : Str) (k : PhaseLink server) : Prop where
  session : Session server nodeId (PhaseSys.config k.node)
  wellFormed : ∀ m ∈ k.messages, m.WellFormed .clientToNode
  resting : Resting k.node
  sent : ∃ n, Sent k n
  matched : ∃ returned received queued, Matched k returned received queued

end Link

open Link

theorem pend_whole {messages done rest : List MessageRef} {n : ℕ} {pend : List UInt8}
    (hm : messages = done ++ rest) (h : streamOf (messages.take n) = streamOf done ++ pend) :
    pend = streamOf (rest.take (n - done.length)) := by
  rw [hm, List.take_append, streamOf_append] at h
  by_cases hn : done.length ≤ n
  · rw [List.take_of_length_le hn] at h
    exact (List.append_cancel_left h).symm
  · have hsplit : streamOf done = streamOf (done.take n) ++ streamOf (done.drop n) := by
      rw [← streamOf_append, List.take_append_drop]
    have hzero : n - done.length = 0 := by omega
    rw [hzero, List.take_zero, streamOf_nil, List.append_nil, hsplit, List.append_assoc] at h
    have hnil := List.self_eq_append_right.mp h
    rw [hzero, List.take_zero, streamOf_nil]
    exact (List.append_eq_nil_iff.mp hnil).2

theorem inPlace_starved {s : Connection server} {l : Locals N} {n reads : ℕ}
    {k : List UInt8 → RequestReader IncomingRequest} {waiting : List MessageRef}
    (hwf : ∀ m ∈ waiting, m.WellFormed .clientToNode) (hctrl : s.ctrl = .reading l (.act n k) reads)
    (hp : InPlace s (streamOf waiting)) (hn : s.inbox.length < n) : waiting = [] ∧ reads = 0 := by
  simp only [InPlace, hctrl] at hp
  have hrun := hp.1 []
  rw [List.append_nil, List.append_nil, Reader.run_act_of_lt k hn] at hrun
  cases waiting with
  | nil =>
    refine ⟨rfl, ?_⟩
    by_contra hreads
    exact absurd (hp.2.2 hreads) (by simp)
  | cons m ms =>
    obtain ⟨q, -, hq⟩ := run_readRequest_frame server.maxStr (hwf m List.mem_cons_self)
    rw [streamOf_cons, hq] at hrun
    cases hrun

theorem Link.Sent.inPlace {k : PhaseLink server} {n : ℕ} (h : Sent k n) :
    ∃ done rest, k.messages = done ++ rest ∧
      (servedRequests k.node.log).map some = done.map (incoming server.maxStr) ∧
        InPlace (k.node.map Phase.task UpdatePhase.task)
          (streamOf (rest.take (n - done.length))) := by
  obtain ⟨done, rest, pend, hm, hlog, hd, hp⟩ := h.placed
  exact ⟨done, rest, hm, hlog, pend_whole hm hd ▸ hp⟩

theorem Link.Linked.unread {k : PhaseLink server} (h : Linked nodeId k) {l : Locals N} {n : ℕ}
    {q : List UInt8 → RequestReader IncomingRequest} {reads : ℕ}
    (hctrl : k.node.ctrl = .reading l (.act n q) reads) (hn : k.node.inbox.length < n) :
    reads = 0 := by
  obtain ⟨m, hsent⟩ := h.sent
  obtain ⟨done, rest, hm, -, hp⟩ := hsent.inPlace
  have hwf : ∀ x ∈ rest.take (m - done.length), x.WellFormed .clientToNode := fun x hx =>
    h.wellFormed x (hm ▸ List.mem_append_right _ (List.mem_of_mem_take hx))
  exact (inPlace_starved (l := l) (k := q) hwf (by simp only [Sys.map, hctrl, Ctrl.map]) hp hn).2

theorem Link.Linked.resting_step {k : PhaseLink server} (h : Linked nodeId k)
    {l : Label server.keys} {s : PhaseSys server}
    (hstep : k.node.step (phases server nodeId) l = some s) : Resting s := by
  have hsame : s.ctrl = k.node.ctrl → Resting s := by
    intro hctrl l reader reads
    rw [hctrl]
    exact h.resting l reader reads
  have hrunning : ∀ {activity p}, s.ctrl = .running activity p → Resting s := by
    rintro activity p hctrl l reader reads (hc | hc) <;> (rw [hctrl] at hc; cases hc)
  have hreading : ∀ {l reader reads}, s.ctrl = .reading l reader reads → Resting s := by
    rintro l reader reads hctrl l' reader' reads' (hc | hc) <;> (rw [hctrl] at hc; cases hc)
  have hstopped : ∀ {e}, s.ctrl = .stopped e → Resting s := by
    rintro e hctrl l reader reads (hc | hc) <;> (rw [hctrl] at hc; cases hc)
  cases Sys.step_cases hstep with
  | arrive => exact hsame rfl
  | read => exact hreading rfl
  | pend l n q reads hctrl hn =>
    rintro l' reader' reads' (hc | hc) <;> cases hc
    exact h.unread hctrl hn
  | suspend l n q reads hctrl hn =>
    rintro l' reader' reads' (hc | hc) <;> cases hc
    exact h.unread hctrl hn
  | readFail => exact hstopped rfl
  | serve => exact hrunning rfl
  | reject => exact hstopped rfl
  | wake => exact hrunning rfl
  | park l reader reads hctrl =>
    rintro l' reader' reads' (hc | hc) <;> cases hc
    exact h.resting _ _ _ (Or.inl hctrl)
  | repoll => exact hreading rfl
  | act => exact hrunning rfl
  | finish activity p l =>
    cases activity with
    | starting => exact hreading rfl
    | handling q =>
      cases ho : server.hasObservableKeys
      · exact hreading (by simp only [Sys.next, ho]; rfl)
      · exact hrunning (by simp only [Sys.next, ho]; rfl)
    | flushing => exact hreading rfl
  | exit => exact hstopped rfl
  | spawn => exact hsame rfl
  | update => exact hsame rfl

theorem Link.Matched.node {k : PhaseLink server} {returned : List Call}
    {received queued : List Frame} (h : Matched k returned received queued)
    {l : Label server.keys} {s : PhaseSys server}
    (hstep : k.node.step (phases server nodeId) l = some s) (toNode : List (List UInt8)) :
    Matched { k with
        node := s
        toNode := toNode
        toClient := k.toClient ++ (newFrames k.node s).map Frame.bytes }
      returned received (queued ++ newFrames k.node s) where
  calls_eq := h.calls_eq
  sent_eq := by rw [sentFrames_step hstep, h.sent_eq, List.append_assoc]
  toClient_eq := by rw [h.toClient_eq, List.map_append]
  length_eq := h.length_eq
  results_eq := h.results_eq

theorem Link.Linked.node (hdistinct : server.Distinct) {k : PhaseLink server} (h : Linked nodeId k)
    {l : Label server.keys} {s : PhaseSys server}
    (hstep : k.node.step (phases server nodeId) l = some s) {n n' : ℕ} (hsent : Sent k n)
    {toNode : List (List UInt8)} (hle : n' ≤ k.messages.length)
    (htoNode : toNode = (k.messages.drop n').map MessageRef.frame)
    (harrive : streamOf (k.messages.take n) ++ arrivals [l] = streamOf (k.messages.take n')) :
    Linked nodeId { k with
      node := s
      toNode := toNode
      toClient := k.toClient ++ (newFrames k.node s).map Frame.bytes } := by
  obtain ⟨returned, received, queued, hmatched⟩ := h.matched
  refine ⟨h.session.move hdistinct (PhaseSys.step_move hstep), h.wellFormed, h.resting_step hstep,
    ⟨n', hle, ?_, htoNode⟩, ⟨returned, received, _, hmatched.node hstep toNode⟩⟩
  have hstarts : streamOf (k.messages.take n') <+: streamOf k.messages :=
    ⟨streamOf (k.messages.drop n'), by rw [← streamOf_append, List.take_append_drop]⟩
  have hwake : WakesBetweenFrames (k.node.map Phase.task UpdatePhase.task) l := by
    cases l with
    | wake =>
      obtain ⟨l, reader, reads, hctrl, -, -⟩ := PhaseSys.step_wake hstep
      have hreads := h.resting _ _ _ (Or.inl hctrl)
      simp only [WakesBetweenFrames, Sys.map, hctrl, Ctrl.map, Ctrl.midFrame, hreads, bne_self_eq_false]
    | _ => trivial
  have hmapped : (k.node.map Phase.task UpdatePhase.task).step (programs server nodeId) l =
      some (s.map Phase.task UpdatePhase.task) := by
    have hmap := Sys.step_map (phasesHom server nodeId) k.node l
    rw [hstep] at hmap
    exact hmap
  have hplaced := hsent.placed.step h.wellFormed (harrive ▸ hstarts) hwake hmapped
  rwa [harrive] at hplaced

theorem nextFrame_cons {m : MessageRef} (hm : m.WellFormed .nodeToClient) {message : Message}
    (h : ownedMessage m = .ok message) (rest : List (List UInt8)) :
    nextFrame (m.frame :: rest) = some (.ok message, rest) := by
  have hrun := Client.run_nextMessage_frame hm []
  rw [List.append_nil, h] at hrun
  simp only [nextFrame, hrun, Program.lift_ok, Reader.run_ret]

theorem Link.Matched.read {k : PhaseLink server} {returned : List Call} {received queued : List Frame}
    {f : Frame} (hjust : Justified (Allowed server nodeId) k.node.log)
    (h : Matched k returned received (f :: queued)) :
    ∃ message, nextFrame k.toClient = some (.ok message, queued.map Frame.bytes) ∧
      Client.decodeFrame f.bytes = .ok message ∧
        ((∃ r, message = .changed r) ↔ ¬ f.IsResponse) := by
  have hf : f ∈ sentFrames k.node.log := by
    rw [h.sent_eq]
    exact List.mem_append_right _ List.mem_cons_self
  obtain ⟨m, rfl, hm⟩ := exists_message_of_sent hjust hf
  obtain ⟨message, hmessage⟩ := Client.ownedMessage_legal hm.1
  refine ⟨message, ?_, (Client.decodeFrame_frameBytes hm).trans hmessage,
    ownedMessage_changed hmessage⟩
  rw [h.toClient_eq]
  exact nextFrame_cons hm hmessage _

theorem Link.Matched.nextFrame_nil {k : PhaseLink server} {returned : List Call}
    {received : List Frame} (h : Matched k returned received []) : nextFrame k.toClient = none := by
  rw [h.toClient_eq]
  rfl

theorem Link.Matched.skip {k : PhaseLink server} {returned : List Call}
    {received queued : List Frame} {f : Frame} (h : Matched k returned received (f :: queued))
    (hf : ¬ f.IsResponse) :
    Matched { k with toClient := queued.map Frame.bytes } returned (received ++ [f]) queued where
  calls_eq := h.calls_eq
  sent_eq := by rw [h.sent_eq, List.append_assoc, List.singleton_append]
  toClient_eq := rfl
  length_eq := by
    have hnone : responses [f] = [] := by simp [responses, hf]
    rw [responses_append, hnone, List.append_nil, h.length_eq]
  results_eq := by
    have hnone : responses [f] = [] := by simp [responses, hf]
    rw [responses_append, hnone, List.append_nil]
    exact h.results_eq

theorem Link.Matched.finish {k : PhaseLink server} {returned : List Call}
    {received queued : List Frame} {f : Frame} {call : Call}
    (h : Matched k returned received (f :: queued)) (hcall : k.awaiting = some call)
    (hf : f.IsResponse) :
    Matched { k with
        toClient := queued.map Frame.bytes
        awaiting := none
        results := k.results ++ [call.outcome f.bytes] }
      (returned ++ [call]) (received ++ [f]) queued where
  calls_eq := by
    have hcalls := h.calls_eq
    rw [hcall] at hcalls
    simpa using hcalls
  sent_eq := by rw [h.sent_eq, List.append_assoc, List.singleton_append]
  toClient_eq := rfl
  length_eq := by
    have hone : responses [f] = [f] := by simp [responses, hf]
    rw [responses_append, hone, List.length_append, List.length_append, h.length_eq]
    rfl
  results_eq := by
    have hone : responses [f] = [f] := by simp [responses, hf]
    rw [responses_append, hone, List.zipWith_append h.length_eq.symm, h.results_eq]
    rfl

theorem Placed.snoc {messages : List MessageRef} {delivered : List UInt8} {s : Connection server}
    (h : Placed messages delivered s) (m : MessageRef) : Placed (messages ++ [m]) delivered s := by
  obtain ⟨done, rest, pend, rfl, hlog, hd, hp⟩ := h
  exact ⟨done, rest ++ [m], pend, List.append_assoc _ _ _, hlog, hd, hp⟩

theorem Link.Sent.call {k : PhaseLink server} {n : ℕ} (h : Sent k n) (call : Call) :
    Sent { k with
      toNode := k.toNode ++ [call.message.frame]
      awaiting := some call
      calls := k.calls ++ [call] } n := by
  have hmessages : (k.calls ++ [call]).map Call.message = k.messages ++ [call.message] := by
    rw [List.map_append]
    rfl
  refine ⟨?_, ?_, ?_⟩
  · rw [messages, hmessages, List.length_append]
    exact Nat.le_add_right_of_le h.le
  · rw [messages, hmessages, List.take_append_of_le_length h.le]
    exact Placed.snoc h.placed call.message
  · rw [messages, hmessages, List.drop_append_of_le_length h.le, List.map_append, h.toNode_eq]
    rfl

theorem Link.Linked.call {k : PhaseLink server} (h : Linked nodeId k) (hidle : k.awaiting = none)
    {call : Call} (hwf : call.message.WellFormed .clientToNode) :
    Linked nodeId { k with
      toNode := k.toNode ++ [call.message.frame]
      awaiting := some call
      calls := k.calls ++ [call] } := by
  obtain ⟨n, hsent⟩ := h.sent
  obtain ⟨returned, received, queued, hmatched⟩ := h.matched
  refine ⟨h.session, ?_, h.resting, ⟨n, hsent.call call⟩, returned, received, queued, ?_,
    hmatched.sent_eq, hmatched.toClient_eq, hmatched.length_eq, hmatched.results_eq⟩
  · intro m hm
    rw [messages, List.map_append, List.mem_append] at hm
    rcases hm with hm | hm
    · exact h.wellFormed m hm
    · rw [List.map_singleton, List.mem_singleton] at hm
      exact hm ▸ hwf
  · have hcalls := hmatched.calls_eq
    rw [hidle] at hcalls
    change k.calls ++ [call] = returned ++ [call]
    rw [hcalls]
    simp

theorem Link.Linked.served_eq {k : PhaseLink server} (h : Linked nodeId k) :
    (servedRequests k.node.log).map some <+: k.messages.map (incoming server.maxStr) := by
  obtain ⟨n, hsent⟩ := h.sent
  obtain ⟨done, rest, hm, hlog, -⟩ := hsent.inPlace
  rw [hlog, hm, List.map_append]
  exact List.prefix_append _ _

/-- Every response answers a call, and at most the last call is unanswered. -/
theorem Link.Matched.counts {k : PhaseLink server} {returned : List Call}
    {received queued : List Frame} (hm : Matched k returned received queued)
    (h : Linked nodeId k) :
    returned.length + (responses queued).length = (exchanges k.node.log).length ∧
      (exchanges k.node.log).length + (pendingRequest k.node.log).toList.length ≤
        returned.length + k.awaiting.toList.length := by
  have hjust : Justified (Allowed server nodeId) k.node.log := h.session.justified
  have hresponses := congrArg List.length (responses_eq hjust)
  have hserved := congrArg List.length (servedRequests_eq hjust)
  have hle := h.served_eq.length_le
  have hsent : (responses (sentFrames k.node.log)).length =
      (responses received).length + (responses queued).length := by
    rw [hm.sent_eq, responses_append, List.length_append]
  have hcalls := congrArg List.length hm.calls_eq
  rw [List.length_append] at hcalls
  simp only [List.length_map, List.length_append, List.length_reverse, messages]
    at hresponses hserved hle
  change (responses (sentFrames k.node.log)).length = _ at hresponses
  rw [hsent, hm.length_eq] at hresponses
  omega

theorem Link.Matched.notification_of_idle {k : PhaseLink server} {returned : List Call}
    {received queued : List Frame} {f : Frame} (hm : Matched k returned received (f :: queued))
    (h : Linked nodeId k) (hidle : k.awaiting = none) : ¬ f.IsResponse := by
  intro hf
  obtain ⟨hsum, hle⟩ := hm.counts h
  rw [hidle] at hle
  have hone : responses (f :: queued) = f :: responses queued := by
    simp [responses, hf]
  rw [hone, List.length_cons] at hsum
  simp only [Option.toList_none, List.length_nil] at hle
  omega

theorem Link.Linked.step (hdistinct : server.Distinct) {k k' : PhaseLink server}
    (h : Linked nodeId k) {a : Act server.keys}
    (hstep : k.step (phases server nodeId) a = some k') : Linked nodeId k' := by
  obtain ⟨n, hsent⟩ := h.sent
  obtain ⟨returned, received, queued, hmatched⟩ := h.matched
  -- a step of the client alone
  have hclient : ∀ {toClient awaiting results} {returned' received' queued'},
      Matched { k with toClient := toClient, awaiting := awaiting, results := results }
        returned' received' queued' →
      Linked nodeId { k with toClient := toClient, awaiting := awaiting, results := results } :=
    fun hm => ⟨h.session, h.wellFormed, h.resting, ⟨n, hsent.le, hsent.placed, hsent.toNode_eq⟩,
      _, _, _, hm⟩
  cases Link.step_cases hstep with
  | refuse call => exact h
  | call call frame hidle hsend =>
    obtain ⟨hwf, rfl⟩ := (call.send_ok_iff frame).mp hsend
    exact h.call hidle hwf
  | deliver frame rest s hto hs =>
    have hdrop := hsent.toNode_eq
    rw [hto] at hdrop
    obtain ⟨m, ms, hms, rfl, rfl⟩ := List.map_eq_cons_iff.mp hdrop.symm
    have hlt : n + 1 ≤ k.messages.length := by
      by_contra hge
      rw [List.drop_of_length_le (by omega)] at hms
      cases hms
    refine h.node hdistinct hs hsent hlt ?_ ?_
    · rw [← List.drop_drop, hms]
      rfl
    · rw [List.take_add, hms, streamOf_append]
      simp [arrivals]
  | node l s hl hs =>
    exact h.node hdistinct hs hsent hsent.le hsent.toNode_eq (by rw [hl, List.append_nil])
  | skip call r rest hcall hnext =>
    cases queued with
    | nil =>
      rw [hmatched.nextFrame_nil] at hnext
      cases hnext
    | cons f queued =>
      obtain ⟨message, hread, -, hchanged⟩ := hmatched.read h.session.justified
      rw [hread] at hnext
      cases hnext
      exact hclient (hmatched.skip (hchanged.mp ⟨r, rfl⟩))
  | finish call message rest hcall hnext hne =>
    cases queued with
    | nil =>
      rw [hmatched.nextFrame_nil] at hnext
      cases hnext
    | cons f queued =>
      obtain ⟨message', hread, hdecode, hchanged⟩ := hmatched.read h.session.justified
      rw [hread] at hnext
      cases hnext
      have hf : f.IsResponse := by
        by_contra hf
        obtain ⟨r, rfl⟩ := hchanged.mpr hf
        exact hne r rfl
      have hresult : (Except.ok message' >>= call.method.accept) = call.outcome f.bytes := by
        rw [Call.outcome, hdecode]
      rw [hresult]
      exact hclient (hmatched.finish hcall hf)
  | hear message rest hidle hnext =>
    cases queued with
    | nil =>
      rw [hmatched.nextFrame_nil] at hnext
      cases hnext
    | cons f queued =>
      obtain ⟨message', hread, -, -⟩ := hmatched.read h.session.justified
      rw [hread] at hnext
      cases hnext
      exact hclient (hmatched.skip (hmatched.notification_of_idle h hidle))

theorem linked_initial (memory : Memory server.keys) :
    Linked nodeId (Link.initial (phases server nodeId) memory) where
  session := ⟨trivial, start_ok memory.generation⟩
  wellFormed m hm := (by cases hm)
  resting _ _ _ h := by rcases h with h | h <;> cases h
  sent := by
    refine ⟨0, Nat.le_refl 0, ⟨[], [], [], rfl, rfl, rfl, rfl, ?_⟩, rfl⟩
    have htask : (Phase.start nodeId : Phase server).task = (programs server nodeId).start :=
      ((phasesHom server nodeId).start_eq).symm
    change (Phase.start nodeId : Phase server).task.FailsIn LocalExit
    rw [htask]
    exact Program.failsIn_bind (server.startup_local nodeId) fun _ => trivial
  matched := ⟨[], [], [], rfl, rfl, rfl, rfl, rfl⟩

theorem linked_of_path (hdistinct : server.Distinct)
    {Q : PhaseLink server → Act server.keys → Prop} {memory : Memory server.keys}
    {acts : List (Act server.keys)} {k : PhaseLink server}
    (hrun : Path (Link.step (phases server nodeId)) Q
      (Link.initial (phases server nodeId) memory) acts k) : Linked nodeId k :=
  hrun.invariant (Linked nodeId) (linked_initial memory) fun _ _ _ h _ hs => h.step hdistinct hs

end Qup.EndToEnd
