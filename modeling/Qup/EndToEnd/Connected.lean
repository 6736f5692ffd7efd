import Qup.EndToEnd.NodeTable
import Qup.EndToEnd.Repl

/-!
# The test node as a world

A client on one connection of the test node, while other clients come, send what
they like and go, and the node's own tasks run. The connection of the client stays
up, and its frames arrive whole. The test node keeps to its key table, and so a
session of the test client against it reads like one against a server.
-/

namespace Qup.EndToEnd
open Foundation Foundation.Routine Foundation.Utf8
open Client (Call)
open Client.Async (Op)
open TestNode (Label Node Sent isChanged messageOf received)

structure NodeLink where
  node : Node
  toNode : List (List UInt8)
  heard : ℕ

inductive NodeAct where
  | deliver
  | node (l : Label)

def Spares (c : ℕ) : Label → Bool
  | .receive d _ | .writerFailed d => d != c
  | _ => true

def nodeServe (c : ℕ) (k : NodeLink) (_ : Unit) : (o : Op) → Option (o.Res × NodeLink)
  | .send call => some (call.method.send.map fun _ => (),
      { k with toNode := k.toNode ++ call.method.send.toOption.toList })
  | .nextMessage => ((k.node.queue c)[k.heard]?).map fun e =>
      (Client.decodeFrame e.frame.frame, { k with heard := k.heard + 1 })

def nodeMove (c : ℕ) (k : NodeLink) : NodeAct → Option NodeLink
  | .deliver =>
    match k.toNode with
    | [] => none
    | frame :: toNode => (k.node.step (.receive c (some frame))).map fun node => { k with node, toNode }
  | .node l => if Spares c l then (k.node.step l).map fun node => { k with node } else none

def nodeWorld (c : ℕ) : World NodeLink Op.Res Unit NodeAct := ⟨nodeServe c, nodeMove c⟩

def connect (s : Node) : NodeLink := ⟨{ s with connections := s.connections ++ [.new] }, [], 0⟩

def responsesIn (queue : List Sent) (n : ℕ) : List Sent :=
  (queue.take n).filter fun e => !isChanged e.frame

/-- The node has received what the client has sent, up to what is on its way, and the client has
read as many responses as it has made exchanges. -/
structure Attends (seed : UInt64) (c : ℕ) (A : List Call → Prop) (k : NodeLink) (talk : Talk) :
    Prop where
  run : ∃ ls rest, Path Node.step (fun _ _ => True) (Node.initial seed) ls k.node ∧
    received c ls ++ rest = talk.calls.map Call.message ∧
      k.toNode = rest.map MessageRef.frame ∧ ∀ m ∈ rest, m.WellFormed .clientToNode
  within : k.heard ≤ (k.node.queue c).length
  heard : (responsesIn (k.node.queue c) k.heard).length = talk.exchanges.length
  allowed : A talk.calls

theorem message_injective {call call' : Call} (h : call.message = call'.message) : call = call' := by
  cases call with
  | write r value =>
    cases call' with
    | write r' value' =>
      obtain ⟨rfl, hvalue⟩ := RequestRef.write.inj (MessageRef.request.inj h)
      have howned := congrArg Client.ownedValue hvalue
      rw [Client.ownedValue_valueRef, Client.ownedValue_valueRef] at howned
      rw [howned]
    | _ => cases h
  | _ => cases call' <;> first | (cases h; rfl) | cases h

section
variable {seed : UInt64} {c : ℕ} {A : List Call → Prop} {k k' : NodeLink} {talk : Talk}

theorem responsesIn_succ {queue : List Sent} {n : ℕ} {e : Sent} (h : queue[n]? = some e) :
    responsesIn queue (n + 1) = responsesIn queue n ++ if isChanged e.frame then [] else [e] := by
  unfold responsesIn
  rw [List.take_add_one, h, Option.toList_some, List.filter_append]
  cases hframe : isChanged e.frame <;> simp [hframe]

theorem responsesIn_append (queue : List Sent) (n : ℕ) : ∃ others,
    (queue.filter fun e => !isChanged e.frame) = responsesIn queue n ++ others :=
  ⟨(queue.drop n).filter fun e => !isChanged e.frame, by
    rw [responsesIn, ← List.filter_append, List.take_append_drop]⟩

theorem Attends.next_response (h : Attends seed c A k talk) {e : Sent}
    (hnext : (k.node.queue c)[k.heard]? = some e) (hresponse : isChanged e.frame = false) :
    ∃ call m, talk.awaiting = some call ∧ Client.decodeFrame e.frame.frame = .ok m ∧
      testNode.Replies call m := by
  obtain ⟨ls, rest, hrun, hreceived, -, -⟩ := h.run
  have hserves := node_serves hrun c
  obtain ⟨owed, hinOrder, -⟩ := hserves.inOrder
  have hlater := responsesIn_succ hnext
  rw [hresponse, if_neg Bool.false_ne_true] at hlater
  obtain ⟨others, hothers⟩ := responsesIn_append (k.node.queue c) (k.heard + 1)
  have hanswers : k.node.answers c = responsesIn (k.node.queue c) k.heard ++ e :: others := by
    rw [Node.answers, hothers, hlater, List.append_assoc, List.singleton_append]
  have hlength := h.heard
  have hcalls : talk.calls.map Call.message = (responsesIn (k.node.queue c) k.heard).map
      (fun e => messageOf e.request) ++ messageOf e.request ::
        (others.map (fun e => messageOf e.request) ++ owed ++ rest) := by
    rw [← hreceived, hinOrder, Node.answered, hanswers]
    simp
  have hat : (talk.calls.map Call.message)[talk.exchanges.length]? = some (messageOf e.request) := by
    rw [hcalls, List.getElem?_append_right (by simp [hlength])]
    simp [hlength]
  obtain ⟨call, hcall, hmessage⟩ := Option.map_eq_some_iff.mp (List.getElem?_map .. ▸ hat)
  have hwaits : talk.awaiting = some call := by
    rw [Talk.calls, List.getElem?_append_right (by simp), List.length_map, Nat.sub_self] at hcall
    cases hawaiting : talk.awaiting with
    | none =>
      rw [hawaiting] at hcall
      cases hcall
    | some call' =>
      rw [hawaiting] at hcall
      exact hcall
  have hmem : e ∈ k.node.answers c := by
    rw [hanswers]
    exact List.mem_append_right _ List.mem_cons_self
  obtain ⟨hwellFormed, call', m, hcall', hm, hreplies⟩ := hserves.responses e hmem
  obtain rfl := message_injective (hcall'.trans hmessage.symm)
  exact ⟨call', m, hwaits, (Client.decodeFrame_frameBytes hwellFormed).trans hm, hreplies⟩

theorem Attends.next_changed (h : Attends seed c A k talk) {e : Sent}
    (hnext : (k.node.queue c)[k.heard]? = some e) {r : UInt16}
    (hframe : e.frame = TestNode.encodeChanged r) :
    Client.decodeFrame e.frame.frame = .ok (.changed r) ∧ testNode.Notifies talk.calls r := by
  obtain ⟨ls, rest, hrun, hreceived, -, -⟩ := h.run
  have hserves := node_serves hrun c
  obtain ⟨owed, hinOrder, -⟩ := hserves.inOrder
  have hsplit := List.take_append_drop k.heard (k.node.queue c)
  obtain ⟨hlt, rfl⟩ := List.getElem?_eq_some_iff.mp hnext
  rw [List.drop_eq_getElem_cons hlt] at hsplit
  obtain ⟨⟨hknown, hobservable⟩, ok, hok, hacknowledges⟩ := hserves.announced _ _ _ r hsplit.symm hframe
  refine ⟨?_, hknown, hobservable, ?_⟩
  · have hwellFormed := hserves.wellFormed _ (List.mem_of_getElem? hnext)
    rw [Client.decodeFrame_frameBytes hwellFormed, hframe]
    rfl
  · -- the acknowledged request is one of the client's
    have hanswer : ok ∈ k.node.answers c := by
      refine List.mem_filter.mpr ⟨List.mem_of_mem_take hok, ?_⟩
      rw [hacknowledges.1]
      rfl
    have hmessage : MessageRef.request (.observe r) ∈ talk.calls.map Call.message := by
      rw [← hreceived, hinOrder]
      refine List.mem_append_left _ (List.mem_append_left _ ?_)
      refine List.mem_map.mpr ⟨ok, hanswer, ?_⟩
      rw [hacknowledges.2]
      rfl
    obtain ⟨call, hcall, heq⟩ := List.mem_map.mp hmessage
    have hobserve : call = .observe r := message_injective heq
    exact hobserve ▸ hcall

theorem Attends.hear (h : Attends seed c A k talk) {e : Sent}
    (hnext : (k.node.queue c)[k.heard]? = some e) :
    testNode.Promises talk .nextMessage (Client.decodeFrame e.frame.frame) ∧
      Attends seed c A { k with heard := k.heard + 1 }
        (talk.hear (Client.decodeFrame e.frame.frame)) := by
  have hlater := responsesIn_succ hnext
  have hwithin : k.heard + 1 ≤ (k.node.queue c).length := (List.getElem?_eq_some_iff.mp hnext).1
  cases hframe : isChanged e.frame with
  | true =>
    rw [hframe, if_pos rfl, List.append_nil] at hlater
    obtain ⟨r, hr⟩ : ∃ r, e.frame = TestNode.encodeChanged r := by
      cases hmessage : e.frame with
      | changed r => exact ⟨r, rfl⟩
      | _ =>
        rw [hmessage] at hframe
        cases hframe
    obtain ⟨hdecode, hnotifies⟩ := h.next_changed hnext hr
    rw [hdecode]
    exact ⟨.inl ⟨r, rfl, hnotifies⟩, h.run, hwithin, (congrArg List.length hlater).trans h.heard,
      h.allowed⟩
  | false =>
    rw [hframe, if_neg Bool.false_ne_true] at hlater
    obtain ⟨call, m, hcall, hdecode, hreplies⟩ := h.next_response hnext hframe
    rw [hdecode]
    have hheard : talk.hear (.ok m) = .idle (talk.exchanges ++ [(call, m)]) := by
      obtain ⟨exchanges, awaiting⟩ := talk
      cases hcall
      exact Talk.hear_other hreplies.ne_changed
    have hcalls : (Talk.idle (talk.exchanges ++ [(call, m)])).calls = talk.calls := by
      rw [Talk.calls_idle, List.map_append, Talk.calls, hcall]
      rfl
    rw [hheard]
    refine ⟨.inr ⟨call, m, hcall, rfl, hreplies⟩, ?_, hwithin, ?_, hcalls ▸ h.allowed⟩
    · rw [hcalls]
      exact h.run
    · change (responsesIn (k.node.queue c) (k.heard + 1)).length = _
      rw [hlater, List.length_append, h.heard]
      simp [Talk.idle]

theorem Attends.send (h : Attends seed c A k talk) {call : Call} (hidle : talk.awaiting = none)
    (hcall : A (talk.calls ++ [call])) :
    Attends seed c A { k with toNode := k.toNode ++ call.method.send.toOption.toList }
      ((talking A).next talk (.send call) (call.method.send.map fun _ => ())) := by
  have hcalls : talk.calls = talk.exchanges.map Prod.fst := by
    rw [Talk.calls, hidle, Option.toList_none, List.append_nil]
  cases hsend : call.method.send with
  | error error =>
    refine ⟨?_, h.within, h.heard, h.allowed⟩
    change ∃ ls rest, _ ∧ _ ∧ k.toNode ++ [] = _ ∧ _
    rw [List.append_nil]
    exact h.run
  | ok frame =>
    obtain ⟨hwellFormed, rfl⟩ := (call.send_ok_iff frame).mp hsend
    obtain ⟨ls, rest, hrun, hreceived, hflight, hrest⟩ := h.run
    have hcalls' : Talk.calls ⟨talk.exchanges, some call⟩ = talk.calls ++ [call] := by
      rw [hcalls]
      rfl
    refine ⟨⟨ls, rest ++ [call.message], hrun, ?_, ?_, ?_⟩, h.within, h.heard, ?_⟩
    · change _ = (Talk.calls ⟨talk.exchanges, some call⟩).map Call.message
      rw [hcalls', List.map_append, ← hreceived, List.append_assoc]
      rfl
    · change k.toNode ++ [call.message.frame] = _
      rw [hflight, List.map_append]
      rfl
    · intro m hm
      rcases List.mem_append.mp hm with hm | hm
      · exact hrest m hm
      · rw [List.mem_singleton.mp hm]
        exact hwellFormed
    · change A (Talk.calls ⟨talk.exchanges, some call⟩)
      rw [hcalls']
      exact hcall

theorem Attends.step (h : Attends seed c A k talk) {ls : List Label} {rest later : List MessageRef}
    (hrun : Path Node.step (fun _ _ => True) (Node.initial seed) ls k.node)
    (hreceived : received c ls ++ rest = talk.calls.map Call.message)
    (hrest : ∀ m ∈ rest, m.WellFormed .clientToNode) {l : Label} {node : Node}
    (hsplit : rest = (l.message c).toList ++ later) (hstep : k.node.step l = some node) :
    Attends seed c A { k with node := node, toNode := later.map MessageRef.frame } talk := by
  obtain ⟨more, hmore⟩ := TestNode.queue_of_step hstep c
  refine ⟨⟨ls ++ [l], later, .snoc hrun trivial hstep, ?_, rfl, fun m hm => hrest m ?_⟩, ?_, ?_,
    h.allowed⟩
  · rw [TestNode.received_concat, List.append_assoc, ← hsplit]
    exact hreceived
  · rw [hsplit]
    exact List.mem_append_right _ hm
  · change k.heard ≤ (node.queue c).length
    rw [hmore, List.length_append]
    exact Nat.le_add_right_of_le h.within
  · change (responsesIn (node.queue c) k.heard).length = _
    rw [hmore, responsesIn, List.take_append_of_le_length h.within]
    exact h.heard

end

/-- The test node keeps to its key table, whatever its other clients and its own tasks do. -/
theorem nodeWorld_keeps (seed : UInt64) (c : ℕ) (A : List Call → Prop) :
    (nodeWorld c).Keeps (talking A) testNode.Promises (Attends seed c A) where
  serve := by
    intro k k' talk given o reply h hallows hserve
    cases o with
    | send call =>
      cases hserve
      exact ⟨rfl, h.send hallows.1 hallows.2⟩
    | nextMessage =>
      obtain ⟨e, hnext, hpair⟩ := Option.map_eq_some_iff.mp hserve
      obtain ⟨rfl, rfl⟩ := Prod.mk.inj hpair
      exact h.hear hnext
  move := by
    intro k k' talk a h hmove
    obtain ⟨ls, rest, hrun, hreceived, hflight, hrest⟩ := h.run
    cases a with
    | deliver =>
      cases rest with
      | nil =>
        simp only [nodeWorld, nodeMove, hflight, List.map_nil] at hmove
        cases hmove
      | cons m later =>
        simp only [nodeWorld, nodeMove, hflight, List.map_cons] at hmove
        obtain ⟨node, hstep, rfl⟩ := Option.map_eq_some_iff.mp hmove
        have hread : TestNode.readNextMessage m.frame = some m :=
          (TestNode.readNextMessage_eq_some_iff _ _).mpr ⟨hrest m List.mem_cons_self, rfl⟩
        have hmessage : Label.message c (.receive c (some m.frame)) = some m := (if_pos rfl).trans hread
        exact h.step hrun hreceived hrest (by rw [hmessage]; rfl) hstep
    | node l =>
      have hmove' : (if Spares c l then (k.node.step l).map fun node => { k with node } else none) =
        some k' := hmove
      split_ifs at hmove' with hspares
      obtain ⟨node, hstep, rfl⟩ := Option.map_eq_some_iff.mp hmove'
      have hmessage : l.message c = none := by
        cases l with
        | receive d frame =>
          cases frame with
          | none => rfl
          | some frame => exact if_neg (bne_iff_ne.mp hspares)
        | _ => rfl
      have hsplit : rest = (l.message c).toList ++ rest := by rw [hmessage]; rfl
      have hstepped := h.step hrun hreceived hrest hsplit hstep
      rw [← hflight] at hstepped
      exact hstepped

theorem attends_connect {seed : UInt64} {ls : List Label} {s : Node}
    (hrun : Path Node.step (fun _ _ => True) (Node.initial seed) ls s) {A : List Call → Prop}
    (hA : A []) : Attends seed s.connections.length A (connect s) (.idle []) := by
  have hnone : s.connections[s.connections.length]? = none := List.getElem?_eq_none le_rfl
  have hqueue : s.queue s.connections.length = [] := by rw [Node.queue, hnone, Option.elim_none]
  obtain ⟨rest, howes, hreceived⟩ := TestNode.responses_in_order hrun s.connections.length
  have hrest : rest = [] := howes.rests (.inl (by rw [Node.stage, hnone, Option.map_none]))
  have hanswered : s.answered s.connections.length = [] := by
    rw [Node.answered, Node.answers, hqueue]
    rfl
  rw [hrest, hanswered] at hreceived
  refine ⟨⟨ls ++ [.accept], [], .snoc hrun trivial rfl, ?_, rfl, fun m hm => ?_⟩, Nat.zero_le _, ?_, hA⟩
  · rw [TestNode.received_concat, hreceived]
    rfl
  · cases hm
  · simp [connect, responsesIn, Talk.idle]

theorem Attends.answered {seed : UInt64} {c : ℕ} {A : List Call → Prop} {k : NodeLink} {talk : Talk}
    (h : Attends seed c A k talk) (hidle : talk.awaiting = none) :
    k.node.answered c = talk.exchanges.map fun x => x.1.message := by
  obtain ⟨ls, rest, hrun, hreceived, -, -⟩ := h.run
  obtain ⟨owed, hinOrder, -⟩ := (node_serves hrun c).inOrder
  obtain ⟨others, hothers⟩ := responsesIn_append (k.node.queue c) k.heard
  have hcalls : talk.calls.map Call.message = talk.exchanges.map fun x => x.1.message := by
    rw [Talk.calls, hidle, Option.toList_none, List.append_nil, List.map_map]
    rfl
  rw [hinOrder, List.append_assoc, hcalls] at hreceived
  have hlength : (k.node.answered c).length = talk.exchanges.length + others.length := by
    rw [Node.answered, List.length_map, Node.answers, hothers, List.length_append, h.heard]
  have htotal := congrArg List.length hreceived
  rw [List.length_append, List.length_map, hlength] at htotal
  have hnil : owed ++ rest = [] := List.eq_nil_of_length_eq_zero (by omega)
  rw [← hreceived, hnil, List.append_nil]

abbrev NodeSession := Hosted (Console NodeLink) Cli.Op.Res Cli.Failure Unit

def sessionStep (c : ℕ) : NodeSession → Beat (Given Unit) NodeAct → Option NodeSession :=
  Hosted.step (consoleWorld (nodeWorld c))

def sessionStart (s : Node) : NodeSession := ⟨⟨connect s, []⟩, Cli.runRepl⟩

/-- What a session on connection `c` has shown and returned, and what the node has answered. -/
structure NodeTranscript (c : ℕ) (h : NodeSession) : Prop where
  prompt : ∀ go, h.routine = .act .readLine go → ∃ done, Transcript testNode h.world.shown done ∧
    h.world.node.node.answered c = done.map fun x => x.1.message
  ended : h.routine = .ret () → ∃ done shown, Transcript testNode shown done ∧
    (h.world.node.node.answered c = done.map fun x => x.1.message) ∧
      (h.world.shown = shown ++ [.read .eof, .printed .newline] ∨
        h.world.shown = shown ++ [.read (.command .exit)])
  failed : ∀ failure, h.routine = .fail failure → ∃ done shown command exchanges,
    Transcript testNode shown done ∧ h.world.shown = shown ++ [.read (.command command)] ∧
      Fails testNode command failure exchanges ∧
        h.world.node.node.answered c = (done ++ exchanges).map fun x => x.1.message

/-- Against the test node too, with any other clients: every command of a session is answered
with its own answer, and only the user ends the session. -/
theorem node_session {seed : UInt64} {ls : List Label} {s : Node}
    (hbefore : Path Node.step (fun _ _ => True) (Node.initial seed) ls s)
    {beats : List (Beat (Given Unit) NodeAct)} {h : NodeSession}
    (hrun : Path (sessionStep s.connections.length) (fun _ _ => True) (sessionStart s) beats h) :
    NodeTranscript s.connections.length h := by
  obtain ⟨visit, ⟨hattends, hshown, -⟩, hfollows⟩ := console_run
    (nodeWorld_keeps seed s.connections.length Any) free_lasting trivial
    (attends_connect hbefore trivial) (runRepl_follows testNode) hrun
  refine ⟨fun go hgo => ?_, fun hret => ?_, fun failure hfail => ?_⟩
  · rw [hgo] at hfollows
    obtain ⟨done, shown, rfl, htranscript⟩ := hfollows.1
    exact ⟨done, hshown ▸ htranscript, hattends.answered rfl⟩
  · rw [hret] at hfollows
    obtain ⟨done, shown, htranscript, ⟨-, hvisit⟩ | ⟨_, _, _, -, -, hr⟩⟩ := hfollows
    · rcases hvisit with rfl | rfl
      · exact ⟨done, shown, htranscript, hattends.answered rfl, .inl hshown⟩
      · exact ⟨done, shown, htranscript, hattends.answered rfl, .inr hshown⟩
    · cases hr
  · rw [hfail] at hfollows
    obtain ⟨done, shown, htranscript, ⟨hr, -⟩ | ⟨command, _, exchanges, hfails, rfl, hr⟩⟩ := hfollows
    · cases hr
    · cases hr
      exact ⟨done, shown, command, exchanges, htranscript, hshown, hfails, hattends.answered rfl⟩

def voltageSelector : Str := TestNode.literal "0" (by decide)

def typeObserve : List (Beat (Given Unit) NodeAct) :=
  [.unroll, .request (.terminal (.command (.observe voltageSelector))), .move (.node (.register 1)),
    .request (.network ()), .unroll, .move .deliver] ++
    List.replicate 3 (.move (.node (.act (.connection 1)))) ++
    [.request (.network ()), .request (.terminal .eof)]

def typeRead : List (Beat (Given Unit) NodeAct) :=
  (TestNode.updating ++ List.replicate 2 (Label.act .voltage)).map (fun l => .move (.node l)) ++
    [.unroll, .request (.terminal (.command (.read none))), .request (.network ()),
      .request (.terminal .eof), .unroll]

theorem node_session_voltage : ∃ (s : Node) (h : NodeSession),
    Path Node.step (fun _ _ => True) (Node.initial 0) TestNode.observing s ∧
      Path (sessionStep s.connections.length) (fun _ _ => True) (sessionStart s)
          (typeObserve ++ typeRead) h ∧
        h.routine.next = some .readLine ∧
          h.world.shown = [.read (.command (.observe voltageSelector)), .printed (.answer 0 .ok),
            .read (.command (.read none)), .printed (.message (.changed 0))] ∧
              NodeTranscript s.connections.length h := by
  have hrun : ((runLabels Node.step (Node.initial 0) TestNode.observing).bind fun s =>
      (runLabels (sessionStep s.connections.length) (sessionStart s) (typeObserve ++ typeRead)).map
        fun h => (h.routine.next, h.world.shown)) = some (some .readLine,
          [.read (.command (.observe voltageSelector)), .printed (.answer 0 .ok),
            .read (.command (.read none)), .printed (.message (.changed 0))]) := by
    decide +kernel
  obtain ⟨s, hs, hsession⟩ := Option.bind_eq_some_iff.mp hrun
  obtain ⟨h, hh, hend⟩ := Option.map_eq_some_iff.mp hsession
  obtain ⟨hprompt, hshown⟩ := Prod.mk.inj hend
  have hbefore := Path.of_runLabels hs
  have hpath := Path.of_runLabels hh
  exact ⟨s, h, hbefore, hpath, hprompt, hshown, node_session hbefore hpath⟩

end Qup.EndToEnd
