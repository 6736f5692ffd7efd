import Qup.EndToEnd.Calls
import Qup.EndToEnd.Follow
import Qup.Embassy.Rest
import Qup.Embassy.Serves

/-!
# Follow mode does not settle on a stale value

The notifications that a call drops arrive before its response, so a `GET` that
drops one reads the value after the update that the notification is for. What is
left is the order of the log: a value is stored, its generation incremented and
the signal rung before the notification is sent, and the last notification that
has no response behind it is one that `next_message` will return.
-/

namespace Qup.EndToEnd
open Foundation Foundation.Utf8 Embassy Link
open Client (Call Answer ClientError Message ownedValue)

variable {N : ℕ} {server : Server N} {nodeId : Str}

def Link.heard {P U : Type} (k : Link server P U) : List Frame :=
  (sentFrames k.node.log).take ((sentFrames k.node.log).length - k.toClient.length)

theorem Link.Matched.heard_eq {k : PhaseLink server} {returned : List Call}
    {received queued : List Frame} (h : Matched k returned received queued) :
    k.heard = received := by
  rw [heard, h.sent_eq, h.toClient_eq, List.length_append, List.length_map, Nat.add_sub_cancel]
  exact List.take_left

/-- A `CHANGED` of the key has been read and no response after it. -/
def unheeded (keyref : UInt16) (frames : List Frame) : Bool :=
  frames.foldl (fun u f => if f.IsResponse then false else u || decide (f = changedFrame keyref))
    false

theorem unheeded_append_singleton (keyref : UInt16) (frames : List Frame) (f : Frame) :
    unheeded keyref (frames ++ [f]) =
      if f.IsResponse then false else unheeded keyref frames || decide (f = changedFrame keyref) := by
  rw [unheeded, List.foldl_append]
  rfl

theorem not_mem_of_unheeded {keyref : UInt16} {older newer : List Frame}
    (hnewer : ∀ f ∈ newer, ¬ f.IsResponse) (h : unheeded keyref (older ++ newer) = false) :
    changedFrame keyref ∉ newer := by
  induction newer using List.reverseRecOn with
  | nil => exact List.not_mem_nil
  | append_singleton newer f ih =>
    have hf : ¬ f.IsResponse := hnewer f (by simp)
    rw [← List.append_assoc, unheeded_append_singleton, if_neg hf, Bool.or_eq_false_iff] at h
    intro hmem
    rcases List.mem_append.mp hmem with hmem | hmem
    · exact ih (fun g hg => hnewer g (List.mem_append_left _ hg)) h.1 hmem
    · rw [List.mem_singleton] at hmem
      exact absurd hmem.symm (of_decide_eq_false h.2)

theorem Link.Linked.heard_node {k : PhaseLink server} (h : Linked nodeId k)
    {l : Label server.keys} {s : PhaseSys server}
    (hstep : k.node.step (phases server nodeId) l = some s) (toNode : List (List UInt8)) :
    ({ k with
      node := s
      toNode := toNode
      toClient := k.toClient ++ (newFrames k.node s).map Frame.bytes } : PhaseLink server).heard =
        k.heard := by
  obtain ⟨returned, received, queued, hmatched⟩ := h.matched
  rw [(hmatched.node hstep toNode).heard_eq, hmatched.heard_eq]

theorem Link.Linked.heard_read {k : PhaseLink server} (h : Linked nodeId k)
    {message : Except ClientError Message} {rest : List (List UInt8)}
    (hnext : nextFrame k.toClient = some (message, rest)) :
    ∃ f m, message = .ok m ∧ Client.decodeFrame f.bytes = .ok m ∧
      ((∃ r, m = .changed r) ↔ ¬ f.IsResponse) ∧
        ∀ k' : PhaseLink server, k'.node = k.node → k'.toClient = rest → k'.heard = k.heard ++ [f] := by
  obtain ⟨returned, received, queued, hmatched⟩ := h.matched
  cases queued with
  | nil =>
    rw [hmatched.nextFrame_nil] at hnext
    cases hnext
  | cons f queued =>
    obtain ⟨m, hread, hdecode, hchanged⟩ := hmatched.read h.session.justified
    rw [hread] at hnext
    cases hnext
    refine ⟨f, m, rfl, hdecode, hchanged, fun k' hnode hto => ?_⟩
    rw [hmatched.heard_eq, heard, hnode, hto, hmatched.sent_eq, List.length_append, List.length_cons,
      List.length_map]
    have hlength : received.length + (queued.length + 1) - queued.length =
        (received ++ [f]).length := by
      rw [List.length_append, List.length_singleton]
      omega
    have hassoc : received ++ f :: queued = (received ++ [f]) ++ queued := by
      rw [List.append_assoc, List.singleton_append]
    rw [hlength, hassoc]
    exact List.take_left

theorem changed_of_decode {f : Frame} {r keyref : UInt16}
    (hdecode : Client.decodeFrame f.bytes = .ok (.changed r)) (hf : f = changedFrame keyref) :
    r = keyref := by
  have hframe : f.bytes = (MessageRef.changed keyref).frame := by rw [hf]; rfl
  have hwf : (MessageRef.changed keyref).WellFormed .nodeToClient :=
    ⟨changed_legal, trivial, by simp [MessageRef.payload]⟩
  rw [hframe, Client.decodeFrame_frameBytes hwf] at hdecode
  exact (Message.changed.inj (Except.ok.inj hdecode)).symm

def issued (pre : List Call) (keyref : UInt16) (n : ℕ) : List Call :=
  pre ++ .observe keyref :: List.replicate n (.get keyref)

theorem issued_succ (pre : List Call) (keyref : UInt16) (n : ℕ) :
    issued pre keyref n ++ [.get keyref] = issued pre keyref (n + 1) := by
  rw [issued, issued, List.replicate_succ', List.append_assoc, List.cons_append]

def Watching (pre : List Call) (keyref : UInt16) (s : PhaseFollow server) : Prop :=
  match s.mode with
  | .resolved => s.link.calls = pre ∧ s.link.awaiting = none ∧ s.printed = []
  | .observing => s.link.calls = issued pre keyref 0 ∧ s.printed = []
  | .following => s.link.calls = issued pre keyref s.printed.length ∧ s.link.awaiting = none ∧
      unheeded keyref s.link.heard = false ∧
        ∀ v, s.printed.getLast? = some v → s.link.results.getLast? = some (.ok (.value v))
  | .changed => s.link.calls = issued pre keyref s.printed.length ∧ s.link.awaiting = none
  | .getting => s.link.calls = issued pre keyref (s.printed.length + 1)
  | .returned => True

theorem Watching.of_node {pre : List Call} {keyref : UInt16} {s : PhaseFollow server}
    (h : Watching pre keyref s) {k : PhaseLink server} (hcalls : k.calls = s.link.calls)
    (hawaiting : k.awaiting = s.link.awaiting) (hresults : k.results = s.link.results)
    (hheard : k.heard = s.link.heard) : Watching pre keyref { s with link := k } := by
  obtain ⟨link, mode, printed⟩ := s
  cases mode with
  | returned => trivial
  | _ => simpa only [Watching, hcalls, hawaiting, hresults, hheard] using h

theorem Watching.client {pre : List Call} {keyref : UInt16} {s s' : PhaseFollow server}
    (hlinked : Linked nodeId s.link) (h : Watching pre keyref s)
    (hturn : Follow.ClientTurn keyref s s') : Watching pre keyref s' := by
  -- the frame that ends a call
  have hresponse : ∀ {message rest} {k' : PhaseLink server},
      nextFrame s.link.toClient = some (message, rest) → (∀ r, message ≠ .ok (.changed r)) →
        k'.node = s.link.node → k'.toClient = rest → unheeded keyref k'.heard = false := by
    intro message rest k' hnext hne hnode hto
    obtain ⟨f, m, rfl, hdecode, hchanged, hheard⟩ := hlinked.heard_read hnext
    have hf : f.IsResponse := by
      by_contra hf
      obtain ⟨r, rfl⟩ := hchanged.mpr hf
      exact hne r rfl
    rw [hheard k' hnode hto, unheeded_append_singleton, if_pos hf]
  cases hturn with
  | returned => trivial
  | observe k printed frame => exact ⟨congrArg (· ++ _) h.1, h.2.2⟩
  | get k printed frame =>
    change k.calls ++ [.get keyref] = issued pre keyref (printed.length + 1)
    rw [h.1, issued_succ]
  | skip k mode printed r rest hmode hnext => rcases hmode with rfl | rfl <;> exact h
  | observed k printed answer message rest hnext hne =>
    obtain ⟨hcalls, hprinted⟩ := h
    have hnil : printed = [] := hprinted
    subst hnil
    exact ⟨hcalls, rfl, hresponse hnext hne rfl rfl, nofun⟩
  | got k printed value message rest hnext hne =>
    refine ⟨?_, rfl, hresponse hnext hne rfl rfl, fun v hv => ?_⟩
    · rw [List.length_append]
      exact h
    · rw [List.getLast?_append, List.getLast?_singleton, Option.some_or] at hv ⊢
      rw [Option.some.inj hv]
  | heed k printed rest => exact ⟨h.1, h.2.1⟩
  | pass k printed r rest hr hnext =>
    obtain ⟨hcalls, hidle, hheeded, hlast⟩ := h
    obtain ⟨f, m, hm, hdecode, hchanged, hheard⟩ := hlinked.heard_read hnext
    cases hm
    have hf : ¬ f.IsResponse := hchanged.mp ⟨r, rfl⟩
    have hread : ({ k with toClient := rest } : PhaseLink server).heard = k.heard ++ [f] :=
      hheard { k with toClient := rest } rfl rfl
    refine ⟨hcalls, hidle, ?_, hlast⟩
    rw [hread, unheeded_append_singleton, if_neg hf, hheeded, Bool.false_or]
    exact decide_eq_false fun hframe => hr (changed_of_decode hdecode hframe)

theorem Watching.step {pre : List Call} {keyref : UInt16} {s s' : PhaseFollow server}
    (hlinked : Linked nodeId s.link) (h : Watching pre keyref s) {t : Turn server.keys}
    (hstep : s.step (phases server nodeId) keyref t = some s') : Watching pre keyref s' := by
  cases t with
  | client => exact h.client hlinked (Follow.clientTurn_of_step hstep)
  | deliver =>
    obtain ⟨k, hk, rfl⟩ := Option.map_eq_some_iff.mp hstep
    cases Link.step_cases hk with
    | deliver frame rest t hto ht =>
      exact h.of_node rfl rfl rfl (hlinked.heard_node ht rest)
  | node l =>
    obtain ⟨k, hk, rfl⟩ := Option.map_eq_some_iff.mp hstep
    cases Link.step_cases hk with
    | node l t hl ht => exact h.of_node rfl rfl rfl (hlinked.heard_node ht _)

def Lookup : Call → Prop
  | .keyCount => True
  | .key _ => True
  | _ => False

section
variable {k : PhaseLink server} {pre : List Call} {keyref : UInt16} {n : ℕ} {i : Fin N}

theorem position_of_observe (h : Linked nodeId k) (hpre : ∀ call ∈ pre, Lookup call)
    (hcalls : k.calls = issued pre keyref n) {p : ℕ} {q : IncomingRequest}
    (hserved : (servedRequests k.node.log)[p]? = some q)
    (hq : ∃ r, q = .observe r ∨ q = .unobserve r) : p = pre.length := by
  obtain ⟨call, hcall, hincoming⟩ := call_at h hserved
  rw [hcalls, issued] at hcall
  rcases Nat.lt_trichotomy p pre.length with hlt | heq | hgt
  · rw [List.getElem?_append_left hlt] at hcall
    have hlookup := hpre call (List.mem_of_getElem? hcall)
    obtain ⟨r, rfl | rfl⟩ := hq <;> cases call <;> first | exact hlookup.elim | cases hincoming
  · exact heq
  · rw [List.getElem?_append_right (by omega)] at hcall
    obtain ⟨d, hd⟩ : ∃ d, p - pre.length = d + 1 := ⟨p - pre.length - 1, by omega⟩
    rw [hd, List.getElem?_cons_succ, List.getElem?_replicate] at hcall
    split_ifs at hcall
    cases hcall
    obtain ⟨r, rfl | rfl⟩ := hq <;> cases hincoming

theorem subscribed_of_lookups (h : Linked nodeId k) (hpre : ∀ call ∈ pre, Lookup call)
    (hcalls : k.calls = issued pre keyref n) {newer older : List (Event server.keys)}
    (hlog : k.node.log = newer ++ older) (hle : (exchanges older).length ≤ pre.length)
    (r : UInt16) : subscribed r (exchanges older) = false := by
  by_contra hsub
  rw [Bool.not_eq_false] at hsub
  obtain ⟨later, f, earlier, heq, -⟩ := exists_observe_of_subscribed hsub
  have hjust : Justified (Allowed server nodeId) (newer ++ older) := hlog ▸ h.session.justified
  have hserved : (servedRequests k.node.log)[earlier.length]? = some (.observe r) := by
    rw [hlog, servedRequests_append, servedRequests_eq hjust.older, heq]
    simp
  have hposition := position_of_observe h hpre hcalls hserved ⟨r, Or.inl rfl⟩
  rw [heq, List.length_append, List.length_cons] at hle
  omega

theorem recorded_once (h : Linked nodeId k) (hpre : ∀ call ∈ pre, Lookup call)
    (hcalls : k.calls = issued pre keyref n) {later newer older : List (Event server.keys)}
    (hlog : k.node.log = later ++ (newer ++ older)) (hrec : recorded i older = true) :
    recorded i (newer ++ older) = true ∧ recordings i (newer ++ older) = recordings i older := by
  induction newer generalizing later with
  | nil => exact ⟨hrec, rfl⟩
  | cons e newer ih =>
    have hsplit : k.node.log = (later ++ [e]) ++ (newer ++ older) := by
      rw [hlog, List.append_assoc, List.singleton_append, List.cons_append]
    obtain ⟨hnow, hsame⟩ := ih hsplit
    cases e with
    | readGeneration j g =>
      rw [List.cons_append, recorded, recordings]
      by_cases hji : j = i
      · subst hji
        cases hpend : pendingRequest (newer ++ older) with
        | none => simpa using ⟨hnow, hsame⟩
        | some q =>
          have hjust : Justified (Allowed server nodeId) k.node.log := h.session.justified
          have hread : Justified (Allowed server nodeId)
              (later ++ .readGeneration j g :: (newer ++ older)) := hlog ▸ hjust
          obtain ⟨hrecorded, r, hq⟩ := hread.allowed_at q hpend
          have hserved := served_at (hsplit ▸ hjust) hpend
          rw [← hsplit] at hserved
          have hposition := position_of_observe h hpre hcalls hserved ⟨r, hq⟩
          rw [subscribed_of_lookups h hpre hcalls hsplit hposition.le, hnow] at hrecorded
          cases hrecorded
      · rw [if_neg hji, if_neg fun hand => hji hand.1]
        exact ⟨hnow, hsame⟩
    | _ => exact ⟨hnow, hsame⟩

end

section
variable {log newer older : List (Event server.keys)} {i : Fin N}

theorem exists_newest_updated (h : ∃ a, Event.updated a i ∈ log) :
    ∃ newer a older, log = newer ++ .updated a i :: older ∧ ∀ b, Event.updated b i ∉ newer := by
  induction log with
  | nil =>
    obtain ⟨a, ha⟩ := h
    cases ha
  | cons e log ih =>
    by_cases he : ∃ a, e = .updated a i
    · obtain ⟨a, rfl⟩ := he
      exact ⟨[], a, log, rfl, fun b => List.not_mem_nil⟩
    · obtain ⟨a, ha⟩ := h
      have hmem := (List.mem_cons.mp ha).resolve_left fun heq => he ⟨a, heq.symm⟩
      obtain ⟨newer, b, older, rfl, hnone⟩ := ih ⟨a, hmem⟩
      refine ⟨e :: newer, b, older, rfl, fun c hc => ?_⟩
      rcases List.mem_cons.mp hc with rfl | hc
      · exact he ⟨c, rfl⟩
      · exact hnone c hc

theorem exists_updated_of_unbumped {a : Actor} {v : (server.keys i).type.Value}
    (h : unbumped i (newer ++ .stored a i v :: older) = false) : ∃ b, Event.updated b i ∈ newer := by
  induction newer with
  | nil =>
    rw [List.nil_append, unbumped, if_pos rfl] at h
    cases h
  | cons e newer ih =>
    have hskip : unbumped i (newer ++ .stored a i v :: older) = false →
        ∃ b, Event.updated b i ∈ e :: newer := by
      intro hrest
      obtain ⟨b, hb⟩ := ih hrest
      exact ⟨b, List.mem_cons_of_mem _ hb⟩
    cases e with
    | stored b j w =>
      rw [List.cons_append, unbumped] at h
      split_ifs at h
      exact hskip h
    | updated b j =>
      by_cases hji : j = i
      · subst hji
        exact ⟨b, List.mem_cons_self⟩
      · rw [List.cons_append, unbumped, if_neg hji] at h
        exact hskip h
    | _ => exact hskip h

theorem not_isResponse_of_length (h : Justified (Allowed server nodeId) (newer ++ older))
    (hlength : (exchanges (newer ++ older)).length ≤ (exchanges older).length) {f : Frame}
    (hf : .sent f ∈ newer) : ¬ f.IsResponse := by
  intro hresponse
  obtain ⟨later, between, rfl⟩ := List.append_of_mem hf
  rw [List.append_assoc, List.cons_append] at h hlength
  have hallowed := h.allowed_at
  rw [Allowed, if_pos hresponse] at hallowed
  obtain ⟨q, hq, -⟩ := hallowed
  have hmono := exchanges_length_mono later (.sent f :: (between ++ older))
  have hbetween := exchanges_length_mono between older
  rw [exchanges, if_pos hresponse, hq, List.length_cons] at hmono
  omega

theorem mem_sentFrames {f : Frame} : f ∈ sentFrames log ↔ .sent f ∈ log := by
  induction log with
  | nil => exact ⟨nofun, nofun⟩
  | cons e log ih =>
    cases e with
    | sent g =>
      rw [sentFrames, List.mem_append, List.mem_singleton, List.mem_cons, ih, or_comm]
      exact or_congr_left ⟨fun h => congrArg _ h, fun h => Event.sent.inj h⟩
    | _ => simpa [sentFrames] using ih

end

/-- Nothing can move without a further update. -/
structure Follow.Settled (nodeId : Str) (s : FollowMode server) : Prop where
  toNode_nil : s.link.toNode = []
  toClient_nil : s.link.toClient = []
  atRest : s.link.node.AtRest (programs server nodeId)
  following : s.mode = .following

def Event.Accepts {keys : Fin N → ErasedKey} (i : Fin N) : Event keys → Prop
  | .stored _ j _ => j = i
  | .updated _ j => j = i
  | _ => False

/-- What is known of a client that follows key `i` when nothing can move. -/
structure Heeded (nodeId : Str) (m₀ : Memory server.keys) (pre : List Call) (i : Fin N)
    (s : PhaseFollow server) : Prop where
  linked : Linked nodeId s.link
  calls_eq : s.link.calls = issued pre (server.keys i).keyref s.printed.length
  idle : s.link.awaiting = none
  empty : s.link.toClient = []
  heeded : unheeded (server.keys i).keyref (sentFrames s.link.node.log) = false
  last : ∀ v, s.printed.getLast? = some v → s.link.results.getLast? = some (.ok (.value v))
  stored : Stored m₀ s.link.node.memory s.link.node.log
  between : Justified BetweenRequests s.link.node.log
  announced : unannounced i s.link.node.log = false
  bumped : unbumped i s.link.node.log = false

namespace Heeded
variable {m₀ : Memory server.keys} {pre : List Call} {i : Fin N} {s : PhaseFollow server}

theorem justified (h : Heeded nodeId m₀ pre i s) :
    Justified (Allowed server nodeId) s.link.node.log := h.linked.session.justified

theorem counts (h : Heeded nodeId m₀ pre i s) :
    s.link.results.length = s.link.calls.length ∧
      (exchanges s.link.node.log).length = s.link.calls.length := by
  obtain ⟨returned, received, queued, hmatched⟩ := h.linked.matched
  have hqueued : queued = [] := by
    have hto := hmatched.toClient_eq
    rw [h.empty] at hto
    exact List.map_eq_nil_iff.mp hto.symm
  have hcalls := hmatched.calls_eq
  rw [h.idle, Option.toList_none, List.append_nil] at hcalls
  have hexchanges := (hmatched.counts h.linked).1
  rw [hqueued] at hexchanges
  constructor
  · rw [hmatched.results_eq, List.length_zipWith, hmatched.length_eq, hcalls, Nat.min_self]
  · rw [← hexchanges, hcalls]
    rfl

theorem changed_not_mem (h : Heeded nodeId m₀ pre i s) {newer older : List (Event server.keys)}
    (hlog : s.link.node.log = newer ++ older)
    (hlength : (exchanges s.link.node.log).length ≤ (exchanges older).length) :
    .sent (changedFrame (server.keys i).keyref) ∉ newer := by
  have hjust : Justified (Allowed server nodeId) (newer ++ older) := hlog ▸ h.justified
  have hheeded := h.heeded
  rw [hlog, sentFrames_append] at hheeded
  rw [hlog] at hlength
  refine fun hmem => not_mem_of_unheeded (fun f hf => ?_) hheeded (mem_sentFrames.mpr hmem)
  exact not_isResponse_of_length hjust hlength (mem_sentFrames.mp hf)

/-- A notification of the key comes after the response to the `OBSERVE`, and a
response comes after the notification. -/
theorem printed_of_changed (h : Heeded nodeId m₀ pre i s) (hpre : ∀ call ∈ pre, Lookup call)
    (hmem : .sent (changedFrame (server.keys i).keyref) ∈ s.link.node.log) :
    ¬ server.keyCount ≤ (server.keys i).keyref ∧ s.printed ≠ [] := by
  obtain ⟨newer, older, hlog⟩ := List.append_of_mem hmem
  have hjust := h.justified
  rw [hlog] at hjust
  have hallowed := hjust.allowed_at
  rw [Allowed, if_neg (not_isResponse_changedFrame _)] at hallowed
  obtain ⟨j, hj, hannounces⟩ := hallowed
  rw [changedFrame_injective hj]
  refine ⟨hannounces.known, ?_⟩
  have hsplit : s.link.node.log = (newer ++ [.sent (changedFrame (server.keys i).keyref)]) ++ older := by
    rw [hlog, List.append_assoc, List.singleton_append]
  have hobserved : pre.length < (exchanges older).length := by
    by_contra hle
    have hsub := subscribed_of_lookups h.linked hpre h.calls_eq hsplit (Nat.le_of_not_lt hle)
      (server.keys j).keyref
    rw [hannounces.subscribed_log] at hsub
    cases hsub
  have hanswered : (exchanges older).length < (exchanges s.link.node.log).length := by
    by_contra hle
    exact h.changed_not_mem hsplit (Nat.le_of_not_lt hle) (by simp)
  rintro hnil
  have hcalls := h.counts.2
  rw [h.calls_eq, issued, hnil, List.length_append, List.length_cons] at hcalls
  simp only [List.length_nil, List.replicate_zero] at hcalls
  omega

theorem last_read (h : Heeded nodeId m₀ pre i s) (hdistinct : Function.Injective fun i =>
      (server.keys i).keyref) (hreadable : (server.keys i).readable = true)
    (hknown : ¬ server.keyCount ≤ (server.keys i).keyref) (hprinted : s.printed ≠ []) :
    ∃ x newer older, s.printed.getLast? = some (ownedValue (wireOf x)) ∧
      s.link.node.log = newer ++ .readValue i x :: older ∧
        .sent (changedFrame (server.keys i).keyref) ∉ newer := by
  obtain ⟨v, hv⟩ := Option.isSome_iff_exists.mp (List.getLast?_isSome.mpr hprinted)
  obtain ⟨hresults, hexchanges⟩ := h.counts
  have hpos : 0 < s.printed.length := List.length_pos_of_ne_nil hprinted
  have hlength : s.link.calls.length = pre.length + 1 + s.printed.length := by
    rw [h.calls_eq, issued, List.length_append, List.length_cons, List.length_replicate]
    omega
  have hlast := h.last v hv
  rw [List.getLast?_eq_getElem?] at hlast
  obtain ⟨call, q, f, newer, older, ha, hout⟩ := answered_of_result h.linked hlast
  obtain rfl : call = .get (server.keys i).keyref := by
    have hcall := ha.call_eq
    rw [hresults, hlength, h.calls_eq, issued, List.getElem?_append_right (by omega)] at hcall
    obtain ⟨d, hd⟩ : ∃ d, pre.length + 1 + s.printed.length - 1 - pre.length = d + 1 :=
      ⟨s.printed.length - 1, by omega⟩
    rw [hd, List.getElem?_cons_succ, List.getElem?_replicate] at hcall
    split_ifs at hcall
    exact (Option.some.inj hcall).symm
  obtain ⟨x, hx, houtcome⟩ := ha.read h.linked hknown
    (Server.findSlot_keyref_self hdistinct i) hreadable
  rw [houtcome] at hout
  obtain rfl := Answer.value.inj (Except.ok.inj hout)
  obtain ⟨since, rest, hrest, -, hpending⟩ := exchanges_of_mem ha.pending hx
  refine ⟨x, newer ++ .sent f :: since, rest, hv, ?_, fun hmem => ?_⟩
  · rw [ha.log_eq, hrest]
    simp
  have hlog : s.link.node.log = (newer ++ [.sent f]) ++ older := by
    rw [ha.log_eq, List.append_assoc, List.singleton_append]
  rcases List.mem_append.mp hmem with hmem | hmem
  · refine h.changed_not_mem (ha.log_eq) ?_ hmem
    rw [exchanges, if_pos ha.response, ha.pending, List.length_cons, ha.position]
    omega
  · rcases List.mem_cons.mp hmem with heq | hmem
    · exact ha.response.ne_changed _ (Event.sent.inj heq).symm
    · obtain ⟨later, earlier, rfl⟩ := List.append_of_mem hmem
      have hbetween : Justified BetweenRequests ((newer ++ [.sent f] ++ later) ++
          .sent (changedFrame (server.keys i).keyref) :: (earlier ++ .readValue i x :: rest)) := by
        have hsame := h.between
        rw [hlog, hrest] at hsame
        simpa using hsame
      have hnone := hbetween.allowed_at _ rfl
      rw [hpending later _ earlier rfl] at hnone
      cases hnone

theorem printed_current (h : Heeded nodeId m₀ pre i s) (hpre : ∀ call ∈ pre, Lookup call)
    (hdistinct : Function.Injective fun i => (server.keys i).keyref)
    (hreadable : (server.keys i).readable = true) {newer older : List (Event server.keys)}
    {e : Event server.keys} (hlog : s.link.node.log = newer ++ e :: older)
    (haccepts : Event.Accepts i e) (hrec : recorded i older = true) :
    s.printed.getLast? = some (ownedValue (wireOf (s.link.node.memory.value i))) := by
  have hsegment : s.link.node.log = (newer ++ [e]) ++ older := by
    rw [hlog, List.append_assoc, List.singleton_append]
  -- the newest update of the key is no older than the accepted one
  have hupdated : ∃ a, Event.updated a i ∈ newer ++ [e] := by
    cases e with
    | updated a j =>
      obtain rfl : j = i := haccepts
      exact ⟨a, by simp⟩
    | stored a j v =>
      obtain rfl : j = i := haccepts
      have hbumped := h.bumped
      rw [hlog] at hbumped
      obtain ⟨b, hb⟩ := exists_updated_of_unbumped hbumped
      exact ⟨b, List.mem_append_left _ hb⟩
    | _ => exact haccepts.elim
  obtain ⟨after, a, before, hsplit, hnewest⟩ := exists_newest_updated hupdated
  have hupdate : s.link.node.log = after ++ .updated a i :: (before ++ older) := by
    rw [hsegment, hsplit]
    simp
  -- it has been announced
  have hchanged : .sent (changedFrame (server.keys i).keyref) ∈ after := by
    by_contra hnot
    have hbefore : s.link.node.log = (after ++ [.updated a i]) ++ (before ++ older) := by
      rw [hupdate, List.append_assoc, List.singleton_append]
    have hrecorded := (recorded_once h.linked hpre h.calls_eq hbefore hrec).1
    have hun : unannounced i (.updated a i :: (before ++ older)) = true := by
      rw [unannounced, if_pos rfl, hrecorded, Bool.true_or]
    have hall : s.link.node.log = [] ++ ((after ++ [.updated a i]) ++ (before ++ older)) := hbefore
    have honce := (recorded_once h.linked hpre h.calls_eq hall hrecorded).2
    rw [List.append_assoc, List.singleton_append] at honce
    have hsettled := unannounced_append hun hnot honce
    rw [← hupdate, h.announced] at hsettled
    cases hsettled
  obtain ⟨hknown, hprinted⟩ := h.printed_of_changed hpre
    (by rw [hupdate]; exact List.mem_append_left _ hchanged)
  obtain ⟨x, later, rest, hlast, hread, hnone⟩ := h.last_read hdistinct hreadable hknown hprinted
  -- and so the last read is newer than it
  have hlater : ∀ b, Event.updated b i ∉ later := by
    rcases List.append_eq_append_iff.mp (hupdate.symm.trans hread) with
      ⟨mid, hmid, hrest⟩ | ⟨mid, hmid, hrest⟩
    · cases mid with
      | nil => cases hrest
      | cons d mid => exact absurd (hmid ▸ List.mem_append_left _ hchanged) hnone
    · exact fun b hb => hnewest b (hmid ▸ List.mem_append_left _ hb)
  have hstored : ∀ b w, Event.stored b i w ∉ later := by
    intro b w hmem
    obtain ⟨newest, oldest, rfl⟩ := List.append_of_mem hmem
    have hbumped := h.bumped
    rw [hread, List.append_assoc, List.cons_append] at hbumped
    obtain ⟨c, hc⟩ := exists_updated_of_unbumped hbumped
    exact hlater c (List.mem_append_left _ hc)
  have hvalue : s.link.node.memory.value i = valueAfter m₀ i rest := by
    rw [h.stored.value_eq i, hread]
    exact valueAfter_of_not_stored hstored
  have hx : x = valueAfter m₀ i rest := (hread ▸ h.stored.reads).allowed_at
  rw [hlast, hvalue, hx]

end Heeded

theorem watching_of_path (hdistinct : server.Distinct) {keyref : UInt16} {k : PhaseLink server}
    (hlinked : Linked nodeId k) (hidle : k.awaiting = none)
    {Q : PhaseFollow server → Turn server.keys → Prop} {turns : List (Turn server.keys)}
    {s : PhaseFollow server} (hrun : Path (Follow.step (phases server nodeId) keyref) Q
      (Follow.initial k) turns s) : Watching k.calls keyref s := by
  have hboth : Linked nodeId s.link ∧ Watching k.calls keyref s := by
    refine hrun.invariant (fun s => Linked nodeId s.link ∧ Watching k.calls keyref s)
      ⟨hlinked, rfl, hidle, rfl⟩ fun u t v h _ hstep => ?_
    obtain ⟨a, ha⟩ := Follow.step_link hstep
    exact ⟨h.1.step hdistinct ha, h.2.step h.1 hstep⟩
  exact hboth.2

/-- Follow mode does not settle on a stale value. -/
theorem follow_settles {K : ℕ} (keys : Fin K → ErasedKey)
    (hdistinct : Function.Injective fun i => (keys i).keyref) (notifier : ℕ) (nodeId : Str)
    (memory : Memory keys) (i : Fin K) (hreadable : (keys i).readable = true)
    (hobservable : (keys i).observable = true) :
    let server := Server.ofRun keys notifier
    let tasks := programs server nodeId
    ∀ (acts : List (Act keys)) (k : Pair server) (turns : List (Turn keys))
      (s : FollowMode server),
    -- the key is resolved
    Path (Link.step tasks) (fun _ _ => True) (Link.initial tasks memory) acts k →
    (∀ call ∈ k.calls, Lookup call) → k.awaiting = none →
    Path (Follow.step tasks (keys i).keyref) (fun _ _ => True) (Follow.initial k) turns s →
    s.Settled nodeId → FewUpdates i s.link.node.log →
    ∀ newer e older, s.link.node.log = newer ++ e :: older → Event.Accepts i e →
      recorded i older = true →
      s.printed.getLast? = some (ownedValue (@wireOf _ server i
        (s.link.node.memory.value i))) := by
  intro server tasks acts k turns s hresolve hlookups hidle hrun hsettled hfew newer e older hlog
    haccepts hrec
  obtain ⟨t₀, ht₀, rfl⟩ := exists_phaseLink hresolve
  have hstart : Follow.initial (t₀.map Phase.task UpdatePhase.task) =
      (Follow.initial t₀).map Phase.task UpdatePhase.task := rfl
  rw [hstart] at hrun
  obtain ⟨t, ht, rfl⟩ := hrun.lift (Follow.step_map (phasesHom server nodeId) (keys i).keyref)
  obtain ⟨more, hmore⟩ := Follow.exists_linkPath ht
  have hlink := ht₀.trans hmore
  have hlinked := linked_of_path hdistinct hlink
  have hwatching := watching_of_path hdistinct (linked_of_path hdistinct ht₀) hidle ht
  have hmode : t.mode = .following := hsettled.following
  rw [Watching, hmode] at hwatching
  obtain ⟨hcalls, hwaiting, hheeded, hlast⟩ := hwatching
  have hempty : t.link.toClient = [] := hsettled.toClient_nil
  obtain ⟨labels, hnode⟩ := Link.exists_nodePath hlink
  have hrecorded : recorded i t.link.node.log = true := by
    have hall : t.link.node.log = [] ++ ((newer ++ [e]) ++ older) := by
      rw [List.nil_append, List.append_assoc, List.singleton_append]
      exact hlog
    rw [hall]
    exact (recorded_once hlinked hlookups hcalls hall hrec).1
  let host : Host keys := ⟨K, id, hdistinct, notifier⟩
  obtain ⟨hannounced, hbumped⟩ := announced_at_rest (h := host) hobservable hnode hsettled.atRest
    hfew hrecorded
  have hheard : t.link.heard = sentFrames t.link.node.log := by
    rw [heard, hempty, List.length_nil, Nat.sub_zero, List.take_length]
  have hfinal : Heeded nodeId memory t₀.calls i t :=
    ⟨hlinked, hcalls, hwaiting, hempty, hheard ▸ hheeded, hlast, stored_of_path hlink,
      betweenRequests_of_path hdistinct hnode, hannounced, hbumped⟩
  exact hfinal.printed_current hlookups hdistinct hreadable hlog haccepts hrec

def nodeTurns (labels : List (Label lampServer.keys)) : List (Turn lampServer.keys) :=
  labels.map .node

def answerLamp : List (Label lampServer.keys) :=
  [.read, .read, .read, .serve, .act true, .act true, .act true, .act true, .finish, .act true,
    .finish, .pend, .park]

def followLamp : List (Turn lampServer.keys) :=
  nodeTurns [.act true, .finish] ++ (.client :: .deliver :: nodeTurns answerLamp) ++
    (.client :: nodeTurns (switchLamp 0 ++ .repoll :: announceLamp ++ [.pend, .park])) ++
    (.client :: .client :: .deliver :: nodeTurns (.repoll :: answerLamp)) ++ [.client]

def fetchedLamp : List (Event lampServer.keys) :=
  [.flushEnd, .readGeneration (Fin.last 0) 1, .flushBegin, .sent ⟨.value, [0x01, 0x01]⟩,
    .readValue (Fin.last 0) true, .served (.get 0)]

def followLampRun : Option (FollowMode lampServer) :=
  runLabels (Follow.step (programs lampServer Str.empty) 0)
    (Follow.initial (Link.initial (programs lampServer Str.empty) lampMemory)) followLamp

theorem followLampRun_log : followLampRun.map (fun s => s.link.node.log) =
    some (fetchedLamp ++ announcedLamp) := by decide +kernel

theorem followLampRun_settled : followLampRun.map (fun s => (s.link.toNode, s.link.toClient,
    s.link.node.resting, s.mode, s.printed)) = some ([], [], true, .following, [.bool true]) := by
  decide +kernel

theorem follow_settles_lamp : ∃ s : FollowMode lampServer,
    Path (Follow.step (programs lampServer Str.empty) 0) (fun _ _ => True)
        (Follow.initial (Link.initial (programs lampServer Str.empty) lampMemory)) followLamp s ∧
      s.printed = [.bool true] ∧ s.printed.getLast? =
        some (ownedValue (@wireOf _ lampServer (Fin.last 0)
          (s.link.node.memory.value (Fin.last 0)))) := by
  obtain ⟨s, hs, hlog⟩ := Option.map_eq_some_iff.mp followLampRun_log
  have hsettled := followLampRun_settled
  rw [hs, Option.map_some, Option.some.injEq] at hsettled
  simp only [Prod.mk.injEq] at hsettled
  obtain ⟨htoNode, htoClient, hrest, hmode, hprinted⟩ := hsettled
  have hpath := Path.of_runLabels hs
  have hfew : updateCount (Fin.last 0) s.link.node.log < 2 ^ 32 := by
    rw [hlog]
    decide
  exact ⟨s, hpath, hprinted, follow_settles (fun _ => lamp) (fun _ _ _ => Subsingleton.elim _ _) 0
    Str.empty lampMemory (Fin.last 0) rfl rfl [] _ followLamp s (.nil _) nofun rfl hpath
    ⟨htoNode, htoClient, Sys.atRest_of_resting hrest, hmode⟩ (.of_updateCount hfew)
    (fetchedLamp ++ [.flushEnd, .sent (changedFrame lamp.keyref), .readGeneration (Fin.last 0) 1,
      .flushBegin]) (.updated .update (Fin.last 0))
    (.stored .update (Fin.last 0) true :: observedLamp 0) hlog rfl rfl⟩

end Qup.EndToEnd
