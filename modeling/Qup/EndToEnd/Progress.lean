import Qup.EndToEnd.Exchange
import Qup.Embassy.Progress

/-!
# A waiting call can always return

From every reachable state in which a call waits, the node's own steps, the two
channels and the client's reads lead to its return, unless the node stops.
-/

namespace Qup.EndToEnd
open Foundation Foundation.Utf8 Embassy Link
open Client (Call)

variable {N : ℕ} {server : Server N} {nodeId : Str}

def Act.Own {keys : Fin N → ErasedKey} : Act keys → Prop
  | .deliver | .receive => True
  | .node l => l.Own
  | .call _ | .next => False

def Advances (nodeId : Str) (k k' : Pair server) : Prop :=
  ∃ acts, Path (Link.step (programs server nodeId)) (fun _ a => a.Own) k acts k'

theorem Advances.refl (k : Pair server) : Advances nodeId k k := ⟨[], .nil k⟩

theorem Advances.trans {k k' k'' : Pair server} (h : Advances nodeId k k')
    (h' : Advances nodeId k' k'') : Advances nodeId k k'' := by
  obtain ⟨acts, hp⟩ := h
  obtain ⟨acts', hq⟩ := h'
  exact ⟨acts ++ acts', hp.trans hq⟩

theorem Advances.one {k k' : Pair server} {a : Act server.keys} (ha : a.Own)
    (h : k.step (programs server nodeId) a = some k') : Advances nodeId k k' := ⟨[a], .one ha h⟩

structure SameClient (k k' : Pair server) : Prop where
  toNode_eq : k'.toNode = k.toNode
  awaiting_eq : k'.awaiting = k.awaiting
  calls_eq : k'.calls = k.calls
  results_eq : k'.results = k.results

theorem advances_of_path {s s' : Connection server} {labels : List (Label server.keys)}
    (hp : Path (Sys.step (programs server nodeId)) (fun _ l => l.Own) s labels s') :
    ∀ k : Pair server, k.node = s → ∃ k', Advances nodeId k k' ∧ k'.node = s' ∧ SameClient k k' := by
  induction hp with
  | nil => exact fun k hk => ⟨k, .refl k, hk, ⟨rfl, rfl, rfl, rfl⟩⟩
  | @snoc t u ls l _ hl hs ih =>
    intro k hk
    obtain ⟨k', hadv, hnode, hsame⟩ := ih k hk
    have hstep : k'.step (programs server nodeId) (.node l) =
        k'.nodeStep (programs server nodeId) l := by
      cases l with
      | arrive bytes => exact hl.elim
      | _ => rfl
    have hnext : k'.step (programs server nodeId) (.node l) = some { k' with
        node := u
        toClient := k'.toClient ++ (newFrames k'.node u).map Frame.bytes } := by
      rw [hstep, Link.nodeStep, hnode, hs]
      rfl
    exact ⟨_, hadv.trans (.one (a := .node l) hl hnext), rfl,
      ⟨hsame.toNode_eq, hsame.awaiting_eq, hsame.calls_eq, hsame.results_eq⟩⟩

theorem advances_deliver (k : Pair server) :
    ∃ k', Advances nodeId k k' ∧ k'.toNode = [] ∧ k'.awaiting = k.awaiting ∧
      k'.results = k.results ∧ k'.node.ctrl = k.node.ctrl := by
  induction hto : k.toNode generalizing k with
  | nil => exact ⟨k, .refl k, hto, rfl, rfl, rfl⟩
  | cons frame rest ih =>
    have hstep : k.step (programs server nodeId) .deliver = some { k with
        node := { k.node with inbox := k.node.inbox ++ frame }
        toNode := rest
        toClient := k.toClient ++ (newFrames k.node
          { k.node with inbox := k.node.inbox ++ frame }).map Frame.bytes } := by
      simp only [Link.step, hto]
      rfl
    obtain ⟨k', hadv, hnil, hawait, hresults, hctrl⟩ := ih { k with
        node := { k.node with inbox := k.node.inbox ++ frame }
        toNode := rest
        toClient := k.toClient ++ (newFrames k.node
          { k.node with inbox := k.node.inbox ++ frame }).map Frame.bytes } rfl
    exact ⟨k', (Advances.one (a := .deliver) trivial hstep).trans hadv, hnil, hawait, hresults,
      hctrl⟩

theorem advances_receive (hdistinct : server.Distinct) :
    ∀ (queued : List Frame) (t : PhaseLink server) (returned : List Call) (received : List Frame)
      (call : Call), Linked nodeId t → Matched t returned received queued →
      t.awaiting = some call → responses queued ≠ [] →
      ∃ k', Advances nodeId (t.map Phase.task UpdatePhase.task) k' ∧
        k'.results.length = t.results.length + 1 := by
  intro queued
  induction queued with
  | nil => exact fun t returned received call _ _ _ hne => absurd rfl hne
  | cons f queued ih =>
    intro t returned received call hlinked hmatched hcall hne
    obtain ⟨message, hread, hdecode, hchanged⟩ := hmatched.read hlinked.session.justified
    have hmap := Link.step_map (phasesHom server nodeId) t .receive
    by_cases hf : f.IsResponse
    · have hstep : t.step (phases server nodeId) .receive = some { t with
          toClient := queued.map Frame.bytes
          awaiting := none
          results := t.results ++ [.ok message >>= call.method.accept] } := by
        simp only [Link.step, hcall, hread]
        cases message with
        | changed r => exact absurd hf (hchanged.mp ⟨r, rfl⟩)
        | _ => rfl
      rw [hstep] at hmap
      refine ⟨_, .one (a := .receive) trivial hmap, ?_⟩
      simp [Link.map]
    · obtain ⟨r, rfl⟩ := hchanged.mpr hf
      have hstep : t.step (phases server nodeId) .receive =
          some { t with toClient := queued.map Frame.bytes } := by
        simp only [Link.step, hcall, hread]
      have hnone : responses (f :: queued) = responses queued := by simp [responses, hf]
      rw [hstep] at hmap
      obtain ⟨k', hadv, hlen⟩ := ih { t with toClient := queued.map Frame.bytes } returned
        (received ++ [f]) call (hlinked.step hdistinct hstep) (hmatched.skip hf) hcall (hnone ▸ hne)
      exact ⟨k', (Advances.one (a := .receive) trivial hmap).trans hadv, hlen⟩

def Phased (nodeId : Str) (k : Pair server) : Prop :=
  ∃ t : PhaseLink server, t.map Phase.task UpdatePhase.task = k ∧ Linked nodeId t

theorem Phased.advances (hdistinct : server.Distinct) {k k' : Pair server} (h : Phased nodeId k)
    (hadv : Advances nodeId k k') :
    Phased nodeId k' ∧ ∃ newer, k'.node.log = newer ++ k.node.log := by
  obtain ⟨t, rfl, hlinked⟩ := h
  obtain ⟨acts, hp⟩ := hadv
  obtain ⟨t', hp', rfl⟩ := hp.lift (Link.step_map (phasesHom server nodeId))
  refine ⟨⟨t', rfl, hp'.invariant (Linked nodeId) hlinked fun _ _ _ hu _ hs => hu.step hdistinct hs⟩,
    hp'.invariant (fun u => ∃ newer, u.node.log = newer ++ t.node.log) ⟨[], rfl⟩ ?_⟩
  rintro u a v ⟨newer, hu⟩ - hs
  obtain ⟨newer', hv⟩ := Link.log_grows hs
  exact ⟨newer' ++ newer, by rw [hv, hu, List.append_assoc]⟩

theorem Phased.calls_le {k : Pair server} (h : Phased nodeId k) :
    k.calls.length ≤ (servedRequests k.node.log).length + 1 := by
  obtain ⟨t, rfl, hlinked⟩ := h
  obtain ⟨returned, received, queued, hmatched⟩ := hlinked.matched
  have hjust : Justified (Allowed server nodeId) t.node.log := hlinked.session.justified
  have hlen := congrArg List.length (servedRequests_eq hjust)
  have hcalls := congrArg List.length hmatched.calls_eq
  obtain ⟨hsum, -⟩ := hmatched.counts hlinked
  have hone : t.awaiting.toList.length ≤ 1 := by cases t.awaiting <;> simp
  simp only [List.length_append, List.length_map, List.length_reverse] at hlen hcalls
  change t.calls.length ≤ (servedRequests t.node.log).length + 1
  omega

theorem advances_drive (k : Pair server) :
    ∃ k', Advances nodeId k k' ∧ (Fetching k'.node ∨ IsStopped k'.node.ctrl) ∧
      SameClient k k' := by
  obtain ⟨s, ⟨labels, hp, -⟩, hend⟩ := drives_fetching nodeId k.node
  obtain ⟨k', hadv, hnode, hsame⟩ := advances_of_path hp k rfl
  exact ⟨k', hadv, hnode ▸ hend, hsame⟩

theorem advances_settled (k : Pair server) :
    ∃ k', Advances nodeId k k' ∧ k'.toNode = [] ∧
      (Fetching k'.node ∨ IsStopped k'.node.ctrl) ∧ k'.awaiting = k.awaiting ∧
        k'.results = k.results := by
  obtain ⟨k₁, hadv₁, hend, hsame⟩ := @advances_drive N server nodeId k
  obtain ⟨k₂, hadv₂, hnil, hawait₂, hresults₂, hctrl⟩ := @advances_deliver N server nodeId k₁
  refine ⟨k₂, hadv₁.trans hadv₂, hnil, ?_, hawait₂.trans hsame.awaiting_eq,
    hresults₂.trans hsame.results_eq⟩
  unfold Fetching IsStopped
  rw [hctrl]
  exact hend

/-- Where everything sent has been served, the response of the waiting call is on
its way. -/
theorem answered_of_served {t : PhaseLink server} (h : Linked nodeId t) {returned : List Call}
    {received queued : List Frame} (hm : Matched t returned received queued)
    (hfetching : ∃ l reader reads, t.node.ctrl = .reading l reader reads)
    {call : Call} (hcall : t.awaiting = some call)
    (hserved : t.calls.length ≤ (servedRequests t.node.log).length) : responses queued ≠ [] := by
  obtain ⟨l, reader, reads, hctrl⟩ := hfetching
  have hready : Ready server nodeId none l t.node.memory.generation t.node.log := by
    have hok := h.session.position_ok
    simp only [PhaseSys.config, PhaseSys.position, hctrl] at hok
    exact hok
  have hjust : Justified (Allowed server nodeId) t.node.log := h.session.justified
  have hlen := congrArg List.length (servedRequests_eq hjust)
  rw [hready.pending_none] at hlen
  simp only [List.length_append, List.length_map, List.length_reverse, Option.toList_none,
    List.length_nil] at hlen
  have hcalls := congrArg List.length hm.calls_eq
  rw [List.length_append, hcall] at hcalls
  simp only [Option.toList_some, List.length_cons, List.length_nil] at hcalls
  obtain ⟨hsum, -⟩ := hm.counts h
  intro hnil
  rw [hnil, List.length_nil] at hsum
  omega

theorem advances_served {k : Pair server} (h : Phased nodeId k)
    (hnil : k.toNode = []) (hfetching : Fetching k.node)
    (hless : (servedRequests k.node.log).length < k.calls.length) :
    ∃ k', Advances nodeId k k' ∧ SameClient k k' ∧
      (servedRequests k'.node.log).length = (servedRequests k.node.log).length + 1 := by
  obtain ⟨t, rfl, hlinked⟩ := h
  obtain ⟨n, hsent⟩ := hlinked.sent
  obtain ⟨done, rest, hm, hlog, hp⟩ := hsent.inPlace
  have hdrop : t.messages.drop n = [] := by
    have hto := hsent.toNode_eq
    rw [show t.toNode = [] from hnil] at hto
    exact List.map_eq_nil_iff.mp hto.symm
  have hlen := congrArg List.length hlog
  have hmlen := congrArg List.length hm
  have hge := List.drop_eq_nil_iff.mp hdrop
  simp only [List.length_map, List.length_append, messages] at hlen hmlen hge
  change (servedRequests t.node.log).length < t.calls.length at hless
  have hrest : rest.take (n - done.length) = rest := List.take_of_length_le (by omega)
  rw [hrest] at hp
  cases rest with
  | nil =>
    simp only [List.length_nil] at hmlen
    omega
  | cons m ms =>
    have hwf : m.WellFormed .clientToNode := hlinked.wellFormed m (by rw [hm]; simp)
    obtain ⟨q, -, hread⟩ := run_readRequest_frame server.maxStr hwf
    obtain ⟨l, reader, reads, hctrl⟩ := hfetching
    have hrun := hp.resumes (show (t.node.map Phase.task UpdatePhase.task).ctrl =
      .reading l reader reads from hctrl) []
    rw [List.append_nil, List.append_nil, streamOf_cons, hread] at hrun
    obtain ⟨labels, s', hpath, -, -, hlog'⟩ := drives_serve nodeId reader
      (t.node.map Phase.task UpdatePhase.task) reads hctrl hrun
    obtain ⟨k', hadv, hnode, hsame⟩ := advances_of_path hpath
      (t.map Phase.task UpdatePhase.task) rfl
    refine ⟨k', hadv, hsame, ?_⟩
    rw [hnode, hlog', servedRequests, List.length_append]
    rfl

theorem servedRequests_length_mono {keys : Fin N → ErasedKey} (newer older : List (Event keys)) :
    (servedRequests older).length ≤ (servedRequests (newer ++ older)).length := by
  induction newer with
  | nil => exact Nat.le_refl _
  | cons e newer ih =>
    cases e with
    | served q =>
      rw [List.cons_append, servedRequests, List.length_append]
      exact Nat.le_add_right_of_le ih
    | _ => exact ih

/-- A waiting call can return, or the node can be seen to stop. -/
theorem call_can_return (hdistinct : server.Distinct) {k : Pair server} (h : Phased nodeId k)
    {call : Call} (hcall : k.awaiting = some call) :
    ∃ k', Advances nodeId k k' ∧
      (IsStopped k'.node.ctrl ∨ k'.results.length = k.results.length + 1) := by
  -- a state that reads and has served every call
  have hread : ∀ {k : Pair server}, Phased nodeId k → Fetching k.node → k.awaiting = some call →
      k.calls.length ≤ (servedRequests k.node.log).length →
        ∃ k', Advances nodeId k k' ∧ k'.results.length = k.results.length + 1 := by
    rintro k ⟨t, rfl, hlinked⟩ ⟨l, reader, reads, hctrl⟩ hcall hserved
    obtain ⟨returned, received, queued, hmatched⟩ := hlinked.matched
    have hctrl' : t.node.ctrl = .reading l reader reads := by
      have hctrl : t.node.ctrl.map Phase.task = .reading l reader reads := hctrl
      rcases ht : t.node.ctrl with ⟨l', r', n'⟩ | _ | _ | _ | _ <;> rw [ht] at hctrl <;>
        cases hctrl
      rfl
    exact advances_receive hdistinct queued t returned received call hlinked hmatched hcall
      (answered_of_served hlinked hmatched ⟨l, reader, reads, hctrl'⟩ hcall hserved)
  obtain ⟨k₁, hadv₁, hnil, hend | hstop, hawait, hresults⟩ := @advances_settled N server nodeId k
  · have hphased := (h.advances hdistinct hadv₁).1
    rw [← hresults]
    rw [← hawait] at hcall
    by_cases hserved : k₁.calls.length ≤ (servedRequests k₁.node.log).length
    · obtain ⟨k₂, hadv₂, hlen⟩ := hread hphased hend hcall hserved
      exact ⟨k₂, hadv₁.trans hadv₂, Or.inr hlen⟩
    · obtain ⟨k₂, hadv₂, hsame, hmore⟩ :=
        advances_served hphased hnil hend (Nat.lt_of_not_le hserved)
      obtain ⟨k₃, hadv₃, hend₃ | hstop₃, hsame₃⟩ := @advances_drive N server nodeId k₂
      · have hphased₂ := (hphased.advances hdistinct hadv₂).1
        obtain ⟨hphased₃, newer, hlog⟩ := hphased₂.advances hdistinct hadv₃
        have hmono := servedRequests_length_mono newer k₂.node.log
        have hcalls := hphased.calls_le
        rw [← hlog, hmore] at hmono
        rw [← hsame.calls_eq, ← hsame₃.calls_eq] at hcalls
        obtain ⟨k₄, hadv₄, hlen⟩ := hread hphased₃ hend₃
          (by rw [hsame₃.awaiting_eq, hsame.awaiting_eq, hcall]) (by omega)
        refine ⟨k₄, ((hadv₁.trans hadv₂).trans hadv₃).trans hadv₄, Or.inr ?_⟩
        rw [hlen, hsame₃.results_eq, hsame.results_eq]
      · exact ⟨k₃, (hadv₁.trans hadv₂).trans hadv₃, Or.inl hstop₃⟩
  · exact ⟨k₁, hadv₁, Or.inl hstop⟩

end Qup.EndToEnd
