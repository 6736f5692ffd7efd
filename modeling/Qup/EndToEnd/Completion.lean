import Qup.EndToEnd.Host

/-!
# Methods can always complete

A routine that sends one request after another and reads the answer to each can
be brought to its end from every state of its run, by steps of the node, of the
two channels and of the client itself, unless the node stops.
-/

namespace Qup.EndToEnd
open Foundation Foundation.Routine Foundation.Utf8
open Embassy (Server programs IsStopped)
open Client (Call ClientError IoError Message)
open Client.Async (Op Action)

variable {N : ℕ} {server : Server N} {nodeId : Str} {ε ε' α β : Type}

/-- A routine between two requests. Once it has sent one it reads, in a loop, up to
the first message that is no notification. -/
inductive Ready : Action ε α → Prop where
  | ret (a : α) : Ready (.ret a)
  | fail (e : ε) : Ready (.fail e)
  | send (call : Call) (k : Except IoError Unit → Action ε α)
      (go : Except ClientError Message → Action ε α)
      (hround : (k (.ok ())).unroll = some (.act .nextMessage go))
      (hskip : ∀ r, go (.ok (.changed r)) = k (.ok ()))
      (herror : ∀ error, Ready (k (.error error)))
      (hgo : ∀ reply, (∀ r, reply ≠ .ok (.changed r)) → Ready (go reply)) :
      Ready (.act (.send call) k)

theorem Ready.bind {p : Action ε α} {f : α → Action ε β} (hp : Ready p)
    (hf : ∀ a, Ready (f a)) : Ready (p.bind f) := by
  induction hp with
  | ret a => exact hf a
  | fail e => exact .fail e
  | send call k go hround hskip _ _ iherror ihgo =>
    refine .send call _ (fun reply => (go reply).bind f) (unroll_bind hround f) (fun r => ?_)
      iherror ihgo
    rw [hskip]

theorem Ready.attempt {p : Action ε α} (hp : Ready p) :
    Ready (p.attempt : Action ε' (Except ε α)) := by
  induction hp with
  | ret a => exact .ret _
  | fail e => exact .ret _
  | send call k go hround hskip _ _ iherror ihgo =>
    refine .send call _ (fun reply => (go reply).attempt) (unroll_attempt hround) (fun r => ?_)
      iherror ihgo
    rw [hskip]

theorem Ready.mapError {p : Action ε α} (hp : Ready p) (f : ε → ε') : Ready (p.mapError f) := by
  refine hp.attempt.bind fun r => ?_
  cases r with
  | ok a => exact .ret a
  | error e => exact .fail (f e)

theorem ready_request (call : Call) (accept : Message → Except ClientError α) :
    Ready (Client.Async.request call accept) := by
  refine .send call _ _ rfl (fun r => rfl) (fun error => .fail _) fun reply hreply => ?_
  match reply with
  | .error error => exact .fail error
  | .ok m =>
    cases m with
    | changed r => exact absurd rfl (hreply r)
    | _ =>
      simp only [pure_eq, Routine.bind, afterRound]
      split
      · exact .ret _
      · exact .fail _

theorem ready_keysOf (ns : List ℕ) : Ready (Client.Async.keysOf ns) := by
  induction ns with
  | nil => exact .ret []
  | cons n ns ih => exact (ready_request _ _).bind fun info => ih.bind fun infos => .ret _

theorem ready_byName (name : Str) {method : UInt16 → Action ClientError α}
    (hmethod : ∀ r, Ready (method r)) : Ready (Client.Async.byName name method) := by
  have hlist : Ready Client.Async.listKeys := (ready_request _ _).bind fun count => ready_keysOf _
  refine Ready.bind ((hlist.mapError _).bind fun keys => ?_) fun r => (hmethod r).mapError _
  cases Client.Async.select name keys with
  | ok first => exact .ret _
  | error error => exact .fail error

/-- Reading the answer to a request: before a round of the loop, or in it. -/
def Reading (p : Action ε α) : Prop :=
  ∃ again go, (p = again ∨ p = .act .nextMessage go) ∧
    again.unroll = some (.act .nextMessage go) ∧ (∀ r, go (.ok (.changed r)) = again) ∧
      ∀ reply, (∀ r, reply ≠ .ok (.changed r)) → Ready (go reply)

def Poised (h : Hosted (Pair server) Op.Res ε α) : Prop :=
  match h.world.awaiting with
  | none => Ready h.routine
  | some _ => Reading h.routine

def Ended : Action ε α → Prop
  | .ret _ | .fail _ => True
  | _ => False

theorem Poised.step {h h' : Hosted (Pair server) Op.Res ε α} {b : Beat Unit (Act server.keys)}
    (hp : Poised h) (hs : h.step (linkWorld (programs server nodeId)) b = some h') : Poised h' := by
  unfold Poised at hp ⊢
  cases Hosted.step_cases hs with
  | move w w' a p hmove =>
    rw [show w'.awaiting = w.awaiting from (same_of_move hmove).2.1]
    exact hp
  | unroll w p q hq =>
    cases hawaiting : w.awaiting with
    | none =>
      simp only [hawaiting] at hp
      cases hp <;> cases hq
    | some call =>
      simp only [hawaiting] at hp
      obtain ⟨again, go, rfl | rfl, hround, hskip, hgo⟩ := hp
      · rw [hround] at hq
        cases hq
        exact ⟨_, go, .inr rfl, hround, hskip, hgo⟩
      · cases hq
  | request w w' c o k reply hserve =>
    cases hawaiting : w.awaiting with
    | none =>
      simp only [hawaiting] at hp
      cases hp with
      | send call k go hround hskip herror hgo =>
        obtain ⟨w₁, hstep, hpair⟩ := Option.map_eq_some_iff.mp hserve
        obtain ⟨rfl, rfl⟩ := Prod.mk.inj hpair
        cases hsend : call.method.send with
        | error e =>
          simp only [Link.step, hawaiting, hsend] at hstep
          cases hstep
          simp only [hawaiting]
          exact herror e
        | ok frame =>
          simp only [Link.step, hawaiting, hsend] at hstep
          cases hstep
          exact ⟨_, go, .inl rfl, hround, hskip, hgo⟩
    | some call =>
      simp only [hawaiting] at hp
      obtain ⟨again, go, hwhere, hround, hskip, hgo⟩ := hp
      have hact : (.act o k : Action ε α) = .act .nextMessage go := by
        rcases hwhere with rfl | hact
        · cases hround
        · exact hact
      cases hact
      obtain ⟨⟨message, rest⟩, hnext, hread⟩ := Option.bind_eq_some_iff.mp hserve
      obtain ⟨w₁, hstep, hpair⟩ := Option.map_eq_some_iff.mp hread
      obtain ⟨rfl, rfl⟩ := Prod.mk.inj hpair
      rcases read_cases hnext hstep with ⟨rfl, hidle | ⟨r, rfl⟩⟩ | ⟨call', hcall, hne, rfl⟩
      · cases hawaiting.symm.trans hidle
      · simp only [hawaiting]
        exact ⟨again, go, .inl (hskip r), hround, hskip, hgo⟩
      · exact hgo message hne

def OwnBeat {keys : Fin N → Embassy.ErasedKey} : Beat Unit (Act keys) → Prop
  | .move a => a.Own
  | _ => True

def Proceeds (nodeId : Str) (h h' : Hosted (Pair server) Op.Res ε α) : Prop :=
  ∃ beats, Path (Hosted.step (linkWorld (programs server nodeId))) (fun _ b => OwnBeat b) h beats h'

theorem Proceeds.trans {h h' h'' : Hosted (Pair server) Op.Res ε α} (hp : Proceeds nodeId h h')
    (hq : Proceeds nodeId h' h'') : Proceeds nodeId h h'' := by
  obtain ⟨beats, hp⟩ := hp
  obtain ⟨beats', hq⟩ := hq
  exact ⟨beats ++ beats', hp.trans hq⟩

theorem Proceeds.one {h h' : Hosted (Pair server) Op.Res ε α} {b : Beat Unit (Act server.keys)}
    (hb : OwnBeat b) (hs : h.step (linkWorld (programs server nodeId)) b = some h') :
    Proceeds nodeId h h' := ⟨[b], .one hb hs⟩

theorem proceeds_unroll {w : Pair server} {p q : Action ε α} (h : p.unroll = some q) :
    Proceeds nodeId ⟨w, p⟩ ⟨w, q⟩ :=
  .one (b := .unroll) trivial (by simp only [Hosted.step, h, Option.map_some])

theorem proceeds_reading {again : Action ε α} {go : Except ClientError Message → Action ε α}
    (hround : again.unroll = some (.act .nextMessage go))
    (hskip : ∀ r, go (.ok (.changed r)) = again) {w v : Pair server} {acts : List (Act server.keys)}
    (hpath : Path (Link.step (programs server nodeId)) (fun _ a => a.Own) w acts v)
    {call : Call} (hawaiting : w.awaiting = some call) :
    (Proceeds nodeId ⟨w, .act .nextMessage go⟩ ⟨v, .act .nextMessage go⟩ ∧
        v.awaiting = some call ∧ v.results = w.results) ∨
      ∃ reply, (∀ r, reply ≠ .ok (.changed r)) ∧
        Proceeds nodeId ⟨w, .act .nextMessage go⟩ ⟨v, go reply⟩ ∧ v.awaiting = none := by
  induction hpath with
  | nil => exact .inl ⟨⟨[], .nil _⟩, hawaiting, rfl⟩
  | @snoc u v acts a _ hown hstep ih =>
    -- a step of the node or of a channel
    have hmove : ∀ {q : Action ε α}, linkMove (programs server nodeId) u a = some v →
        Proceeds nodeId ⟨u, q⟩ ⟨v, q⟩ := by
      intro q hv
      refine .one (b := .move a) hown ?_
      simp only [Hosted.step, linkWorld, hv, Option.map_some]
    rcases ih with ⟨hproceeds, hcall, hresults⟩ | ⟨reply, hne, hproceeds, hidle⟩
    · cases a with
      | deliver =>
        cases Link.step_cases hstep with
        | deliver => exact .inl ⟨hproceeds.trans (hmove hstep), hcall, hresults⟩
      | node l =>
        cases Link.step_cases hstep with
        | node => exact .inl ⟨hproceeds.trans (hmove hstep), hcall, hresults⟩
      | receive =>
        have hread : ∀ {reply rest}, nextFrame u.toClient = some (reply, rest) →
            Proceeds nodeId ⟨u, .act .nextMessage go⟩ ⟨v, go reply⟩ := by
          intro reply rest hnext
          refine .one (b := .request ()) trivial ?_
          simp only [Hosted.step, linkWorld, linkServe, hnext, Option.bind_some, hcall,
            Option.isSome_some, if_true, hstep, Option.map_some]
        cases Link.step_cases hstep with
        | skip call' r rest hcall' hnext =>
          have hskipped := hread hnext
          rw [hskip] at hskipped
          exact .inl ⟨hproceeds.trans (hskipped.trans (proceeds_unroll hround)), hcall, hresults⟩
        | finish call' message rest hcall' hnext hne =>
          exact .inr ⟨message, hne, hproceeds.trans (hread hnext), rfl⟩
      | _ => cases hown
    · cases a with
      | deliver =>
        cases Link.step_cases hstep with
        | deliver => exact .inr ⟨reply, hne, hproceeds.trans (hmove hstep), hidle⟩
      | node l =>
        cases Link.step_cases hstep with
        | node => exact .inr ⟨reply, hne, hproceeds.trans (hmove hstep), hidle⟩
      | receive =>
        simp only [Link.step, hidle] at hstep
        cases hstep
      | _ => cases hown

theorem Phased.step (hdistinct : server.Distinct) {k k' : Pair server} (h : Phased nodeId k)
    {a : Act server.keys} (hs : k.step (programs server nodeId) a = some k') : Phased nodeId k' := by
  obtain ⟨t, rfl, hlinked⟩ := h
  obtain ⟨t', ht', rfl⟩ := exists_phaseStep hs
  exact ⟨t', rfl, hlinked.step hdistinct ht'⟩

theorem Phased.proceeds (hdistinct : server.Distinct) {h h' : Hosted (Pair server) Op.Res ε α}
    (hphased : Phased nodeId h.world) (hp : Proceeds nodeId h h') : Phased nodeId h'.world := by
  obtain ⟨beats, hpath⟩ := hp
  obtain ⟨hserve, hmove⟩ := linkWorld_reachable (programs server nodeId)
  obtain ⟨acts, hlink⟩ := Hosted.reachable hserve hmove hpath
  exact hlink.invariant (Phased nodeId) hphased fun u a v hu _ hs => hu.step hdistinct hs

def CanEnd (nodeId : Str) (h : Hosted (Pair server) Op.Res ε α) : Prop :=
  ∃ h', Proceeds nodeId h h' ∧ (Ended h'.routine ∨ IsStopped h'.world.node.ctrl)

theorem Proceeds.canEnd {h h' : Hosted (Pair server) Op.Res ε α} (hp : Proceeds nodeId h h')
    (hend : CanEnd nodeId h') : CanEnd nodeId h := by
  obtain ⟨h'', hq, hend⟩ := hend
  exact ⟨h'', hp.trans hq, hend⟩

theorem reading_canEnd (hdistinct : server.Distinct) {again : Action ε α}
    {go : Except ClientError Message → Action ε α}
    (hround : again.unroll = some (.act .nextMessage go))
    (hskip : ∀ r, go (.ok (.changed r)) = again)
    (hgo : ∀ reply, (∀ r, reply ≠ .ok (.changed r)) → ∀ {w : Pair server}, Phased nodeId w →
      w.awaiting = none → CanEnd nodeId ⟨w, go reply⟩)
    {w : Pair server} (hw : Phased nodeId w) {call : Call} (hawaiting : w.awaiting = some call) :
    CanEnd nodeId ⟨w, .act .nextMessage go⟩ := by
  obtain ⟨v, ⟨acts, hpath⟩, hend⟩ := call_can_return hdistinct hw hawaiting
  rcases proceeds_reading hround hskip hpath hawaiting with
    ⟨hproceeds, -, hresults⟩ | ⟨reply, hne, hproceeds, hidle⟩
  · rcases hend with hstopped | hlength
    · exact ⟨_, hproceeds, .inr hstopped⟩
    · rw [hresults] at hlength
      omega
  · exact hproceeds.canEnd (hgo reply hne (hw.proceeds hdistinct hproceeds) hidle)

theorem Ready.canEnd (hdistinct : server.Distinct) {p : Action ε α} (hp : Ready p) :
    ∀ {w : Pair server}, Phased nodeId w → w.awaiting = none → CanEnd nodeId ⟨w, p⟩ := by
  induction hp with
  | ret a => exact fun _ _ => ⟨_, ⟨[], .nil _⟩, .inl trivial⟩
  | fail e => exact fun _ _ => ⟨_, ⟨[], .nil _⟩, .inl trivial⟩
  | send call k go hround hskip _ _ iherror ihgo =>
    intro w hw hidle
    have hserve : ∀ {w' : Pair server}, w.step (programs server nodeId) (.call call) = some w' →
        Proceeds nodeId ⟨w, .act (.send call) k⟩ ⟨w', k (call.method.send.map fun _ => ())⟩ := by
      intro w' hstep
      refine .one (b := .request ()) trivial ?_
      simp only [Hosted.step, linkWorld, linkServe, hstep, Option.map_some]
    cases hsend : call.method.send with
    | error e =>
      have hstep : w.step (programs server nodeId) (.call call) = some w := by
        simp only [Link.step, hidle, hsend]
      have hproceeds := hserve hstep
      rw [hsend] at hproceeds
      exact hproceeds.canEnd (iherror e hw hidle)
    | ok frame =>
      have hstep : w.step (programs server nodeId) (.call call) = some { w with
          toNode := w.toNode ++ [frame]
          awaiting := some call
          calls := w.calls ++ [call] } := by
        simp only [Link.step, hidle, hsend]
      have hproceeds := hserve hstep
      rw [hsend] at hproceeds
      exact (hproceeds.trans (proceeds_unroll hround)).canEnd
        (reading_canEnd hdistinct hround hskip ihgo (hw.step hdistinct hstep) rfl)

theorem Poised.canEnd (hdistinct : server.Distinct) {h : Hosted (Pair server) Op.Res ε α}
    (hphased : Phased nodeId h.world) (hp : Poised h) : CanEnd nodeId h := by
  obtain ⟨w, p⟩ := h
  unfold Poised at hp
  cases hawaiting : w.awaiting with
  | none =>
    simp only [hawaiting] at hp
    exact hp.canEnd hdistinct hphased hawaiting
  | some call =>
    simp only [hawaiting] at hp
    obtain ⟨again, go, hwhere, hround, hskip, hgo⟩ := hp
    have hread := reading_canEnd hdistinct hround hskip
      (fun reply hne => (hgo reply hne).canEnd hdistinct) hphased hawaiting
    rcases hwhere with rfl | rfl
    · exact (proceeds_unroll hround).canEnd hread
    · exact hread

end Qup.EndToEnd
