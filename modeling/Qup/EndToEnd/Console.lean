import Qup.Cli.Commands
import Qup.EndToEnd.Named

/-!
# The test client at a terminal

The routines of the test client in a world of their own: a node that the client
talks to over channels of whole frames, and a terminal whose user types any lines at
any time and that does not fail. A deadline of the client passes between two frames.
-/

namespace Qup.EndToEnd
open Foundation Foundation.Routine Foundation.Utf8
open Embassy (Memory Server programs)
open Client (Call)
open Cli (Failure Input Line)

inductive Shown where
  | read (input : Input)
  | printed (line : Line)
  deriving DecidableEq

structure Console (σ : Type) where
  node : σ
  shown : List Shown

inductive Given (κ : Type) where
  | network (c : κ)
  | elapsed
  | terminal (input : Input)

section
variable {σ κ ℓ : Type}

def consoleServe (W : World σ Client.Async.Op.Res κ ℓ) (k : Console σ) :
    Given κ → (o : Cli.Op) → Option (o.Res × Console σ)
  | .network c, .client o =>
    (W.serve k.node c o).map fun reply => (reply.1, { k with node := reply.2 })
  | .network c, .nextMessageTimeout _ =>
    (W.serve k.node c .nextMessage).map fun reply => (reply.1.map some, { k with node := reply.2 })
  | .elapsed, .nextMessageTimeout _ => some (.ok none, k)
  | .terminal input, .readLine => some (input, { k with shown := k.shown ++ [.read input] })
  | .terminal _, .print line => some ((), { k with shown := k.shown ++ [.printed line] })
  | _, _ => none

def consoleWorld (W : World σ Client.Async.Op.Res κ ℓ) : World (Console σ) Cli.Op.Res (Given κ) ℓ where
  serve := consoleServe W
  move k l := (W.move k.node l).map fun node => { k with node }

end

structure Visit where
  talk : Talk
  shown : List Shown

namespace Visit

def start : Visit := ⟨.idle [], []⟩

def read (visit : Visit) (input : Input) : Visit :=
  { visit with shown := visit.shown ++ [.read input] }

def print (visit : Visit) (line : Line) : Visit :=
  { visit with shown := visit.shown ++ [.printed line] }

end Visit

/-- The calls lead on in `A`, a line is printed only where `T` holds after it, and one
is read only in `P`. -/
def consoling (A : List Call → Prop) (P T : Visit → Prop) : Discipline Cli.Op.Res Visit where
  allows
    | visit, .client o => (talking A).allows visit.talk o
    | _, .nextMessageTimeout _ => True
    | visit, .print line => T (visit.print line)
    | visit, .readLine => P visit
  next
    | visit, .client o, reply => { visit with talk := (talking A).next visit.talk o reply }
    | visit, .nextMessageTimeout _, .ok (some message) =>
      { visit with talk := visit.talk.hear (.ok message) }
    | visit, .nextMessageTimeout _, .ok none => visit
    | visit, .nextMessageTimeout _, .error error =>
      { visit with talk := visit.talk.hear (.error error) }
    | visit, .print line, _ => visit.print line
    | visit, .readLine, input => visit.read input

def Profile.Meets (profile : Profile) (visit : Visit) : (o : Cli.Op) → o.Res → Prop
  | .client o, reply => profile.Promises visit.talk o reply
  | .nextMessageTimeout _, reply => reply = .ok none ∨
      ∃ message, reply = message.map some ∧ profile.Promises visit.talk .nextMessage message
  | .print _, _ => True
  | .readLine, _ => True

/-- `T` outlasts what does not print. -/
structure Lasting (P T : Visit → Prop) : Prop where
  talk : ∀ {visit talk}, visit.talk.exchanges <+: talk.exchanges → T visit → T { visit with talk }
  read : ∀ {visit} input, P visit → T visit → T (visit.read input)

section
variable {σ κ ℓ ε α : Type} {W : World σ Client.Async.Op.Res κ ℓ} {profile : Profile}
  {A : List Call → Prop} {P T : Visit → Prop} {I : σ → Talk → Prop}

theorem prefix_next (talk : Talk) (o : Client.Async.Op) (reply : o.Res) :
    talk.exchanges <+: ((talking A).next talk o reply).exchanges := by
  cases o with
  | send call => cases reply <;> exact List.prefix_rfl
  | nextMessage =>
    cases reply with
    | error error => exact List.prefix_rfl
    | ok message =>
      cases message with
      | changed r => exact List.prefix_rfl
      | _ => exact List.prefix_append _ _

theorem consoleWorld_keeps (hW : W.Keeps (talking A) profile.Promises I) (hT : Lasting P T) :
    (consoleWorld W).Keeps (consoling A P T) profile.Meets
      (fun k visit => I k.node visit.talk ∧ k.shown = visit.shown ∧ T visit) where
  serve := by
    rintro k k' visit given o reply ⟨hI, hshown, hvisit⟩ hallows hserve
    cases o with
    | client o =>
      cases given with
      | network c =>
        obtain ⟨served, hserved, hpair⟩ := Option.map_eq_some_iff.mp hserve
        obtain ⟨rfl, rfl⟩ := Prod.mk.inj hpair
        obtain ⟨hpromise, hI'⟩ := hW.serve hI hallows hserved
        exact ⟨hpromise, hI', hshown, hT.talk (prefix_next _ _ _) hvisit⟩
      | _ => cases hserve
    | nextMessageTimeout ms =>
      cases given with
      | network c =>
        obtain ⟨⟨message, node⟩, hserved, hpair⟩ := Option.map_eq_some_iff.mp hserve
        obtain ⟨rfl, rfl⟩ := Prod.mk.inj hpair
        obtain ⟨hpromise, hI'⟩ := hW.serve (c := c) (o := .nextMessage) hI trivial hserved
        refine ⟨.inr ⟨message, rfl, hpromise⟩, ?_⟩
        cases message with
        | error error => exact ⟨hI', hshown, hT.talk List.prefix_rfl hvisit⟩
        | ok message =>
          exact ⟨hI', hshown, hT.talk (prefix_next (A := A) _ .nextMessage (.ok message)) hvisit⟩
      | elapsed =>
        cases hserve
        exact ⟨.inl rfl, hI, hshown, hvisit⟩
      | terminal input => cases hserve
    | print line =>
      cases given with
      | terminal input =>
        cases hserve
        exact ⟨trivial, hI, congrArg (· ++ [.printed line]) hshown, hallows⟩
      | _ => cases hserve
    | readLine =>
      cases given with
      | terminal input =>
        obtain ⟨rfl, rfl⟩ := Prod.mk.inj (Option.some.inj hserve)
        refine ⟨trivial, hI, ?_, hT.read _ hallows hvisit⟩
        change k.shown ++ _ = visit.shown ++ _
        rw [hshown]
      | _ => cases hserve
  move := by
    rintro k k' visit l ⟨hI, hshown, hvisit⟩ hmove
    obtain ⟨node, hnode, rfl⟩ := Option.map_eq_some_iff.mp hmove
    exact ⟨hW.move hI hnode, hshown, hvisit⟩

theorem consoleWorld_reachable {τ ℓ' : Type} {step : τ → ℓ' → Option τ} {view : σ → τ}
    (hserve : ∀ {w w' c o r}, W.serve w c o = some (r, w') → Reachable step (view w) (view w'))
    (hmove : ∀ {w w' l}, W.move w l = some w' → Reachable step (view w) (view w')) :
    (∀ {k k' given o r}, (consoleWorld W).serve k given o = some (r, k') →
      Reachable step (view k.node) (view k'.node)) ∧
        ∀ {k k' l}, (consoleWorld W).move k l = some k' →
          Reachable step (view k.node) (view k'.node) := by
  have hstill : ∀ w, Reachable step (view w) (view w) := fun w => ⟨[], .nil _⟩
  constructor
  · intro k k' given o r h
    cases o with
    | client o =>
      cases given with
      | network c =>
        obtain ⟨served, hserved, hpair⟩ := Option.map_eq_some_iff.mp h
        obtain ⟨rfl, rfl⟩ := Prod.mk.inj hpair
        exact hserve hserved
      | _ => cases h
    | nextMessageTimeout ms =>
      cases given with
      | network c =>
        obtain ⟨served, hserved, hpair⟩ := Option.map_eq_some_iff.mp h
        obtain ⟨rfl, rfl⟩ := Prod.mk.inj hpair
        exact hserve hserved
      | elapsed =>
        cases h
        exact hstill _
      | terminal input => cases h
    | print line =>
      cases given with
      | terminal input =>
        cases h
        exact hstill _
      | _ => cases h
    | readLine =>
      cases given with
      | terminal input =>
        cases h
        exact hstill _
      | _ => cases h
  · intro k k' l h
    obtain ⟨node, hnode, rfl⟩ := Option.map_eq_some_iff.mp h
    exact hmove hnode

theorem client_follows {method : Client.Async.Action ε α} {R : Talk → Except ε α → Prop}
    {visit : Visit} (h : method.Follows (talking A) profile.Promises R visit.talk) :
    (Cli.client method).Follows (consoling A P T) profile.Meets
      (fun next r => R next.talk r ∧ next.shown = visit.shown) visit := by
  have hallows : ∀ (visit : Visit) o, (talking A).allows visit.talk o →
      (consoling A P T).allows visit (.client o) := fun _ _ h => h
  have hmeets : ∀ (visit : Visit) o reply, profile.Meets visit (.client o) reply →
      profile.Promises visit.talk o reply := fun _ _ _ h => h
  have htalk : ∀ (visit : Visit) o reply, ((consoling A P T).next visit (.client o) reply).talk =
      (talking A).next visit.talk o reply := fun _ _ _ => rfl
  have hshown : ∀ (visit : Visit) o reply,
      ((consoling A P T).next visit (.client o) reply).shown = visit.shown := fun _ _ _ => rfl
  exact Follows.embed hallows hmeets htalk hshown h

theorem awaitMethod_follows {method : Client.Async.Action Client.ClientError α}
    {R : Visit → Except Failure α → Prop} {visit : Visit}
    (h : method.Follows (talking A) profile.Promises (fun talk r =>
      R { visit with talk } (r.mapError fun error => Cli.clientError (.client error))) visit.talk) :
    (Cli.awaitMethod method).Follows (consoling A P T) profile.Meets R visit := by
  refine .mapError ((client_follows h).mono fun next r hr => ?_)
  obtain ⟨hr, hshown⟩ := hr
  rwa [← hshown] at hr

theorem console_run (hW : W.Keeps (talking A) profile.Promises I) (hT : Lasting P T)
    (hstart : T .start) {node : σ} (hI : I node (.idle [])) {p : Cli.Action ε α}
    {R : Visit → Except ε α → Prop} (hp : p.Follows (consoling A P T) profile.Meets R .start)
    {beats : List (Beat (Given κ) ℓ)} {h : Hosted (Console σ) Cli.Op.Res ε α}
    (hrun : Path (Hosted.step (consoleWorld W)) (fun _ _ => True) ⟨⟨node, []⟩, p⟩ beats h) :
    ∃ visit, (I h.world.node visit.talk ∧ h.world.shown = visit.shown ∧ T visit) ∧
      h.routine.Follows (consoling A P T) profile.Meets R visit :=
  Hosted.Follows.path (consoleWorld_keeps hW hT) ⟨.start, ⟨hI, rfl, hstart⟩, hp⟩ hrun

end

section
variable {N : ℕ} {server : Server N} {nodeId : Str} {α : Type}

abbrev TerminalRun (server : Server N) (α : Type) :=
  Hosted (Console (Pair server)) Cli.Op.Res Failure α

def terminalStep (server : Server N) (nodeId : Str) {α : Type} :
    TerminalRun server α → Beat (Given Unit) (Act server.keys) → Option (TerminalRun server α) :=
  Hosted.step (consoleWorld (linkWorld (programs server nodeId)))

def terminalStart (server : Server N) (nodeId : Str) (memory : Memory server.keys)
    (routine : Cli.Action Failure α) : TerminalRun server α :=
  ⟨⟨Link.initial (programs server nodeId) memory, []⟩, routine⟩

theorem terminal_reachable {h h' : TerminalRun server α}
    {beats : List (Beat (Given Unit) (Act server.keys))}
    (hrun : Path (terminalStep server nodeId) (fun _ _ => True) h beats h') :
    Reachable (Link.step (programs server nodeId)) h.world.node h'.world.node := by
  obtain ⟨hserve, hmove⟩ := linkWorld_reachable (programs server nodeId)
  exact Hosted.reachable (consoleWorld_reachable hserve hmove).1
    (consoleWorld_reachable hserve hmove).2 hrun

def overNetwork {keys : Fin N → Embassy.ErasedKey} :
    Beat Unit (Act keys) → Beat (Given Unit) (Act keys)
  | .request c => .request (.network c)
  | .unroll => .unroll
  | .move a => .move a

theorem terminal_run (hdistinct : server.Distinct) {A : List Call → Prop} {P T : Visit → Prop}
    (hT : Lasting P T) (hA : A []) (hstart : T .start) {memory : Memory server.keys}
    {p : Cli.Action Failure α} {R : Visit → Except Failure α → Prop}
    (hp : p.Follows (consoling A P T) (Server.profile server nodeId).Meets R .start)
    {beats : List (Beat (Given Unit) (Act server.keys))} {h : TerminalRun server α}
    (hrun : Path (terminalStep server nodeId) (fun _ _ => True)
      (terminalStart server nodeId memory p) beats h) :
    ∃ visit, (Accompanies nodeId A h.world.node visit.talk ∧ h.world.shown = visit.shown ∧
      T visit) ∧ h.routine.Follows (consoling A P T) (Server.profile server nodeId).Meets R visit :=
  console_run (linkWorld_keeps hdistinct A) hT hstart (accompanies_initial hA memory) hp hrun

end

end Qup.EndToEnd
