import Qup.EndToEnd.Host
import Qup.EndToEnd.Monitor
import Qup.EndToEnd.Connected

/-!
# The monitor and a node

The worker of the monitor over connection after connection to a node that keeps to
its key table: the test node, while other clients come, send what they like and go,
or a server. A connection may break at any time; frames reach the worker whole, and no
deadline passes inside one. Everything the worker tells the interface is true of the
key table.
-/

namespace Qup.EndToEnd
open Foundation Foundation.Routine Foundation.Utf8 Link
open Client (Call ClientError IoError Message)
open Embassy (Memory Server programs)
open Tui (NetworkEvent WorkerCommand)
open TestNode (Label Node)

/-- A node as the worker meets it, with and without a connection. -/
structure Station (σ μ ℓ : Type) where
  world : World σ Client.Async.Op.Res Unit ℓ
  connect : σ → μ → Option σ
  idle : σ → ℓ → Option σ

/-- The node keeps to its key table: `I` ties a connection to what is said on it, and `J` holds at
any time. -/
structure Station.Keeps {σ μ ℓ : Type} (station : Station σ μ ℓ) (profile : Profile)
    (I : σ → Talk → Prop) (J : σ → Prop) : Prop where
  world : station.world.Keeps (talking fun _ => True) profile.Promises I
  rests : ∀ {p talk}, I p talk → J p
  connect : ∀ {p m p'}, J p → station.connect p m = some p' → I p' (.idle [])
  idle : ∀ {p a p'}, J p → station.idle p a = some p' → J p'

/-- The worker's surroundings, with what was said on the last connection, and the log. -/
structure Watcher (σ : Type) where
  port : σ
  connected : Bool
  talk : Talk
  log : List Happening

inductive Answer (μ : Type) where
  | network
  | connected (choice : μ)
  | refused (error : IoError)
  | broken (error : IoError)
  | elapsed
  | clock (instant : ℕ)
  | viewer (present : Bool)
  | command (command : Option WorkerCommand)

section
variable {σ μ ℓ : Type} {station : Station σ μ ℓ}

namespace Watcher

def asking (w : Watcher σ) (call : Call) : Except IoError Unit → Watcher σ
  | .ok () => { w with talk := ⟨w.talk.exchanges, some call⟩ }
  | .error _ => w

def hearing (w : Watcher σ) (reply : Except ClientError Message) : Watcher σ :=
  { w with talk := w.talk.hear reply, log := answers w.talk.awaiting reply ++ w.log }

def breaking (w : Watcher σ) (error : IoError) : Watcher σ :=
  { w.hearing (.error (.io error)) with connected := false }

def note (w : Watcher σ) : (o : Client.Async.Op) → o.Res → Watcher σ
  | .send call, sent => w.asking call sent
  | .nextMessage, reply => w.hearing reply

def network (station : Station σ μ ℓ) (w : Watcher σ) (o : Client.Async.Op) :
    Option (o.Res × Watcher σ) :=
  if w.connected then
    (station.world.serve w.port () o).map fun reply =>
      (reply.1, ({ w with port := reply.2 } : Watcher σ).note o reply.1)
  else none

/-- The client is dropped before its end is told. -/
def emit (w : Watcher σ) (event : NetworkEvent) (present : Bool) : Watcher σ where
  port := w.port
  connected := match event with
    | .disconnected _ => false
    | _ => w.connected
  talk := w.talk
  log := if present then .sent event :: w.log else w.log

def serve (station : Station σ μ ℓ) (w : Watcher σ) :
    Answer μ → (o : Tui.Op) → Option (o.Res × Watcher σ)
  | .connected choice, .connect =>
    (station.connect w.port choice).map fun port =>
      (.ok (), { w with port, connected := true, talk := .idle [] })
  | .refused error, .connect =>
    some (.error error, { w with connected := false, talk := .idle [] })
  | .network, .send call => w.network station (.send call)
  | .network, .nextMessage => w.network station .nextMessage
  | .network, .nextMessageTimeout _ =>
    (w.network station .nextMessage).map fun reply => (reply.1.map some, reply.2)
  | .broken error, .send _ => some (.error error, { w with connected := false })
  | .broken error, .nextMessage => some (.error (.io error), w.breaking error)
  | .broken error, .nextMessageTimeout _ => some (.error (.io error), w.breaking error)
  | .elapsed, .nextMessageTimeout _ => some (.ok none, w)
  | .clock instant, .now => some (instant, w)
  | .viewer present, .emit event => some (present, w.emit event present)
  | .command command, .tryRecv =>
    some (command, { w with log := (command.map Happening.took).toList ++ w.log })
  | .elapsed, .sleep => some ((), w)
  | _, _ => none

def move (station : Station σ μ ℓ) (w : Watcher σ) (a : ℓ) : Option (Watcher σ) :=
  (if w.connected then station.world.move w.port a else station.idle w.port a).map fun port =>
    { w with port }

def world (station : Station σ μ ℓ) : World (Watcher σ) Tui.Op.Res (Answer μ) ℓ :=
  ⟨serve station, move station⟩

def start (p : σ) : Watcher σ := ⟨p, false, .idle [], []⟩

end Watcher

structure Watches (profile : Profile) (I : σ → Talk → Prop) (J : σ → Prop) (w : Watcher σ)
    (desk : Desk) : Prop where
  rests : J w.port
  attends : w.connected = true → I w.port w.talk
  desk_eq : desk = ⟨w.talk, w.log⟩
  justified : Justified (Happening.Allowed profile) w.log

variable {profile : Profile} {I : σ → Talk → Prop} {J : σ → Prop} {w w' : Watcher σ} {desk : Desk}

theorem watches_start {p : σ} (h : J p) : Watches profile I J (.start p) ⟨.idle [], []⟩ := by
  refine ⟨h, fun hconnected => ?_, rfl, trivial⟩
  cases hconnected

theorem Watches.broken (h : Watches profile I J w desk) :
    Watches profile I J { w with connected := false } desk := by
  refine ⟨h.rests, fun hconnected => ?_, h.desk_eq, h.justified⟩
  cases hconnected

theorem Watches.breaking (h : Watches profile I J w desk) (error : IoError) :
    Watches profile I J (w.breaking error) (desk.hear (.error (.io error))) := by
  obtain rfl := h.desk_eq
  refine ⟨h.rests, fun hconnected => ?_, rfl, h.justified⟩
  cases hconnected

theorem justified_hear {talk : Talk} {reply : Except ClientError Message} {log : List Happening}
    (hpromise : profile.Promises talk .nextMessage reply)
    (hlog : Justified (Happening.Allowed profile) log) :
    Justified (Happening.Allowed profile) (answers talk.awaiting reply ++ log) := by
  rcases hpromise with ⟨r, rfl, -⟩ | ⟨call, m, hcall, rfl, hm⟩
  · exact hlog
  · rw [hcall, answers_response hm.ne_changed]
    exact ⟨hm, hlog⟩

theorem Watches.network (hstation : station.Keeps profile I J) (h : Watches profile I J w desk)
    {o : Client.Async.Op} {reply : o.Res} (hallows : (talking fun _ => True).allows w.talk o)
    (hserve : w.network station o = some (reply, w')) :
    profile.Promises w.talk o reply ∧ Watches profile I J w' ⟨w'.talk, w'.log⟩ ∧
      w' = ({ w with port := w'.port } : Watcher σ).note o reply := by
  obtain ⟨hconnected, hserve⟩ := Option.ite_none_right_eq_some.mp hserve
  obtain ⟨⟨reply', port⟩, hserved, hpair⟩ := Option.map_eq_some_iff.mp hserve
  obtain ⟨rfl, rfl⟩ := Prod.mk.inj hpair
  obtain ⟨hpromise, hattends⟩ := hstation.world.serve (h.attends hconnected) hallows hserved
  cases o with
  | send call =>
    cases reply' with
    | error error =>
      exact ⟨hpromise, ⟨hstation.rests hattends, fun _ => hattends, rfl, h.justified⟩, rfl⟩
    | ok =>
      exact ⟨hpromise, ⟨hstation.rests hattends, fun _ => hattends, rfl, h.justified⟩, rfl⟩
  | nextMessage =>
    exact ⟨hpromise, ⟨hstation.rests hattends, fun _ => hattends, rfl,
      justified_hear hpromise h.justified⟩, rfl⟩

theorem Watches.emit (h : Watches profile I J w desk) {event : NetworkEvent}
    (hevent : MaySend profile desk.log event) (present : Bool) :
    Watches profile I J (w.emit event present)
      ((monitoring profile).next desk (.emit event) present) := by
  have hattends : (w.emit event present).connected = true →
      I (w.emit event present).port w.talk := by
    intro hconnected
    cases event with
    | disconnected error => cases hconnected
    | _ => exact h.attends hconnected
  obtain rfl := h.desk_eq
  cases present with
  | true => exact ⟨h.rests, hattends, rfl, hevent, h.justified⟩
  | false => exact ⟨h.rests, hattends, rfl, h.justified⟩

theorem Watches.move (hstation : station.Keeps profile I J) (h : Watches profile I J w desk) {a : ℓ}
    (hmove : w.move station a = some w') : Watches profile I J w' desk := by
  obtain ⟨port, hport, rfl⟩ := Option.map_eq_some_iff.mp hmove
  split_ifs at hport with hconnected
  · have hattends := hstation.world.move (h.attends hconnected) hport
    exact ⟨hstation.rests hattends, fun _ => hattends, h.desk_eq, h.justified⟩
  · exact ⟨hstation.idle h.rests hport, fun hc => absurd hc hconnected, h.desk_eq, h.justified⟩

theorem watcher_keeps (hstation : station.Keeps profile I J) :
    (Watcher.world station).Keeps (monitoring profile) profile.Tells (Watches profile I J) where
  serve := by
    intro w w' desk answer o reply h hallows hserve
    obtain rfl := h.desk_eq
    have hread : (talking fun _ => True).allows w.talk .nextMessage := trivial
    cases o with
    | connect =>
      cases answer with
      | connected choice =>
        obtain ⟨port, hport, hpair⟩ := Option.map_eq_some_iff.mp hserve
        cases hpair
        have hattends := hstation.connect h.rests hport
        exact ⟨trivial, hstation.rests hattends, fun _ => hattends, rfl, h.justified⟩
      | refused error =>
        cases hserve
        refine ⟨trivial, h.rests, fun hconnected => ?_, rfl, h.justified⟩
        cases hconnected
      | _ => cases hserve
    | send call =>
      cases answer with
      | network =>
        have hsend : (talking fun _ => True).allows w.talk (.send call) := ⟨hallows, trivial⟩
        obtain ⟨-, hnext, hw⟩ := h.network hstation hsend hserve
        refine ⟨trivial, ?_⟩
        rw [hw] at hnext ⊢
        cases reply <;> exact hnext
      | broken error =>
        cases hserve
        exact ⟨trivial, h.broken⟩
      | _ => cases hserve
    | nextMessage =>
      cases answer with
      | network =>
        obtain ⟨hpromise, hnext, hw⟩ := h.network hstation hread hserve
        rw [hw] at hnext ⊢
        exact ⟨.inl hpromise, hnext⟩
      | broken error =>
        cases hserve
        exact ⟨.inr ⟨error, rfl⟩, h.breaking error⟩
      | _ => cases hserve
    | nextMessageTimeout wait =>
      cases answer with
      | network =>
        obtain ⟨⟨message, w₁⟩, hserved, hpair⟩ := Option.map_eq_some_iff.mp hserve
        obtain ⟨rfl, rfl⟩ := Prod.mk.inj hpair
        obtain ⟨hpromise, hnext, hw⟩ := h.network hstation hread hserved
        refine ⟨.inr (.inr ⟨message, rfl, hpromise⟩), ?_⟩
        rw [hw] at hnext ⊢
        cases message <;> exact hnext
      | broken error =>
        cases hserve
        exact ⟨.inr (.inl ⟨error, rfl⟩), h.breaking error⟩
      | elapsed =>
        cases hserve
        exact ⟨.inl rfl, h⟩
      | _ => cases hserve
    | now =>
      cases answer with
      | clock instant =>
        cases hserve
        exact ⟨trivial, h⟩
      | _ => cases hserve
    | emit event =>
      cases answer with
      | viewer present =>
        cases hserve
        exact ⟨trivial, h.emit hallows reply⟩
      | _ => cases hserve
    | tryRecv =>
      cases answer with
      | command command =>
        cases hserve
        refine ⟨trivial, ?_⟩
        cases reply with
        | none => exact h
        | some command => exact ⟨h.rests, h.attends, rfl, hallows, h.justified⟩
      | _ => cases hserve
    | sleep =>
      cases answer with
      | elapsed =>
        cases hserve
        exact ⟨trivial, h⟩
      | _ => cases hserve
  move h hmove := h.move hstation hmove

end

structure NodePort where
  connection : ℕ
  link : NodeLink

def NodePort.start (s : Node) : NodePort := ⟨0, s, [], 0⟩

def nodeStation : Station NodePort Unit NodeAct where
  world := {
    serve := fun p c o => ((nodeWorld p.connection).serve p.link c o).map fun reply =>
      (reply.1, { p with link := reply.2 })
    move := fun p a => ((nodeWorld p.connection).move p.link a).map fun link => { p with link } }
  connect p _ := some ⟨p.link.node.connections.length, connect p.link.node⟩
  idle p a :=
    match a with
    | .deliver => none
    | .node l => (p.link.node.step l).map fun node => { p with link := { p.link with node } }

def NodePort.Reached (seed : UInt64) (p : NodePort) : Prop :=
  ∃ ls, Path Node.step (fun _ _ => True) (Node.initial seed) ls p.link.node

def NodePort.Attends (seed : UInt64) (p : NodePort) (talk : Talk) : Prop :=
  EndToEnd.Attends seed p.connection (fun _ => True) p.link talk

theorem nodeStation_keeps (seed : UInt64) :
    nodeStation.Keeps testNode (NodePort.Attends seed) (NodePort.Reached seed) where
  world := {
    serve := by
      intro p p' talk c o reply hattends hallows hserve
      obtain ⟨⟨reply', link⟩, hserved, hpair⟩ := Option.map_eq_some_iff.mp hserve
      obtain ⟨rfl, rfl⟩ := Prod.mk.inj hpair
      exact (nodeWorld_keeps seed p.connection fun _ => True).serve hattends hallows hserved
    move := by
      intro p p' talk a hattends hmove
      obtain ⟨link, hlink, rfl⟩ := Option.map_eq_some_iff.mp hmove
      exact (nodeWorld_keeps seed p.connection fun _ => True).move hattends hlink }
  rests := by
    rintro p talk ⟨⟨ls, rest, hrun, -⟩, -, -, -⟩
    exact ⟨ls, hrun⟩
  connect := by
    rintro p m p' ⟨ls, hrun⟩ hconnect
    cases hconnect
    exact attends_connect hrun trivial
  idle := by
    rintro p a p' ⟨ls, hrun⟩ hidle
    cases a with
    | deliver => cases hidle
    | node l =>
      obtain ⟨node, hstep, rfl⟩ := Option.map_eq_some_iff.mp hidle
      exact ⟨ls ++ [l], .snoc hrun trivial hstep⟩

section
variable {N : ℕ} (server : Server N) (nodeId : Str)

def serverStation : Station (Pair server) (Memory server.keys) (Act server.keys) where
  world := linkWorld (programs server nodeId)
  connect _ memory := some (Link.initial (programs server nodeId) memory)
  idle _ _ := none

theorem serverStation_keeps (hdistinct : server.Distinct) :
    (serverStation server nodeId).Keeps (Server.profile server nodeId)
      (Accompanies nodeId fun _ => True) fun _ => True where
  world := linkWorld_keeps hdistinct _
  rests _ := trivial
  connect := by
    intro k memory k' _ hconnect
    cases hconnect
    exact accompanies_initial trivial memory
  idle _ _ := trivial

end

abbrev WatcherRun (σ : Type) := Hosted (Watcher σ) Tui.Op.Res Empty Unit

def watch {σ μ ℓ : Type} (station : Station σ μ ℓ) :
    WatcherRun σ → Beat (Answer μ) ℓ → Option (WatcherRun σ) := Hosted.step (Watcher.world station)

def watchStart {σ : Type} (p : σ) : WatcherRun σ := ⟨.start p, Tui.connectionManager⟩

/-- Over all its connections the worker only tells what is so: the node's own table with every
readable key read, values that the node has answered, the answer to each write that it has taken,
and that a connection is gone because it has broken, a deadline has passed or the interface is
gone. -/
theorem monitor_truthful {seed : UInt64} {ls : List Label} {s : Node}
    (hbefore : Path Node.step (fun _ _ => True) (Node.initial seed) ls s)
    {beats : List (Beat (Answer Unit) NodeAct)} {h : WatcherRun NodePort}
    (hrun : Path (watch nodeStation) (fun _ _ => True) (watchStart (.start s)) beats h) :
    Justified (Happening.Allowed testNode) h.world.log := by
  have hstart : Hosted.Follows (monitoring testNode) testNode.Tells
      (Watches testNode (NodePort.Attends seed) (NodePort.Reached seed)) (fun _ _ => True)
      (watchStart (.start s)) :=
    ⟨⟨.idle [], []⟩, watches_start ⟨ls, hbefore⟩, connectionManager_follows rfl⟩
  obtain ⟨desk, hwatches, -⟩ := hstart.path (watcher_keeps (nodeStation_keeps seed)) hrun
  exact hwatches.justified

def nodeActs (n : ℕ) : List (Beat (Answer Unit) NodeAct) :=
  List.replicate n (.move (.node (.act (.connection 0))))

def fetching : List (Beat (Answer Unit) NodeAct) :=
  [.request .network, .unroll] ++ nodeActs 1 ++ [.move .deliver] ++ nodeActs 1 ++ [.request .network]

def asked (before after : ℕ) : List (Beat (Answer Unit) NodeAct) :=
  [.request .network, .request (.clock 0), .unroll, .request (.clock 0)] ++ nodeActs before ++
    [.move .deliver] ++ nodeActs after ++ [.request .network]

def reading (before after : ℕ) : List (Beat (Answer Unit) NodeAct) :=
  asked before after ++ [.request (.clock 0)]

def observingRow : List (Beat (Answer Unit) NodeAct) := asked 1 1 ++ reading 2 2

def watching : List (Beat (Answer Unit) NodeAct) :=
  [.unroll, .request (.viewer true), .request (.connected ()), .request .network, .unroll,
    .move (.node (.register 0)), .move .deliver] ++ nodeActs 1 ++ [.request .network] ++
    (List.replicate 15 fetching).flatten ++ observingRow ++ reading 1 2 ++
    (List.replicate 6 observingRow).flatten ++ reading 1 2 ++ reading 1 1 ++
    [.request (.viewer true)]

def watchedWrite : List (Beat (Answer Unit) NodeAct) :=
  [.request (.clock 0), .unroll, .unroll, .unroll,
    .request (.command (some (.writeValue TestNode.keyGp2U64 (.i64 7))))] ++ reading 1 2 ++
    [.request (.viewer true), .unroll, .request (.command none), .unroll] ++ nodeActs 3 ++
    [.request .network, .request (.clock 0), .unroll, .unroll, .request (.command none), .unroll] ++
    reading 1 2 ++ [.request (.viewer true)]

def reconnecting : List (Beat (Answer Unit) NodeAct) :=
  [.unroll, .request (.broken ⟨.unexpectedEof, ""⟩), .request (.viewer true), .request .elapsed,
    .unroll, .request (.viewer true), .request (.connected ())]

def watchedLog : List Happening :=
  [.sent .connecting,
    .sent (.disconnected (.connectionLost (.io ⟨.unexpectedEof, ""⟩))),
    .sent (.valueUpdated TestNode.keyGp2U64 (.formatted (.i64 7)) (some 0)),
    .answered (.get TestNode.keyGp2U64) (.value (.i64 7)),
    .sent (.writeSucceeded TestNode.keyGp2U64 (.formatted (.i64 7)) 0),
    .answered (.write TestNode.keyGp2U64 (.i64 7)) (.written (.i64 7)),
    .took (.writeValue TestNode.keyGp2U64 (.i64 7))]

theorem monitor_truthful_write : ∃ h : WatcherRun NodePort,
    Path (watch nodeStation) (fun _ _ => True) (watchStart (.start (Node.initial 0)))
        (watching ++ watchedWrite ++ reconnecting) h ∧
      h.world.log.take 7 = watchedLog ∧ h.world.connected = true ∧
      Justified (Happening.Allowed testNode) h.world.log := by
  have hrun : (runLabels (watch nodeStation) (watchStart (.start (Node.initial 0)))
      (watching ++ watchedWrite ++ reconnecting)).map
      (fun h => (h.world.log.take 7, h.world.connected)) = some (watchedLog, true) := by
    decide +kernel
  obtain ⟨h, hh, hend⟩ := Option.map_eq_some_iff.mp hrun
  obtain ⟨hlog, hconnected⟩ := Prod.mk.inj hend
  have hpath := Path.of_runLabels hh
  exact ⟨h, hpath, hlog, hconnected, monitor_truthful (.nil _) hpath⟩

end Qup.EndToEnd
