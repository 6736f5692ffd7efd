import Qup.TestNode.Dispatch
import Qup.Foundation.Transition

/-!
# The test node

All tasks of the node over its shared state: one task for each connection, the
voltage task, and one task for each scheduled mirror update. A step is one
request of one task, or something from outside: a client connects, a frame is
read, a timer fires, a writer fails. What is recorded beside the state of the
source is the order of the accesses to stored values and, with every frame of a
queue, what its sender was doing.
-/

namespace Qup.TestNode
open Foundation

/-- An access to a stored value and what was found there. -/
inductive Access where
  | load (cell : Cell) (value : cell.Value)
  | swap (cell : Cell) (previous value : cell.Value)
  deriving DecidableEq

/-- A frame in a connection's queue. -/
structure Sent where
  frame : MessageRef
  request : Option RequestRef
  /-- The sender's last access to a stored value. -/
  access : Option ℕ
  /-- The number of accesses made when the frame was put in. -/
  time : ℕ
  deriving DecidableEq

structure Task where
  request : Option RequestRef
  program : Action Empty Bool
  access : Option ℕ

def Task.next (task : Task) : Option Op :=
  match task.program with
  | .act o _ => some o
  | _ => none

inductive Stage where
  | accepted
  | reading
  | dispatching (task : Task)
  | closing
  | ended

structure Connection where
  observedMask : ObservedMask
  writing : Bool
  registered : Bool
  stage : Stage
  queue : List Sent

namespace Connection

def new : Connection := ⟨.new, true, false, .accepted, []⟩

def task (conn : Connection) : Option Task :=
  match conn.stage with
  | .dispatching task => some task
  | _ => none

def put (conn : Connection) (entry : Sent) : Connection :=
  if conn.writing then { conn with queue := conn.queue ++ [entry] } else conn

end Connection

structure Node where
  store : (cell : Cell) → cell.Value
  counters : Counter → UInt64
  elapsed : UInt64
  connections : List Connection
  voltage : Option Task
  mirrors : List Task
  log : List Access

inductive TaskId where
  | connection (c : ℕ)
  | voltage
  | mirror (j : ℕ)
  deriving DecidableEq

inductive Label where
  | accept
  | register (c : ℕ)
  | receive (c : ℕ) (frame : Option (List UInt8))
  | unregister (c : ℕ)
  | writerFailed (c : ℕ)
  | second
  | voltageTick
  | act (t : TaskId)
  deriving DecidableEq

def Label.request (c : ℕ) (request : RequestRef) : Label :=
  .receive c (some (frameBytes request.opcode request.payload))

def Task.dispatch (c : ℕ) (message : MessageRef) : Task where
  request := match message with
    | .request request => some request
    | _ => none
  program := dispatchMessage c message
  access := none

def Task.background (program : Action Empty Unit) : Task where
  request := none
  program := program >>= fun _ => pure true
  access := none

def Op.isAccess : Op → Bool
  | .load _ | .swap _ _ => true
  | _ => false

namespace Node

def initial (seed : UInt64) : Node where
  store := Cell.initial
  counters := fun counter => match counter with
    | .rngSeed => seed
    | .mirrorGeneration => 0
  elapsed := 0
  connections := []
  voltage := none
  mirrors := []
  log := []

def queue (s : Node) (c : ℕ) : List Sent := (s.connections[c]?).elim [] Connection.queue

def observes (s : Node) (c : ℕ) (keyref : UInt16) : Bool :=
  (s.connections[c]?).any fun conn => conn.observedMask.isObserving keyref

def writing (s : Node) (c : ℕ) : Bool := (s.connections[c]?).any Connection.writing

def task (s : Node) : TaskId → Option Task
  | .connection c => (s.connections[c]?).bind Connection.task
  | .voltage => s.voltage
  | .mirror j => s.mirrors[j]?

def tasks (s : Node) : List Task :=
  s.connections.filterMap Connection.task ++ s.voltage.toList ++ s.mirrors

def modify (s : Node) (c : ℕ) (f : Connection → Connection) : Node :=
  { s with connections := s.connections.modify c f }

def setStage (s : Node) (c : ℕ) (stage : Stage) : Node :=
  s.modify c fun conn => { conn with stage := stage }

def setTask (s : Node) (task : Task) : TaskId → Node
  | .connection c => s.setStage c (.dispatching task)
  | .voltage => { s with voltage := some task }
  | .mirror j => { s with mirrors := s.mirrors.set j task }

def answer (s : Node) : (o : Op) → o.Res
  | .load cell => s.store cell
  | .swap cell _ => s.store cell
  | .loadCounter counter => s.counters counter
  | .fetchAdd counter _ => s.counters counter
  | .elapsed => s.elapsed
  | .connections =>
    (List.range s.connections.length).filter fun c => (s.connections[c]?).any Connection.registered
  | .isObserving c keyref => s.observes c keyref
  | .send c _ => s.writing c
  | .observe _ _ | .unobserve _ _ | .scheduleMirrorUpdate _ => ()

def entry (s : Node) (t : TaskId) (task : Task) (c : ℕ) (frame : MessageRef) : Sent where
  frame := frame
  request := if t = .connection c then task.request else none
  access := task.access
  time := s.log.length

def effect (s : Node) (t : TaskId) (task : Task) : Op → Node
  | .load cell => { s with log := s.log ++ [.load cell (s.store cell)] }
  | .swap cell value =>
    { s with
      store := Function.update s.store cell value
      log := s.log ++ [.swap cell (s.store cell) value] }
  | .fetchAdd counter amount =>
    { s with counters := Function.update s.counters counter (s.counters counter + amount) }
  | .observe c keyref =>
    s.modify c fun conn => { conn with observedMask := conn.observedMask.observe keyref }
  | .unobserve c keyref =>
    s.modify c fun conn => { conn with observedMask := conn.observedMask.unobserve keyref }
  | .send c frame => s.modify c fun conn => conn.put (s.entry t task c frame)
  | .scheduleMirrorUpdate generation =>
    { s with mirrors := s.mirrors ++ [.background (flushMirrorUpdate generation)] }
  | .loadCounter _ | .elapsed | .connections | .isObserving _ _ => s

def advance (s : Node) (task : Task) (o : Op) (k : o.Res → Action Empty Bool) : Task where
  request := task.request
  program := k (s.answer o)
  access := if o.isAccess then some s.log.length else task.access

def finish (s : Node) (goesOn : Bool) : TaskId → Option Node
  | .connection c => some (s.setStage c (if goesOn then .reading else .closing))
  | .voltage => some { s with voltage := none }
  | .mirror _ => none

def act (s : Node) (t : TaskId) : Option Node :=
  match s.task t with
  | none => none
  | some task =>
    match task.program with
    | .ret goesOn => s.finish goesOn t
    | .fail e => nomatch e
    | .act o k => some ((s.effect t task o).setTask (s.advance task o k) t)

def receive (s : Node) (c : ℕ) (frame : Option (List UInt8)) : Node :=
  match frame.bind readNextMessage with
  | none => s.setStage c .closing
  | some message => s.setStage c (.dispatching (.dispatch c message))

def step (s : Node) : Label → Option Node
  | .accept => some { s with connections := s.connections ++ [.new] }
  | .register c =>
    match (s.connections[c]?).map Connection.stage with
    | some .accepted =>
      some (s.modify c fun conn => { conn with registered := true, stage := .reading })
    | _ => none
  | .receive c frame =>
    match (s.connections[c]?).map Connection.stage with
    | some .reading => some (s.receive c frame)
    | _ => none
  | .unregister c =>
    match (s.connections[c]?).map Connection.stage with
    | some .closing =>
      some (s.modify c fun conn => { conn with registered := false, stage := .ended })
    | _ => none
  | .writerFailed c => some (s.modify c fun conn => { conn with writing := false })
  | .second => some { s with elapsed := s.elapsed + 1 }
  | .voltageTick =>
    match s.voltage with
    | none => some { s with voltage := some (.background updateVoltage) }
    | some _ => none
  | .act t => s.act t

end Node
end Qup.TestNode
