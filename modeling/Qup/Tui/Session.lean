import Qup.Tui.App
import Qup.Tui.Network
import Qup.Foundation.Transition

/-!
# The monitor over all its connections

The worker, the interface and the two channels between them. Connections are
counted from 1, and what is chosen in the interface is kept with the count of the
connection whose table it was chosen from. The node, the clock, the layout and the
user do anything.
-/

namespace Qup.Tui
open Foundation Foundation.Routine Client

structure Submission where
  command : WorkerCommand
  table : ℕ
  deriving DecidableEq

structure Sent where
  connection : ℕ
  keyref : UInt16
  value : Value
  submission : Option Submission
  deriving DecidableEq

inductive Viewer where
  | draining
  | polling
  | gone
  deriving DecidableEq

structure Session where
  routine : Action Empty Unit
  viewer : Viewer
  app : App
  events : List (ℕ × NetworkEvent)
  commands : List Submission
  connection : ℕ
  up : Bool
  tables : List (ℕ × List KeyInfo)
  /-- The connection that delivered `app.keys`. -/
  table : ℕ
  /-- The connection that delivered the table on which the modal was opened. -/
  modalTable : ℕ
  taken : Option Submission
  writes : List Sent

namespace Session

def initial : Session := ⟨connectionManager, .draining, .new, [], [], 0, false, [], 0, 0, none, []⟩

/-- What the channels answer to the worker. Nothing else is known of its answers. -/
def answers (s : Session) : (o : Op) → o.Res → Bool
  | .emit _, sent => sent || s.viewer = .gone
  | .tryRecv, command => command = s.commands.head?.map Submission.command
  | _, _ => true

def push (s : Session) (event : NetworkEvent) : Session :=
  match event with
  | .connected _ rows => { s with
      events := s.events ++ [(s.connection, event)]
      tables := s.tables ++ [(s.connection, rows.map KeyRow.info)] }
  | event => { s with events := s.events ++ [(s.connection, event)] }

def mark (s : Session) : NetworkEvent → Session
  | .connected _ _ => { s with up := true, taken := none }
  | .disconnected _ => { s with up := false, taken := none }
  | _ => s

def perform (s : Session) : (o : Op) → o.Res → Session
  | .connect, _ => { s with connection := s.connection + 1, up := false, taken := none }
  | .send (.write keyref value), _ =>
    { s with writes := s.writes ++ [⟨s.connection, keyref, value, s.taken⟩], taken := none }
  | .send _, _ => { s with taken := none }
  | .emit event, sent => (if sent then s.push event else s).mark event
  | .tryRecv, _ => { s with taken := s.commands.head?, commands := s.commands.tail }
  | _, _ => s

def isOpen (s : Session) : Bool :=
  match s.routine with
  | .ret _ => false
  | _ => true

def handled (s : Session) (geometry : UiGeometry) (event : Event) : Handled :=
  handleEvent s.isOpen s.app geometry event

def origin (s : Session) : ℕ := if s.app.modal.isSome then s.modalTable else s.table

def input (s : Session) (handled : Handled) : Session :=
  { s with
    app := handled.app
    viewer := if handled.outcome.quit then .gone else .draining
    modalTable := s.origin
    commands := s.commands ++ (handled.command.map fun command => ⟨command, s.origin⟩).toList }

def update (s : Session) (connection : ℕ) (event : NetworkEvent) : Session :=
  { s with
    app := s.app.apply event
    table := match event with
      | .connected _ _ => connection
      | _ => s.table }

end Session

inductive Label where
  | worker (o : Op) (r : o.Res)
  | unroll
  | update
  | poll
  | timeout
  | input (geometry : UiGeometry) (event : Event)
  | abort

def Session.step (s : Session) : Label → Option Session
  | .worker o r =>
    if s.answers o r then
      (s.routine.answer o r).map fun routine => { s.perform o r with routine }
    else none
  | .unroll => s.routine.unroll.map fun routine => { s with routine }
  | .update =>
    match s.viewer, s.events with
    | .draining, (connection, event) :: events =>
      some { s.update connection event with events }
    | _, _ => none
  | .poll =>
    if s.viewer = .draining ∧ s.events = [] then some { s with viewer := .polling } else none
  | .timeout => if s.viewer = .polling then some { s with viewer := .draining } else none
  | .input geometry event =>
    if s.viewer = .polling ∧ geometry.modal.isSome = s.app.modal.isSome then
      some (s.input (s.handled geometry event))
    else none
  | .abort => if s.viewer = .gone then some { s with routine := .ret () } else none

end Qup.Tui
