import Qup.Embassy.Log
import Qup.Embassy.Move

/-!
# The session invariant

What each event of a connection owes to the events before it (`Allowed`), and
what the server's position, its two arrays and the generations have to do with
the log (`Position.Ok`). Together they are kept by every move, so that every
event of every run is allowed.
-/

namespace Qup.Embassy
open Foundation Foundation.Utf8

variable {N : ℕ}

def errorFrame (code : UInt8) : Frame := ⟨.error, [code]⟩

def okFrame : Frame := ⟨.ok, []⟩

abbrev Server.Distinct (server : Server N) : Prop :=
  Function.Injective fun i => (server.keys i).keyref

structure Server.Proper (server : Server N) : Prop where
  sized : server.Sized
  distinct : server.Distinct

section
variable (server : Server N) (nodeId : Str)

abbrev wireOf {server : Server N} {i : Fin N} (v : (server.keys i).type.Value) : ValueRef :=
  LawfulQupValue.wire v

def Refuses (i : Fin N) (w : WireValueRef) : Prop :=
  ∀ v : (server.keys i).type.Value, QupValue.decode w = .ok v → QupValue.validate v ≠ .ok ()

/-- The response to a request, from the registry and from what the handler did
since the request was served. -/
def Decides (log : List (Event server.keys)) (request : IncomingRequest) (f : Frame) : Prop :=
  match request with
  | .ping => f = okFrame
  | .identify => f = ⟨.identified, str16 nodeId⟩ ∧ WireStr nodeId
  | .getCaps => f = ⟨.caps, str16 server.caps⟩
  | .getKeytabLen => f = ⟨.keytablen, be16 server.keyCount⟩
  | .getKey r =>
    if server.keyCount ≤ r then f = errorFrame Server.errorUnknownKeyref
    else match server.findSlot r with
      | some i => f = ⟨.key, Phase.keyPayload (server.keys i)⟩
      | none => f = ⟨.key, [0x00, 0x00, 0x00]⟩
  | .get r =>
    if server.keyCount ≤ r then f = errorFrame Server.errorUnknownKeyref
    else match server.findSlot r with
      | some i =>
        if (server.keys i).readable then
          ∃ v, .readValue i v ∈ sinceServed log ∧ f = ⟨.value, (wireOf v).bytes⟩ ∧
            (wireOf v).OnWire
        else f = errorFrame Server.errorNotAllowed
      | none => f = errorFrame Server.errorNotAllowed
  | .write r w =>
    if server.keyCount ≤ r then f = errorFrame Server.errorUnknownKeyref
    else match server.findSlot r with
      | some i =>
        if (server.keys i).writable then
          (∃ v, .stored .server i v ∈ sinceServed log ∧ w = .ofValue (wireOf v) ∧
            f = ⟨.written, (wireOf v).bytes⟩ ∧ (wireOf v).OnWire) ∨
          (f = errorFrame Server.errorTypeMismatch ∧ Refuses server i w)
        else f = errorFrame Server.errorNotAllowed
      | none => f = errorFrame Server.errorNotAllowed
  | .observe r =>
    if server.keyCount ≤ r then f = errorFrame Server.errorUnknownKeyref
    else match server.findSlot r with
      | some i =>
        if (server.keys i).observable then f = okFrame else f = errorFrame Server.errorNotAllowed
      | none => f = errorFrame Server.errorNotAllowed
  | .unobserve r =>
    if server.keyCount ≤ r then f = errorFrame Server.errorUnknownKeyref else f = okFrame

def Quiet {keys : Fin N → ErasedKey} (log : List (Event keys)) : Prop :=
  ∀ i, (∀ v, Event.stored .server i v ∉ sinceServed log) ∧ Event.updated .server i ∉ sinceServed log

def Unread {keys : Fin N → ErasedKey} (log : List (Event keys)) : Prop :=
  ∀ i v, Event.readValue i v ∉ sinceServed log

/-- The flush has read the generation of key `i`, has not sent a `CHANGED` for
it since, and there was an update between that read and the one before. -/
def Fresh (i : Fin N) (log : List (Event server.keys)) : Prop :=
  ∃ newer g older, log = newer ++ .readGeneration i g :: older ∧
    (∀ g', Event.readGeneration i g' ∉ newer) ∧
      .sent (changedFrame (server.keys i).keyref) ∉ newer ∧
        pendingRequest older = none ∧ 0 < sinceRead i older

/-- What a `CHANGED` of key `i` owes to the events before it: the key is one
that can be observed and is, no `WRITTEN` is due, no update is announced twice,
and there is an update to announce. -/
structure Announces (i : Fin N) (log : List (Event server.keys)) : Prop where
  observable : (server.keys i).observable = true
  known : ¬ server.keyCount ≤ (server.keys i).keyref
  subscribed_log : subscribed (server.keys i).keyref (exchanges log) = true
  owes_none : owesWritten log = false
  count_lt : changedCount (server.keys i).keyref log < updateCount i log
  fresh : Fresh server i log

/-- What an event owes to the events before it. -/
def Allowed (e : Event server.keys) (log : List (Event server.keys)) : Prop :=
  match e with
  | .served _ => pendingRequest log = none
  | .sent f =>
    if f.IsResponse then
      ∃ request, pendingRequest log = some request ∧ Decides server nodeId log request f ∧
        (f.opcode ≠ .written → Quiet log) ∧ f.payload.length ≤ 65535
    else ∃ i, f = changedFrame (server.keys i).keyref ∧ Announces server i log
  | .readValue i _ => Unread log ∧ ∃ r, pendingRequest log = some (.get r) ∧
      server.findSlot r = some i
  | .readGeneration i _ => ∀ request, pendingRequest log = some request →
      recorded i log = subscribed (server.keys i).keyref (exchanges log) ∧
        ∃ r, request = .observe r ∨ request = .unobserve r
  | .stored .server i v => ∃ r, pendingRequest log = some (.write r (.ofValue (wireOf v))) ∧
      server.findSlot r = some i
  | .updated .server i => ∃ r w, pendingRequest log = some (.write r w) ∧
      server.findSlot r = some i
  | .flushEnd => server.hasObservableKeys = true →
      ∀ i, updateCount i log < 2 ^ 32 → overdue i log = false
  | _ => True

/-- The arrays and the generations against the log. `busy` is the key whose
`CHANGED` is being sent. -/
structure Synced (busy : Option (Fin N)) (l : Locals N) (generation : Fin N → UInt32)
    (log : List (Event server.keys)) : Prop where
  nodeId_wire : WireStr nodeId
  recorded_eq : ∀ i, l.observed i = recorded i log
  observable_of : ∀ i, l.observed i = true → (server.keys i).observable = true
  known_of : ∀ i, l.observed i = true → ¬ server.keyCount ≤ (server.keys i).keyref
  generation_eq : ∀ i, l.observed i = true →
    generation i = l.seenGeneration i + UInt32.ofNat (sinceRead i log)
  observed_of : ∀ i, unannounced i log = true → l.observed i = true
  sinceRead_pos : ∀ i, unannounced i log = true → updateCount i log < 2 ^ 32 →
    0 < sinceRead i log ∨ busy = some i
  count_le : ∀ i, changedCount (server.keys i).keyref log + sinceRead i log +
    (if busy = some i then 1 else 0) ≤ updateCount i log

structure Ready (busy : Option (Fin N)) (l : Locals N) (generation : Fin N → UInt32)
    (log : List (Event server.keys)) : Prop extends Synced server nodeId busy l generation log where
  pending_none : pendingRequest log = none
  subscribed_eq : ∀ i, l.observed i = subscribed (server.keys i).keyref (exchanges log)
  owes_none : owesWritten log = false

structure Serving (request : IncomingRequest) (l : Locals N) (generation : Fin N → UInt32)
    (log : List (Event server.keys)) : Prop extends Synced server nodeId none l generation log where
  pending_some : pendingRequest log = some request
  subscribed_eq : ∀ i, l.observed i = subscribed (server.keys i).keyref (exchanges log)

structure Responding (request : IncomingRequest) (f : Frame) (l : Locals N)
    (generation : Fin N → UInt32) (log : List (Event server.keys)) : Prop
    extends Synced server nodeId none l generation log where
  pending_some : pendingRequest log = some request
  response : f.IsResponse
  decided : Decides server nodeId log request f
  quiet_of : f.opcode ≠ .written → Quiet log ∧ owesWritten log = false
  subscribed_eq : ∀ i, l.observed i =
    subscribed (server.keys i).keyref ((request, f) :: exchanges log)

/-- The keys `js` are all that the flush may still owe a `CHANGED`. -/
def Remaining (js : List (Fin N)) (log : List (Event server.keys)) : Prop :=
  server.hasObservableKeys = true → ∀ j, updateCount j log < 2 ^ 32 → overdue j log = true →
    j ∈ js ∧ unannounced j log = true

def Reaches (r : UInt16) (i : Fin N) : Prop := ¬ server.keyCount ≤ r ∧ server.findSlot r = some i

def HandlingOk (request : IncomingRequest) (p : Phase server) (generation : Fin N → UInt32)
    (log : List (Event server.keys)) : Prop :=
  match p with
  | .done l => Ready server nodeId none l generation log
  | .exit _ => True
  | .respond f _ _ l => Responding server nodeId request f l generation log ∧
      f.payload.length ≤ 65535
  | .readValue i l => Serving server nodeId request l generation log ∧ Quiet log ∧
      owesWritten log = false ∧ Unread log ∧ (server.keys i).readable = true ∧
        ∃ r, request = .get r ∧ Reaches server r i
  | .store i v l => Serving server nodeId request l generation log ∧
      (server.keys i).writable = true ∧ QupValue.validate v = .ok () ∧
        ∃ r, request = .write r (.ofValue (wireOf v)) ∧ Reaches server r i
  | .announce _ i v l => Serving server nodeId request l generation log ∧
      Event.stored .server i v ∈ sinceServed log ∧
        (server.keys i).writable = true ∧ QupValue.validate v = .ok () ∧
          ∃ r, request = .write r (.ofValue (wireOf v)) ∧ Reaches server r i
  | .record i on l => Serving server nodeId request l generation log ∧ Quiet log ∧
      owesWritten log = false ∧ (on = true → (server.keys i).observable = true) ∧
        ∃ r, request = (if on then .observe r else .unobserve r) ∧ Reaches server r i
  | .attach _ _ => False
  | .poll _ _ _ => False
  | .notify _ _ _ _ _ => False

def FlushingOk (p : Phase server) (generation : Fin N → UInt32) (log : List (Event server.keys)) :
    Prop :=
  match p with
  | .done l => Ready server nodeId none l generation log ∧ Remaining server [] log
  | .exit _ => True
  | .poll i rest l => Ready server nodeId none l generation log ∧ l.observed i = true ∧
      Remaining server (i :: rest) log
  | .notify f _ _ rest l => ∃ i, f = changedFrame (server.keys i).keyref ∧
      Ready server nodeId (some i) l generation log ∧ l.observed i = true ∧
        Remaining server (i :: rest) log ∧ Fresh server i log
  | _ => False

def StartingOk (p : Phase server) (generation : Fin N → UInt32) (log : List (Event server.keys)) :
    Prop :=
  match p with
  | .done l => Ready server nodeId none l generation log
  | .attach _ _ => Ready server nodeId none (Locals.initial N) generation log
  | .exit _ => True
  | _ => False

def Position.Ok (position : Position server) (generation : Fin N → UInt32)
    (log : List (Event server.keys)) : Prop :=
  match position with
  | .idle l => Ready server nodeId none l generation log
  | .running .starting p => StartingOk server nodeId p generation log
  | .running (.handling request) p => HandlingOk server nodeId request p generation log
  | .running .flushing p => FlushingOk server nodeId p generation log
  | .stopped => True

structure Session (c : Config server) : Prop where
  justified : Justified (Allowed server nodeId) c.log
  position_ok : c.position.Ok server nodeId c.memory.generation c.log

end
end Qup.Embassy
