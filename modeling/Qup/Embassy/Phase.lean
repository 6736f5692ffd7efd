import Qup.Embassy.Run

/-!
# The server's tasks as phases

Every point at which a handler, a flush or a `try_set` can be interrupted, as a
first-order value. `Phase.view` says once what each of them does next, and
`phasesHom` that the programs of the source do the same; the invariants of whole
runs are proved over phases.
-/

namespace Qup.Embassy
open Foundation Foundation.Utf8

variable {N : ℕ}

/-- The steps of `notify_changed` that are left. -/
inductive Announce where
  | bump
  | touch
  | lookup
  | ring (notifier : ℕ)

inductive Phase (server : Server N) where
  | done (l : Locals N)
  | exit (e : Exit)
  | attach (i : Fin N) (rest : List (Fin N))
  | respond (f : Frame) (piece : List UInt8) (pieces : List (List UInt8)) (l : Locals N)
  | readValue (i : Fin N) (l : Locals N)
  | store (i : Fin N) (v : (server.keys i).type.Value) (l : Locals N)
  | announce (a : Announce) (i : Fin N) (v : (server.keys i).type.Value) (l : Locals N)
  | record (i : Fin N) (on : Bool) (l : Locals N)
  | poll (i : Fin N) (rest : List (Fin N)) (l : Locals N)
  | notify (f : Frame) (piece : List UInt8) (pieces : List (List UInt8)) (rest : List (Fin N))
      (l : Locals N)

inductive UpdatePhase (server : Server N) where
  | finished (result : Except WireValueError Bool)
  | store (i : Fin N) (v : (server.keys i).type.Value)
  | announce (a : Announce) (i : Fin N) (changed : Bool)

namespace Announce
variable {keys : Fin N → ErasedKey}

def op (i : Fin N) : Announce → Op keys
  | bump => .fetchAddGeneration i
  | touch => .signalChange i
  | lookup => .loadNotifier i
  | ring s => .signal s

def next (i : Fin N) : (a : Announce) → (a.op i : Op keys).Res → Option Announce
  | bump, _ => some touch
  | touch, _ => bif (keys i).observable then some lookup else none
  | lookup, some s => some (ring s)
  | lookup, none => none
  | ring _, _ => none

def program (i : Fin N) : Announce → Action keys Unit
  | bump => Key.notifyChanged i
  | touch => .act (.signalChange i) fun _ =>
    if !(keys i).observable then .ret ()
    else .act (.loadNotifier i) fun (notifier : Option ℕ) =>
      match notifier with
      | some s => .act (.signal s) fun _ => .ret ()
      | none => .ret ()
  | lookup => .act (.loadNotifier i) fun (notifier : Option ℕ) =>
    match notifier with
    | some s => .act (.signal s) fun _ => .ret ()
    | none => .ret ()
  | ring s => .act (.signal s) fun _ => .ret ()

def rest (i : Fin N) : Option Announce → Action keys Unit
  | some a => a.program i
  | none => .ret ()

theorem program_eq (i : Fin N) (a : Announce) :
    (a.program i : Action keys Unit) = .act (a.op i) fun r => rest i (a.next i r) := by
  cases a with
  | bump => rfl
  | touch =>
    simp only [program, op, next]
    cases (keys i).observable <;> rfl
  | lookup =>
    simp only [program, op]
    congr 1
    funext r
    cases r <;> rfl
  | ring s => rfl

end Announce

namespace Phase
variable {server : Server N}

def respondWith (f : Frame) (l : Locals N) : List (List UInt8) → Phase server
  | [] => .done l
  | piece :: pieces => .respond f piece pieces l

def framePieces (f : Frame) : List (List UInt8) :=
  [f.opcode.byte :: be16 (UInt16.ofNat f.payload.length), f.payload,
    [computeChecksum f.opcode f.payload]]

def sendFrame (f : Frame) (l : Locals N) : Phase server :=
  if f.payload.length ≤ 65535 then respondWith f l (framePieces f)
  else .exit (.error (.internal "response payload exceeded u16 wire length"))

def sendStr16 (opcode : Opcode) (value : Str) (l : Locals N) : Phase server :=
  if value.length + 2 ≤ 65535 then
    respondWith ⟨opcode, str16 value⟩ l
      [opcode.byte :: be16 (UInt16.ofNat (value.length + 2)), be16 (UInt16.ofNat value.length),
        value.bytes, [computeChecksum opcode (str16 value)]]
  else .exit (.error (.internal "response string exceeded u16 wire length"))

def keyPayload (key : ErasedKey) : List UInt8 := key.keyflags :: str16 key.name

def sendKey (key : ErasedKey) (l : Locals N) : Phase server :=
  if key.name.length + 3 ≤ 65535 then
    respondWith ⟨.key, keyPayload key⟩ l
      [Opcode.key.byte :: be16 (UInt16.ofNat (key.name.length + 3)), [key.keyflags],
        be16 (UInt16.ofNat key.name.length), key.name.bytes,
        [computeChecksum .key (keyPayload key)]]
  else .exit (.error (.internal "key name exceeded u16 wire length"))

def sendError (code : UInt8) (l : Locals N) : Phase server := sendFrame ⟨.error, [code]⟩ l

def sendValue {i : Fin N} (v : (server.keys i).type.Value) (l : Locals N) : Phase server :=
  match QupValue.encode v server.maxResponse with
  | .ok payload => sendFrame ⟨.value, payload⟩ l
  | .error (.invalid _) => .exit (.error (.internal "stored value could not be encoded"))
  | .error .panic => .exit .panic

def sendWritten {i : Fin N} (v : (server.keys i).type.Value) (l : Locals N) : Phase server :=
  match QupValue.encode v server.maxResponse with
  | .ok payload => sendFrame ⟨.written, payload⟩ l
  | .error (.invalid _) => sendError Server.errorTypeMismatch l
  | .error .panic => .exit .panic

def sendU16 (opcode : Opcode) (x : UInt16) (l : Locals N) : Phase server :=
  if 2 ≤ server.maxResponse then sendFrame ⟨opcode, be16 x⟩ l else .exit .panic

def flushPhase : List (Fin N) → Locals N → Phase server
  | [], l => .done l
  | i :: rest, l =>
    if l.observed i && (server.keys i).observable then .poll i rest l else flushPhase rest l

def notifyWith (f : Frame) (rest : List (Fin N)) (l : Locals N) : List (List UInt8) → Phase server
  | [] => flushPhase rest l
  | piece :: pieces => .notify f piece pieces rest l

def sendChanged (i : Fin N) (rest : List (Fin N)) (l : Locals N) : Phase server :=
  if 2 ≤ server.maxResponse then
    notifyWith ⟨.changed, be16 (server.keys i).keyref⟩ rest l
      (framePieces ⟨.changed, be16 (server.keys i).keyref⟩)
  else .exit .panic

def attachPhase : List (Fin N) → Phase server
  | [] => if server.uniqueKeyrefs (List.finRange N) then .done (Locals.initial N) else .exit .panic
  | i :: rest => if (server.keys i).observable then .attach i rest else attachPhase rest

def start (nodeId : Str) : Phase server :=
  match Server.validateWireString nodeId with
  | .error message => .exit (.error (.internal message))
  | .ok () => attachPhase (List.finRange N)

def flush (l : Locals N) : Phase server :=
  if !server.hasObservableKeys then .done l else flushPhase (List.finRange N) l

def handle (nodeId : Str) (request : IncomingRequest) (l : Locals N) : Phase server :=
  match request with
  | .ping => sendFrame ⟨.ok, []⟩ l
  | .identify => sendStr16 .identified nodeId l
  | .getCaps => sendStr16 .caps server.caps l
  | .getKeytabLen => sendU16 .keytablen server.keyCount l
  | .getKey keyref =>
    if server.keyCount ≤ keyref then sendError Server.errorUnknownKeyref l
    else match server.findSlot keyref with
      | some i => sendKey (server.keys i) l
      | none => sendFrame ⟨.key, [0x00, 0x00, 0x00]⟩ l
  | .get keyref =>
    if server.keyCount ≤ keyref then sendError Server.errorUnknownKeyref l
    else match server.findSlot keyref with
      | some i =>
        if !(server.keys i).readable then sendError Server.errorNotAllowed l else .readValue i l
      | none => sendError Server.errorNotAllowed l
  | .write keyref value =>
    if server.keyCount ≤ keyref then sendError Server.errorUnknownKeyref l
    else match server.findSlot keyref with
      | some i =>
        if !(server.keys i).writable then sendError Server.errorNotAllowed l
        else match (QupValue.decode value : Except WireValueError (server.keys i).type.Value) with
          | .error _ => sendError Server.errorTypeMismatch l
          | .ok v =>
            match QupValue.validate v with
            | .error _ => sendError Server.errorTypeMismatch l
            | .ok () => .store i v l
      | none => sendError Server.errorNotAllowed l
  | .observe keyref =>
    if server.keyCount ≤ keyref then sendError Server.errorUnknownKeyref l
    else match server.findSlot keyref with
      | some i =>
        if !(server.keys i).observable then sendError Server.errorNotAllowed l
        else .record i true l
      | none => sendError Server.errorNotAllowed l
  | .unobserve keyref =>
    if server.keyCount ≤ keyref then sendError Server.errorUnknownKeyref l
    else match server.findSlot keyref with
      | some i => .record i false l
      | none => sendFrame ⟨.ok, []⟩ l

def view : Phase server → Program.View (@Op.Res N server.keys) Exit (Locals N) (Phase server)
  | .done l => .ret l
  | .exit e => .fail e
  | .attach i rest => .act (.storeNotifier i server.notifier) fun _ => attachPhase rest
  | .respond f piece pieces l =>
    .act (.writeAll piece (if pieces.isEmpty then some f else none)) fun (accepted : Bool) =>
      bif accepted then respondWith f l pieces else .exit (.error .write)
  | .readValue i l => .act (.loadValue i) fun v => sendValue (i := i) v l
  | .store i v l => .act (.storeValue i v) fun _ => .announce .bump i v l
  | .announce a i v l => .act (a.op i) fun r =>
    match a.next i r with
    | some b => .announce b i v l
    | none => sendWritten v l
  | .record i on l => .act (.loadGeneration i) fun (g : UInt32) =>
    sendFrame ⟨.ok, []⟩ ((l.setObserved i on).setSeen i g)
  | .poll i rest l => .act (.loadGeneration i) fun (g : UInt32) =>
    if g = l.seenGeneration i then flushPhase rest l else sendChanged i rest (l.setSeen i g)
  | .notify f piece pieces rest l =>
    .act (.writeAll piece (if pieces.isEmpty then some f else none)) fun (accepted : Bool) =>
      bif accepted then notifyWith f rest l pieces else .exit (.error .write)

end Phase

namespace UpdatePhase
variable {server : Server N}

def trySet (i : Fin N) (v : (server.keys i).type.Value) : UpdatePhase server :=
  match QupValue.validate v with
  | .error e => .finished (.error e)
  | .ok () => .store i v

def view : UpdatePhase server →
    Program.View (@Op.Res N server.keys) Exit (Except WireValueError Bool) (UpdatePhase server)
  | .finished result => .ret result
  | .store i v => .act (.storeValue i v) fun (previous : (server.keys i).type.Value) =>
    .announce .bump i (decide (previous ≠ v))
  | .announce a i changed => .act (a.op i) fun r =>
    match a.next i r with
    | some b => .announce b i changed
    | none => .finished (.ok changed)

end UpdatePhase

def phases (server : Server N) (nodeId : Str) :
    Machine server (Phase server) (UpdatePhase server) where
  view := Phase.view
  start := Phase.start nodeId
  handle := Phase.handle nodeId
  flush := Phase.flush
  updateView := UpdatePhase.view
  trySet := UpdatePhase.trySet

namespace Phase
variable {server : Server N}

def task : Phase server → server.Handler (Locals N)
  | .done l => .ret l
  | .exit e => .fail e
  | .attach i rest => .act (.storeNotifier i server.notifier) fun _ => do
    server.attachNotifiers rest
    if server.uniqueKeyrefs (List.finRange N) then .ret (Locals.initial N) else .fail .panic
  | .respond f piece pieces l => do
    server.writePieces f (piece :: pieces)
    .ret l
  | .readValue i l => .act (.loadValue i) fun (v : (server.keys i).type.Value) => do
    match QupValue.encode v server.maxResponse with
      | .ok payload => server.sendFrame .value payload
      | .error (.invalid _) => server.internal "stored value could not be encoded"
      | .error .panic => .fail .panic
    .ret l
  | .store i v l => .act (.storeValue i v) fun _ => do
    Key.notifyChanged i
    writtenTask v l
  | .announce a i v l => do
    a.program i
    writtenTask v l
  | .record i on l => .act (.loadGeneration i) fun (g : UInt32) => do
    server.sendFrame .ok []
    .ret ((l.setObserved i on).setSeen i g)
  | .poll i rest l => .act (.loadGeneration i) fun (g : UInt32) =>
    if g = l.seenGeneration i then server.flushFrom rest l
    else do
      server.sendU16 .changed (server.keys i).keyref
      server.flushFrom rest (l.setSeen i g)
  | .notify f piece pieces rest l => do
    server.writePieces f (piece :: pieces)
    server.flushFrom rest l
where
  writtenTask {i : Fin N} (v : (server.keys i).type.Value) (l : Locals N) :
      server.Handler (Locals N) := do
    match QupValue.encode v server.maxResponse with
      | .ok payload => server.sendFrame .written payload
      | .error (.invalid _) => server.sendError Server.errorTypeMismatch
      | .error .panic => .fail .panic
    .ret l

theorem writePieces_cons (f : Frame) (piece : List UInt8) (pieces : List (List UInt8)) :
    server.writePieces f (piece :: pieces) =
      .act (.writeAll piece (if pieces.isEmpty then some f else none)) fun (accepted : Bool) =>
        if accepted then server.writePieces f pieces else .fail (.error .write) := by
  cases pieces with
  | nil => rfl
  | cons p ps =>
    simp only [Server.writePieces, Server.writeAll, List.isEmpty_cons, Program.act_bind]
    congr 1
    funext accepted
    cases accepted <;> rfl

theorem task_respondWith (f : Frame) (l : Locals N) (pieces : List (List UInt8)) :
    (respondWith f l pieces : Phase server).task =
      (server.writePieces f pieces >>= fun _ => .ret l) := by
  cases pieces <;> rfl

theorem task_sendFrame (f : Frame) (l : Locals N) : (sendFrame f l : Phase server).task =
    (server.sendFrame f.opcode f.payload >>= fun _ => .ret l) := by
  unfold sendFrame Server.sendFrame
  split_ifs
  · exact task_respondWith f l _
  · rfl

theorem task_sendError (code : UInt8) (l : Locals N) : (sendError code l : Phase server).task =
    (server.sendError code >>= fun _ => .ret l) := task_sendFrame _ l

theorem computeSegmentedChecksum_eq (opcode : Opcode) {segments : List (List UInt8)}
    (h : segments.flatten.length ≤ 65535) : Server.computeSegmentedChecksum opcode segments =
      .ok (computeChecksum opcode segments.flatten) := by
  have hlen : ∀ (acc : ℕ) (ss : List (List UInt8)),
      ss.foldl (fun acc segment => acc + segment.length) acc = acc + ss.flatten.length := by
    intro acc ss
    induction ss generalizing acc with
    | nil => rfl
    | cons s ss ih =>
      rw [List.foldl_cons, ih, List.flatten_cons, List.length_append]
      omega
  have hsum : ∀ (acc : UInt8) (ss : List (List UInt8)),
      ss.foldl (fun acc segment => segment.foldl (fun acc byte => acc + byte) acc) acc =
        ss.flatten.foldl (fun acc byte => acc + byte) acc := by
    intro acc ss
    induction ss generalizing acc with
    | nil => rfl
    | cons s ss ih => rw [List.foldl_cons, ih, List.flatten_cons, List.foldl_append]
  unfold Server.computeSegmentedChecksum
  simp only [hlen, Nat.zero_add, if_pos h, hsum]
  rw [computeChecksum_eq, foldl_sum]

theorem ofNat16_add {n m : ℕ} (h : n + m ≤ 65535) :
    UInt16.ofNat n + UInt16.ofNat m = UInt16.ofNat (n + m) := by
  rw [← UInt16.toNat_inj, UInt16.toNat_add, toNat_ofNat16 h, toNat_ofNat16 (by omega),
    toNat_ofNat16 (by omega)]
  omega

theorem task_sendStr16 (opcode : Opcode) (value : Str) (l : Locals N) :
    (sendStr16 opcode value l : Phase server).task =
      (server.sendStr16Response opcode value >>= fun _ => .ret l) := by
  unfold sendStr16 Server.sendStr16Response
  by_cases h : value.length + 2 ≤ 65535
  · have hn := toNat_ofNat16 (show value.length ≤ 65535 by omega)
    have hck := @computeSegmentedChecksum_eq opcode
      [be16 (UInt16.ofNat value.length), value.bytes]
      (by simpa [Str.length, Nat.add_comm] using h)
    rw [if_pos h, if_pos (by omega)]
    simp only [hn]
    rw [if_pos h, hck, ← ofNat16_add h]
    simp only [Program.lift_ok, Program.ret_bind, List.flatten_cons, List.flatten_nil,
      List.append_nil]
    exact task_respondWith _ l _
  · rw [if_neg h]
    by_cases h' : value.length ≤ 65535
    · simp only [if_pos h', toNat_ofNat16 h', if_neg h]
      rfl
    · simp only [if_neg h']
      rfl

theorem task_sendKey (key : ErasedKey) (l : Locals N) : (sendKey key l : Phase server).task =
    (server.sendKeyResponse key >>= fun _ => .ret l) := by
  unfold sendKey Server.sendKeyResponse
  by_cases h : key.name.length + 3 ≤ 65535
  · have hn := toNat_ofNat16 (show key.name.length ≤ 65535 by omega)
    have hck := @computeSegmentedChecksum_eq .key
      [[key.keyflags], be16 (UInt16.ofNat key.name.length), key.name.bytes]
      (by simp [Str.length] at h ⊢; omega)
    rw [if_pos h, if_pos (by omega)]
    simp only [hn]
    rw [if_pos h, hck, ← ofNat16_add h]
    simp only [Program.lift_ok, Program.ret_bind, List.flatten_cons, List.flatten_nil,
      List.append_nil]
    exact task_respondWith _ l _
  · rw [if_neg h]
    by_cases h' : key.name.length ≤ 65535
    · simp only [if_pos h', toNat_ofNat16 h', if_neg h]
      rfl
    · simp only [if_neg h']
      rfl

theorem task_sendU16 (opcode : Opcode) (x : UInt16) (l : Locals N) :
    (sendU16 opcode x l : Phase server).task =
      (server.sendU16 opcode x >>= fun _ => .ret l) := by
  unfold sendU16 Server.sendU16 writeExact
  rw [length_be16]
  split_ifs
  · exact task_sendFrame _ l
  · rfl

theorem task_flushPhase (rest : List (Fin N)) (l : Locals N) :
    (flushPhase rest l : Phase server).task = server.flushFrom rest l := by
  induction rest with
  | nil => rfl
  | cons i rest ih =>
    rw [flushPhase, Server.flushFrom]
    cases ho : l.observed i
    · simpa using ih
    · cases hk : (server.keys i).observable
      · simpa using ih
      · rfl

theorem task_notifyWith (f : Frame) (rest : List (Fin N)) (l : Locals N)
    (pieces : List (List UInt8)) : (notifyWith f rest l pieces : Phase server).task =
      (server.writePieces f pieces >>= fun _ => server.flushFrom rest l) := by
  cases pieces with
  | nil => exact task_flushPhase rest l
  | cons p ps => rfl

theorem task_sendChanged (i : Fin N) (rest : List (Fin N)) (l : Locals N) :
    (sendChanged i rest l : Phase server).task =
      (server.sendU16 .changed (server.keys i).keyref >>= fun _ => server.flushFrom rest l) := by
  unfold sendChanged Server.sendU16 writeExact Server.sendFrame
  rw [length_be16]
  split_ifs
  · exact task_notifyWith _ rest l _
  · rfl

theorem task_attachPhase (rest : List (Fin N)) : (attachPhase rest : Phase server).task =
    (server.attachNotifiers rest >>= fun _ =>
      if server.uniqueKeyrefs (List.finRange N) then .ret (Locals.initial N)
      else .fail .panic) := by
  induction rest with
  | nil =>
    rw [attachPhase]
    simp only [Server.attachNotifiers, Program.ret_bind]
    split_ifs <;> rfl
  | cons i rest ih =>
    rw [attachPhase, Server.attachNotifiers, Key.attachNotifier]
    cases (server.keys i).observable
    · exact ih
    · rfl

theorem task_sendValue {i : Fin N} (v : (server.keys i).type.Value) (l : Locals N) :
    (sendValue v l : Phase server).task = (do
      match QupValue.encode v server.maxResponse with
        | .ok payload => server.sendFrame .value payload
        | .error (.invalid _) => server.internal "stored value could not be encoded"
        | .error .panic => .fail .panic
      .ret l) := by
  unfold sendValue
  rcases QupValue.encode v server.maxResponse with (e | _) | payload
  · rfl
  · rfl
  · exact task_sendFrame _ l

theorem task_sendWritten {i : Fin N} (v : (server.keys i).type.Value) (l : Locals N) :
    (sendWritten v l : Phase server).task = task.writtenTask v l := by
  unfold sendWritten task.writtenTask
  rcases QupValue.encode v server.maxResponse with (e | _) | payload
  · exact task_sendError _ l
  · rfl
  · exact task_sendFrame _ l

theorem task_start (nodeId : Str) : (start nodeId : Phase server).task =
    (server.startup nodeId >>= fun _ => .ret (Locals.initial N)) := by
  unfold start Server.startup
  cases Server.validateWireString nodeId with
  | error message => rfl
  | ok u =>
    simp only
    rw [task_attachPhase, Program.bind_assoc]
    congr 1
    funext u
    split_ifs <;> rfl

theorem task_flush (l : Locals N) : (flush l : Phase server).task =
    server.flushNotifications l := by
  unfold flush Server.flushNotifications
  split_ifs
  · rfl
  · exact task_flushPhase _ l

theorem task_handle (nodeId : Str) (request : IncomingRequest) (l : Locals N) :
    (handle nodeId request l : Phase server).task = server.handleRequest nodeId request l := by
  cases request with
  | ping => exact task_sendFrame _ l
  | identify => exact task_sendStr16 _ _ l
  | getCaps => exact task_sendStr16 _ _ l
  | getKeytabLen => exact task_sendU16 _ _ l
  | getKey keyref =>
    simp only [handle, Server.handleRequest]
    split_ifs
    · exact task_sendError _ l
    · cases server.findSlot keyref with
      | some i => exact task_sendKey _ l
      | none => exact task_sendFrame _ l
  | get keyref =>
    simp only [handle, Server.handleRequest]
    split_ifs
    · exact task_sendError _ l
    · cases server.findSlot keyref with
      | some i =>
        simp only
        split_ifs
        · exact task_sendError _ l
        · rfl
      | none => exact task_sendError _ l
  | write keyref value =>
    simp only [handle, Server.handleRequest]
    split_ifs
    · exact task_sendError _ l
    · cases server.findSlot keyref with
      | some i =>
        simp only
        split_ifs
        · exact task_sendError _ l
        · unfold Key.writeAndEncode
          cases (QupValue.decode value : Except WireValueError (server.keys i).type.Value) with
          | error e => exact task_sendError _ l
          | ok v =>
            simp only
            cases QupValue.validate v with
            | error e => exact task_sendError _ l
            | ok u =>
              simp only [task, Program.act_bind, Program.bind_assoc]
              rfl
      | none => exact task_sendError _ l
  | observe keyref =>
    simp only [handle, Server.handleRequest]
    split_ifs
    · exact task_sendError _ l
    · cases server.findSlot keyref with
      | some i =>
        simp only
        split_ifs
        · exact task_sendError _ l
        · rfl
      | none => exact task_sendError _ l
  | unobserve keyref =>
    simp only [handle, Server.handleRequest]
    split_ifs
    · exact task_sendError _ l
    · cases server.findSlot keyref with
      | some i => rfl
      | none => exact task_sendFrame _ l

theorem view_writePieces (f : Frame) (piece : List UInt8) (pieces : List (List UInt8))
    (rest : server.Handler (Locals N)) (next : Phase server)
    (h : next.task = (server.writePieces f pieces >>= fun _ => rest)) :
    (server.writePieces f (piece :: pieces) >>= fun _ => rest).view =
      .act (.writeAll piece (if pieces.isEmpty then some f else none)) fun (accepted : Bool) =>
        (bif accepted then next else .exit (.error .write)).task := by
  rw [writePieces_cons, Program.act_bind, Program.view]
  congr 1
  funext accepted
  cases accepted with
  | false => rfl
  | true => exact h.symm

theorem view_task (p : Phase server) : p.task.view = p.view.map task := by
  cases p with
  | done l => rfl
  | exit e => rfl
  | attach i rest =>
    exact congrArg (Program.View.act _) (funext fun _ => (task_attachPhase rest).symm)
  | respond f piece pieces l =>
    exact view_writePieces f piece pieces _ _ (task_respondWith f l pieces)
  | readValue i l =>
    exact congrArg (Program.View.act _) (funext fun v => (task_sendValue (i := i) v l).symm)
  | store i v l => rfl
  | announce a i v l =>
    rw [task, Announce.program_eq i a]
    refine congrArg (Program.View.act _) (funext fun r => ?_)
    dsimp only
    cases a.next i r with
    | some b => rfl
    | none => exact (task_sendWritten v l).symm
  | record i on l =>
    exact congrArg (Program.View.act _) (funext fun g =>
      (@task_sendFrame N server ⟨.ok, []⟩ _).symm)
  | poll i rest l =>
    refine congrArg (Program.View.act _) (funext fun g => ?_)
    simp only
    split_ifs
    · exact (task_flushPhase rest l).symm
    · exact (task_sendChanged i rest _).symm
  | notify f piece pieces rest l =>
    exact view_writePieces f piece pieces _ _ (task_notifyWith f rest l pieces)

end Phase

namespace UpdatePhase
variable {server : Server N}

def task : UpdatePhase server → Action server.keys (Except WireValueError Bool)
  | .finished result => .ret result
  | .store i v => .act (.storeValue i v) fun (previous : (server.keys i).type.Value) => do
    Key.notifyChanged i
    pure (.ok (decide (previous ≠ v)))
  | .announce a i changed => do
    a.program i
    pure (.ok changed)

theorem task_trySet (i : Fin N) (v : (server.keys i).type.Value) :
    (trySet i v : UpdatePhase server).task = Key.trySet i v := by
  unfold trySet Key.trySet
  cases QupValue.validate v <;> rfl

theorem view_task (u : UpdatePhase server) : u.task.view = u.view.map task := by
  cases u with
  | finished result => rfl
  | store i v => rfl
  | announce a i changed =>
    rw [task, Announce.program_eq i a]
    refine congrArg (Program.View.act _) (funext fun r => ?_)
    dsimp only
    cases a.next i r <;> rfl

end UpdatePhase

def phasesHom (server : Server N) (nodeId : Str) :
    (phases server nodeId).Hom (programs server nodeId) where
  task := Phase.task
  update := UpdatePhase.task
  view_task := Phase.view_task
  start_eq := (Phase.task_start nodeId).symm
  handle_eq request l := (Phase.task_handle nodeId request l).symm
  flush_eq l := (Phase.task_flush l).symm
  view_update := UpdatePhase.view_task
  trySet_eq i v := (UpdatePhase.task_trySet i v).symm

end Qup.Embassy
