import Qup.Embassy.Key

/-!
# The server's handlers

`Server` of `qup-embassy/src/lib.rs` without its `run` loop: what `run!`
computes, the responses, `handle_request` and `flush_notifications`. Each is a
program over the operations of `Key.lean`; the two per-connection arrays are
passed in and returned.
-/

namespace Qup.Embassy
open Foundation Foundation.Utf8

structure Server (N : ℕ) where
  hasObservableKeys : Bool
  keys : Fin N → ErasedKey
  maxStr : ℕ
  maxResponse : ℕ
  notifier : ℕ

structure Locals (N : ℕ) where
  observed : Fin N → Bool
  seenGeneration : Fin N → UInt32

def Locals.initial (N : ℕ) : Locals N := ⟨fun _ => false, fun _ => 0⟩

def Locals.setObserved {N : ℕ} (l : Locals N) (i : Fin N) (b : Bool) : Locals N :=
  { l with observed := Function.update l.observed i b }

def Locals.setSeen {N : ℕ} (l : Locals N) (i : Fin N) (g : UInt32) : Locals N :=
  { l with seenGeneration := Function.update l.seenGeneration i g }

variable {N : ℕ}

def maxUsize (values : List ℕ) : ℕ := values.foldl max 0

theorem le_maxUsize {n : ℕ} {ns : List ℕ} (h : n ∈ ns) : n ≤ maxUsize ns := by
  have hmax : ∀ (acc : ℕ) (ns : List ℕ), n ≤ acc ∨ n ∈ ns → n ≤ ns.foldl max acc := by
    intro acc ns
    induction ns generalizing acc with
    | nil =>
      intro hn
      simpa using hn
    | cons m ns ih =>
      intro hn
      rw [List.foldl_cons]
      refine ih _ ?_
      rw [List.mem_cons] at hn
      rcases hn with hn | rfl | hn
      · exact Or.inl (hn.trans (le_max_left _ _))
      · exact Or.inl (le_max_right _ _)
      · exact Or.inr hn
  exact hmax 0 ns (Or.inr h)

def maxValue (keys : Fin N → ErasedKey) : ℕ :=
  maxUsize (0 :: (List.finRange N).map fun i => QupValue.maxWireLen (keys i).type.Value)

def maxStrLen (keys : Fin N → ErasedKey) : ℕ :=
  maxUsize (0 :: (List.finRange N).map fun i => QupValue.maxStrLen (keys i).type.Value)

def anyObservable (keys : Fin N → ErasedKey) : Bool :=
  (List.finRange N).any fun i => (keys i).observable

namespace Server

def Sized (server : Server N) : Prop :=
  server.maxStr = maxStrLen server.keys ∧
    server.maxResponse = maxUsize [maxValue server.keys, 2, 1]

def ofRun (keys : Fin N → ErasedKey) (notifier : ℕ) : Server N where
  hasObservableKeys := anyObservable keys
  keys := keys
  maxStr := maxStrLen keys
  maxResponse := maxUsize [maxValue keys, 2, 1]
  notifier := notifier

theorem ofRun_sized (keys : Fin N → ErasedKey) (notifier : ℕ) : (ofRun keys notifier).Sized :=
  ⟨rfl, rfl⟩

theorem Sized.maxWireLen_le {server : Server N} (h : server.Sized) (i : Fin N) :
    QupValue.maxWireLen (server.keys i).type.Value ≤ server.maxResponse := by
  have hvalue : QupValue.maxWireLen (server.keys i).type.Value ≤ maxValue server.keys :=
    le_maxUsize (List.mem_cons_of_mem _ (List.mem_map.mpr ⟨i, List.mem_finRange i, rfl⟩))
  rw [h.2]
  exact hvalue.trans (le_maxUsize List.mem_cons_self)

theorem Sized.two_le {server : Server N} (h : server.Sized) : 2 ≤ server.maxResponse := by
  rw [h.2]
  exact le_maxUsize (by simp)

variable (server : Server N)

abbrev Handler (α : Type) := Action server.keys α

def internal {α : Type} (message : String) : server.Handler α := .fail (.error (.internal message))

def findSlot (keyref : UInt16) : Option (Fin N) :=
  (List.finRange N).find? fun i => (server.keys i).keyref == keyref

def saturatingSucc (x : UInt16) : UInt16 := if x = 65535 then x else x + 1

def keyCount : UInt16 :=
  (List.finRange N).foldl (fun maxKeyref i =>
    max maxKeyref (saturatingSucc (server.keys i).keyref)) 0

-- `PkIiCcSsGgWwNkUk`
def baseCaps : Str :=
  ⟨[0x50, 0x6b, 0x49, 0x69, 0x43, 0x63, 0x53, 0x73, 0x47, 0x67, 0x57, 0x77, 0x4e, 0x6b, 0x55,
    0x6b], by decide⟩

-- `PkIiCcSsGgWwNkUk!`
def observableCaps : Str :=
  ⟨[0x50, 0x6b, 0x49, 0x69, 0x43, 0x63, 0x53, 0x73, 0x47, 0x67, 0x57, 0x77, 0x4e, 0x6b, 0x55,
    0x6b, 0x21], by decide⟩

def caps : Str := if server.hasObservableKeys then observableCaps else baseCaps

def writeAll (bytes : List UInt8) (completes : Option Frame) : server.Handler Unit :=
  .act (.writeAll bytes completes) fun (accepted : Bool) =>
    if accepted then .ret () else .fail (.error .write)

def writePieces (frame : Frame) : List (List UInt8) → server.Handler Unit
  | [] => .ret ()
  | [piece] => server.writeAll piece (some frame)
  | piece :: pieces => do
    server.writeAll piece none
    writePieces frame pieces

def sendFrame (opcode : Opcode) (payload : List UInt8) : server.Handler Unit :=
  if payload.length ≤ 65535 then
    let payloadLen := UInt16.ofNat payload.length
    let header := opcode.byte :: be16 payloadLen
    let checksum := [computeChecksum opcode payload]
    server.writePieces ⟨opcode, payload⟩ [header, payload, checksum]
  else server.internal "response payload exceeded u16 wire length"

/-- `expect` panics on a payload that does not fit a frame. -/
def computeSegmentedChecksum (opcode : Opcode) (segments : List (List UInt8)) :
    Except Exit UInt8 :=
  let payloadLen := segments.foldl (fun acc segment => acc + segment.length) 0
  if payloadLen ≤ 65535 then
    let acc := opcode.byte + hiByte (UInt16.ofNat payloadLen) + loByte (UInt16.ofNat payloadLen)
    .ok (0 - segments.foldl (fun acc segment => segment.foldl (fun acc byte => acc + byte) acc) acc)
  else .error .panic

def sendStr16Response (opcode : Opcode) (value : Str) : server.Handler Unit :=
  if value.length ≤ 65535 then
    let stringLen := UInt16.ofNat value.length
    if stringLen.toNat + 2 ≤ 65535 then do
      let payloadLen := stringLen + 2
      let header := opcode.byte :: be16 payloadLen
      let checksum ← Program.lift (computeSegmentedChecksum opcode [be16 stringLen, value.bytes])
      server.writePieces ⟨opcode, be16 stringLen ++ value.bytes⟩
        [header, be16 stringLen, value.bytes, [checksum]]
    else server.internal "response string exceeded u16 wire length"
  else server.internal "response string exceeded u16 wire length"

def sendKeyResponse (key : ErasedKey) : server.Handler Unit :=
  if key.name.length ≤ 65535 then
    let stringLen := UInt16.ofNat key.name.length
    if stringLen.toNat + 3 ≤ 65535 then do
      let payloadLen := stringLen + 3
      let checksum ← Program.lift (computeSegmentedChecksum .key
        [[key.keyflags], be16 stringLen, key.name.bytes])
      let header := Opcode.key.byte :: be16 payloadLen
      server.writePieces ⟨.key, [key.keyflags] ++ be16 stringLen ++ key.name.bytes⟩
        [header, [key.keyflags], be16 stringLen, key.name.bytes, [checksum]]
    else server.internal "key name exceeded u16 wire length"
  else server.internal "key name exceeded u16 wire length"

def sendVoidKeyResponse : server.Handler Unit := server.sendFrame .key [0x00, 0x00, 0x00]

def errorUnknownKeyref : UInt8 := 0x01
def errorNotAllowed : UInt8 := 0x02
def errorTypeMismatch : UInt8 := 0x03

def sendError (code : UInt8) : server.Handler Unit := server.sendFrame .error [code]

def sendU16 (opcode : Opcode) (x : UInt16) : server.Handler Unit :=
  match writeExact server.maxResponse (be16 x) with
  | .ok payload => server.sendFrame opcode payload
  | .error _ => .fail .panic

def handleRequest (nodeId : Str) (request : IncomingRequest) (l : Locals N) :
    server.Handler (Locals N) :=
  match request with
  | .ping => do
    server.sendFrame .ok []
    pure l
  | .identify => do
    server.sendStr16Response .identified nodeId
    pure l
  | .getCaps => do
    server.sendStr16Response .caps server.caps
    pure l
  | .getKeytabLen => do
    server.sendU16 .keytablen server.keyCount
    pure l
  | .getKey keyref => do
    if server.keyCount ≤ keyref then server.sendError errorUnknownKeyref
    else match server.findSlot keyref with
      | some index => server.sendKeyResponse (server.keys index)
      | none => server.sendVoidKeyResponse
    pure l
  | .get keyref => do
    if server.keyCount ≤ keyref then server.sendError errorUnknownKeyref
    else match server.findSlot keyref with
      | some index =>
        if !(server.keys index).readable then server.sendError errorNotAllowed
        else
          match ← Key.encodeCurrentValue index server.maxResponse with
          | .ok payload => server.sendFrame .value payload
          | .error (.invalid _) => server.internal "stored value could not be encoded"
          | .error .panic => .fail .panic
      | none => server.sendError errorNotAllowed
    pure l
  | .write keyref value => do
    if server.keyCount ≤ keyref then server.sendError errorUnknownKeyref
    else match server.findSlot keyref with
      | some index =>
        if !(server.keys index).writable then server.sendError errorNotAllowed
        else
          match ← Key.writeAndEncode index value server.maxResponse with
          | .ok payload => server.sendFrame .written payload
          | .error (.invalid _) => server.sendError errorTypeMismatch
          | .error .panic => .fail .panic
      | none => server.sendError errorNotAllowed
    pure l
  | .observe keyref =>
    if server.keyCount ≤ keyref then do
      server.sendError errorUnknownKeyref
      pure l
    else match server.findSlot keyref with
      | some index =>
        if !(server.keys index).observable then do
          server.sendError errorNotAllowed
          pure l
        else do
          let l := l.setObserved index true
          let generation ← Key.generation index
          let l := l.setSeen index generation
          server.sendFrame .ok []
          pure l
      | none => do
        server.sendError errorNotAllowed
        pure l
  | .unobserve keyref =>
    if server.keyCount ≤ keyref then do
      server.sendError errorUnknownKeyref
      pure l
    else match server.findSlot keyref with
      | some index => do
        let l := l.setObserved index false
        let generation ← Key.generation index
        let l := l.setSeen index generation
        server.sendFrame .ok []
        pure l
      | none => do
        server.sendFrame .ok []
        pure l

def flushFrom : List (Fin N) → Locals N → server.Handler (Locals N)
  | [], l => .ret l
  | index :: rest, l =>
    if !l.observed index || !(server.keys index).observable then flushFrom rest l
    else .act (.loadGeneration index) fun (generation : UInt32) =>
      if generation = l.seenGeneration index then flushFrom rest l
      else do
        let l := l.setSeen index generation
        server.sendU16 .changed (server.keys index).keyref
        flushFrom rest l

def flushNotifications (l : Locals N) : server.Handler (Locals N) :=
  if !server.hasObservableKeys then .ret l else server.flushFrom (List.finRange N) l

def validateWireString (value : Str) : Except String Unit :=
  if value.length > 65535 then .error "node ID exceeds QUP str16 wire length"
  else if value.bytes.contains 0x00 then .error "node ID contains NUL byte"
  else .ok ()

def attachNotifiers : List (Fin N) → server.Handler Unit
  | [] => .ret ()
  | index :: rest => do
    Key.attachNotifier index server.notifier
    attachNotifiers rest

/-- Pairwise distinct keyrefs, as the debug assertion compares them. -/
def uniqueKeyrefs : List (Fin N) → Bool
  | [] => true
  | index :: rest =>
    rest.all (fun other => (server.keys index).keyref != (server.keys other).keyref) &&
      uniqueKeyrefs rest

def startup (nodeId : Str) : server.Handler Unit :=
  match validateWireString nodeId with
  | .error message => server.internal message
  | .ok () => do
    server.attachNotifiers (List.finRange N)
    if server.uniqueKeyrefs (List.finRange N) then pure () else .fail .panic

end Server
end Qup.Embassy
