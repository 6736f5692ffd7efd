import Qup.Embassy.SessionRun

/-!
# The bytes on the wire

The writes of a response are the pieces of one frame. What a connection has put
on the wire is at every moment the frames it has sent, and the first pieces of
the one it is sending.
-/

namespace Qup.Embassy
open Foundation Foundation.Utf8

variable {N : ℕ} {server : Server N} {nodeId : Str} {l : Locals N} {f : Frame} {w : List UInt8}
  {log : List (Event server.keys)}

def sentBytes {keys : Fin N → ErasedKey} (log : List (Event keys)) : List UInt8 :=
  (sentFrames log).flatMap Frame.bytes

theorem sentBytes_observe {keys : Fin N → ErasedKey} (a : Actor) (o : Op keys) (r : o.Res)
    (log : List (Event keys)) (h : ∀ bytes completes, o ≠ .writeAll bytes completes) :
    sentBytes (o.observe a r ++ log) = sentBytes log := by
  cases o with
  | writeAll bytes completes => exact absurd rfl (h bytes completes)
  | _ => rfl

def Phase.Framed (p : Phase server) (w : List UInt8) (log : List (Event server.keys)) : Prop :=
  match p with
  | .respond f piece pieces _ | .notify f piece pieces _ _ =>
    ∃ front, w = sentBytes log ++ front ∧ front ++ (piece ++ pieces.flatten) = f.bytes
  | .exit _ => sentBytes log <+: w
  | _ => w = sentBytes log

def Position.Framed (position : Position server) (w : List UInt8)
    (log : List (Event server.keys)) : Prop :=
  match position with
  | .idle _ => w = sentBytes log
  | .running _ p => p.Framed w log
  | .stopped => sentBytes log <+: w

theorem framed_respondWith {pieces : List (List UInt8)} (hp : pieces.flatten = f.bytes)
    (h : w = sentBytes log) : (Phase.respondWith f l pieces : Phase server).Framed w log := by
  cases pieces with
  | nil => exact h
  | cons piece pieces => exact ⟨[], by simpa using h, hp⟩

theorem flatten_framePieces (f : Frame) : (Phase.framePieces f).flatten = f.bytes := by
  simp [Phase.framePieces, Frame.bytes, frameBytes, rawFrame]

theorem framed_exit {e : Exit} (h : w = sentBytes log) :
    (Phase.exit e : Phase server).Framed w log := by
  subst h
  exact List.prefix_rfl

theorem framed_sendFrame (h : w = sentBytes log) :
    (Phase.sendFrame f l : Phase server).Framed w log := by
  unfold Phase.sendFrame
  split_ifs
  · exact framed_respondWith (flatten_framePieces f) h
  · exact framed_exit h

theorem framed_sendStr16 {opcode : Opcode} {value : Str} (h : w = sentBytes log) :
    (Phase.sendStr16 opcode value l : Phase server).Framed w log := by
  unfold Phase.sendStr16
  split_ifs
  · refine framed_respondWith ?_ h
    simp only [Frame.bytes, frameBytes, rawFrame, length_str16]
    simp only [List.flatten_cons, List.flatten_nil, str16, List.append_assoc, List.append_nil,
      List.cons_append]
  · exact framed_exit h

theorem framed_sendKey {key : ErasedKey} (h : w = sentBytes log) :
    (Phase.sendKey key l : Phase server).Framed w log := by
  unfold Phase.sendKey
  split_ifs
  · refine framed_respondWith ?_ h
    simp only [Frame.bytes, frameBytes, rawFrame, Phase.keyPayload, List.length_cons, length_str16]
    simp only [List.flatten_cons, List.flatten_nil, str16, List.append_assoc, List.append_nil,
      List.cons_append, List.nil_append]
  · exact framed_exit h

theorem framed_sendU16 {opcode : Opcode} {x : UInt16} (h : w = sentBytes log) :
    (Phase.sendU16 opcode x l : Phase server).Framed w log := by
  unfold Phase.sendU16
  split_ifs
  · exact framed_sendFrame h
  · exact framed_exit h

theorem framed_sendValue {i : Fin N} {v : (server.keys i).type.Value} (h : w = sentBytes log) :
    (Phase.sendValue v l).Framed w log := by
  unfold Phase.sendValue
  rcases QupValue.encode v server.maxResponse with (e | _) | payload
  · exact framed_exit h
  · exact framed_exit h
  · exact framed_sendFrame h

theorem framed_sendWritten {i : Fin N} {v : (server.keys i).type.Value} (h : w = sentBytes log) :
    (Phase.sendWritten v l).Framed w log := by
  unfold Phase.sendWritten
  rcases QupValue.encode v server.maxResponse with (e | _) | payload
  · exact framed_sendFrame h
  · exact framed_exit h
  · exact framed_sendFrame h

theorem framed_flushPhase {rest : List (Fin N)} (h : w = sentBytes log) :
    (Phase.flushPhase rest l : Phase server).Framed w log := by
  induction rest with
  | nil => exact h
  | cons i rest ih =>
    rw [Phase.flushPhase]
    split_ifs
    · exact h
    · exact ih

theorem framed_flush (h : w = sentBytes log) : (Phase.flush l : Phase server).Framed w log := by
  unfold Phase.flush
  split_ifs
  · exact h
  · exact framed_flushPhase h

theorem framed_sendChanged {i : Fin N} {rest : List (Fin N)} (h : w = sentBytes log) :
    (Phase.sendChanged i rest l : Phase server).Framed w log := by
  unfold Phase.sendChanged
  split_ifs
  · exact ⟨[], by simpa using h, flatten_framePieces (changedFrame (server.keys i).keyref)⟩
  · exact framed_exit h

theorem framed_attachPhase {rest : List (Fin N)} (h : w = sentBytes log) :
    (Phase.attachPhase rest : Phase server).Framed w log := by
  induction rest with
  | nil =>
    unfold Phase.attachPhase
    split_ifs
    · exact h
    · exact framed_exit h
  | cons i rest ih =>
    rw [Phase.attachPhase]
    split_ifs
    · exact h
    · exact ih

theorem framed_start (h : w = sentBytes log) :
    (Phase.start nodeId : Phase server).Framed w log := by
  unfold Phase.start
  cases Server.validateWireString nodeId with
  | error message => exact framed_exit h
  | ok u => exact framed_attachPhase h

theorem framed_handle {request : IncomingRequest} (h : w = sentBytes log) :
    (Phase.handle nodeId request l : Phase server).Framed w log := by
  have herror : ∀ code, (Phase.sendError code l : Phase server).Framed w log :=
    fun code => framed_sendFrame h
  cases request with
  | ping => exact framed_sendFrame h
  | identify => exact framed_sendStr16 h
  | getCaps => exact framed_sendStr16 h
  | getKeytabLen => exact framed_sendU16 h
  | getKey r =>
    simp only [Phase.handle]
    split_ifs
    · exact herror _
    · cases server.findSlot r with
      | some i => exact framed_sendKey h
      | none => exact framed_sendFrame h
  | get r =>
    simp only [Phase.handle]
    split_ifs
    · exact herror _
    · cases server.findSlot r with
      | none => exact herror _
      | some i =>
        simp only
        split_ifs
        · exact herror _
        · exact h
  | write r value =>
    simp only [Phase.handle]
    split_ifs
    · exact herror _
    · cases server.findSlot r with
      | none => exact herror _
      | some i =>
        simp only
        split_ifs
        · exact herror _
        · cases (QupValue.decode value : Except WireValueError (server.keys i).type.Value) with
          | error e => exact herror _
          | ok v =>
            simp only
            cases QupValue.validate v with
            | error e => exact herror _
            | ok u => exact h
  | observe r =>
    simp only [Phase.handle]
    split_ifs
    · exact herror _
    · cases server.findSlot r with
      | none => exact herror _
      | some i =>
        simp only
        split_ifs
        · exact herror _
        · exact h
  | unobserve r =>
    simp only [Phase.handle]
    split_ifs
    · exact herror _
    · cases server.findSlot r with
      | none => exact framed_sendFrame h
      | some i => exact h

theorem framed_write {piece : List UInt8} {pieces : List (List UInt8)} {next : Phase server}
    {accepted : Bool} (hwire : ∃ front, w = sentBytes log ++ front ∧
      front ++ (piece ++ pieces.flatten) = f.bytes)
    (hlast : pieces = [] → ∀ w' log', w' = sentBytes log' → next.Framed w' log')
    (hmore : ∀ p ps, pieces = p :: ps → ∀ w' log', (∃ front, w' = sentBytes log' ++ front ∧
      front ++ (p ++ ps.flatten) = f.bytes) → next.Framed w' log') :
    (bif accepted then next else Phase.exit (.error .write)).Framed
      (w ++ (Op.writeAll piece (if pieces.isEmpty then some f else none) : Op server.keys).written
        accepted)
      ((Op.writeAll piece (if pieces.isEmpty then some f else none) : Op server.keys).observe
        .server accepted ++ log) := by
  obtain ⟨front, rfl, hfront⟩ := hwire
  cases accepted with
  | false =>
    cases pieces <;> simp [Op.written, Op.observe, Phase.Framed]
  | true =>
    cases pieces with
    | nil =>
      refine hlast rfl _ _ ?_
      simp only [List.flatten_nil, List.append_nil] at hfront
      simp [Op.written, Op.observe, sentBytes, sentFrames, ← hfront]
    | cons p ps =>
      refine hmore p ps rfl _ _ ⟨front ++ piece, ?_, ?_⟩
      · simp [Op.written, Op.observe]
      · rw [← hfront]
        simp

theorem Phase.Framed.act {p : Phase server} {m : Memory server.keys} (h : p.Framed w log)
    {o : Op server.keys} {k : o.Res → Phase server} (hview : p.view = .act o k)
    (accepted : Bool) : (k (o.exec accepted m).1).Framed (w ++ o.written (o.exec accepted m).1)
      (o.observe .server (o.exec accepted m).1 ++ log) := by
  cases p with
  | done l => cases hview
  | exit e => cases hview
  | attach i rest =>
    cases hview
    exact framed_attachPhase ((List.append_nil w).trans h)
  | respond f piece pieces l =>
    cases hview
    refine framed_write h ?_ ?_
    · rintro rfl w' log' hw
      exact hw
    · rintro p ps rfl w' log' hw
      exact hw
  | readValue i l =>
    cases hview
    exact framed_sendValue ((List.append_nil w).trans h)
  | store i v l =>
    cases hview
    exact (List.append_nil w).trans h
  | announce a i v l =>
    have hsame : ∀ (r : (a.op i : Op server.keys).Res),
        w ++ (a.op i : Op server.keys).written r =
          sentBytes ((a.op i : Op server.keys).observe .server r ++ log) := by
      intro r
      cases a <;> exact (List.append_nil w).trans h
    cases hview
    dsimp only
    cases a.next i ((a.op i : Op server.keys).exec accepted m).1 with
    | some b => exact hsame _
    | none => exact framed_sendWritten (hsame _)
  | record i on l =>
    cases hview
    exact framed_sendFrame ((List.append_nil w).trans h)
  | poll i rest l =>
    cases hview
    have hsame : w ++ [] = sentBytes (.readGeneration i (m.generation i) :: log) :=
      (List.append_nil w).trans h
    change (if m.generation i = l.seenGeneration i then Phase.flushPhase rest l
      else Phase.sendChanged i rest (l.setSeen i (m.generation i))).Framed (w ++ [])
        (.readGeneration i (m.generation i) :: log)
    split_ifs
    · exact framed_flushPhase hsame
    · exact framed_sendChanged hsame
  | notify f piece pieces rest l =>
    cases hview
    refine framed_write h ?_ ?_
    · rintro rfl w' log' hw
      exact framed_flushPhase hw
    · rintro p ps rfl w' log' hw
      exact hw

theorem Position.Framed.move {c c' : Config server} (h : c.position.Framed c.wire c.log)
    (hm : Move server nodeId c c') : c'.position.Framed c'.wire c'.log := by
  cases hm with
  | quiet => exact h
  | stop =>
    obtain ⟨position, m, us, w, log⟩ := c
    have hpre : position.Framed w log → sentBytes log <+: w := by
      intro h
      cases position with
      | stopped => exact h
      | idle l => exact h ▸ List.prefix_rfl
      | running a p =>
        cases p with
        | respond f piece pieces l =>
          obtain ⟨front, rfl, -⟩ := h
          exact List.prefix_append _ _
        | notify f piece pieces rest l =>
          obtain ⟨front, rfl, -⟩ := h
          exact List.prefix_append _ _
        | exit e => exact h
        | _ => exact h ▸ List.prefix_rfl
    exact hpre h
  | serve l request m us w log => exact framed_handle h
  | wake l m us w log => exact framed_flush h
  | start l m us w log => exact h
  | flush request l m us w log ho => exact framed_flush h
  | answered request l m us w log ho => exact h
  | flushed l m us w log => exact h
  | spawn c i v => exact h
  | act activity p o k accepted m us w log hview => exact Phase.Framed.act h hview accepted
  | update j u o k position m us w log hj hview =>
    have hsame : sentBytes (o.observe .update (o.exec true m).1 ++ log) = sentBytes log := by
      refine sentBytes_observe _ _ _ _ fun bytes completes ho => ?_
      subst ho
      cases u with
      | finished result => cases hview
      | store i v => cases hview
      | announce a i changed => cases a <;> cases hview
    unfold Position.Framed Phase.Framed at h ⊢
    simp only [hsame]
    exact h

/-- What is on the wire is the frames sent and the front of the next one. -/
theorem wire_framed {P : Connection server → Label server.keys → Prop}
    {memory : Memory server.keys} {labels : List (Label server.keys)} {s : Connection server}
    (hrun : Path (Sys.step (programs server nodeId)) P
      (Sys.initial (programs server nodeId) memory) labels s) :
    sentBytes s.log <+: s.wire ∧ ((∃ l reader reads, s.ctrl = .reading l reader reads) →
      s.wire = sentBytes s.log) := by
  obtain ⟨t, ht, rfl⟩ := exists_phases hrun
  have h : (PhaseSys.position t).Framed t.wire t.log :=
    PhaseSys.invariant (I := fun c => c.position.Framed c.wire c.log) ht (framed_start rfl)
      fun _ _ h hm => h.move hm
  constructor
  · unfold PhaseSys.position at h
    rcases hctrl : t.ctrl with _ | _ | _ | ⟨activity, p⟩ | e <;> simp only [hctrl] at h
    · exact h ▸ List.prefix_rfl
    · exact h ▸ List.prefix_rfl
    · exact h ▸ List.prefix_rfl
    · cases p with
      | respond f piece pieces l =>
        obtain ⟨front, hw, -⟩ := h
        exact ⟨front, hw.symm⟩
      | notify f piece pieces rest l =>
        obtain ⟨front, hw, -⟩ := h
        exact ⟨front, hw.symm⟩
      | exit e => exact h
      | _ => exact h ▸ List.prefix_rfl
    · exact h
  · rintro ⟨l, reader, reads, hctrl⟩
    simp only [Sys.map] at hctrl
    unfold PhaseSys.position at h
    rcases hctrl' : t.ctrl with _ | _ | _ | _ | _ <;>
      simp only [hctrl', Ctrl.map, reduceCtorEq] at hctrl
    simp only [hctrl'] at h
    exact h

end Qup.Embassy
