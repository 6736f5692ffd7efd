import Qup.EndToEnd.Response
import Qup.Foundation.Contract

/-!
# Frames in pieces

The senders of the server write a frame piece by piece, with the lengths and the
checksum computed apart from the bytes. Run on any transport: if a sender returns
`Ok`, the pieces are one frame, and the core's decoder makes of it the message
that was meant.
-/

namespace Qup.EndToEnd
open Foundation Foundation.Utf8 Embassy

variable {N : ℕ}

/-- The server's end of a transport: what has been written, and how many
operations have been performed. -/
structure Outgoing (keys : Fin N → ErasedKey) where
  memory : Memory keys
  wire : List UInt8
  performed : ℕ

def Outgoing.exec {keys : Fin N → ErasedKey} (accepts : ℕ → Bool) (o : Op keys)
    (s : Outgoing keys) : o.Res × Outgoing keys :=
  let r := o.exec (accepts s.performed) s.memory
  (r.1, { memory := r.2, wire := s.wire ++ o.written r.1, performed := s.performed + 1 })

variable {server : Server N}

/-- A program that returns `Ok` has written these bytes and nothing else. -/
def Writes (p : server.Handler Unit) (bytes : List UInt8) : Prop :=
  ∀ (accepts : ℕ → Bool) (s : Outgoing server.keys),
    p.Ensures (Outgoing.exec accepts) s fun _ t =>
      t.memory = s.memory ∧ t.wire = s.wire ++ bytes

def Reads (bytes : List UInt8) (message : MessageRef) : Prop :=
  ∃ view, parseFrame .nodeToClient bytes = .ok view ∧
    MessageRef.decode view.opcode view.payload = .ok message

/-- A program that returns `Ok` has written one frame, and it is this message. -/
def Sends {α : Type} (p : server.Handler α) (message : MessageRef) : Prop :=
  ∀ (accepts : ℕ → Bool) (s : Outgoing server.keys),
    p.Ensures (Outgoing.exec accepts) s fun _ t =>
      t.memory = s.memory ∧ ∃ bytes, t.wire = s.wire ++ bytes ∧ Reads bytes message

theorem reads_frame {m : MessageRef} (h : m.WellFormed .nodeToClient) : Reads m.frame m := by
  refine ⟨frameView m.opcode m.payload, parseFrame_frameBytes h.1 h.2.2, ?_⟩
  exact MessageRef.decode_payload h.2.1

theorem Writes.sends {p : server.Handler Unit} {m : MessageRef} (h : Writes p m.frame)
    (hm : m.WellFormed .nodeToClient) : Sends p m :=
  fun accepts s => (h accepts s).mono fun _ _ ht => ⟨ht.1, m.frame, ht.2, reads_frame hm⟩

theorem writes_writeAll (bytes : List UInt8) (completes : Option Frame) :
    Writes (server.writeAll bytes completes) bytes := by
  intro accepts s a ha
  cases haccept : accepts s.performed with
  | true => simp [Server.writeAll, Program.eval, Outgoing.exec, Op.exec, Op.written, haccept]
  | false => simp [Server.writeAll, Program.eval, Outgoing.exec, Op.exec, haccept] at ha

theorem Writes.append {p q : server.Handler Unit} {bytes bytes' : List UInt8}
    (hp : Writes p bytes) (hq : Writes q bytes') :
    Writes (p >>= fun _ => q) (bytes ++ bytes') := by
  intro accepts s
  refine Program.ensures_bind (hp accepts s) fun _ t ht => ?_
  refine (hq accepts t).mono fun _ u hu => ?_
  exact ⟨hu.1.trans ht.1, by rw [hu.2, ht.2, List.append_assoc]⟩

theorem writes_writePieces (f : Frame) (pieces : List (List UInt8)) :
    Writes (server.writePieces f pieces) pieces.flatten := by
  induction pieces with
  | nil => exact fun _ _ => Program.ensures_ret ⟨rfl, (List.append_nil _).symm⟩
  | cons piece pieces ih =>
    cases pieces with
    | nil =>
      rw [List.flatten_singleton]
      exact writes_writeAll piece _
    | cons next pieces => exact (writes_writeAll piece none).append ih

theorem sends_sendFrame {opcode : Opcode} {payload : List UInt8} {m : MessageRef}
    (hop : m.opcode = opcode) (hpayload : m.payload = payload)
    (hlegal : m.opcode.Legal .nodeToClient) (hwire : m.OnWire) :
    Sends (server.sendFrame opcode payload) m := by
  subst hop hpayload
  unfold Server.sendFrame
  split_ifs with hlen
  · have hwrites := @writes_writePieces N server ⟨m.opcode, m.payload⟩
      [m.opcode.byte :: be16 (UInt16.ofNat m.payload.length), m.payload,
        [computeChecksum m.opcode m.payload]]
    have hflat : [m.opcode.byte :: be16 (UInt16.ofNat m.payload.length), m.payload,
        [computeChecksum m.opcode m.payload]].flatten = m.frame := by
      simp [MessageRef.frame, frameBytes, rawFrame]
    rw [hflat] at hwrites
    exact hwrites.sends ⟨hlegal, hwire, hlen⟩
  · exact fun _ _ => Program.ensures_fail _

theorem computeSegmentedChecksum_eq_ite (opcode : Opcode) (segments : List (List UInt8)) :
    Server.computeSegmentedChecksum opcode segments =
      if segments.flatten.length ≤ 65535 then .ok (computeChecksum opcode segments.flatten)
      else .error .panic := by
  split_ifs with h
  · exact Phase.computeSegmentedChecksum_eq opcode h
  · have hlen : segments.foldl (fun acc segment => acc + segment.length) 0 =
        segments.flatten.length := by
      rw [List.length_flatten, List.sum_eq_foldl, List.foldl_map]
    rw [Server.computeSegmentedChecksum, hlen, if_neg h]

theorem sends_sendStr16Response {opcode : Opcode} {value : Str} {m : MessageRef}
    (hop : m.opcode = opcode) (hpayload : m.payload = str16 value)
    (hlegal : m.opcode.Legal .nodeToClient) (hwire : m.OnWire) :
    Sends (server.sendStr16Response opcode value) m := by
  subst hop
  unfold Server.sendStr16Response
  split_ifs with hlen
  · have hn := toNat_ofNat16 hlen
    simp only [hn]
    split_ifs with hfits
    · have hsegments : [be16 (UInt16.ofNat value.length), value.bytes].flatten = str16 value := by
        simp [str16]
      have hshort : (str16 value).length ≤ 65535 := by
        rw [length_str16]
        omega
      rw [Phase.computeSegmentedChecksum_eq m.opcode (by rw [hsegments]; exact hshort), hsegments]
      have hwrites := @writes_writePieces N server
        ⟨m.opcode, be16 (UInt16.ofNat value.length) ++ value.bytes⟩
        [m.opcode.byte :: be16 (UInt16.ofNat value.length + 2),
          be16 (UInt16.ofNat value.length), value.bytes, [computeChecksum m.opcode (str16 value)]]
      have hflat : [m.opcode.byte :: be16 (UInt16.ofNat value.length + 2),
          be16 (UInt16.ofNat value.length), value.bytes,
          [computeChecksum m.opcode (str16 value)]].flatten = m.frame := by
        have hsum : UInt16.ofNat (value.length + 2) = UInt16.ofNat value.length + 2 :=
          (Phase.ofNat16_add hfits).symm
        rw [MessageRef.frame, hpayload, frameBytes, rawFrame, length_str16, hsum]
        simp [str16]
      rw [hflat] at hwrites
      exact hwrites.sends ⟨hlegal, hwire, hpayload ▸ hshort⟩
    · exact fun _ _ => Program.ensures_fail _
  · exact fun _ _ => Program.ensures_fail _

theorem sends_sendKeyResponse (key : ErasedKey) : Sends (server.sendKeyResponse key)
    (.ordinaryResponse (.key key.perm.keyFlags key.name)) := by
  unfold Server.sendKeyResponse
  split_ifs with hlen
  · have hn := toNat_ofNat16 hlen
    simp only [hn]
    split_ifs with hfits
    · let m : MessageRef := .ordinaryResponse (.key key.perm.keyFlags key.name)
      have hpayload : m.payload = key.keyflags :: str16 key.name := rfl
      have hsegments : [[key.keyflags], be16 (UInt16.ofNat key.name.length),
          key.name.bytes].flatten = m.payload := by
        simp [hpayload, str16]
      have hshort : m.payload.length ≤ 65535 := by
        rw [hpayload, List.length_cons, length_str16]
        omega
      rw [Phase.computeSegmentedChecksum_eq .key (by rw [hsegments]; exact hshort), hsegments]
      have hwrites := @writes_writePieces N server
        ⟨.key, [key.keyflags] ++ be16 (UInt16.ofNat key.name.length) ++ key.name.bytes⟩
        [Opcode.key.byte :: be16 (UInt16.ofNat key.name.length + 3), [key.keyflags],
          be16 (UInt16.ofNat key.name.length), key.name.bytes,
          [computeChecksum .key m.payload]]
      have hflat : [Opcode.key.byte :: be16 (UInt16.ofNat key.name.length + 3), [key.keyflags],
          be16 (UInt16.ofNat key.name.length), key.name.bytes,
          [computeChecksum .key m.payload]].flatten = m.frame := by
        have hsum : UInt16.ofNat (key.name.length + 2 + 1) =
            UInt16.ofNat key.name.length + 3 := (Phase.ofNat16_add hfits).symm
        rw [MessageRef.frame, show m.opcode = .key from rfl, frameBytes, rawFrame, hpayload,
          List.length_cons, length_str16, hsum]
        simp [str16]
      rw [hflat] at hwrites
      exact hwrites.sends ⟨ordinary_legal _, key.nameOnWire, hshort⟩
    · exact fun _ _ => Program.ensures_fail _
  · exact fun _ _ => Program.ensures_fail _

theorem sends_sendU16 {opcode : Opcode} {x : UInt16} {m : MessageRef} (hop : m.opcode = opcode)
    (hpayload : m.payload = be16 x) (hlegal : m.opcode.Legal .nodeToClient) (hwire : m.OnWire) :
    Sends (server.sendU16 opcode x) m := by
  unfold Server.sendU16 writeExact
  split_ifs
  · exact sends_sendFrame hop hpayload hlegal hwire
  · exact fun _ _ => Program.ensures_fail _

/-- Whatever the senders are given and however long the strings: the frame they
write is the one they mean. -/
theorem sent_frames_mean {nodeId : Str} (hid : Server.validateWireString nodeId = .ok ())
    (server : Server N) :
    Sends (server.sendStr16Response .identified nodeId) (.ordinaryResponse (.identified nodeId)) ∧
      Sends (server.sendStr16Response .caps server.caps)
        (.compatibilityResponse ⟨server.caps, server.hasObservableKeys⟩) ∧
      (∀ key : ErasedKey, key.perm.keyFlags.bits = key.keyflags ∧
        Sends (server.sendKeyResponse key)
          (.ordinaryResponse (.key key.perm.keyFlags key.name))) ∧
      Sends server.sendVoidKeyResponse (.ordinaryResponse (.key ⟨0x00, rfl⟩ Str.empty)) ∧
      (∀ code, Sends (server.sendError code) (.error ⟨code⟩)) ∧
      Sends (server.sendFrame .ok []) (.ordinaryResponse .ok) ∧
      (∀ count, Sends (server.sendU16 .keytablen count) (.ordinaryResponse (.keytabLen count))) ∧
      (∀ keyref, Sends (server.sendU16 .changed keyref) (.changed keyref)) ∧
      (∀ (t : KeyType) (v : t.Value) payload, QupValue.encode v server.maxResponse = .ok payload →
        Sends (server.sendFrame .value payload)
            (.ordinaryResponse (.value (LawfulQupValue.wire v))) ∧
          Sends (server.sendFrame .written payload)
            (.ordinaryResponse (.written (LawfulQupValue.wire v)))) ∧
      ∀ opcode segments, Server.computeSegmentedChecksum opcode segments =
        if segments.flatten.length ≤ 65535 then .ok (computeChecksum opcode segments.flatten)
        else .error .panic := by
  have hnode : WireStr nodeId := validateWireString_ok hid
  refine ⟨sends_sendStr16Response rfl rfl (ordinary_legal _) hnode,
    sends_sendStr16Response rfl rfl caps_legal (parse_caps server),
    fun key => ⟨rfl, sends_sendKeyResponse key⟩,
    sends_sendFrame rfl rfl (ordinary_legal _) wireStr_empty,
    fun code => sends_sendFrame rfl rfl error_legal trivial,
    sends_sendFrame rfl rfl (ordinary_legal _) trivial,
    fun count => sends_sendU16 rfl rfl (ordinary_legal _) trivial,
    fun keyref => sends_sendU16 rfl rfl changed_legal trivial,
    fun t v payload hencode => ?_, computeSegmentedChecksum_eq_ite⟩
  obtain ⟨rfl, hwire⟩ := LawfulQupValue.encode_ok hencode
  exact ⟨sends_sendFrame rfl rfl (ordinary_legal _) hwire,
    sends_sendFrame rfl rfl (ordinary_legal _) hwire⟩

def keylessServer : Server 0 := .ofRun (fun i => i.elim0) 0

def keylessOutgoing : Outgoing keylessServer.keys where
  memory := ⟨fun i => i.elim0, fun _ => 0, fun _ => false, fun _ => none, fun _ => false⟩
  wire := []
  performed := 0

theorem sent_frames_mean_node : ∃ t : Outgoing keylessServer.keys,
    (keylessServer.sendStr16Response .identified ⟨[0x61], by decide⟩).eval
        (Outgoing.exec fun _ => true) keylessOutgoing = (.ok (), t) ∧
      t.wire = [0x69, 0x00, 0x03, 0x00, 0x01, 0x61, 0x32] ∧
        Reads t.wire (.ordinaryResponse (.identified ⟨[0x61], by decide⟩)) := by
  have hrun : ∃ t, (keylessServer.sendStr16Response .identified ⟨[0x61], by decide⟩).eval
      (Outgoing.exec fun _ => true) keylessOutgoing = (.ok (), t) ∧
        t.wire = [0x69, 0x00, 0x03, 0x00, 0x01, 0x61, 0x32] := ⟨_, rfl, rfl⟩
  obtain ⟨t, ht, hwire⟩ := hrun
  have hsends := (@sent_frames_mean 0 ⟨[0x61], by decide⟩ rfl keylessServer).1
    (fun _ => true) keylessOutgoing () (by rw [ht])
  rw [ht] at hsends
  obtain ⟨-, bytes, hbytes, hreads⟩ := hsends
  refine ⟨t, ht, hwire, ?_⟩
  rw [hbytes]
  exact hreads

end Qup.EndToEnd
