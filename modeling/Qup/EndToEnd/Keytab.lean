import Qup.EndToEnd.Frames
import Qup.Embassy.Serves

/-!
# The key table

What `GETKEYTABLEN` and `GETKEY` are answered with, for any sparse registry. The
count is a `u16`, so the keyref 65535 is never below it.
-/

namespace Qup.EndToEnd
open Foundation Foundation.Utf8 Embassy

variable {N : ℕ} {server : Server N} {α : Type}

def Returns (p : server.Handler α) : Prop :=
  ∀ s : Outgoing server.keys, ∃ a, (p.eval (Outgoing.exec fun _ => true) s).1 = .ok a

def Answers (p : server.Handler α) (message : MessageRef) : Prop := Sends p message ∧ Returns p

theorem Returns.bind {β : Type} {p : server.Handler α} {f : α → server.Handler β} (hp : Returns p)
    (hf : ∀ a, Returns (f a)) : Returns (p >>= f) := by
  intro s
  obtain ⟨a, ha⟩ := hp s
  rw [Program.eval_bind_ok ha]
  exact hf a _

theorem Answers.pure {p : server.Handler Unit} {message : MessageRef} (h : Answers p message)
    (a : α) : Answers (p >>= fun _ => Program.ret a) message := by
  constructor
  · intro accepts s
    refine Program.ensures_bind (h.1 accepts s) fun _ t ht => ?_
    exact Program.ensures_ret ht
  · exact h.2.bind fun _ _ => ⟨a, rfl⟩

theorem returns_writePieces (f : Frame) (pieces : List (List UInt8)) :
    Returns (server.writePieces f pieces) := by
  induction pieces with
  | nil => exact fun _ => ⟨(), rfl⟩
  | cons piece pieces ih =>
    cases pieces with
    | nil => exact fun _ => ⟨(), rfl⟩
    | cons next pieces =>
      refine @Returns.bind N server Unit Unit (server.writeAll piece none) _
        (fun _ => ⟨(), rfl⟩) fun _ => ih

theorem returns_sendFrame (opcode : Opcode) {payload : List UInt8} (h : payload.length ≤ 65535) :
    Returns (server.sendFrame opcode payload) := by
  unfold Server.sendFrame
  rw [if_pos h]
  exact returns_writePieces _ _

theorem returns_sendKeyResponse {key : ErasedKey} (h : key.name.length + 3 ≤ 65535) :
    Returns (server.sendKeyResponse key) := by
  have hlen : key.name.length ≤ 65535 := by omega
  unfold Server.sendKeyResponse
  rw [if_pos hlen]
  simp only [toNat_ofNat16 hlen]
  rw [if_pos h, Phase.computeSegmentedChecksum_eq .key (by simp [Str.length] at h ⊢; omega)]
  exact returns_writePieces _ _

theorem returns_sendU16 {opcode : Opcode} {x : UInt16} (h : 2 ≤ server.maxResponse) :
    Returns (server.sendU16 opcode x) := by
  unfold Server.sendU16 writeExact
  rw [if_pos (by rw [length_be16]; exact h)]
  exact returns_sendFrame opcode (by rw [length_be16]; omega)

section
variable (nodeId : Str) (l : Locals N)

theorem answers_getKeytabLen (h : 2 ≤ server.maxResponse) :
    Answers (server.handleRequest nodeId .getKeytabLen l)
      (.ordinaryResponse (.keytabLen server.keyCount)) := by
  have hsend : Answers (server.sendU16 .keytablen server.keyCount)
      (.ordinaryResponse (.keytabLen server.keyCount)) :=
    ⟨sends_sendU16 rfl rfl (ordinary_legal _) trivial, returns_sendU16 h⟩
  exact hsend.pure l

theorem answers_void : Answers server.sendVoidKeyResponse
    (.ordinaryResponse (.key ⟨0x00, rfl⟩ Str.empty)) :=
  ⟨sends_sendFrame rfl rfl (ordinary_legal _) wireStr_empty, returns_sendFrame .key (by decide)⟩

theorem answers_error (code : UInt8) : Answers (server.sendError code) (.error ⟨code⟩) :=
  ⟨sends_sendFrame rfl rfl error_legal trivial, returns_sendFrame .error (by simp)⟩

theorem answers_getKey {r : UInt16} (h : r < server.keyCount) :
    (∀ i, server.findSlot r = some i → (server.keys i).name.length + 3 ≤ 65535 →
      Answers (server.handleRequest nodeId (.getKey r) l)
        (.ordinaryResponse (.key (server.keys i).perm.keyFlags (server.keys i).name))) ∧
    (server.findSlot r = none → Answers (server.handleRequest nodeId (.getKey r) l)
      (.ordinaryResponse (.key ⟨0x00, rfl⟩ Str.empty))) := by
  have hcount : ¬ server.keyCount ≤ r := UInt16.not_le.mpr h
  constructor
  · intro i hslot hname
    simp only [Server.handleRequest]
    rw [if_neg hcount, hslot]
    exact Answers.pure ⟨sends_sendKeyResponse _, returns_sendKeyResponse hname⟩ l
  · intro hslot
    simp only [Server.handleRequest]
    rw [if_neg hcount, hslot]
    exact answers_void.pure l

theorem answers_unknown {r : UInt16} (h : server.keyCount ≤ r) :
    Answers (server.handleRequest nodeId (.getKey r) l) (.error ⟨Server.errorUnknownKeyref⟩) := by
  simp only [Server.handleRequest]
  rw [if_pos h]
  exact (answers_error _).pure l

/-- Every registered key is below the count and answers for itself, the gaps are
void, and the count is the least with its keys below it, up to the largest `u16`. -/
theorem keytab_addressable {keys : Fin N → ErasedKey} {notifier : ℕ}
    (hdistinct : Function.Injective fun i => (keys i).keyref) :
    let server := Server.ofRun keys notifier
    Answers (server.handleRequest nodeId .getKeytabLen l)
        (.ordinaryResponse (.keytabLen server.keyCount)) ∧
      (∀ i, (keys i).keyref ≠ 65535 → (keys i).keyref < server.keyCount ∧
        ((keys i).name.length ≤ 65532 →
          Answers (server.handleRequest nodeId (.getKey (keys i).keyref) l)
            (.ordinaryResponse (.key (keys i).perm.keyFlags (keys i).name)))) ∧
      (∀ r, r < server.keyCount → (∀ i, (keys i).keyref ≠ r) →
        Answers (server.handleRequest nodeId (.getKey r) l)
          (.ordinaryResponse (.key ⟨0x00, rfl⟩ Str.empty))) ∧
      ∀ n : ℕ, server.keyCount.toNat ≤ n ↔ ∀ i, min ((keys i).keyref.toNat + 1) 65535 ≤ n := by
  intro server
  have hresponse : 2 ≤ server.maxResponse := (Server.ofRun_sized keys notifier).two_le
  refine ⟨answers_getKeytabLen nodeId l hresponse, fun i hi => ?_, fun r hr hnone => ?_,
    server.keyCount_le_iff⟩
  · have hlt : (keys i).keyref < server.keyCount :=
      UInt16.not_le.mp (@Server.keyref_lt_keyCount N server i hi)
    refine ⟨hlt, fun hname => ?_⟩
    have hslot : server.findSlot (keys i).keyref = some i :=
      @Server.findSlot_keyref_self N server hdistinct i
    exact (answers_getKey nodeId l hlt).1 i hslot (Nat.add_le_add_right hname 3)
  · have hslot : server.findSlot r = none := by
      cases hslot : server.findSlot r with
      | none => rfl
      | some i => exact absurd (Server.findSlot_keyref hslot) (hnone i)
    exact (answers_getKey nodeId l hr).2 hslot

end

theorem keytab_addressable_lamp :
    lamp.keyref < lampServer.keyCount ∧ (lamp.name.length ≤ 65532 →
      Answers (lampServer.handleRequest Str.empty (.getKey lamp.keyref) (Locals.initial 1))
        (.ordinaryResponse (.key lamp.perm.keyFlags lamp.name))) :=
  (@keytab_addressable 1 Str.empty (Locals.initial 1) (fun _ => lamp) 0
    (Function.injective_of_subsingleton _)).2.1 0 (by decide)

def lastKey : ErasedKey := { lamp with keyref := 65535 }

theorem valid_replicate (n : ℕ) : Valid (List.replicate n 0x61) := by
  induction n with
  | zero => exact (by decide : Valid [])
  | succ n ih =>
    have hone : Valid [0x61] := by decide
    exact hone.append ih

theorem wireStr_replicate {n : ℕ} (h : n ≤ 65535) :
    WireStr ⟨List.replicate n 0x61, valid_replicate n⟩ := by
  constructor
  · rw [List.contains_replicate]
    rfl
  · rw [Str.length, List.length_replicate]
    exact h

theorem longName_le : 65533 ≤ 65535 := by omega

def longKey : ErasedKey :=
  { lamp with
    name := ⟨List.replicate 65533 0x61, valid_replicate 65533⟩
    nameOnWire := wireStr_replicate longName_le }

def lastServer : Server 1 := .ofRun (fun _ => lastKey) 0

def longServer : Server 1 := .ofRun (fun _ => longKey) 0

/-- Neither the last keyref nor a name of this length is answered with its key. -/
theorem key_not_addressable :
    ¬ lastKey.keyref < lastServer.keyCount ∧
      Answers (lastServer.handleRequest Str.empty (.getKey lastKey.keyref) (Locals.initial 1))
        (.error ⟨Server.errorUnknownKeyref⟩) ∧
      longKey.keyref < longServer.keyCount ∧
      ¬ Returns (longServer.handleRequest Str.empty (.getKey longKey.keyref)
        (Locals.initial 1)) := by
  have hcount : longKey.keyref < longServer.keyCount :=
    UInt16.not_le.mp (@Server.keyref_lt_keyCount 1 longServer 0 (by decide))
  refine ⟨by decide, answers_unknown _ _ (by decide), hcount, fun h => ?_⟩
  let memory : Memory longServer.keys :=
    ⟨fun _ => false, fun _ => 0, fun _ => false, fun _ => none, fun _ => false⟩
  obtain ⟨l, hl⟩ := h ⟨memory, [], 0⟩
  have hlen : 65532 < longKey.name.length := by
    change 65532 < (List.replicate 65533 (0x61 : UInt8)).length
    rw [List.length_replicate]
    omega
  have hslot : longServer.findSlot longKey.keyref = some 0 := rfl
  simp only [Server.handleRequest] at hl
  rw [if_neg (UInt16.not_le.mpr hcount), hslot] at hl
  change (Program.eval _ (longServer.sendKeyResponse longKey >>= _) _).1 = _ at hl
  rw [longServer.sendKeyResponse_internal hlen] at hl
  cases hl

end Qup.EndToEnd
