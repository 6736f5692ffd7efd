import Qup.Client.Call
import Qup.Embassy.Conformance

/-!
# One request and its response

What a call of the client returns for the frame that the server decided on. The
server's decision is about its registry and its log, the client's result about
the decoded frame; `Decides.decided` composes the two encoders and the two
decoders between them.
-/

namespace Qup.EndToEnd
open Foundation Foundation.Utf8 Embassy
open Client (Call Answer ClientError ownedValue ownedMessage valueRef)

variable {N : ℕ} {server : Server N} {nodeId : Str} {log : List (Event server.keys)}
  {request : IncomingRequest} {f : Frame}

def responseFrame (m : MessageRef) : Frame := ⟨m.opcode, m.payload⟩

theorem parse_caps (server : Server N) :
    WireStr server.caps ∧
      CapsRef.parse server.caps = .ok ⟨server.caps, server.hasObservableKeys⟩ := by
  cases hobs : server.hasObservableKeys
  · have hcaps : server.caps = Server.baseCaps := by rw [Server.caps, hobs]; rfl
    rw [hcaps]
    exact ⟨⟨by decide, by decide⟩, by decide +kernel⟩
  · have hcaps : server.caps = Server.observableCaps := by rw [Server.caps, hobs]; rfl
    rw [hcaps]
    exact ⟨⟨by decide, by decide⟩, by decide +kernel⟩

theorem ordinary_legal (r : OrdinaryResponseRef) :
    (MessageRef.ordinaryResponse r).opcode.Legal .nodeToClient := by
  cases r <;> (simp only [MessageRef.opcode, OrdinaryResponseRef.opcode]; decide)

theorem error_legal : Opcode.error.Legal .nodeToClient := by decide

theorem caps_legal : Opcode.caps.Legal .nodeToClient := by decide

theorem changed_legal : Opcode.changed.Legal .nodeToClient := by decide

/-- The messages that a node sends in answer to a request. -/
def IsAnswer (f : Frame) : Prop :=
  ∃ m : MessageRef, f = responseFrame m ∧ m.OnWire ∧ m.opcode.Legal .nodeToClient

theorem isAnswer_error (code : UInt8) : IsAnswer (errorFrame code) :=
  ⟨.error ⟨code⟩, rfl, trivial, error_legal⟩

theorem isAnswer_ok : IsAnswer okFrame :=
  ⟨.ordinaryResponse .ok, rfl, trivial, ordinary_legal _⟩

theorem isAnswer_key (flags : KeyFlags) {name : Str} (h : WireStr name) :
    IsAnswer ⟨.key, flags.bits :: str16 name⟩ :=
  ⟨.ordinaryResponse (.key flags name), rfl, h, ordinary_legal _⟩

theorem Server.keyTable_name_wire (server : Server N) (r : UInt16) :
    WireStr (server.keyTable.name r) := by
  simp only [Server.keyTable]
  cases server.findSlot r with
  | some i => exact (server.keys i).nameOnWire
  | none => exact wireStr_empty

theorem isAnswer_of_decides (h : Decides server nodeId log request f) : IsAnswer f := by
  have hanswers := h.answers
  cases request with
  | ping => exact h ▸ isAnswer_ok
  | identify => exact ⟨.ordinaryResponse (.identified nodeId), h.1, h.2, ordinary_legal _⟩
  | getCaps => exact ⟨.compatibilityResponse ⟨server.caps, server.hasObservableKeys⟩, h,
      parse_caps server, caps_legal⟩
  | getKeytabLen =>
    exact ⟨.ordinaryResponse (.keytabLen server.keyCount), h, trivial, ordinary_legal _⟩
  | getKey r =>
    simp only [KeyTable.Answers] at hanswers
    split_ifs at hanswers
    · exact hanswers ▸ isAnswer_error _
    · exact hanswers ▸ isAnswer_key _ (Server.keyTable_name_wire server r)
  | get r =>
    simp only [KeyTable.Answers] at hanswers
    split_ifs at hanswers
    · exact hanswers ▸ isAnswer_error _
    · obtain ⟨v, hv, rfl⟩ := hanswers
      exact ⟨.ordinaryResponse (.value v), rfl, hv, ordinary_legal _⟩
    · exact hanswers ▸ isAnswer_error _
  | write r w =>
    simp only [KeyTable.Answers] at hanswers
    split_ifs at hanswers
    · exact hanswers ▸ isAnswer_error _
    · rcases hanswers with ⟨v, hv, -, rfl⟩ | hanswers
      · exact ⟨.ordinaryResponse (.written v), rfl, hv, ordinary_legal _⟩
      · exact hanswers ▸ isAnswer_error _
    · exact hanswers ▸ isAnswer_error _
  | observe r =>
    simp only [KeyTable.Answers] at hanswers
    split_ifs at hanswers
    · exact hanswers ▸ isAnswer_error _
    · exact hanswers ▸ isAnswer_ok
    · exact hanswers ▸ isAnswer_error _
  | unobserve r =>
    simp only [KeyTable.Answers] at hanswers
    split_ifs at hanswers
    · exact hanswers ▸ isAnswer_error _
    · exact hanswers ▸ isAnswer_ok

theorem exists_message_of_sent (h : Justified (Allowed server nodeId) log)
    (hf : f ∈ sentFrames log) : ∃ m : MessageRef, f = responseFrame m ∧
      m.WellFormed .nodeToClient := by
  induction log with
  | nil => cases hf
  | cons e log ih =>
    cases e with
    | sent g =>
      rw [sentFrames, List.mem_append, List.mem_singleton] at hf
      rcases hf with hf | rfl
      · exact ih h.2 hf
      · have hallowed := h.1
        rw [Allowed] at hallowed
        split_ifs at hallowed
        · obtain ⟨q, -, hd, -, hlen⟩ := hallowed
          obtain ⟨m, rfl, hwire, hlegal⟩ := isAnswer_of_decides hd
          exact ⟨m, rfl, hlegal, hwire, hlen⟩
        · obtain ⟨i, rfl, -⟩ := hallowed
          exact ⟨.changed (server.keys i).keyref, rfl, changed_legal, trivial, by
            simp [MessageRef.payload]⟩
    | _ => exact ih h.2 hf

theorem ownedMessage_changed {m : MessageRef} {message : Client.Message}
    (hm : ownedMessage m = .ok message) :
    (∃ r, message = .changed r) ↔ ¬ (responseFrame m).IsResponse := by
  have hdef : (responseFrame m).IsResponse ↔ m.opcode ≠ .changed := Iff.rfl
  rw [hdef, not_not]
  cases m with
  | request r => cases hm
  | compatibilityRequest => cases hm
  | ordinaryResponse r =>
    cases hm
    constructor
    · rintro ⟨r', hr'⟩
      cases r <;> cases hr'
    · intro h
      cases r <;>
        exact absurd h (by simp only [MessageRef.opcode, OrdinaryResponseRef.opcode]; decide)
  | compatibilityResponse caps =>
    cases hm
    constructor
    · rintro ⟨r', hr'⟩
      cases hr'
    · exact fun h => absurd h (show ¬ Opcode.caps = .changed by decide)
  | error e =>
    cases hm
    constructor
    · rintro ⟨r', hr'⟩
      cases hr'
    · exact fun h => absurd h (show ¬ Opcode.error = .changed by decide)
  | changed r =>
    cases hm
    exact ⟨fun _ => rfl, fun _ => ⟨r, rfl⟩⟩

/-- What a call returns, from the registry and from what the server's task did
until it answered. -/
def Decided (server : Server N) (nodeId : Str) (log : List (Event server.keys)) :
    Call → Except ClientError Answer → Prop
  | .ping, result => result = .ok .done
  | .caps, result => result = .ok (.text server.caps)
  | .identify, result => result = .ok (.text nodeId)
  | .keyCount, result => result = .ok (.count server.keyCount)
  | .key r, result =>
    if server.keyCount ≤ r then result = .error (.requestError .getkey Server.errorUnknownKeyref)
    else result = .ok (.info ⟨r, server.keyTable.flags r, server.keyTable.name r⟩)
  | .get r, result =>
    if server.keyCount ≤ r then result = .error (.requestError .get Server.errorUnknownKeyref)
    else match server.findSlot r with
      | some i =>
        if (server.keys i).readable then
          ∃ v, lastRead i log = some v ∧ result = .ok (.value (ownedValue (wireOf v)))
        else result = .error (.requestError .get Server.errorNotAllowed)
      | none => result = .error (.requestError .get Server.errorNotAllowed)
  | .write r value, result =>
    if server.keyCount ≤ r then result = .error (.requestError .write Server.errorUnknownKeyref)
    else match server.findSlot r with
      | some i =>
        if (server.keys i).writable then
          (∃ v, .stored .server i v ∈ sinceServed log ∧ value = ownedValue (wireOf v) ∧
            result = .ok (.value value)) ∨
          (result = .error (.requestError .write Server.errorTypeMismatch) ∧
            Refuses server i (wireValue server.maxStr (valueRef value)))
        else result = .error (.requestError .write Server.errorNotAllowed)
      | none => result = .error (.requestError .write Server.errorNotAllowed)
  | .observe r, result =>
    if server.keyCount ≤ r then result = .error (.requestError .observe Server.errorUnknownKeyref)
    else match server.findSlot r with
      | some i =>
        if (server.keys i).observable then result = .ok .done
        else result = .error (.requestError .observe Server.errorNotAllowed)
      | none => result = .error (.requestError .observe Server.errorNotAllowed)
  | .unobserve r, result =>
    if server.keyCount ≤ r then result = .error (.requestError .unobserve Server.errorUnknownKeyref)
    else result = .ok .done

theorem wireValue_eq_ofValue {maxStr : ℕ} {u v : ValueRef}
    (h : wireValue maxStr u = .ofValue v) : u = v := by
  cases u with
  | bool b => cases v <;> cases h; rfl
  | i64 x => cases v <;> cases h; rfl
  | str s =>
    simp only [wireValue] at h
    split_ifs at h
    · cases v <;> cases h; rfl
    · cases v <;> cases h

theorem lastRead_of_mem {i : Fin N} {v : (server.keys i).type.Value}
    (h : Justified (Allowed server nodeId) log) (hv : .readValue i v ∈ sinceServed log) :
    lastRead i log = some v := by
  induction log with
  | nil => cases hv
  | cons e log ih =>
    cases e with
    | served q => cases hv
    | readValue j w =>
      rcases List.mem_cons.mp hv with hv | hv
      · cases hv
        rw [lastRead, dif_pos rfl]
      · exact absurd hv (h.1.1 i v)
    | _ =>
      refine ih h.2 ?_
      rcases List.mem_cons.mp hv with hv | hv
      · cases hv
      · exact hv

theorem decided_of_decides {call : Call} (hjust : Justified (Allowed server nodeId) log)
    (hq : incoming server.maxStr call.message = some request)
    (h : Decides server nodeId log request f) (hlen : f.payload.length ≤ 65535) :
    Decided server nodeId log call (call.outcome f.bytes) := by
  have hframe : ∀ {m : MessageRef}, f = responseFrame m → m.OnWire →
      m.opcode.Legal .nodeToClient →
        call.outcome f.bytes = ownedMessage m >>= call.method.accept := by
    rintro m rfl hwire hlegal
    exact call.outcome_frame ⟨hlegal, hwire, hlen⟩
  have herror : ∀ {code : UInt8}, f = errorFrame code →
      call.outcome f.bytes = call.method.accept (.error code) := fun hf =>
    hframe (m := .error ⟨_⟩) hf trivial error_legal
  have hok : f = okFrame → call.outcome f.bytes = call.method.accept .ok := fun hf =>
    hframe (m := .ordinaryResponse .ok) hf trivial (ordinary_legal _)
  cases call with
  | ping =>
    cases hq
    exact hok h
  | caps =>
    cases hq
    exact hframe (m := .compatibilityResponse ⟨server.caps, server.hasObservableKeys⟩) h
      (parse_caps server) caps_legal
  | identify =>
    cases hq
    exact hframe (m := .ordinaryResponse (.identified nodeId)) h.1 h.2 (ordinary_legal _)
  | keyCount =>
    cases hq
    exact hframe (m := .ordinaryResponse (.keytabLen server.keyCount)) h trivial (ordinary_legal _)
  | key r =>
    cases hq
    have hanswers := h.answers
    simp only [KeyTable.Answers] at hanswers
    simp only [Decided]
    by_cases hr : server.keyCount ≤ r
    · rw [if_pos hr]
      rw [if_pos (show server.keyTable.count ≤ r from hr)] at hanswers
      exact herror hanswers
    · rw [if_neg hr]
      rw [if_neg (show ¬ server.keyTable.count ≤ r from hr)] at hanswers
      exact hframe (m := .ordinaryResponse (.key (server.keyTable.flags r) (server.keyTable.name r)))
        hanswers (Server.keyTable_name_wire server r) (ordinary_legal _)
  | get r =>
    cases hq
    simp only [Decides] at h
    simp only [Decided]
    split_ifs at h ⊢ with hr
    · exact herror h
    · cases hslot : server.findSlot r with
      | none =>
        rw [hslot] at h
        exact herror h
      | some i =>
        simp only [hslot] at h ⊢
        split_ifs at h ⊢ with hk
        · obtain ⟨v, hv, hf, hwire⟩ := h
          exact ⟨v, lastRead_of_mem hjust hv,
            hframe (m := .ordinaryResponse (.value (wireOf v))) hf hwire (ordinary_legal _)⟩
        · exact herror h
  | write r value =>
    cases hq
    simp only [Decides] at h
    simp only [Decided]
    split_ifs at h ⊢ with hr
    · exact herror h
    · cases hslot : server.findSlot r with
      | none =>
        rw [hslot] at h
        exact herror h
      | some i =>
        simp only [hslot] at h ⊢
        split_ifs at h ⊢ with hk
        · rcases h with ⟨v, hv, hw, hf, hwire⟩ | ⟨hf, hrefuse⟩
          · have hvalue : value = ownedValue (wireOf v) := by
              rw [← wireValue_eq_ofValue hw, Client.ownedValue_valueRef]
            refine Or.inl ⟨v, hv, hvalue, ?_⟩
            rw [hframe (m := .ordinaryResponse (.written (wireOf v))) hf hwire (ordinary_legal _),
              hvalue]
            rfl
          · exact Or.inr ⟨herror hf, hrefuse⟩
        · exact herror h
  | observe r =>
    cases hq
    simp only [Decides] at h
    simp only [Decided]
    split_ifs at h ⊢ with hr
    · exact herror h
    · cases hslot : server.findSlot r with
      | none =>
        rw [hslot] at h
        exact herror h
      | some i =>
        simp only [hslot] at h ⊢
        split_ifs at h ⊢ with hk
        · exact hok h
        · exact herror h
  | unobserve r =>
    cases hq
    simp only [Decides] at h
    simp only [Decided]
    split_ifs at h ⊢ with hr
    · exact herror h
    · exact hok h

/-- A decided call neither meets an unexpected message nor a protocol error. -/
theorem Decided.expected {call : Call} {result : Except ClientError Answer}
    (h : Decided server nodeId log call result) :
    (∀ expected actual, result ≠ .error (.unexpectedMessage expected actual)) ∧
      ∀ e, result ≠ .error (.protocol e) := by
  have herror : ∀ {opcode : Opcode} {code : UInt8}, result = .error (.requestError opcode code) →
      (∀ expected actual, result ≠ .error (.unexpectedMessage expected actual)) ∧
        ∀ e, result ≠ .error (.protocol e) := by
    rintro opcode code rfl
    exact ⟨fun _ _ h => (by cases h), fun _ h => (by cases h)⟩
  have hanswer : ∀ {answer : Answer}, result = .ok answer →
      (∀ expected actual, result ≠ .error (.unexpectedMessage expected actual)) ∧
        ∀ e, result ≠ .error (.protocol e) := by
    rintro answer rfl
    exact ⟨fun _ _ h => (by cases h), fun _ h => (by cases h)⟩
  cases call with
  | ping | caps | identify | keyCount => exact hanswer h
  | key r =>
    simp only [Decided] at h
    split_ifs at h
    · exact herror h
    · exact hanswer h
  | get r =>
    simp only [Decided] at h
    split_ifs at h
    · exact herror h
    · cases hslot : server.findSlot r with
      | none =>
        rw [hslot] at h
        exact herror h
      | some i =>
        simp only [hslot] at h
        split_ifs at h
        · obtain ⟨v, -, h⟩ := h
          exact hanswer h
        · exact herror h
  | write r value =>
    simp only [Decided] at h
    split_ifs at h
    · exact herror h
    · cases hslot : server.findSlot r with
      | none =>
        rw [hslot] at h
        exact herror h
      | some i =>
        simp only [hslot] at h
        split_ifs at h
        · rcases h with ⟨v, -, -, h⟩ | ⟨h, -⟩
          · exact hanswer h
          · exact herror h
        · exact herror h
  | observe r =>
    simp only [Decided] at h
    split_ifs at h
    · exact herror h
    · cases hslot : server.findSlot r with
      | none =>
        rw [hslot] at h
        exact herror h
      | some i =>
        simp only [hslot] at h
        split_ifs at h
        · exact hanswer h
        · exact herror h
  | unobserve r =>
    simp only [Decided] at h
    split_ifs at h
    · exact herror h
    · exact hanswer h

end Qup.EndToEnd
