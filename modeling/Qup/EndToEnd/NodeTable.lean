import Qup.EndToEnd.Replies
import Qup.EndToEnd.Response
import Qup.TestNode.Responses

/-!
# The test node and its table

What the test node puts into the queue of any of its connections, in every run:
frames that can be built and read, to each message the response that the key table
calls for, and notifications only of observable keys.
-/

namespace Qup.EndToEnd
open Foundation Foundation.Program Foundation.Utf8
open Embassy (unknownKeyref notAllowed typeMismatch)
open Client (Call ownedMessage ownedValue)
open TestNode (Cell KeySpec Label Node TaskId WireValue WriteSuccess keySpec keySpecs
  messageOf received)

def testNode : Profile where
  table :=
    { count := TestNode.keyCount
      flags := fun r => ((keySpec r).map KeySpec.flags).getD TestNode.flagsNone
      name := fun r => ((keySpec r).map KeySpec.name).getD Str.empty }
  nodeId := TestNode.nodeId
  caps := TestNode.caps

structure Profile.Answers (profile : Profile) (message frame : MessageRef) : Prop where
  wellFormed : frame.WellFormed .nodeToClient
  replies : ∃ call m, call.message = message ∧ ownedMessage frame = .ok m ∧ profile.Replies call m

def Profile.Observable (profile : Profile) (r : UInt16) : Prop :=
  r < profile.table.count ∧ (profile.table.flags r).isObservable = true

section
variable {r : UInt16} {spec : KeySpec}

theorem unknown_of_keySpec (h : keySpec r = none) : testNode.table.count ≤ r := by
  have hlength : keySpecs.length ≤ r.toNat := List.getElem?_eq_none_iff.mp h
  rw [UInt16.le_iff_toNat_le]
  exact hlength

theorem known_of_keySpec (h : keySpec r = some spec) : ¬ testNode.table.count ≤ r ∧
    testNode.table.flags r = spec.flags ∧ testNode.table.name r = spec.name := by
  obtain ⟨hlt, -⟩ := List.getElem?_eq_some_iff.mp h
  refine ⟨fun hle => ?_, by simp [testNode, h], by simp [testNode, h]⟩
  rw [UInt16.le_iff_toNat_le] at hle
  exact absurd hlt (Nat.not_lt.mpr hle)

theorem observable_of_keySpec (h : keySpec r = some spec) (hobservable : spec.flags.isObservable) :
    testNode.Observable r := by
  obtain ⟨hknown, hflags, -⟩ := known_of_keySpec h
  exact ⟨UInt16.not_le.mp hknown, hflags ▸ hobservable⟩

end

/-- A notification of an observable key, or a response to the message that the task
dispatches. Stored values are sound. -/
def replying (message : MessageRef) : Contract TestNode.Op.Res where
  asks
    | .send _ frame => (∃ r, frame = TestNode.encodeChanged r ∧ testNode.Observable r) ∨
        testNode.Answers message frame
    | _ => True
  gives
    | .load cell, value => cell.Sound value
    | _, _ => True

abbrev Answering {ε α : Type} (message : MessageRef) (program : TestNode.Action ε α) : Prop :=
  program.Meets (replying message) (fun _ => True) fun _ => True

section
variable {message : MessageRef} {r : UInt16} {ε : Type}

theorem send_answering {c : ℕ} {frame : MessageRef} (h : testNode.Answers message frame) :
    Answering message (TestNode.send c frame : TestNode.Action ε Bool) :=
  ⟨.inr h, fun _ _ => trivial⟩

theorem notifyAll_answering (h : testNode.Observable r) (connections : List ℕ) :
    Answering message (TestNode.notifyAll r connections : TestNode.Action ε Unit) := by
  induction connections with
  | nil => trivial
  | cons c connections ih =>
    refine ⟨trivial, fun observing _ => ?_⟩
    cases observing with
    | false => exact ih
    | true => exact ⟨.inl ⟨r, rfl, h⟩, fun _ _ => ih⟩

theorem broadcastChanged_answering (h : testNode.Observable r) :
    Answering message (TestNode.broadcastChanged r : TestNode.Action ε Unit) :=
  ⟨trivial, fun connections _ => notifyAll_answering h connections⟩

theorem updateVoltage_answering :
    Answering message (TestNode.updateVoltage : TestNode.Action ε Unit) := by
  apply meets_bind (R := fun _ => True)
  · exact ⟨trivial, fun _ _ => trivial⟩
  · refine fun offset _ => ⟨trivial, fun previous _ => ?_⟩
    apply meets_ite
    · exact fun _ => broadcastChanged_answering (observable_of_keySpec rfl (by decide))
    · exact fun _ => trivial

theorem flushMirrorUpdate_answering (generation : UInt64) :
    Answering message (TestNode.flushMirrorUpdate generation : TestNode.Action ε Unit) := by
  refine ⟨trivial, fun current _ => ?_⟩
  apply meets_ite
  · exact fun _ => trivial
  refine fun _ => ⟨trivial, fun value _ => ⟨trivial, fun previous _ => ?_⟩⟩
  apply meets_ite
  · exact fun _ => broadcastChanged_answering (observable_of_keySpec rfl (by decide))
  · exact fun _ => trivial

def Fits (value : ValueRef) : Prop := value.OnWire ∧ value.bytes.length ≤ 65533

theorem expect_error {kind : Cell.Kind} {value : ValueRef} {code : UInt8}
    (h : kind.expect value = .error code) : code = typeMismatch := by
  cases kind with
  | i64 => cases value <;> cases h <;> rfl
  | str => cases value <;> cases h <;> rfl
  | u64 =>
    cases value with
    | i64 value =>
      have hexpect : (if value < 0 then Except.error TestNode.errTypeMismatch
          else .ok value.toUInt64) = .error code := h
      split_ifs at hexpect
      cases hexpect
      rfl
    | _ =>
      cases h
      rfl

theorem accept_error {cell : Cell} {value : ValueRef} {code : UInt8}
    (h : cell.accept value = .error code) : code = typeMismatch := by
  cases hexpect : cell.kind.expect value with
  | error code' =>
    rw [Cell.accept, hexpect] at h
    cases h
    exact expect_error hexpect
  | ok stored =>
    have hchecked : (if cell.admits stored then Except.ok stored else .error TestNode.errTypeMismatch) =
        .error code := by
      rw [Cell.accept, hexpect] at h
      exact h
    split_ifs at hchecked
    cases hchecked
    rfl

theorem readable_cases : ∀ i : Fin keySpecs.length, (keySpecs.get i).flags.isReadable →
    (∃ cell ∈ [Cell.voltageMa, .gp1String, .gp2U64, .gp3I64, .mirrorOut, .smallStr10, .smallStr0,
      .permU64Rw], cell.keyref = some (UInt16.ofNat i)) ∨
    UInt16.ofNat i = TestNode.keyUptime ∨ UInt16.ofNat i = TestNode.keyPermU64R := by
  decide

theorem writable_cases : ∀ i : Fin keySpecs.length, (keySpecs.get i).flags.isWritable →
    (keySpecs.get i).flags.isReadable ∨
    UInt16.ofNat i = TestNode.keyMirrorIn ∨ UInt16.ofNat i = TestNode.keyPermU64W := by
  decide

theorem getValue_cell {cell : Cell} (h : cell.keyref = some r) :
    TestNode.getValue r = TestNode.read cell := by
  cases cell <;> first | (cases h; rfl) | cases h

theorem read_fits (cell : Cell) : (TestNode.read cell : TestNode.Action UInt8 WireValue).Meets
    (replying message) (fun _ => False) fun value => Fits value.valueRef :=
  ⟨trivial, fun _ hsound => ⟨hsound.onWire, hsound.fits⟩⟩

theorem fits_i64 (value : Int64) : Fits (.i64 value) := ⟨trivial, by simp [ValueRef.bytes]⟩

theorem getValue_fits {spec : KeySpec} (hspec : keySpec r = some spec)
    (hreadable : spec.flags.isReadable) : (TestNode.getValue r).Meets (replying message)
      (fun _ => False) fun value => Fits value.valueRef := by
  obtain ⟨hlt, rfl⟩ := List.getElem?_eq_some_iff.mp hspec
  have hcases := readable_cases ⟨r.toNat, hlt⟩ hreadable
  rw [UInt16.ofNat_toNat] at hcases
  rcases hcases with ⟨cell, -, hcell⟩ | rfl | rfl
  · rw [getValue_cell hcell]
    exact read_fits cell
  · exact ⟨trivial, fun seconds _ => fits_i64 (TestNode.u64ToWire seconds)⟩
  · exact fits_i64 1337

theorem getValue_answering (r : UInt16) : (TestNode.getValue r).Meets (replying message)
    (fun code => testNode.Replies (.get r) (.error code))
    fun value => Fits value.valueRef ∧
      testNode.Replies (.get r) (.value (ownedValue value.valueRef)) := by
  cases hspec : keySpec r with
  | none =>
    have hprogram : TestNode.getValue r = .fail unknownKeyref := by
      simp only [TestNode.getValue, hspec]
      rfl
    have hreply : testNode.Replies (.get r) (.error unknownKeyref) := by
      rw [Profile.Replies, if_pos (unknown_of_keySpec hspec)]
    rw [hprogram]
    exact hreply
  | some spec =>
    obtain ⟨hknown, hflags, -⟩ := known_of_keySpec hspec
    by_cases hreadable : spec.flags.isReadable
    · refine (getValue_fits hspec hreadable).mono (fun _ => False.elim) fun value hfits =>
        ⟨hfits, ?_⟩
      rw [Profile.Replies, if_neg hknown, hflags, if_pos hreadable]
      exact ⟨_, rfl⟩
    · have hprogram : TestNode.getValue r = .fail notAllowed := by
        simp only [TestNode.getValue, hspec]
        exact if_pos (by simpa using hreadable)
      have hreply : testNode.Replies (.get r) (.error notAllowed) := by
        rw [Profile.Replies, if_neg hknown, hflags, if_neg hreadable]
      rw [hprogram]
      exact hreply

def Stores (value : ValueRef) (success : WriteSuccess) : Prop :=
  success.value.valueRef = value ∧ ∀ changed ∈ success.changedKeyref, testNode.Observable changed

theorem stores_check {α : Type} {x : Except UInt8 α}
    (herror : ∀ code, x = .error code → code = typeMismatch)
    {f : α → TestNode.Action UInt8 WriteSuccess} {value : ValueRef}
    (hf : ∀ a, x = .ok a → (f a).Meets (replying message) (· = typeMismatch) (Stores value)) :
    (lift x >>= f).Meets (replying message) (· = typeMismatch) (Stores value) := by
  cases x with
  | ok a => exact hf a rfl
  | error code => exact herror code rfl

theorem replace_stores {cell : Cell} {value : ValueRef} {stored : cell.Value}
    (haccept : cell.accept value = .ok stored) :
    (TestNode.replace r cell stored).Meets (replying message) (· = typeMismatch) (Stores value) := by
  have hwire := TestNode.wire_of_expect (TestNode.expect_of_accept haccept).1
  refine ⟨trivial, fun previous _ => ⟨hwire, fun changed hchanged => ?_⟩⟩
  have hkey : (if (previous != stored) && (keySpec r).any (fun spec => spec.flags.isObservable)
      then some r else none) = some changed := hchanged
  split_ifs at hkey with h
  cases hkey
  have hany := (Bool.and_eq_true_iff.mp h).2
  rw [Option.any_eq_true] at hany
  obtain ⟨spec, hspec, hobservable⟩ := hany
  exact observable_of_keySpec hspec hobservable

theorem writeValue_stores {spec : KeySpec} (hspec : keySpec r = some spec)
    (hwritable : spec.flags.isWritable) (value : ValueRef) :
    (TestNode.writeValue r value).Meets (replying message) (· = typeMismatch) (Stores value) := by
  have hsome := hspec
  obtain ⟨hlt, rfl⟩ := List.getElem?_eq_some_iff.mp hspec
  have hcases := writable_cases ⟨r.toNat, hlt⟩ hwritable
  rw [UInt16.ofNat_toNat] at hcases
  rcases hcases with hreadable | rfl | rfl
  · obtain ⟨cell, hshared, hcell⟩ := TestNode.exists_shared hsome hreadable hwritable
    rw [TestNode.writeValue_shared hshared hcell]
    exact stores_check (fun _ => accept_error) fun stored => replace_stores
  · refine stores_check (x := TestNode.expectStr value) (f := TestNode.writeMirrorIn)
      (fun code => @expect_error .str value code) fun text htext => ?_
    have hwire : (WireValue.str text).valueRef = value := @TestNode.wire_of_expect .str value text htext
    exact ⟨trivial, fun _ _ => ⟨trivial, fun _ _ => ⟨trivial, fun _ _ => ⟨trivial, fun _ _ =>
      ⟨hwire, fun _ h => by cases h⟩⟩⟩⟩⟩
  · refine stores_check (x := TestNode.expectU64 value) (f := TestNode.writePermU64W)
      (fun code => @expect_error .u64 value code) fun stored hstored => ?_
    have hwire := @TestNode.wire_of_expect .u64 value stored hstored
    exact ⟨trivial, fun _ _ => ⟨hwire, fun _ h => by cases h⟩⟩

theorem writeValue_answering (r : UInt16) (value : ValueRef) {v : Client.Value} :
    (TestNode.writeValue r value).Meets (replying message)
      (fun code => testNode.Replies (.write r v) (.error code)) (fun success => Stores value success ∧
        testNode.Replies (.write r v) (.written v)) := by
  cases hspec : keySpec r with
  | none =>
    have hprogram : TestNode.writeValue r value = .fail unknownKeyref := by
      simp only [TestNode.writeValue, hspec]
      rfl
    have hreply : testNode.Replies (.write r v) (.error unknownKeyref) := by
      rw [Profile.Replies, if_pos (unknown_of_keySpec hspec)]
    rw [hprogram]
    exact hreply
  | some spec =>
    obtain ⟨hknown, hflags, -⟩ := known_of_keySpec hspec
    by_cases hwritable : spec.flags.isWritable
    · refine (writeValue_stores hspec hwritable value).mono (fun code hcode => ?_)
        fun success hstores => ⟨hstores, ?_⟩
      · rw [Profile.Replies, if_neg hknown, hflags, if_pos hwritable, hcode]
        exact .inr rfl
      · rw [Profile.Replies, if_neg hknown, hflags, if_pos hwritable]
        exact .inl rfl
    · have hprogram : TestNode.writeValue r value = .fail notAllowed := by
        simp only [TestNode.writeValue, hspec]
        exact if_pos (by simpa using hwritable)
      have hreply : testNode.Replies (.write r v) (.error notAllowed) := by
        rw [Profile.Replies, if_neg hknown, hflags, if_neg hwritable]
      rw [hprogram]
      exact hreply

theorem error_answers {call : Call} {code : UInt8} (hcall : call.message = message)
    (h : testNode.Replies call (.error code)) :
    testNode.Answers message (TestNode.encodeError code) :=
  ⟨⟨error_legal, trivial, by simp [MessageRef.payload, TestNode.encodeError]⟩, call, _, hcall, rfl, h⟩

theorem ordinary_answers {call : Call} {response : OrdinaryResponseRef} (hcall : call.message = message)
    (hwire : (MessageRef.ordinaryResponse response).OnWire)
    (hlength : response.payload.length ≤ 65535)
    (h : testNode.Replies call (Client.ownedOrdinaryMessage response)) :
    testNode.Answers message (.ordinaryResponse response) :=
  ⟨⟨ordinary_legal _, hwire, hlength⟩, call, _, hcall, rfl, h⟩

theorem names_wire : ∀ i : Fin keySpecs.length,
    (keySpecs.get i).name.bytes.contains 0x00 = false ∧ (keySpecs.get i).name.length ≤ 65532 := by decide

theorem name_wire {spec : KeySpec} (h : keySpec r = some spec) :
    WireStr spec.name ∧ spec.name.length ≤ 65532 := by
  obtain ⟨hlt, rfl⟩ := List.getElem?_eq_some_iff.mp h
  have hname : keySpecs[r.toNat].name.bytes.contains 0x00 = false ∧
      keySpecs[r.toNat].name.length ≤ 65532 := names_wire ⟨r.toNat, hlt⟩
  exact ⟨⟨hname.1, by omega⟩, hname.2⟩

theorem getKey_answering (c : ℕ) (r : UInt16) : Answering (.request (.getKey r))
    (TestNode.dispatchRequest c (.getKey r)) := by
  have hcall : (Call.key r).message = .request (.getKey r) := rfl
  simp only [TestNode.dispatchRequest]
  cases hspec : keySpec r with
  | none =>
    refine send_answering (error_answers hcall ?_)
    rw [Profile.Replies, if_pos (unknown_of_keySpec hspec)]
    rfl
  | some spec =>
    obtain ⟨hknown, hflags, hname⟩ := known_of_keySpec hspec
    obtain ⟨hwire, hlength⟩ := name_wire hspec
    refine send_answering (ordinary_answers hcall hwire ?_ ?_)
    · simp only [OrdinaryResponseRef.payload, List.length_cons, length_str16]
      omega
    · rw [Profile.Replies, if_neg hknown, hflags, hname]
      rfl

def Judged {α : Type} (call : Call) (P : α → Prop) : Except UInt8 α → Prop
  | .ok a => P a
  | .error code => testNode.Replies call (.error code)

theorem get_answering (c : ℕ) (r : UInt16) :
    Answering (.request (.get r)) (TestNode.dispatchRequest c (.get r)) := by
  have hcall : (Call.get r).message = .request (.get r) := rfl
  apply meets_bind (R := Judged (.get r) _) (meets_attempt (getValue_answering r))
  intro result hresult
  cases result with
  | error code => exact send_answering (error_answers hcall hresult)
  | ok value =>
    obtain ⟨hfits, hreplies⟩ := hresult
    have hlength : value.valueRef.bytes.length ≤ 65535 := by have := hfits.2; omega
    exact send_answering (ordinary_answers hcall hfits.1 hlength hreplies)

theorem write_answering (c : ℕ) (r : UInt16) {value : ValueRef} (hfits : Fits value) :
    Answering (.request (.write r value)) (TestNode.dispatchRequest c (.write r value)) := by
  have hcall : (Call.write r (ownedValue value)).message = .request (.write r value) := by
    cases value <;> rfl
  apply meets_bind (R := Judged (.write r (ownedValue value)) _)
    (meets_attempt (writeValue_answering r value))
  intro result hresult
  cases result with
  | error code => exact send_answering (error_answers hcall hresult)
  | ok success =>
    obtain ⟨⟨hstored, hchanged⟩, hreplies⟩ := hresult
    have hlength : value.bytes.length ≤ 65535 := by have := hfits.2; omega
    have hanswers : testNode.Answers (.request (.write r value))
        (TestNode.encodeWritten success.value) := by
      rw [TestNode.encodeWritten, hstored]
      exact ordinary_answers hcall hfits.1 hlength hreplies
    refine ⟨.inr hanswers, fun taken _ => ?_⟩
    apply meets_ite
    · exact fun _ => trivial
    · intro _
      cases hkey : success.changedKeyref with
      | none => trivial
      | some changed =>
        exact meets_bind (broadcastChanged_answering (hchanged changed hkey)) fun _ _ => trivial

theorem observe_answering (c : ℕ) (r : UInt16) :
    Answering (.request (.observe r)) (TestNode.dispatchRequest c (.observe r)) := by
  have hcall : (Call.observe r).message = .request (.observe r) := rfl
  simp only [TestNode.dispatchRequest, TestNode.canObserve]
  cases hspec : keySpec r with
  | none =>
    refine send_answering (error_answers hcall ?_)
    rw [Profile.Replies, if_pos (unknown_of_keySpec hspec)]
    rfl
  | some spec =>
    obtain ⟨hknown, hflags, -⟩ := known_of_keySpec hspec
    cases hobservable : spec.flags.isObservable with
    | false =>
      simp only [hobservable]
      refine send_answering (error_answers hcall ?_)
      rw [Profile.Replies, if_neg hknown, hflags, hobservable]
      rfl
    | true =>
      simp only [hobservable]
      refine ⟨.inr (ordinary_answers hcall trivial (by decide) ?_), fun taken _ => ?_⟩
      · rw [Profile.Replies, if_neg hknown, hflags, hobservable]
        rfl
      · apply meets_ite
        · exact fun _ => trivial
        · exact fun _ => ⟨trivial, fun _ _ => trivial⟩

theorem unobserve_answering (c : ℕ) (r : UInt16) :
    Answering (.request (.unobserve r)) (TestNode.dispatchRequest c (.unobserve r)) := by
  have hcall : (Call.unobserve r).message = .request (.unobserve r) := rfl
  simp only [TestNode.dispatchRequest, TestNode.validateKeyref]
  cases hspec : keySpec r with
  | none =>
    refine send_answering (error_answers hcall ?_)
    rw [Profile.Replies, if_pos (unknown_of_keySpec hspec)]
    rfl
  | some spec =>
    refine ⟨trivial, fun _ _ => send_answering (ordinary_answers hcall trivial (by decide) ?_)⟩
    rw [Profile.Replies, if_neg (known_of_keySpec hspec).1]
    rfl

theorem dispatchRequest_answering (c : ℕ) {request : RequestRef}
    (h : (MessageRef.request request).WellFormed .clientToNode) :
    Answering (.request request) (TestNode.dispatchRequest c request) := by
  cases request with
  | ping =>
    have hcall : Call.ping.message = .request .ping := rfl
    exact send_answering (ordinary_answers hcall trivial (by decide) rfl)
  | identify =>
    have hcall : Call.identify.message = .request .identify := rfl
    exact send_answering (ordinary_answers hcall ⟨by decide, by decide⟩ (by decide) rfl)
  | getKeytabLen =>
    have hcall : Call.keyCount.message = .request .getKeytabLen := rfl
    exact send_answering (ordinary_answers hcall trivial (by decide) rfl)
  | getKey r => exact getKey_answering c r
  | get r => exact get_answering c r
  | write r value =>
    have hlength : (be16 r ++ value.bytes).length ≤ 65535 := h.2.2
    refine write_answering c r ⟨h.2.1, ?_⟩
    rw [List.length_append, length_be16] at hlength
    omega
  | observe r => exact observe_answering c r
  | unobserve r => exact unobserve_answering c r

theorem caps_answers : testNode.Answers .compatibilityRequest TestNode.encodeCaps where
  wellFormed := ⟨caps_legal, ⟨⟨by decide, by decide⟩, by decide +kernel⟩, by decide⟩
  replies := ⟨.caps, _, rfl, rfl, rfl⟩

theorem starts_answering {t : TaskId} {task : TestNode.Task} (h : TestNode.Starts t task) :
    Answering (messageOf task.request) task.program := by
  cases h with
  | dispatch c message hread =>
    obtain ⟨frame, hread⟩ := hread
    have hmessage := ((TestNode.readNextMessage_eq_some_iff frame message).mp hread).1
    cases message with
    | request request => exact dispatchRequest_answering c hmessage
    | compatibilityRequest => exact send_answering caps_answers
    | _ => trivial
  | voltage => exact meets_bind updateVoltage_answering fun _ _ => trivial
  | mirror j generation => exact meets_bind (flushMirrorUpdate_answering generation) fun _ _ => trivial

end

/-- The entry announces an observable key, or is the response to the message that its sender
was dispatching. -/
def Justly (e : TestNode.Sent) : Prop :=
  (∃ r, e.frame = TestNode.encodeChanged r ∧ testNode.Observable r) ∨
    testNode.Answers (messageOf e.request) e.frame

structure KeepsTable (s : Node) : Prop where
  queues : ∀ c, ∀ e ∈ s.queue c, Justly e
  tasks : ∀ t task, s.task t = some task → Answering (messageOf task.request) task.program

theorem keepsTable_initial (seed : UInt64) : KeepsTable (Node.initial seed) where
  queues c e he := by simp [Node.initial, Node.queue] at he
  tasks t task h := by cases t <;> simp [Node.initial, Node.task] at h

theorem justly_entry {s : Node} (hfresh : s.Fresh) (hs : KeepsTable s) {t : TaskId}
    {task : TestNode.Task} {c : ℕ} {frame : MessageRef}
    {k : (TestNode.Op.send c frame).Res → TestNode.Action Empty Bool}
    (htask : s.task t = some task) (hprogram : task.program = .act (.send c frame) k) :
    Justly (s.entry t task c frame) := by
  have hanswering := hs.tasks t task htask
  rw [hprogram] at hanswering
  rcases hanswering.1 with hchanged | hanswers
  · exact .inl hchanged
  · by_cases hframe : ∃ r, frame = TestNode.encodeChanged r
    · obtain ⟨r, rfl⟩ := hframe
      obtain ⟨call, m, -, hm, hreplies⟩ := hanswers.replies
      cases hm
      exact absurd rfl (hreplies.ne_changed r)
    · -- a response goes to the connection whose task sends it
      obtain ⟨trace, hfollows, -⟩ := hfresh.tasks t task htask
      rw [hprogram] at hfollows
      have hown := (hfollows.1.2 fun r hr => hframe ⟨r, hr⟩).1
      refine .inr ?_
      have hrequest : (s.entry t task c frame).request = task.request := if_pos hown
      rw [hrequest]
      exact hanswers

theorem keepsTable_step {s s' : Node} {l : Label} (hsound : s.Sound) (hfresh : s.Fresh)
    (hs : KeepsTable s) (h : s.step l = some s') : KeepsTable s' := by
  cases Node.step_moves h with
  | outside hqueue hobserves hlog htask =>
    refine ⟨fun c e he => ?_, fun t task ht => ?_⟩
    · rw [hqueue] at he
      exact hs.queues c e he
    · rcases htask t task ht with hold | hstart
      · exact hs.tasks t task hold
      · exact starts_answering hstart
  | @act t task o k htask hprogram =>
    refine ⟨fun c e he => ?_, fun t' task' ht' => ?_⟩
    · rw [Node.queue_setTask] at he
      rcases TestNode.mem_queue_effect he with hold | ⟨frame, rfl, rfl⟩
      · exact hs.queues c e hold
      · exact justly_entry hfresh hs htask hprogram
    · rcases Node.task_act s htask ht' with ⟨rfl, rfl⟩ | ⟨-, hold | hstart⟩
      · have hanswering := hs.tasks t' task htask
        rw [hprogram] at hanswering
        refine hanswering.2 _ ?_
        cases o with
        | load cell => exact hsound.store cell
        | _ => trivial
      · exact hs.tasks t' task' hold
      · exact starts_answering hstart

/-- What connection `c` is told in a run. -/
structure Serves (c : ℕ) (ls : List Label) (s : Node) : Prop where
  wellFormed : ∀ e ∈ s.queue c, e.frame.WellFormed .nodeToClient
  inOrder : ∃ rest, received c ls = s.answered c ++ rest ∧ rest.length ≤ 1
  responses : ∀ e ∈ s.answers c, testNode.Answers (messageOf e.request) e.frame
  /-- Only an observable key is announced, after the `OK` of an `OBSERVE` of it. -/
  announced : ∀ before e after r, s.queue c = before ++ e :: after →
    e.frame = TestNode.encodeChanged r → testNode.Observable r ∧ TestNode.Observed r before

/-- In every run of the test node, whatever its connections send and however its tasks
interleave, each connection is told what the key table calls for. -/
theorem node_serves {seed : UInt64} {ls : List Label} {s : Node}
    (hrun : Path Node.step (fun _ _ => True) (Node.initial seed) ls s) (c : ℕ) : Serves c ls s := by
  have hkeeps : s.Sound ∧ s.Fresh ∧ KeepsTable s := by
    refine hrun.invariant (fun s => s.Sound ∧ s.Fresh ∧ KeepsTable s)
      ⟨TestNode.nodeSound_initial seed, TestNode.fresh_initial seed, keepsTable_initial seed⟩ ?_
    rintro u l v ⟨hsound, hfresh, hkeeps⟩ - hstep
    exact ⟨TestNode.nodeSound_step hsound hstep, TestNode.fresh_step hfresh hstep,
      keepsTable_step hsound hfresh hkeeps hstep⟩
  have hannouncing : s.Announcing := hrun.invariant Node.Announcing
    (TestNode.announcing_initial seed) fun _ _ _ hu _ hstep => TestNode.announcing_step hu hstep
  obtain ⟨rest, howes, hreceived⟩ := TestNode.responses_in_order hrun c
  have hjustly := hkeeps.2.2.queues c
  refine ⟨fun e he => ?_, ⟨rest, hreceived, howes.bound⟩, fun e he => ?_, ?_⟩
  · rcases hjustly e he with ⟨r, hframe, -⟩ | hanswers
    · rw [hframe]
      exact ⟨changed_legal, trivial, by simp [MessageRef.payload, TestNode.encodeChanged]⟩
    · exact hanswers.wellFormed
  · obtain ⟨he, hresponse⟩ := List.mem_filter.mp he
    rcases hjustly e he with ⟨r, hframe, -⟩ | hanswers
    · rw [hframe] at hresponse
      cases hresponse
    · exact hanswers
  · intro before e after r hsplit hframe
    refine ⟨?_, (hannouncing.queues c).observed hsplit hframe⟩
    have he : e ∈ s.queue c := by
      rw [hsplit]
      exact List.mem_append_right _ List.mem_cons_self
    rcases hjustly e he with ⟨r', hframe', hobservable⟩ | hanswers
    · rw [hframe] at hframe'
      cases hframe'
      exact hobservable
    · obtain ⟨call, m, -, hm, hreplies⟩ := hanswers.replies
      rw [hframe] at hm
      cases hm
      exact absurd rfl (hreplies.ne_changed r)

theorem node_serves_voltage : ∃ s : Node,
    Path Node.step (fun _ _ => True) (Node.initial 0) (TestNode.observing ++ TestNode.updating) s ∧
      s.queue 0 = [⟨TestNode.encodeOk, some (.observe TestNode.keyVoltageMa), none, 0⟩,
        ⟨TestNode.encodeChanged TestNode.keyVoltageMa, none, some 0, 1⟩] ∧
      Serves 0 (TestNode.observing ++ TestNode.updating) s := by
  have hrun : (runLabels Node.step (Node.initial 0)
      (TestNode.observing ++ TestNode.updating)).map (fun s => s.queue 0) =
      some [⟨TestNode.encodeOk, some (.observe TestNode.keyVoltageMa), none, 0⟩,
        ⟨TestNode.encodeChanged TestNode.keyVoltageMa, none, some 0, 1⟩] := by decide +kernel
  obtain ⟨s, hs, hqueue⟩ := Option.map_eq_some_iff.mp hrun
  have hpath := Path.of_runLabels hs
  exact ⟨s, hpath, hqueue, node_serves hpath 0⟩

end Qup.EndToEnd
