import Qup.Embassy.Alignment
import Qup.Embassy.SessionRun
import Qup.Foundation.Contract

/-!
# What fits the frames

A server stops with an internal error when a string or a value does not go into
the frame that has to carry it. `Fits` bounds the node id, the key names and the
values; a server that fits and tasks that set only values that fit keep one
contract about the value cells, and no run of them stops that way.
-/

namespace Qup.Embassy
open Foundation Foundation.Utf8

variable {N : ℕ}

def Internal : Exit → Prop
  | .panic => True
  | .error (.internal _) => True
  | .error .read | .error .write | .error (.protocol _) => False

section
variable (server : Server N) (nodeId : Str)

/-- If a `GET` can read the key, the value passes the check of `try_set` and its
encoding goes into one payload. A `keyref` of 65535 is never below the count. -/
def Fit (i : Fin N) (v : (server.keys i).type.Value) : Prop :=
  (server.keys i).readable = true → (server.keys i).keyref ≠ 65535 →
    QupValue.validate v = .ok () ∧ (wireOf v).bytes.length ≤ 65535

/-- `sets i` are the values that other tasks pass to `try_set` for key `i`. -/
structure Fits (memory : Memory server.keys)
    (sets : (i : Fin N) → (server.keys i).type.Value → Prop) : Prop where
  nodeId_fits : nodeId.length ≤ 65533
  name_fits : ∀ i, (server.keys i).keyref ≠ 65535 → (server.keys i).name.length ≤ 65532
  initial_fit : ∀ i, Fit server i (memory.value i)
  sets_fit : ∀ i v, sets i v → QupValue.validate v = .ok () → Fit server i v

def fitContract : Contract (@Op.Res N server.keys) where
  asks
    | .storeValue i v => Fit server i v
    | _ => True
  gives
    | .loadValue i, v => Fit server i v
    | _, _ => True

abbrev Sound {α : Type} (p : server.Handler α) (R : α → Prop) : Prop :=
  p.Meets (fitContract server) (fun e => ¬ Internal e) R

end

namespace Server
variable {server : Server N} {nodeId : Str}

theorem fitContract_keptBy (server : Server N) (accepted : Bool) :
    (fitContract server).KeptBy (fun o m => o.exec accepted m)
      (fun m : Memory server.keys => ∀ i, Fit server i (m.value i)) := by
  intro o m hm hasks
  cases o with
  | loadValue i => exact ⟨hm i, hm⟩
  | storeValue i v =>
    refine ⟨trivial, fun j => ?_⟩
    change Fit server j (Function.update m.value i v j)
    by_cases hij : j = i
    · subst hij
      rw [Function.update_self]
      exact hasks
    · rw [Function.update_of_ne hij]
      exact hm j
  | _ => exact ⟨trivial, hm⟩

theorem keyref_ne_of_reaches {r : UInt16} {i : Fin N} (hr : ¬ server.keyCount ≤ r)
    (hi : server.findSlot r = some i) : (server.keys i).keyref ≠ 65535 := by
  intro hmax
  rw [findSlot_keyref hi] at hmax
  subst hmax
  refine hr (UInt16.le_iff_toNat_le.mpr ?_)
  have hlt := server.keyCount.toNat_lt
  exact Nat.le_of_lt_succ hlt

theorem writeAll_sound (bytes : List UInt8) (completes : Option Frame) :
    Sound server (server.writeAll bytes completes) fun _ => True := by
  refine ⟨trivial, fun accepted _ => ?_⟩
  cases accepted with
  | false => exact fun h => h
  | true => trivial

theorem writePieces_sound (f : Frame) (pieces : List (List UInt8)) :
    Sound server (server.writePieces f pieces) fun _ => True := by
  induction pieces with
  | nil => trivial
  | cons piece pieces ih =>
    cases pieces with
    | nil => exact writeAll_sound piece (some f)
    | cons next rest => exact Program.meets_bind (writeAll_sound piece none) fun _ _ => ih

theorem sendFrame_sound (opcode : Opcode) {payload : List UInt8} (h : payload.length ≤ 65535) :
    Sound server (server.sendFrame opcode payload) fun _ => True := by
  rw [sendFrame, if_pos h]
  exact writePieces_sound _ _

theorem sendError_sound (code : UInt8) :
    Sound server (server.sendError code) fun _ => True := sendFrame_sound .error (by simp)

theorem sendStr16Response_sound (opcode : Opcode) {value : Str} (h : value.length ≤ 65533) :
    Sound server (server.sendStr16Response opcode value) fun _ => True := by
  have hsegments : [be16 (UInt16.ofNat value.length), value.bytes].flatten.length ≤ 65535 := by
    have hbytes : value.bytes.length = value.length := rfl
    simp only [List.flatten_cons, List.flatten_nil, List.append_nil, List.length_append,
      length_be16, hbytes]
    omega
  have hlen := toNat_ofNat16 (show value.length ≤ 65535 by omega)
  rw [sendStr16Response, if_pos (by omega)]
  simp only [hlen]
  rw [if_pos (by omega), Phase.computeSegmentedChecksum_eq opcode hsegments]
  exact writePieces_sound _ _

theorem sendKeyResponse_sound {key : ErasedKey} (h : key.name.length ≤ 65532) :
    Sound server (server.sendKeyResponse key) fun _ => True := by
  have hsegments : [[key.keyflags], be16 (UInt16.ofNat key.name.length),
      key.name.bytes].flatten.length ≤ 65535 := by
    have hbytes : key.name.bytes.length = key.name.length := rfl
    simp only [List.flatten_cons, List.flatten_nil, List.append_nil, List.length_append,
      length_be16, hbytes, List.length_singleton]
    omega
  have hlen := toNat_ofNat16 (show key.name.length ≤ 65535 by omega)
  rw [sendKeyResponse, if_pos (by omega)]
  simp only [hlen]
  rw [if_pos (by omega), Phase.computeSegmentedChecksum_eq .key hsegments]
  exact writePieces_sound _ _

theorem sendU16_sound (hsized : server.Sized) (opcode : Opcode) (x : UInt16) :
    Sound server (server.sendU16 opcode x) fun _ => True := by
  have hwrite : writeExact server.maxResponse (be16 x) = .ok (be16 x) := by
    rw [writeExact, if_pos]
    rw [length_be16]
    exact hsized.two_le
  rw [sendU16, hwrite]
  exact sendFrame_sound opcode (by rw [length_be16]; omega)

theorem generation_sound (i : Fin N) :
    Sound server (Key.generation i) fun _ => True := ⟨trivial, fun _ _ => trivial⟩

theorem notifyChanged_sound (i : Fin N) :
    Sound server (Key.notifyChanged i) fun _ => True := by
  refine ⟨trivial, fun _ _ => ⟨trivial, fun _ _ => ?_⟩⟩
  split_ifs
  · trivial
  · refine ⟨trivial, fun notifier _ => ?_⟩
    cases notifier with
    | none => trivial
    | some s => exact ⟨trivial, fun _ _ => trivial⟩

def Encoded : Except EncodeFault (List UInt8) → Prop
  | .ok payload => payload.length ≤ 65535
  | .error (.invalid _) => True
  | .error .panic => False

theorem encodeCurrentValue_sound (hsized : server.Sized) {i : Fin N}
    (hreadable : (server.keys i).readable = true) (hi : (server.keys i).keyref ≠ 65535) :
    Sound server (Key.encodeCurrentValue i server.maxResponse) fun r =>
      ∃ payload, r = .ok payload ∧ payload.length ≤ 65535 := by
  refine ⟨trivial, fun v hv => ?_⟩
  obtain ⟨hvalid, hlen⟩ := hv hreadable hi
  exact ⟨_, LawfulQupValue.encode_of_validate hvalid (hsized.maxWireLen_le i), hlen⟩

theorem writeAndEncode_sound (hsized : server.Sized) (i : Fin N) {w : WireValueRef}
    (hw : ∀ v, w = .ofValue v → v.bytes.length ≤ 65533) :
    Sound server (Key.writeAndEncode i w server.maxResponse) Encoded := by
  unfold Key.writeAndEncode
  cases hdecode : (QupValue.decode w : Except WireValueError (server.keys i).type.Value) with
  | error e => trivial
  | ok v =>
    have hlen : (wireOf v).bytes.length ≤ 65533 := hw _ (LawfulQupValue.decode_ok hdecode)
    simp only
    cases hvalid : QupValue.validate v with
    | error e => trivial
    | ok u =>
      refine ⟨fun _ _ => ⟨hvalid, by omega⟩, fun _ _ => ?_⟩
      refine Program.meets_bind (notifyChanged_sound i) fun _ _ => ?_
      change Encoded (QupValue.encode v server.maxResponse)
      rw [LawfulQupValue.encode_of_validate hvalid (hsized.maxWireLen_le i)]
      exact Nat.le_trans hlen (by omega)

theorem caps_length_le (server : Server N) : server.caps.length ≤ 65533 := by
  unfold caps
  split_ifs <;> decide

theorem handleRequest_sound (hsized : server.Sized) (hid : nodeId.length ≤ 65533)
    (hname : ∀ i, (server.keys i).keyref ≠ 65535 → (server.keys i).name.length ≤ 65532)
    {request : IncomingRequest}
    (hrequest : ∀ r v, request = .write r (.ofValue v) → v.bytes.length ≤ 65533) (l : Locals N) :
    Sound server (server.handleRequest nodeId request l) fun _ => True := by
  have hret : ∀ {p : server.Handler Unit} (l : Locals N), Sound server p (fun _ => True) →
      Sound server (p >>= fun _ => pure l) fun _ => True :=
    fun l hp => Program.meets_bind hp fun _ _ => trivial
  have hok : ∀ l : Locals N,
      Sound server (server.sendFrame .ok [] >>= fun _ => pure l) fun _ => True :=
    fun l => hret l (sendFrame_sound .ok (by simp))
  have herror : ∀ code,
      Sound server (server.sendError code >>= fun _ => pure l) fun _ => True :=
    fun code => hret l (sendError_sound code)
  cases request with
  | ping => exact hok l
  | identify => exact hret l (sendStr16Response_sound _ hid)
  | getCaps => exact hret l (sendStr16Response_sound _ server.caps_length_le)
  | getKeytabLen => exact hret l (sendU16_sound hsized _ _)
  | getKey r =>
    simp only [handleRequest]
    split_ifs with hr
    · exact herror _
    · cases hi : server.findSlot r with
      | none => exact hret l (sendFrame_sound _ (by simp))
      | some i => exact hret l (sendKeyResponse_sound (hname i (keyref_ne_of_reaches hr hi)))
  | get r =>
    simp only [handleRequest]
    split_ifs with hr
    · exact herror _
    · cases hi : server.findSlot r with
      | none => exact herror _
      | some i =>
        simp only
        split_ifs with hread
        · exact herror _
        · refine Program.meets_bind (encodeCurrentValue_sound hsized (by simpa using hread)
            (keyref_ne_of_reaches hr hi)) ?_
          rintro _ ⟨payload, rfl, hlen⟩
          exact hret l (sendFrame_sound _ hlen)
  | write r w =>
    simp only [handleRequest]
    split_ifs with hr
    · exact herror _
    · cases server.findSlot r with
      | none => exact herror _
      | some i =>
        simp only
        split_ifs
        · exact herror _
        · refine Program.meets_bind (writeAndEncode_sound hsized i fun v hv =>
            hrequest r v (by rw [hv])) fun result hresult => ?_
          rcases result with (e | _) | payload
          · exact herror _
          · exact hresult.elim
          · exact hret l (sendFrame_sound _ hresult)
  | observe r =>
    simp only [handleRequest]
    split_ifs with hr
    · exact herror _
    · cases server.findSlot r with
      | none => exact herror _
      | some i =>
        simp only
        split_ifs
        · exact herror _
        · exact Program.meets_bind (generation_sound i) fun g _ => hok _
  | unobserve r =>
    simp only [handleRequest]
    split_ifs with hr
    · exact herror _
    · cases server.findSlot r with
      | none => exact hok l
      | some i => exact Program.meets_bind (generation_sound i) fun g _ => hok _

theorem flushFrom_sound (hsized : server.Sized) (rest : List (Fin N)) (l : Locals N) :
    Sound server (server.flushFrom rest l) fun _ => True := by
  induction rest generalizing l with
  | nil => trivial
  | cons i rest ih =>
    rw [flushFrom]
    split_ifs
    · exact ih l
    · refine ⟨trivial, fun g _ => ?_⟩
      simp only
      split_ifs
      · exact ih l
      · exact Program.meets_bind (sendU16_sound hsized _ _) fun _ _ => ih _

theorem flushNotifications_sound (hsized : server.Sized) (l : Locals N) :
    Sound server (server.flushNotifications l) fun _ => True := by
  unfold flushNotifications
  split_ifs
  · trivial
  · exact flushFrom_sound hsized _ l

theorem attachNotifiers_sound (rest : List (Fin N)) :
    Sound server (server.attachNotifiers rest) fun _ => True := by
  induction rest with
  | nil => trivial
  | cons i rest ih =>
    have hattach : Sound server (Key.attachNotifier i server.notifier) fun _ => True := by
      unfold Key.attachNotifier
      split_ifs
      · exact ⟨trivial, fun _ _ => trivial⟩
      · trivial
    exact Program.meets_bind hattach fun _ _ => ih

theorem uniqueKeyrefs_of_injective
    (h : Function.Injective fun i => (server.keys i).keyref) {rest : List (Fin N)}
    (hrest : rest.Nodup) : server.uniqueKeyrefs rest = true := by
  induction rest with
  | nil => rfl
  | cons i rest ih =>
    obtain ⟨hi, hrest⟩ := List.nodup_cons.mp hrest
    rw [uniqueKeyrefs, ih hrest, Bool.and_true, List.all_eq_true]
    intro j hj
    rw [bne_iff_ne]
    intro hij
    exact hi (h hij ▸ hj)

theorem startup_sound (hdistinct : Function.Injective fun i => (server.keys i).keyref)
    (hid : validateWireString nodeId = .ok ()) :
    Sound server (server.startup nodeId) fun _ => True := by
  rw [startup, hid]
  refine Program.meets_bind (attachNotifiers_sound _) fun _ _ => ?_
  rw [if_pos (uniqueKeyrefs_of_injective hdistinct (List.nodup_finRange N))]
  trivial

end Server

section
variable {server : Server N} {nodeId : Str}

structure Healthy (s : Connection server) : Prop where
  values_fit : ∀ i, Fit server i (s.memory.value i)
  updates_sound : ∀ u ∈ s.updates, u.Meets (fitContract server) (fun _ => True) fun _ => True
  ctrl_sound : match s.ctrl with
    | .reading _ reader _ | .waiting _ reader _ | .parked _ reader _ =>
      ∃ pend, Reader.Resumes (readRequest server.maxStr) pend reader s.inbox
    | .running _ task => Sound server task fun _ => True
    | .stopped exit => ¬ Internal exit

def Label.Sets {keys : Fin N → ErasedKey} (sets : (i : Fin N) → (keys i).type.Value → Prop) :
    Label keys → Prop
  | .spawn i v => sets i v
  | _ => True

theorem healthy_select {s : Connection server} (h : Healthy s) (l : Locals N) :
    Healthy (s.select l) :=
  ⟨h.values_fit, h.updates_sound, s.inbox, Reader.Resumes.start _ _⟩

theorem healthy_beginFlush (hsized : server.Sized) {s : Connection server}
    (hvalues : ∀ i, Fit server i (s.memory.value i))
    (hupdates : ∀ u ∈ s.updates, u.Meets (fitContract server) (fun _ => True) fun _ => True)
    (l : Locals N) : Healthy (s.beginFlush (programs server nodeId) l) :=
  ⟨hvalues, hupdates, Server.flushNotifications_sound hsized l⟩

theorem trySet_meets {i : Fin N} {v : (server.keys i).type.Value}
    (hv : QupValue.validate v = .ok () → Fit server i v) :
    (Key.trySet i v : Action server.keys (Except WireValueError Bool)).Meets (fitContract server)
      (fun _ => True) fun _ => True := by
  unfold Key.trySet
  cases hvalid : QupValue.validate v with
  | error e => trivial
  | ok u =>
    refine ⟨hv hvalid, fun _ _ => ⟨trivial, fun _ _ => ⟨trivial, fun _ _ => ?_⟩⟩⟩
    change ((if _ then _ else _) >>= _ : Action server.keys (Except WireValueError Bool)).Meets
      (fitContract server) _ _
    split_ifs
    · trivial
    · refine ⟨trivial, fun notifier _ => ?_⟩
      cases notifier with
      | none => trivial
      | some s => exact ⟨trivial, fun _ _ => trivial⟩

theorem Healthy.step {memory : Memory server.keys}
    {sets : (i : Fin N) → (server.keys i).type.Value → Prop} (hsized : server.Sized)
    (hfits : Fits server nodeId memory sets) {s s' : Connection server} {l : Label server.keys}
    (h : Healthy s) (hl : l.Sets sets) (hstep : s.step (programs server nodeId) l = some s') :
    Healthy s' := by
  obtain ⟨hvalues, hupdates, hctrl'⟩ := h
  cases Sys.step_cases hstep with
  | arrive bytes =>
    refine ⟨hvalues, hupdates, ?_⟩
    rcases hctrl : s.ctrl with _ | _ | _ | _ | _ <;> simp only [hctrl] at hctrl' ⊢
    · exact hctrl'.imp' (· ++ bytes) fun pend h => h.append bytes
    · exact hctrl'.imp' (· ++ bytes) fun pend h => h.append bytes
    · exact hctrl'.imp' (· ++ bytes) fun pend h => h.append bytes
    · exact hctrl'
    · exact hctrl'
  | read l n k reads hctrl hn =>
    simp only [hctrl] at hctrl'
    exact ⟨hvalues, hupdates, hctrl'.imp fun pend h => h.read hn⟩
  | pend l n k reads hctrl =>
    simp only [hctrl] at hctrl'
    exact ⟨hvalues, hupdates, hctrl'⟩
  | suspend l n k reads hctrl =>
    simp only [hctrl] at hctrl'
    exact ⟨hvalues, hupdates, hctrl'⟩
  | readFail => exact ⟨hvalues, hupdates, fun h => h⟩
  | serve l q reads hctrl =>
    simp only [hctrl] at hctrl'
    obtain ⟨pend, hpend⟩ := hctrl'
    have hread : Reader.run (readRequest server.maxStr) pend = .done q s.inbox := by
      simpa using (hpend []).symm
    refine ⟨hvalues, hupdates, Server.handleRequest_sound hsized hfits.nodeId_fits
      hfits.name_fits (fun r v hq => ?_) l⟩
    rw [hq] at hread
    exact run_readRequest_write hread
  | reject l e reads hctrl =>
    simp only [hctrl] at hctrl'
    obtain ⟨pend, hpend⟩ := hctrl'
    have hread : Reader.run (readRequest server.maxStr) pend = .failed e s.inbox := by
      simpa using (hpend []).symm
    refine ⟨hvalues, hupdates, ?_⟩
    rcases @readRequest_vs_core server.maxStr pend with ⟨q, m, rest, hdone, -⟩ | ⟨-, -, hfailed⟩
    · rw [hdone] at hread
      cases hread
    · obtain ⟨e', rfl⟩ := hfailed _ _ hread
      exact fun h => h
  | wake l => exact ⟨hvalues, hupdates, Server.flushNotifications_sound hsized l⟩
  | park l reader reads hctrl =>
    simp only [hctrl] at hctrl'
    exact ⟨hvalues, hupdates, hctrl'⟩
  | repoll l reader reads hctrl =>
    simp only [hctrl] at hctrl'
    exact ⟨hvalues, hupdates, hctrl'⟩
  | act accepted activity task o k hctrl hview =>
    obtain rfl := Program.eq_act_of_view hview
    simp only [hctrl] at hctrl'
    have hnext := hctrl'.exec (server.fitContract_keptBy accepted) hvalues
    exact ⟨hnext.2, hupdates, hnext.1⟩
  | finish activity task l hctrl =>
    have hs : Healthy s := ⟨hvalues, hupdates, hctrl'⟩
    cases activity with
    | starting => exact healthy_select hs l
    | handling q =>
      simp only [Sys.next]
      split_ifs
      · exact healthy_beginFlush hsized hvalues hupdates l
      · exact healthy_select hs l
    | flushing => exact ⟨hvalues, hupdates, s.inbox, Reader.Resumes.start _ _⟩
  | exit activity task e hctrl hview =>
    obtain rfl := Program.eq_fail_of_view hview
    simp only [hctrl] at hctrl'
    exact ⟨hvalues, hupdates, hctrl'⟩
  | spawn i v =>
    refine ⟨hvalues, fun u hu => ?_, hctrl'⟩
    rcases List.mem_append.mp hu with hu | hu
    · exact hupdates u hu
    · obtain rfl := List.mem_singleton.mp hu
      exact trySet_meets (hfits.sets_fit i v hl)
  | update j u o k hj hview =>
    obtain rfl := Program.eq_act_of_view hview
    have hnext := (hupdates _ (List.mem_of_getElem? hj)).exec
      (server.fitContract_keptBy true) hvalues
    refine ⟨hnext.2, fun u hu => ?_, hctrl'⟩
    rcases List.mem_or_eq_of_mem_set hu with hu | rfl
    · exact hupdates u hu
    · exact hnext.1

/-- A server that fits never stops for a reason of its own. -/
theorem Fits.not_internal (hproper : server.Proper)
    (hid : Server.validateWireString nodeId = .ok ()) {memory : Memory server.keys}
    {sets : (i : Fin N) → (server.keys i).type.Value → Prop}
    (hfits : Fits server nodeId memory sets) {labels : List (Label server.keys)}
    {s : Connection server} (hrun : Path (Sys.step (programs server nodeId))
      (fun _ l => l.Sets sets) (Sys.initial (programs server nodeId) memory) labels s) :
    ∀ e, s.ctrl = .stopped e → ¬ Internal e := by
  have hinit : Healthy (Sys.initial (programs server nodeId) memory) :=
    ⟨hfits.initial_fit, fun u hu => absurd hu List.not_mem_nil,
      Program.meets_bind (Server.startup_sound hproper.distinct hid) fun _ _ => trivial⟩
  have h := hrun.invariant Healthy hinit fun _ _ _ hs hl hstep =>
    hs.step hproper.sized hfits hl hstep
  intro e he
  have hctrl := h.ctrl_sound
  rw [he] at hctrl
  exact hctrl

end
end Qup.Embassy
