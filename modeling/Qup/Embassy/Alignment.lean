import Qup.Embassy.Run

/-!
# Frame alignment

The requests that `run` serves, against the byte stream it is given. The
notifier's branch of the `select` drops the pending `read_request` together
with what its completed reads have taken from the transport. As long as this
happens only before the first read of a frame has completed, the server keeps
its place in the stream.
-/

namespace Qup.Embassy
open Foundation Foundation.Utf8

variable {N : ℕ}

def arrivals {keys : Fin N → ErasedKey} : List (Label keys) → List UInt8
  | [] => []
  | .arrive bytes :: labels => bytes ++ arrivals labels
  | _ :: labels => arrivals labels

def Ctrl.midFrame {P : Type} : Ctrl N P → Bool
  | .reading _ _ reads | .waiting _ _ reads | .parked _ _ reads => reads != 0
  | _ => false

/-- The notifier wakes the server only while the pending `read_request` has not
completed any of its reads. -/
def WakesBetweenFrames {keys : Fin N → ErasedKey} {P U : Type} (s : Sys keys P U) :
    Label keys → Prop
  | .wake => s.ctrl.midFrame = false
  | _ => True

instance {keys : Fin N → ErasedKey} {P U : Type} (s : Sys keys P U) (l : Label keys) :
    Decidable (WakesBetweenFrames s l) :=
  match l with
  | .wake => inferInstanceAs (Decidable (s.ctrl.midFrame = false))
  | .arrive _ | .read | .pend | .readFail | .serve | .park | .repoll | .act _ | .finish
  | .spawn _ _ | .update _ => .isTrue trivial

def LocalExit : Exit → Prop
  | .error (.protocol _) => False
  | _ => True

namespace Server
variable (server : Server N)

theorem writeAll_local (bytes : List UInt8) (completes : Option Frame) :
    (server.writeAll bytes completes).FailsIn LocalExit := by
  intro accepted
  cases accepted <;> trivial

theorem writePieces_local (f : Frame) (pieces : List (List UInt8)) :
    (server.writePieces f pieces).FailsIn LocalExit := by
  induction pieces with
  | nil => trivial
  | cons piece pieces ih =>
    cases pieces with
    | nil => exact server.writeAll_local piece (some f)
    | cons next rest => exact Program.failsIn_bind (server.writeAll_local piece none) fun _ => ih

theorem sendFrame_local (opcode : Opcode) (payload : List UInt8) :
    (server.sendFrame opcode payload).FailsIn LocalExit := by
  unfold sendFrame
  split_ifs
  · exact server.writePieces_local _ _
  · trivial

theorem lift_segmented_local (opcode : Opcode) (segments : List (List UInt8)) :
    (Program.lift (computeSegmentedChecksum opcode segments) : server.Handler UInt8).FailsIn
      LocalExit := by
  unfold computeSegmentedChecksum
  simp only
  split_ifs <;> trivial

theorem sendStr16Response_local (opcode : Opcode) (value : Str) :
    (server.sendStr16Response opcode value).FailsIn LocalExit := by
  unfold sendStr16Response
  simp only
  split_ifs
  · exact Program.failsIn_bind (server.lift_segmented_local _ _)
      fun _ => server.writePieces_local _ _
  · trivial
  · trivial

theorem sendKeyResponse_local (key : ErasedKey) :
    (server.sendKeyResponse key).FailsIn LocalExit := by
  unfold sendKeyResponse
  simp only
  split_ifs
  · exact Program.failsIn_bind (server.lift_segmented_local _ _)
      fun _ => server.writePieces_local _ _
  · trivial
  · trivial

theorem sendU16_local (opcode : Opcode) (x : UInt16) :
    (server.sendU16 opcode x).FailsIn LocalExit := by
  unfold sendU16
  cases writeExact server.maxResponse (be16 x) with
  | ok payload => exact server.sendFrame_local opcode payload
  | error e => trivial

theorem notifyChanged_local (i : Fin N) :
    (Key.notifyChanged i : server.Handler Unit).FailsIn LocalExit := by
  intro _ _
  split_ifs
  · trivial
  · intro notifier
    cases notifier with
    | none => trivial
    | some s => exact fun _ => trivial

theorem writeAndEncode_local (i : Fin N) (value : WireValueRef) (capacity : ℕ) :
    (Key.writeAndEncode i value capacity : server.Handler _).FailsIn LocalExit := by
  unfold Key.writeAndEncode
  cases (QupValue.decode value : Except WireValueError (server.keys i).type.Value) with
  | error e => trivial
  | ok v =>
    simp only
    cases QupValue.validate v with
    | error e => trivial
    | ok u => exact fun _ => Program.failsIn_bind (server.notifyChanged_local i) fun _ => trivial

theorem handleRequest_local (nodeId : Str) (request : IncomingRequest) (l : Locals N) :
    (server.handleRequest nodeId request l).FailsIn LocalExit := by
  have hsend := fun opcode payload => server.sendFrame_local opcode payload
  have herror : ∀ code, (server.sendError code).FailsIn LocalExit := fun code => hsend _ _
  have then_pure : ∀ {p : server.Handler Unit}, p.FailsIn LocalExit →
      (p >>= fun _ => (pure l : server.Handler (Locals N))).FailsIn LocalExit :=
    fun hp => Program.failsIn_bind hp fun _ => trivial
  cases request with
  | ping => exact then_pure (hsend _ _)
  | identify => exact then_pure (server.sendStr16Response_local _ _)
  | getCaps => exact then_pure (server.sendStr16Response_local _ _)
  | getKeytabLen => exact then_pure (server.sendU16_local _ _)
  | getKey keyref =>
    simp only [handleRequest]
    split_ifs
    · exact then_pure (herror _)
    · cases server.findSlot keyref with
      | some i => exact then_pure (server.sendKeyResponse_local _)
      | none => exact then_pure (hsend _ _)
  | get keyref =>
    simp only [handleRequest]
    split_ifs
    · exact then_pure (herror _)
    · cases server.findSlot keyref with
      | none => exact then_pure (herror _)
      | some i =>
        simp only
        split_ifs
        · exact then_pure (herror _)
        · refine Program.failsIn_bind (fun _ => trivial) fun encoded => ?_
          rcases encoded with (e | _) | payload
          · trivial
          · trivial
          · exact then_pure (hsend _ _)
  | write keyref value =>
    simp only [handleRequest]
    split_ifs
    · exact then_pure (herror _)
    · cases server.findSlot keyref with
      | none => exact then_pure (herror _)
      | some i =>
        simp only
        split_ifs
        · exact then_pure (herror _)
        · refine Program.failsIn_bind (server.writeAndEncode_local _ _ _) fun encoded => ?_
          rcases encoded with (e | _) | payload
          · exact then_pure (herror _)
          · trivial
          · exact then_pure (hsend _ _)
  | observe keyref =>
    simp only [handleRequest]
    split_ifs
    · exact then_pure (herror _)
    · cases server.findSlot keyref with
      | none => exact then_pure (herror _)
      | some i =>
        simp only
        split_ifs
        · exact then_pure (herror _)
        · exact Program.failsIn_bind (fun _ => trivial) fun _ =>
          Program.failsIn_bind (hsend _ _) fun _ => trivial
  | unobserve keyref =>
    simp only [handleRequest]
    split_ifs
    · exact then_pure (herror _)
    · cases server.findSlot keyref with
      | none => exact then_pure (hsend _ _)
      | some i => exact Program.failsIn_bind (fun _ => trivial) fun _ =>
          Program.failsIn_bind (hsend _ _) fun _ => trivial

theorem flushFrom_local (rest : List (Fin N)) (l : Locals N) :
    (server.flushFrom rest l).FailsIn LocalExit := by
  induction rest generalizing l with
  | nil => trivial
  | cons i rest ih =>
    rw [flushFrom]
    split_ifs
    · exact ih l
    · intro g
      simp only
      split_ifs
      · exact ih l
      · exact Program.failsIn_bind (server.sendU16_local _ _) fun _ => ih _

theorem flushNotifications_local (l : Locals N) :
    (server.flushNotifications l).FailsIn LocalExit := by
  unfold flushNotifications
  split_ifs
  · trivial
  · exact server.flushFrom_local _ l

theorem attachNotifiers_local (rest : List (Fin N)) :
    (server.attachNotifiers rest).FailsIn LocalExit := by
  induction rest with
  | nil => trivial
  | cons i rest ih =>
    refine Program.failsIn_bind ?_ fun _ => ih
    unfold Key.attachNotifier
    split_ifs
    · exact fun _ => trivial
    · trivial

theorem startup_local (nodeId : Str) : (server.startup nodeId).FailsIn LocalExit := by
  unfold startup
  cases validateWireString nodeId with
  | error message => trivial
  | ok u =>
    refine Program.failsIn_bind (server.attachNotifiers_local _) fun _ => ?_
    split_ifs <;> trivial

end Server

section
variable {server : Server N} {nodeId : Str}

@[simp] theorem arrivals_append {keys : Fin N → ErasedKey} (ls ls' : List (Label keys)) :
    arrivals (ls ++ ls') = arrivals ls ++ arrivals ls' := by
  induction ls with
  | nil => rfl
  | cons l ls ih => cases l <;> simp [arrivals, ih]

theorem run_readRequest_frame (maxStr : ℕ) {m : MessageRef} (hm : m.WellFormed .clientToNode) :
    ∃ q, incoming maxStr m = some q ∧ ∀ t,
      Reader.run (readRequest maxStr) (m.frame ++ t) = .done q t := by
  obtain ⟨hlegal, hwire, hlen⟩ := hm
  obtain ⟨r, hr, hrun⟩ := @run_readRequest_rawFrame maxStr _ hlegal _ hlen
    (computeChecksum m.opcode m.payload)
  rw [MessageRef.decode_payload hwire] at hr
  cases r with
  | error e => exact absurd rfl (hr m)
  | ok q =>
    obtain ⟨m', hm', hq⟩ := hr
    cases hm'
    refine ⟨q, hq, fun t => ?_⟩
    rw [MessageRef.frame, frameBytes, hrun, settle]
    exact if_pos (frameSum_frameBytes m.opcode m.payload)

/-- `pend` is what was delivered after the last served frame: the reader has
taken its first part and the inbox holds the rest. -/
def InPlace (s : Connection server) (pend : List UInt8) : Prop :=
  match s.ctrl with
  | .reading _ reader reads | .waiting _ reader reads | .parked _ reader reads =>
    Reader.Resumes (readRequest server.maxStr) pend reader s.inbox ∧
      (reads = 0 → reader = readRequest server.maxStr ∧ s.inbox = pend) ∧
        (reads ≠ 0 → s.inbox.length < pend.length)
  | .running _ task => s.inbox = pend ∧ task.FailsIn LocalExit
  | .stopped exit => LocalExit exit

theorem InPlace.resumes {s : Connection server} {pend : List UInt8} (h : InPlace s pend)
    {l : Locals N} {reader : RequestReader IncomingRequest} {reads : ℕ}
    (hctrl : s.ctrl = .reading l reader reads) :
    Reader.Resumes (readRequest server.maxStr) pend reader s.inbox := by
  simp only [InPlace, hctrl] at h
  exact h.1

def Placed (messages : List MessageRef) (delivered : List UInt8) (s : Connection server) : Prop :=
  ∃ done rest pend, messages = done ++ rest ∧
    (servedRequests s.log).map some = done.map (incoming server.maxStr) ∧
      delivered = streamOf done ++ pend ∧ InPlace s pend

theorem Placed.of_inPlace {messages : List MessageRef} {delivered : List UInt8}
    {s s' : Connection server} (h : Placed messages delivered s)
    (hserved : servedRequests s'.log = servedRequests s.log)
    (hplace : ∀ pend, InPlace s pend → InPlace s' pend) : Placed messages delivered s' := by
  obtain ⟨done, rest, pend, hm, hlog, hd, hp⟩ := h
  exact ⟨done, rest, pend, hm, by rw [hserved, hlog], hd, hplace pend hp⟩

theorem inPlace_select {s : Connection server} {pend : List UInt8} (l : Locals N)
    (h : s.inbox = pend) : InPlace (s.select l) pend := by
  subst h
  exact ⟨Reader.Resumes.start _ _, fun _ => ⟨rfl, rfl⟩, fun h => absurd rfl h⟩

theorem inPlace_beginFlush {s : Connection server} {pend : List UInt8} (l : Locals N)
    (h : s.inbox = pend) : InPlace (s.beginFlush (programs server nodeId) l) pend :=
  ⟨h, server.flushNotifications_local l⟩

theorem frames_read {messages rest : List MessageRef} (hm : rest ⊆ messages)
    (hwf : ∀ m ∈ messages, m.WellFormed .clientToNode) :
    ∀ m ∈ rest, ∃ q, ∀ t, Reader.run (readRequest server.maxStr) (m.frame ++ t) = .done q t := by
  intro m hmem
  obtain ⟨q, -, hq⟩ := run_readRequest_frame server.maxStr (hwf m (hm hmem))
  exact ⟨q, hq⟩

theorem Placed.step {messages : List MessageRef} (hwf : ∀ m ∈ messages, m.WellFormed .clientToNode)
    {delivered : List UInt8} {s s' : Connection server} {l : Label server.keys}
    (h : Placed messages delivered s)
    (hpre : delivered ++ arrivals [l] <+: streamOf messages) (hwake : WakesBetweenFrames s l)
    (hstep : s.step (programs server nodeId) l = some s') :
    Placed messages (delivered ++ arrivals [l]) s' := by
  cases Sys.step_cases hstep with
  | arrive bytes =>
    obtain ⟨done, rest, pend, hm, hlog, rfl, hp⟩ := h
    refine ⟨done, rest, pend ++ bytes, hm, hlog, by simp [arrivals], ?_⟩
    unfold InPlace at hp ⊢
    rcases hctrl : s.ctrl with ⟨_, r, n⟩ | ⟨_, r, n⟩ | ⟨_, r, n⟩ | ⟨_, p⟩ | e <;>
      simp only [hctrl, List.length_append] at hp ⊢
    · exact ⟨hp.1.append bytes, fun hn => ⟨(hp.2.1 hn).1, by rw [(hp.2.1 hn).2]⟩,
        fun hn => Nat.add_lt_add_right (hp.2.2 hn) _⟩
    · exact ⟨hp.1.append bytes, fun hn => ⟨(hp.2.1 hn).1, by rw [(hp.2.1 hn).2]⟩,
        fun hn => Nat.add_lt_add_right (hp.2.2 hn) _⟩
    · exact ⟨hp.1.append bytes, fun hn => ⟨(hp.2.1 hn).1, by rw [(hp.2.1 hn).2]⟩,
        fun hn => Nat.add_lt_add_right (hp.2.2 hn) _⟩
    · exact ⟨by rw [hp.1], hp.2⟩
    · exact hp
  | read l n k reads hctrl hn =>
    simp only [arrivals, List.append_nil]
    refine h.of_inPlace rfl fun pend hp => ?_
    simp only [InPlace, hctrl] at hp ⊢
    refine ⟨hp.1.read hn, fun h0 => by omega, fun _ => ?_⟩
    rw [List.length_drop]
    by_cases h0 : reads = 0
    · obtain ⟨hreader, hinbox⟩ := hp.2.1 h0
      have hn3 : n = 3 := Program.act.inj hreader |>.1
      rw [hinbox] at hn ⊢
      omega
    · have hlt := hp.2.2 h0
      omega
  | pend l n k reads hctrl =>
    simp only [arrivals, List.append_nil]
    refine h.of_inPlace rfl fun pend hp => ?_
    simpa only [InPlace, hctrl] using hp
  | suspend l n k reads hctrl =>
    simp only [arrivals, List.append_nil]
    refine h.of_inPlace rfl fun pend hp => ?_
    simpa only [InPlace, hctrl] using hp
  | readFail =>
    simp only [arrivals, List.append_nil]
    exact h.of_inPlace rfl fun pend hp => trivial
  | serve l q reads hctrl =>
    simp only [arrivals, List.append_nil] at hpre ⊢
    obtain ⟨done, rest, pend, rfl, hlog, rfl, hp⟩ := h
    rw [streamOf_append, List.prefix_append_right_inj] at hpre
    obtain ⟨m, rest', rfl, hread, rfl⟩ :=
      ((hp.resumes hctrl).stopped (Reader.run_act_of_lt _ (by simp)) MessageRef.frame
        (frames_read (List.subset_append_right done rest) hwf) hpre).2 q rfl
    obtain ⟨q', hq', hread'⟩ := run_readRequest_frame server.maxStr (hwf m (by simp))
    obtain rfl : q = q' := by
      have h := (hread []).symm.trans (hread' [])
      injection h
    refine ⟨done ++ [m], rest', s.inbox, by simp, ?_, by simp, rfl,
      server.handleRequest_local nodeId q l⟩
    simp [servedRequests, hlog, hq']
  | reject l e reads hctrl =>
    simp only [arrivals, List.append_nil] at hpre
    obtain ⟨done, rest, pend, rfl, hlog, rfl, hp⟩ := h
    rw [streamOf_append, List.prefix_append_right_inj] at hpre
    exact absurd rfl (((hp.resumes hctrl).stopped (Reader.run_act_of_lt _ (by simp))
      MessageRef.frame (frames_read (List.subset_append_right done rest) hwf) hpre).1 e)
  | wake l reader reads hctrl =>
    simp only [arrivals, List.append_nil]
    refine h.of_inPlace rfl fun pend hp => inPlace_beginFlush l ?_
    simp only [InPlace, hctrl] at hp
    simp only [WakesBetweenFrames, hctrl, Ctrl.midFrame, bne_eq_false_iff_eq] at hwake
    exact (hp.2.1 hwake).2
  | park l reader reads hctrl =>
    simp only [arrivals, List.append_nil]
    refine h.of_inPlace rfl fun pend hp => ?_
    simpa only [InPlace, hctrl] using hp
  | repoll l reader reads hctrl =>
    simp only [arrivals, List.append_nil]
    refine h.of_inPlace rfl fun pend hp => ?_
    simpa only [InPlace, hctrl] using hp
  | act accepted activity task o k hctrl hview =>
    simp only [arrivals, List.append_nil]
    obtain rfl := Program.eq_act_of_view hview
    refine h.of_inPlace (servedRequests_observe _ _ _ _) fun pend hp => ?_
    simp only [InPlace, hctrl] at hp ⊢
    exact ⟨hp.1, hp.2 _⟩
  | finish activity task l hctrl =>
    simp only [arrivals, List.append_nil]
    have hinbox : ∀ pend, InPlace s pend → s.inbox = pend := by
      intro pend hp
      simp only [InPlace, hctrl] at hp
      exact hp.1
    cases activity with
    | starting => exact h.of_inPlace rfl fun pend hp => inPlace_select l (hinbox pend hp)
    | handling q =>
      simp only [Sys.next]
      split_ifs
      · exact h.of_inPlace rfl fun pend hp =>
          @inPlace_beginFlush N server nodeId s pend l (hinbox pend hp)
      · exact h.of_inPlace rfl fun pend hp => inPlace_select l (hinbox pend hp)
    | flushing => exact h.of_inPlace rfl fun pend hp => inPlace_select l (hinbox pend hp)
  | exit activity task e hctrl hview =>
    simp only [arrivals, List.append_nil]
    obtain rfl := Program.eq_fail_of_view hview
    refine h.of_inPlace rfl fun pend hp => ?_
    simp only [InPlace, hctrl] at hp
    exact hp.2
  | spawn i value =>
    simp only [arrivals, List.append_nil]
    exact h.of_inPlace rfl fun pend hp => hp
  | update j u o k =>
    simp only [arrivals, List.append_nil]
    exact h.of_inPlace (servedRequests_observe _ _ _ _) fun pend hp => hp

/-- As long as the notifier wakes the server only between frames, the requests
that `run` serves are at every moment the first frames of the stream, and it
never stops with a protocol error. -/
theorem run_stays_aligned (messages : List MessageRef)
    (hwf : ∀ m ∈ messages, m.WellFormed .clientToNode) (memory : Memory server.keys)
    (labels : List (Label server.keys)) (s : Connection server)
    (hrun : Path (Sys.step (programs server nodeId)) WakesBetweenFrames
      (Sys.initial (programs server nodeId) memory) labels s)
    (hstream : arrivals labels <+: streamOf messages) :
    (servedRequests s.log).map some <+: messages.map (incoming server.maxStr) ∧
      ∀ e, s.ctrl ≠ .stopped (.error (.protocol e)) := by
  have hplaced : Placed messages (arrivals labels) s := by
    induction hrun with
    | nil =>
      refine ⟨[], messages, [], rfl, rfl, rfl, rfl, ?_⟩
      exact Program.failsIn_bind (server.startup_local nodeId) fun _ => trivial
    | snoc _ hwake hstep ih =>
      rw [arrivals_append] at hstream ⊢
      exact (ih ((List.prefix_append _ _).trans hstream)).step hwf hstream hwake hstep
  obtain ⟨done, rest, pend, rfl, hlog, -, hp⟩ := hplaced
  constructor
  · rw [hlog, List.map_append]
    exact List.prefix_append _ _
  · intro e he
    simp only [InPlace, he] at hp
    exact hp

def lamp : ErasedKey where
  type := .bool
  perm := .rwn
  name := ⟨[0x61], by decide⟩
  keyref := 0
  nameOnWire := ⟨by decide, by decide⟩

def lampServer : Server 1 := .ofRun (fun _ => lamp) 0

def lampMemory : Memory lampServer.keys where
  value _ := false
  generation _ := 0
  changeSignal _ := false
  notifier _ := none
  latch _ := false

def twoPings : List MessageRef := [.request .ping, .request .ping]

def pingRun (split : ℕ) (reads : List (Label lampServer.keys)) : List (Label lampServer.keys) :=
  [.act true, .finish, .arrive ((streamOf twoPings).take split)] ++ reads ++
    [.spawn 0 true, .update 0, .update 0, .update 0, .update 0, .update 0, .wake, .finish,
      .arrive ((streamOf twoPings).drop split), .read]

/-- The header of the first `PING` has been read when the notifier wakes the
server, and its checksum byte is then taken for an opcode. -/
theorem run_loses_split_ping :
    lampServer.hasObservableKeys = true ∧ (∀ m ∈ twoPings, m.WellFormed .clientToNode) ∧
      arrivals (pingRun 3 [.read, .pend] ++ [.serve]) <+: streamOf twoPings ∧
      ∃ s e, Path (Sys.step (programs lampServer Str.empty)) (fun _ _ => True)
          (Sys.initial (programs lampServer Str.empty) lampMemory)
          (pingRun 3 [.read, .pend] ++ [.serve]) s ∧
        s.ctrl = .stopped (.error (.protocol e)) := by
  refine ⟨by decide, ?_, by decide, ?_⟩
  · intro m hm
    simp only [twoPings, List.mem_cons, List.not_mem_nil, or_false, or_self] at hm
    subst hm
    exact ⟨by decide, trivial, by decide⟩
  · have hrun : ((runLabels (Sys.step (programs lampServer Str.empty))
        (Sys.initial (programs lampServer Str.empty) lampMemory)
        (pingRun 3 [.read, .pend] ++ [.serve])).bind fun s => s.ctrl.exit) =
          some (.error (.protocol (.frame (.reservedOpcode ⟨0xb0⟩)))) := by decide +kernel
    obtain ⟨s, hs, hexit⟩ := Option.bind_eq_some_iff.mp hrun
    exact ⟨s, .frame (.reservedOpcode ⟨0xb0⟩), .of_runLabels hs, Ctrl.exit_eq_some hexit⟩

theorem run_serves_whole_ping : ∃ s : Connection lampServer,
    Path (Sys.step (programs lampServer Str.empty)) WakesBetweenFrames
        (Sys.initial (programs lampServer Str.empty) lampMemory)
        (pingRun 0 [.pend] ++ [.read, .serve]) s ∧
      servedRequests s.log = [.ping] ∧
      (servedRequests s.log).map some <+: twoPings.map (incoming lampServer.maxStr) ∧
      ∀ e, s.ctrl ≠ .stopped (.error (.protocol e)) := by
  have hwf : ∀ m ∈ twoPings, m.WellFormed .clientToNode := by
    intro m hm
    simp only [twoPings, List.mem_cons, List.not_mem_nil, or_false, or_self] at hm
    subst hm
    exact ⟨by decide, trivial, by decide⟩
  have hrun : (runLabels (fun u l => if WakesBetweenFrames u l
      then Sys.step (programs lampServer Str.empty) u l else none)
      (Sys.initial (programs lampServer Str.empty) lampMemory)
      (pingRun 0 [.pend] ++ [.read, .serve])).map (fun s => servedRequests s.log) =
        some [.ping] := by decide +kernel
  obtain ⟨s, hs, hserved⟩ := Option.map_eq_some_iff.mp hrun
  exact ⟨s, .of_guarded hs, hserved,
    run_stays_aligned twoPings hwf lampMemory _ s (.of_guarded hs) (by decide)⟩

end
end Qup.Embassy
