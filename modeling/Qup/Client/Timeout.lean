import Qup.Client.Message
import Qup.Foundation.Transition

/-!
# Timeouts and the place in the stream

`next_message` and `next_message_timeout` over a stream that arrives piece by
piece. A pending `read_exact` of the transport keeps the bytes it has taken in
the buffer it was given, so that a timeout drops them together with the future.
Timeouts that fire before the first byte of a frame was taken cost nothing.
-/

namespace Qup.Client
open Foundation Foundation.Utf8

structure Pending where
  reader : Reader UInt8 ClientError Message
  timed : Bool
  taken : ℕ

structure Receiver where
  inbox : List UInt8
  call : Option Pending
  returned : List (Except ClientError (Option Message))

inductive Poll where
  | arrive (bytes : List UInt8)
  | nextMessage
  | nextMessageTimeout
  | read
  | finish
  | elapsed
  deriving DecidableEq

namespace Receiver

def initial : Receiver := ⟨[], none, []⟩

def begin (s : Receiver) (timed : Bool) : Option Receiver :=
  match s.call with
  | none => some { s with call := some ⟨Reader.bytewise Client.nextMessage, timed, 0⟩ }
  | some _ => none

def finish (s : Receiver) (result : Except ClientError (Option Message)) : Receiver :=
  { s with call := none, returned := s.returned ++ [result] }

def step (s : Receiver) : Poll → Option Receiver
  | .arrive bytes => some { s with inbox := s.inbox ++ bytes }
  | .nextMessage => s.begin false
  | .nextMessageTimeout => s.begin true
  | .read =>
    match s.call with
    | some ⟨.act n k, timed, taken⟩ =>
      if n ≤ s.inbox.length then
        some { s with
          inbox := s.inbox.drop n
          call := some ⟨k (s.inbox.take n), timed, taken + n⟩ }
      else none
    | _ => none
  | .finish =>
    match s.call with
    | some ⟨.ret message, _, _⟩ => some (s.finish (.ok (some message)))
    | some ⟨.fail e, _, _⟩ => some (s.finish (.error e))
    | _ => none
  | .elapsed =>
    match s.call with
    | some ⟨.act n _, true, _⟩ => if n ≤ s.inbox.length then none else some (s.finish (.ok none))
    | _ => none

/-- A call is pending and has used up what has arrived. -/
def Blocked (s : Receiver) : Prop :=
  ∃ n k timed taken, s.call = some ⟨.act n k, timed, taken⟩ ∧ s.inbox.length < n

def received (s : Receiver) : List (Except ClientError Message) :=
  s.returned.filterMap fun result => match result with
    | .ok none => none
    | .ok (some message) => some (.ok message)
    | .error e => some (.error e)

def taken (s : Receiver) : ℕ := match s.call with
  | some call => call.taken
  | none => 0

/-- A deadline passes only while the pending call has taken no byte. -/
def ElapsesBetweenFrames (s : Receiver) (l : Poll) : Prop := l = .elapsed → s.taken = 0

instance (s : Receiver) (l : Poll) : Decidable (s.ElapsesBetweenFrames l) :=
  inferInstanceAs (Decidable (l = .elapsed → s.taken = 0))

end Receiver

def arrivals : List Poll → List UInt8
  | [] => []
  | .arrive bytes :: labels => bytes ++ arrivals labels
  | _ :: labels => arrivals labels

@[simp] theorem arrivals_append (ls ls' : List Poll) :
    arrivals (ls ++ ls') = arrivals ls ++ arrivals ls' := by
  induction ls with
  | nil => rfl
  | cons l ls ih => cases l <;> simp [arrivals, ih]

namespace Receiver

/-- `pend` is what arrived after the last returned frame. -/
def InPlace (s : Receiver) (pend : List UInt8) : Prop :=
  match s.call with
  | none => s.inbox = pend
  | some call => Reader.Resumes (Reader.bytewise Client.nextMessage) pend call.reader s.inbox ∧
      (call.taken = 0 → s.inbox = pend)

def Placed (messages : List MessageRef) (delivered : List UInt8) (s : Receiver) : Prop :=
  ∃ done rest pend, messages = done ++ rest ∧ s.received = done.map ownedMessage ∧
    delivered = streamOf done ++ pend ∧ InPlace s pend

theorem received_finish (s : Receiver) (result : Except ClientError (Option Message)) :
    (s.finish result).received = s.received ++ (match result with
      | .ok none => []
      | .ok (some message) => [.ok message]
      | .error e => [.error e]) := by
  rcases result with e | _ | message <;> simp [received, finish]

theorem Placed.of_inPlace {messages : List MessageRef} {delivered : List UInt8}
    {s s' : Receiver} (h : Placed messages delivered s) (hr : s'.received = s.received)
    (hplace : ∀ pend, InPlace s pend → InPlace s' pend) : Placed messages delivered s' := by
  obtain ⟨done, rest, pend, hm, hreceived, hd, hp⟩ := h
  exact ⟨done, rest, pend, hm, by rw [hr, hreceived], hd, hplace pend hp⟩

theorem Placed.begin {messages : List MessageRef} {delivered : List UInt8} {s s' : Receiver}
    (h : Placed messages delivered s) {timed : Bool} (hb : s.begin timed = some s') :
    Placed messages delivered s' := by
  unfold Receiver.begin at hb
  cases hcall : s.call with
  | some call => simp [hcall] at hb
  | none =>
    rw [hcall] at hb
    cases hb
    refine h.of_inPlace rfl fun pend hp => ?_
    simp only [InPlace, hcall] at hp ⊢
    subst hp
    exact ⟨Reader.Resumes.start _ _, fun _ => rfl⟩

theorem run_frame {m : MessageRef} (hm : m.WellFormed .nodeToClient) :
    ∃ message, ownedMessage m = .ok message ∧ ∀ t,
      Reader.run (Reader.bytewise Client.nextMessage) (m.frame ++ t) = .done message t := by
  obtain ⟨message, hmessage⟩ := ownedMessage_legal hm.1
  refine ⟨message, hmessage, fun t => ?_⟩
  rw [Reader.run_bytewise, run_nextMessage_frame hm, hmessage]
  rfl

theorem run_empty : Reader.run (Reader.bytewise Client.nextMessage) [] = .starved := by
  rw [Reader.run_bytewise]
  exact run_nextMessage_short (by simp [declaredLen])

theorem Placed.step {messages : List MessageRef} (hwf : ∀ m ∈ messages, m.WellFormed .nodeToClient)
    {delivered : List UInt8} {s s' : Receiver} {l : Poll} (h : Placed messages delivered s)
    (hpre : delivered ++ arrivals [l] <+: streamOf messages) (helapsed : s.ElapsesBetweenFrames l)
    (hstep : s.step l = some s') : Placed messages (delivered ++ arrivals [l]) s' := by
  cases l with
  | arrive bytes =>
    cases hstep
    obtain ⟨done, rest, pend, hm, hreceived, rfl, hp⟩ := h
    refine ⟨done, rest, pend ++ bytes, hm, hreceived, by simp [arrivals], ?_⟩
    unfold InPlace at hp ⊢
    cases hcall : s.call with
    | none =>
      simp only [hcall] at hp ⊢
      rw [hp]
    | some call =>
      simp only [hcall] at hp ⊢
      exact ⟨hp.1.append bytes, fun h0 => by rw [hp.2 h0]⟩
  | nextMessage => simpa [arrivals] using h.begin hstep
  | nextMessageTimeout => simpa [arrivals] using h.begin hstep
  | read =>
    simp only [arrivals, List.append_nil]
    simp only [Receiver.step] at hstep
    rcases hcall : s.call with _ | ⟨_ | _ | ⟨n, k⟩, timed, taken⟩ <;>
      simp only [hcall, reduceCtorEq] at hstep
    split_ifs at hstep with hn
    cases hstep
    refine h.of_inPlace rfl fun pend hp => ?_
    simp only [InPlace, hcall] at hp ⊢
    refine ⟨hp.1.read hn, fun h0 => ?_⟩
    obtain ⟨h0, rfl⟩ : taken = 0 ∧ n = 0 := by omega
    simpa using hp.2 h0
  | finish =>
    simp only [arrivals, List.append_nil] at hpre ⊢
    obtain ⟨done, rest, pend, rfl, hreceived, rfl, hp⟩ := h
    rw [streamOf_append, List.prefix_append_right_inj] at hpre
    have hframes : ∀ m ∈ rest, ∃ message, ∀ t,
        Reader.run (Reader.bytewise Client.nextMessage) (m.frame ++ t) = .done message t := by
      intro m hm
      obtain ⟨message, -, hread⟩ := run_frame (hwf m (by simp [hm]))
      exact ⟨message, hread⟩
    simp only [Receiver.step] at hstep
    rcases hcall : s.call with _ | ⟨message | e | ⟨n, k⟩, timed, taken⟩ <;>
      simp only [hcall, reduceCtorEq] at hstep
    · simp only [InPlace, hcall] at hp
      obtain ⟨m, rest', rfl, hread, rfl⟩ :=
        (hp.1.stopped run_empty MessageRef.frame hframes hpre).2 message rfl
      obtain ⟨message', hmessage, hread'⟩ := run_frame (hwf m (by simp))
      obtain rfl : message = message' := by
        have h := (hread []).symm.trans (hread' [])
        injection h
      cases hstep
      refine ⟨done ++ [m], rest', s.inbox, by simp, ?_, by simp, rfl⟩
      rw [received_finish, hreceived]
      simp [hmessage]
    · simp only [InPlace, hcall] at hp
      exact absurd rfl ((hp.1.stopped run_empty MessageRef.frame hframes hpre).1 e)
  | elapsed =>
    simp only [arrivals, List.append_nil]
    simp only [Receiver.step] at hstep
    rcases hcall : s.call with _ | ⟨_ | _ | ⟨n, k⟩, _ | _, taken⟩ <;>
      simp only [hcall, reduceCtorEq] at hstep
    split_ifs at hstep with hn
    cases hstep
    refine h.of_inPlace (by simp [received_finish]) fun pend hp => ?_
    have h0 : taken = 0 := by simpa [Receiver.taken, hcall] using helapsed rfl
    simp only [InPlace, hcall] at hp
    exact hp.2 h0

/-- As long as no deadline passes inside a frame, the messages returned are the
first messages of the stream, and a call that is blocked has every complete
frame that has arrived returned before it. -/
theorem timeouts_keep_place (messages : List MessageRef)
    (hwf : ∀ m ∈ messages, m.WellFormed .nodeToClient) (labels : List Poll) (s : Receiver)
    (hrun : Path Receiver.step ElapsesBetweenFrames Receiver.initial labels s)
    (hstream : arrivals labels <+: streamOf messages) :
    ∃ done rest, messages = done ++ rest ∧ s.received = done.map ownedMessage ∧
      (∀ result ∈ s.received, ∃ message, result = .ok message) ∧
      (s.Blocked → ∀ m rest', rest = m :: rest' → ¬ streamOf (done ++ [m]) <+: arrivals labels) := by
  have hplaced : Placed messages (arrivals labels) s := by
    induction hrun with
    | nil => exact ⟨[], messages, [], rfl, rfl, rfl, rfl⟩
    | snoc _ helapsed hstep ih =>
      rw [arrivals_append] at hstream ⊢
      exact (ih ((List.prefix_append _ _).trans hstream)).step hwf hstream helapsed hstep
  obtain ⟨done, rest, pend, rfl, hreceived, hd, hp⟩ := hplaced
  refine ⟨done, rest, rfl, hreceived, ?_, ?_⟩
  · intro result hresult
    rw [hreceived, List.mem_map] at hresult
    obtain ⟨m, hm, rfl⟩ := hresult
    exact ownedMessage_legal (hwf m (by simp [hm])).1
  · rintro ⟨n, k, timed, taken, hcall, hn⟩ m rest' rfl hcomplete
    rw [hd, streamOf_append, List.prefix_append_right_inj] at hcomplete
    obtain ⟨t, ht⟩ := hcomplete
    obtain ⟨message, -, hread⟩ := run_frame (hwf m (by simp))
    simp only [InPlace, hcall] at hp
    -- a pending read with nothing to read cannot be what is left of a whole frame
    have hr := hp.1 []
    rw [List.append_nil, List.append_nil, Reader.run_act_of_lt k hn, ← ht] at hr
    simp only [streamOf_cons, streamOf_nil, List.append_nil] at hr
    rw [hread] at hr
    cases hr

def twoChanged : List MessageRef := [.changed 1, .changed 1]

theorem twoChanged_wellFormed : ∀ m ∈ twoChanged, m.WellFormed .nodeToClient := by
  intro m hm
  simp only [twoChanged, List.mem_cons, List.not_mem_nil, or_false, or_self] at hm
  subst hm
  exact ⟨by decide, trivial, by decide⟩

def splitRun (split : ℕ) : List Poll :=
  [.arrive ((streamOf twoChanged).take split), .nextMessageTimeout] ++
    List.replicate split .read ++
    [.elapsed, .arrive ((streamOf twoChanged).drop split), .nextMessage]

/-- Two bytes of the first frame are lost, and the next call takes what follows
them for a header. -/
theorem elapsed_loses_split_frame :
    (∀ m ∈ twoChanged, m.WellFormed .nodeToClient) ∧
      arrivals (splitRun 2 ++ List.replicate 5 .read ++ [.finish]) = streamOf twoChanged ∧
      ∃ s e, Path Receiver.step (fun _ _ => True) Receiver.initial
          (splitRun 2 ++ List.replicate 5 .read ++ [.finish]) s ∧
        s.returned = [.ok none, .error e] := by
  refine ⟨twoChanged_wellFormed, by decide, ?_⟩
  have hrun : (runLabels Receiver.step Receiver.initial
      (splitRun 2 ++ List.replicate 5 .read ++ [.finish])).map (fun s => s.returned) =
        some [.ok none, .error (frameError (.reservedOpcode ⟨0x02⟩))] := by decide +kernel
  obtain ⟨s, hs, hreturned⟩ := Option.map_eq_some_iff.mp hrun
  exact ⟨s, _, .of_runLabels hs, hreturned⟩

theorem elapsed_between_frames : ∃ s : Receiver,
    Path Receiver.step ElapsesBetweenFrames Receiver.initial
        (splitRun 0 ++ List.replicate 6 .read ++ [.finish]) s ∧
      s.returned = [.ok none, .ok (some (.changed 1))] ∧
      ∃ done rest, twoChanged = done ++ rest ∧ s.received = done.map ownedMessage ∧
        (∀ result ∈ s.received, ∃ message, result = .ok message) ∧
        (s.Blocked → ∀ m rest', rest = m :: rest' → ¬ streamOf (done ++ [m]) <+:
          arrivals (splitRun 0 ++ List.replicate 6 .read ++ [.finish])) := by
  have hrun : (runLabels (fun u l => if Receiver.ElapsesBetweenFrames u l then
      Receiver.step u l else none) Receiver.initial
      (splitRun 0 ++ List.replicate 6 .read ++ [.finish])).map (fun s => s.returned) =
        some [.ok none, .ok (some (.changed 1))] := by decide +kernel
  obtain ⟨s, hs, hreturned⟩ := Option.map_eq_some_iff.mp hrun
  exact ⟨s, .of_guarded hs, hreturned,
    timeouts_keep_place twoChanged twoChanged_wellFormed _ s (.of_guarded hs) (by decide)⟩

end Receiver
end Qup.Client
