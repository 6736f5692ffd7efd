import Qup.EndToEnd.Replies
import Qup.Tui.Network
import Qup.Foundation.EventLog

/-!
# The worker of the monitor and a key table

What the worker tells the interface while it talks to a node that keeps to its key
table, over all its connections: a log of the commands it has taken, the answers of
the node and the events it has sent, in which every entry is allowed by the older
ones. A value is told because the node has answered it. A connection may break at any
time; the worker gives one up only because it has broken, a deadline has passed or the
interface is gone, and never for what the node has answered.
-/

namespace Qup.EndToEnd
open Foundation Foundation.Routine Foundation.Utf8
open Client (Call ClientError IoError KeyInfo Message Value)
open Tui (Display Failure KeyRow NetworkEvent WorkerCommand WriteCommandError)

inductive Happening where
  | took (command : WorkerCommand)
  | answered (call : Call) (m : Message)
  | sent (event : NetworkEvent)
  deriving DecidableEq

inductive Status where
  | down
  | opening
  | up
  deriving DecidableEq

def status : List Happening → Status
  | [] => .down
  | .sent .connecting :: _ => .opening
  | .sent (.connected _ _) :: _ => .up
  | .sent (.disconnected _) :: _ => .down
  | .sent (.valueUpdated _ _ _) :: log | .sent (.writeSucceeded _ _ _) :: log
  | .sent (.writeFailed _ _) :: log | .took _ :: log | .answered _ _ :: log => status log

def Writing (r : UInt16) (value : Value) (log : List Happening) : Prop :=
  log.head? = some (.took (.writeValue r value))

/-- The write that was taken and of which nothing has been told. -/
def untold : List Happening → Option (UInt16 × Value)
  | .took (.writeValue r value) :: _ => some (r, value)
  | .answered _ _ :: log => untold log
  | _ => none

def Quiet (log : List Happening) : Prop := status log = .up ∧ untold log = none

def visit (log : List Happening) : List Happening := log.takeWhile fun h => h ≠ .sent .connecting

inductive Lost : Failure → Prop where
  | timedOut (expected : String) : Lost (.timedOut expected)
  | timedOutResponse : Lost .timedOutResponse
  | send (error : IoError) : Lost (.send error)
  | read (error : IoError) : Lost (.client (.io error))

/-- Why a connection may be given up. -/
inductive Excused (profile : Profile) (log : List Happening) : Failure → Prop where
  | viewerClosed : Excused profile log .viewerClosed
  | connect (error : IoError) : Excused profile log (.connect error)
  | identify (error : IoError) : Excused profile log (.identify (.io error))
  | keyEnumeration (error : IoError) : Excused profile log (.keyEnumeration (.io error))
  | connectionLost (error : IoError) : Excused profile log (.connectionLost (.io error))
  | observe (key : KeyInfo) (cause : Failure) (hkey : key ∈ profile.keys)
      (hobservable : key.keyflags.isObservable) (hlost : Lost cause) :
      Excused profile log (.observe key.name cause)
  | initialRead (key : KeyInfo) (cause : Failure) (hkey : key ∈ profile.keys)
      (hreadable : key.keyflags.isReadable) (hlost : Lost cause) :
      Excused profile log (.initialRead key.name cause)
  | refresh (key : KeyInfo) (cause : Failure) (hkey : key ∈ profile.keys)
      (hreadable : key.keyflags.isReadable) (hlost : Lost cause) :
      Excused profile log (.refresh key.name cause)
  | heartbeat (cause : Failure) (hlost : Lost cause) : Excused profile log (.heartbeat cause)
  | write (r : UInt16) (value : Value) (cause : Failure) (hwriting : Writing r value log)
      (hlost : Lost cause) : Excused profile log cause

/-- A row of the table as it is first shown: a value that the connection has answered, if the key
is readable. -/
def Filled (log : List Happening) (row : KeyRow) : Prop :=
  if row.info.keyflags.isReadable then ∃ value instant, row.value = .formatted value ∧
    row.lastRead = some instant ∧ .answered (.get row.info.keyref) (.value value) ∈ visit log
  else row = Tui.initialRow row.info

/-- The value that is shown for a key later: the one that has just been answered. -/
def Shows (log : List Happening) (key : KeyInfo) (value : Display) (instant : Option ℕ) : Prop :=
  if key.keyflags.isReadable then ∃ v t, value = .formatted v ∧ instant = some t ∧
    log.head? = some (.answered (.get key.keyref) (.value v))
  else value = .changedUnreadable ∧ instant = none

def MaySend (profile : Profile) (log : List Happening) : NetworkEvent → Prop
  | .connecting => status log = .down
  | .connected nodeId rows => status log = .opening ∧ nodeId = profile.nodeId ∧
      rows.map KeyRow.info = profile.keys ∧ ∀ row ∈ rows, Filled log row
  | .disconnected error => status log ≠ .down ∧ Excused profile log error
  | .valueUpdated r value instant => Quiet log ∧
      ∃ key ∈ profile.keys, key.keyref = r ∧ Shows log key value instant
  | .writeSucceeded r value _ => status log = .up ∧ ∃ v older, Writing r v older ∧
      log = .answered (.write r v) (.written v) :: older ∧ value = .formatted v
  | .writeFailed r error => status log = .up ∧ ∃ v code older, Writing r v older ∧
      log = .answered (.write r v) (.error code) :: older ∧ error = .requestFailed code

/-- A command is taken from a connection that is up, when the last write has been told of, and an
answer is one that the table calls for. -/
def Happening.Allowed (profile : Profile) : Happening → List Happening → Prop
  | .took _, log => Quiet log
  | .answered call m, _ => profile.Replies call m
  | .sent event, log => MaySend profile log event

structure Desk where
  talk : Talk
  log : List Happening

def answers (awaiting : Option Call) : Except ClientError Message → List Happening
  | .ok (.changed _) | .error _ => []
  | .ok m => awaiting.toList.map fun call => .answered call m

def Desk.hear (desk : Desk) (reply : Except ClientError Message) : Desk :=
  ⟨desk.talk.hear reply, answers desk.talk.awaiting reply ++ desk.log⟩

def monitoring (profile : Profile) : Discipline Tui.Op.Res Desk where
  allows
    | desk, .send _ => desk.talk.awaiting = none
    | desk, .emit event => MaySend profile desk.log event
    | desk, .tryRecv => Quiet desk.log
    | _, _ => True
  next
    | desk, .connect, _ => { desk with talk := .idle [] }
    | desk, .send call, .ok () => { desk with talk := ⟨desk.talk.exchanges, some call⟩ }
    | desk, .nextMessage, reply => desk.hear reply
    | desk, .nextMessageTimeout _, .ok (some message) => desk.hear (.ok message)
    | desk, .nextMessageTimeout _, .error error => desk.hear (.error error)
    | desk, .emit event, true => { desk with log := .sent event :: desk.log }
    | desk, .tryRecv, some command => { desk with log := .took command :: desk.log }
    | desk, _, _ => desk

def Profile.Tells (profile : Profile) (desk : Desk) : (o : Tui.Op) → o.Res → Prop
  | .nextMessage, reply =>
    profile.Promises desk.talk .nextMessage reply ∨ ∃ error, reply = .error (.io error)
  | .nextMessageTimeout _, reply => reply = .ok none ∨ (∃ error, reply = .error (.io error)) ∨
      ∃ message, reply = message.map some ∧ profile.Promises desk.talk .nextMessage message
  | _, _ => True

def Desk.Resting (desk : Desk) (log : List Happening) : Prop :=
  desk.log = log ∧ desk.talk.awaiting = none

theorem answers_response {call : Call} {m : Message} (hm : ∀ r, m ≠ .changed r) :
    answers (some call) (.ok m) = [.answered call m] := by
  cases m with
  | changed r => exact absurd rfl (hm r)
  | _ => rfl

section
variable {profile : Profile} {α : Type} {call : Call} {accept : Message → Except ClientError α}
  {desk : Desk}

def Desk.Returns (profile : Profile) (call : Call) (accept : Message → Except ClientError α)
    (desk next : Desk) (r : Except ClientError α) : Prop :=
  (∃ error, r = .error (.io error) ∧ next.log = desk.log) ∨
    ∃ m, profile.Replies call m ∧ next.Resting (.answered call m :: desk.log) ∧ r = accept m

theorem workerResponse_follows {done : List (Call × Message)} {log : List Happening} :
    Tui.readRequestResponse.Follows (monitoring profile) profile.Tells
      (Desk.Returns profile call .ok ⟨⟨done, some call⟩, log⟩) ⟨⟨done, some call⟩, log⟩ := by
  refine .iterate (fun _ next => next = ⟨⟨done, some call⟩, log⟩) rfl ?_
  rintro _ next rfl
  refine .ask trivial fun reply hreply => ?_
  rcases hreply with (⟨r, rfl, -⟩ | ⟨call', m, hcall, rfl, hm⟩) | ⟨error, rfl⟩
  · rfl
  · cases hcall
    have hne := hm.ne_changed
    cases m with
    | changed r => exact absurd rfl (hne r)
    | _ => exact .inr ⟨_, hm, ⟨rfl, rfl⟩, rfl⟩
  · exact .inl ⟨error, rfl, rfl⟩

theorem clientCall_follows (hidle : desk.talk.awaiting = none) :
    (Tui.clientCall call accept).Follows (monitoring profile) profile.Tells
      (desk.Returns profile call accept) desk := by
  obtain ⟨⟨done, awaiting⟩, log⟩ := desk
  obtain rfl := hidle
  refine .ask rfl fun sent _ => ?_
  cases sent with
  | error error => exact .inl ⟨error, rfl, rfl⟩
  | ok =>
    refine .bind (workerResponse_follows.mono ?_)
    rintro next r (⟨error, rfl, hlog⟩ | ⟨m, hm, hnext, rfl⟩)
    · exact .inl ⟨error, rfl, hlog⟩
    · dsimp only [Routine.AndThen]
      cases haccept : accept m with
      | ok answer => exact .inr ⟨m, hm, hnext, haccept.symm⟩
      | error error => exact .inr ⟨m, hm, hnext, haccept.symm⟩

end

section
variable {profile : Profile} {ε α : Type} {call : Call} {accept : Message → Option α}
  {refused failed : Failure → ε} {log : List Happening} {done : List (Call × Message)}

def judge (accept : Message → Option α) (refused failed : Failure → ε) (m : Message) : Except ε α :=
  match accept m, m with
  | some answer, _ => .ok answer
  | none, .error code => .error (refused (.requestFailed code))
  | none, other => .error (failed (.unexpectedResponse other))

theorem judge_some {m : Message} {answer : α} (h : accept m = some answer) :
    judge accept refused failed m = .ok answer := by
  simp only [judge, h]

def Profile.Asked (profile : Profile) (call : Call) (accept : Message → Option α)
    (refused failed : Failure → ε) (log : List Happening) (desk : Desk)
    (r : Except ε (α × List UInt16)) : Prop :=
  (∃ cause, Lost cause ∧ desk.log = log ∧ r = .error (failed cause)) ∨
    ∃ m, profile.Replies call m ∧ desk.Resting (.answered call m :: log) ∧
      r.map Prod.fst = judge accept refused failed m

theorem takeReply_follows (haccept : ∀ r, accept (.changed r) = none) {wait : Tui.Wait}
    {reply : Except ClientError (Option Message)} {changed : List UInt16}
    (hreply : profile.Tells ⟨⟨done, some call⟩, log⟩ (.nextMessageTimeout wait) reply) :
    (Tui.takeReply accept refused failed changed reply).Follows (monitoring profile) profile.Tells
      (RoundEnd (fun _ desk => desk = ⟨⟨done, some call⟩, log⟩)
        (profile.Asked call accept refused failed log))
      ((monitoring profile).next ⟨⟨done, some call⟩, log⟩ (.nextMessageTimeout wait) reply) := by
  rcases hreply with rfl | ⟨error, rfl⟩ | ⟨message, rfl, ⟨r, rfl, -⟩ | ⟨call', m, hcall, rfl, hm⟩⟩
  · exact .inl ⟨_, .timedOutResponse, rfl, rfl⟩
  · exact .inl ⟨_, .read error, rfl, rfl⟩
  · change (Tui.takeReply accept refused failed changed (.ok (some (.changed r)))).Follows _ _ _ _
    unfold Tui.takeReply
    simp only [haccept]
    rfl
  · cases hcall
    change (Tui.takeReply accept refused failed changed (.ok (some m))).Follows _ _ _
      (Desk.hear ⟨⟨done, some call⟩, log⟩ (.ok m))
    rw [Desk.hear, Talk.hear_other hm.ne_changed, answers_response hm.ne_changed]
    unfold Tui.takeReply
    cases hanswer : accept m with
    | some answer =>
      simp only [hanswer]
      exact .inr ⟨m, hm, ⟨rfl, rfl⟩, (judge_some hanswer).symm⟩
    | none =>
      have hne := hm.ne_changed
      cases m with
      | changed r => exact absurd rfl (hne r)
      | _ =>
        simp only [hanswer]
        exact .inr ⟨_, hm, ⟨rfl, rfl⟩, by simp only [judge, hanswer]; rfl⟩

theorem waitFor_follows (haccept : ∀ r, accept (.changed r) = none) (expected : String) :
    (Tui.waitFor accept expected refused failed).Follows (monitoring profile) profile.Tells
      (profile.Asked call accept refused failed log) ⟨⟨done, some call⟩, log⟩ := by
  refine .ask trivial fun started _ => ?_
  refine .iterate (fun _ desk => desk = ⟨⟨done, some call⟩, log⟩) rfl ?_
  rintro changed desk rfl
  refine .ask trivial fun instant _ => follows_ite (fun _ => ?_) fun _ => ?_
  · exact .inl ⟨_, .timedOut expected, rfl, rfl⟩
  · exact .ask trivial fun reply hreply => takeReply_follows haccept hreply

theorem requestWithChanges_follows {desk : Desk} (hdesk : desk.Resting log)
    (haccept : ∀ r, accept (.changed r) = none) (expected : String) :
    (Tui.requestWithChanges call failed (Tui.waitFor accept expected refused failed)).Follows
      (monitoring profile) profile.Tells (profile.Asked call accept refused failed log) desk := by
  obtain ⟨⟨done, awaiting⟩, _⟩ := desk
  obtain ⟨rfl, rfl⟩ := hdesk
  refine .ask rfl fun sent _ => ?_
  cases sent with
  | error error => exact .inl ⟨_, .send error, rfl, rfl⟩
  | ok => exact waitFor_follows haccept expected

end

namespace Desk

def Live (desk : Desk) : Prop := desk.talk.awaiting = none ∧ Quiet desk.log

def GivenUp (profile : Profile) (desk : Desk) (failure : Failure) : Prop :=
  status desk.log ≠ .down ∧ Excused profile desk.log failure

def OrGivenUp (profile : Profile) {α : Type} (P : α → Desk → Prop) (desk : Desk) :
    Except Failure α → Prop
  | .ok a => P a desk
  | .error failure => desk.GivenUp profile failure

abbrev Goes (profile : Profile) {α : Type} : Desk → Except Failure α → Prop :=
  OrGivenUp profile fun _ => Live

end Desk

def InTime (call : Call) {α : Type} (accept : Message → Option α) (log : List Happening)
    (desk : Desk) : Except Failure (α × List UInt16) → Prop
  | .ok answer => ∃ m, accept m = some answer.1 ∧ desk.Resting (.answered call m :: log)
  | .error cause => desk.log = log ∧ Lost cause

section
variable {profile : Profile} {α : Type} {call : Call} {accept : Message → Option α}
  {log : List Happening} {desk : Desk} {key : KeyInfo}

theorem orGivenUp_bind {β : Type} {p : Tui.Action Failure α} {f : α → Tui.Action Failure β}
    {P : α → Desk → Prop} {R : Desk → Except Failure β → Prop}
    (hp : p.Follows (monitoring profile) profile.Tells (Desk.OrGivenUp profile P) desk)
    (hf : ∀ a next, P a next → (f a).Follows (monitoring profile) profile.Tells R next)
    (hR : ∀ next failure, next.GivenUp profile failure → R next (.error failure)) :
    (p.bind f).Follows (monitoring profile) profile.Tells R desk := by
  refine .bind (hp.mono fun next r hr => ?_)
  cases r with
  | error failure => exact hR next failure hr
  | ok a => exact hf a next hr

theorem lost_mapError {p : Tui.Action Failure (α × List UInt16)} {f : Failure → Failure}
    (hp : p.Follows (monitoring profile) profile.Tells (InTime call accept log) desk)
    (hstatus : status log ≠ .down) (hf : ∀ cause, Lost cause → Excused profile log (f cause)) :
    (p.mapError f).Follows (monitoring profile) profile.Tells
      (Desk.OrGivenUp profile fun answer next =>
        ∃ m, accept m = some answer.1 ∧ next.Resting (.answered call m :: log)) desk := by
  refine .mapError (hp.mono fun next r hr => ?_)
  cases r with
  | error cause =>
    obtain ⟨rfl, hlost⟩ := hr
    exact ⟨hstatus, hf cause hlost⟩
  | ok answer => exact hr

theorem up_ne_down (hup : status log = .up) : status log ≠ .down := by
  rw [hup]
  exact Status.noConfusion

theorem Desk.Live.resting (h : desk.Live) : desk.Resting desk.log := ⟨rfl, h.1⟩

theorem heard_of_asked (haccept : ∀ m, profile.Replies call m → (accept m).isSome)
    {r : Except Failure (α × List UInt16)} (h : profile.Asked call accept id id log desk r) :
    InTime call accept log desk r := by
  rcases h with ⟨cause, hlost, hlog, rfl⟩ | ⟨m, hm, hresting, hr⟩
  · exact ⟨hlog, hlost⟩
  · obtain ⟨answer, hanswer⟩ := Option.isSome_iff_exists.mp (haccept m hm)
    rw [judge_some hanswer] at hr
    cases r with
    | ok => exact ⟨m, hanswer.trans (congrArg some (Except.ok.inj hr).symm), hresting⟩
    | error => cases hr

theorem observe_heard (hdesk : desk.Resting log) (hkey : key ∈ profile.keys)
    (hobservable : key.keyflags.isObservable = true) :
    (Tui.observeWithChanges key.keyref).Follows (monitoring profile) profile.Tells
      (InTime (.observe key.keyref) Tui.acceptOk log) desk := by
  refine (requestWithChanges_follows hdesk (fun _ => rfl) _).mono fun _ _ hr =>
    heard_of_asked (fun m hm => ?_) hr
  obtain ⟨hlt, hflags⟩ := Profile.mem_keys hkey
  rw [Profile.Replies, if_neg (UInt16.not_le.mpr hlt), ← hflags, if_pos hobservable] at hm
  rw [hm]
  rfl

theorem readValue_heard (hdesk : desk.Resting log) (hkey : key ∈ profile.keys)
    (hreadable : key.keyflags.isReadable = true) :
    (Tui.readValueWithChanges key.keyref).Follows (monitoring profile) profile.Tells
      (InTime (.get key.keyref) Tui.acceptValue log) desk := by
  refine (requestWithChanges_follows hdesk (fun _ => rfl) _).mono fun _ _ hr =>
    heard_of_asked (fun m hm => ?_) hr
  obtain ⟨hlt, hflags⟩ := Profile.mem_keys hkey
  rw [Profile.Replies, if_neg (UInt16.not_le.mpr hlt), ← hflags, if_pos hreadable] at hm
  obtain ⟨value, rfl⟩ := hm
  rfl

theorem ping_heard (hdesk : desk.Resting log) :
    Tui.pingWithChanges.Follows (monitoring profile) profile.Tells (InTime .ping Tui.acceptOk log)
      desk := by
  refine (requestWithChanges_follows hdesk (fun _ => rfl) _).mono fun _ _ hr =>
    heard_of_asked (fun m hm => ?_) hr
  rw [Profile.Replies] at hm
  rw [hm]
  rfl

theorem emit_follows {event : NetworkEvent} (hevent : MaySend profile desk.log event) :
    (Tui.emit event).Follows (monitoring profile) profile.Tells (fun next r =>
      (r = .ok () ∧ next = { desk with log := .sent event :: desk.log }) ∨
        (r = .error .viewerClosed ∧ next = desk)) desk := by
  refine .ask hevent fun sent _ => ?_
  cases sent with
  | true => exact .inl ⟨rfl, rfl⟩
  | false => exact .inr ⟨rfl, rfl⟩

theorem emit_goes {event : NetworkEvent} (hidle : desk.talk.awaiting = none)
    (hup : status desk.log = .up) (hevent : MaySend profile desk.log event)
    (hkept : status (.sent event :: desk.log) = .up) :
    (Tui.emit event).Follows (monitoring profile) profile.Tells (Desk.Goes profile) desk := by
  refine (emit_follows hevent).mono ?_
  rintro next r (⟨rfl, rfl⟩ | ⟨rfl, rfl⟩)
  · exact ⟨hidle, hkept, rfl⟩
  · exact ⟨up_ne_down hup, .viewerClosed⟩

theorem emit_valueUpdated {value : Display} {instant : Option ℕ} (hlive : desk.Live)
    (hkey : key ∈ profile.keys) (hshows : Shows desk.log key value instant) :
    (Tui.emit (.valueUpdated key.keyref value instant)).Follows (monitoring profile) profile.Tells
      (Desk.Goes profile) desk :=
  emit_goes hlive.1 hlive.2.1 ⟨hlive.2, key, hkey, rfl, hshows⟩ hlive.2.1

theorem acceptValue_eq_some {m : Message} {value : Value} (h : Tui.acceptValue m = some value) :
    m = .value value := by
  cases m <;> cases h
  rfl

theorem refreshKey_follows (hlive : desk.Live) (hkey : key ∈ profile.keys)
    (hreadable : key.keyflags.isReadable = true) (pendingChanged : List UInt16) :
    (Tui.refreshKey key pendingChanged).Follows (monitoring profile) profile.Tells
      (Desk.Goes profile) desk := by
  refine orGivenUp_bind (lost_mapError (readValue_heard hlive.resting hkey hreadable)
    (up_ne_down hlive.2.1) fun cause hlost => .refresh key cause hkey hreadable hlost) ?_
    fun _ _ hnext => hnext
  rintro ⟨value, changed⟩ ⟨talk, _⟩ ⟨m, hm, rfl, hidle⟩
  obtain rfl := acceptValue_eq_some hm
  have hnext : Desk.Live ⟨talk, .answered (.get key.keyref) (.value value) :: desk.log⟩ :=
    ⟨hidle, hlive.2⟩
  refine .ask trivial fun instant _ =>
    orGivenUp_bind (emit_valueUpdated hnext hkey ?_) (fun _ _ hlast => hlast) fun _ _ hlast => hlast
  rw [Shows, if_pos hreadable]
  exact ⟨value, instant, rfl, rfl, rfl⟩

theorem rereadAllReadableKeys_follows {keys : List KeyInfo} (hlive : desk.Live)
    (hkeys : ∀ key ∈ keys, key ∈ profile.keys) (pendingChanged : List UInt16) :
    (Tui.rereadAllReadableKeys keys pendingChanged).Follows (monitoring profile) profile.Tells
      (Desk.Goes profile) desk := by
  induction keys generalizing desk pendingChanged with
  | nil => exact hlive
  | cons key keys ih =>
    have hothers : ∀ other ∈ keys, other ∈ profile.keys :=
      fun other hother => hkeys other (List.mem_cons_of_mem _ hother)
    refine follows_ite (fun _ => ih hlive hothers pendingChanged) fun hreadable => ?_
    have hreadable' : key.keyflags.isReadable = true := by simpa using hreadable
    refine orGivenUp_bind (refreshKey_follows hlive (hkeys key List.mem_cons_self) hreadable' _)
      (fun pendingChanged next hnext => ih hnext hothers pendingChanged) fun _ _ hnext => hnext

theorem drainChangedKeys_follows (hlive : desk.Live) (pendingChanged : List UInt16) :
    (Tui.drainChangedKeys profile.keys pendingChanged).Follows (monitoring profile) profile.Tells
      (Desk.Goes profile) desk := by
  refine .iterate (fun _ next => next.Live) hlive ?_
  intro pendingChanged next hnext
  cases pendingChanged.getLast? with
  | none => exact hnext
  | some keyref =>
    dsimp only
    cases hlookup : Tui.lookup profile.keys keyref with
    | none => exact hnext
    | some key =>
      have hkey : key ∈ profile.keys := List.mem_of_find?_eq_some hlookup
      have hkeyref : key.keyref = keyref := by simpa using List.find?_some hlookup
      subst hkeyref
      refine follows_ite (fun hreadable => ?_) fun hreadable => ?_
      · exact orGivenUp_bind (refreshKey_follows hnext hkey hreadable _) (fun _ _ hlast => hlast)
          fun _ _ hlast => hlast
      · refine orGivenUp_bind (emit_valueUpdated hnext hkey ?_) (fun _ _ hlast => hlast)
          fun _ _ hlast => hlast
        rw [Shows, if_neg hreadable]
        exact ⟨rfl, rfl⟩

theorem written_or_error {r : UInt16} {value : Value} {m : Message}
    (h : profile.Replies (.write r value) m) : m = .written value ∨ ∃ code, m = .error code := by
  rw [Profile.Replies] at h
  split_ifs at h
  · exact .inr ⟨_, h⟩
  · exact h.imp id fun h => ⟨_, h⟩
  · exact .inr ⟨_, h⟩

inductive Wrote (profile : Profile) (log : List Happening) (r : UInt16) (value : Value)
    (desk : Desk) : Except WriteCommandError (Value × List UInt16) → Prop where
  | written (changed : List UInt16)
      (hdesk : desk.Resting (.answered (.write r value) (.written value) :: log)) :
      Wrote profile log r value desk (.ok (value, changed))
  | refused (code : UInt8) (hdesk : desk.Resting (.answered (.write r value) (.error code) :: log)) :
      Wrote profile log r value desk (.error (.request (.requestFailed code)))
  | givenUp (failure : Failure) (hlog : desk.log = log) (hexcused : Excused profile log failure) :
      Wrote profile log r value desk (.error (.connection failure))

theorem writeValueWithChanges_follows (hdesk : desk.Resting log) {r : UInt16} {value : Value}
    (hwriting : Writing r value log) :
    (Tui.writeValueWithChanges r value).Follows (monitoring profile) profile.Tells
      (Wrote profile log r value) desk := by
  refine (requestWithChanges_follows hdesk (fun _ => rfl) _).mono fun next result hresult => ?_
  rcases hresult with ⟨cause, hlost, hlog, rfl⟩ | ⟨m, hm, hnext, hr⟩
  · exact .givenUp _ hlog (.write r value cause hwriting hlost)
  · rcases written_or_error hm with rfl | ⟨code, rfl⟩
    · have haccepted : Tui.acceptWritten (.written value) = some value := rfl
      rw [judge_some haccepted] at hr
      cases result with
      | error error => cases hr
      | ok answer =>
        obtain ⟨written, changed⟩ := answer
        cases hr
        exact .written changed hnext
    · cases result with
      | error error =>
        cases hr
        exact .refused code hnext
      | ok answer => cases hr

theorem processCommands_follows (hlive : desk.Live) (pendingChanged : List UInt16) :
    (Tui.processCommands profile.keys pendingChanged).Follows (monitoring profile) profile.Tells
      (Desk.Goes profile) desk := by
  refine .iterate (fun _ next => next.Live) hlive ?_
  intro pendingChanged next hnext
  refine .ask hnext.2 fun command _ => ?_
  cases command with
  | none => exact hnext
  | some command =>
    cases command with
    | refreshAllReadable =>
      have htaken : Desk.Live { next with log := .took .refreshAllReadable :: next.log } :=
        ⟨hnext.1, hnext.2.1, rfl⟩
      exact orGivenUp_bind (rereadAllReadableKeys_follows htaken (fun _ hkey => hkey) pendingChanged)
        (fun _ _ hlast => hlast) fun _ _ hlast => hlast
    | writeValue r value =>
      have hup : status next.log = .up := hnext.2.1
      have htaken : Desk.Resting { next with log := .took (.writeValue r value) :: next.log }
        (.took (.writeValue r value) :: next.log) := ⟨rfl, hnext.1⟩
      refine .bind (.attempt ((writeValueWithChanges_follows htaken rfl).mono ?_))
      intro last result hresult
      cases hresult with
      | written changed hdesk =>
        obtain ⟨hlog, hidle⟩ := hdesk
        have hsucceeded : ∀ instant,
            MaySend profile last.log (.writeSucceeded r (.formatted value) instant) := by
          intro instant
          rw [hlog]
          exact ⟨hup, value, .took (.writeValue r value) :: next.log, rfl, rfl, rfl⟩
        have hup' : status last.log = .up := by rw [hlog]; exact hup
        exact .ask trivial fun instant _ =>
          orGivenUp_bind (emit_goes hidle hup' (hsucceeded instant) hup') (fun _ _ hend => hend)
            fun _ _ hend => hend
      | refused code hdesk =>
        obtain ⟨hlog, hidle⟩ := hdesk
        have hfailed : MaySend profile last.log (.writeFailed r (.requestFailed code)) := by
          rw [hlog]
          exact ⟨hup, value, code, .took (.writeValue r value) :: next.log, rfl, rfl, rfl⟩
        have hup' : status last.log = .up := by rw [hlog]; exact hup
        exact orGivenUp_bind (emit_goes hidle hup' hfailed hup') (fun _ _ hend => hend)
          fun _ _ hend => hend
      | givenUp failure hlog hexcused =>
        refine ⟨?_, hlog ▸ hexcused⟩
        rw [hlog]
        exact up_ne_down hup

theorem mainLoop_follows (hlive : desk.Live) (lastTraffic : ℕ) :
    (Tui.mainLoop profile.keys lastTraffic).Follows (monitoring profile) profile.Tells
      (fun next r => ∃ failure, r = .error failure ∧ next.GivenUp profile failure) desk := by
  refine .iterate (fun _ next => next.Live) hlive ?_
  rintro ⟨pendingChanged, lastTraffic⟩ next hnext
  have hfail : ∀ {next : Desk} {failure : Failure}, next.GivenUp profile failure →
      ∃ failure', (Except.error failure : Except Failure Unit) = .error failure' ∧
        next.GivenUp profile failure' := fun h => ⟨_, rfl, h⟩
  refine orGivenUp_bind (processCommands_follows hnext pendingChanged) ?_ fun _ _ h => hfail h
  intro pendingChanged next hnext
  refine orGivenUp_bind (drainChangedKeys_follows hnext pendingChanged) ?_ fun _ _ h => hfail h
  rintro - next hnext
  obtain ⟨⟨done, awaiting⟩, log⟩ := next
  obtain ⟨rfl, hquiet⟩ := hnext
  refine .ask trivial fun reply hreply => ?_
  rcases hreply with rfl | ⟨error, rfl⟩ | ⟨message, rfl, ⟨r, rfl, -⟩ | ⟨call, m, hcall, -⟩⟩
  · refine .ask trivial fun instant _ => follows_ite (fun _ => ?_) fun _ => ⟨rfl, hquiet⟩
    refine orGivenUp_bind (lost_mapError (ping_heard ⟨rfl, rfl⟩) (up_ne_down hquiet.1)
      fun cause hlost => .heartbeat cause hlost) ?_ fun _ _ h => hfail h
    rintro answer next ⟨m, -, hlog, hidle⟩
    exact .ask trivial fun instant _ => ⟨hidle, hlog ▸ hquiet⟩
  · exact ⟨_, rfl, up_ne_down hquiet.1, .connectionLost error⟩
  · exact .ask trivial fun instant _ => ⟨rfl, hquiet⟩
  · cases hcall

def Desk.Opening (desk : Desk) : Prop := desk.talk.awaiting = none ∧ status desk.log = .opening

theorem opening_ne_down (hopening : status log = .opening) : status log ≠ .down := by
  rw [hopening]
  exact Status.noConfusion

abbrev Desk.Opens (profile : Profile) (desk : Desk) {α : Type} (P : α → Desk → Prop) :
    Desk → Except Failure α → Prop :=
  Desk.OrGivenUp profile fun a next => next.Opening ∧ visit desk.log ⊆ visit next.log ∧ P a next

theorem Filled.mono {log log' : List Happening} {row : KeyRow} (h : Filled log row)
    (hvisit : visit log ⊆ visit log') : Filled log' row := by
  unfold Filled at h ⊢
  split_ifs at h ⊢
  · obtain ⟨value, instant, hvalue, hread, hmem⟩ := h
    exact ⟨value, instant, hvalue, hread, hvisit hmem⟩
  · exact h

theorem visit_answered {m : Message} : visit log ⊆ visit (.answered call m :: log) :=
  List.subset_cons_self _ _

theorem observeRow_follows (hopening : desk.Opening) (hkey : key ∈ profile.keys)
    (pendingChanged : List UInt16) :
    (Tui.observeRow key pendingChanged).Follows (monitoring profile) profile.Tells
      (desk.Opens profile fun _ _ => True) desk := by
  refine follows_ite (fun hobservable => ?_) fun _ => ⟨hopening, List.Subset.refl _, trivial⟩
  refine orGivenUp_bind (lost_mapError (observe_heard ⟨rfl, hopening.1⟩ hkey hobservable)
    (opening_ne_down hopening.2) fun cause hlost => .observe key cause hkey hobservable hlost) ?_
    fun _ _ hnext => hnext
  rintro answer ⟨talk, _⟩ ⟨m, -, rfl, hidle⟩
  exact ⟨⟨hidle, hopening.2⟩, visit_answered, trivial⟩

theorem readRow_follows {row : KeyRow} (hopening : desk.Opening) (hkey : row.info ∈ profile.keys)
    (hrow : row = Tui.initialRow row.info) (pendingChanged : List UInt16) :
    (Tui.readRow row pendingChanged).Follows (monitoring profile) profile.Tells
      (desk.Opens profile fun a next => a.1.info = row.info ∧ Filled next.log a.1) desk := by
  refine follows_ite (fun hreadable => ?_) fun hreadable =>
    ⟨hopening, List.Subset.refl _, rfl, ?_⟩
  · refine orGivenUp_bind (lost_mapError (readValue_heard ⟨rfl, hopening.1⟩ hkey hreadable)
      (opening_ne_down hopening.2) fun cause hlost => .initialRead row.info cause hkey hreadable hlost)
      ?_ fun _ _ hnext => hnext
    rintro ⟨value, changed⟩ ⟨talk, _⟩ ⟨m, hm, rfl, hidle⟩
    obtain rfl := acceptValue_eq_some hm
    refine .ask trivial fun instant _ => ⟨⟨hidle, hopening.2⟩, visit_answered, rfl, ?_⟩
    rw [Filled, if_pos hreadable]
    exact ⟨value, instant, rfl, rfl, List.mem_cons_self⟩
  · rw [Filled, if_neg hreadable]
    exact hrow

theorem setupRow_follows (hopening : desk.Opening) (hkey : key ∈ profile.keys)
    (pendingChanged : List UInt16) :
    (Tui.setupRow (Tui.initialRow key) pendingChanged).Follows (monitoring profile) profile.Tells
      (desk.Opens profile fun a next => a.1.info = key ∧ Filled next.log a.1) desk := by
  refine orGivenUp_bind (observeRow_follows hopening hkey pendingChanged) ?_ fun _ _ hnext => hnext
  rintro pendingChanged next ⟨hnext, hvisit, -⟩
  refine (readRow_follows hnext hkey rfl pendingChanged).mono fun last r hr => ?_
  cases r with
  | error failure => exact hr
  | ok a => exact ⟨hr.1, List.Subset.trans hvisit hr.2.1, hr.2.2⟩

theorem setupRows_follows {keys : List KeyInfo} (hopening : desk.Opening)
    (hkeys : ∀ key ∈ keys, key ∈ profile.keys) (pendingChanged : List UInt16) :
    (Tui.setupRows (keys.map Tui.initialRow) pendingChanged).Follows (monitoring profile) profile.Tells
      (desk.Opens profile fun a next => a.1.map KeyRow.info = keys ∧ ∀ row ∈ a.1, Filled next.log row)
      desk := by
  induction keys generalizing desk pendingChanged with
  | nil => exact ⟨hopening, List.Subset.refl _, rfl, fun row hrow => by cases hrow⟩
  | cons key keys ih =>
    have hothers : ∀ other ∈ keys, other ∈ profile.keys :=
      fun other hother => hkeys other (List.mem_cons_of_mem _ hother)
    refine orGivenUp_bind (setupRow_follows hopening (hkeys key List.mem_cons_self) pendingChanged)
      ?_ fun _ _ hnext => hnext
    rintro ⟨row, pendingChanged⟩ next ⟨hnext, hvisit, hrow, hfilled⟩
    refine orGivenUp_bind (ih hnext hothers pendingChanged) ?_ fun _ _ hnext => hnext
    rintro ⟨rows, pendingChanged⟩ last ⟨hlast, hlostr, hrows, hall⟩
    refine ⟨hlast, List.Subset.trans hvisit hlostr, ?_, fun other hother => ?_⟩
    · rw [List.map_cons, hrow, hrows]
    · rcases List.mem_cons.mp hother with rfl | hother
      · exact hfilled.mono hlostr
      · exact hall other hother

def Desk.Fetches (P : α → Prop) (desk : Desk) : Except ClientError α → Prop
  | .ok a => desk.Opening ∧ P a
  | .error error => status desk.log = .opening ∧ ∃ io, error = .io io

theorem fetches_bind {β : Type} {P : α → Prop} {Q : β → Prop} {p : Tui.Action ClientError α}
    {f : α → Tui.Action ClientError β}
    (hp : p.Follows (monitoring profile) profile.Tells (Desk.Fetches P) desk)
    (hf : ∀ a next, next.Opening → P a →
      (f a).Follows (monitoring profile) profile.Tells (Desk.Fetches Q) next) :
    (p.bind f).Follows (monitoring profile) profile.Tells (Desk.Fetches Q) desk := by
  refine .bind (hp.mono fun next r hr => ?_)
  cases r with
  | error error => exact hr
  | ok a => exact hf a next hr.1 hr.2

theorem fetches_mapError {P : α → Prop} {p : Tui.Action ClientError α} {f : ClientError → Failure}
    (hp : p.Follows (monitoring profile) profile.Tells (Desk.Fetches P) desk)
    (hf : ∀ log io, Excused profile log (f (.io io))) :
    (p.mapError f).Follows (monitoring profile) profile.Tells
      (Desk.OrGivenUp profile fun a next => next.Opening ∧ P a) desk := by
  refine .mapError (hp.mono fun next r hr => ?_)
  cases r with
  | error error =>
    obtain ⟨hopening, io, rfl⟩ := hr
    exact ⟨opening_ne_down hopening, hf next.log io⟩
  | ok a => exact hr

theorem clientCall_fetches {accept : Message → Except ClientError α} (hopening : desk.Opening)
    {P : α → Prop} (haccept : ∀ m, profile.Replies call m → ∃ a, accept m = .ok a ∧ P a) :
    (Tui.clientCall call accept).Follows (monitoring profile) profile.Tells (Desk.Fetches P) desk := by
  refine (clientCall_follows hopening.1).mono ?_
  rintro next r (⟨error, rfl, hlog⟩ | ⟨m, hm, ⟨hlog, hidle⟩, rfl⟩)
  · exact ⟨hlog ▸ hopening.2, error, rfl⟩
  · obtain ⟨a, ha, hP⟩ := haccept m hm
    rw [ha]
    exact ⟨⟨hidle, hlog ▸ hopening.2⟩, hP⟩

theorem identify_fetches (hopening : desk.Opening) :
    Tui.identify.Follows (monitoring profile) profile.Tells (Desk.Fetches (· = profile.nodeId))
      desk := by
  refine clientCall_fetches hopening fun m hm => ?_
  obtain rfl := hm
  exact ⟨_, rfl, rfl⟩

theorem keyCount_fetches (hopening : desk.Opening) :
    Tui.keyCount.Follows (monitoring profile) profile.Tells (Desk.Fetches (· = profile.table.count))
      desk := by
  refine clientCall_fetches hopening fun m hm => ?_
  obtain rfl := hm
  exact ⟨_, rfl, rfl⟩

theorem key_fetches {n : ℕ} (hopening : desk.Opening) (hn : n < profile.table.count.toNat) :
    (Tui.key (UInt16.ofNat n)).Follows (monitoring profile) profile.Tells
      (Desk.Fetches (· = profile.info n)) desk := by
  refine clientCall_fetches hopening fun m hm => ?_
  rw [Profile.Replies, if_neg (Profile.not_count_le hn)] at hm
  obtain rfl := hm
  exact ⟨_, rfl, rfl⟩

theorem keysOf_fetches {ns : List ℕ} (hopening : desk.Opening)
    (hns : ∀ n ∈ ns, n < profile.table.count.toNat) :
    (Tui.keysOf ns).Follows (monitoring profile) profile.Tells
      (Desk.Fetches (· = ns.map profile.info)) desk := by
  induction ns generalizing desk with
  | nil => exact ⟨hopening, rfl⟩
  | cons n ns ih =>
    have hothers : ∀ m ∈ ns, m < profile.table.count.toNat :=
      fun m hm => hns m (List.mem_cons_of_mem _ hm)
    refine fetches_bind (key_fetches hopening (hns n List.mem_cons_self)) ?_
    rintro info next hnext rfl
    refine fetches_bind (ih hnext hothers) ?_
    rintro infos last hlast rfl
    exact ⟨hlast, rfl⟩

theorem listKeys_fetches (hopening : desk.Opening) :
    Tui.listKeys.Follows (monitoring profile) profile.Tells (Desk.Fetches (· = profile.keys))
      desk := by
  refine fetches_bind (keyCount_fetches hopening) ?_
  rintro count next hnext rfl
  exact keysOf_fetches hnext fun n hn => List.mem_range.mp hn

theorem runConnection_follows (hopening : status desk.log = .opening) :
    Tui.runConnection.Follows (monitoring profile) profile.Tells
      (fun next r => ∃ failure, r = .error failure ∧ next.GivenUp profile failure) desk := by
  obtain ⟨talk, log⟩ := desk
  refine .ask trivial fun reply _ => ?_
  cases reply with
  | error error => exact ⟨_, rfl, opening_ne_down hopening, .connect error⟩
  | ok =>
    have hstart : Desk.Opening ⟨.idle [], log⟩ := ⟨rfl, hopening⟩
    refine orGivenUp_bind (fetches_mapError (identify_fetches hstart) fun _ => .identify) ?_
      fun _ _ hlast => ⟨_, rfl, hlast⟩
    rintro nodeId next ⟨hnext, rfl⟩
    refine orGivenUp_bind (fetches_mapError (listKeys_fetches hnext) fun _ => .keyEnumeration) ?_
      fun _ _ hlast => ⟨_, rfl, hlast⟩
    rintro keys next ⟨hnext, rfl⟩
    refine orGivenUp_bind (setupRows_follows hnext (fun _ hkey => hkey) []) ?_
      fun _ _ hlast => ⟨_, rfl, hlast⟩
    rintro ⟨rows, pendingChanged⟩ next ⟨hnext, -, hrows, hfilled⟩
    have hconnected : MaySend profile next.log (.connected profile.nodeId rows) :=
      ⟨hnext.2, rfl, hrows, hfilled⟩
    refine .bind ((emit_follows hconnected).mono ?_)
    rintro last r (⟨rfl, rfl⟩ | ⟨rfl, rfl⟩)
    · have hlive : Desk.Live { next with log := .sent (.connected profile.nodeId rows) :: next.log } :=
        ⟨hnext.1, rfl, rfl⟩
      refine .ask trivial fun lastTraffic _ => ?_
      refine orGivenUp_bind (drainChangedKeys_follows hlive pendingChanged) ?_
        fun _ _ hlast => ⟨_, rfl, hlast⟩
      exact fun _ last hlast => mainLoop_follows hlast lastTraffic
    · exact ⟨_, rfl, opening_ne_down hnext.2, .viewerClosed⟩

/-- The worker keeps to the rules of its log from one connection to the next. -/
theorem connectionManager_follows (hdown : status desk.log = .down) :
    Tui.connectionManager.Follows (monitoring profile) profile.Tells (fun _ _ => True) desk := by
  refine .iterate (fun _ next => status next.log = .down) hdown ?_
  rintro - next hnext
  have hconnecting : MaySend profile next.log .connecting := hnext
  refine .ask hconnecting fun sent _ => ?_
  cases sent with
  | false => trivial
  | true =>
    have hopening : status (Desk.log { next with log := .sent .connecting :: next.log }) = .opening :=
      rfl
    refine .bind (.attempt ((runConnection_follows hopening).mono ?_))
    rintro last r ⟨failure, rfl, hgivenUp⟩
    have hdisconnected : MaySend profile last.log (.disconnected failure) := hgivenUp
    refine .ask hdisconnected fun sent _ => ?_
    cases sent with
    | false => trivial
    | true => exact .ask trivial fun _ _ => rfl

end

end Qup.EndToEnd
