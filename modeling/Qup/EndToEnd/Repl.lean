import Qup.EndToEnd.Console

/-!
# The REPL

A session of the test client against a node that keeps to its key table: what
the terminal shows is a transcript, in which every command is followed by the
notifications that came while it waited and by its own answer, and only the user
ends the session.
-/

namespace Qup.EndToEnd
open Foundation Foundation.Routine Foundation.Utf8
open Embassy (Server Memory unknownKeyref lamp lampServer lampServer_distinct lampMemory)
open Client (Call ClientError KeyInfo Message Value)
open Cli (Command Failure Line commandLine exchange executeCommand keyCommand parseInputValue
  parseU16 plainCommand printKeys resolveKeyref runRepl)

variable {profile : Profile} {P T : Visit → Prop} {A : List Call → Prop} {α : Type}
  {done : List (Call × Message)} {shown : List Shown}

def plainCall : Command → Option Call
  | .ping => some .ping
  | .caps => some .caps
  | .identify => some .identify
  | _ => none

def keyCall : Command → Option (Str × (UInt16 → Call))
  | .get selector => some (selector, .get)
  | .observe selector => some (selector, .observe)
  | .unobserve selector => some (selector, .unobserve)
  | _ => none

def selectorOf : Command → Option Str
  | .key selector | .get selector | .observe selector | .unobserve selector => some selector
  | .write selector _ _ => some selector
  | _ => none

/-- A selector is a number, or the name of one key of the table that is fetched. -/
inductive Resolves (profile : Profile) (selector : Str) (r : UInt16) :
    List (Call × Message) → Prop where
  | number (h : parseU16 selector.bytes = some r) : Resolves profile selector r []
  | name (h : parseU16 selector.bytes = none) (honly : profile.Only selector r) :
      Resolves profile selector r profile.lookups

/-- Lines that end with an answer; notifications that come before it are shown. -/
inductive Exchanged (profile : Profile) (calls : List Call) (call : Call) (line : Message → Line)
    (m : Message) : List Line → Prop where
  | answered (notices : List UInt16)
      (hnotices : ∀ r ∈ notices, profile.Notifies (calls ++ [call]) r)
      (hreply : profile.Replies call m) :
      Exchanged profile calls call line m
        (notices.map (fun r => .message (.changed r)) ++ [line m])

/-- What a command that succeeds after these calls shows, and its exchanges with the node. -/
inductive Succeeds (profile : Profile) (calls : List Call) :
    Command → List Line → List (Call × Message) → Prop where
  | plain {command : Command} {call : Call} {lines : List Line} {m : Message}
      (hcommand : plainCall command = some call)
      (h : Exchanged profile calls call .message m lines) :
      Succeeds profile calls command lines [(call, m)]
  | keyCount : Succeeds profile calls .keyCount [.count profile.table.count]
      [(.keyCount, .keytabLen profile.table.count)]
  | listKeys : Succeeds profile calls .listKeys (profile.keys.map .keyInfo) profile.lookups
  | key {selector : Str} {r : UInt16} {fetched : List (Call × Message)}
      (hr : Resolves profile selector r fetched) (hlt : r < profile.table.count) :
      Succeeds profile calls (.key selector)
        [.keyInfo ⟨r, profile.table.flags r, profile.table.name r⟩]
        (fetched ++ [(.key r, .key (profile.table.flags r) (profile.table.name r))])
  | onKey {command : Command} {selector : Str} {call : UInt16 → Call} {r : UInt16}
      {fetched : List (Call × Message)} {lines : List Line} {m : Message}
      (hcommand : keyCall command = some (selector, call)) (hr : Resolves profile selector r fetched)
      (h : Exchanged profile (calls ++ fetched.map Prod.fst) (call r) (commandLine r) m lines) :
      Succeeds profile calls command lines (fetched ++ [(call r, m)])
  | write {selector : Str} {kind : Cli.ValueInputKind} {raw : List Str} {value : Value} {r : UInt16}
      {fetched : List (Call × Message)} {lines : List Line} {m : Message}
      (hr : Resolves profile selector r fetched) (hvalue : parseInputValue kind raw = .ok value)
      (h : Exchanged profile (calls ++ fetched.map Prod.fst) (.write r value) (commandLine r) m
        lines) :
      Succeeds profile calls (.write selector kind raw) lines (fetched ++ [(.write r value, m)])
  | heard {timeout : Option ℕ} {r : UInt16} (hr : profile.Notifies calls r) :
      Succeeds profile calls (.read timeout) [.message (.changed r)] []
  | elapsed (ms : ℕ) : Succeeds profile calls (.read (some ms)) [.timeout] []
  | repl : Succeeds profile calls .repl [.alreadyInRepl] []

inductive Fails (profile : Profile) : Command → Failure → List (Call × Message) → Prop where
  | notFound {command : Command} {selector : Str} (hcommand : selectorOf command = some selector)
      (hnumber : parseU16 selector.bytes = none) (hnone : ∀ r, ¬ profile.Named selector r) :
      Fails profile command (.client (.keyNotFound selector)) profile.lookups
  | ambiguous {command : Command} {selector : Str} {r r' : UInt16}
      (hcommand : selectorOf command = some selector) (hnumber : parseU16 selector.bytes = none)
      (hne : r ≠ r') (hr : profile.Named selector r) (hr' : profile.Named selector r') :
      Fails profile command (.client (.ambiguousKey selector)) profile.lookups
  | unknownKey {selector : Str} {r : UInt16} {fetched : List (Call × Message)}
      (hr : Resolves profile selector r fetched) (hle : profile.table.count ≤ r) :
      Fails profile (.key selector)
        (.client (.client (Client.unexpectedMessage .getkey "KEY" (.error unknownKeyref))))
        (fetched ++ [(.key r, .error unknownKeyref)])
  | badValue {selector : Str} {kind : Cli.ValueInputKind} {raw : List Str} {r : UInt16}
      {fetched : List (Call × Message)} {error : Cli.InputError}
      (hr : Resolves profile selector r fetched) (hvalue : parseInputValue kind raw = .error error) :
      Fails profile (.write selector kind raw) (.input error) fetched
  | unsendable {selector : Str} {kind : Cli.ValueInputKind} {raw : List Str} {value : Value}
      {r : UInt16} {fetched : List (Call × Message)} {error : Client.IoError}
      (hr : Resolves profile selector r fetched) (hvalue : parseInputValue kind raw = .ok value)
      (hsend : (Call.write r value).method.send = .error error) :
      Fails profile (.write selector kind raw) (.io error) fetched

/-- What the terminal shows at a prompt, and the exchanges with the node so far. -/
inductive Transcript (profile : Profile) : List Shown → List (Call × Message) → Prop where
  | start : Transcript profile [] []
  | blank {shown : List Shown} {done : List (Call × Message)} (h : Transcript profile shown done) :
      Transcript profile (shown ++ [.read .blank]) done
  | help {shown : List Shown} {done : List (Call × Message)} (h : Transcript profile shown done) :
      Transcript profile (shown ++ [.read .help, .printed .helpText]) done
  | rejected {shown : List Shown} {done : List (Call × Message)}
      (h : Transcript profile shown done) :
      Transcript profile (shown ++ [.read .rejected, .printed .parseError]) done
  | command {shown : List Shown} {done exchanges : List (Call × Message)} {command : Command}
      {lines : List Line} (h : Transcript profile shown done)
      (hcommand : Succeeds profile (done.map Prod.fst) command lines exchanges) :
      Transcript profile (shown ++ .read (.command command) :: lines.map .printed)
        (done ++ exchanges)

def resting (done : List (Call × Message)) (shown : List Shown) : Visit := ⟨.idle done, shown⟩

def printed (shown : List Shown) (lines : List Line) : List Shown := shown ++ lines.map .printed

theorem printed_printed (shown : List Shown) (lines lines' : List Line) :
    printed (printed shown lines) lines' = printed shown (lines ++ lines') := by
  simp [printed]

def Free : Visit → Prop := fun _ => True

def Any : List Call → Prop := fun _ => True

def Heard (profile : Profile) (done : List (Call × Message)) (shown : List Shown) (call : Call)
    (m : Message) (visit : Visit) : Prop :=
  ∃ notices : List UInt16, (∀ r ∈ notices, profile.Notifies (done.map Prod.fst ++ [call]) r) ∧
    profile.Replies call m ∧ visit = resting (done ++ [(call, m)])
      (printed shown (notices.map fun r => .message (.changed r)))

theorem Heard.print {call : Call} {m : Message} {visit : Visit}
    (h : Heard profile done shown call m visit) (line : Message → Line) :
    ∃ lines, Exchanged profile (done.map Prod.fst) call line m lines ∧
      visit.print (line m) = resting (done ++ [(call, m)]) (printed shown lines) := by
  obtain ⟨notices, hnotices, hreply, rfl⟩ := h
  refine ⟨_, .answered notices hnotices hreply, ?_⟩
  rw [← printed_printed]
  rfl

theorem readRequestResponse_prints {call : Call} :
    Cli.readRequestResponse.Follows (consoling Any P Free) profile.Meets
      (fun visit r => ∃ m, Heard profile done shown call m visit ∧ r = .ok m)
      ⟨⟨done, some call⟩, shown⟩ := by
  refine .iterate (fun _ visit => ∃ notices : List UInt16,
    (∀ r ∈ notices, profile.Notifies (done.map Prod.fst ++ [call]) r) ∧
      visit = ⟨⟨done, some call⟩, printed shown (notices.map fun r => .message (.changed r))⟩)
    ⟨[], ⟨fun _ hr => (List.not_mem_nil hr).elim, by simp [printed]⟩⟩ ?_
  rintro - visit ⟨notices, hnotices, rfl⟩
  refine ⟨trivial, fun reply hreply => ?_⟩
  rcases hreply with ⟨r, rfl, hr⟩ | ⟨call', m, hcall, rfl, hm⟩
  · refine ⟨trivial, fun _ _ => ⟨notices ++ [r], fun r' hr' => ?_, ?_⟩⟩
    · rcases List.mem_append.mp hr' with hr' | hr'
      · exact hnotices r' hr'
      · rw [List.mem_singleton.mp hr']
        exact hr
    · rw [List.map_append, ← printed_printed]
      rfl
  · cases hcall
    have hne := hm.ne_changed
    cases m with
    | changed r => exact absurd rfl (hne r)
    | _ => exact ⟨_, ⟨notices, hnotices, hm, rfl⟩, rfl⟩

theorem exchange_follows (call : Call) :
    (exchange call).Follows (consoling Any P Free) profile.Meets
      (fun visit r => (∃ error, call.method.send = .error error ∧ visit = resting done shown ∧
        r = .error (.io error)) ∨ ∃ m, Heard profile done shown call m visit ∧ r = .ok m)
      (resting done shown) := by
  refine ⟨⟨rfl, trivial⟩, fun sent hsent => ?_⟩
  change sent = _ at hsent
  subst hsent
  cases hsend : call.method.send with
  | error error => exact .inl ⟨error, rfl, rfl, rfl⟩
  | ok frame => exact readRequestResponse_prints.mono fun visit r hr => .inr hr

theorem exchange_answered {call : Call} (h : ∀ r value, call ≠ .write r value) :
    (exchange call).Follows (consoling Any P Free) profile.Meets
      (fun visit r => ∃ m, Heard profile done shown call m visit ∧ r = .ok m)
      (resting done shown) := by
  refine (exchange_follows call).mono fun visit r hr => hr.resolve_left ?_
  rintro ⟨error, herror, -⟩
  obtain ⟨frame, hframe⟩ := exists_frame h
  rw [hframe] at herror
  cases herror

theorem resolveKeyref_follows (selector : Str) :
    (resolveKeyref selector).Follows (consoling Any P Free) profile.Meets
      (fun visit r => (∃ keyref fetched, Resolves profile selector keyref fetched ∧
        visit = resting (done ++ fetched) shown ∧ r = .ok keyref) ∨
          ∃ failure, (∀ command, selectorOf command = some selector →
            Fails profile command failure profile.lookups) ∧
              visit = resting (done ++ profile.lookups) shown ∧ r = .error failure)
      (resting done shown) := by
  unfold resolveKeyref
  cases hparse : parseU16 selector.bytes with
  | some keyref =>
    exact .inl ⟨keyref, [], .number hparse, by rw [List.append_nil], rfl⟩
  | none =>
    have hnamed := @resolveKeyrefByName_follows profile Any done selector fun _ _ => trivial
    refine .mapError ((client_follows hnamed).mono ?_)
    rintro ⟨talk, shown'⟩ r ⟨⟨htalk, rfl⟩, hshown⟩
    obtain rfl : talk = .idle (done ++ profile.lookups) := htalk
    obtain rfl : shown' = shown := hshown
    rcases profile.select_cases selector with
      ⟨key, hselect, honly⟩ | ⟨hselect, hnone⟩ | ⟨hselect, r, r', hne, hr, hr'⟩
    · rw [hselect]
      exact .inl ⟨key.keyref, profile.lookups, .name hparse honly, rfl, rfl⟩
    · rw [hselect]
      exact .inr ⟨_, fun command hcommand => .notFound hcommand hparse hnone, rfl, rfl⟩
    · rw [hselect]
      exact .inr ⟨_, fun command hcommand => .ambiguous hcommand hparse hne hr hr', rfl, rfl⟩

def Performs (profile : Profile) (done : List (Call × Message)) (shown : List Shown)
    (command : Command) (visit : Visit) (r : Except Failure Bool) : Prop :=
  (∃ lines exchanges, Succeeds profile (done.map Prod.fst) command lines exchanges ∧
    visit = resting (done ++ exchanges) (printed shown lines) ∧ r = .ok true) ∨
      ∃ failure exchanges, Fails profile command failure exchanges ∧
        visit = resting (done ++ exchanges) shown ∧ r = .error failure

theorem plainCommand_follows {command : Command} {call : Call}
    (hcommand : plainCall command = some call) (h : ∀ r value, call ≠ .write r value) :
    (plainCommand call).Follows (consoling Any P Free) profile.Meets
      (Performs profile done shown command) (resting done shown) := by
  refine .bind ((exchange_answered h).mono ?_)
  rintro visit r ⟨m, hm, rfl⟩
  obtain ⟨lines, hlines, hprint⟩ := hm.print .message
  exact ⟨trivial, fun _ _ => .inl ⟨lines, _, .plain hcommand hlines, hprint, rfl⟩⟩

theorem resolving {command : Command} {selector : Str} (hselector : selectorOf command = some selector)
    {next : UInt16 → Cli.Action Failure Bool}
    (h : ∀ keyref fetched, Resolves profile selector keyref fetched →
      (next keyref).Follows (consoling Any P Free) profile.Meets
        (Performs profile done shown command) (resting (done ++ fetched) shown)) :
    ((resolveKeyref selector).bind next).Follows (consoling Any P Free) profile.Meets
      (Performs profile done shown command) (resting done shown) := by
  refine .bind ((resolveKeyref_follows selector).mono ?_)
  rintro visit r (⟨keyref, fetched, hkeyref, rfl, rfl⟩ | ⟨failure, hfailure, rfl, rfl⟩)
  · exact h keyref fetched hkeyref
  · exact .inr ⟨failure, _, hfailure command hselector, rfl, rfl⟩

theorem keyCommand_follows {command : Command} {selector : Str} {call : UInt16 → Call}
    (hcommand : keyCall command = some (selector, call))
    (hselector : selectorOf command = some selector) (h : ∀ k r value, call k ≠ .write r value) :
    (keyCommand selector call).Follows (consoling Any P Free) profile.Meets
      (Performs profile done shown command) (resting done shown) := by
  refine resolving hselector fun keyref fetched hkeyref => ?_
  refine .bind ((exchange_answered (h keyref)).mono ?_)
  rintro visit r ⟨m, hm, rfl⟩
  obtain ⟨lines, hlines, hprint⟩ := hm.print (commandLine keyref)
  rw [List.map_append] at hlines
  rw [List.append_assoc] at hprint
  exact ⟨trivial, fun _ _ => .inl ⟨lines, _, .onKey hcommand hkeyref hlines, hprint, rfl⟩⟩

theorem writeCommand_follows (selector : Str) (kind : Cli.ValueInputKind) (raw : List Str) :
    (executeCommand (.write selector kind raw)).Follows (consoling Any P Free) profile.Meets
      (Performs profile done shown (.write selector kind raw)) (resting done shown) := by
  refine resolving rfl fun keyref fetched hkeyref => ?_
  cases hvalue : parseInputValue kind raw with
  | error error => exact .inr ⟨_, fetched, .badValue hkeyref hvalue, rfl, rfl⟩
  | ok value =>
    refine .bind ((exchange_follows _).mono ?_)
    rintro visit r (⟨error, hsend, rfl, rfl⟩ | ⟨m, hm, rfl⟩)
    · exact .inr ⟨_, fetched, .unsendable hkeyref hvalue hsend, rfl, rfl⟩
    · obtain ⟨lines, hlines, hprint⟩ := hm.print (commandLine keyref)
      rw [List.map_append] at hlines
      rw [List.append_assoc] at hprint
      exact ⟨trivial, fun _ _ => .inl ⟨lines, _, .write hkeyref hvalue hlines, hprint, rfl⟩⟩

theorem printKeys_follows (keys : List KeyInfo) {R : Visit → Except Failure Unit → Prop}
    (h : R (resting done (printed shown (keys.map .keyInfo))) (.ok ())) :
    (printKeys keys).Follows (consoling Any P Free) profile.Meets R (resting done shown) := by
  induction keys generalizing shown with
  | nil =>
    have hnil : printed shown (([] : List KeyInfo).map .keyInfo) = shown := List.append_nil _
    rw [hnil] at h
    exact h
  | cons key keys ih =>
    have hcons : printed (shown ++ [.printed (.keyInfo key)]) (keys.map .keyInfo) =
        printed shown ((key :: keys).map .keyInfo) := printed_printed shown [.keyInfo key] _
    rw [← hcons] at h
    exact ⟨trivial, fun _ _ => ih h⟩

theorem heard_resting {message : Except ClientError Message}
    (h : profile.Promises (.idle done) .nextMessage message) :
    ∃ r, message = .ok (.changed r) ∧ profile.Notifies (done.map Prod.fst) r := by
  rcases h with ⟨r, rfl, hr⟩ | ⟨call, m, hcall, -⟩
  · rw [Talk.calls_idle] at hr
    exact ⟨r, rfl, hr⟩
  · cases hcall

theorem executeCommand_follows {command : Command} (hexit : command ≠ .exit) :
    (executeCommand command).Follows (consoling Any P Free) profile.Meets
      (Performs profile done shown command) (resting done shown) := by
  have hall : ∀ some : List Call, Any (done.map Prod.fst ++ some) := fun _ => trivial
  cases command with
  | exit => exact absurd rfl hexit
  | ping => exact plainCommand_follows rfl fun _ _ h => by cases h
  | caps => exact plainCommand_follows rfl fun _ _ h => by cases h
  | identify => exact plainCommand_follows rfl fun _ _ h => by cases h
  | get selector => exact keyCommand_follows rfl rfl fun _ _ _ h => by cases h
  | observe selector => exact keyCommand_follows rfl rfl fun _ _ _ h => by cases h
  | unobserve selector => exact keyCommand_follows rfl rfl fun _ _ _ h => by cases h
  | write selector kind raw => exact writeCommand_follows selector kind raw
  | repl => exact ⟨trivial, fun _ _ => .inl ⟨_, [], .repl, by rw [List.append_nil]; rfl, rfl⟩⟩
  | keyCount =>
    refine .bind (awaitMethod_follows ((keyCount_follows (hall _)).mono ?_))
    rintro talk r ⟨rfl, rfl⟩
    exact ⟨trivial, fun _ _ => .inl ⟨_, _, .keyCount, rfl, rfl⟩⟩
  | listKeys =>
    refine .bind (awaitMethod_follows ((listKeys_follows fun some _ => hall some).mono ?_))
    rintro talk r ⟨rfl, rfl⟩
    exact .bind (printKeys_follows _ (.inl ⟨_, _, .listKeys, rfl, rfl⟩))
  | key selector =>
    refine resolving rfl fun keyref fetched hkeyref => ?_
    refine .bind (awaitMethod_follows ((request_answered trivial _ fun _ _ h => by cases h).mono ?_))
    rintro talk r ⟨m, hm, rfl, rfl⟩
    rw [Profile.Replies] at hm
    split_ifs at hm with hle
    · subst hm
      exact .inr ⟨_, _, .unknownKey hkeyref hle, by rw [List.append_assoc]; rfl, rfl⟩
    · subst hm
      refine ⟨trivial, fun _ _ => .inl ⟨_, _, .key hkeyref (UInt16.not_le.mp hle), ?_, rfl⟩⟩
      rw [← List.append_assoc]
      rfl
  | read timeout =>
    cases timeout with
    | none =>
      refine ⟨trivial, fun reply hreply => ?_⟩
      obtain ⟨r, rfl, hr⟩ := heard_resting hreply
      refine ⟨trivial, fun _ _ => .inl ⟨_, [], .heard hr, ?_, rfl⟩⟩
      rw [List.append_nil]
      rfl
    | some ms =>
      refine ⟨trivial, fun reply hreply => ?_⟩
      rcases hreply with rfl | ⟨message, rfl, hmessage⟩
      · refine ⟨trivial, fun _ _ => .inl ⟨_, [], .elapsed ms, ?_, rfl⟩⟩
        rw [List.append_nil]
        rfl
      · obtain ⟨r, rfl, hr⟩ := heard_resting hmessage
        refine ⟨trivial, fun _ _ => .inl ⟨_, [], .heard hr, ?_, rfl⟩⟩
        rw [List.append_nil]
        rfl

def AtPrompt (profile : Profile) (visit : Visit) : Prop :=
  ∃ done shown, visit = resting done shown ∧ Transcript profile shown done

def SessionEnd (profile : Profile) (visit : Visit) (r : Except Failure Unit) : Prop :=
  ∃ done shown, Transcript profile shown done ∧
    ((r = .ok () ∧ (visit = resting done (shown ++ [.read .eof, .printed .newline]) ∨
      visit = resting done (shown ++ [.read (.command .exit)]))) ∨
        ∃ command failure exchanges, Fails profile command failure exchanges ∧
          visit = resting (done ++ exchanges) (shown ++ [.read (.command command)]) ∧
            r = .error failure)

theorem runRepl_follows (profile : Profile) :
    runRepl.Follows (consoling Any (AtPrompt profile) Free) profile.Meets (SessionEnd profile)
      .start := by
  refine .iterate (fun _ visit => AtPrompt profile visit) ⟨[], [], rfl, .start⟩ ?_
  rintro - visit hprompt
  refine ⟨hprompt, fun input _ => ?_⟩
  obtain ⟨done, shown, rfl, htranscript⟩ := hprompt
  cases input with
  | eof =>
    refine ⟨trivial, fun _ _ => ⟨done, shown, htranscript, .inl ⟨rfl, .inl ?_⟩⟩⟩
    exact congrArg (resting done) (List.append_assoc shown _ _)
  | blank => exact ⟨done, _, rfl, htranscript.blank⟩
  | help =>
    refine ⟨trivial, fun _ _ => ⟨done, _, ?_, htranscript.help⟩⟩
    exact congrArg (resting done) (List.append_assoc shown _ _)
  | rejected =>
    refine ⟨trivial, fun _ _ => ⟨done, _, ?_, htranscript.rejected⟩⟩
    exact congrArg (resting done) (List.append_assoc shown _ _)
  | command command =>
    by_cases hexit : command = .exit
    · subst hexit
      exact ⟨done, shown, htranscript, .inl ⟨rfl, .inr rfl⟩⟩
    · change ((executeCommand command).bind _).Follows _ _ _ (resting done (shown ++ _))
      refine .bind ((executeCommand_follows hexit).mono ?_)
      rintro visit r (⟨lines, exchanges, hcommand, rfl, rfl⟩ | ⟨failure, exchanges, hfails, rfl, rfl⟩)
      · refine ⟨_, _, ?_, htranscript.command hcommand⟩
        exact congrArg (resting _) (List.append_assoc shown _ _)
      · exact ⟨done, shown, htranscript, .inr ⟨command, failure, exchanges, hfails, rfl, rfl⟩⟩

section
variable {N : ℕ} {server : Server N} {nodeId : Str}

structure ReplSession (nodeId : Str) (h : TerminalRun server Unit) : Prop where
  prompt : ∀ go, h.routine = .act .readLine go → ∃ done,
    Transcript (Server.profile server nodeId) h.world.shown done ∧
      h.world.node.calls = done.map Prod.fst ∧
        h.world.node.results = done.map fun x => x.1.method.accept x.2
  ended : h.routine = .ret () → ∃ done shown,
    Transcript (Server.profile server nodeId) shown done ∧ h.world.node.calls = done.map Prod.fst ∧
      (h.world.shown = shown ++ [.read .eof, .printed .newline] ∨
        h.world.shown = shown ++ [.read (.command .exit)])
  failed : ∀ failure, h.routine = .fail failure → ∃ done shown command exchanges,
    Transcript (Server.profile server nodeId) shown done ∧
      h.world.shown = shown ++ [.read (.command command)] ∧
        Fails (Server.profile server nodeId) command failure exchanges ∧
          h.world.node.calls = (done ++ exchanges).map Prod.fst

theorem free_lasting : Lasting P Free where
  talk _ _ := trivial
  read _ _ _ := trivial

/-- Every command of a session is answered with its own answer, and only the user
ends the session. -/
theorem repl_session (server : Server N) (hdistinct : server.Distinct) (nodeId : Str)
    (memory : Memory server.keys) (beats : List (Beat (Given Unit) (Act server.keys)))
    (h : TerminalRun server Unit)
    (hrun : Path (terminalStep server nodeId) (fun _ _ => True)
      (terminalStart server nodeId memory runRepl) beats h) : ReplSession nodeId h := by
  obtain ⟨visit, ⟨haccompanies, hshown, -⟩, hfollows⟩ := terminal_run hdistinct free_lasting trivial
    trivial (runRepl_follows _) hrun
  obtain ⟨hcalls, hresults⟩ := haccompanies.results_eq
  refine ⟨fun go hgo => ?_, fun hret => ?_, fun failure hfail => ?_⟩
  · rw [hgo] at hfollows
    obtain ⟨done, shown, rfl, htranscript⟩ := hfollows.1
    exact ⟨done, hshown ▸ htranscript, hcalls.trans (Talk.calls_idle done), hresults⟩
  · rw [hret] at hfollows
    obtain ⟨done, shown, htranscript, ⟨-, hvisit⟩ | ⟨_, _, _, -, -, hr⟩⟩ := hfollows
    · rcases hvisit with rfl | rfl
      · exact ⟨done, shown, htranscript, hcalls.trans (Talk.calls_idle done), .inl hshown⟩
      · exact ⟨done, shown, htranscript, hcalls.trans (Talk.calls_idle done), .inr hshown⟩
    · cases hr
  · rw [hfail] at hfollows
    obtain ⟨done, shown, htranscript, ⟨hr, -⟩ | ⟨command, _, exchanges, hfails, rfl, hr⟩⟩ := hfollows
    · cases hr
    · cases hr
      exact ⟨done, shown, command, exchanges, htranscript, hshown, hfails,
        hcalls.trans (Talk.calls_idle _)⟩

def typeGetLamp : List (Beat (Given Unit) (Act lampServer.keys)) :=
  [.unroll, .request (.terminal (.command (.get lamp.name)))] ++ lampGet.map overNetwork ++
    [.request (.terminal .eof), .unroll]

theorem repl_session_lamp : ∃ h : TerminalRun lampServer Unit,
    Path (terminalStep lampServer Str.empty) (fun _ _ => True)
        (terminalStart lampServer Str.empty lampMemory runRepl) typeGetLamp h ∧
      h.routine.next = some .readLine ∧
        h.world.shown =
            [.read (.command (.get lamp.name)), .printed (.answer 0 (.value (.bool false)))] ∧
          ReplSession Str.empty h := by
  have hrun : (runLabels (terminalStep lampServer Str.empty)
      (terminalStart lampServer Str.empty lampMemory runRepl) typeGetLamp).map
        (fun h => (h.routine.next, h.world.shown)) = some (some .readLine,
          [.read (.command (.get lamp.name)), .printed (.answer 0 (.value (.bool false)))]) := by
    decide +kernel
  obtain ⟨h, hh, hend⟩ := Option.map_eq_some_iff.mp hrun
  obtain ⟨hprompt, hshown⟩ := Prod.mk.inj hend
  have hpath := Path.of_runLabels hh
  exact ⟨h, hpath, hprompt, hshown,
    repl_session lampServer lampServer_distinct Str.empty lampMemory _ h hpath⟩

end

end Qup.EndToEnd
