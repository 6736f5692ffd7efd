import Qup.Tui.Trace

/-!
# What becomes of a change notification

A `CHANGED` that the main loop or one of the three waits has consumed is kept in a
list until its key is read again, except where a write is refused: its wait drops
what it has collected.
-/

namespace Qup.Tui
open Foundation Foundation.Routine Foundation.Utf8 Client

section
variable {α : Type} {trace : List Exchange}

theorem adds_emit {event : NetworkEvent} {sent : Bool} (pendingChanged : List UInt16)
    (hevent : ∀ nodeId rows, event ≠ .connected nodeId rows) :
    Adds pendingChanged pendingChanged [⟨.emit event, sent⟩] :=
  adds_one _ nofun fun nodeId rows h => hevent nodeId rows (Op.emit.inj h)

theorem refreshKey_follows (key : KeyInfo) (pendingChanged : List UInt16) :
    (refreshKey key pendingChanged).Follows tracing Heeds
      (Ends (fun more next => Adds pendingChanged next more ∧ ReadIn key.keyref more) trace)
      trace := by
  refine ends_bind (ends_mapError (requestWithChanges_ends _ _ _ _ _)) ?_
  rintro ⟨value, changed⟩ more hmore
  refine ends_ask nofun fun instant => ends_bind emit_ends ?_
  rintro ⟨⟩ last rfl
  refine ends_ret ⟨?_, ?_⟩
  · exact (responds_adds (fun _ => rfl) hmore pendingChanged).append
      ((adds_now _ instant).append ((adds_emit _ fun _ _ h => by cases h).append (adds_nil _)))
  · obtain ⟨waiting, wait, message, rfl, hvalue, hwaiting⟩ := hmore
    cases message <;> cases hvalue
    exact ⟨[], waiting, wait, value, _, instant, by simp; rfl, hwaiting.waiting, by simp⟩

structure Live (keys : List KeyInfo) (trace : List Exchange) (pendingChanged : List UInt16) : Prop
    extends Owed keys trace pendingChanged where
  delivered : Delivered keys trace

def Lives (keys : List KeyInfo) (pendingChanged : α → List UInt16) (trace : List Exchange) :
    Except Failure α → Prop
  | .ok a => Live keys trace (pendingChanged a)
  | .error _ => True

section
variable {keys : List KeyInfo} {pendingChanged next : List UInt16} {more : List Exchange}

theorem Live.adds (h : Live keys trace pendingChanged) (hmore : Adds pendingChanged next more) :
    Live keys (trace ++ more) next where
  toOwed := h.toOwed.adds hmore
  delivered := delivered_append.mpr (.inl h.delivered)

theorem Live.serves {keyref : UInt16} (h : Live keys trace (pendingChanged ++ [keyref]))
    (hmore : Adds pendingChanged next more)
    (hserved : ∀ key, lookup keys keyref = some key → Served key more) :
    Live keys (trace ++ more) next where
  toOwed := by
    refine h.toOwed.append (fun other hother key hkey => ?_)
      (fun wait other _ hheard _ => hmore.heard wait other hheard)
      fun other hother => absurd hother (hmore.table other)
    rcases List.mem_append.mp hother with hkeep | hlast
    · exact .inl (hmore.keeps other hkeep)
    · rw [List.mem_singleton.mp hlast] at hkey
      exact .inr (hserved key hkey)
  delivered := delivered_append.mpr (.inl h.delivered)

theorem rereadAllReadableKeys_follows (infos : List KeyInfo)
    (h : Live keys trace pendingChanged) :
    (rereadAllReadableKeys infos pendingChanged).Follows tracing Heeds (Lives keys id) trace := by
  induction infos generalizing trace pendingChanged with
  | nil => exact h
  | cons key infos ih =>
    refine follows_ite (fun _ => ih h) fun _ => ?_
    refine .bind ((refreshKey_follows key pendingChanged).mono fun t r hr => ?_)
    match r, hr with
    | .error error, _ => trivial
    | .ok next, ⟨more, ht, hmore, _⟩ =>
      subst ht
      exact ih (h.adds hmore)

theorem lookup_keyref {keyref : UInt16} {key : KeyInfo} (h : lookup keys keyref = some key) :
    key.keyref = keyref := by
  simpa using List.find?_some h

theorem drainChangedKeys_follows (h : Live keys trace pendingChanged) :
    (drainChangedKeys keys pendingChanged).Follows tracing Heeds (Lives keys fun _ => []) trace := by
  refine .iterate (fun pendingChanged t => Live keys t pendingChanged) h ?_
  intro pendingChanged t h
  cases hlast : pendingChanged.getLast? with
  | none =>
    rw [List.getLast?_eq_none_iff.mp hlast] at h
    exact h
  | some keyref =>
    obtain ⟨pendingChanged, rfl⟩ := List.getLast?_eq_some_iff.mp hlast
    simp only [List.dropLast_concat]
    cases hkey : lookup keys keyref with
    | none =>
      have hnothing : Live keys (t ++ []) pendingChanged :=
        h.serves (adds_nil pendingChanged) fun key hother => by rw [hkey] at hother; cases hother
      rw [List.append_nil] at hnothing
      exact hnothing
    | some key =>
      refine follows_ite (fun hreadable => ?_) fun hreadable => ?_
      · refine .bind ((refreshKey_follows key pendingChanged).mono fun t' r hr => ?_)
        match r, hr with
        | .error error, _ => trivial
        | .ok next, ⟨more, ht, hmore, hread⟩ =>
          subst ht
          refine h.serves hmore fun other hother => ?_
          rw [hkey] at hother
          cases hother
          rw [Served, if_pos hreadable]
          exact hread
      · refine .bind (emit_ends.mono fun t' r hr => ?_)
        match r, hr with
        | .error error, _ => trivial
        | .ok (), ⟨more, ht, hmore⟩ =>
          subst ht hmore
          refine h.serves (adds_emit _ nofun) fun other hother => ?_
          rw [hkey] at hother
          cases hother
          rw [Served, if_neg hreadable, lookup_keyref hkey]
          exact List.mem_singleton.mpr rfl

/-- A refused write drops what its wait has collected: no key of the table, by `Heeds`. -/
theorem Live.refused {target : UInt16} {value : Value} {waiting : List Exchange}
    {changed : List UInt16} {wait : Wait} {code : UInt8} (h : Live keys trace pendingChanged)
    (hwaiting : Collects waiting changed)
    (hheeds : Heeds (trace ++ [⟨.send (.write target value), .ok ()⟩] ++ waiting)
      (.nextMessageTimeout wait) (.ok (some (.error code)))) :
    Live keys (trace ++ [⟨.send (.write target value), .ok ()⟩] ++
      (waiting ++ [⟨.nextMessageTimeout wait, .ok (some (.error code))⟩])) pendingChanged := by
  have hsent : Live keys (trace ++ [⟨.send (.write target value), .ok ()⟩]) pendingChanged :=
    h.adds (adds_one _ nofun nofun)
  have hunknown : ∀ wait' keyref, heard wait' keyref ∈ waiting → lookup keys keyref = none := by
    intro wait' keyref hheard
    exact hheeds wait code rfl trace target value waiting (by simp) hwaiting.waiting wait' keyref
      hheard keys (delivered_append.mpr (.inl hsent.delivered))
  have hcollected : Live keys
      (trace ++ [⟨.send (.write target value), .ok ()⟩] ++ waiting) pendingChanged := by
    refine ⟨hsent.toOwed.append (fun other hother _ _ => .inl hother) ?_ ?_, ?_⟩
    · intro wait' keyref key hheard hkey
      rw [hunknown wait' keyref hheard] at hkey
      cases hkey
    · exact fun other hother => absurd hother ((collects_adds hwaiting []).table other)
    · exact delivered_append.mpr (.inl hsent.delivered)
  rw [← List.append_assoc]
  exact hcollected.adds (adds_one _ nofun nofun)

theorem writeValueWithChanges_follows (keyref : UInt16) (value : Value)
    (h : Live keys trace pendingChanged) :
    (writeValueWithChanges keyref value).Follows tracing Heeds (fun t r => match r with
      | .ok (_, changed) => Live keys t (enqueueChangedKeys pendingChanged changed)
      | .error (.request _) => Live keys t pendingChanged
      | .error (.connection _) => True) trace := by
  refine (requestWithChanges_follows _ _ _ _ _).mono fun t r hr => ?_
  match r, hr with
  | .error (.connection _), _ => trivial
  | .ok (written, changed), ⟨waiting, wait, message, ht, hwritten, hwaiting⟩ =>
    subst ht
    rw [List.append_assoc]
    exact h.adds (responds_adds (fun _ => rfl) ⟨waiting, wait, message, rfl, hwritten, hwaiting⟩ _)
  | .error (.request error), .inl ⟨_, hcause⟩ => cases hcause
  | .error (.request error), .inr (.inl ⟨_, hcause⟩) => cases hcause
  | .error (.request error), .inr (.inr ⟨waiting, wait, code, _, ht, ⟨changed, hwaiting⟩, hheeds⟩) =>
    subst ht
    exact h.refused hwaiting hheeds

theorem processCommands_follows (h : Live keys trace pendingChanged) :
    (processCommands keys pendingChanged).Follows tracing Heeds (Lives keys id) trace := by
  refine .iterate (fun pendingChanged t => Live keys t pendingChanged) h ?_
  intro pendingChanged t h
  refine .ask nofun fun command _ => ?_
  have htaken : Live keys (t ++ [⟨.tryRecv, command⟩]) pendingChanged :=
    h.adds (adds_one _ nofun nofun)
  match command, htaken with
  | none, htaken => exact htaken
  | some .refreshAllReadable, htaken =>
    refine .bind ((rereadAllReadableKeys_follows keys htaken).mono fun t r hr => ?_)
    match r, hr with
    | .error error, _ => trivial
    | .ok next, hr => exact hr
  | some (.writeValue keyref value), htaken =>
    refine .bind (.attempt ((writeValueWithChanges_follows keyref value htaken).mono
      fun t r hr => ?_))
    match r, hr with
    | .error (.connection error), _ => trivial
    | .error (.request error), hr =>
      refine .bind (emit_ends.mono fun t' r hr' => ?_)
      match r, hr' with
      | .error error, _ => trivial
      | .ok (), ⟨more, ht, hmore⟩ =>
        subst ht hmore
        exact hr.adds (adds_emit _ nofun)
    | .ok (written, changed), hr =>
      refine .ask nofun fun instant _ => .bind (emit_ends.mono fun t' r hr' => ?_)
      match r, hr' with
      | .error error, _ => trivial
      | .ok (), ⟨more, ht, hmore⟩ =>
        subst ht hmore
        exact (hr.adds (adds_now _ instant)).adds (adds_emit _ nofun)

end

def Grows (pendingChanged : List UInt16) (next : α → List UInt16) (more : List Exchange) (a : α) :
    Prop := Adds pendingChanged (next a) more

theorem readRequestResponse_ends :
    readRequestResponse.Follows tracing Heeds (Ends (Grows [] fun _ => []) trace) trace := by
  refine .iterate (fun _ t => ∃ more, t = trace ++ more ∧ Adds [] [] more)
    ⟨[], (List.append_nil _).symm, adds_nil []⟩ ?_
  rintro ⟨⟩ t ⟨more, rfl, hmore⟩
  refine .ask nofun fun reply _ => ?_
  have hread : Adds [] [] (more ++ [(⟨.nextMessage, reply⟩ : Exchange)]) :=
    hmore.append (adds_one [] nofun nofun)
  match reply, hread with
  | .error error, _ => trivial
  | .ok (.changed keyref), hread => exact ⟨_, List.append_assoc _ _ _, hread⟩
  | .ok .ok, hread | .ok (.caps _), hread | .ok (.identified _), hread
  | .ok (.keytabLen _), hread | .ok (.key _ _), hread | .ok (.value _), hread
  | .ok (.written _), hread | .ok (.error _), hread => exact ⟨_, List.append_assoc _ _ _, hread⟩

theorem clientCall_ends (call : Call) (accept : Message → Except ClientError α) :
    (clientCall call accept).Follows tracing Heeds (Ends (Grows [] fun _ => []) trace) trace := by
  refine ends_ask nofun fun sent => ?_
  have hsent : Adds [] [] [(⟨.send call, sent⟩ : Exchange)] := adds_one [] nofun nofun
  match sent, hsent with
  | .error error, _ => trivial
  | .ok (), hsent =>
    refine ends_bind readRequestResponse_ends fun message more hmore => ?_
    cases haccept : accept message with
    | error error => trivial
    | ok answer => exact ends_ret (hsent.append (hmore.append (adds_nil [])))

theorem keysOf_ends (keyrefs : List ℕ) :
    (keysOf keyrefs).Follows tracing Heeds (Ends (Grows [] fun _ => []) trace) trace := by
  induction keyrefs generalizing trace with
  | nil => exact ends_ret (adds_nil [])
  | cons keyref keyrefs ih =>
    refine ends_bind (clientCall_ends _ _) fun info more hmore => ?_
    refine ends_bind ih fun infos last hlast => ?_
    exact ends_ret (hmore.append (hlast.append (adds_nil [])))

theorem listKeys_ends :
    listKeys.Follows tracing Heeds (Ends (Grows [] fun _ => []) trace) trace :=
  ends_bind (clientCall_ends _ _) fun _ _ hmore =>
    (keysOf_ends _).mono fun _ r hr => by
      match r, hr with
      | .error error, _ => trivial
      | .ok infos, ⟨last, ht, hlast⟩ => exact ⟨last, ht, hmore.append hlast⟩

theorem observeRow_ends (key : KeyInfo) (pendingChanged : List UInt16) :
    (observeRow key pendingChanged).Follows tracing Heeds (Ends (Grows pendingChanged id) trace)
      trace := by
  refine follows_ite (fun _ => ?_) fun _ => ends_ret (adds_nil pendingChanged)
  refine ends_bind (ends_mapError (requestWithChanges_ends _ _ _ _ _)) ?_
  rintro ⟨⟨⟩, changed⟩ more hmore
  exact ends_ret ((responds_adds (fun _ => rfl) hmore pendingChanged).append (adds_nil _))

theorem setupRow_ends (row : KeyRow) (pendingChanged : List UInt16) :
    (setupRow row pendingChanged).Follows tracing Heeds
      (Ends (fun more r => Adds pendingChanged r.2 more ∧ r.1.info = row.info) trace) trace := by
  refine ends_bind (observeRow_ends row.info pendingChanged) fun next more hmore => ?_
  refine follows_ite (fun _ => ?_) fun _ => ends_ret ⟨hmore.append (adds_nil _), rfl⟩
  refine ends_bind (ends_mapError (requestWithChanges_ends _ _ _ _ _)) ?_
  rintro ⟨value, changed⟩ last hlast
  refine ends_ask nofun fun instant => ends_ret ⟨?_, rfl⟩
  exact hmore.append ((responds_adds (fun _ => rfl) hlast next).append
    ((adds_now _ instant).append (adds_nil _)))

theorem setupRows_ends (rows : List KeyRow) (pendingChanged : List UInt16) :
    (setupRows rows pendingChanged).Follows tracing Heeds
      (Ends (fun more r => Adds pendingChanged r.2 more ∧
        r.1.map KeyRow.info = rows.map KeyRow.info) trace) trace := by
  induction rows generalizing trace pendingChanged with
  | nil => exact ends_ret ⟨adds_nil pendingChanged, rfl⟩
  | cons row rows ih =>
    refine ends_bind (setupRow_ends row pendingChanged) ?_
    rintro ⟨row', next⟩ more ⟨hmore, hrow⟩
    refine ends_bind (ih next) ?_
    rintro ⟨rows', last⟩ after ⟨hafter, hrows⟩
    exact ends_ret ⟨hmore.append (hafter.append (adds_nil _)), by
      rw [List.map_cons, List.map_cons, hrow, hrows]⟩

theorem Live.followed {keys : List KeyInfo} (h : Live keys trace []) :
    ∃ keys, (∀ other, Delivered other trace ↔ other = keys) ∧ Followed keys trace := by
  refine ⟨keys, fun other => ⟨h.table other, fun hother => hother ▸ h.delivered⟩, ?_⟩
  intro before wait keyref after key hsplit hkey
  exact (h.due before wait keyref after key hsplit hkey).resolve_left nofun

theorem mainLoop_follows {keys : List KeyInfo} (lastTraffic : ℕ) (h : Live keys trace []) :
    (mainLoop keys lastTraffic).Follows tracing Heeds (fun _ _ => True) trace := by
  refine .iterate (fun x t => Live keys t x.1) h ?_
  rintro ⟨pendingChanged, lastTraffic⟩ t h
  refine .bind ((processCommands_follows h).mono fun t r hr => ?_)
  match r, hr with
  | .error error, _ => trivial
  | .ok next, hr =>
    refine .bind ((drainChangedKeys_follows hr).mono fun t r hr => ?_)
    match r, hr with
    | .error error, _ => trivial
    | .ok (), hr =>
      refine .ask (fun _ => hr.followed) fun reply _ => ?_
      match reply with
      | .ok (some (.changed keyref)) =>
        have hheard : Adds [] (enqueueChangedKey [] keyref) [heard .networkPoll keyref] :=
          (collects_adds (collects_heard (List.mem_singleton.mpr rfl)) [])
        exact .ask nofun fun instant _ => (hr.adds hheard).adds (adds_now _ instant)
      | .ok none =>
        have hquiet : Live keys (t ++ [⟨.nextMessageTimeout .networkPoll, .ok none⟩]) [] :=
          hr.adds (adds_one _ nofun nofun)
        refine .ask nofun fun instant _ => ?_
        refine follows_ite (fun _ => ?_) fun _ => hquiet.adds (adds_now _ instant)
        refine .bind (ends_mapError (requestWithChanges_ends _ _ _ _ _) |>.mono fun t r hr => ?_)
        match r, hr with
        | .error error, _ => trivial
        | .ok ((), changed), ⟨more, ht, hmore⟩ =>
          subst ht
          refine .ask nofun fun later _ => ?_
          exact ((hquiet.adds (adds_now _ instant)).adds
            (responds_adds (fun _ => rfl) hmore [])).adds (adds_now _ later)
      | .ok (some .ok) | .ok (some (.caps _)) | .ok (some (.identified _))
      | .ok (some (.keytabLen _)) | .ok (some (.key _ _)) | .ok (some (.value _))
      | .ok (some (.written _)) | .ok (some (.error _)) | .error _ => trivial

theorem Adds.live {keys : List KeyInfo} {pendingChanged : List UInt16} {more : List Exchange}
    {rows : List KeyRow} (h : Adds [] pendingChanged more) (nodeId : Str)
    (hrows : rows.map KeyRow.info = keys) :
    Live keys (more ++ [⟨.emit (.connected nodeId rows), true⟩]) pendingChanged where
  table other hother := by
    rcases delivered_append.mp hother with hmore | ⟨_, rows', _, hmem, hother⟩
    · exact absurd hmore (h.table other)
    · cases List.mem_singleton.mp hmem
      exact hother.trans hrows
  due before wait keyref after key hsplit _ := by
    have hheard : Tui.heard wait keyref ∈ more ++
        [(⟨.emit (.connected nodeId rows), true⟩ : Exchange)] := by simp [hsplit]
    rcases List.mem_append.mp hheard with hmore | hlast
    · exact .inl (h.heard wait keyref hmore)
    · cases List.mem_singleton.mp hlast
  delivered := ⟨nodeId, rows, true, by simp, hrows.symm⟩

theorem runConnection_follows :
    runConnection.Follows tracing Heeds (fun _ _ => True) [] := by
  refine .ask nofun fun connected _ => ?_
  match connected with
  | .error error => trivial
  | .ok () =>
    have hconnected : Adds [] [] [(⟨.connect, .ok ()⟩ : Exchange)] := adds_one _ nofun nofun
    refine .bind (ends_mapError (clientCall_ends _ _) |>.mono fun t r hr => ?_)
    match r, hr with
    | .error error, _ => trivial
    | .ok nodeId, ⟨identified, ht, hidentified⟩ =>
      subst ht
      refine .bind (ends_mapError listKeys_ends |>.mono fun t r hr => ?_)
      match r, hr with
      | .error error, _ => trivial
      | .ok keys, ⟨listed, ht, hlisted⟩ =>
        subst ht
        refine .bind ((setupRows_ends _ _).mono fun t r hr => ?_)
        match r, hr with
        | .error error, _ => trivial
        | .ok (rows, pendingChanged), ⟨more, ht, hmore, hrows⟩ =>
          subst ht
          refine .bind (emit_ends.mono fun t r hr => ?_)
          match r, hr with
          | .error error, _ => trivial
          | .ok (), ⟨last, ht, hlast⟩ =>
            subst ht hlast
            have hrows : rows.map KeyRow.info = keys := by
              rw [hrows, List.map_map]
              exact List.map_id keys
            have hlive :=
              (((hconnected.append hidentified).append hlisted).append hmore).live nodeId hrows
            refine .ask nofun fun lastTraffic _ => ?_
            refine .bind ((drainChangedKeys_follows (hlive.adds (adds_now _ lastTraffic))).mono
              fun t r hr => ?_)
            match r, hr with
            | .error error, _ => trivial
            | .ok (), hr => exact mainLoop_follows lastTraffic hr

end

/-- No write is refused after its wait has consumed a `CHANGED` of a key in the table. -/
def Heeding (s : Worker) : Turn → Prop
  | .answer o r => Heeds s.trace o r
  | .unroll => True

theorem step_follows {s s' : Worker} {turn : Turn}
    (h : s.routine.Follows tracing Heeds (fun _ _ => True) s.trace) (hturn : Heeding s turn)
    (hs : s.step turn = some s') : s'.routine.Follows tracing Heeds (fun _ _ => True) s'.trace := by
  cases turn with
  | answer o r =>
    obtain ⟨routine, hroutine, rfl⟩ := Option.map_eq_some_iff.mp hs
    exact h.answer hroutine hturn
  | unroll =>
    obtain ⟨routine, hroutine, rfl⟩ := Option.map_eq_some_iff.mp hs
    exact h.unroll hroutine

/-- Back in the main loop with nothing pending, every notification has been followed. -/
theorem changes_followed {s : Worker} {turns : List Turn}
    (hp : Path Worker.step Heeding .initial turns s)
    (hpoll : s.routine.next = some (.nextMessageTimeout .networkPoll)) :
    ∃ keys, (∀ other, Delivered other s.trace ↔ other = keys) ∧ Followed keys s.trace := by
  have hfollows : s.routine.Follows tracing Heeds (fun _ _ => True) s.trace :=
    hp.invariant (fun s => s.routine.Follows tracing Heeds (fun _ _ => True) s.trace)
      runConnection_follows fun _ _ _ h hturn hs => step_follows h hturn hs
  exact hfollows.allows hpoll rfl

def Turn.exchange : Turn → Option Exchange
  | .answer o r => some ⟨o, r⟩
  | .unroll => none

theorem trace_of_path {P : Worker → Turn → Prop} {s s' : Worker} {turns : List Turn}
    (hp : Path Worker.step P s turns s') : s'.trace = s.trace ++ turns.filterMap Turn.exchange := by
  induction hp with
  | nil => exact (List.append_nil _).symm
  | @snoc t u turns turn _ _ hs ih =>
    rw [List.filterMap_append, ← List.append_assoc, ← ih]
    cases turn with
    | answer o r =>
      obtain ⟨routine, -, rfl⟩ := Option.map_eq_some_iff.mp hs
      rfl
    | unroll =>
      obtain ⟨routine, -, rfl⟩ := Option.map_eq_some_iff.mp hs
      exact (List.append_nil _).symm

def onlyKey : KeyInfo := ⟨0, ⟨0b111, by decide⟩, Str.empty⟩

def call (request : Call) (response : Message) : List Turn :=
  [.answer (.send request) (.ok ()), .unroll, .answer .nextMessage (.ok response)]

def request (request : Call) (messages : List Message) : List Turn :=
  [.answer (.send request) (.ok ()), .answer .now 0] ++ messages.flatMap fun message =>
    [.unroll, .answer .now 0,
      .answer (.nextMessageTimeout (.response requestTimeout)) (.ok (some message))]

def commanded : List Turn :=
  [.answer .connect (.ok ())] ++ call .identify (.identified Str.empty) ++
    call .keyCount (.keytabLen 1) ++ call (.key 0) (.key onlyKey.keyflags onlyKey.name) ++
    request (.observe 0) [.ok] ++ request (.get 0) [.value (.bool false)] ++
    [.answer .now 0,
      .answer (.emit (.connected Str.empty [⟨onlyKey, .formatted (.bool false), some 0⟩])) true,
      .answer .now 0, .unroll, .unroll, .unroll,
      .answer .tryRecv (some (.writeValue 0 (.bool true)))]

def written : List Turn :=
  commanded ++ request (.write 0 (.bool true)) [.changed 0, .written (.bool true)] ++
    [.answer .now 0, .answer (.emit (.writeSucceeded 0 (.formatted (.bool true)) 0)) true,
      .unroll, .answer .tryRecv none, .unroll] ++
    request (.get 0) [.value (.bool true)] ++
    [.answer .now 0, .answer (.emit (.valueUpdated 0 (.formatted (.bool true)) (some 0))) true,
      .unroll]

def refused : List Turn :=
  commanded ++ request (.write 0 (.bool true)) [.changed 0, .error 2] ++
    [.answer (.emit (.writeFailed 0 (.requestFailed 2))) true, .unroll, .answer .tryRecv none,
      .unroll]

def Accepting : Turn → Bool
  | .answer (.nextMessageTimeout _) (.ok (some (.error _))) => false
  | _ => true

theorem heeding_of_accepting {s : Worker} {turn : Turn} (h : Accepting turn = true) :
    Heeding s turn := by
  cases turn with
  | answer o r =>
    intro wait code heq
    cases heq
    cases h
  | unroll => trivial

theorem changes_followed_written : ∃ s : Worker,
    Path Worker.step Heeding .initial written s ∧
      s.routine.next = some (.nextMessageTimeout .networkPoll) ∧
      heard (.response requestTimeout) 0 ∈ s.trace ∧ Followed [onlyKey] s.trace := by
  have hrun : (runLabels (fun s turn => if Accepting turn = true then Worker.step s turn else none)
      .initial written).map (fun s => s.routine.next) =
      some (some (.nextMessageTimeout .networkPoll)) := by decide +kernel
  obtain ⟨s, hs, hpoll⟩ := Option.map_eq_some_iff.mp hrun
  have hpath : Path Worker.step Heeding .initial written s :=
    (Path.of_guarded hs).mono fun _ _ h => heeding_of_accepting h
  obtain ⟨keys, htable, hfollowed⟩ := changes_followed hpath hpoll
  have htrace : s.trace = written.filterMap Turn.exchange := trace_of_path hpath
  have hconnected : (⟨.emit (.connected Str.empty [⟨onlyKey, .formatted (.bool false), some 0⟩]),
      true⟩ : Exchange) ∈ s.trace := by
    rw [htrace]
    exact @List.mem_of_getElem? _ _ 16 _ rfl
  have hkeys : [onlyKey] = keys := (htable _).mp ⟨_, _, _, hconnected, rfl⟩
  refine ⟨s, hpath, hpoll, ?_, hkeys ▸ hfollowed⟩
  rw [htrace]
  exact @List.mem_of_getElem? _ _ 22 _ rfl

theorem change_dropped_by_refused_write : ¬ ∀ (turns : List Turn) (s : Worker),
    Path Worker.step (fun _ _ => True) .initial turns s →
      s.routine.next = some (.nextMessageTimeout .networkPoll) →
        ∀ keys, Delivered keys s.trace → Followed keys s.trace := by
  intro hall
  have hrun : (runLabels Worker.step .initial refused).map (fun s => s.routine.next) =
      some (some (.nextMessageTimeout .networkPoll)) := by decide +kernel
  obtain ⟨s, hs, hpoll⟩ := Option.map_eq_some_iff.mp hrun
  have hpath := Path.of_runLabels hs
  have htrace : s.trace = refused.filterMap Turn.exchange := trace_of_path hpath
  have hconnected : (⟨.emit (.connected Str.empty [⟨onlyKey, .formatted (.bool false), some 0⟩]),
      true⟩ : Exchange) ∈ s.trace := by
    rw [htrace]
    exact @List.mem_of_getElem? _ _ 16 _ rfl
  have hserved : Served onlyKey [⟨.now, (0 : ℕ)⟩, ⟨.nextMessageTimeout (.response requestTimeout),
      .ok (some (.error 2))⟩, ⟨.emit (.writeFailed 0 (.requestFailed 2)), true⟩,
      ⟨.tryRecv, none⟩] := by
    refine hall refused s hpath hpoll [onlyKey] ⟨_, _, _, hconnected, rfl⟩
      ((refused.filterMap Turn.exchange).take 22) (.response requestTimeout) 0 _ onlyKey ?_ rfl
    rw [htrace]
    rfl
  obtain ⟨before, waiting, wait, value, after, instant, hsplit, -⟩ := hserved
  change _ = before ++ ⟨.send (.get 0), .ok ()⟩ :: _ at hsplit
  have hget : (⟨.send (.get 0), .ok ()⟩ : Exchange) ∈ before ++ ⟨.send (.get 0), .ok ()⟩ ::
      (waiting ++ ⟨.nextMessageTimeout wait, .ok (some (.value value))⟩ :: after) :=
    List.mem_append_right before List.mem_cons_self
  rw [← hsplit] at hget
  simp at hget

end Qup.Tui
