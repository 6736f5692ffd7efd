import Qup.Tui.Network
import Qup.Foundation.Transition

/-!
# What the worker asks and is answered

One connection of the worker against a node and an interface that do anything,
with everything that was asked and answered, and the rules by which a routine adds
to it. A wait collects the notifications it consumes, unless it fails.
-/

namespace Qup.Tui
open Foundation Foundation.Routine Foundation.Utf8 Client

abbrev Exchange := (o : Op) × o.Res

structure Worker where
  routine : Action Failure Unit
  trace : List Exchange

inductive Turn where
  | answer (o : Op) (r : o.Res)
  | unroll

namespace Worker

def initial : Worker := ⟨runConnection, []⟩

def step (s : Worker) : Turn → Option Worker
  | .answer o r => (s.routine.answer o r).map fun routine => ⟨routine, s.trace ++ [⟨o, r⟩]⟩
  | .unroll => s.routine.unroll.map fun routine => ⟨routine, s.trace⟩

end Worker

def heard (wait : Wait) (keyref : UInt16) : Exchange :=
  ⟨.nextMessageTimeout wait, .ok (some (.changed keyref))⟩

def Waiting (e : Exchange) : Prop :=
  (∃ instant, e = ⟨.now, instant⟩) ∨ ∃ wait keyref, e = heard wait keyref

def Delivered (keys : List KeyInfo) (trace : List Exchange) : Prop :=
  ∃ nodeId rows sent, (⟨.emit (.connected nodeId rows), sent⟩ : Exchange) ∈ trace ∧
    keys = rows.map KeyRow.info

def ReadIn (keyref : UInt16) (trace : List Exchange) : Prop :=
  ∃ before waiting wait value after instant,
    trace = before ++ (⟨.send (.get keyref), .ok ()⟩ : Exchange) ::
      (waiting ++ ⟨.nextMessageTimeout wait, .ok (some (.value value))⟩ :: after) ∧
    (∀ e ∈ waiting, Waiting e) ∧
    (⟨.emit (.valueUpdated keyref (.formatted value) (some instant)), true⟩ : Exchange) ∈ after

/-- What follows a notification of the key. -/
def Served (key : KeyInfo) (trace : List Exchange) : Prop :=
  if key.keyflags.isReadable then ReadIn key.keyref trace
  else (⟨.emit (.valueUpdated key.keyref .changedUnreadable none), true⟩ : Exchange) ∈ trace

/-- Every notification of a key in the table has been followed by what it calls for. -/
def Followed (keys : List KeyInfo) (trace : List Exchange) : Prop :=
  ∀ before wait keyref after key, trace = before ++ heard wait keyref :: after →
    lookup keys keyref = some key → Served key after

/-- A write is not refused after its wait has consumed a `CHANGED` of a key in the table. -/
def Heeds (trace : List Exchange) (o : Op) (r : o.Res) : Prop :=
  ∀ wait code, (⟨o, r⟩ : Exchange) = ⟨.nextMessageTimeout wait, .ok (some (.error code))⟩ →
    ∀ before target value waiting,
      trace = before ++ ⟨.send (.write target value), .ok ()⟩ :: waiting →
        (∀ e ∈ waiting, Waiting e) → ∀ wait keyref, heard wait keyref ∈ waiting →
          ∀ keys, Delivered keys trace → lookup keys keyref = none

/-- All notifications that are still due are pending. -/
structure Owed (keys : List KeyInfo) (trace : List Exchange) (pendingChanged : List UInt16) :
    Prop where
  table : ∀ other, Delivered other trace → other = keys
  due : ∀ before wait keyref after key, trace = before ++ heard wait keyref :: after →
    lookup keys keyref = some key → keyref ∈ pendingChanged ∨ Served key after

theorem readIn_append {keyref : UInt16} {trace : List Exchange} (h : ReadIn keyref trace)
    (more : List Exchange) : ReadIn keyref (trace ++ more) := by
  obtain ⟨before, waiting, wait, value, after, instant, rfl, hwaiting, hemit⟩ := h
  exact ⟨before, waiting, wait, value, after ++ more, instant, by simp, hwaiting,
    List.mem_append_left _ hemit⟩

theorem readIn_prepend {keyref : UInt16} {trace : List Exchange} (h : ReadIn keyref trace)
    (earlier : List Exchange) : ReadIn keyref (earlier ++ trace) := by
  obtain ⟨before, waiting, wait, value, after, instant, rfl, hwaiting, hemit⟩ := h
  exact ⟨earlier ++ before, waiting, wait, value, after, instant, by simp, hwaiting, hemit⟩

theorem served_append {key : KeyInfo} {trace : List Exchange} (h : Served key trace)
    (more : List Exchange) : Served key (trace ++ more) := by
  unfold Served at h ⊢
  split_ifs at h ⊢
  · exact readIn_append h more
  · exact List.mem_append_left _ h

theorem served_prepend {key : KeyInfo} {trace : List Exchange} (h : Served key trace)
    (earlier : List Exchange) : Served key (earlier ++ trace) := by
  unfold Served at h ⊢
  split_ifs at h ⊢
  · exact readIn_prepend h earlier
  · exact List.mem_append_right _ h

theorem delivered_append {keys : List KeyInfo} {trace more : List Exchange} :
    Delivered keys (trace ++ more) ↔ Delivered keys trace ∨ Delivered keys more := by
  constructor
  · rintro ⟨nodeId, rows, sent, hmem, hkeys⟩
    rcases List.mem_append.mp hmem with hmem | hmem
    · exact .inl ⟨nodeId, rows, sent, hmem, hkeys⟩
    · exact .inr ⟨nodeId, rows, sent, hmem, hkeys⟩
  · rintro (⟨nodeId, rows, sent, hmem, hkeys⟩ | ⟨nodeId, rows, sent, hmem, hkeys⟩)
    · exact ⟨nodeId, rows, sent, List.mem_append_left _ hmem, hkeys⟩
    · exact ⟨nodeId, rows, sent, List.mem_append_right _ hmem, hkeys⟩

namespace Owed
variable {keys : List KeyInfo} {trace : List Exchange} {pendingChanged : List UInt16}

theorem append (h : Owed keys trace pendingChanged) {more : List Exchange} {next : List UInt16}
    (hpending : ∀ keyref ∈ pendingChanged, ∀ key, lookup keys keyref = some key →
      keyref ∈ next ∨ Served key more)
    (hheard : ∀ wait keyref key, heard wait keyref ∈ more → lookup keys keyref = some key →
      keyref ∈ next)
    (htable : ∀ other, Delivered other more → other = keys) :
    Owed keys (trace ++ more) next where
  table other hother := (delivered_append.mp hother).elim (h.table other) (htable other)
  due before wait keyref after key hsplit hkey := by
    rcases List.append_eq_append_iff.mp hsplit with ⟨mid, -, hmore⟩ | ⟨mid, htrace, hafter⟩
    · exact .inl (hheard wait keyref key (by simp [hmore]) hkey)
    · cases mid with
      | nil =>
        rw [List.nil_append] at hafter
        exact .inl (hheard wait keyref key (by simp [← hafter]) hkey)
      | cons e mid =>
        obtain ⟨rfl, rfl⟩ := List.cons.inj hafter
        rcases h.due before wait keyref mid key htrace hkey with hold | hserved
        · rcases hpending keyref hold key hkey with hnext | hmore
          · exact .inl hnext
          · exact .inr (served_prepend hmore mid)
        · exact .inr (served_append hserved more)

end Owed

/-- The main loop only waits when every notification has been followed. -/
def tracing : Discipline Op.Res (List Exchange) where
  allows trace o := o = .nextMessageTimeout .networkPoll →
    ∃ keys, (∀ other, Delivered other trace ↔ other = keys) ∧ Followed keys trace
  next trace o r := trace ++ [⟨o, r⟩]

def Collects (waiting : List Exchange) (changed : List UInt16) : Prop :=
  ∀ e ∈ waiting, (∃ instant, e = ⟨.now, instant⟩) ∨
    ∃ wait keyref, e = heard wait keyref ∧ keyref ∈ changed

theorem Collects.mono {waiting : List Exchange} {changed more : List UInt16}
    (h : Collects waiting changed) (hmore : ∀ keyref ∈ changed, keyref ∈ more) :
    Collects waiting more := by
  intro e he
  rcases h e he with hnow | ⟨wait, keyref, heq, hkeyref⟩
  · exact .inl hnow
  · exact .inr ⟨wait, keyref, heq, hmore keyref hkeyref⟩

theorem Collects.append {waiting more : List Exchange} {changed : List UInt16}
    (h : Collects waiting changed) (hmore : Collects more changed) :
    Collects (waiting ++ more) changed := by
  intro e he
  exact (List.mem_append.mp he).elim (h e) (hmore e)

theorem collects_now (instant : ℕ) (changed : List UInt16) :
    Collects [⟨.now, instant⟩] changed :=
  fun _ he => .inl ⟨instant, List.mem_singleton.mp he⟩

theorem collects_heard {wait : Wait} {keyref : UInt16} {changed : List UInt16}
    (h : keyref ∈ changed) : Collects [heard wait keyref] changed :=
  fun _ he => .inr ⟨wait, keyref, List.mem_singleton.mp he, h⟩

theorem Collects.waiting {waiting : List Exchange} {changed : List UInt16}
    (h : Collects waiting changed) : ∀ e ∈ waiting, Waiting e := by
  intro e he
  rcases h e he with hnow | ⟨wait, keyref, heq, -⟩
  · exact .inl hnow
  · exact .inr ⟨wait, keyref, heq⟩

section
variable {ε α : Type} {trace : List Exchange}

def WaitResult (accept : Message → Option α) (refused failed : Failure → ε)
    (trace trace' : List Exchange) : Except ε (α × List UInt16) → Prop
  | .ok (answer, changed) => ∃ waiting wait message,
      trace' = trace ++ (waiting ++ [⟨.nextMessageTimeout wait, .ok (some message)⟩]) ∧
        accept message = some answer ∧ Collects waiting changed
  | .error error => (∃ cause, error = failed cause) ∨ ∃ waiting wait code,
      error = refused (.requestFailed code) ∧
        trace' = trace ++ (waiting ++ [⟨.nextMessageTimeout wait, .ok (some (.error code))⟩]) ∧
        (∃ changed, Collects waiting changed) ∧
        Heeds (trace ++ waiting) (.nextMessageTimeout wait) (.ok (some (.error code)))

theorem takeReply_follows {accept : Message → Option α} {refused failed : Failure → ε}
    {changed : List UInt16} {waiting t : List Exchange} (ht : t = trace ++ waiting)
    (hwaiting : Collects waiting changed) {wait : Wait}
    {reply : Except ClientError (Option Message)}
    (hreply : Heeds t (.nextMessageTimeout wait) reply) :
    (takeReply accept refused failed changed reply).Follows tracing Heeds
      (RoundEnd (fun changed t => ∃ waiting, t = trace ++ waiting ∧ Collects waiting changed)
        (WaitResult accept refused failed trace)) (t ++ [⟨.nextMessageTimeout wait, reply⟩]) := by
  subst ht
  rw [List.append_assoc]
  match reply, hreply with
  | .error error, _ => exact .inl ⟨_, rfl⟩
  | .ok none, _ => exact .inl ⟨_, rfl⟩
  | .ok (some message), hreply =>
    unfold takeReply
    cases hanswer : accept message with
    | some answer =>
      simp only [hanswer]
      exact ⟨waiting, wait, message, rfl, hanswer, hwaiting⟩
    | none =>
      cases message with
      | changed keyref =>
        simp only [hanswer]
        refine ⟨_, rfl, (hwaiting.mono fun other h => ?_).append (collects_heard ?_)⟩
        · exact mem_enqueueChangedKey.mpr (.inl h)
        · exact mem_enqueueChangedKey.mpr (.inr rfl)
      | error code =>
        simp only [hanswer]
        exact .inr ⟨waiting, wait, code, rfl, rfl, ⟨changed, hwaiting⟩, hreply⟩
      | _ =>
        simp only [hanswer]
        exact .inl ⟨_, rfl⟩

theorem waitFor_follows (accept : Message → Option α) (expected : String)
    (refused failed : Failure → ε) :
    (waitFor accept expected refused failed).Follows tracing Heeds
      (WaitResult accept refused failed trace) trace := by
  refine ⟨nofun, fun started _ => ?_⟩
  refine .iterate (fun changed t => ∃ waiting, t = trace ++ waiting ∧ Collects waiting changed)
    ⟨_, rfl, collects_now started []⟩ ?_
  rintro changed t ⟨earlier, rfl, hearlier⟩
  refine ⟨nofun, fun instant _ => follows_ite (fun _ => .inl ⟨_, rfl⟩) fun _ => ?_⟩
  refine ⟨nofun, fun reply hreply => ?_⟩
  have hwaiting : Collects (earlier ++ [⟨.now, instant⟩]) changed :=
    hearlier.append (collects_now instant changed)
  exact takeReply_follows (List.append_assoc _ _ _) hwaiting hreply

def RequestResult (call : Call) (accept : Message → Option α) (refused failed : Failure → ε)
    (trace trace' : List Exchange) : Except ε (α × List UInt16) → Prop
  | .ok result => WaitResult accept refused failed (trace ++ [⟨.send call, .ok ()⟩]) trace'
      (.ok result)
  | .error error => (∃ cause, error = failed cause) ∨
      WaitResult accept refused failed (trace ++ [⟨.send call, .ok ()⟩]) trace' (.error error)

theorem requestWithChanges_follows (call : Call) (accept : Message → Option α)
    (expected : String) (refused failed : Failure → ε) :
    (requestWithChanges call failed (waitFor accept expected refused failed)).Follows tracing Heeds
      (RequestResult call accept refused failed trace) trace := by
  refine ⟨nofun, fun sent _ => ?_⟩
  match sent with
  | .error error => exact .inl ⟨_, rfl⟩
  | .ok () =>
    refine (waitFor_follows accept expected refused failed).mono fun t r hr => ?_
    cases r with
    | ok result => exact hr
    | error error => exact .inr hr

def Ends (Q : List Exchange → α → Prop) (trace trace' : List Exchange) : Except ε α → Prop
  | .ok a => ∃ more, trace' = trace ++ more ∧ Q more a
  | .error _ => True

theorem ends_ret {Q : List Exchange → α → Prop} {a : α} (h : Q [] a) :
    (Routine.ret a : Action ε α).Follows tracing Heeds (Ends Q trace) trace :=
  ⟨[], (List.append_nil _).symm, h⟩

theorem Ends.after {Q : List Exchange → α → Prop} {more t : List Exchange} {r : Except ε α}
    (h : Ends (fun last => Q (more ++ last)) (trace ++ more) t r) : Ends Q trace t r := by
  match r, h with
  | .error error, _ => trivial
  | .ok a, ⟨last, ht, hlast⟩ => exact ⟨more ++ last, by rw [ht, List.append_assoc], hlast⟩

theorem ends_ask {β : Type} {o : Op} {f : o.Res → Action ε β} {Q : List Exchange → β → Prop}
    (ho : o ≠ .nextMessageTimeout .networkPoll)
    (hf : ∀ r, (f r).Follows tracing Heeds
      (Ends (fun last => Q ([⟨o, r⟩] ++ last)) (trace ++ [⟨o, r⟩])) (trace ++ [⟨o, r⟩])) :
    ((Routine.act o .ret).bind f).Follows tracing Heeds (Ends Q trace) trace :=
  .ask (fun h => absurd h ho) fun r _ => (hf r).mono fun _ _ hr => hr.after

theorem ends_bind {β : Type} {p : Action ε α} {f : α → Action ε β}
    {Q : List Exchange → α → Prop} {Q' : List Exchange → β → Prop}
    (hp : p.Follows tracing Heeds (Ends Q trace) trace)
    (hf : ∀ a more, Q more a → (f a).Follows tracing Heeds
      (Ends (fun last => Q' (more ++ last)) (trace ++ more)) (trace ++ more)) :
    (p.bind f).Follows tracing Heeds (Ends Q' trace) trace := by
  refine .bind (hp.mono fun t r hr => ?_)
  match r, hr with
  | .error error, _ => trivial
  | .ok a, ⟨more, ht, hmore⟩ =>
    subst ht
    exact (hf a more hmore).mono fun _ _ hr => hr.after

theorem ends_mapError {ε' : Type} {p : Action ε α} {f : ε → ε'} {Q : List Exchange → α → Prop}
    (hp : p.Follows tracing Heeds (Ends Q trace) trace) :
    (p.mapError f).Follows tracing Heeds (Ends Q trace) trace := by
  refine .mapError (hp.mono fun t r hr => ?_)
  cases r with
  | error error => trivial
  | ok a => exact hr

def Responds (call : Call) (accept : Message → Option α) (more : List Exchange) :
    α × List UInt16 → Prop
  | (answer, changed) => ∃ waiting wait message,
    more = ⟨.send call, .ok ()⟩ :: (waiting ++ [⟨.nextMessageTimeout wait, .ok (some message)⟩]) ∧
      accept message = some answer ∧ Collects waiting changed

theorem requestWithChanges_ends (call : Call) (accept : Message → Option α) (expected : String)
    (refused failed : Failure → ε) :
    (requestWithChanges call failed (waitFor accept expected refused failed)).Follows tracing Heeds
      (Ends (Responds call accept) trace) trace := by
  refine (requestWithChanges_follows call accept expected refused failed).mono fun t r hr => ?_
  match r, hr with
  | .error error, _ => trivial
  | .ok (answer, changed), hr =>
    obtain ⟨waiting, wait, message, rfl, hanswer, hwaiting⟩ := hr
    exact ⟨_, List.append_assoc _ _ _, waiting, wait, message, rfl, hanswer, hwaiting⟩

structure Adds (pendingChanged next : List UInt16) (more : List Exchange) : Prop where
  keeps : ∀ keyref ∈ pendingChanged, keyref ∈ next
  heard : ∀ wait keyref, Tui.heard wait keyref ∈ more → keyref ∈ next
  table : ∀ keys, ¬ Delivered keys more

theorem Owed.adds {keys : List KeyInfo} {pendingChanged next : List UInt16}
    {more : List Exchange} (h : Owed keys trace pendingChanged)
    (hmore : Adds pendingChanged next more) : Owed keys (trace ++ more) next :=
  h.append (fun keyref hkeyref _ _ => .inl (hmore.keeps keyref hkeyref))
    (fun wait keyref _ hheard _ => hmore.heard wait keyref hheard)
    fun other hother => absurd hother (hmore.table other)

theorem Adds.append {pendingChanged next last : List UInt16} {more after : List Exchange}
    (h : Adds pendingChanged next more) (hafter : Adds next last after) :
    Adds pendingChanged last (more ++ after) where
  keeps keyref hkeyref := hafter.keeps keyref (h.keeps keyref hkeyref)
  heard wait keyref hheard := by
    rcases List.mem_append.mp hheard with hmore | hlast
    · exact hafter.keeps keyref (h.heard wait keyref hmore)
    · exact hafter.heard wait keyref hlast
  table keys hkeys := (delivered_append.mp hkeys).elim (h.table keys) (hafter.table keys)

theorem adds_nil (pendingChanged : List UInt16) : Adds pendingChanged pendingChanged [] where
  keeps _ := id
  heard _ _ h := by cases h
  table := by
    rintro keys ⟨nodeId, rows, sent, hmem, -⟩
    cases hmem

theorem adds_one {o : Op} {r : o.Res} (pendingChanged : List UInt16)
    (hheard : ∀ wait keyref, (⟨o, r⟩ : Exchange) ≠ heard wait keyref)
    (hconnected : ∀ nodeId rows, o ≠ .emit (.connected nodeId rows)) :
    Adds pendingChanged pendingChanged [⟨o, r⟩] where
  keeps _ := id
  heard wait keyref h := absurd (List.mem_singleton.mp h).symm (hheard wait keyref)
  table := by
    rintro keys ⟨nodeId, rows, sent, hmem, -⟩
    have heq := List.mem_singleton.mp hmem
    cases heq
    exact hconnected nodeId rows rfl

theorem adds_now (pendingChanged : List UInt16) (instant : ℕ) :
    Adds pendingChanged pendingChanged [⟨.now, instant⟩] := adds_one _ nofun nofun

theorem collects_adds {waiting : List Exchange} {changed : List UInt16}
    (h : Collects waiting changed) (pendingChanged : List UInt16) :
    Adds pendingChanged (enqueueChangedKeys pendingChanged changed) waiting where
  keeps _ hkeyref := mem_enqueueChangedKeys.mpr (.inl hkeyref)
  heard wait keyref hheard := by
    rcases h _ hheard with ⟨instant, heq⟩ | ⟨wait', keyref', heq, hkeyref⟩
    · cases heq
    · cases heq
      exact mem_enqueueChangedKeys.mpr (.inr hkeyref)
  table := by
    rintro keys ⟨nodeId, rows, sent, hmem, -⟩
    rcases h _ hmem with ⟨instant, heq⟩ | ⟨wait, keyref, heq, -⟩
    · cases heq
    · cases heq

theorem responds_adds {call : Call} {accept : Message → Option α} {more : List Exchange}
    {answer : α} {changed : List UInt16} (haccept : ∀ keyref, accept (.changed keyref) = none)
    (h : Responds call accept more (answer, changed)) (pendingChanged : List UInt16) :
    Adds pendingChanged (enqueueChangedKeys pendingChanged changed) more := by
  obtain ⟨waiting, wait, message, rfl, hanswer, hwaiting⟩ := h
  have hresponse : Adds (enqueueChangedKeys pendingChanged changed)
      (enqueueChangedKeys pendingChanged changed)
      [⟨.nextMessageTimeout wait, .ok (some message)⟩] := by
    refine adds_one _ (fun wait' keyref heq => ?_) nofun
    cases heq
    rw [haccept] at hanswer
    cases hanswer
  have hsend : Adds pendingChanged pendingChanged [⟨.send call, .ok ()⟩] := adds_one _ nofun nofun
  exact hsend.append ((collects_adds hwaiting pendingChanged).append hresponse)

theorem emit_ends {event : NetworkEvent} :
    (emit event).Follows tracing Heeds
      (Ends (fun more _ => more = [⟨.emit event, true⟩]) trace) trace := by
  refine ⟨nofun, fun sent _ => ?_⟩
  cases sent with
  | false => trivial
  | true => exact ⟨_, rfl, rfl⟩

end
end Qup.Tui
