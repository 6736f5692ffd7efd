import Qup.Tui.Network

/-!
# When the worker carries out a command

On a connection that has delivered its table, and right after it has taken the
command. What the worker does between such steps is quiet.
-/

namespace Qup.Tui
open Foundation Foundation.Routine Client

structure Stage where
  up : Bool
  held : Option WorkerCommand
  deriving DecidableEq

/-- Commands are only taken when the connection is up, and a `WRITE` is what has been taken. -/
def commanding : Discipline Op.Res Stage where
  allows stage
    | .tryRecv => stage.up = true
    | .send (.write keyref value) =>
      stage.up = true ∧ stage.held = some (.writeValue keyref value)
    | _ => True
  next stage
    | .connect, _ => ⟨false, none⟩
    | .send _, _ => ⟨stage.up, none⟩
    | .emit (.connected _ _), _ => ⟨true, none⟩
    | .emit (.disconnected _), _ => ⟨false, none⟩
    | .tryRecv, command => ⟨stage.up, command⟩
    | _, _ => stage

abbrev Any : Stage → (o : Op) → o.Res → Prop := fun _ _ _ => True

/-- Requests that neither begin nor end a connection, and neither take nor carry out a command. -/
def Quiet : Op → Prop
  | .connect | .tryRecv | .send (.write _ _) | .emit (.connected _ _) | .emit (.disconnected _) =>
    False
  | _ => True

section
variable {ε α : Type} {stage : Stage}

theorem quiet_allowed {o : Op} (h : Quiet o) (stage : Stage) : commanding.allows stage o := by
  cases o with
  | send call =>
    cases call with
    | write keyref value => exact absurd h id
    | _ => trivial
  | tryRecv => exact absurd h id
  | _ => trivial

theorem quiet_up {o : Op} (h : Quiet o) (r : o.Res) :
    (commanding.next stage o r).up = stage.up := by
  cases o with
  | connect => exact absurd h id
  | emit event =>
    cases event with
    | connected nodeId rows => exact absurd h id
    | disconnected error => exact absurd h id
    | _ => rfl
  | _ => rfl

theorem Quiet.follows {p : Action ε α} {R : Stage → Except ε α → Prop} (hp : p.Within Quiet)
    (hR : ∀ next r, next.up = stage.up → R next r) : p.Follows commanding Any R stage :=
  hp.follows (I := fun next => next.up = stage.up) rfl (fun stage _ h _ => quiet_allowed h stage)
    (fun _ _ r h hup => (quiet_up h r).trans hup) hR

theorem takeReply_quiet (accept : Message → Option α) (refused failed : Failure → ε)
    (changed : List UInt16) (reply : Except ClientError (Option Message)) :
    (takeReply accept refused failed changed reply).Within Quiet := by
  match reply with
  | .error error => trivial
  | .ok none => trivial
  | .ok (some message) =>
    unfold takeReply
    cases haccept : accept message with
    | some answer => simp only [haccept, Within]
    | none => cases message <;> simp only [haccept, Within]

theorem waitFor_quiet (accept : Message → Option α) (expected : String)
    (refused failed : Failure → ε) : (waitFor accept expected refused failed).Within Quiet := by
  refine .ask trivial fun started => .iterate fun changed => .ask trivial fun instant => ?_
  exact within_ite trivial (.ask trivial fun reply => takeReply_quiet _ _ _ _ reply)

theorem requestWithChanges_quiet (call : Call) (hcall : Quiet (.send call))
    {failed : Failure → ε} {wait : Action ε (α × List UInt16)} (hwait : wait.Within Quiet) :
    (requestWithChanges call failed wait).Within Quiet := by
  refine .ask hcall fun sent => ?_
  cases sent with
  | error error => trivial
  | ok => exact hwait

theorem observeWithChanges_quiet (keyref : UInt16) : (observeWithChanges keyref).Within Quiet :=
  requestWithChanges_quiet (.observe keyref) trivial (waitFor_quiet _ _ _ _)

theorem readValueWithChanges_quiet (keyref : UInt16) :
    (readValueWithChanges keyref).Within Quiet :=
  requestWithChanges_quiet (.get keyref) trivial (waitFor_quiet _ _ _ _)

theorem pingWithChanges_quiet : pingWithChanges.Within Quiet :=
  requestWithChanges_quiet .ping trivial (waitFor_quiet _ _ _ _)

theorem emit_quiet {event : NetworkEvent} (hevent : Quiet (.emit event)) :
    (emit event).Within Quiet := by
  refine .ask hevent fun sent => ?_
  cases sent <;> trivial

theorem refreshKey_quiet (key : KeyInfo) (pendingChanged : List UInt16) :
    (refreshKey key pendingChanged).Within Quiet := by
  refine .bind (.mapError (readValueWithChanges_quiet key.keyref)) ?_
  rintro ⟨value, changed⟩
  exact .ask trivial fun instant => .bind (emit_quiet trivial) fun _ => trivial

theorem rereadAllReadableKeys_quiet (keys : List KeyInfo) (pendingChanged : List UInt16) :
    (rereadAllReadableKeys keys pendingChanged).Within Quiet := by
  induction keys generalizing pendingChanged with
  | nil => trivial
  | cons key keys ih =>
    exact within_ite (ih pendingChanged) (.bind (refreshKey_quiet key pendingChanged) ih)

theorem drainChangedKeys_quiet (keys : List KeyInfo) (pendingChanged : List UInt16) :
    (drainChangedKeys keys pendingChanged).Within Quiet := by
  refine .iterate fun pendingChanged => ?_
  cases pendingChanged.getLast? with
  | none => trivial
  | some keyref =>
    dsimp only
    cases lookup keys keyref with
    | none => trivial
    | some key =>
      refine within_ite ?_ ?_
      · exact .bind (refreshKey_quiet key _) fun _ => trivial
      · exact .bind (emit_quiet trivial) fun _ => trivial

theorem clientCall_quiet (call : Call) (hcall : Quiet (.send call))
    (accept : Message → Except ClientError α) : (clientCall call accept).Within Quiet := by
  refine .ask hcall fun sent => ?_
  cases sent with
  | error error => trivial
  | ok =>
    have hread : readRequestResponse.Within Quiet := by
      refine .iterate fun _ => .ask trivial fun reply => ?_
      rcases reply with error | message
      · trivial
      · cases message <;> trivial
    refine .bind hread fun message => ?_
    cases accept message <;> trivial

theorem identify_quiet : identify.Within Quiet := clientCall_quiet .identify trivial _

theorem keysOf_quiet (keyrefs : List ℕ) : (keysOf keyrefs).Within Quiet := by
  induction keyrefs with
  | nil => trivial
  | cons keyref keyrefs ih =>
    have hkey : (key (UInt16.ofNat keyref)).Within Quiet := clientCall_quiet (.key _) trivial _
    exact .bind hkey fun _ => .bind ih fun _ => trivial

theorem listKeys_quiet : listKeys.Within Quiet := by
  have hcount : keyCount.Within Quiet := clientCall_quiet .keyCount trivial _
  exact .bind hcount fun _ => keysOf_quiet _

theorem setupRow_quiet (row : KeyRow) (pendingChanged : List UInt16) :
    (setupRow row pendingChanged).Within Quiet := by
  have hobserve : (observeRow row.info pendingChanged).Within Quiet :=
    within_ite (.bind (.mapError (observeWithChanges_quiet _)) fun _ => trivial) trivial
  refine .bind hobserve fun next => within_ite ?_ trivial
  exact .bind (.mapError (readValueWithChanges_quiet _)) fun _ => .ask trivial fun _ => trivial

theorem setupRows_quiet (rows : List KeyRow) (pendingChanged : List UInt16) :
    (setupRows rows pendingChanged).Within Quiet := by
  induction rows generalizing pendingChanged with
  | nil => trivial
  | cons row rows ih =>
    exact .bind (setupRow_quiet row pendingChanged) fun _ => .bind (ih _) fun _ => trivial

def StaysUp : Stage → Except ε α → Prop := fun next _ => next.up = true

theorem roundEnd_staysUp {σ : Type} {next : Stage} (h : next.up = true)
    (r : Except ε (σ ⊕ α)) : RoundEnd (fun _ next => next.up = true) StaysUp next r := by
  rcases r with error | x | b <;> exact h

theorem processCommands_commanding (keys : List KeyInfo) (pendingChanged : List UInt16)
    (h : stage.up = true) :
    (processCommands keys pendingChanged).Follows commanding Any StaysUp stage := by
  refine .iterate (fun _ next => next.up = true) h fun pendingChanged next h => ?_
  refine .ask h fun command _ => ?_
  match command with
  | none => exact h
  | some .refreshAllReadable =>
    have hround : ((rereadAllReadableKeys keys pendingChanged).bind fun pendingChanged =>
        pure (.inl pendingChanged : List UInt16 ⊕ List UInt16)).Within Quiet :=
      .bind (rereadAllReadableKeys_quiet keys pendingChanged) fun _ => trivial
    exact Quiet.follows hround fun last r hup => roundEnd_staysUp (hup.trans h) r
  | some (.writeValue keyref value) =>
    refine .bind (.attempt (.ask ⟨h, rfl⟩ fun sent _ => ?_))
    cases sent with
    | error error => exact h
    | ok =>
      refine Quiet.follows (waitFor_quiet _ _ _ _) fun next r hup => ?_
      match r with
      | .error (.connection error) => exact hup.trans h
      | .error (.request error) =>
        refine Quiet.follows (.bind (emit_quiet trivial) fun _ => trivial) fun last r hlast => ?_
        exact roundEnd_staysUp ((hlast.trans hup).trans h) r
      | .ok (written, changed) =>
        refine Quiet.follows (.ask trivial fun instant => .bind (emit_quiet trivial) fun _ => trivial)
          fun last r hlast => ?_
        exact roundEnd_staysUp ((hlast.trans hup).trans h) r

theorem mainLoop_commanding (keys : List KeyInfo) (lastTraffic : ℕ)
    (h : stage.up = true) :
    (mainLoop keys lastTraffic).Follows commanding Any StaysUp stage := by
  refine .iterate (fun _ next => next.up = true) h ?_
  rintro ⟨pendingChanged, lastTraffic⟩ next h
  refine .bind ((processCommands_commanding keys pendingChanged h).mono fun next r h => ?_)
  cases r with
  | error error => exact h
  | ok pendingChanged =>
    refine Quiet.follows (.bind (drainChangedKeys_quiet keys pendingChanged) fun _ =>
      .ask trivial fun reply => ?_) fun last r hup => roundEnd_staysUp (hup.trans h) r
    match reply with
    | .ok (some (.changed keyref)) => exact .ask trivial fun _ => trivial
    | .ok none =>
      refine .ask trivial fun instant => within_ite ?_ trivial
      exact .bind (.mapError pingWithChanges_quiet) fun _ => .ask trivial fun _ => trivial
    | .ok (some .ok) | .ok (some (.caps _)) | .ok (some (.identified _))
    | .ok (some (.keytabLen _)) | .ok (some (.key _ _)) | .ok (some (.value _))
    | .ok (some (.written _)) | .ok (some (.error _)) | .error _ => trivial

theorem runConnection_commanding :
    runConnection.Follows commanding Any (fun _ _ => True) stage := by
  refine .ask trivial fun connected _ => ?_
  cases connected with
  | error error => trivial
  | ok =>
    refine .bind (Quiet.follows (.mapError identify_quiet) fun _ r _ => ?_)
    cases r with
    | error error => trivial
    | ok nodeId =>
      refine .bind (Quiet.follows (.mapError listKeys_quiet) fun _ r _ => ?_)
      cases r with
      | error error => trivial
      | ok keys =>
        refine .bind (Quiet.follows (setupRows_quiet _ _) fun _ r _ => ?_)
        cases r with
        | error error => trivial
        | ok rows =>
          refine .bind (.ask trivial fun sent _ => ?_)
          cases sent with
          | false => trivial
          | true =>
            refine .ask trivial fun lastTraffic _ => .bind ?_
            refine Quiet.follows (drainChangedKeys_quiet _ _) fun _ r hup => ?_
            cases r with
            | error error => trivial
            | ok =>
              exact (mainLoop_commanding _ _ hup).mono fun _ _ _ => trivial

theorem connectionManager_commanding :
    connectionManager.Follows commanding Any (fun _ _ => True) stage := by
  refine .iterate (fun _ _ => True) trivial fun _ next _ => .ask trivial fun sent _ => ?_
  refine follows_ite (fun _ => trivial) fun _ => ?_
  refine .bind (.attempt (runConnection_commanding.mono fun _ r _ => ?_))
  refine .ask trivial fun sent _ => follows_ite (fun _ => trivial) fun _ => ?_
  exact .ask trivial fun _ _ => trivial

end

end Qup.Tui
