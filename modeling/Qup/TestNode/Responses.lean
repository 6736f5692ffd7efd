import Qup.TestNode.Freshness
import Qup.TestNode.Handling
import Qup.TestNode.Window
import Qup.Foundation.EventLog

/-!
# Requests and responses

In every run the responses in a connection's queue are, in order, to the messages
that were received on it, and at most one message is not answered. A `CHANGED` has
the `OK` of an `OBSERVE` of its key before it, even where it comes after the `OK`
of an `UNOBSERVE`.
-/

namespace Qup.TestNode
open Foundation Foundation.Program

/-- A task answers once, and only to its own connection; `some` whether the answer
was taken. -/
def responding (t : TaskId) : Discipline Op.Res (Option Bool) where
  allows
    | sent, .send d frame => isChanged frame = true ∨ t = .connection d ∧ sent = none
    | _, _ => True
  next
    | sent, .send _ frame, taken => if isChanged frame then sent else some taken
    | sent, _, _ => sent

def Responded (sent : Option Bool) (result : Except Empty Bool) : Prop :=
  ∃ goesOn, result = .ok goesOn ∧ sent = some goesOn

section
variable {t : TaskId} {c : ℕ} {ε : Type} {sent : Option Bool}

theorem responding_send {d : ℕ} {frame : MessageRef} (hframe : isChanged frame = false)
    (taken : Bool) : (responding t).next sent (.send d frame) taken = some taken := by
  simp only [responding, hframe, Bool.false_eq_true, if_false]

theorem send_responding {frame : MessageRef} (hframe : isChanged frame = false) :
    (send c frame : Action Empty Bool).Follows (responding (.connection c)) Responded none :=
  ⟨.inr ⟨rfl, rfl⟩, fun taken => ⟨taken, rfl, responding_send hframe taken⟩⟩

theorem notifyAll_responding (keyref : UInt16) (connections : List ℕ) :
    (notifyAll keyref connections : Action ε Unit).Follows (responding t) (fun next _ => next = sent)
      sent := by
  induction connections with
  | nil => rfl
  | cons d connections ih =>
    refine ⟨trivial, fun observing => ?_⟩
    cases observing with
    | false => exact ih
    | true => exact ⟨.inl rfl, fun _ => ih⟩

theorem broadcastChanged_responding (keyref : UInt16) :
    (broadcastChanged keyref : Action ε Unit).Follows (responding t) (fun next _ => next = sent)
      sent :=
  ⟨trivial, fun connections => notifyAll_responding keyref connections⟩

theorem getValue_responding (keyref : UInt16) :
    (getValue keyref).Follows (responding t) (fun next _ => next = sent) sent := by
  have hprogram := getValue_getting keyref
  generalize getValue keyref = program at hprogram ⊢
  cases hprogram with
  | fails code => rfl
  | reads cell _ => exact ⟨trivial, fun _ => rfl⟩
  | uptime _ => exact ⟨trivial, fun _ => rfl⟩
  | constant _ => rfl

theorem writeValue_responding (keyref : UInt16) (value : ValueRef) :
    (writeValue keyref value).Follows (responding t) (fun next _ => next = sent) sent := by
  have hprogram := writeValue_writing keyref value
  generalize writeValue keyref value = program at hprogram ⊢
  cases hprogram with
  | fails code => rfl
  | replaces cell stored _ _ _ => exact ⟨trivial, fun _ => rfl⟩
  | mirrors text _ _ =>
    exact ⟨trivial, fun _ => ⟨trivial, fun _ => ⟨trivial, fun _ => ⟨trivial, fun _ => rfl⟩⟩⟩⟩
  | stores stored _ _ => exact ⟨trivial, fun _ => rfl⟩

theorem dispatchRequest_responding (c : ℕ) (request : RequestRef) :
    (dispatchRequest c request).Follows (responding (.connection c)) Responded none := by
  cases request with
  | ping => exact send_responding rfl
  | identify => exact send_responding rfl
  | getKeytabLen => exact send_responding rfl
  | getKey keyref =>
    simp only [dispatchRequest]
    cases keySpec keyref <;> exact send_responding rfl
  | get keyref =>
    rw [dispatchRequest, follows_bind, follows_attempt]
    refine (getValue_responding keyref).mono ?_
    rintro - result rfl
    cases result <;> exact send_responding rfl
  | write keyref value =>
    rw [dispatchRequest, follows_bind, follows_attempt]
    refine (writeValue_responding keyref value).mono ?_
    rintro - result rfl
    cases result with
    | error code => exact send_responding rfl
    | ok success =>
      refine ⟨.inr ⟨rfl, rfl⟩, fun taken => ?_⟩
      cases taken with
      | false => exact ⟨false, rfl, rfl⟩
      | true =>
        dsimp only
        cases success.changedKeyref with
        | none => exact ⟨true, rfl, rfl⟩
        | some changed =>
          change (broadcastChanged changed >>= fun _ => pure true).Follows _ _ _
          rw [follows_bind]
          refine (broadcastChanged_responding changed).mono ?_
          rintro next result rfl
          cases result with
          | error e => cases e
          | ok _ => exact ⟨true, rfl, rfl⟩
  | observe keyref =>
    simp only [dispatchRequest]
    cases canObserve keyref with
    | error code => exact send_responding rfl
    | ok _ =>
      refine ⟨.inr ⟨rfl, rfl⟩, fun taken => ?_⟩
      cases taken with
      | false => exact ⟨false, rfl, rfl⟩
      | true => exact ⟨trivial, fun _ => ⟨true, rfl, rfl⟩⟩
  | unobserve keyref =>
    simp only [dispatchRequest]
    cases validateKeyref keyref with
    | error code => exact send_responding rfl
    | ok _ => exact ⟨trivial, fun _ => send_responding rfl⟩

def messageOf : Option RequestRef → MessageRef
  | some request => .request request
  | none => .compatibilityRequest

theorem messageOf_dispatch {frame : List UInt8} {message : MessageRef}
    (h : readNextMessage frame = some message) (c : ℕ) :
    messageOf (Task.dispatch c message).request = message ∧
      (dispatchMessage c message).Follows (responding (.connection c)) Responded none := by
  have hlegal := ((readNextMessage_eq_some_iff frame message).mp h).1.1
  cases message with
  | request request => exact ⟨rfl, dispatchRequest_responding c request⟩
  | compatibilityRequest => exact ⟨rfl, send_responding rfl⟩
  | ordinaryResponse response =>
    have hnot : ¬ response.opcode.Legal .clientToNode := by
      cases response <;> (simp only [OrdinaryResponseRef.opcode]; decide)
    exact absurd hlegal hnot
  | _ =>
    simp only [MessageRef.opcode] at hlegal
    exact absurd hlegal (by decide)

end

def Stage.task : Stage → Option Task
  | .dispatching task => some task
  | _ => none

def Label.message (c : ℕ) : Label → Option MessageRef
  | .receive d (some frame) => if d = c then readNextMessage frame else none
  | _ => none

def received (c : ℕ) (ls : List Label) : List MessageRef := ls.filterMap (Label.message c)

theorem received_append (c : ℕ) (ls ls' : List Label) :
    received c (ls ++ ls') = received c ls ++ received c ls' := List.filterMap_append

theorem received_concat (c : ℕ) (ls : List Label) (l : Label) :
    received c (ls ++ [l]) = received c ls ++ (l.message c).toList := by
  rw [received_append, received]
  cases h : l.message c <;> simp [received, h]

theorem received_own {c : ℕ} {s s' : Node} {ls : List Label}
    (hpath : Path Node.step (fun _ l => l = .act (.connection c)) s ls s') : received c ls = [] := by
  induction hpath with
  | nil => rfl
  | snoc _ hl _ ih =>
    rw [received_concat, ih, hl]
    rfl

namespace Node

def stage (s : Node) (c : ℕ) : Option Stage := (s.connections[c]?).map Connection.stage

def answers (s : Node) (c : ℕ) : List Sent := (s.queue c).filter fun e => !isChanged e.frame

section
variable {s : Node}

theorem task_stage (s : Node) (c : ℕ) : s.task (.connection c) = (s.stage c).bind Stage.task := by
  simp only [Node.task, stage]
  cases s.connections[c]? with
  | none => rfl
  | some conn => rfl

theorem stage_modify (c d : ℕ) (f : Connection → Connection) :
    (s.modify c f).stage d = if c = d then (s.connections[d]?).map fun conn => (f conn).stage
      else s.stage d := by
  simp only [stage, modify, List.getElem?_modify]
  split_ifs with h
  · cases s.connections[d]? <;> rfl
  · cases s.connections[d]? <;> rfl

theorem stage_modify_of_eq {c : ℕ} {f : Connection → Connection}
    (hf : ∀ conn, (f conn).stage = conn.stage) : (s.modify c f).stage = s.stage := by
  funext d
  rw [stage_modify]
  split_ifs
  · simp only [hf, stage]
  · rfl

theorem stage_effect (t : TaskId) (task : Task) (o : Op) : (s.effect t task o).stage = s.stage := by
  cases o with
  | observe d keyref => exact stage_modify_of_eq fun _ => rfl
  | unobserve d keyref => exact stage_modify_of_eq fun _ => rfl
  | send d frame =>
    refine stage_modify_of_eq fun conn => ?_
    unfold Connection.put
    split_ifs <;> rfl
  | _ => rfl

theorem stage_setTask {t : TaskId} {c : ℕ} (ht : t ≠ .connection c) (task : Task) :
    (s.setTask task t).stage c = s.stage c := by
  cases t with
  | connection d =>
    have hd : d ≠ c := fun h => ht (congrArg _ h)
    simp only [setTask, setStage, stage_modify, if_neg hd]
  | _ => rfl

end

inductive Passes (s : Node) (c : ℕ) : Label → Node → Prop where
  | stays {l : Label} {s' : Node} (hstage : s'.stage c = s.stage c)
      (hqueue : s'.queue c = s.queue c) (hmessage : l.message c = none) : Passes s c l s'
  | opens {l : Label} {s' : Node} (hold : s.stage c = none ∨ s.stage c = some .accepted)
      (hnew : s'.stage c = some .accepted ∨ s'.stage c = some .reading)
      (hqueue : s'.queue c = s.queue c) (hmessage : l.message c = none) : Passes s c l s'
  | closes {l : Label} {s' : Node} (hnew : s'.stage c = some .closing ∨ s'.stage c = some .ended)
      (hqueue : s'.queue c = s.queue c) (hmessage : l.message c = none) : Passes s c l s'
  | receives {l : Label} {s' : Node} {frame : List UInt8} {message : MessageRef}
      (hread : readNextMessage frame = some message) (hold : s.stage c = some .reading)
      (hnew : s'.stage c = some (.dispatching (.dispatch c message)))
      (hqueue : s'.queue c = s.queue c) (hmessage : l.message c = some message) : Passes s c l s'
  | returns {l : Label} {s' : Node} {task : Task} (htask : s.task (.connection c) = some task)
      (hprogram : task.program = .ret true) (hnew : s'.stage c = some .reading)
      (hqueue : s'.queue c = s.queue c) (hmessage : l.message c = none) : Passes s c l s'
  | acts {t : TaskId} {task : Task} {o : Op} {k : o.Res → Action Empty Bool}
      (htask : s.task t = some task) (hprogram : task.program = .act o k) :
      Passes s c (.act t) (s.performed t task o k)

section
variable {s s' : Node} {c : ℕ}

theorem passes_modify {l : Label} {d : ℕ} {f : Connection → Connection} {stage : Stage}
    (hstage : s.stage d = some stage) (hqueue : ∀ conn, (f conn).queue = conn.queue)
    {next : Stage} (hnext : ∀ conn, (f conn).stage = next) (hne : d ≠ c → l.message c = none)
    (hpass : d = c → s.stage c = some stage → (s.modify d f).stage c = some next →
      (s.modify d f).queue c = s.queue c → s.Passes c l (s.modify d f)) :
    s.Passes c l (s.modify d f) := by
  have hq : (s.modify d f).queue c = s.queue c := congrFun (s.queue_modify_of_eq hqueue) c
  by_cases hd : d = c
  · subst hd
    refine hpass rfl hstage ?_ hq
    obtain ⟨conn, hconn, -⟩ := Option.map_eq_some_iff.mp hstage
    rw [stage_modify, if_pos rfl, hconn, Option.map_some, hnext]
  · refine .stays ?_ hq (hne hd)
    rw [stage_modify, if_neg hd]

theorem step_passes {l : Label} (h : s.step l = some s') (c : ℕ) : s.Passes c l s' := by
  cases l with
  | accept =>
    cases h
    have hqueue := congrFun (queue_accept (s := s)) c
    rcases connections_accept s.connections c with hsame | ⟨hnone, hnew⟩
    · exact .stays (congrArg (Option.map Connection.stage) hsame) hqueue rfl
    · exact .opens (.inl (congrArg (Option.map Connection.stage) hnone))
        (.inl (congrArg (Option.map Connection.stage) hnew)) hqueue rfl
  | register d =>
    simp only [step] at h
    split at h
    · rename_i hstage
      cases h
      exact passes_modify hstage (fun _ => rfl) (fun _ => rfl) (fun _ => rfl)
        fun _ hold hnew hqueue => .opens (.inr hold) (.inr hnew) hqueue rfl
    · cases h
  | receive d frame =>
    simp only [step] at h
    split at h
    · rename_i hstage
      cases h
      unfold receive
      cases hmessage : frame.bind readNextMessage with
      | none =>
        have hnone : Label.message c (.receive d frame) = none := by
          cases frame with
          | none => rfl
          | some frame =>
            simp only [Label.message]
            split_ifs
            · exact hmessage
            · rfl
        exact passes_modify hstage (fun _ => rfl) (fun _ => rfl) (fun _ => hnone)
          fun _ _ hnew hqueue => .closes (.inl hnew) hqueue hnone
      | some message =>
        obtain ⟨bytes, rfl, hread⟩ := Option.bind_eq_some_iff.mp hmessage
        refine passes_modify hstage (fun _ => rfl) (fun _ => rfl) (fun hd => if_neg hd) ?_
        rintro rfl hold hnew hqueue
        exact .receives hread hold hnew hqueue ((if_pos rfl).trans hread)
    · cases h
  | unregister d =>
    simp only [step] at h
    split at h
    · rename_i hstage
      cases h
      exact passes_modify hstage (fun _ => rfl) (fun _ => rfl) (fun _ => rfl)
        fun _ _ hnew hqueue => .closes (.inr hnew) hqueue rfl
    · cases h
  | writerFailed d =>
    cases h
    have hqueue : (s.modify d fun conn => { conn with writing := false }).queue = s.queue :=
      s.queue_modify_of_eq fun _ => rfl
    have hstage : (s.modify d fun conn => { conn with writing := false }).stage = s.stage :=
      stage_modify_of_eq fun _ => rfl
    exact .stays (congrFun hstage c) (congrFun hqueue c) rfl
  | second =>
    cases h
    exact .stays rfl rfl rfl
  | voltageTick =>
    simp only [step] at h
    split at h
    · cases h
      exact .stays rfl rfl rfl
    · cases h
  | act t =>
    simp only [step, act] at h
    split at h
    · cases h
    · rename_i task htask
      split at h
      · rename_i goesOn hprogram
        cases t with
        | voltage =>
          cases h
          exact .stays rfl rfl rfl
        | mirror j => cases h
        | connection d =>
          cases h
          have hstage : s.stage d = some (.dispatching task) := by
            rw [task_stage] at htask
            obtain ⟨stage, hstage, hdispatch⟩ := Option.bind_eq_some_iff.mp htask
            cases stage <;> cases hdispatch
            exact hstage
          refine passes_modify hstage (fun _ => rfl) (fun _ => rfl) (fun _ => rfl) ?_
          rintro rfl - hnew hqueue
          cases goesOn with
          | true => exact .returns htask hprogram hnew hqueue rfl
          | false => exact .closes (.inl hnew) hqueue rfl
      · rename_i e _
        cases e
      · rename_i o k hprogram
        cases h
        exact .acts htask hprogram

section
variable {t : TaskId} {task : Task} {o : Op} {k : o.Res → Action Empty Bool}

theorem answers_of_queue {s s' : Node} {c : ℕ} (h : s'.queue c = s.queue c) :
    s'.answers c = s.answers c := by
  rw [answers, answers, h]

theorem answers_send {frame : MessageRef} {k : (Op.send c frame).Res → Action Empty Bool}
    (hframe : isChanged frame = false) (hwriting : s.writing c) :
    (s.performed t task (.send c frame) k).answers c = s.answers c ++ [s.entry t task c frame] := by
  have hentry : (s.entry t task c frame).frame = frame := rfl
  have hone : [s.entry t task c frame].filter (fun e => !isChanged e.frame) =
      [s.entry t task c frame] := by
    simp [hentry, hframe]
  rw [answers, queue_performed_send, if_pos ⟨rfl, hwriting⟩, List.filter_append, hone, answers]

theorem answers_quiet (h : ∀ frame, o = .send c frame → isChanged frame = false → ¬ s.writing c) :
    (s.performed t task o k).answers c = s.answers c := by
  by_cases hsend : ∃ d frame, o = .send d frame
  · obtain ⟨d, frame, rfl⟩ := hsend
    rw [answers, queue_performed_send]
    split_ifs with hput
    · obtain ⟨rfl, hwriting⟩ := hput
      have hchanged : isChanged (s.entry t task d frame).frame = true := by
        by_contra hframe
        exact h frame rfl (Bool.eq_false_iff.mpr hframe) hwriting
      rw [List.filter_append, answers]
      simp [hchanged]
    · rfl
  · exact answers_of_queue (congrFun (queue_performed fun d frame heq => hsend ⟨d, frame, heq⟩) c)

theorem stage_performed (ht : t ≠ .connection c) : (s.performed t task o k).stage c = s.stage c := by
  rw [performed, stage_setTask ht, stage_effect]

end

/-- The messages that the connection has received and not answered are `rest`. -/
structure Owes (s : Node) (c : ℕ) (rest : List MessageRef) : Prop where
  bound : rest.length ≤ 1
  rests : s.stage c = none ∨ s.stage c = some .accepted ∨ s.stage c = some .reading → rest = []
  task : ∀ task, s.task (.connection c) = some task → ∃ sent,
    task.program.Follows (responding (.connection c)) Responded sent ∧
      (sent = some true → rest = []) ∧ (sent = some false → ¬ s.writing c) ∧
        (sent = none → rest = [messageOf task.request])

theorem Owes.of_stage {stage : Stage} {rest : List MessageRef} (hstage : s.stage c = some stage)
    (htask : stage.task = none) (hbound : rest.length ≤ 1)
    (hrests : stage = .accepted ∨ stage = .reading → rest = []) : s.Owes c rest where
  bound := hbound
  rests h := by
    rw [hstage] at h
    refine hrests ?_
    rcases h with h | h | h
    · cases h
    · exact .inl (Option.some.inj h)
    · exact .inr (Option.some.inj h)
  task task h := by
    rw [task_stage, hstage, Option.bind_some, htask] at h
    cases h

theorem Owes.of_performed {task : Task} {o : Op} {k : o.Res → Action Empty Bool}
    {rest : List MessageRef} {sent : Option Bool} (htask : s.task (.connection c) = some task)
    (hbound : rest.length ≤ 1)
    (hfollows : (k (s.answer o)).Follows (responding (.connection c)) Responded sent)
    (htrue : sent = some true → rest = []) (hfalse : sent = some false → ¬ s.writing c)
    (hnone : sent = none → rest = [messageOf task.request]) :
    (s.performed (.connection c) task o k).Owes c rest where
  bound := hbound
  rests h := by
    have hafter := performed_task (o := o) (k := k) htask
    rw [task_stage] at hafter
    rcases h with h | h | h <;> (rw [h] at hafter; cases hafter)
  task next hnext := by
    rw [performed_task htask] at hnext
    cases hnext
    exact ⟨sent, hfollows, htrue, by rwa [writing_performed], hnone⟩

theorem Owes.of_same {s' : Node} {rest : List MessageRef} (howes : s.Owes c rest)
    (hstage : s'.stage c = s.stage c)
    (hwriting : s.task (.connection c) ≠ none → s'.writing c → s.writing c) : s'.Owes c rest where
  bound := howes.bound
  rests := by
    rw [hstage]
    exact howes.rests
  task task htask := by
    rw [task_stage, hstage, ← task_stage] at htask
    obtain ⟨sent, hfollows, htrue, hfalse, hnone⟩ := howes.task task htask
    refine ⟨sent, hfollows, htrue, fun h hw => hfalse h (hwriting ?_ hw), hnone⟩
    rw [htask]
    exact Option.some_ne_none task

def answered (s : Node) (c : ℕ) : List MessageRef :=
  (s.answers c).map fun e => messageOf e.request

theorem owes_step {rest : List MessageRef} {l : Label} (hs : s.Fresh) (howes : s.Owes c rest)
    (h : s.step l = some s') : ∃ rest', s'.Owes c rest' ∧
      s.answered c ++ (rest ++ (l.message c).toList) = s'.answered c ++ rest' := by
  have hsame {s' : Node} (h : s'.answers c = s.answers c) : s'.answered c = s.answered c := by
    rw [answered, answered, h]
  cases step_passes h c with
  | stays hstage hqueue hmessage =>
    refine ⟨rest, howes.of_same hstage (writing_of_step h), ?_⟩
    rw [hmessage, hsame (answers_of_queue hqueue), Option.toList_none, List.append_nil]
  | opens hold hnew hqueue hmessage =>
    obtain rfl := howes.rests (hold.imp id .inl)
    refine ⟨[], ?_, by rw [hmessage, hsame (answers_of_queue hqueue)]; rfl⟩
    rcases hnew with hnew | hnew
    · exact .of_stage hnew rfl (by decide) fun _ => rfl
    · exact .of_stage hnew rfl (by decide) fun _ => rfl
  | closes hnew hqueue hmessage =>
    refine ⟨rest, ?_, ?_⟩
    · rcases hnew with hnew | hnew
      · exact .of_stage hnew rfl howes.bound fun h => by rcases h with h | h <;> cases h
      · exact .of_stage hnew rfl howes.bound fun h => by rcases h with h | h <;> cases h
    · rw [hmessage, hsame (answers_of_queue hqueue), Option.toList_none, List.append_nil]
  | @receives l s' frame message hread hold hnew hqueue hmessage =>
    obtain rfl := howes.rests (.inr (.inr hold))
    obtain ⟨hdispatch, hfollows⟩ := messageOf_dispatch hread c
    refine ⟨[message], ⟨by simp, fun h => ?_, fun task htask => ?_⟩, ?_⟩
    · rw [hnew] at h
      rcases h with h | h | h <;> cases h
    · rw [task_stage, hnew] at htask
      cases htask
      refine ⟨none, hfollows, fun h => ?_, fun h => ?_, fun _ => congrArg (fun m => [m]) hdispatch.symm⟩
      · cases h
      · cases h
    · rw [hmessage, hsame (answers_of_queue hqueue)]
      rfl
  | @returns l s' task htask hprogram hnew hqueue hmessage =>
    obtain ⟨sent, hfollows, htrue, -, -⟩ := howes.task task htask
    rw [hprogram] at hfollows
    obtain ⟨goesOn, hgoesOn, rfl⟩ := hfollows
    cases hgoesOn
    obtain rfl := htrue rfl
    refine ⟨[], .of_stage hnew rfl (by decide) fun _ => rfl, ?_⟩
    rw [hmessage, hsame (answers_of_queue hqueue)]
    rfl
  | @acts t task o k htask hprogram =>
    have hmessage : Label.message c (.act t) = none := rfl
    rw [hmessage, Option.toList_none, List.append_nil]
    by_cases ht : t = .connection c
    · subst ht
      obtain ⟨sent, hfollows, htrue, hfalse, hnone⟩ := howes.task task htask
      rw [hprogram] at hfollows
      obtain ⟨hallows, hrest⟩ := hfollows
      by_cases hanswer : ∃ frame, o = .send c frame ∧ isChanged frame = false
      · obtain ⟨frame, rfl, hframe⟩ := hanswer
        obtain ⟨-, rfl⟩ := hallows.resolve_left (by simp [hframe])
        obtain rfl := hnone rfl
        have hk := hrest (s.answer (.send c frame))
        rw [responding_send hframe] at hk
        by_cases hwriting : s.writing c
        · refine ⟨[], .of_performed htask (by decide) hk (fun _ => rfl) (fun h => ?_) (fun h => ?_), ?_⟩
          · exact absurd ((Option.some.inj h).symm.trans hwriting) Bool.false_ne_true
          · cases h
          · rw [answered, answered, answers_send hframe hwriting]
            simp [entry]
        · refine ⟨_, .of_performed htask howes.bound hk (fun h => ?_) (fun _ => hwriting)
            (fun h => ?_), ?_⟩
          · exact absurd (Option.some.inj h) hwriting
          · cases h
          · rw [hsame (answers_quiet fun _ _ _ => hwriting)]
      · have hquiet : (s.performed (.connection c) task o k).answers c = s.answers c := by
          refine answers_quiet fun frame hsend hframe => ?_
          exact absurd ⟨frame, hsend, hframe⟩ hanswer
        have hnext : (responding (.connection c)).next sent o (s.answer o) = sent := by
          cases o with
          | send d frame =>
            rcases hallows with hchanged | ⟨hd, -⟩
            · exact if_pos hchanged
            · cases hd
              refine if_pos ?_
              by_contra hframe
              exact hanswer ⟨frame, rfl, Bool.eq_false_iff.mpr hframe⟩
          | _ => rfl
        have hk := hrest (s.answer o)
        rw [hnext] at hk
        exact ⟨rest, .of_performed htask howes.bound hk htrue hfalse hnone, by rw [hsame hquiet]⟩
    · obtain ⟨trace, hfollows, -⟩ := hs.tasks t task htask
      rw [hprogram] at hfollows
      have hquiet : (s.performed t task o k).answers c = s.answers c := by
        refine answers_quiet fun frame hsend hframe => ?_
        subst hsend
        refine absurd (hfollows.1.2 fun keyref hkeyref => ?_).1 ht
        rw [hkeyref] at hframe
        cases hframe
      refine ⟨rest, howes.of_same (stage_performed ht) (fun _ hw => ?_), by rw [hsame hquiet]⟩
      rwa [writing_performed] at hw

end
end Node

/-- In every run the responses to a connection answer, in order, the messages received
on it, but for one at most. -/
theorem responses_in_order {seed : UInt64} {ls : List Label} {s : Node}
    (hrun : Path Node.step (fun _ _ => True) (Node.initial seed) ls s) (c : ℕ) :
    ∃ rest, s.Owes c rest ∧ received c ls = s.answered c ++ rest := by
  induction hrun with
  | nil =>
    refine ⟨[], ⟨by decide, fun _ => rfl, fun task h => ?_⟩, ?_⟩
    · simp [Node.initial, Node.task] at h
    · simp [Node.initial, Node.answered, Node.answers, Node.queue, received]
  | @snoc s s' ls l hpath _ hstep ih =>
    obtain ⟨rest, howes, heq⟩ := ih
    have hs : s.Fresh := hpath.invariant Node.Fresh (fresh_initial seed)
      fun _ _ _ hu _ hstep => fresh_step hu hstep
    obtain ⟨rest', howes', heq'⟩ := Node.owes_step hs howes hstep
    refine ⟨rest', howes', ?_⟩
    rw [received_concat, heq, List.append_assoc, heq']

theorem goes_on {c : ℕ} {s : Node} {program : Action Empty Bool} {sent : Option Bool}
    (hprogram : program.Follows (responding (.connection c)) Responded sent)
    (hsent : sent ≠ some false) (hwriting : s.writing c)
    (htask : ∃ task, s.task (.connection c) = some task ∧ task.program = program) :
    ∃ ls s', Path Node.step (fun _ l => l = .act (.connection c)) s ls s' ∧
      s'.stage c = some .reading := by
  induction program generalizing s sent with
  | fail e => cases e
  | ret goesOn =>
    obtain ⟨task, htask, hret⟩ := htask
    obtain ⟨goesOn', hgoesOn, rfl⟩ := hprogram
    cases hgoesOn
    obtain rfl : goesOn = true := by
      cases goesOn with
      | true => rfl
      | false => exact absurd rfl hsent
    have hstep : s.step (.act (.connection c)) = some (s.setStage c .reading) := by
      simp only [Node.step, Node.act, htask, hret]
      rfl
    have hconnected : ∃ conn, s.connections[c]? = some conn := by
      obtain ⟨conn, hconn, -⟩ := Option.bind_eq_some_iff.mp htask
      exact ⟨conn, hconn⟩
    obtain ⟨conn, hconn⟩ := hconnected
    refine ⟨_, _, .one rfl hstep, ?_⟩
    rw [Node.setStage, Node.stage_modify, if_pos rfl, hconn]
    rfl
  | act o k ih =>
    obtain ⟨task, htask, hact⟩ := htask
    obtain ⟨hallows, hrest⟩ := hprogram
    have hnext : (responding (.connection c)).next sent o (s.answer o) ≠ some false := by
      cases o with
      | send d frame =>
        cases hframe : isChanged frame with
        | true => exact fun h => hsent ((if_pos hframe).symm.trans h)
        | false =>
          rcases hallows with hchanged | ⟨hd, -⟩
          · rw [hframe] at hchanged
            cases hchanged
          · cases hd
            have htaken : s.answer (.send c frame) = true := hwriting
            rw [responding_send hframe, htaken]
            exact fun h => by cases h
      | _ => exact hsent
    obtain ⟨ls, s', hpath, hreading⟩ := ih (s.answer o) (hrest (s.answer o)) hnext
      (s := s.performed (.connection c) task o k) (by rwa [writing_performed])
      ⟨_, Node.performed_task htask, rfl⟩
    exact ⟨_, s', .cons rfl (Node.act_eq htask hact) hpath, hreading⟩

/-- No message is left without a response: whatever has happened, the task that dispatches it
answers it by its own steps, unless the connection's writer takes no more frames. -/
theorem received_answered {seed : UInt64} {ls : List Label} {s : Node}
    (hrun : Path Node.step (fun _ _ => True) (Node.initial seed) ls s) {c : ℕ}
    (hwriting : s.writing c) (htask : s.task (.connection c) ≠ none) :
    ∃ ls' s', Path Node.step (fun _ l => l = .act (.connection c)) s ls' s' ∧
      s'.answered c = received c ls ∧ s'.stage c = some .reading := by
  obtain ⟨task, htask⟩ := Option.ne_none_iff_exists'.mp htask
  obtain ⟨rest, howes, -⟩ := responses_in_order hrun c
  obtain ⟨sent, hfollows, -, hfalse, -⟩ := howes.task task htask
  obtain ⟨ls', s', hpath, hreading⟩ :=
    goes_on hfollows (fun h => hfalse h hwriting) hwriting ⟨task, htask, rfl⟩
  obtain ⟨rest', howes', hreceived⟩ :=
    responses_in_order (hrun.trans (hpath.mono fun _ _ _ => trivial)) c
  obtain rfl := howes'.rests (.inr (.inr hreading))
  rw [List.append_nil, received_append, received_own hpath, List.append_nil] at hreceived
  exact ⟨ls', s', hpath, hreceived.symm, hreading⟩

theorem received_answered_voltage : ∃ s ls' s',
    Path Node.step (fun _ l => l = .act (.connection 0)) s ls' s' ∧
    Path Node.step (fun _ _ => True) (Node.initial 0) (observing ++ getting) s ∧
      s.answered 0 = [.request (.observe keyVoltageMa)] ∧
        s'.answered 0 = [.request (.observe keyVoltageMa), .request (.get keyVoltageMa)] ∧
          s'.stage 0 = some .reading := by
  have hrun : (runLabels Node.step (Node.initial 0) (observing ++ getting)).map (fun s =>
      (s.answered 0, s.writing 0, (s.task (.connection 0)).isSome)) =
        some ([.request (.observe keyVoltageMa)], true, true) := by decide +kernel
  obtain ⟨s, hs, hstate⟩ := Option.map_eq_some_iff.mp hrun
  simp only [Prod.mk.injEq] at hstate
  obtain ⟨hanswered, hwriting, htask⟩ := hstate
  have hpath := Path.of_runLabels hs
  have hreceived : received 0 (observing ++ getting) =
      [.request (.observe keyVoltageMa), .request (.get keyVoltageMa)] := by decide +kernel
  obtain ⟨ls', s', hown, hanswers, hreading⟩ := received_answered hpath hwriting
    (Option.ne_none_iff_isSome.mpr htask)
  exact ⟨s, ls', s', hown, hpath, hanswered, hanswers.trans hreceived, hreading⟩

def Observed (keyref : UInt16) (queue : List Sent) : Prop :=
  ∃ ok ∈ queue, ok.Acknowledges (.observe keyref)

def Announces (queue : List Sent) : Prop :=
  Justified (fun entry older => ∀ keyref, entry.frame = encodeChanged keyref → Observed keyref older)
    queue.reverse

theorem Announces.observed {queue before after : List Sent} {entry : Sent} {keyref : UInt16}
    (h : Announces queue) (hsplit : queue = before ++ entry :: after)
    (hframe : entry.frame = encodeChanged keyref) : Observed keyref before := by
  rw [Announces, hsplit, List.reverse_append, List.reverse_cons, List.append_assoc,
    List.singleton_append] at h
  obtain ⟨ok, hok, hacknowledges⟩ := h.allowed_at keyref hframe
  exact ⟨ok, List.mem_reverse.mp hok, hacknowledges⟩

def Standing.Knows (s : Node) (t : TaskId) : Standing → Prop
  | .seen c keyref => Observed keyref (s.queue c)
  | .granted c keyref => t = .connection c ∧ Observed keyref (s.queue c)
  | .plain | .revoked _ _ => True

structure Node.Announcing (s : Node) : Prop where
  queues : ∀ c, Announces (s.queue c)
  observes : ∀ c keyref, s.observes c keyref → Observed keyref (s.queue c)
  tasks : ∀ t task, s.task t = some task → ∃ standing,
    task.program.Follows (window t task.request) (fun _ _ => True) standing ∧ standing.Knows s t

section
variable {s s' : Node} {t : TaskId} {task : Task} {o : Op} {k : o.Res → Action Empty Bool}
  {standing : Standing}

theorem observed_effect {c : ℕ} {keyref : UInt16} (h : Observed keyref (s.queue c)) :
    Observed keyref ((s.effect t task o).queue c) := by
  obtain ⟨ok, hok, hacknowledges⟩ := h
  rcases s.queue_effect_cases t task o c with hq | ⟨frame, -, -, hq⟩
  · exact ⟨ok, hq ▸ hok, hacknowledges⟩
  · exact ⟨ok, hq ▸ List.mem_append_left _ hok, hacknowledges⟩

theorem knows_effect (h : standing.Knows s t) (t' : TaskId) (task : Task) (o : Op) :
    standing.Knows (s.effect t' task o) t := by
  cases standing with
  | seen c keyref => exact observed_effect h
  | granted c keyref => exact ⟨h.1, observed_effect h.2⟩
  | _ => trivial

theorem knows_congr (hqueue : s'.queue = s.queue) : standing.Knows s' t ↔ standing.Knows s t := by
  cases standing <;> simp only [Standing.Knows, hqueue]

theorem knows_after (hs : s.Announcing) :
    (Standing.after t task.request o (s.answer o)).Knows (s.effect t task o) t := by
  cases o with
  | isObserving c keyref =>
    cases hbit : s.answer (.isObserving c keyref) with
    | false => trivial
    | true => exact hs.observes c keyref hbit
  | unobserve c keyref => trivial
  | send c frame =>
    cases hsent : s.answer (.send c frame) with
    | false => trivial
    | true =>
      simp only [Standing.after]
      split
      · rename_i keyref hrequest
        split_ifs with hok
        · obtain ⟨rfl, rfl⟩ := hok
          have hwriting : s.writing c := hsent
          refine ⟨rfl, s.entry (.connection c) task c encodeOk, ?_, rfl, by simp [Node.entry, hrequest]⟩
          rw [s.queue_send hwriting]
          exact List.mem_append_right _ List.mem_cons_self
        · trivial
      · trivial
  | _ => trivial

theorem announces_effect (hs : s.Announcing) (hallows : standing.Allows t task.request o)
    (hknows : standing.Knows s t) (c : ℕ) : Announces ((s.effect t task o).queue c) := by
  rcases s.queue_effect_cases t task o c with hq | ⟨frame, rfl, -, hq⟩
  · rw [hq]
    exact hs.queues c
  · rw [hq, Announces, List.reverse_concat]
    refine ⟨fun keyref hframe => ?_, hs.queues c⟩
    have hseen := hallows.1 keyref hframe
    subst hseen
    obtain ⟨ok, hok, hacknowledges⟩ := hknows
    exact ⟨ok, List.mem_reverse.mpr hok, hacknowledges⟩

theorem announcing_initial (seed : UInt64) : (Node.initial seed).Announcing where
  queues c := by
    have hempty : (Node.initial seed).queue c = [] := by simp [Node.initial, Node.queue]
    rw [hempty]
    trivial
  observes c keyref h := by simp [Node.initial, Node.observes] at h
  tasks t task h := by cases t <;> simp [Node.initial, Node.task] at h

theorem announcing_step {l : Label} (hs : s.Announcing) (h : s.step l = some s') :
    s'.Announcing := by
  cases Node.step_moves h with
  | outside hqueue hobserves hlog htask =>
    refine ⟨fun c => ?_, fun c keyref hbit => ?_, fun t task ht => ?_⟩
    · rw [hqueue]
      exact hs.queues c
    · rw [hqueue]
      rw [hobserves] at hbit
      exact hs.observes c keyref hbit
    · rcases htask t task ht with hold | hstart
      · obtain ⟨standing, hfollows, hknows⟩ := hs.tasks t task hold
        exact ⟨standing, hfollows, (knows_congr hqueue).mpr hknows⟩
      · exact ⟨.plain, starts_window hstart, trivial⟩
  | @act t task o k htask hprogram =>
    obtain ⟨standing, hfollows, hknows⟩ := hs.tasks t task htask
    rw [hprogram] at hfollows
    obtain ⟨hallows, hrest⟩ := hfollows
    refine ⟨fun c => ?_, fun c keyref hbit => ?_, fun t' task' ht' => ?_⟩
    · rw [Node.queue_setTask]
      exact announces_effect hs hallows hknows c
    · rw [Node.queue_setTask]
      rw [Node.observes_setTask] at hbit
      rcases Node.observes_effect s hbit with ⟨hold, -⟩ | rfl
      · exact observed_effect (hs.observes c keyref hold)
      · obtain ⟨-, rfl⟩ := hallows
        exact observed_effect hknows.2
    · rcases Node.task_act s htask ht' with ⟨rfl, rfl⟩ | ⟨hne, hold | hstart⟩
      · exact ⟨_, hrest _, (knows_congr (Node.queue_setTask _ _ _)).mpr (knows_after hs)⟩
      · obtain ⟨standing', hfollows', hknows'⟩ := hs.tasks t' task' hold
        refine ⟨standing', hfollows', (knows_congr (Node.queue_setTask _ _ _)).mpr ?_⟩
        exact knows_effect hknows' t task o
      · exact ⟨.plain, starts_window hstart, trivial⟩

end

end Qup.TestNode
