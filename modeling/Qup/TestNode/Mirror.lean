import Qup.TestNode.Moves
import Qup.TestNode.Values

/-!
# The mirror

How a value written to `mirror_in` reaches `mirror_out`: the write stores it twice,
advances the generation and schedules a flush, and the flush of the last generation
copies the second store. Between these requests anything may run. What the tasks
promise is which request comes next; what is lost is lost where a request is
overtaken by the same request of another task.
-/

namespace Qup.TestNode
open Foundation Foundation.Program Foundation.Utf8

def Op.mirrors : Op → Bool
  | .load cell => cell = .mirrorPending
  | .swap cell _ => cell = .mirrorIn ∨ cell = .mirrorPending ∨ cell = .mirrorOut
  | .loadCounter _ | .scheduleMirrorUpdate _ => true
  | .fetchAdd counter _ => counter = .mirrorGeneration
  | _ => false

def Settles {S ε α : Type} (rest : S) : S → Except ε α → Prop := fun s _ => s = rest

def Unconcerned {S : Type} (D : Discipline Op.Res S) (rest : S) : Prop :=
  ∀ o : Op, o.mirrors = false → D.allows rest o ∧ ∀ r, D.next rest o r = rest

section
variable {S ε α : Type} {D : Discipline Op.Res S} {rest : S}

theorem ret_settles (a : α) : (Program.ret a : Action ε α).Follows D (Settles rest) rest := rfl

theorem fail_settles (e : ε) : (Program.fail e : Action ε α).Follows D (Settles rest) rest := rfl

theorem act_settles (hD : Unconcerned D rest) {o : Op} (ho : o.mirrors = false)
    {k : o.Res → Action ε α} (hk : ∀ r, (k r).Follows D (Settles rest) rest) :
    (Program.act o k).Follows D (Settles rest) rest := by
  obtain ⟨hallows, hnext⟩ := hD o ho
  refine ⟨hallows, fun r => ?_⟩
  rw [hnext r]
  exact hk r

theorem bind_settles {β : Type} {p : Action ε α} {f : α → Action ε β}
    (hp : p.Follows D (Settles rest) rest) (hf : ∀ a, (f a).Follows D (Settles rest) rest) :
    (p >>= f).Follows D (Settles rest) rest := by
  rw [follows_bind]
  apply hp.mono
  intro s result hs
  cases hs
  cases result with
  | ok a => exact hf a
  | error e => rfl

theorem notifyAll_settles (hD : Unconcerned D rest) (keyref : UInt16) (connections : List ℕ) :
    (notifyAll keyref connections : Action ε Unit).Follows D (Settles rest) rest := by
  induction connections with
  | nil => rfl
  | cons c connections ih =>
    apply act_settles hD rfl
    intro observing
    cases observing with
    | false => exact ih
    | true => exact act_settles hD rfl fun _ => ih

theorem broadcastChanged_settles (hD : Unconcerned D rest) (keyref : UInt16) :
    (broadcastChanged keyref : Action ε Unit).Follows D (Settles rest) rest :=
  act_settles hD rfl fun connections => notifyAll_settles hD keyref connections

theorem read_settles (hD : Unconcerned D rest) {cell : Cell}
    (hcell : (Op.load cell).mirrors = false) :
    (read cell : Action ε WireValue).Follows D (Settles rest) rest :=
  act_settles hD hcell fun _ => ret_settles _

theorem getValue_settles (hD : Unconcerned D rest) (keyref : UInt16) :
    (getValue keyref).Follows D (Settles rest) rest := by
  have hprogram := getValue_getting keyref
  generalize getValue keyref = program at hprogram ⊢
  cases hprogram with
  | fails code => exact fail_settles code
  | reads cell h =>
    have hcell : (Op.load cell).mirrors = false := by cases cell <;> first | rfl | cases h
    exact read_settles hD hcell
  | uptime _ => exact act_settles hD rfl fun _ => ret_settles _
  | constant _ => exact ret_settles _

theorem replace_settles (hD : Unconcerned D rest) (keyref : UInt16) {cell : Cell}
    {value : cell.Value} (hcell : (Op.swap cell value).mirrors = false) :
    (replace keyref cell value : Action ε WriteSuccess).Follows D (Settles rest) rest :=
  act_settles hD hcell fun _ => ret_settles _

theorem writeValue_settles (hD : Unconcerned D rest) {keyref : UInt16}
    (hmirror : keyref = keyMirrorIn → ∀ value, (writeMirrorIn value).Follows D (Settles rest) rest)
    (value : ValueRef) : (writeValue keyref value).Follows D (Settles rest) rest := by
  have hprogram := writeValue_writing keyref value
  generalize writeValue keyref value = program at hprogram ⊢
  cases hprogram with
  | fails code => exact fail_settles code
  | replaces cell stored _ hshared _ =>
    have hcell : (Op.swap cell stored).mirrors = false := by cases cell <;> first | rfl | cases hshared
    exact replace_settles hD keyref hcell
  | mirrors text hkey _ => exact hmirror hkey text
  | stores stored _ _ => exact act_settles hD rfl fun _ => ret_settles _

theorem send_settles (hD : Unconcerned D rest) (c : ℕ) (frame : MessageRef) :
    (send c frame : Action ε Bool).Follows D (Settles rest) rest :=
  act_settles hD rfl fun _ => ret_settles _

theorem attempt_settles {ε' : Type} {p : Action ε α} (hp : p.Follows D (Settles rest) rest) :
    (p.attempt : Action ε' (Except ε α)).Follows D (Settles rest) rest :=
  follows_attempt.mpr (hp.mono fun _ _ => id)

theorem dispatchRequest_settles (hD : Unconcerned D rest) {request : RequestRef}
    (hmirror : ∀ written, request = .write keyMirrorIn written →
      ∀ value, (writeMirrorIn value).Follows D (Settles rest) rest) (c : ℕ) :
    (dispatchRequest c request).Follows D (Settles rest) rest := by
  cases request with
  | ping => exact send_settles hD c _
  | identify => exact send_settles hD c _
  | getKeytabLen => exact send_settles hD c _
  | getKey keyref =>
    simp only [dispatchRequest]
    cases keySpec keyref <;> exact send_settles hD c _
  | get keyref =>
    apply bind_settles (attempt_settles (getValue_settles hD keyref))
    intro result
    cases result <;> exact send_settles hD c _
  | write keyref value =>
    have hwrite : keyref = keyMirrorIn →
        ∀ value, (writeMirrorIn value).Follows D (Settles rest) rest :=
      fun hkey => hmirror value (by rw [hkey])
    apply bind_settles (attempt_settles (writeValue_settles hD hwrite value))
    intro result
    cases result with
    | error code => exact send_settles hD c _
    | ok success =>
      apply act_settles hD rfl
      intro sent
      apply follows_ite (fun _ => ret_settles _)
      intro _
      cases success.changedKeyref with
      | none => rfl
      | some changed => exact bind_settles (broadcastChanged_settles hD changed) fun _ => rfl
  | observe keyref =>
    simp only [dispatchRequest]
    cases canObserve keyref with
    | error code => exact send_settles hD c _
    | ok _ =>
      apply act_settles hD rfl
      intro sent
      exact follows_ite (fun _ => rfl) fun _ => act_settles hD rfl fun _ => ret_settles _
  | unobserve keyref =>
    simp only [dispatchRequest]
    cases validateKeyref keyref with
    | error code => exact send_settles hD c _
    | ok _ => exact act_settles hD rfl fun _ => send_settles hD c _

theorem updateVoltage_settles (hD : Unconcerned D rest) :
    (updateVoltage : Action ε Unit).Follows D (Settles rest) rest := by
  apply bind_settles (act_settles hD rfl fun _ => ret_settles _)
  intro offset
  apply act_settles hD rfl
  intro previous
  exact follows_ite (fun _ => broadcastChanged_settles hD _) fun _ => rfl

/-- Of all tasks, only the two that work on the mirror need a look. -/
theorem starts_settles (hD : Unconcerned D rest) {t : TaskId} {task : Task} (h : Starts t task)
    (hmirror : ∀ written, task.request = some (.write keyMirrorIn written) →
      ∀ value, (writeMirrorIn value).Follows D (Settles rest) rest)
    (hflush : ∀ j, t = .mirror j → ∀ generation,
      (flushMirrorUpdate generation : Action Empty Unit).Follows D (Settles rest) rest) :
    task.program.Follows D (Settles rest) rest := by
  cases h with
  | dispatch c message =>
    cases message with
    | request request =>
      have hwrite : ∀ written, request = .write keyMirrorIn written →
          ∀ value, (writeMirrorIn value).Follows D (Settles rest) rest := by
        intro written hrequest
        apply hmirror written
        rw [hrequest]
        rfl
      exact dispatchRequest_settles hD hwrite c
    | compatibilityRequest => exact send_settles hD c _
    | _ => rfl
  | voltage => exact bind_settles (updateVoltage_settles hD) fun _ => rfl
  | mirror j generation => exact bind_settles (hflush j rfl generation) fun _ => rfl

end
theorem saturatingSucc_eq {generation : UInt64} (h : generation + 1 ≠ 0) :
    saturatingSucc generation = generation + 1 := by
  have hlt := generation.toNat_lt
  have hmax : generation.toNat ≠ 2 ^ 64 - 1 := by
    intro heq
    apply h
    rw [← UInt64.toNat_inj, UInt64.toNat_add, heq]
    rfl
  rw [← UInt64.toNat_inj, saturatingSucc, UInt64.toNat_add, UInt64.toNat_ofNat']
  simp only [UInt64.toNat_one]
  omega

def promised : (o : Op) → o.Res → Option Op
  | .swap .mirrorIn value, _ => some (.swap .mirrorPending value)
  | .swap .mirrorPending _, _ => some (.fetchAdd .mirrorGeneration 1)
  | .fetchAdd .mirrorGeneration _, generation =>
    some (.scheduleMirrorUpdate (saturatingSucc generation))
  | .load .mirrorPending, value => some (.swap .mirrorOut value)
  | _, _ => none

def Concerned (t : TaskId) (request : Option RequestRef) : Prop :=
  (∃ j, t = .mirror j) ∨ ∃ value, request = some (.write keyMirrorIn value)

/-- A promised request is made, and only the tasks concerned touch the mirror. -/
def promises (t : TaskId) (request : Option RequestRef) : Discipline Op.Res (Option Op) where
  allows promise o := (∀ o' ∈ promise, o = o') ∧ (o.mirrors → Concerned t request) ∧
    ∀ amount, o = .fetchAdd .mirrorGeneration amount → amount = 1
  next _ := promised

theorem promised_of_not_mirrors {o : Op} (h : o.mirrors = false) (r : o.Res) :
    promised o r = none := by
  cases o with
  | load cell => cases cell <;> first | rfl | cases h
  | swap cell value => cases cell <;> first | rfl | cases h
  | fetchAdd counter amount => cases counter <;> first | rfl | cases h
  | _ => rfl

theorem promises_unconcerned (t : TaskId) (request : Option RequestRef) :
    Unconcerned (promises t request) none := by
  intro o ho
  refine ⟨⟨by simp, by simp [ho], ?_⟩, promised_of_not_mirrors ho⟩
  rintro amount rfl
  cases ho

theorem starts_promises {t : TaskId} {task : Task} (h : Starts t task) :
    task.program.Follows (promises t task.request) (Settles none) none := by
  apply starts_settles (promises_unconcerned t task.request) h
  · intro written hrequest value
    have hconcerned : Concerned t task.request := .inr ⟨written, hrequest⟩
    refine ⟨⟨by simp, fun _ => hconcerned, by simp⟩, fun _ => ?_⟩
    refine ⟨⟨by simp [promised, promises], fun _ => hconcerned, by simp⟩, fun _ => ?_⟩
    refine ⟨⟨by simp [promised, promises], fun _ => hconcerned, by simp⟩, fun _ => ?_⟩
    exact ⟨⟨by simp [promised, promises], fun _ => hconcerned, by simp⟩, fun _ => rfl⟩
  · intro j ht generation
    have hconcerned : Concerned t task.request := .inl ⟨j, ht⟩
    refine ⟨⟨by simp, fun _ => hconcerned, by simp⟩, fun current => ?_⟩
    apply follows_ite (fun _ => ret_settles _)
    intro _
    refine ⟨⟨by simp, fun _ => hconcerned, by simp⟩, fun value => ?_⟩
    refine ⟨⟨by simp [promised, promises], fun _ => hconcerned, by simp⟩, fun previous => ?_⟩
    apply follows_ite
    · exact fun _ => broadcastChanged_settles (promises_unconcerned t task.request) _
    · exact fun _ => rfl

theorem next_of_promise {t : TaskId} {task : Task} {o : Op}
    (h : task.program.Follows (promises t task.request) (Settles none) (some o)) :
    task.next = some o := by
  unfold Task.next
  cases hprogram : task.program with
  | ret a =>
    rw [hprogram] at h
    cases h
  | fail e => cases e
  | act o' k =>
    rw [hprogram] at h
    exact congrArg some (h.1.1 o rfl)

def Node.Promising (s : Node) : Prop :=
  ∀ t task, s.task t = some task →
    ∃ promise, task.program.Follows (promises t task.request) (Settles none) promise

theorem promising_initial (seed : UInt64) : (Node.initial seed).Promising := by
  intro t task h
  cases t <;> simp [Node.initial, Node.task] at h

theorem promising_step {s s' : Node} {l : Label} (hs : s.Promising) (h : s.step l = some s') :
    s'.Promising := by
  intro t task ht
  cases Node.step_moves h with
  | outside _ _ _ htask =>
    rcases htask t task ht with hold | hstart
    · exact hs t task hold
    · exact ⟨none, starts_promises hstart⟩
  | @act t' task' o k htask hprogram =>
    rcases Node.task_act s htask ht with ⟨rfl, rfl⟩ | ⟨_, hold | hstart⟩
    · obtain ⟨promise, hfollows⟩ := hs t task' htask
      rw [hprogram] at hfollows
      exact ⟨_, hfollows.2 _⟩
    · exact hs t task hold
    · exact ⟨none, starts_promises hstart⟩

section
variable {s : Node} {t : TaskId} {task : Task} {o : Op} {k : o.Res → Action Empty Bool}

theorem concerned_of_mirrors (hs : s.Promising) (htask : s.task t = some task)
    (hnext : task.next = some o) (ho : o.mirrors) : Concerned t task.request := by
  obtain ⟨k, hprogram⟩ := Task.next_eq hnext
  obtain ⟨promise, hfollows⟩ := hs t task htask
  rw [hprogram] at hfollows
  exact hfollows.1.2.1 ho

theorem next_advance (hs : s.Promising) (htask : s.task t = some task)
    (hprogram : task.program = .act o k) {o' : Op} (ho : promised o (s.answer o) = some o') :
    (s.advance task o k).next = some o' := by
  obtain ⟨promise, hfollows⟩ := hs t task htask
  rw [hprogram] at hfollows
  have hrest := hfollows.2 (s.answer o)
  apply @next_of_promise t
  rw [← ho]
  exact hrest

theorem amount_eq_one {amount : UInt64}
    {k : (Op.fetchAdd .mirrorGeneration amount).Res → Action Empty Bool} (hs : s.Promising)
    (htask : s.task t = some task) (hprogram : task.program = .act _ k) : amount = 1 := by
  obtain ⟨promise, hfollows⟩ := hs t task htask
  rw [hprogram] at hfollows
  exact hfollows.1.2.2 amount rfl

end
end Qup.TestNode
