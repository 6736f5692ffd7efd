import Qup.TestNode.Sound

/-!
# Handling one request

A connection's task from the frame to its end, while no other connection's request
is under way. The background tasks go on meanwhile: what they store and announce is
their noise, and without it the requests that the task makes are all there is.
-/

namespace Qup.TestNode
open Foundation Foundation.Program

def isChanged : MessageRef → Bool
  | .changed _ => true
  | _ => false

@[ext] structure Seen where
  store : (cell : Cell) → cell.Value
  frames : ℕ → List MessageRef

/-- An announcement by a background task that stores into a noisy cell. -/
def isNoise (noise : Cell → Bool) (frame : MessageRef) : Bool :=
  [Cell.voltageMa, .mirrorOut].any fun cell =>
    noise cell && decide (cell.keyref.map encodeChanged = some frame)

def quiet (noise : Cell → Bool) (frames : List MessageRef) : List MessageRef :=
  frames.filter fun frame => !isNoise noise frame

namespace Seen

def set (σ : Seen) (noise : Cell → Bool) (cell : Cell) (value : cell.Value) : Seen :=
  if noise cell then σ else { σ with store := Function.update σ.store cell value }

def put (σ : Seen) (noise : Cell → Bool) (d : ℕ) (frame : MessageRef) : Seen :=
  if isNoise noise frame then σ
  else { σ with frames := Function.update σ.frames d (σ.frames d ++ [frame]) }

end Seen

namespace Node

def frames (s : Node) (d : ℕ) : List MessageRef := (s.queue d).map Sent.frame

def seen (s : Node) (noise : Cell → Bool) : Seen where
  store cell := if noise cell then cell.initial else s.store cell
  frames d := quiet noise (s.frames d)

def added (s s' : Node) (d : ℕ) : List MessageRef :=
  ((s'.queue d).drop (s.queue d).length).map Sent.frame

def responses (s s' : Node) (d : ℕ) : List MessageRef :=
  (s.added s' d).filter fun frame => !isChanged frame

end Node

/-- What a request of a task of connection `c` may answer and lead to. `alive`: the
writer of the connection still takes frames. -/
def Acts (noise : Cell → Bool) (c : ℕ) (alive : Prop) : (o : Op) → Seen → o.Res → Seen → Prop
  | .load cell, σ, value, τ => (noise cell = false → value = σ.store cell) ∧ τ = σ
  | .swap cell value, σ, previous, τ =>
    (noise cell = false → previous = σ.store cell) ∧ τ = σ.set noise cell value
  | .send d frame, σ, sent, τ =>
    sent = true ∧ τ = σ.put noise d frame ∨ sent = false ∧ τ = σ ∧ (alive → d ≠ c)
  | _, σ, _, τ => τ = σ

section
variable {noise : Cell → Bool} {s : Node} {t : TaskId} {task : Task} {o : Op}
  {k : o.Res → Action Empty Bool}

theorem seen_congr {s' : Node} (hstore : s'.store = s.store) (hqueue : s'.queue = s.queue) :
    s'.seen noise = s.seen noise := by
  simp only [Node.seen, Node.frames, hstore, hqueue]

theorem seen_put {s' : Node} {d : ℕ} {entry : Sent} (hstore : s'.store = s.store)
    (hqueue : ∀ c, s'.queue c = if d = c then s.queue c ++ [entry] else s.queue c) :
    s'.seen noise = (s.seen noise).put noise d entry.frame := by
  have hframes (c : ℕ) : quiet noise (s'.frames c) =
      if d = c then quiet noise (s.frames c) ++ quiet noise [entry.frame]
      else quiet noise (s.frames c) := by
    rw [Node.frames, hqueue]
    split_ifs
    · simp [quiet, Node.frames]
    · rfl
  unfold Seen.put
  split_ifs with hnoise
  · have hnone : quiet noise [entry.frame] = [] := by simp [quiet, hnoise]
    ext c : 2
    · simp only [Node.seen, hstore]
    · simp [Node.seen, hframes, hnone]
  · have hone : quiet noise [entry.frame] = [entry.frame] := by simp [quiet, hnoise]
    ext c : 2
    · simp only [Node.seen, hstore]
    · by_cases hc : d = c
      · subst hc
        simp [Node.seen, hframes, hone]
      · simp [Node.seen, hframes, hc, Function.update_of_ne (Ne.symm hc)]

theorem seen_set {s' : Node} {cell : Cell} {value : cell.Value}
    (hstore : s'.store = Function.update s.store cell value) (hqueue : s'.queue = s.queue) :
    s'.seen noise = (s.seen noise).set noise cell value := by
  unfold Seen.set
  split_ifs with hnoise
  · ext other : 2
    · by_cases hcell : other = cell
      · subst hcell
        simp [Node.seen, hnoise]
      · simp [Node.seen, hstore, Function.update_of_ne hcell]
    · simp only [Node.seen, Node.frames, hqueue]
  · ext other : 2
    · by_cases hcell : other = cell
      · subst hcell
        simp [Node.seen, hnoise, hstore]
      · simp [Node.seen, hstore, Function.update_of_ne hcell]
    · simp only [Node.seen, Node.frames, hqueue]

theorem queue_performed (hquiet : ∀ d frame, o ≠ .send d frame) :
    (s.performed t task o k).queue = s.queue := by
  funext c
  rw [Node.performed, Node.queue_setTask]
  rcases s.queue_effect_cases t task o c with hsame | ⟨frame, hsend, -, -⟩
  · exact hsame
  · exact absurd hsend (hquiet c frame)

theorem store_performed (hstores : ∀ cell value, o ≠ .swap cell value) :
    (s.performed t task o k).store = s.store := by
  funext cell
  exact Node.performed_store (hstores cell)

theorem seen_swap {cell : Cell} {value : cell.Value}
    {k : (Op.swap cell value).Res → Action Empty Bool} :
    (s.performed t task (.swap cell value) k).seen noise =
      (s.seen noise).set noise cell value := by
  refine seen_set ?_ (queue_performed nofun)
  rw [Node.performed, Node.store_setTask]
  rfl

theorem queue_performed_send {d : ℕ} {frame : MessageRef}
    {k : (Op.send d frame).Res → Action Empty Bool} (c : ℕ) :
    (s.performed t task (.send d frame) k).queue c =
      if d = c ∧ s.writing c then s.queue c ++ [s.entry t task c frame] else s.queue c := by
  rw [Node.performed, Node.queue_setTask, Node.queue_effect]

theorem seen_send {d : ℕ} {frame : MessageRef} {k : (Op.send d frame).Res → Action Empty Bool}
    (hwriting : s.writing d) :
    (s.performed t task (.send d frame) k).seen noise = (s.seen noise).put noise d frame := by
  refine @seen_put _ _ _ _ (s.entry t task d frame) (store_performed nofun) fun c => ?_
  rw [queue_performed_send]
  by_cases hd : d = c
  · subst hd
    simp [hwriting]
  · simp [hd]

theorem seen_refused {d : ℕ} {frame : MessageRef} {k : (Op.send d frame).Res → Action Empty Bool}
    (hwriting : ¬ s.writing d) :
    (s.performed t task (.send d frame) k).seen noise = s.seen noise := by
  refine seen_congr (store_performed nofun) (funext fun c => ?_)
  rw [queue_performed_send]
  by_cases hd : d = c
  · subst hd
    simp [hwriting]
  · simp [hd]

theorem acts_performed {c : ℕ} {alive : Prop} (halive : alive → s.writing c) :
    Acts noise c alive o (s.seen noise) (s.answer o) ((s.performed t task o k).seen noise) := by
  cases o with
  | load cell =>
    refine ⟨fun hnoise => by simp [Node.seen, Node.answer, hnoise], ?_⟩
    exact seen_congr (store_performed nofun) (queue_performed nofun)
  | swap cell value =>
    exact ⟨fun hnoise => by simp [Node.seen, Node.answer, hnoise], seen_swap⟩
  | send d frame =>
    by_cases hwriting : s.writing d
    · exact .inl ⟨hwriting, seen_send hwriting⟩
    · refine .inr ⟨Bool.not_eq_true _ ▸ hwriting, seen_refused hwriting, fun h => ?_⟩
      rintro rfl
      exact hwriting (halive h)
  | _ => exact seen_congr (store_performed nofun) (queue_performed nofun)

theorem seen_background (hkeeps : Keeps t task.program) (hprogram : task.program = .act o k)
    {cell : Cell} (hstores : t.stores = some cell) (hnoise : noise cell) :
    (s.performed t task o k).seen noise = s.seen noise := by
  rw [hprogram] at hkeeps
  have hasks := hkeeps.1
  have hbackground {P : Prop} (h : (∃ c, t = .connection c) ∨ P) : P := by
    rcases h with ⟨c, rfl⟩ | h
    · cases hstores
    · exact h
  cases o with
  | swap other value =>
    have hcell := hbackground hasks.2
    rw [hstores] at hcell
    cases hcell
    rw [seen_swap, Seen.set, if_pos hnoise]
  | send d frame =>
    obtain ⟨other, keyref, hother, hkeyref, rfl⟩ := hbackground hasks
    rw [hstores] at hother
    cases hother
    have hframe : isNoise noise (encodeChanged keyref) := by
      simp only [isNoise, List.any_eq_true, Bool.and_eq_true]
      refine ⟨cell, ?_, hnoise, by simp [hkeyref]⟩
      cases t <;> cases hstores <;> simp
    by_cases hwriting : s.writing d
    · rw [seen_send hwriting, Seen.put, if_pos hframe]
    · exact seen_refused hwriting
  | _ => exact seen_congr (store_performed nofun) (queue_performed nofun)

end

def Label.stirs (cell : Cell) : Label → Bool
  | .act t => t.stores = some cell
  | _ => false

def Label.Beside (only : Option ℕ) : Label → Prop
  | .receive _ frame => frame = none
  | .act (.connection d) => only = some d
  | _ => True

/-- Connection `c` receives the request, and the steps `ls` lead to the end of its task, with no
request of another connection between them. -/
structure Handles (c : ℕ) (request : RequestRef) (s : Node) (ls : List Label) (s' : Node) :
    Prop where
  receives : ∃ frame s₁, readNextMessage frame = some (.request request) ∧
    s.step (.receive c (some frame)) = some s₁ ∧
    Path Node.step (fun u l => u.task (.connection c) ≠ none ∧ l.Beside (some c)) s₁ ls s'
  through : s'.task (.connection c) = none

def noiseOf (ls : List Label) (cell : Cell) : Bool := ls.any fun l => l.stirs cell

section
variable {noise : Cell → Bool} {s s' : Node} {ls : List Label} {c : ℕ}

theorem writing_performed {t : TaskId} {task : Task} {o : Op} {k : o.Res → Action Empty Bool} :
    (s.performed t task o k).writing = s.writing := by
  rw [Node.performed, Node.writing_setTask]
  cases o with
  | send d frame => exact s.writing_send t task d frame
  | observe d keyref => exact s.writing_modify_of_eq fun _ => rfl
  | unobserve d keyref => exact s.writing_modify_of_eq fun _ => rfl
  | _ => rfl

theorem writing_of_step {l : Label} (h : s.step l = some s') (hc : s.task (.connection c) ≠ none)
    (hwriting : s'.writing c) : s.writing c := by
  have hlt : c < s.connections.length := by
    by_contra hge
    apply hc
    rw [Node.task, List.getElem?_eq_none (Nat.le_of_not_lt hge)]
    rfl
  rcases Node.step_stays h with hstays | ⟨t, task, o, k, rfl, htask, hprogram, rfl⟩
  · exact hstays.writing c hlt hwriting
  · rwa [writing_performed] at hwriting

theorem seen_beside {l : Label} (hs : s.Sound) (h : s.step l = some s')
    (hbeside : l.Beside none) (hnoise : ∀ cell, l.stirs cell → noise cell) :
    s'.seen noise = s.seen noise := by
  rcases Node.step_stays h with hstays | ⟨t, task, o, k, rfl, htask, hprogram, rfl⟩
  · exact seen_congr hstays.store hstays.queue
  · cases t with
    | connection d => cases hbeside
    | voltage => exact seen_background (hs.tasks _ _ htask) hprogram rfl (hnoise _ rfl)
    | mirror j => exact seen_background (hs.tasks _ _ htask) hprogram rfl (hnoise _ rfl)

def Node.Handling (noise : Cell → Bool) (c : ℕ) (alive : Prop)
    (P : Except Empty Bool → Seen → Prop) (s : Node) : Prop :=
  (∃ task, s.task (.connection c) = some task ∧
    task.program.Assures (Acts noise c alive) P (s.seen noise)) ∨
  s.task (.connection c) = none ∧ ∃ result, P result (s.seen noise)

variable {alive : Prop} {P : Except Empty Bool → Seen → Prop}

theorem handling_step {l : Label} {task : Task} (hs : s.Sound) (h : s.step l = some s')
    (hbeside : l.Beside (some c)) (hnoise : ∀ cell, l.stirs cell → noise cell)
    (halive : alive → s.writing c) (htask : s.task (.connection c) = some task)
    (hprogram : task.program.Assures (Acts noise c alive) P (s.seen noise)) :
    s'.Handling noise c alive P := by
  rcases Node.step_stays h with hstays | ⟨t, task', o, k, rfl, htask', hprogram', rfl⟩
  · have hseen : s'.seen noise = s.seen noise := seen_congr hstays.store hstays.queue
    rw [← hseen] at hprogram
    cases hafter : s'.task (.connection c) with
    | some after =>
      obtain rfl := hstays.kept _ _ _ htask hafter
      exact .inl ⟨after, hafter, hprogram⟩
    | none =>
      have hnext : task.next = none := by
        by_contra hbusy
        rw [hstays.busy _ _ htask hbusy] at hafter
        cases hafter
      refine .inr ⟨hafter, ?_⟩
      cases hreturn : task.program with
      | ret result =>
        rw [hreturn] at hprogram
        exact ⟨.ok result, hprogram⟩
      | fail e => cases e
      | act o k =>
        rw [Task.next, hreturn] at hnext
        cases hnext
  · by_cases ht : t = .connection c
    · subst ht
      rw [htask] at htask'
      cases htask'
      rw [hprogram'] at hprogram
      exact .inl ⟨_, Node.performed_task htask, hprogram _ _ (acts_performed halive)⟩
    · have hbackground : Label.Beside none (.act t) := by
        cases t with
        | connection d =>
          cases hbeside
          exact absurd rfl ht
        | _ => trivial
      rw [← seen_beside hs h hbackground hnoise] at hprogram
      exact .inl ⟨task, Node.performed_task_ne (Ne.symm ht) htask, hprogram⟩

theorem handling_run (hpath : Path Node.step (fun u l => (u.task (.connection c) ≠ none ∧
      l.Beside (some c)) ∧ ∀ cell, l.stirs cell → noise cell) s ls s') (hs : s.Sound)
    (hstart : s.Handling noise c alive P) (halive : alive → s'.writing c) :
    s'.Handling noise c alive P := by
  induction hpath with
  | nil => exact hstart
  | snoc hpath hguard hstep ih =>
    obtain ⟨⟨hbusy, hbeside⟩, hnoise⟩ := hguard
    have hwriting (h : alive) := writing_of_step hstep hbusy (halive h)
    have hsound := hpath.invariant Node.Sound hs fun _ _ _ hu _ hstep => nodeSound_step hu hstep
    rcases ih hwriting with ⟨task, htask, hprogram⟩ | ⟨hnone, -⟩
    · exact handling_step hsound hstep hbeside hnoise hwriting htask hprogram
    · exact absurd hnone hbusy

theorem seen_between (hpath : Path Node.step (fun _ l => l.Beside none ∧
      ∀ cell, l.stirs cell → noise cell) s ls s') (hs : s.Sound) :
    s'.seen noise = s.seen noise := by
  induction hpath with
  | nil => rfl
  | snoc hpath hguard hstep ih =>
    have hsound := hpath.invariant Node.Sound hs fun _ _ _ hu _ hstep => nodeSound_step hu hstep
    rw [seen_beside hsound hstep hguard.1 hguard.2, ih]

theorem task_receive {frame : List UInt8} {message : MessageRef}
    (hread : readNextMessage frame = some message)
    (h : s.step (.receive c (some frame)) = some s') :
    s'.task (.connection c) = some (.dispatch c message) := by
  simp only [Node.step] at h
  split at h
  · rename_i hstage
    cases h
    obtain ⟨conn, hconn, -⟩ := Option.map_eq_some_iff.mp hstage
    simp only [Node.receive, Option.bind_some, hread, Node.setStage, Node.task_modify, if_true,
      hconn]
    rfl
  · cases h

theorem stays_receive {frame : List UInt8} (h : s.step (.receive c (some frame)) = some s') :
    s.Stays s' := by
  rcases Node.step_stays h with hstays | ⟨_, _, _, _, hlabel, _⟩
  · exact hstays
  · cases hlabel

theorem Handles.assured {request : RequestRef} (h : Handles c request s ls s') (hs : s.Sound)
    (hnoise : ∀ cell, noiseOf ls cell → noise cell) (halive : alive → s'.writing c)
    (hprogram : (dispatchRequest c request).Assures (Acts noise c alive) P (s.seen noise)) :
    ∃ result, P result (s'.seen noise) := by
  obtain ⟨frame, s₁, hread, hstep, hpath⟩ := h.receives
  have hstays := stays_receive hstep
  have hseen : s₁.seen noise = s.seen noise := seen_congr hstays.store hstays.queue
  rw [← hseen] at hprogram
  have hstart : s₁.Handling noise c alive P := .inl ⟨_, task_receive hread hstep, hprogram⟩
  have hguarded := hpath.with_mem.mono (Q := fun u l => (u.task (.connection c) ≠ none ∧
    l.Beside (some c)) ∧ ∀ cell, l.stirs cell → noise cell) fun u l hl =>
      ⟨hl.1, fun cell hstirs => hnoise cell (List.any_eq_true.mpr ⟨l, hl.2, hstirs⟩)⟩
  rcases handling_run hguarded (nodeSound_step hs hstep) hstart halive with
    ⟨task, htask, -⟩ | ⟨-, hresult⟩
  · rw [h.through] at htask
    cases htask
  · exact hresult

theorem queue_of_step {l : Label} (h : s.step l = some s') (d : ℕ) :
    ∃ more, s'.queue d = s.queue d ++ more := by
  rcases Node.step_stays h with hstays | ⟨t, task, o, k, rfl, htask, hprogram, rfl⟩
  · exact ⟨[], by rw [hstays.queue, List.append_nil]⟩
  · rw [Node.performed, Node.queue_setTask]
    rcases s.queue_effect_cases t task o d with hsame | ⟨frame, -, -, hput⟩
    · exact ⟨[], by rw [hsame, List.append_nil]⟩
    · exact ⟨_, hput⟩

theorem queue_of_path {G : Node → Label → Prop} (h : Path Node.step G s ls s') (d : ℕ) :
    ∃ more, s'.queue d = s.queue d ++ more := by
  induction h with
  | nil => exact ⟨[], (List.append_nil _).symm⟩
  | snoc _ _ hstep ih =>
    obtain ⟨more, hmore⟩ := ih
    obtain ⟨last, hlast⟩ := queue_of_step hstep d
    exact ⟨more ++ last, by rw [hlast, hmore, List.append_assoc]⟩

theorem Handles.path {request : RequestRef} (h : Handles c request s ls s') :
    ∃ l, Path Node.step (fun _ _ => True) s (l :: ls) s' := by
  obtain ⟨frame, s₁, -, hstep, hpath⟩ := h.receives
  exact ⟨_, .cons trivial hstep (hpath.mono fun _ _ _ => trivial)⟩

theorem Handles.frames {request : RequestRef} (h : Handles c request s ls s') (d : ℕ) :
    s'.frames d = s.frames d ++ s.added s' d := by
  obtain ⟨l, hpath⟩ := h.path
  obtain ⟨more, hmore⟩ := queue_of_path hpath d
  rw [Node.frames, Node.frames, Node.added, hmore, List.drop_left, List.map_append]

theorem Handles.quiet_added {request : RequestRef} (h : Handles c request s ls s') {d : ℕ}
    {new : List MessageRef} (hframes : (s'.seen noise).frames d = (s.seen noise).frames d ++ new) :
    quiet noise (s.added s' d) = new := by
  simp only [Node.seen, h.frames d, quiet, List.filter_append] at hframes
  exact List.append_cancel_left hframes

theorem filter_quiet (frames : List MessageRef) :
    (quiet noise frames).filter (fun frame => !isChanged frame) =
      frames.filter fun frame => !isChanged frame := by
  rw [quiet, List.filter_filter]
  congr 1
  funext frame
  cases frame with
  | changed keyref => simp [isChanged]
  | _ => simp [isChanged, isNoise, encodeChanged]

end
end Qup.TestNode
