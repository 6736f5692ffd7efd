import Qup.TestNode.Moves
import Qup.TestNode.Values

/-!
# Values and announcements

A `VALUE` that stands after a `CHANGED` of its key in a connection's queue was
read after the announced update, except for the first response after the
`CHANGED`, whose `GET` may already have read the store when the `CHANGED` was put
in. Ages are positions in the log of accesses to stored values.
-/

namespace Qup.TestNode
open Foundation Foundation.Program

theorem Cell.keyref_injective {a b : Cell} {keyref : UInt16} (ha : a.keyref = some keyref)
    (hb : b.keyref = some keyref) : a = b := by
  cases a <;> cases b <;> first | rfl | cases ha <;> cases hb

def Sent.IsResponse (entry : Sent) : Prop := ∀ keyref, entry.frame ≠ encodeChanged keyref

structure Trace where
  last : Option Access
  responded : Bool

def Access.Changes (keyref : UInt16) (access : Access) : Prop :=
  ∃ cell previous value, access = .swap cell previous value ∧ previous ≠ value ∧
    cell.keyref = some keyref

def Reads (last : Option Access) (keyref : UInt16) (value : ValueRef) : Prop :=
  ∀ cell, cell.keyref = some keyref → ∃ stored, last = some (.load cell stored) ∧
    value = (cell.wire stored).valueRef

def Trace.after (trace : Trace) : (o : Op) → o.Res → Trace
  | .load cell, value => { trace with last := some (.load cell value) }
  | .swap cell value, previous => { trace with last := some (.swap cell previous value) }
  | .send _ (.changed _), _ => trace
  | .send _ _, _ => { trace with responded := true }
  | _, _ => trace

def Trace.Allows (t : TaskId) (request : Option RequestRef) (trace : Trace) : Op → Prop
  | .send c frame =>
    (∀ keyref, frame = encodeChanged keyref →
        ∃ access, trace.last = some access ∧ access.Changes keyref) ∧
      ((∀ keyref, frame ≠ encodeChanged keyref) → t = .connection c ∧ trace.responded = false ∧
        ∀ keyref value, request = some (.get keyref) →
          frame = .ordinaryResponse (.value value) → Reads trace.last keyref value)
  | _ => True

/-- `CHANGED` follows the update it announces; a message is answered once, and
`VALUE` carries what the task has read last. -/
def freshness (t : TaskId) (request : Option RequestRef) : Discipline Op.Res Trace where
  allows := Trace.Allows t request
  next := Trace.after

section
variable {t : TaskId} {request : Option RequestRef} {ε : Type} {trace : Trace}

theorem notifyAll_freshness {access : Access} {keyref : UInt16} (hlast : trace.last = some access)
    (hchanges : access.Changes keyref) (connections : List ℕ) :
    (notifyAll keyref connections : Action ε Unit).Follows (freshness t request) (fun _ _ => True)
      trace := by
  induction connections with
  | nil => trivial
  | cons c connections ih =>
    refine ⟨trivial, fun observing => ?_⟩
    cases observing with
    | false => exact ih
    | true =>
      refine ⟨⟨fun other h => ?_, fun h => absurd rfl (h keyref)⟩, fun _ => ih⟩
      cases h
      exact ⟨access, hlast, hchanges⟩

theorem broadcastChanged_freshness {access : Access} {keyref : UInt16}
    (hlast : trace.last = some access) (hchanges : access.Changes keyref) :
    (broadcastChanged keyref : Action ε Unit).Follows (freshness t request) (fun _ _ => True)
      trace :=
  ⟨trivial, fun connections => notifyAll_freshness hlast hchanges connections⟩

theorem nextVoltageOffset_freshness :
    (nextVoltageOffset : Action ε Int64).Follows (freshness t request) (fun _ _ => True) trace :=
  ⟨trivial, fun _ => trivial⟩

theorem updateVoltage_freshness :
    (updateVoltage : Action ε Unit).Follows (freshness t request) (fun _ _ => True) trace := by
  unfold updateVoltage
  rw [follows_bind]
  refine nextVoltageOffset_freshness.mono fun _ result _ => ?_
  cases result with
  | error e => trivial
  | ok offset =>
    refine ⟨trivial, fun previous => follows_ite (fun hne => ?_) fun _ => trivial⟩
    exact broadcastChanged_freshness rfl ⟨.voltageMa, previous, _, rfl, bne_iff_ne.mp hne, rfl⟩

theorem flushMirrorUpdate_freshness (generation : UInt64) :
    (flushMirrorUpdate generation : Action ε Unit).Follows (freshness t request) (fun _ _ => True)
      trace := by
  refine ⟨trivial, fun current => follows_ite (fun _ => trivial) fun _ => ?_⟩
  refine ⟨trivial, fun nextValue => ⟨trivial, fun previous => ?_⟩⟩
  refine follows_ite (fun hne => ?_) fun _ => trivial
  exact broadcastChanged_freshness rfl ⟨.mirrorOut, previous, nextValue, rfl, bne_iff_ne.mp hne, rfl⟩

def GetResult (keyref : UInt16) (trace : Trace) : Except UInt8 WireValue → Prop
  | .ok value => trace.responded = false ∧ Reads trace.last keyref value.valueRef
  | .error _ => trace.responded = false

theorem read_freshness {keyref : UInt16} {cell : Cell} (hcell : cell.keyref = some keyref)
    (h : trace.responded = false) :
    (read cell).Follows (freshness t request) (GetResult keyref) trace := by
  refine ⟨trivial, fun value => ⟨h, fun other hother => ?_⟩⟩
  obtain rfl := Cell.keyref_injective hcell hother
  exact ⟨value, rfl, rfl⟩

theorem getValue_freshness (keyref : UInt16) (h : trace.responded = false) :
    (getValue keyref).Follows (freshness t request) (GetResult keyref) trace := by
  have hprogram := getValue_getting keyref
  generalize getValue keyref = program at hprogram ⊢
  cases hprogram with
  | fails code => exact h
  | reads cell hcell => exact read_freshness hcell h
  | uptime hkey =>
    subst hkey
    exact ⟨trivial, fun _ => ⟨h, fun cell hcell => by cases cell <;> cases hcell⟩⟩
  | constant hkey =>
    subst hkey
    exact ⟨h, fun cell hcell => by cases cell <;> cases hcell⟩

def WriteResult (trace : Trace) : Except UInt8 WriteSuccess → Prop
  | .ok success => trace.responded = false ∧ ∀ keyref, success.changedKeyref = some keyref →
      ∃ access, trace.last = some access ∧ access.Changes keyref
  | .error _ => trace.responded = false

theorem replace_freshness {keyref : UInt16} {cell : Cell} (hcell : cell.keyref = some keyref)
    (h : trace.responded = false) (value : cell.Value) :
    (replace keyref cell value).Follows (freshness t request) WriteResult trace := by
  refine ⟨trivial, fun previous => ⟨h, fun changedKeyref hchanged => ?_⟩⟩
  simp only [observableChange] at hchanged
  split_ifs at hchanged with hne
  cases hchanged
  refine ⟨_, rfl, cell, previous, value, rfl, ?_, hcell⟩
  exact bne_iff_ne.mp (Bool.and_eq_true _ _ ▸ hne).1

theorem writeValue_freshness (keyref : UInt16) (value : ValueRef) (h : trace.responded = false) :
    (writeValue keyref value).Follows (freshness t request) WriteResult trace := by
  have hprogram := writeValue_writing keyref value
  generalize writeValue keyref value = program at hprogram ⊢
  cases hprogram with
  | fails code => exact h
  | replaces cell stored hcell _ _ => exact replace_freshness hcell h stored
  | mirrors text _ _ =>
    exact ⟨trivial, fun _ => ⟨trivial, fun _ => ⟨trivial, fun _ => ⟨trivial, fun _ => ⟨h, nofun⟩⟩⟩⟩⟩
  | stores stored _ _ => exact ⟨trivial, fun _ => ⟨h, nofun⟩⟩

theorem allows_response {c : ℕ} {frame : MessageRef} (h : trace.responded = false)
    (hframe : ∀ keyref, frame ≠ encodeChanged keyref)
    (hvalue : ∀ value, frame ≠ .ordinaryResponse (.value value)) :
    trace.Allows (.connection c) request (.send c frame) := by
  refine ⟨fun keyref hchanged => absurd hchanged (hframe keyref), fun _ => ⟨rfl, h, ?_⟩⟩
  exact fun _ value _ hv => absurd hv (hvalue value)

theorem dispatchRequest_freshness (c : ℕ) (request : RequestRef) (h : trace.responded = false) :
    (dispatchRequest c request).Follows (freshness (.connection c) (some request))
      (fun _ _ => True) trace := by
  cases request with
  | ping => exact ⟨allows_response h nofun nofun, fun _ => trivial⟩
  | identify => exact ⟨allows_response h nofun nofun, fun _ => trivial⟩
  | getKeytabLen => exact ⟨allows_response h nofun nofun, fun _ => trivial⟩
  | getKey keyref =>
    simp only [dispatchRequest]
    cases keySpec keyref <;> exact ⟨allows_response h nofun nofun, fun _ => trivial⟩
  | get keyref =>
    simp only [dispatchRequest]
    rw [follows_bind, follows_attempt]
    refine (getValue_freshness keyref h).mono fun trace' result hresult => ?_
    cases result with
    | error code => exact ⟨allows_response hresult nofun nofun, fun _ => trivial⟩
    | ok value =>
      refine ⟨⟨nofun, fun _ => ⟨rfl, hresult.1, fun other sent hrequest hsent => ?_⟩⟩,
        fun _ => trivial⟩
      cases hrequest
      cases hsent
      exact hresult.2
  | write keyref value =>
    simp only [dispatchRequest]
    rw [follows_bind, follows_attempt]
    refine (writeValue_freshness keyref value h).mono fun trace' result hresult => ?_
    cases result with
    | error code => exact ⟨allows_response hresult nofun nofun, fun _ => trivial⟩
    | ok success =>
      obtain ⟨hresponded, hchanged⟩ := hresult
      refine ⟨allows_response hresponded nofun nofun, fun sent => ?_⟩
      refine follows_ite (fun _ => trivial) fun _ => ?_
      cases hkeyref : success.changedKeyref with
      | none => trivial
      | some changedKeyref =>
        obtain ⟨access, hlast, hchanges⟩ := hchanged changedKeyref hkeyref
        have hnext : (trace'.after (.send c (encodeWritten success.value)) sent).last = some access :=
          hlast
        rw [follows_bind]
        refine (broadcastChanged_freshness hnext hchanges).mono fun _ result _ => ?_
        cases result <;> trivial
  | observe keyref =>
    simp only [dispatchRequest]
    cases canObserve keyref with
    | error code => exact ⟨allows_response h nofun nofun, fun _ => trivial⟩
    | ok _ =>
      refine ⟨allows_response h nofun nofun, fun sent => ?_⟩
      exact follows_ite (fun _ => trivial) fun _ => ⟨trivial, fun _ => trivial⟩
  | unobserve keyref =>
    simp only [dispatchRequest]
    cases validateKeyref keyref with
    | error code => exact ⟨allows_response h nofun nofun, fun _ => trivial⟩
    | ok _ => exact ⟨trivial, fun _ => ⟨allows_response h nofun nofun, fun _ => trivial⟩⟩

theorem background_freshness {program : Action Empty Unit}
    (h : program.Follows (freshness t request) (fun _ _ => True) trace) :
    (Task.background program).program.Follows (freshness t request) (fun _ _ => True) trace := by
  rw [Task.background, follows_bind]
  refine h.mono fun _ result _ => ?_
  cases result <;> trivial

def Trace.start : Trace := ⟨none, false⟩

theorem starts_freshness {task : Task} (h : Starts t task) :
    task.program.Follows (freshness t task.request) (fun _ _ => True) .start := by
  cases h with
  | dispatch c message =>
    cases message with
    | request request => exact dispatchRequest_freshness c request rfl
    | compatibilityRequest => exact ⟨allows_response rfl nofun nofun, fun _ => trivial⟩
    | _ => trivial
  | voltage => exact background_freshness updateVoltage_freshness
  | mirror j generation => exact background_freshness (flushMirrorUpdate_freshness generation)

end
structure QueueFresh (log : List Access) (queue : List Sent) : Prop where
  ordered : queue.Pairwise fun a b => a.time ≤ b.time
  past : ∀ e ∈ queue, e.time ≤ log.length
  access : ∀ e ∈ queue, ∀ i, e.access = some i → i < e.time
  changed : ∀ e ∈ queue, ∀ keyref, e.frame = encodeChanged keyref →
    ∃ u access, e.access = some u ∧ log[u]? = some access ∧ access.Changes keyref
  value : ∀ e ∈ queue, ∀ keyref value, e.request = some (.get keyref) →
    e.frame = .ordinaryResponse (.value value) → ∀ cell, cell.keyref = some keyref →
      ∃ r stored, e.access = some r ∧ log[r]? = some (.load cell stored) ∧
        value = (cell.wire stored).valueRef
  responses : queue.Pairwise fun a b => a.IsResponse → b.IsResponse →
    ∀ r, b.access = some r → a.time ≤ r

theorem getElem?_log {log more : List Access} {i : ℕ} {access : Access}
    (h : log[i]? = some access) : (log ++ more)[i]? = some access := by
  rw [List.getElem?_append_left (List.getElem?_eq_some_iff.mp h).1]
  exact h

namespace QueueFresh
variable {log : List Access} {queue : List Sent}

theorem nil (log : List Access) : QueueFresh log [] where
  ordered := .nil
  past := by simp
  access := by simp
  changed := by simp
  value := by simp
  responses := .nil

theorem log_append (h : QueueFresh log queue) (more : List Access) :
    QueueFresh (log ++ more) queue where
  ordered := h.ordered
  past e he := by
    have hpast := h.past e he
    rw [List.length_append]
    omega
  access := h.access
  changed e he keyref hframe := by
    obtain ⟨u, access, hu, hlog, hchanges⟩ := h.changed e he keyref hframe
    exact ⟨u, access, hu, getElem?_log hlog, hchanges⟩
  value e he keyref value hrequest hframe cell hcell := by
    obtain ⟨r, stored, hr, hlog, hvalue⟩ := h.value e he keyref value hrequest hframe cell hcell
    exact ⟨r, stored, hr, getElem?_log hlog, hvalue⟩
  responses := h.responses

theorem put (h : QueueFresh log queue) {e : Sent} (htime : e.time = log.length)
    (haccess : ∀ i, e.access = some i → i < log.length)
    (hchanged : ∀ keyref, e.frame = encodeChanged keyref →
      ∃ u access, e.access = some u ∧ log[u]? = some access ∧ access.Changes keyref)
    (hvalue : ∀ keyref value, e.request = some (.get keyref) →
      e.frame = .ordinaryResponse (.value value) → ∀ cell, cell.keyref = some keyref →
        ∃ r stored, e.access = some r ∧ log[r]? = some (.load cell stored) ∧
          value = (cell.wire stored).valueRef)
    (hresponse : e.IsResponse → ∀ a ∈ queue, a.IsResponse → ∀ r, e.access = some r → a.time ≤ r) :
    QueueFresh log (queue ++ [e]) where
  ordered := by
    refine List.pairwise_append.mpr ⟨h.ordered, List.pairwise_singleton _ _, fun a ha b hb => ?_⟩
    rw [List.mem_singleton.mp hb, htime]
    exact h.past a ha
  past := by
    intro a ha
    rcases List.mem_append.mp ha with ha | ha
    · exact h.past a ha
    · rw [List.mem_singleton.mp ha, htime]
  access := by
    intro a ha
    rcases List.mem_append.mp ha with ha | ha
    · exact h.access a ha
    · rw [List.mem_singleton.mp ha, htime]
      exact haccess
  changed := by
    intro a ha
    rcases List.mem_append.mp ha with ha | ha
    · exact h.changed a ha
    · rw [List.mem_singleton.mp ha]
      exact hchanged
  value := by
    intro a ha
    rcases List.mem_append.mp ha with ha | ha
    · exact h.value a ha
    · rw [List.mem_singleton.mp ha]
      exact hvalue
  responses := by
    refine List.pairwise_append.mpr ⟨h.responses, List.pairwise_singleton _ _, fun a ha b hb => ?_⟩
    rw [List.mem_singleton.mp hb]
    exact fun hra hrb r hr => hresponse hrb a ha hra r hr

/-- The value was read after the announced update, or the `GET` had read it when the `CHANGED`
was put in and was answered next. -/
theorem value_after_changed (h : QueueFresh log queue) {before between after : List Sent}
    {changed value : Sent} (hsplit : queue = before ++ changed :: (between ++ value :: after))
    {keyref : UInt16} {v : ValueRef} (hchanged : changed.frame = encodeChanged keyref)
    (hrequest : value.request = some (.get keyref))
    (hvalue : value.frame = .ordinaryResponse (.value v)) :
    ∃ cell previous new stored u r, cell.keyref = some keyref ∧
      changed.access = some u ∧ log[u]? = some (.swap cell previous new) ∧ previous ≠ new ∧
      value.access = some r ∧ log[r]? = some (.load cell stored) ∧
      v = (cell.wire stored).valueRef ∧
      (u < r ∨ r < changed.time ∧ ∀ e ∈ between, ¬ e.IsResponse) := by
  have hchangedMem : changed ∈ queue := by simp [hsplit]
  have hvalueMem : value ∈ queue := by simp [hsplit]
  obtain ⟨u, access, hu, hlogu, cell, previous, new, rfl, hne, hcell⟩ :=
    h.changed changed hchangedMem keyref hchanged
  obtain ⟨r, stored, hr, hlogr, hv⟩ := h.value value hvalueMem keyref v hrequest hvalue cell hcell
  refine ⟨cell, previous, new, stored, u, r, hcell, hu, hlogu, hne, hr, hlogr, hv, ?_⟩
  have hulate := h.access changed hchangedMem u hu
  by_cases hread : r < changed.time
  · refine .inr ⟨hread, fun e he hresponse => ?_⟩
    have hordered := h.ordered
    have hresponses := h.responses
    rw [hsplit] at hordered hresponses
    have hlater : changed.time ≤ e.time :=
      (List.pairwise_cons.mp (List.pairwise_append.mp hordered).2.1).1 e (by simp [he])
    have hbetween := (List.pairwise_cons.mp (List.pairwise_append.mp hresponses).2.1).2
    have hanswered : e.time ≤ r := by
      refine (List.pairwise_append.mp hbetween).2.2 e he value (by simp) hresponse ?_ r hr
      intro other hother
      have hkind := hvalue.symm.trans hother
      cases hkind
    omega
  · exact .inl (by omega)

end QueueFresh

structure Trace.Agrees (s : Node) (t : TaskId) (task : Task) (trace : Trace) : Prop where
  last : ∀ access, trace.last = some access →
    ∃ i, task.access = some i ∧ s.log[i]? = some access
  past : ∀ i, task.access = some i → i < s.log.length
  responses : ∀ c, t = .connection c → trace.responded = false →
    ∀ e ∈ s.queue c, e.IsResponse → ∀ i, task.access = some i → e.time ≤ i

structure Node.Fresh (s : Node) : Prop where
  queues : ∀ c, QueueFresh s.log (s.queue c)
  tasks : ∀ t task, s.task t = some task → ∃ trace,
    task.program.Follows (freshness t task.request) (fun _ _ => True) trace ∧
      trace.Agrees s t task

theorem agrees_start {s : Node} {t : TaskId} {task : Task} (h : Starts t task) :
    Trace.start.Agrees s t task := by
  have haccess : task.access = none := by cases h <;> rfl
  refine ⟨nofun, fun i hi => ?_, fun _ _ _ _ _ _ i hi => ?_⟩
  · rw [haccess] at hi
    cases hi
  · rw [haccess] at hi
    cases hi

section
variable {s : Node} {t : TaskId} {task : Task} {o : Op} {k : o.Res → Action Empty Bool}
  {trace : Trace}

theorem queueFresh_effect (hs : s.Fresh) (hallows : trace.Allows t task.request o)
    (hagrees : trace.Agrees s t task) (c : ℕ) :
    QueueFresh (s.effect t task o).log ((s.effect t task o).queue c) := by
  rcases s.queue_effect_cases t task o c with hq | ⟨frame, rfl, -, hq⟩
  · obtain ⟨more, hmore⟩ := s.log_effect_append t task o
    rw [hq, hmore]
    exact (hs.queues c).log_append more
  · rw [hq, Node.log_effect]
    obtain ⟨hchanged, hresponse⟩ := hallows
    refine (hs.queues c).put rfl hagrees.past (fun keyref hframe => ?_) ?_ ?_
    · obtain ⟨access, hlast, hchanges⟩ := hchanged keyref hframe
      obtain ⟨u, hu, hlog⟩ := hagrees.last access hlast
      exact ⟨u, access, hu, hlog, hchanges⟩
    · intro keyref value hrequest hframe cell hcell
      obtain ⟨ht, hget⟩ := Node.entry_request hrequest
      have hne (other : UInt16) : frame ≠ encodeChanged other := by
        intro h
        have hkind := hframe.symm.trans h
        cases hkind
      obtain ⟨stored, hlast, rfl⟩ := (hresponse hne).2.2 keyref value hget hframe cell hcell
      obtain ⟨r, hr, hlog⟩ := hagrees.last _ hlast
      exact ⟨r, stored, hr, hlog, rfl⟩
    · intro hentry a ha hra r hr
      obtain ⟨ht, hresponded, -⟩ := hresponse hentry
      exact hagrees.responses c ht hresponded a ha hra r hr

theorem Trace.Agrees.keep (hagrees : trace.Agrees s t task) {s' : Node} {next : Task}
    {trace' : Trace} (hlast : trace'.last = trace.last)
    (hresponded : trace'.responded = false → trace.responded = false)
    (haccess : next.access = task.access) (hlog : ∃ more, s'.log = s.log ++ more)
    (hqueue : ∀ c, t = .connection c → trace'.responded = false →
      ∀ e ∈ s'.queue c, e.IsResponse → e ∈ s.queue c) :
    trace'.Agrees s' t next := by
  obtain ⟨more, hmore⟩ := hlog
  refine ⟨fun access h => ?_, fun i hi => ?_, fun c ht h e he hresponse i hi => ?_⟩
  · rw [hlast] at h
    obtain ⟨i, hi, hget⟩ := hagrees.last access h
    refine ⟨i, by rw [haccess, hi], ?_⟩
    rw [hmore]
    exact getElem?_log hget
  · rw [haccess] at hi
    have hpast := hagrees.past i hi
    rw [hmore, List.length_append]
    omega
  · rw [haccess] at hi
    exact hagrees.responses c ht (hresponded h) e (hqueue c ht h e he hresponse) hresponse i hi

theorem agrees_accessed (hs : s.Fresh) {s' : Node} {next : Task} {trace' : Trace}
    {access : Access} (hlast : trace'.last = some access)
    (hnext : next.access = some s.log.length) (hlog : s'.log = s.log ++ [access])
    (hqueue : s'.queue = s.queue) : trace'.Agrees s' t next := by
  refine ⟨fun other h => ?_, fun i hi => ?_, fun c _ _ e he _ i hi => ?_⟩
  · rw [hlast] at h
    cases h
    exact ⟨s.log.length, hnext, by simp [hlog]⟩
  · rw [hnext] at hi
    cases hi
    simp [hlog]
  · rw [hnext] at hi
    cases hi
    rw [hqueue] at he
    exact (hs.queues c).past e he

theorem mem_queue_effect {c : ℕ} {e : Sent} (he : e ∈ (s.effect t task o).queue c) :
    e ∈ s.queue c ∨ ∃ frame, o = .send c frame ∧ e = s.entry t task c frame := by
  rcases s.queue_effect_cases t task o c with hq | ⟨frame, hsend, -, hq⟩
  · rw [hq] at he
    exact .inl he
  · rw [hq] at he
    rcases List.mem_append.mp he with he | he
    · exact .inl he
    · exact .inr ⟨frame, hsend, List.mem_singleton.mp he⟩

theorem agrees_advance_fresh (hs : s.Fresh) (hagrees : trace.Agrees s t task) :
    (trace.after o (s.answer o)).Agrees ((s.effect t task o).setTask (s.advance task o k) t) t
      (s.advance task o k) := by
  have hlog := s.log_effect_append t task o
  rw [← Node.log_setTask (s.effect t task o) (s.advance task o k) t] at hlog
  cases o with
  | load cell =>
    refine agrees_accessed hs rfl rfl ?_ ?_
    · rw [Node.log_setTask]
      rfl
    · rw [Node.queue_setTask]
      rfl
  | swap cell value =>
    refine agrees_accessed hs rfl rfl ?_ ?_
    · rw [Node.log_setTask]
      rfl
    · rw [Node.queue_setTask]
      rfl
  | send c frame =>
    cases frame with
    | changed keyref =>
      refine hagrees.keep rfl id rfl hlog fun d _ _ e he hresponse => ?_
      rw [Node.queue_setTask] at he
      rcases mem_queue_effect he with hold | ⟨frame, hframe, rfl⟩
      · exact hold
      · cases hframe
        exact absurd rfl (hresponse keyref)
    | _ => exact hagrees.keep rfl (fun h => by cases h) rfl hlog fun _ _ h => by cases h
  | _ =>
    refine hagrees.keep rfl id rfl hlog fun d _ _ e he _ => ?_
    rw [Node.queue_setTask] at he
    rcases mem_queue_effect he with hold | ⟨frame, hframe, -⟩
    · exact hold
    · cases hframe

theorem agrees_other_fresh {t' : TaskId} {task' next : Task} {trace' : Trace} (ht : t' ≠ t)
    (hallows : trace.Allows t task.request o) (hagrees : trace'.Agrees s t' task') :
    trace'.Agrees ((s.effect t task o).setTask next t) t' task' := by
  refine hagrees.keep rfl id rfl ?_ fun c htc _ e he hresponse => ?_
  · rw [Node.log_setTask]
    exact s.log_effect_append t task o
  · rw [Node.queue_setTask] at he
    rcases mem_queue_effect he with hold | ⟨frame, rfl, rfl⟩
    · exact hold
    · have hown := (hallows.2 hresponse).1
      exact absurd (htc.trans hown.symm) ht

end

theorem fresh_initial (seed : UInt64) : (Node.initial seed).Fresh where
  queues c := by
    have hempty : (Node.initial seed).queue c = [] := by simp [Node.initial, Node.queue]
    rw [hempty]
    exact .nil _
  tasks t task h := by cases t <;> simp [Node.initial, Node.task] at h

theorem fresh_step {s s' : Node} {l : Label} (hs : s.Fresh) (h : s.step l = some s') :
    s'.Fresh := by
  cases Node.step_moves h with
  | outside hqueue hobserves hlog htask =>
    refine ⟨fun c => ?_, fun t task ht => ?_⟩
    · rw [hqueue, hlog]
      exact hs.queues c
    · rcases htask t task ht with hold | hstart
      · obtain ⟨trace, hfollows, hagrees⟩ := hs.tasks t task hold
        refine ⟨trace, hfollows, hagrees.keep rfl id rfl ⟨[], by simp [hlog]⟩ ?_⟩
        intro c _ _ e he _
        rwa [hqueue] at he
      · exact ⟨.start, starts_freshness hstart, agrees_start hstart⟩
  | @act t task o k htask hprogram =>
    obtain ⟨trace, hfollows, hagrees⟩ := hs.tasks t task htask
    rw [hprogram] at hfollows
    obtain ⟨hallows, hrest⟩ := hfollows
    refine ⟨fun c => ?_, fun t' task' ht' => ?_⟩
    · rw [Node.queue_setTask, Node.log_setTask]
      exact queueFresh_effect hs hallows hagrees c
    · rcases Node.task_act s htask ht' with ⟨rfl, rfl⟩ | ⟨hne, hold | hstart⟩
      · exact ⟨_, hrest _, agrees_advance_fresh hs hagrees⟩
      · obtain ⟨trace', hfollows', hagrees'⟩ := hs.tasks t' task' hold
        exact ⟨trace', hfollows', agrees_other_fresh hne hallows hagrees'⟩
      · exact ⟨.start, starts_freshness hstart, agrees_start hstart⟩

/-- In every run, a value that stands after a `CHANGED` of its key was read after the update,
except by a `GET` that had read it when the `CHANGED` was put in and was answered next. -/
theorem value_read_after_update {seed : UInt64} {s : Node}
    (hrun : Reachable Node.step (Node.initial seed) s) {c : ℕ} {before between after : List Sent}
    {changed value : Sent} (hsplit : s.queue c = before ++ changed :: (between ++ value :: after))
    {keyref : UInt16} {v : ValueRef} (hchanged : changed.frame = encodeChanged keyref)
    (hrequest : value.request = some (.get keyref))
    (hvalue : value.frame = .ordinaryResponse (.value v)) :
    ∃ cell previous new stored u r, cell.keyref = some keyref ∧
      changed.access = some u ∧ s.log[u]? = some (.swap cell previous new) ∧ previous ≠ new ∧
      value.access = some r ∧ s.log[r]? = some (.load cell stored) ∧
      v = (cell.wire stored).valueRef ∧
      (u < r ∨ r < changed.time ∧ ∀ e ∈ between, ¬ e.IsResponse) := by
  have hs : s.Fresh := hrun.invariant Node.Fresh (fresh_initial seed)
    fun u l v hu hstep => fresh_step hu hstep
  exact (hs.queues c).value_after_changed hsplit hchanged hrequest hvalue

def observing : List Label :=
  [.accept, .register 0, .request 0 (.observe keyVoltageMa), .act (.connection 0),
    .act (.connection 0), .act (.connection 0)]

def updating : List Label :=
  [.voltageTick, .act .voltage, .act .voltage, .act .voltage, .act .voltage, .act .voltage]

def getting : List Label :=
  [.request 0 (.get keyVoltageMa), .act (.connection 0)]

theorem value_read_after_update_voltage : ∃ s : Node,
    Reachable Node.step (Node.initial 0) s ∧
      s.queue 0 = [⟨encodeOk, some (.observe keyVoltageMa), none, 0⟩,
        ⟨encodeChanged keyVoltageMa, none, some 0, 1⟩,
        ⟨encodeValue (.i64 230), some (.get keyVoltageMa), some 1, 2⟩] ∧
      ∃ cell stored, cell.keyref = some keyVoltageMa ∧ s.log[1]? = some (.load cell stored) ∧
        .i64 230 = (cell.wire stored).valueRef := by
  have hrun : (runLabels Node.step (Node.initial 0)
      (observing ++ updating ++ getting ++ [.act (.connection 0)])).map (fun s => s.queue 0) =
      some [⟨encodeOk, some (.observe keyVoltageMa), none, 0⟩,
        ⟨encodeChanged keyVoltageMa, none, some 0, 1⟩,
        ⟨encodeValue (.i64 230), some (.get keyVoltageMa), some 1, 2⟩] := by decide +kernel
  obtain ⟨s, hs, hqueue⟩ := Option.map_eq_some_iff.mp hrun
  have hreach := Reachable.of_runLabels hs
  have hsplit : s.queue 0 = [_] ++ _ :: ([] ++ _ :: []) := hqueue
  obtain ⟨cell, -, -, stored, -, r, hcell, -, -, -, hr, hlog, hv, -⟩ :=
    value_read_after_update hreach hsplit rfl rfl rfl
  cases hr
  exact ⟨s, hreach, hqueue, cell, stored, hcell, hlog, hv⟩

/-- A `GET` has read the value, the value changes and is announced, and the old
value is sent after the `CHANGED`. -/
theorem old_value_after_changed : ¬ ∀ (seed : UInt64) (s : Node),
    Reachable Node.step (Node.initial seed) s →
      ∀ c before changed between value after keyref v,
        s.queue c = before ++ changed :: (between ++ value :: after) →
          changed.frame = encodeChanged keyref → value.request = some (.get keyref) →
            value.frame = .ordinaryResponse (.value v) →
              ∃ u r, changed.access = some u ∧ value.access = some r ∧ u < r := by
  intro hall
  have hrun : (runLabels Node.step (Node.initial 0)
      (observing ++ getting ++ updating ++ [.act (.connection 0)])).map (fun s => s.queue 0) =
      some [⟨encodeOk, some (.observe keyVoltageMa), none, 0⟩,
        ⟨encodeChanged keyVoltageMa, none, some 1, 2⟩,
        ⟨encodeValue (.i64 250), some (.get keyVoltageMa), some 0, 2⟩] := by decide +kernel
  obtain ⟨s, hs, hqueue⟩ := Option.map_eq_some_iff.mp hrun
  obtain ⟨u, r, hu, hr, hlt⟩ :=
    hall 0 s (.of_runLabels hs) 0 [_] _ [] _ [] keyVoltageMa _ hqueue rfl rfl rfl
  cases hu
  cases hr
  exact absurd hlt (by decide)

end Qup.TestNode
