import Qup.Embassy.Server
import Qup.Embassy.RequestRefinement
import Qup.Foundation.Transition

/-!
# `Server::run` among other tasks

One connection as a step function. The server's task is the `run` loop: it polls
`read_request` and the notifier in the order of `select`, handles a request,
flushes. Every operation on shared state is one step, and between any two of
them bytes may arrive and other tasks may perform the steps of a `try_set`.

The step function is generic in how the remaining work of a task is written
down, as a program or as any first-order description with the same view of its
next operation. The log keeps what happened, newest first.
-/

namespace Qup.Embassy
open Foundation Foundation.Utf8

variable {N : ℕ}

inductive Actor where
  | server
  | update
  deriving DecidableEq

inductive Event (keys : Fin N → ErasedKey) where
  | served (request : IncomingRequest)
  | flushBegin
  | flushEnd
  | sent (frame : Frame)
  | readValue (i : Fin N) (value : (keys i).type.Value)
  | readGeneration (i : Fin N) (generation : UInt32)
  | stored (actor : Actor) (i : Fin N) (value : (keys i).type.Value)
  | updated (actor : Actor) (i : Fin N)
  deriving DecidableEq

namespace Op
variable {keys : Fin N → ErasedKey}

def observe (actor : Actor) : (o : Op keys) → o.Res → List (Event keys)
  | .loadValue i, v => [.readValue i v]
  | .storeValue i v, _ => [.stored actor i v]
  | .loadGeneration i, g => [.readGeneration i g]
  | .fetchAddGeneration i, _ => [.updated actor i]
  | .writeAll _ (some f), accepted => bif accepted then [.sent f] else []
  | .writeAll _ none, _ => []
  | .signalChange _, _ => []
  | .loadNotifier _, _ => []
  | .storeNotifier _ _, _ => []
  | .signal _, _ => []

def written : (o : Op keys) → o.Res → List UInt8
  | .writeAll bytes _, accepted => bif accepted then bytes else []
  | _, _ => []

end Op

def servedRequests {keys : Fin N → ErasedKey} : List (Event keys) → List IncomingRequest
  | [] => []
  | .served request :: log => servedRequests log ++ [request]
  | _ :: log => servedRequests log

@[simp] theorem servedRequests_observe {keys : Fin N → ErasedKey} (actor : Actor) (o : Op keys)
    (r : o.Res) (log : List (Event keys)) :
    servedRequests (o.observe actor r ++ log) = servedRequests log := by
  cases o with
  | writeAll bytes completes =>
    cases completes with
    | none => rfl
    | some f => cases r <;> rfl
  | _ => rfl

inductive Activity where
  | starting
  | handling (request : IncomingRequest)
  | flushing
  deriving DecidableEq

/-- The control state of `run`. In the first three the `select` is pending with
the future of `read_request`, of which `reads` reads have completed: its first
branch is being polled, its second one is next, or the task is suspended. -/
inductive Ctrl (N : ℕ) (P : Type) where
  | reading (l : Locals N) (reader : RequestReader IncomingRequest) (reads : ℕ)
  | waiting (l : Locals N) (reader : RequestReader IncomingRequest) (reads : ℕ)
  | parked (l : Locals N) (reader : RequestReader IncomingRequest) (reads : ℕ)
  | running (activity : Activity) (task : P)
  | stopped (exit : Exit)

def Ctrl.exit {P : Type} : Ctrl N P → Option Exit
  | .stopped exit => some exit
  | _ => none

theorem Ctrl.exit_eq_some {P : Type} {ctrl : Ctrl N P} {exit : Exit} (h : ctrl.exit = some exit) :
    ctrl = .stopped exit := by
  cases ctrl <;> cases h
  rfl

structure Sys (keys : Fin N → ErasedKey) (P U : Type) where
  memory : Memory keys
  updates : List U
  ctrl : Ctrl N P
  inbox : List UInt8
  wire : List UInt8
  log : List (Event keys)

inductive Label (keys : Fin N → ErasedKey) where
  | arrive (bytes : List UInt8)
  | read
  | pend
  | readFail
  | serve
  /-- The notifier's wait completes; the pending `read_request` is dropped. -/
  | wake
  | park
  | repoll
  | act (accepted : Bool)
  | finish
  | spawn (i : Fin N) (value : (keys i).type.Value)
  | update (j : ℕ)

structure Machine (server : Server N) (P U : Type) where
  view : P → Program.View (@Op.Res N server.keys) Exit (Locals N) P
  start : P
  handle : IncomingRequest → Locals N → P
  flush : Locals N → P
  updateView : U → Program.View (@Op.Res N server.keys) Exit (Except WireValueError Bool) U
  trySet : (i : Fin N) → (server.keys i).type.Value → U

def programs (server : Server N) (nodeId : Str) : Machine server (server.Handler (Locals N))
    (Action server.keys (Except WireValueError Bool)) where
  view := Program.view
  start := do
    server.startup nodeId
    pure (Locals.initial N)
  handle := server.handleRequest nodeId
  flush := server.flushNotifications
  updateView := Program.view
  trySet := Key.trySet

abbrev Connection (server : Server N) :=
  Sys server.keys (server.Handler (Locals N)) (Action server.keys (Except WireValueError Bool))

namespace Sys
variable {server : Server N} {P U : Type}

def initial (M : Machine server P U) (memory : Memory server.keys) : Sys server.keys P U where
  memory := memory
  updates := []
  ctrl := .running .starting M.start
  inbox := []
  wire := []
  log := []

def select (s : Sys server.keys P U) (l : Locals N) : Sys server.keys P U :=
  { s with ctrl := .reading l (readRequest server.maxStr) 0 }

def beginFlush (M : Machine server P U) (s : Sys server.keys P U) (l : Locals N) :
    Sys server.keys P U :=
  { s with ctrl := .running .flushing (M.flush l), log := .flushBegin :: s.log }

def perform (s : Sys server.keys P U) (activity : Activity) (accepted : Bool) (o : Op server.keys)
    (k : o.Res → P) : Sys server.keys P U :=
  let r := o.exec accepted s.memory
  { s with
    memory := r.2
    ctrl := .running activity (k r.1)
    wire := s.wire ++ o.written r.1
    log := o.observe .server r.1 ++ s.log }

def performUpdate (s : Sys server.keys P U) (j : ℕ) (o : Op server.keys) (k : o.Res → U) :
    Sys server.keys P U :=
  let r := o.exec true s.memory
  { s with
    memory := r.2
    updates := s.updates.set j (k r.1)
    log := o.observe .update r.1 ++ s.log }

def next (M : Machine server P U) (s : Sys server.keys P U) (activity : Activity)
    (l : Locals N) : Sys server.keys P U :=
  match activity with
  | .starting => s.select l
  | .handling _ => if server.hasObservableKeys then s.beginFlush M l else s.select l
  | .flushing => { s.select l with log := .flushEnd :: s.log }

def step (M : Machine server P U) (s : Sys server.keys P U) :
    Label server.keys → Option (Sys server.keys P U)
  | .arrive bytes => some { s with inbox := s.inbox ++ bytes }
  | .read =>
    match s.ctrl with
    | .reading l (.act n k) reads =>
      if n ≤ s.inbox.length then
        some { s with
          inbox := s.inbox.drop n
          ctrl := .reading l (k (s.inbox.take n)) (reads + 1) }
      else none
    | _ => none
  | .pend =>
    match s.ctrl with
    | .reading l (.act n k) reads =>
      if n ≤ s.inbox.length then none
      else if server.hasObservableKeys then
        some { s with ctrl := .waiting l (.act n k) reads }
      else some { s with ctrl := .parked l (.act n k) reads }
    | _ => none
  | .readFail =>
    match s.ctrl with
    | .reading _ (.act _ _) _ => some { s with ctrl := .stopped (.error .read) }
    | _ => none
  | .serve =>
    match s.ctrl with
    | .reading l (.ret request) _ =>
      some { s with
        ctrl := .running (.handling request) (M.handle request l)
        log := .served request :: s.log }
    | .reading _ (.fail e) _ => some { s with ctrl := .stopped e }
    | _ => none
  | .wake =>
    match s.ctrl with
    | .waiting l _ _ =>
      if s.memory.latch server.notifier then
        let memory :=
          { s.memory with latch := Function.update s.memory.latch server.notifier false }
        some ({ s with memory := memory }.beginFlush M l)
      else none
    | _ => none
  | .park =>
    match s.ctrl with
    | .waiting l reader reads =>
      if s.memory.latch server.notifier then none
      else some { s with ctrl := .parked l reader reads }
    | _ => none
  | .repoll =>
    match s.ctrl with
    | .parked l reader reads => some { s with ctrl := .reading l reader reads }
    | _ => none
  | .act accepted =>
    match s.ctrl with
    | .running activity task =>
      match M.view task with
      | .act o k => some (s.perform activity accepted o k)
      | _ => none
    | _ => none
  | .finish =>
    match s.ctrl with
    | .running activity task =>
      match M.view task with
      | .ret l => some (s.next M activity l)
      | .fail e => some { s with ctrl := .stopped e }
      | .act _ _ => none
    | _ => none
  | .spawn i value => some { s with updates := s.updates ++ [M.trySet i value] }
  | .update j =>
    match s.updates[j]? with
    | some u =>
      match M.updateView u with
      | .act o k => some (s.performUpdate j o k)
      | _ => none
    | none => none

inductive Steps (M : Machine server P U) (s : Sys server.keys P U) :
    Label server.keys → Sys server.keys P U → Prop where
  | arrive (bytes : List UInt8) : Steps M s (.arrive bytes) { s with inbox := s.inbox ++ bytes }
  | read (l : Locals N) (n : ℕ) (k : List UInt8 → RequestReader IncomingRequest) (reads : ℕ)
      (hctrl : s.ctrl = .reading l (.act n k) reads) (hn : n ≤ s.inbox.length) :
      Steps M s .read { s with
        inbox := s.inbox.drop n
        ctrl := .reading l (k (s.inbox.take n)) (reads + 1) }
  | pend (l : Locals N) (n : ℕ) (k : List UInt8 → RequestReader IncomingRequest) (reads : ℕ)
      (hctrl : s.ctrl = .reading l (.act n k) reads) (hn : s.inbox.length < n)
      (ho : server.hasObservableKeys = true) :
      Steps M s .pend { s with ctrl := .waiting l (.act n k) reads }
  | suspend (l : Locals N) (n : ℕ) (k : List UInt8 → RequestReader IncomingRequest) (reads : ℕ)
      (hctrl : s.ctrl = .reading l (.act n k) reads) (hn : s.inbox.length < n)
      (ho : server.hasObservableKeys = false) :
      Steps M s .pend { s with ctrl := .parked l (.act n k) reads }
  | readFail (l : Locals N) (n : ℕ) (k : List UInt8 → RequestReader IncomingRequest) (reads : ℕ)
      (hctrl : s.ctrl = .reading l (.act n k) reads) :
      Steps M s .readFail { s with ctrl := .stopped (.error .read) }
  | serve (l : Locals N) (request : IncomingRequest) (reads : ℕ)
      (hctrl : s.ctrl = .reading l (.ret request) reads) :
      Steps M s .serve { s with
        ctrl := .running (.handling request) (M.handle request l)
        log := .served request :: s.log }
  | reject (l : Locals N) (e : Exit) (reads : ℕ) (hctrl : s.ctrl = .reading l (.fail e) reads) :
      Steps M s .serve { s with ctrl := .stopped e }
  | wake (l : Locals N) (reader : RequestReader IncomingRequest) (reads : ℕ)
      (hctrl : s.ctrl = .waiting l reader reads)
      (hlatch : s.memory.latch server.notifier = true) :
      Steps M s .wake (beginFlush M { s with memory := { s.memory with
        latch := Function.update s.memory.latch server.notifier false } } l)
  | park (l : Locals N) (reader : RequestReader IncomingRequest) (reads : ℕ)
      (hctrl : s.ctrl = .waiting l reader reads)
      (hlatch : s.memory.latch server.notifier = false) :
      Steps M s .park { s with ctrl := .parked l reader reads }
  | repoll (l : Locals N) (reader : RequestReader IncomingRequest) (reads : ℕ)
      (hctrl : s.ctrl = .parked l reader reads) :
      Steps M s .repoll { s with ctrl := .reading l reader reads }
  | act (accepted : Bool) (activity : Activity) (task : P) (o : Op server.keys) (k : o.Res → P)
      (hctrl : s.ctrl = .running activity task) (hview : M.view task = .act o k) :
      Steps M s (.act accepted) (s.perform activity accepted o k)
  | finish (activity : Activity) (task : P) (l : Locals N)
      (hctrl : s.ctrl = .running activity task) (hview : M.view task = .ret l) :
      Steps M s .finish (s.next M activity l)
  | exit (activity : Activity) (task : P) (e : Exit)
      (hctrl : s.ctrl = .running activity task) (hview : M.view task = .fail e) :
      Steps M s .finish { s with ctrl := .stopped e }
  | spawn (i : Fin N) (value : (server.keys i).type.Value) :
      Steps M s (.spawn i value) { s with updates := s.updates ++ [M.trySet i value] }
  | update (j : ℕ) (u : U) (o : Op server.keys) (k : o.Res → U) (hj : s.updates[j]? = some u)
      (hview : M.updateView u = .act o k) : Steps M s (.update j) (s.performUpdate j o k)

theorem step_cases {M : Machine server P U} {s s' : Sys server.keys P U}
    {l : Label server.keys} (h : s.step M l = some s') : Steps M s l s' := by
  cases l with
  | arrive bytes =>
    cases h
    exact .arrive bytes
  | read =>
    simp only [step] at h
    rcases hctrl : s.ctrl with ⟨l, _ | _ | ⟨n, k⟩, reads⟩ | _ | _ | _ | _ <;>
      simp only [hctrl, reduceCtorEq] at h
    split_ifs at h with hn
    cases h
    exact .read l n k reads hctrl hn
  | pend =>
    simp only [step] at h
    rcases hctrl : s.ctrl with ⟨l, _ | _ | ⟨n, k⟩, reads⟩ | _ | _ | _ | _ <;>
      simp only [hctrl, reduceCtorEq] at h
    split_ifs at h with hn ho
    · cases h
      exact .pend l n k reads hctrl (Nat.lt_of_not_le hn) ho
    · cases h
      exact .suspend l n k reads hctrl (Nat.lt_of_not_le hn) (Bool.eq_false_iff.mpr ho)
  | readFail =>
    simp only [step] at h
    rcases hctrl : s.ctrl with ⟨l, _ | _ | ⟨n, k⟩, reads⟩ | _ | _ | _ | _ <;>
      simp only [hctrl, reduceCtorEq] at h
    cases h
    exact .readFail l n k reads hctrl
  | serve =>
    simp only [step] at h
    rcases hctrl : s.ctrl with ⟨l, request | e | _, reads⟩ | _ | _ | _ | _ <;>
      simp only [hctrl, reduceCtorEq] at h
    · cases h
      exact .serve l request reads hctrl
    · cases h
      exact .reject l e reads hctrl
  | wake =>
    simp only [step] at h
    rcases hctrl : s.ctrl with _ | ⟨l, reader, reads⟩ | _ | _ | _ <;>
      simp only [hctrl, reduceCtorEq] at h
    split_ifs at h with hlatch
    cases h
    exact .wake l reader reads hctrl hlatch
  | park =>
    simp only [step] at h
    rcases hctrl : s.ctrl with _ | ⟨l, reader, reads⟩ | _ | _ | _ <;>
      simp only [hctrl, reduceCtorEq] at h
    split_ifs at h with hlatch
    cases h
    exact .park l reader reads hctrl (Bool.eq_false_iff.mpr hlatch)
  | repoll =>
    simp only [step] at h
    rcases hctrl : s.ctrl with _ | _ | ⟨l, reader, reads⟩ | _ | _ <;>
      simp only [hctrl, reduceCtorEq] at h
    cases h
    exact .repoll l reader reads hctrl
  | act accepted =>
    simp only [step] at h
    rcases hctrl : s.ctrl with _ | _ | _ | ⟨activity, task⟩ | _ <;>
      simp only [hctrl, reduceCtorEq] at h
    cases hview : M.view task with
    | ret l => simp [hview] at h
    | fail e => simp [hview] at h
    | act o k =>
      rw [hview] at h
      cases h
      exact .act accepted activity task o k hctrl hview
  | finish =>
    simp only [step] at h
    rcases hctrl : s.ctrl with _ | _ | _ | ⟨activity, task⟩ | _ <;>
      simp only [hctrl, reduceCtorEq] at h
    cases hview : M.view task with
    | ret l =>
      rw [hview] at h
      cases h
      exact .finish activity task l hctrl hview
    | fail e =>
      rw [hview] at h
      cases h
      exact .exit activity task e hctrl hview
    | act o k => simp [hview] at h
  | spawn i value =>
    cases h
    exact .spawn i value
  | update j =>
    simp only [step] at h
    cases hj : s.updates[j]? with
    | none => simp [hj] at h
    | some u =>
      cases hview : M.updateView u with
      | ret r => simp [hj, hview] at h
      | fail e => simp [hj, hview] at h
      | act o k =>
        simp only [hj, hview] at h
        cases h
        exact .update j u o k hj hview

theorem Steps.step_eq {M : Machine server P U} {s s' : Sys server.keys P U}
    {l : Label server.keys} (h : Steps M s l s') : s.step M l = some s' := by
  cases h with
  | arrive => rfl
  | read l n k reads hctrl hn => simp only [step, hctrl, if_pos hn]
  | pend l n k reads hctrl hn ho => simp only [step, hctrl, if_neg (Nat.not_le_of_lt hn), if_pos ho]
  | suspend l n k reads hctrl hn ho =>
    simp only [step, hctrl, if_neg (Nat.not_le_of_lt hn), ho]
    rfl
  | readFail l n k reads hctrl => simp only [step, hctrl]
  | serve l request reads hctrl => simp only [step, hctrl]
  | reject l e reads hctrl => simp only [step, hctrl]
  | wake l reader reads hctrl hlatch => simp only [step, hctrl, if_pos hlatch]
  | park l reader reads hctrl hlatch =>
    simp only [step, hctrl, hlatch]
    rfl
  | repoll l reader reads hctrl => simp only [step, hctrl]
  | act accepted activity task o k hctrl hview => simp only [step, hctrl, hview]
  | finish activity task l hctrl hview => simp only [step, hctrl, hview]
  | exit activity task e hctrl hview => simp only [step, hctrl, hview]
  | spawn => rfl
  | update j u o k hj hview => simp only [step, hj, hview]

end Sys

section
variable {server : Server N} {P U P' U' : Type}

structure Machine.Hom (M : Machine server P U) (M' : Machine server P' U') where
  task : P → P'
  update : U → U'
  view_task : ∀ p, M'.view (task p) = (M.view p).map task
  start_eq : M'.start = task M.start
  handle_eq : ∀ request l, M'.handle request l = task (M.handle request l)
  flush_eq : ∀ l, M'.flush l = task (M.flush l)
  view_update : ∀ u, M'.updateView (update u) = (M.updateView u).map update
  trySet_eq : ∀ i value, M'.trySet i value = update (M.trySet i value)

def Ctrl.map (f : P → P') : Ctrl N P → Ctrl N P'
  | .reading l reader reads => .reading l reader reads
  | .waiting l reader reads => .waiting l reader reads
  | .parked l reader reads => .parked l reader reads
  | .running activity task => .running activity (f task)
  | .stopped exit => .stopped exit

def Sys.map (f : P → P') (g : U → U') (s : Sys server.keys P U) : Sys server.keys P' U' where
  memory := s.memory
  updates := s.updates.map g
  ctrl := s.ctrl.map f
  inbox := s.inbox
  wire := s.wire
  log := s.log

variable {M : Machine server P U} {M' : Machine server P' U'}

theorem Sys.initial_map (h : M.Hom M') (memory : Memory server.keys) :
    Sys.initial M' memory = (Sys.initial M memory).map h.task h.update := by
  simp only [Sys.initial, Sys.map, Ctrl.map, h.start_eq, List.map_nil]

theorem Sys.next_map (h : M.Hom M') (s : Sys server.keys P U) (activity : Activity)
    (l : Locals N) : (s.map h.task h.update).next M' activity l =
      (s.next M activity l).map h.task h.update := by
  cases activity with
  | starting => rfl
  | handling request =>
    simp only [Sys.next]
    split_ifs
    · simp only [Sys.beginFlush, Sys.map, Ctrl.map, h.flush_eq]
    · rfl
  | flushing => rfl

theorem Sys.step_map (h : M.Hom M') (s : Sys server.keys P U) (l : Label server.keys) :
    (s.map h.task h.update).step M' l = (s.step M l).map (Sys.map h.task h.update) := by
  cases l with
  | arrive bytes => rfl
  | read =>
    simp only [Sys.step, Sys.map]
    rcases s.ctrl with ⟨l, _ | _ | ⟨n, k⟩, reads⟩ | _ | _ | _ | _ <;> simp only [Ctrl.map] <;> try rfl
    by_cases hn : n ≤ s.inbox.length <;> simp only [hn, if_true, if_false] <;> rfl
  | pend =>
    simp only [Sys.step, Sys.map]
    rcases s.ctrl with ⟨l, _ | _ | ⟨n, k⟩, reads⟩ | _ | _ | _ | _ <;> simp only [Ctrl.map] <;> try rfl
    by_cases hn : n ≤ s.inbox.length <;> simp only [hn, if_true, if_false] <;> try rfl
    cases server.hasObservableKeys <;> rfl
  | readFail =>
    simp only [Sys.step, Sys.map]
    rcases s.ctrl with ⟨l, _ | _ | ⟨n, k⟩, reads⟩ | _ | _ | _ | _ <;> rfl
  | serve =>
    simp only [Sys.step, Sys.map]
    rcases s.ctrl with ⟨l, _ | _ | ⟨n, k⟩, reads⟩ | _ | _ | _ | _ <;> simp only [Ctrl.map] <;> try rfl
    simp only [Option.map_some, Sys.map, Ctrl.map, h.handle_eq]
  | wake =>
    simp only [Sys.step, Sys.map]
    rcases s.ctrl with _ | ⟨l, reader, reads⟩ | _ | _ | _ <;> simp only [Ctrl.map] <;> try rfl
    by_cases hl : s.memory.latch server.notifier = true
    · simp only [hl, if_true, Sys.beginFlush, Option.map_some, Sys.map, Ctrl.map, h.flush_eq]
    · simp only [hl]
      rfl
  | park =>
    simp only [Sys.step, Sys.map]
    rcases s.ctrl with _ | ⟨l, reader, reads⟩ | _ | _ | _ <;> simp only [Ctrl.map] <;> try rfl
    by_cases hl : s.memory.latch server.notifier = true <;> simp only [hl, if_true] <;> rfl
  | repoll =>
    simp only [Sys.step, Sys.map]
    rcases s.ctrl with _ | _ | _ | _ | _ <;> rfl
  | act accepted =>
    simp only [Sys.step, Sys.map]
    rcases s.ctrl with _ | _ | _ | ⟨activity, task⟩ | _ <;> simp only [Ctrl.map] <;> try rfl
    rw [h.view_task]
    cases M.view task <;> rfl
  | finish =>
    simp only [Sys.step]
    change (match s.ctrl.map h.task with
      | .running activity task =>
        match M'.view task with
        | .ret l => some ((s.map h.task h.update).next M' activity l)
        | .fail e => some { s.map h.task h.update with ctrl := .stopped e }
        | .act _ _ => none
      | _ => none) = _
    rcases s.ctrl with _ | _ | _ | ⟨activity, task⟩ | _ <;> simp only [Ctrl.map] <;> try rfl
    rw [h.view_task]
    cases M.view task with
    | ret l =>
      simp only [Program.View.map, Option.map_some]
      rw [Sys.next_map]
    | fail e => rfl
    | act o k => rfl
  | spawn i value =>
    simp only [Sys.step, Sys.map, Option.map_some, List.map_append, List.map_singleton,
      h.trySet_eq]
  | update j =>
    simp only [Sys.step, Sys.map, List.getElem?_map]
    cases s.updates[j]? with
    | none => rfl
    | some u =>
      simp only [Option.map_some]
      rw [h.view_update]
      cases M.updateView u with
      | ret r => rfl
      | fail e => rfl
      | act o k => simp only [Program.View.map, Option.map_some, Sys.performUpdate, Sys.map,
          List.map_set]

end
end Qup.Embassy
