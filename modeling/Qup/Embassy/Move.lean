import Qup.Embassy.Phase

/-!
# One step of a connection, without the bytes

`Config` forgets how far `read_request` has got, and `Move` says everything a
step can do to the rest: the invariants of whole sessions are proved by cases on
it.
-/

namespace Qup.Embassy
open Foundation Foundation.Utf8

variable {N : ℕ}

/-- Where the server's task is. While it is `idle` its `select` is pending. -/
inductive Position (server : Server N) where
  | idle (l : Locals N)
  | running (activity : Activity) (p : Phase server)
  | stopped

structure Config (server : Server N) where
  position : Position server
  memory : Memory server.keys
  updates : List (UpdatePhase server)
  wire : List UInt8
  log : List (Event server.keys)

abbrev PhaseSys (server : Server N) := Sys server.keys (Phase server) (UpdatePhase server)

namespace PhaseSys
variable {server : Server N}

def position (s : PhaseSys server) : Position server :=
  match s.ctrl with
  | .reading l _ _ | .waiting l _ _ | .parked l _ _ => .idle l
  | .running activity p => .running activity p
  | .stopped _ => .stopped

def config (s : PhaseSys server) : Config server := ⟨position s, s.memory, s.updates, s.wire, s.log⟩

end PhaseSys

inductive Move (server : Server N) (nodeId : Str) : Config server → Config server → Prop where
  | quiet (c : Config server) : Move server nodeId c c
  | stop (c : Config server) : Move server nodeId c { c with position := .stopped }
  | serve (l : Locals N) (request : IncomingRequest) (m : Memory server.keys)
      (us : List (UpdatePhase server)) (w : List UInt8) (log : List (Event server.keys)) :
      Move server nodeId ⟨.idle l, m, us, w, log⟩
        ⟨.running (.handling request) (.handle nodeId request l), m, us, w, .served request :: log⟩
  | wake (l : Locals N) (m : Memory server.keys) (us : List (UpdatePhase server)) (w : List UInt8)
      (log : List (Event server.keys)) :
      Move server nodeId ⟨.idle l, m, us, w, log⟩
        ⟨.running .flushing (.flush l),
          { m with latch := Function.update m.latch server.notifier false }, us, w,
          .flushBegin :: log⟩
  | act (activity : Activity) (p : Phase server) (o : Op server.keys) (k : o.Res → Phase server)
      (accepted : Bool) (m : Memory server.keys) (us : List (UpdatePhase server)) (w : List UInt8)
      (log : List (Event server.keys)) (h : p.view = .act o k) :
      Move server nodeId ⟨.running activity p, m, us, w, log⟩
        ⟨.running activity (k (o.exec accepted m).1), (o.exec accepted m).2, us,
          w ++ o.written (o.exec accepted m).1, o.observe .server (o.exec accepted m).1 ++ log⟩
  | start (l : Locals N) (m : Memory server.keys) (us : List (UpdatePhase server))
      (w : List UInt8) (log : List (Event server.keys)) :
      Move server nodeId ⟨.running .starting (.done l), m, us, w, log⟩ ⟨.idle l, m, us, w, log⟩
  | flush (request : IncomingRequest) (l : Locals N) (m : Memory server.keys)
      (us : List (UpdatePhase server)) (w : List UInt8) (log : List (Event server.keys))
      (h : server.hasObservableKeys = true) :
      Move server nodeId ⟨.running (.handling request) (.done l), m, us, w, log⟩
        ⟨.running .flushing (.flush l), m, us, w, .flushBegin :: log⟩
  | answered (request : IncomingRequest) (l : Locals N) (m : Memory server.keys)
      (us : List (UpdatePhase server)) (w : List UInt8) (log : List (Event server.keys))
      (h : server.hasObservableKeys = false) :
      Move server nodeId ⟨.running (.handling request) (.done l), m, us, w, log⟩
        ⟨.idle l, m, us, w, log⟩
  | flushed (l : Locals N) (m : Memory server.keys) (us : List (UpdatePhase server))
      (w : List UInt8) (log : List (Event server.keys)) :
      Move server nodeId ⟨.running .flushing (.done l), m, us, w, log⟩
        ⟨.idle l, m, us, w, .flushEnd :: log⟩
  | spawn (c : Config server) (i : Fin N) (v : (server.keys i).type.Value) :
      Move server nodeId c { c with updates := c.updates ++ [UpdatePhase.trySet i v] }
  | update (j : ℕ) (u : UpdatePhase server) (o : Op server.keys) (k : o.Res → UpdatePhase server)
      (position : Position server) (m : Memory server.keys) (us : List (UpdatePhase server))
      (w : List UInt8) (log : List (Event server.keys)) (hj : us[j]? = some u)
      (h : u.view = .act o k) :
      Move server nodeId ⟨position, m, us, w, log⟩
        ⟨position, (o.exec true m).2, us.set j (k (o.exec true m).1), w,
          o.observe .update (o.exec true m).1 ++ log⟩

def Label.Shared {keys : Fin N → ErasedKey} : Label keys → Prop
  | .wake | .act _ | .update _ => True
  | _ => False

/-- The moves of all other steps. -/
inductive Still (server : Server N) (nodeId : Str) : Config server → Config server → Prop where
  | quiet (c : Config server) : Still server nodeId c c
  | drop (l : Locals N) (m : Memory server.keys) (us : List (UpdatePhase server)) (w : List UInt8)
      (log : List (Event server.keys)) :
      Still server nodeId ⟨.idle l, m, us, w, log⟩ ⟨.stopped, m, us, w, log⟩
  | exit (activity : Activity) (e : Exit) (m : Memory server.keys) (us : List (UpdatePhase server))
      (w : List UInt8) (log : List (Event server.keys)) :
      Still server nodeId ⟨.running activity (.exit e), m, us, w, log⟩ ⟨.stopped, m, us, w, log⟩
  | serve (l : Locals N) (request : IncomingRequest) (m : Memory server.keys)
      (us : List (UpdatePhase server)) (w : List UInt8) (log : List (Event server.keys)) :
      Still server nodeId ⟨.idle l, m, us, w, log⟩
        ⟨.running (.handling request) (.handle nodeId request l), m, us, w, .served request :: log⟩
  | start (l : Locals N) (m : Memory server.keys) (us : List (UpdatePhase server))
      (w : List UInt8) (log : List (Event server.keys)) :
      Still server nodeId ⟨.running .starting (.done l), m, us, w, log⟩ ⟨.idle l, m, us, w, log⟩
  | flush (request : IncomingRequest) (l : Locals N) (m : Memory server.keys)
      (us : List (UpdatePhase server)) (w : List UInt8) (log : List (Event server.keys))
      (h : server.hasObservableKeys = true) :
      Still server nodeId ⟨.running (.handling request) (.done l), m, us, w, log⟩
        ⟨.running .flushing (.flush l), m, us, w, .flushBegin :: log⟩
  | answered (request : IncomingRequest) (l : Locals N) (m : Memory server.keys)
      (us : List (UpdatePhase server)) (w : List UInt8) (log : List (Event server.keys))
      (h : server.hasObservableKeys = false) :
      Still server nodeId ⟨.running (.handling request) (.done l), m, us, w, log⟩
        ⟨.idle l, m, us, w, log⟩
  | flushed (l : Locals N) (m : Memory server.keys) (us : List (UpdatePhase server))
      (w : List UInt8) (log : List (Event server.keys)) :
      Still server nodeId ⟨.running .flushing (.done l), m, us, w, log⟩
        ⟨.idle l, m, us, w, .flushEnd :: log⟩
  | spawn (c : Config server) (i : Fin N) (v : (server.keys i).type.Value) :
      Still server nodeId c { c with updates := c.updates ++ [UpdatePhase.trySet i v] }

theorem Still.move {server : Server N} {nodeId : Str} {c c' : Config server}
    (h : Still server nodeId c c') : Move server nodeId c c' := by
  cases h with
  | quiet => exact .quiet c
  | drop l m us w log => exact .stop _
  | exit activity e m us w log => exact .stop _
  | serve l request => exact .serve l request _ _ _ _
  | start l => exact .start l _ _ _ _
  | flush request l m us w log ho => exact .flush request l m us w log ho
  | answered request l m us w log ho => exact .answered request l m us w log ho
  | flushed l => exact .flushed l _ _ _ _
  | spawn c i v => exact .spawn c i v

namespace Phase
variable {server : Server N}

theorem view_ret {p : Phase server} {l : Locals N} (h : p.view = .ret l) : p = .done l := by
  cases p <;> simp only [view, Program.View.ret.injEq, reduceCtorEq] at h
  rw [h]

theorem view_fail {p : Phase server} {e : Exit} (h : p.view = .fail e) : p = .exit e := by
  cases p <;> simp only [view, Program.View.fail.injEq, reduceCtorEq] at h
  rw [h]

end Phase

section
variable {server : Server N} {nodeId : Str}

theorem PhaseSys.config_of_position {s : PhaseSys server} {p : Position server}
    (h : PhaseSys.position s = p) : PhaseSys.config s = ⟨p, s.memory, s.updates, s.wire, s.log⟩ := by
  rw [PhaseSys.config, h]

theorem PhaseSys.step_still {s s' : PhaseSys server} {l : Label server.keys} (hl : ¬ l.Shared)
    (h : s.step (phases server nodeId) l = some s') :
    Still server nodeId (PhaseSys.config s) (PhaseSys.config s') := by
  cases Sys.step_cases h with
  | arrive bytes => exact .quiet _
  | read l n k reads hctrl =>
    rw [config_of_position (p := .idle l) (by rw [PhaseSys.position, hctrl])]
    exact .quiet _
  | pend l n k reads hctrl =>
    rw [config_of_position (p := .idle l) (by rw [PhaseSys.position, hctrl])]
    exact .quiet _
  | suspend l n k reads hctrl =>
    rw [config_of_position (p := .idle l) (by rw [PhaseSys.position, hctrl])]
    exact .quiet _
  | readFail l n k reads hctrl =>
    rw [config_of_position (p := .idle l) (by rw [PhaseSys.position, hctrl])]
    exact .drop l _ _ _ _
  | serve l q reads hctrl =>
    rw [config_of_position (p := .idle l) (by rw [PhaseSys.position, hctrl])]
    exact .serve l q _ _ _ _
  | reject l e reads hctrl =>
    rw [config_of_position (p := .idle l) (by rw [PhaseSys.position, hctrl])]
    exact .drop l _ _ _ _
  | wake => exact absurd trivial hl
  | park l reader reads hctrl =>
    rw [config_of_position (p := .idle l) (by rw [PhaseSys.position, hctrl])]
    exact .quiet _
  | repoll l reader reads hctrl =>
    rw [config_of_position (p := .idle l) (by rw [PhaseSys.position, hctrl])]
    exact .quiet _
  | act => exact absurd trivial hl
  | finish activity p l hctrl hview =>
    obtain rfl := Phase.view_ret hview
    rw [config_of_position (p := .running activity (.done l)) (by rw [PhaseSys.position, hctrl])]
    cases activity with
    | starting => exact .start l _ _ _ _
    | handling q =>
      simp only [Sys.next]
      split_ifs with ho
      · exact .flush q l _ _ _ _ ho
      · exact .answered q l _ _ _ _ (by simpa using ho)
    | flushing => exact .flushed l _ _ _ _
  | exit activity p e hctrl hview =>
    obtain rfl := Phase.view_fail hview
    rw [config_of_position (p := .running activity (.exit e)) (by rw [PhaseSys.position, hctrl])]
    exact .exit activity e _ _ _ _
  | spawn i v => exact .spawn _ i v
  | update => exact absurd trivial hl

theorem PhaseSys.step_wake {s s' : PhaseSys server}
    (h : s.step (phases server nodeId) .wake = some s') :
    ∃ l reader reads, s.ctrl = .waiting l reader reads ∧
      s.memory.latch server.notifier = true ∧
      s' = ({ s with memory := { s.memory with
        latch := Function.update s.memory.latch server.notifier false } } : PhaseSys server).beginFlush
          (phases server nodeId) l := by
  cases Sys.step_cases h with
  | wake l reader reads hctrl hlatch => exact ⟨l, reader, reads, hctrl, hlatch, rfl⟩

theorem PhaseSys.step_act {s s' : PhaseSys server} {accepted : Bool}
    (h : s.step (phases server nodeId) (.act accepted) = some s') :
    ∃ activity p o k, s.ctrl = .running activity p ∧ p.view = .act o k ∧
      s' = s.perform activity accepted o k := by
  cases Sys.step_cases h with
  | act accepted activity p o k hctrl hview => exact ⟨activity, p, o, k, hctrl, hview, rfl⟩

theorem PhaseSys.step_update {s s' : PhaseSys server} {j : ℕ}
    (h : s.step (phases server nodeId) (.update j) = some s') :
    ∃ u o k, s.updates[j]? = some u ∧ u.view = .act o k ∧ s' = s.performUpdate j o k := by
  cases Sys.step_cases h with
  | update j u o k hj hview => exact ⟨u, o, k, hj, hview, rfl⟩

theorem PhaseSys.step_move {s s' : PhaseSys server} {l : Label server.keys}
    (h : s.step (phases server nodeId) l = some s') :
    Move server nodeId (PhaseSys.config s) (PhaseSys.config s') := by
  cases l with
  | wake =>
    obtain ⟨l, r, reads, hctrl, -, rfl⟩ := PhaseSys.step_wake h
    rw [config_of_position (p := .idle l) (by rw [PhaseSys.position, hctrl])]
    exact .wake l _ _ _ _
  | act accepted =>
    obtain ⟨activity, p, o, k, hctrl, hview, rfl⟩ := PhaseSys.step_act h
    rw [config_of_position (p := .running activity p) (by rw [PhaseSys.position, hctrl])]
    exact .act activity p o k accepted _ _ _ _ hview
  | update j =>
    obtain ⟨u, o, k, hj, hview, rfl⟩ := PhaseSys.step_update h
    exact .update j u o k _ _ _ _ _ hj hview
  | _ =>
    refine (PhaseSys.step_still ?_ h).move
    exact fun hl => hl

theorem Move.log_grows {c c' : Config server} (h : Move server nodeId c c') :
    ∃ newer, c'.log = newer ++ c.log := by
  cases h with
  | quiet | stop | start | answered | spawn => exact ⟨[], rfl⟩
  | serve l request => exact ⟨[.served request], rfl⟩
  | wake | flush => exact ⟨[.flushBegin], rfl⟩
  | flushed => exact ⟨[.flushEnd], rfl⟩
  | act activity p o k accepted m => exact ⟨o.observe .server (o.exec accepted m).1, rfl⟩
  | update j u o k position m => exact ⟨o.observe .update (o.exec true m).1, rfl⟩

theorem PhaseSys.invariant {I : Config server → Prop} {s s' : PhaseSys server}
    {ls : List (Label server.keys)} {P : PhaseSys server → Label server.keys → Prop}
    (hp : Path (Sys.step (phases server nodeId)) P s ls s') (h0 : I (PhaseSys.config s))
    (hmove : ∀ c c', I c → Move server nodeId c c' → I c') : I (PhaseSys.config s') :=
  hp.invariant (fun u => I (PhaseSys.config u)) h0
    fun _ _ _ hu _ hs => hmove _ _ hu (PhaseSys.step_move hs)

end
end Qup.Embassy
