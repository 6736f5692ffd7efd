import Qup.Embassy.Move

/-!
# Several connections over the same keys

Keys and servers are statics: the registries of several servers can name the
same keys, and one server can run for several connections at a time. Each
connection steps as in `Run.lean`, on the part of the memory that its registry
names; a call of `try_set` is listed with a connection whose registry names the
key. The history keeps what the connections share: who read a generation, who
took a signal, and which notifier an update found.
-/

namespace Qup.Embassy
open Foundation

variable {K : ℕ} {pool : Fin K → ErasedKey} {ι : Type}

structure Host (pool : Fin K → ErasedKey) where
  size : ℕ
  registry : Fin size → Fin K
  distinct : Function.Injective fun i => (pool (registry i)).keyref
  notifier : ℕ

namespace Host

def server (h : Host pool) : Server h.size := .ofRun (fun i => pool (h.registry i)) h.notifier

theorem registry_injective (h : Host pool) : Function.Injective h.registry :=
  fun _ _ hij => h.distinct (congrArg (fun k => (pool k).keyref) hij)

def slot (h : Host pool) (k : Fin K) : Option (Fin h.size) :=
  (List.finRange h.size).find? fun i => h.registry i = k

theorem slot_eq {h : Host pool} {k : Fin K} {i : Fin h.size} (hi : h.slot k = some i) :
    h.registry i = k := by
  simpa using List.find?_some hi

theorem slot_registry (h : Host pool) (i : Fin h.size) : h.slot (h.registry i) = some i := by
  cases hslot : h.slot (h.registry i) with
  | none =>
    have hnone := List.find?_eq_none.mp hslot i (List.mem_finRange i)
    simp at hnone
  | some j => rw [h.registry_injective (slot_eq hslot)]

def view (h : Host pool) (m : Memory pool) : Memory h.server.keys where
  value i := m.value (h.registry i)
  generation i := m.generation (h.registry i)
  changeSignal i := m.changeSignal (h.registry i)
  notifier i := m.notifier (h.registry i)
  latch := m.latch

def write (h : Host pool) (m : Memory pool) (m' : Memory h.server.keys) : Memory pool where
  value k := match hk : h.slot k with
    | some i => slot_eq hk ▸ m'.value i
    | none => m.value k
  generation k := match h.slot k with
    | some i => m'.generation i
    | none => m.generation k
  changeSignal k := match h.slot k with
    | some i => m'.changeSignal i
    | none => m.changeSignal k
  notifier k := match h.slot k with
    | some i => m'.notifier i
    | none => m.notifier k
  latch := m'.latch

variable {h : Host pool} {m : Memory pool} {m' : Memory h.server.keys}

@[simp] theorem write_latch : (h.write m m').latch = m'.latch := rfl

theorem write_generation_eq (hm : m'.generation = (h.view m).generation) :
    (h.write m m').generation = m.generation := by
  funext k
  simp only [write]
  cases hk : h.slot k with
  | none => rfl
  | some i =>
    simp only [hm, view, slot_eq hk]

theorem write_generation_update {i : Fin h.size} {g : UInt32}
    (hm : m'.generation = Function.update (h.view m).generation i g) :
    (h.write m m').generation = Function.update m.generation (h.registry i) g := by
  funext k
  simp only [write]
  by_cases hki : k = h.registry i
  · subst hki
    rw [h.slot_registry]
    simp only [hm, Function.update_self]
  · rw [Function.update_of_ne hki]
    cases hk : h.slot k with
    | none => rfl
    | some j =>
      have hji : j ≠ i := fun hji => hki (by rw [← slot_eq hk, hji])
      simp only [hm, Function.update_of_ne hji, view, slot_eq hk]

end Host

inductive Sighting (ι : Type) (K : ℕ) where
  | read (c : ι) (k : Fin K)
  | took (c : ι)
  | found (k : Fin K) (notifier : Option ℕ)
  deriving DecidableEq

section
variable {N : ℕ}

def Op.sightings {keys : Fin N → ErasedKey} (c : ι) (registry : Fin N → Fin K) (m : Memory keys) :
    Op keys → List (Sighting ι K)
  | .loadGeneration i => [.read c (registry i)]
  | .loadNotifier i => [.found (registry i) (m.notifier i)]
  | _ => []

variable {server : Server N} {P U : Type}

def Sys.sightings (M : Machine server P U) (c : ι) (registry : Fin N → Fin K)
    (s : Sys server.keys P U) : Label server.keys → List (Sighting ι K)
  | .wake => [.took c]
  | .act _ =>
    match s.ctrl with
    | .running _ task =>
      match M.view task with
      | .act o _ => o.sightings c registry s.memory
      | _ => []
    | _ => []
  | .update j =>
    match s.updates[j]? with
    | some u =>
      match M.updateView u with
      | .act o _ => o.sightings c registry s.memory
      | _ => []
    | none => []
  | _ => []

def Op.Announces {keys : Fin N → ErasedKey} : Op keys → Prop
  | .fetchAddGeneration _ | .signalChange _ | .loadNotifier _ | .signal _ => True
  | _ => False

def Sys.Updating (M : Machine server P U) (s : Sys server.keys P U) : Prop :=
  (∃ activity task o k, s.ctrl = .running activity task ∧ M.view task = .act o k ∧ o.Announces) ∨
    ∃ u ∈ s.updates, ∃ o k, M.updateView u = .act o k ∧ o.Announces

end

structure Device (hosts : ι → Host pool) (P U : ι → Type) where
  memory : Memory pool
  conn : (c : ι) → Sys (hosts c).server.keys (P c) (U c)
  history : List (Sighting ι K)

abbrev DeviceLabel (hosts : ι → Host pool) := (c : ι) × Label (hosts c).server.keys

namespace Device
variable {hosts : ι → Host pool} {P U P' U' : ι → Type}

def view (s : Device hosts P U) (c : ι) : Sys (hosts c).server.keys (P c) (U c) :=
  { s.conn c with memory := (hosts c).view s.memory }

def initial (M : (c : ι) → Machine (hosts c).server (P c) (U c)) (memory : Memory pool) :
    Device hosts P U where
  memory := memory
  conn c := Sys.initial (M c) ((hosts c).view memory)
  history := []

/-- Connection `c` has become `t`, and others could see `sightings`. -/
def after [DecidableEq ι] (s : Device hosts P U) (c : ι)
    (t : Sys (hosts c).server.keys (P c) (U c)) (sightings : List (Sighting ι K)) :
    Device hosts P U where
  memory := (hosts c).write s.memory t.memory
  conn := Function.update s.conn c t
  history := sightings ++ s.history

theorem after_conn_self [DecidableEq ι] (s : Device hosts P U) (c : ι)
    (t : Sys (hosts c).server.keys (P c) (U c)) (sightings : List (Sighting ι K)) :
    (s.after c t sightings).conn c = t := by
  simp only [after, Function.update_self]

theorem after_conn_ne [DecidableEq ι] (s : Device hosts P U) {c d : ι} (h : d ≠ c)
    (t : Sys (hosts c).server.keys (P c) (U c)) (sightings : List (Sighting ι K)) :
    (s.after c t sightings).conn d = s.conn d := by
  simp only [after, Function.update_of_ne h]

def step [DecidableEq ι] (M : (c : ι) → Machine (hosts c).server (P c) (U c))
    (s : Device hosts P U) : DeviceLabel hosts → Option (Device hosts P U)
  | ⟨c, l⟩ => ((s.view c).step (M c) l).map fun t =>
    s.after c t ((s.view c).sightings (M c) c (hosts c).registry l)

abbrev connections (hosts : ι → Host pool) (nodeIds : ι → Utf8.Str) (c : ι) :
    Machine (hosts c).server ((hosts c).server.Handler (Locals (hosts c).size))
      (Action (hosts c).server.keys (Except WireValueError Bool)) :=
  programs (hosts c).server (nodeIds c)

abbrev Running (hosts : ι → Host pool) :=
  Device hosts (fun c => (hosts c).server.Handler (Locals (hosts c).size))
    (fun c => Action (hosts c).server.keys (Except WireValueError Bool))

def map (f : (c : ι) → P c → P' c) (g : (c : ι) → U c → U' c) (s : Device hosts P U) :
    Device hosts P' U' where
  memory := s.memory
  conn c := (s.conn c).map (f c) (g c)
  history := s.history

variable {M : (c : ι) → Machine (hosts c).server (P c) (U c)}
  {M' : (c : ι) → Machine (hosts c).server (P' c) (U' c)}

theorem sightings_map (h : ∀ c, (M c).Hom (M' c)) (c : ι)
    (s : Sys (hosts c).server.keys (P c) (U c)) (l : Label (hosts c).server.keys) :
    (s.map (h c).task (h c).update).sightings (M' c) c (hosts c).registry l =
      s.sightings (M c) c (hosts c).registry l := by
  cases l with
  | act accepted =>
    simp only [Sys.sightings, Sys.map]
    rcases s.ctrl with _ | _ | _ | ⟨activity, task⟩ | _ <;> simp only [Ctrl.map]
    rw [(h c).view_task]
    cases (M c).view task <;> rfl
  | update j =>
    simp only [Sys.sightings, Sys.map, List.getElem?_map]
    cases s.updates[j]? with
    | none => rfl
    | some u =>
      simp only [Option.map_some]
      rw [(h c).view_update]
      cases (M c).updateView u <;> rfl
  | _ => rfl

theorem step_map [DecidableEq ι] (h : ∀ c, (M c).Hom (M' c)) (s : Device hosts P U)
    (l : DeviceLabel hosts) :
    (s.map (fun c => (h c).task) (fun c => (h c).update)).step M' l =
      (s.step M l).map (Device.map (fun c => (h c).task) fun c => (h c).update) := by
  obtain ⟨c, l⟩ := l
  have hview : (s.map (fun c => (h c).task) (fun c => (h c).update)).view c =
      (s.view c).map (h c).task (h c).update := rfl
  simp only [step, hview, Sys.step_map (h c), sightings_map h, Option.map_map]
  congr 1
  funext t
  simp only [Function.comp_apply, after, map, Sys.map, Device.mk.injEq, and_true, true_and]
  funext d
  by_cases hd : d = c
  · subst hd
    simp only [Function.update_self]
  · simp only [Function.update_of_ne hd]

theorem initial_map (h : ∀ c, (M c).Hom (M' c)) (memory : Memory pool) :
    (initial M' memory : Device hosts P' U') =
      (initial M memory).map (fun c => (h c).task) fun c => (h c).update := by
  simp only [initial, map, Sys.initial_map (h _)]

end Device
end Qup.Embassy
