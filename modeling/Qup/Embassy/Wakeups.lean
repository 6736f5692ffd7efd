import Qup.Embassy.Announcing
import Qup.Embassy.Notifications

/-!
# Wake-ups of several connections

A key rings one notifier, the one attached to it last, and the runs of one
server share its notifier. So a connection can sleep on a change that it has not
seen, but only after another run of its server has taken the signal or an update
has found another notifier: in every other case there is an alarm, in the
notifier or on its way to it.
-/

namespace Qup.Embassy
open Foundation

variable {K : ℕ} {pool : Fin K → ErasedKey} {ι : Type} {hosts : ι → Host pool}

/-- Since connection `c` has last read the generation of `k`, another run of its
server has taken the signal, or an update has found another notifier. -/
def Overtaken (hosts : ι → Host pool) (c : ι) (k : Fin K) : List (Sighting ι K) → Prop
  | [] => False
  | .read d j :: history => ¬ (d = c ∧ j = k) ∧ Overtaken hosts c k history
  | .took d :: history =>
    (d ≠ c ∧ (hosts d).notifier = (hosts c).notifier) ∨ Overtaken hosts c k history
  | .found j notifier :: history =>
    (j = k ∧ notifier ≠ some (hosts c).notifier) ∨ Overtaken hosts c k history

abbrev PhaseDevice (hosts : ι → Host pool) :=
  Device hosts (fun c => Phase (hosts c).server) (fun c => UpdatePhase (hosts c).server)

abbrev devicePhases (hosts : ι → Host pool) (nodeIds : ι → Utf8.Str) (c : ι) :
    Machine (hosts c).server (Phase (hosts c).server) (UpdatePhase (hosts c).server) :=
  phases (hosts c).server (nodeIds c)

namespace Device

/-- A change of `k` has reached connection `c`, is on its way, or is lost to it. -/
def Alarm (s : PhaseDevice hosts) (c : ι) (k : Fin K) : Prop :=
  s.memory.latch (hosts c).notifier = true ∨
    (∃ d i a, (s.conn d).Announcing i a ∧ (hosts d).registry i = k ∧
      a.Will (hosts c).notifier) ∨
    Overtaken hosts c k s.history

/-- A connection that observes its key `i` and has not seen its generation has
an alarm for it. -/
def Alert (s : PhaseDevice hosts) (c : ι) (i : Fin (hosts c).size) (l : Locals (hosts c).size) :
    Prop :=
  l.observed i = true → s.memory.generation ((hosts c).registry i) ≠ l.seenGeneration i →
    s.Alarm c ((hosts c).registry i)

def Flushing (s : PhaseDevice hosts) (c : ι) (i : Fin (hosts c).size) :
    Phase (hosts c).server → Prop
  | .done l => s.Alert c i l
  | .poll j rest l => i ∈ j :: rest ∨ s.Alert c i l
  | .notify _ _ _ rest l => i ∈ rest ∨ s.Alert c i l
  | .exit _ => True
  | _ => False

def Starting {N : ℕ} {server : Server N} : Phase server → Prop
  | .done l => l = Locals.initial N
  | .attach _ _ => True
  | .exit _ => True
  | _ => False

/-- In this position, connection `c` will come to know of every change of its
key `i`. -/
def Attentive (s : PhaseDevice hosts) (c : ι) (i : Fin (hosts c).size) :
    Position (hosts c).server → Prop
  | .idle l => s.Alert c i l
  | .running .starting p => Starting p
  | .running (.handling _) _ => True
  | .running .flushing p => s.Flushing c i p
  | .stopped => True

theorem flushing_flushPhase {s : PhaseDevice hosts} {c : ι} {i : Fin (hosts c).size}
    (hi : ((hosts c).server.keys i).observable = true) {l : Locals (hosts c).size}
    {rest : List (Fin (hosts c).size)} (h : i ∈ rest ∨ s.Alert c i l) :
    s.Flushing c i (.flushPhase rest l) := by
  induction rest with
  | nil => exact h.resolve_left List.not_mem_nil
  | cons j rest ih =>
    rw [Phase.flushPhase]
    split_ifs with hj
    · exact h
    · refine ih ?_
      rcases h with h | h
      · rcases List.mem_cons.mp h with rfl | h
        · refine Or.inr fun hobserved => ?_
          rw [hobserved, hi] at hj
          exact absurd rfl hj
        · exact Or.inl h
      · exact Or.inr h

theorem flushing_notifyWith {s : PhaseDevice hosts} {c : ι} {i : Fin (hosts c).size}
    (hi : ((hosts c).server.keys i).observable = true) {f : Frame} {l : Locals (hosts c).size}
    {rest : List (Fin (hosts c).size)} {pieces : List (List UInt8)} (h : i ∈ rest ∨ s.Alert c i l) :
    s.Flushing c i (.notifyWith f rest l pieces) := by
  cases pieces with
  | nil => exact flushing_flushPhase hi h
  | cons piece pieces => exact h

theorem hasObservableKeys_of_observable {h : Host pool} {i : Fin h.size}
    (hi : (h.server.keys i).observable = true) : h.server.hasObservableKeys = true :=
  List.any_eq_true.mpr ⟨i, List.mem_finRange i, hi⟩

theorem flushing_flush {s : PhaseDevice hosts} {c : ι} {i : Fin (hosts c).size}
    (hi : ((hosts c).server.keys i).observable = true) (l : Locals (hosts c).size) :
    s.Flushing c i (.flush l) := by
  rw [Phase.flush, hasObservableKeys_of_observable hi]
  exact flushing_flushPhase hi (Or.inl (List.mem_finRange i))

theorem starting_attachPhase {N : ℕ} {server : Server N} (rest : List (Fin N)) :
    Starting (.attachPhase rest : Phase server) := by
  induction rest with
  | nil =>
    rw [Phase.attachPhase]
    split_ifs
    · exact rfl
    · trivial
  | cons i rest ih =>
    rw [Phase.attachPhase]
    split_ifs
    · trivial
    · exact ih

theorem starting_start {N : ℕ} {server : Server N} (nodeId : Utf8.Str) :
    Starting (.start nodeId : Phase server) := by
  unfold Phase.start
  cases Server.validateWireString nodeId with
  | error message => trivial
  | ok u => exact starting_attachPhase _

variable [DecidableEq ι] {nodeIds : ι → Utf8.Str} {s : PhaseDevice hosts} {d : ι}
  {t : PhaseSys (hosts d).server} {seen : List (Sighting ι K)} {c : ι} {k : Fin K} {g : UInt32}

theorem after_announcing {e : ι} {j : Fin (hosts e).size} {x : Announce}
    (h : (s.conn e).Announcing j x) {lost : Fin (hosts d).size → Announce → Prop}
    (hkeep : ∀ j x, (s.conn d).Announcing j x → t.Announcing j x ∨ lost j x) :
    ((s.after d t seen).conn e).Announcing j x ∨
      ∃ i, (hosts d).registry i = (hosts e).registry j ∧ lost i x := by
  by_cases he : e = d
  · subst he
    rw [after_conn_self]
    exact (hkeep j x h).imp_right fun hlost => ⟨j, rfl, hlost⟩
  · refine Or.inl ?_
    rw [after_conn_ne s he]
    exact h

theorem Alarm.calm (h : s.Alarm c k)
    (hlatch : s.memory.latch (hosts c).notifier = true → t.memory.latch (hosts c).notifier = true)
    (hkeep : ∀ j x, (s.conn d).Announcing j x → t.Announcing j x ∨ x = .bump)
    (hseen : Overtaken hosts c k s.history → Overtaken hosts c k (seen ++ s.history)) :
    (s.after d t seen).Alarm c k := by
  rcases h with h | ⟨e, j, x, hx, hj, hwill⟩ | h
  · exact Or.inl (hlatch h)
  · have hafter : ((s.after d t seen).conn e).Announcing j x ∨
        ∃ i, (hosts d).registry i = (hosts e).registry j ∧ x = .bump := after_announcing hx hkeep
    rcases hafter with hx' | ⟨i, -, rfl⟩
    · exact Or.inr (Or.inl ⟨e, j, x, hx', hj, hwill⟩)
    · exact hwill.elim
  · exact Or.inr (Or.inr (hseen h))

theorem Alarm.announce {i : Fin (hosts d).size} {a : Announce} {accepted : Bool}
    (hobservable : (pool k).observable = true)
    (hmemory : t.memory =
      ((a.op i : Op (hosts d).server.keys).exec accepted (s.view d).memory).2)
    (hkeep : ∀ j x, (s.conn d).Announcing j x → t.Announcing j x ∨ (j = i ∧ x = a))
    (hnext : ∀ b, a.next i ((a.op i : Op (hosts d).server.keys).exec accepted
      (s.view d).memory).1 = some b → t.Announcing i b)
    (hseen : seen = (a.op i : Op (hosts d).server.keys).sightings d (hosts d).registry
      (s.view d).memory)
    (h : s.memory.generation k ≠ g → s.Alarm c k) :
    (s.after d t seen).memory.generation k ≠ g → (s.after d t seen).Alarm c k := by
  have hself : ∀ {b}, t.Announcing i b → ((s.after d t seen).conn d).Announcing i b := by
    intro b hb
    rw [after_conn_self]
    exact hb
  cases a with
  | bump =>
    have hgeneration : (s.after d t seen).memory.generation =
        Function.update s.memory.generation ((hosts d).registry i)
          (s.memory.generation ((hosts d).registry i) + 1) :=
      Host.write_generation_update (by rw [hmemory]; rfl)
    by_cases hk : k = (hosts d).registry i
    · intro _
      exact Or.inr (Or.inl ⟨d, i, .touch, hself (hnext _ rfl), hk.symm, trivial⟩)
    · rw [hgeneration, Function.update_of_ne hk]
      intro hg
      subst hseen
      exact (h hg).calm (fun hl => by rw [hmemory]; exact hl)
        (fun j x hx => (hkeep j x hx).imp_right And.right) fun ho => ho
  | touch =>
    have hgeneration : (s.after d t seen).memory.generation = s.memory.generation :=
      Host.write_generation_eq (by rw [hmemory]; rfl)
    rw [hgeneration]
    intro hg
    subst hseen
    rcases h hg with h | ⟨e, j, x, hx, hj, hwill⟩ | h
    · exact Or.inl (by change t.memory.latch _ = true; rw [hmemory]; exact h)
    · rcases after_announcing hx hkeep with hx' | ⟨i', hi', rfl, rfl⟩
      · exact Or.inr (Or.inl ⟨e, j, x, hx', hj, hwill⟩)
      · have hi : ((hosts d).server.keys i').observable = true := by
          change (pool ((hosts d).registry i')).observable = true
          rw [hi', hj, hobservable]
        refine Or.inr (Or.inl ⟨d, i', .lookup, hself (hnext _ ?_), hi'.trans hj, trivial⟩)
        rw [Announce.next, hi]
        rfl
    · exact Or.inr (Or.inr h)
  | lookup =>
    have hgeneration : (s.after d t seen).memory.generation = s.memory.generation :=
      Host.write_generation_eq (by rw [hmemory]; rfl)
    rw [hgeneration]
    intro hg
    subst hseen
    rcases h hg with h | ⟨e, j, x, hx, hj, hwill⟩ | h
    · exact Or.inl (by change t.memory.latch _ = true; rw [hmemory]; exact h)
    · rcases after_announcing hx hkeep with hx' | ⟨i', hi', rfl, rfl⟩
      · exact Or.inr (Or.inl ⟨e, j, x, hx', hj, hwill⟩)
      · by_cases hfound : (s.view d).memory.notifier i' = some (hosts c).notifier
        · refine Or.inr (Or.inl ⟨d, i', .ring (hosts c).notifier, hself (hnext _ ?_),
            hi'.trans hj, rfl⟩)
          simp only [Announce.op, Op.exec, hfound]
          rfl
        · exact Or.inr (Or.inr (Or.inl ⟨hi'.trans hj, hfound⟩))
    · exact Or.inr (Or.inr (Or.inr h))
  | ring n =>
    have hgeneration : (s.after d t seen).memory.generation = s.memory.generation :=
      Host.write_generation_eq (by rw [hmemory]; rfl)
    have hlatch : t.memory.latch = Function.update s.memory.latch n true := by
      rw [hmemory]
      rfl
    have hring : s.memory.latch (hosts c).notifier = true ∨ n = (hosts c).notifier →
        (s.after d t seen).Alarm c k := by
      intro hn
      refine Or.inl ?_
      change t.memory.latch (hosts c).notifier = true
      rw [hlatch, Function.update_apply]
      split_ifs with hcn
      · rfl
      · exact hn.resolve_right (Ne.symm hcn)
    rw [hgeneration]
    intro hg
    rcases h hg with h | ⟨e, j, x, hx, hj, hwill⟩ | h
    · exact hring (Or.inl h)
    · rcases after_announcing hx hkeep with hx' | ⟨i', hi', rfl, rfl⟩
      · exact Or.inr (Or.inl ⟨e, j, x, hx', hj, hwill⟩)
      · exact hring (Or.inr hwill)
    · subst hseen
      exact Or.inr (Or.inr h)

omit [DecidableEq ι] in
theorem overtaken_append (hread : Sighting.read c k ∉ seen) {history : List (Sighting ι K)}
    (h : Overtaken hosts c k history) : Overtaken hosts c k (seen ++ history) := by
  induction seen with
  | nil => exact h
  | cons e seen ih =>
    obtain ⟨he, hrest⟩ := not_or.mp (mt List.mem_cons.mpr hread)
    cases e with
    | read d j =>
      refine ⟨fun hdj => he ?_, ih hrest⟩
      rw [hdj.1, hdj.2]
    | took d => exact Or.inr (ih hrest)
    | found j notifier => exact Or.inr (ih hrest)

theorem Alarm.other {o : Op (hosts d).server.keys} {accepted : Bool}
    (ho : ¬ o.Announces) (hmemory : t.memory = (o.exec accepted (s.view d).memory).2)
    (hkeep : ∀ j x, (s.conn d).Announcing j x → t.Announcing j x)
    (hread : Sighting.read c k ∉ seen) (h : s.memory.generation k ≠ g → s.Alarm c k) :
    (s.after d t seen).memory.generation k ≠ g → (s.after d t seen).Alarm c k := by
  have hsame : t.memory.generation = (s.view d).memory.generation ∧
      t.memory.latch = s.memory.latch := by
    rw [hmemory]
    cases o <;> first | exact ⟨rfl, rfl⟩ | exact absurd trivial ho
  have hgeneration : (s.after d t seen).memory.generation = s.memory.generation :=
    Host.write_generation_eq hsame.1
  rw [hgeneration]
  intro hg
  exact (h hg).calm (fun hl => by rw [hsame.2]; exact hl) (fun j x hx => Or.inl (hkeep j x hx))
    (overtaken_append hread)

theorem alarm_act {activity : Activity} {p : Phase (hosts d).server}
    {o : Op (hosts d).server.keys} {next : o.Res → Phase (hosts d).server} {accepted : Bool}
    (hobservable : (pool k).observable = true) (hctrl : (s.conn d).ctrl = .running activity p)
    (hview : p.view = .act o next)
    (hread : Sighting.read c k ∉ o.sightings d (hosts d).registry (s.view d).memory)
    (h : s.memory.generation k ≠ g → s.Alarm c k) :
    let s' := s.after d ((s.view d).perform activity accepted o next)
      (o.sightings d (hosts d).registry (s.view d).memory)
    s'.memory.generation k ≠ g → s'.Alarm c k := by
  intro s'
  cases ha : p.announcing with
  | none =>
    refine Alarm.other (Phase.not_announces hview ha) rfl (fun j x hx => ?_) hread h
    rcases hx with ⟨activity', p', hp', hx⟩ | hu
    · rw [hctrl] at hp'
      cases hp'
      rw [ha] at hx
      cases hx
    · exact Or.inr hu
  | some x =>
    cases p with
    | announce a i v l =>
      cases hview
      refine Alarm.announce (a := a) hobservable rfl ?_ ?_ rfl h
      · intro j x hx
        rcases hx with ⟨activity', p', hp', hx⟩ | hu
        · rw [hctrl] at hp'
          cases hp'
          cases hx
          exact Or.inr ⟨rfl, rfl⟩
        · exact Or.inl (Or.inr hu)
      · intro b hb
        refine Or.inl ⟨activity, _, rfl, ?_⟩
        simp only [hb]
        rfl
    | _ => cases ha

theorem alarm_update {j : ℕ} {u : UpdatePhase (hosts d).server} {o : Op (hosts d).server.keys}
    {next : o.Res → UpdatePhase (hosts d).server} (hobservable : (pool k).observable = true)
    (hj : (s.conn d).updates[j]? = some u) (hview : u.view = .act o next)
    (h : s.memory.generation k ≠ g → s.Alarm c k) :
    let s' := s.after d ((s.view d).performUpdate j o next)
      (o.sightings d (hosts d).registry (s.view d).memory)
    s'.memory.generation k ≠ g → s'.Alarm c k := by
  intro s'
  have hkeep : ∀ i x, (s.conn d).Announcing i x →
      ((s.view d).performUpdate j o next).Announcing i x ∨ u.announcing = some (i, x) := by
    intro i x hx
    rcases hx with hctrl | hupdates
    · exact Or.inl (Or.inl hctrl)
    · exact (exists_mem_set hj _ hupdates).imp_left Or.inr
  have hnew : ∀ i b, (next (o.exec true (s.view d).memory).1).announcing = some (i, b) →
      ((s.view d).performUpdate j o next).Announcing i b := by
    intro i b hb
    obtain ⟨hlt, -⟩ := List.getElem?_eq_some_iff.mp hj
    exact Or.inr ⟨_, List.mem_set hlt _, hb⟩
  cases ha : u.announcing with
  | none =>
    refine Alarm.other (UpdatePhase.not_announces hview ha) rfl
      (fun i x hx => (hkeep i x hx).resolve_right (by rw [ha]; simp)) ?_ h
    cases u with
    | announce a i changed => cases ha
    | finished result => cases hview
    | store i v =>
      cases hview
      exact List.not_mem_nil
  | some x =>
    cases u with
    | announce a i changed =>
      cases hview
      refine Alarm.announce (a := a) hobservable rfl (fun j x hx => ?_) ?_ rfl h
      · refine (hkeep j x hx).imp_right fun hx => ?_
        cases hx
        exact ⟨rfl, rfl⟩
      · intro b hb
        refine hnew i b ?_
        simp only [hb]
        rfl
    | _ => cases ha

theorem alarm_still {t : PhaseSys (hosts d).server}
    (hstill : Still (hosts d).server (nodeIds d) (PhaseSys.config (s.view d)) (PhaseSys.config t))
    (h : s.memory.generation k ≠ g → s.Alarm c k) :
    (s.after d t []).memory.generation k ≠ g → (s.after d t []).Alarm c k := by
  have hmemory : t.memory = (hosts d).view s.memory := hstill.memory_eq
  have hgeneration : (s.after d t []).memory.generation = s.memory.generation :=
    Host.write_generation_eq (by rw [hmemory])
  rw [hgeneration]
  intro hg
  exact (h hg).calm (fun hl => by rw [hmemory]; exact hl)
    (fun j x hx => Or.inl (hstill.announcing hx)) fun ho => ho

theorem alarm_wake {l : Locals (hosts d).size} (hdc : d ≠ c)
    (hctrl : ∃ reader reads, (s.conn d).ctrl = .waiting l reader reads)
    (ht : t = ({ s.view d with
      memory := { (s.view d).memory with
        latch := Function.update s.memory.latch (hosts d).notifier false } } :
          PhaseSys (hosts d).server).beginFlush (devicePhases hosts nodeIds d) l)
    (h : s.memory.generation k ≠ g → s.Alarm c k) :
    (s.after d t [.took d]).memory.generation k ≠ g → (s.after d t [.took d]).Alarm c k := by
  have hgeneration : (s.after d t [.took d]).memory.generation = s.memory.generation :=
    Host.write_generation_eq (by rw [ht]; rfl)
  rw [hgeneration]
  intro hg
  by_cases hn : (hosts d).notifier = (hosts c).notifier
  · exact Or.inr (Or.inr (Or.inl ⟨hdc, hn⟩))
  · refine (h hg).calm (fun hl => ?_) (fun j x hx => Or.inl ?_) Or.inr
    · rw [ht]
      change Function.update s.memory.latch (hosts d).notifier false (hosts c).notifier = true
      rw [Function.update_of_ne (Ne.symm hn)]
      exact hl
    · obtain ⟨reader, reads, hctrl⟩ := hctrl
      rcases hx with ⟨activity, p, hp, -⟩ | hu
      · rw [hctrl] at hp
        cases hp
      · rw [ht]
        exact Or.inr hu

omit [DecidableEq ι] in
theorem sightings_act {u : PhaseSys (hosts d).server} {accepted : Bool} {activity : Activity}
    {p : Phase (hosts d).server} {o : Op (hosts d).server.keys} {next : o.Res → Phase (hosts d).server}
    (hctrl : u.ctrl = .running activity p) (hview : p.view = .act o next) :
    u.sightings (devicePhases hosts nodeIds d) d (hosts d).registry (.act accepted) =
      o.sightings d (hosts d).registry u.memory := by
  simp only [Sys.sightings, hctrl, phases, hview]

/-- The alarms of a connection stay, except for a key that it reads itself and
for its own wake-up. -/
theorem alarm_step {l : Label (hosts d).server.keys} (hobservable : (pool k).observable = true)
    (hstep : (s.view d).step (devicePhases hosts nodeIds d) l = some t)
    (hwake : l = .wake → d ≠ c)
    (hread : Sighting.read c k ∉
      (s.view d).sightings (devicePhases hosts nodeIds d) d (hosts d).registry l)
    (h : s.memory.generation k ≠ g → s.Alarm c k) :
    let s' := s.after d t
      ((s.view d).sightings (devicePhases hosts nodeIds d) d (hosts d).registry l)
    s'.memory.generation k ≠ g → s'.Alarm c k := by
  intro s'
  cases l with
  | wake =>
    obtain ⟨l, reader, reads, hctrl, -, ht⟩ := PhaseSys.step_wake hstep
    exact alarm_wake (hwake rfl) ⟨reader, reads, hctrl⟩ ht h
  | act accepted =>
    obtain ⟨activity, p, o, next, hctrl, hview, rfl⟩ := PhaseSys.step_act hstep
    subst s'
    rw [sightings_act hctrl hview] at hread ⊢
    exact alarm_act hobservable hctrl hview hread h
  | update j =>
    obtain ⟨u, o, next, hj, hview, rfl⟩ := PhaseSys.step_update hstep
    have hseen : (s.view d).sightings (devicePhases hosts nodeIds d) d (hosts d).registry
        (.update j) = o.sightings d (hosts d).registry (s.view d).memory := by
      simp only [Sys.sightings, hj, phases, hview]
    subst s'
    rw [hseen]
    exact alarm_update hobservable hj hview h
  | _ =>
    refine alarm_still (PhaseSys.step_still ?_ hstep) h
    exact fun hl => hl

theorem Alert.step {l : Label (hosts d).server.keys} {i : Fin (hosts c).size}
    {locals : Locals (hosts c).size} (h : s.Alert c i locals)
    (hobservable : ((hosts c).server.keys i).observable = true)
    (hstep : (s.view d).step (devicePhases hosts nodeIds d) l = some t)
    (hwake : l = .wake → d ≠ c)
    (hread : Sighting.read c ((hosts c).registry i) ∉
      (s.view d).sightings (devicePhases hosts nodeIds d) d (hosts d).registry l) :
    (s.after d t ((s.view d).sightings (devicePhases hosts nodeIds d) d
      (hosts d).registry l)).Alert c i locals :=
  fun hobserved => alarm_step hobservable hstep hwake hread (h hobserved)

omit [DecidableEq ι] in
theorem read_mem_op {o : Op (hosts d).server.keys} {m : Memory (hosts d).server.keys}
    (h : Sighting.read c k ∈ o.sightings d (hosts d).registry m) :
    d = c ∧ ∃ i, o = .loadGeneration i ∧ (hosts d).registry i = k := by
  cases o with
  | loadGeneration i =>
    obtain ⟨rfl, rfl⟩ := Sighting.read.inj (List.mem_singleton.mp h)
    exact ⟨rfl, i, rfl, rfl⟩
  | loadNotifier i => cases List.mem_singleton.mp h
  | _ => exact absurd h List.not_mem_nil

omit [DecidableEq ι] in
theorem read_mem_sightings {l : Label (hosts d).server.keys} (h : Sighting.read c k ∈
    (s.view d).sightings (devicePhases hosts nodeIds d) d (hosts d).registry l) :
    d = c ∧ ∃ accepted, l = .act accepted := by
  cases l with
  | act accepted =>
    simp only [Sys.sightings, phases] at h
    rcases hctrl : (s.view d).ctrl with _ | _ | _ | ⟨activity, p⟩ | _ <;>
      simp only [hctrl, List.not_mem_nil] at h
    cases hview : p.view with
    | ret l => simp [hview] at h
    | fail e => simp [hview] at h
    | act o next =>
      simp only [hview] at h
      exact ⟨(read_mem_op h).1, accepted, rfl⟩
  | update j =>
    simp only [Sys.sightings, phases] at h
    cases hj : (s.view d).updates[j]? with
    | none => simp [hj] at h
    | some u =>
      cases hview : u.view with
      | ret r => simp [hj, hview] at h
      | fail e => simp [hj, hview] at h
      | act o next =>
        simp only [hj, hview] at h
        obtain ⟨-, i, ho, -⟩ := read_mem_op h
        exact absurd ho (UpdatePhase.not_reads hview i)
  | wake => cases List.mem_singleton.mp h
  | _ => exact absurd h List.not_mem_nil

omit [DecidableEq ι] in
theorem Attentive.of_alerts {s' : PhaseDevice hosts} {i : Fin (hosts c).size}
    {position : Position (hosts c).server} (h : s.Attentive c i position)
    (halert : ∀ l, s.Alert c i l → s'.Alert c i l) : s'.Attentive c i position := by
  rcases position with l | ⟨_ | q | _, p⟩ | _
  · exact halert l h
  · exact h
  · trivial
  · cases p with
    | done l => exact halert l h
    | poll j rest l => exact h.imp_right (halert l)
    | notify f piece pieces rest l => exact h.imp_right (halert l)
    | exit e => trivial
    | _ => exact h.elim
  · trivial

omit [DecidableEq ι] in
theorem Attentive.still {x y : Config (hosts c).server} {i : Fin (hosts c).size}
    {s' : PhaseDevice hosts} (h : s.Attentive c i x.position)
    (hobservable : ((hosts c).server.keys i).observable = true)
    (hstill : Still (hosts c).server (nodeIds c) x y)
    (halert : ∀ l, s.Alert c i l → s'.Alert c i l) : s'.Attentive c i y.position := by
  cases hstill with
  | quiet => exact h.of_alerts halert
  | drop => trivial
  | exit => trivial
  | serve => trivial
  | start l =>
    obtain rfl : l = Locals.initial _ := h
    exact fun hobserved => by cases hobserved
  | flush => exact flushing_flush hobservable _
  | answered request l m us w log ho =>
    rw [hasObservableKeys_of_observable hobservable] at ho
    cases ho
  | flushed l => exact halert l h
  | spawn => exact h.of_alerts halert

omit [DecidableEq ι] in
theorem flushing_sendChanged {i j : Fin (hosts c).size}
    (hobservable : ((hosts c).server.keys i).observable = true) {l : Locals (hosts c).size}
    {rest : List (Fin (hosts c).size)} (h : i ∈ rest ∨ s.Alert c i l) :
    s.Flushing c i (.sendChanged j rest l) := by
  unfold Phase.sendChanged
  split_ifs
  · exact flushing_notifyWith hobservable h
  · trivial

omit [DecidableEq ι] in
theorem Flushing.poll {i j : Fin (hosts c).size} {s' : PhaseDevice hosts}
    {l : Locals (hosts c).size} {rest : List (Fin (hosts c).size)}
    (h : i ∈ j :: rest ∨ s.Alert c i l)
    (hobservable : ((hosts c).server.keys i).observable = true)
    (hgeneration : s'.memory.generation = s.memory.generation)
    (halert : j ≠ i → ∀ l, s.Alert c i l → s'.Alert c i l) :
    s'.Flushing c i (if s.memory.generation ((hosts c).registry j) = l.seenGeneration j
      then .flushPhase rest l
      else .sendChanged j rest (l.setSeen j (s.memory.generation ((hosts c).registry j)))) := by
  by_cases hji : j = i
  · subst hji
    split_ifs with hg
    · refine flushing_flushPhase hobservable (Or.inr fun _ hne => ?_)
      rw [hgeneration] at hne
      exact absurd hg hne
    · refine flushing_sendChanged hobservable (Or.inr fun _ hne => ?_)
      simp only [hgeneration, Locals.setSeen, Function.update_self] at hne
      exact absurd rfl hne
  · have hrest : i ∈ rest ∨ s'.Alert c i l := by
      rcases h with h | h
      · exact Or.inl ((List.mem_cons.mp h).resolve_left (Ne.symm hji))
      · exact Or.inr (halert hji l h)
    split_ifs
    · exact flushing_flushPhase hobservable hrest
    · refine flushing_sendChanged hobservable (hrest.imp_right fun hl hobserved hne => ?_)
      simp only [Locals.setSeen, Function.update_of_ne (Ne.symm hji)] at hne
      exact hl hobserved hne

theorem Attentive.act {activity : Activity} {p : Phase (hosts c).server}
    {o : Op (hosts c).server.keys} {next : o.Res → Phase (hosts c).server} {accepted : Bool}
    {i : Fin (hosts c).size} (h : s.Attentive c i (.running activity p))
    (hobservable : ((hosts c).server.keys i).observable = true) (hview : p.view = .act o next)
    {s' : PhaseDevice hosts}
    (hs' : s' = s.after c ((s.view c).perform activity accepted o next)
      (o.sightings c (hosts c).registry (s.view c).memory))
    (halert : o ≠ .loadGeneration i → ∀ l, s.Alert c i l → s'.Alert c i l) :
    s'.Attentive c i (.running activity (next (o.exec accepted (s.view c).memory).1)) := by
  cases activity with
  | starting =>
    cases p with
    | attach j rest =>
      cases hview
      exact starting_attachPhase rest
    | done l => cases hview
    | exit e => cases hview
    | _ => exact h.elim
  | handling request => trivial
  | flushing =>
    cases p with
    | done l => cases hview
    | exit e => cases hview
    | notify f piece pieces rest l =>
      cases hview
      cases accepted with
      | false => trivial
      | true => exact flushing_notifyWith hobservable (h.imp_right (halert (by simp) l))
    | poll j rest l =>
      cases hview
      have hgeneration : s'.memory.generation = s.memory.generation := by
        rw [hs']
        exact Host.write_generation_eq rfl
      exact Flushing.poll h hobservable hgeneration fun hji => halert (by simpa using hji)
    | _ => exact h.elim

theorem Attentive.step {l : Label (hosts d).server.keys} {i : Fin (hosts c).size}
    (h : s.Attentive c i (PhaseSys.position (s.conn c)))
    (hobservable : ((hosts c).server.keys i).observable = true)
    (hstep : (s.view d).step (devicePhases hosts nodeIds d) l = some t)
    {s' : PhaseDevice hosts} (hs' : s' = s.after d t
      ((s.view d).sightings (devicePhases hosts nodeIds d) d (hosts d).registry l)) :
    s'.Attentive c i (PhaseSys.position (s'.conn c)) := by
  have halert : (l = .wake → d ≠ c) → Sighting.read c ((hosts c).registry i) ∉
      (s.view d).sightings (devicePhases hosts nodeIds d) d (hosts d).registry l →
      ∀ l, s.Alert c i l → s'.Alert c i l := by
    intro hwake hread locals hlocals
    rw [hs']
    exact hlocals.step hobservable hstep hwake hread
  by_cases hdc : d = c
  · subst hdc
    have hposition : PhaseSys.position (s'.conn d) = (PhaseSys.config t).position := by
      rw [hs', after_conn_self]
      rfl
    rw [hposition]
    have hquiet : (∀ accepted, l ≠ .act accepted) → l ≠ .wake →
        ∀ l, s.Alert d i l → s'.Alert d i l := fun hact hwake =>
      halert (fun h => absurd h hwake) fun hread =>
        let ⟨_, accepted, hl⟩ := read_mem_sightings hread
        hact accepted hl
    cases l with
    | wake =>
      obtain ⟨l, reader, reads, -, -, rfl⟩ := PhaseSys.step_wake hstep
      exact flushing_flush hobservable l
    | act accepted =>
      obtain ⟨activity, p, o, next, hctrl, hview, rfl⟩ := PhaseSys.step_act hstep
      rw [sightings_act hctrl hview] at hs' halert
      have hrunning : PhaseSys.position (s.conn d) = .running activity p := by
        change PhaseSys.position (s.view d) = _
        rw [PhaseSys.position, hctrl]
      rw [hrunning] at h
      refine h.act hobservable hview hs' fun hload => halert (fun h => by cases h) fun hread => ?_
      obtain ⟨-, j, hj, hji⟩ := read_mem_op hread
      exact hload (hj.trans (by rw [(hosts d).registry_injective hji]))
    | update j =>
      obtain ⟨u, o, next, hj, hview, rfl⟩ := PhaseSys.step_update hstep
      exact h.of_alerts (hquiet (fun _ h => by cases h) fun h => by cases h)
    | _ =>
      refine h.still hobservable (PhaseSys.step_still ?_ hstep)
        (hquiet (fun _ h => by cases h) fun h => by cases h)
      exact fun hl => hl
  · rw [hs', after_conn_ne s (Ne.symm hdc), ← hs']
    exact h.of_alerts (halert (fun _ => hdc) fun hread => hdc (read_mem_sightings hread).1)

/-- Connection `c` observes its key `i`, has not seen its generation, and is
parked with its wake-up signal clear. -/
def Sleeps {P U : ι → Type} (s : Device hosts P U) (c : ι) (i : Fin (hosts c).size) : Prop :=
  ∃ l reader reads, (s.conn c).ctrl = .parked l reader reads ∧
    ((hosts c).server.keys i).observable = true ∧ l.observed i = true ∧
    s.memory.generation ((hosts c).registry i) ≠ l.seenGeneration i ∧
    s.memory.latch (hosts c).notifier = false

def Quiet (nodeIds : ι → Utf8.Str) (s : Running hosts) : Prop :=
  ∀ c, ¬ (s.conn c).Updating (connections hosts nodeIds c)

theorem attentive_of_path {memory : Memory pool} {P : PhaseDevice hosts → DeviceLabel hosts → Prop}
    {labels : List (DeviceLabel hosts)} (hrun : Path (step (devicePhases hosts nodeIds)) P
      (initial (devicePhases hosts nodeIds) memory) labels s) {i : Fin (hosts c).size}
    (hobservable : ((hosts c).server.keys i).observable = true) :
    s.Attentive c i (PhaseSys.position (s.conn c)) := by
  refine hrun.invariant (fun u => Attentive u c i (PhaseSys.position (u.conn c)))
    (starting_start (nodeIds c)) fun u l v hu _ hstep => ?_
  obtain ⟨d, l⟩ := l
  obtain ⟨t, ht, rfl⟩ := Option.map_eq_some_iff.mp hstep
  exact Attentive.step hu hobservable ht rfl

/-- A connection sleeps on a change only after another run of its server has
taken the signal, or an update has found another notifier. -/
theorem overtaken_of_sleeps (hosts : ι → Host pool) (nodeIds : ι → Utf8.Str) (memory : Memory pool)
    (labels : List (DeviceLabel hosts)) (s : Running hosts)
    (hrun : Path (step (connections hosts nodeIds)) (fun _ _ => True)
      (initial (connections hosts nodeIds) memory) labels s)
    (hquiet : s.Quiet nodeIds) (c : ι) (i : Fin (hosts c).size) (hsleeps : s.Sleeps c i) :
    Overtaken hosts c ((hosts c).registry i) s.history := by
  rw [initial_map fun c => phasesHom (hosts c).server (nodeIds c)] at hrun
  obtain ⟨t, ht, rfl⟩ := hrun.lift (step_map _)
  obtain ⟨l, reader, reads, hparked, hobservable, hobserved, hbehind, hclear⟩ := hsleeps
  have hattentive := attentive_of_path ht hobservable
  have hctrl : (t.conn c).ctrl = .parked l reader reads := by
    have hmap : (t.conn c).ctrl.map Phase.task = .parked l reader reads := hparked
    cases hctrl : (t.conn c).ctrl <;> rw [hctrl] at hmap <;> cases hmap
    rfl
  rw [PhaseSys.position, hctrl] at hattentive
  rcases hattentive hobserved hbehind with h | ⟨d, j, a, ha, -, -⟩ | h
  · change t.memory.latch (hosts c).notifier = false at hclear
    rw [hclear] at h
    cases h
  · exact absurd (updating_of_announcing ha) (hquiet d)
  · exact h

end Device

def lampHost (notifier : ℕ) : Host fun _ : Fin 1 => lamp where
  size := 1
  registry := id
  distinct _ _ _ := Subsingleton.elim _ _
  notifier := notifier

def lampHosts (notifiers : Fin 2 → ℕ) (c : Fin 2) : Host fun _ : Fin 1 => lamp :=
  lampHost (notifiers c)

def asleep {notifiers : Fin 2 → ℕ} (s : Device.Running (lampHosts notifiers)) : Bool :=
  ((List.finRange 2).all fun c =>
    (match (s.conn c).ctrl with
      | .parked _ _ _ => true
      | _ => false) &&
    (s.conn c).updates.all fun u => match u with
      | .ret _ => true
      | _ => false) &&
  match (s.conn 0).ctrl with
  | .parked l _ _ => l.observed (Fin.last 0) &&
      s.memory.generation (Fin.last 0) != l.seenGeneration (Fin.last 0) &&
      !s.memory.latch (notifiers 0)
  | _ => false

theorem quiet_of_asleep {notifiers : Fin 2 → ℕ} {s : Device.Running (lampHosts notifiers)}
    (h : asleep s = true) : s.Quiet (fun _ => Utf8.Str.empty) ∧ s.Sleeps 0 (0 : Fin 1) := by
  rw [asleep, Bool.and_eq_true, List.all_eq_true] at h
  obtain ⟨hsettled, hasleep⟩ := h
  constructor
  · intro c hc
    have hs := hsettled c (List.mem_finRange c)
    rw [Bool.and_eq_true, List.all_eq_true] at hs
    rcases hc with ⟨activity, task, o, k, hctrl, -⟩ | ⟨u, hu, o, k, hview, -⟩
    · rw [hctrl] at hs
      cases hs.1
    · have hret := hs.2 u hu
      cases u with
      | ret r => cases hview
      | fail e => cases hret
      | act o k => cases hret
  · cases hctrl : (s.conn 0).ctrl with
    | parked l reader reads =>
      simp only [hctrl, Bool.and_eq_true, bne_iff_ne, Bool.not_eq_true'] at hasleep
      exact ⟨l, reader, reads, hctrl, (rfl : lamp.observable = true), hasleep.1.1, hasleep.1.2,
        hasleep.2⟩
    | _ => simp [hctrl] at hasleep

def connectLamp : List (Label lampServer.keys) :=
  [.act true, .finish] ++ observeLamp ++ [.pend, .park]

def ofConnection {notifiers : Fin 2 → ℕ} (c : Fin 2) (labels : List (Label lampServer.keys)) :
    List (DeviceLabel (lampHosts notifiers)) := labels.map fun l => ⟨c, l⟩

def connectBoth (notifiers : Fin 2 → ℕ) : List (DeviceLabel (lampHosts notifiers)) :=
  ofConnection 0 connectLamp ++ ofConnection 1 connectLamp ++ ofConnection 0 (switchLamp 0)

def shareServer : List (DeviceLabel (lampHosts fun _ => 0)) :=
  connectBoth _ ++ ofConnection 1 (.repoll :: announceLamp ++ [.pend, .park])

theorem exists_asleep {notifiers : Fin 2 → ℕ} {labels : List (DeviceLabel (lampHosts notifiers))}
    (h : ((runLabels (Device.step (Device.connections _ fun _ => Utf8.Str.empty))
      (Device.initial (Device.connections _ fun _ => Utf8.Str.empty) lampMemory) labels).any
        asleep) = true) :
    ∃ s : Device.Running (lampHosts notifiers),
      Path (Device.step (Device.connections _ fun _ => Utf8.Str.empty)) (fun _ _ => True)
        (Device.initial (Device.connections _ fun _ => Utf8.Str.empty) lampMemory) labels s ∧
      s.Quiet (fun _ => Utf8.Str.empty) ∧ s.Sleeps 0 (0 : Fin 1) := by
  obtain ⟨s, hs, hasleep⟩ := (Option.any_eq_true _ _).mp h
  exact ⟨s, .of_runLabels hs, quiet_of_asleep hasleep⟩

theorem asleep_shareServer : ((runLabels (Device.step (Device.connections _ fun _ => Utf8.Str.empty))
    (Device.initial (Device.connections _ fun _ => Utf8.Str.empty) lampMemory) shareServer).any
      asleep) = true := by
  decide +kernel

/-- Either way of sharing puts a connection to sleep on a change: two runs of
one server, or two servers over one key. -/
theorem connection_oversleeps :
    (∃ s : Device.Running (lampHosts fun _ => 0),
      Path (Device.step (Device.connections _ fun _ => Utf8.Str.empty)) (fun _ _ => True)
        (Device.initial (Device.connections _ fun _ => Utf8.Str.empty) lampMemory) shareServer s ∧
      s.Quiet (fun _ => Utf8.Str.empty) ∧ s.Sleeps 0 (0 : Fin 1)) ∧
    ∃ s : Device.Running (lampHosts fun c => c.val),
      Path (Device.step (Device.connections _ fun _ => Utf8.Str.empty)) (fun _ _ => True)
        (Device.initial (Device.connections _ fun _ => Utf8.Str.empty) lampMemory)
        (connectBoth fun c => c.val) s ∧
      s.Quiet (fun _ => Utf8.Str.empty) ∧ s.Sleeps 0 (0 : Fin 1) :=
  ⟨exists_asleep asleep_shareServer, exists_asleep (by decide +kernel)⟩

theorem overtaken_of_sleeps_shareServer : ∃ s : Device.Running (lampHosts fun _ => 0),
    s.Sleeps 0 (0 : Fin 1) ∧ Overtaken (lampHosts fun _ => 0) 0 0 s.history := by
  obtain ⟨s, hrun, hquiet, hsleeps⟩ := exists_asleep asleep_shareServer
  exact ⟨s, hsleeps, Device.overtaken_of_sleeps (lampHosts fun _ => 0) _ lampMemory shareServer s
    hrun hquiet 0 (0 : Fin 1) hsleeps⟩

end Qup.Embassy
