import Qup.Embassy.Wakeups

/-!
# A connection at rest

One connection that shares its server and its keys with no other. When it is
parked with its signal clear and no update is under way, it has announced every
update of an observed key, provided that the generation did not wrap between two
of its reads.
-/

namespace Qup.Embassy
open Foundation Foundation.Utf8

variable {N : ℕ} {server : Server N} {nodeId : Str} {i : Fin N}

/-- Fewer than `2^32` updates of an observed key between two reads of its
generation. -/
def FewUpdates {keys : Fin N → ErasedKey} (i : Fin N) (log : List (Event keys)) : Prop :=
  ∀ newer older, log = newer ++ older → recorded i older = true → sinceRead i older < 2 ^ 32

theorem FewUpdates.older {keys : Fin N → ErasedKey} {newer older : List (Event keys)}
    (h : FewUpdates i (newer ++ older)) : FewUpdates i older := by
  intro newest oldest hlog
  exact h (newer ++ newest) oldest (by rw [hlog, List.append_assoc])

theorem FewUpdates.now {keys : Fin N → ErasedKey} {log : List (Event keys)}
    (h : FewUpdates i log) (hrec : recorded i log = true) : sinceRead i log < 2 ^ 32 :=
  h [] log rfl hrec

theorem sinceRead_le {keys : Fin N → ErasedKey} (i : Fin N) (log : List (Event keys)) :
    sinceRead i log ≤ updateCount i log := by
  induction log with
  | nil => exact Nat.le_refl 0
  | cons e log ih =>
    cases e with
    | updated a j =>
      rw [sinceRead, updateCount]
      split_ifs <;> omega
    | readGeneration j g =>
      rw [sinceRead]
      split_ifs
      · exact Nat.zero_le _
      · exact ih
    | _ => exact ih

theorem FewUpdates.of_updateCount {keys : Fin N → ErasedKey} {log : List (Event keys)}
    (h : updateCount i log < 2 ^ 32) : FewUpdates i log := by
  rintro newer older rfl -
  exact Nat.lt_of_le_of_lt ((sinceRead_le i older).trans (updateCount_le i newer older)) h

section
variable {actor : Actor} {o : Op server.keys} {log : List (Event server.keys)}

theorem recorded_observe (ho : ∀ j, o ≠ .loadGeneration j) (r : o.Res) :
    recorded i (o.observe actor r ++ log) = recorded i log := by
  cases o with
  | loadGeneration j => exact absurd rfl (ho j)
  | writeAll bytes completes =>
    cases completes with
    | none => rfl
    | some f => cases r <;> rfl
  | _ => rfl

theorem unannounced_observe (ho : ∀ j, o ≠ .loadGeneration j)
    (hsend : ∀ bytes f, o ≠ .writeAll bytes (some f)) {r : o.Res}
    (h : unannounced i (o.observe actor r ++ log) = true) :
    0 < sinceRead i (o.observe actor r ++ log) ∨
      (unannounced i log = true ∧ sinceRead i (o.observe actor r ++ log) = sinceRead i log) := by
  cases o with
  | loadGeneration j => exact absurd rfl (ho j)
  | fetchAddGeneration j =>
    simp only [Op.observe, List.singleton_append, unannounced, sinceRead] at h ⊢
    by_cases hji : j = i
    · rw [if_pos hji]
      exact Or.inl (Nat.succ_pos _)
    · rw [if_neg hji] at h
      exact Or.inr ⟨h, if_neg hji⟩
  | writeAll bytes completes =>
    cases completes with
    | none => exact Or.inr ⟨h, rfl⟩
    | some f => exact absurd rfl (hsend bytes f)
  | _ => exact Or.inr ⟨h, rfl⟩

end

theorem UpdatePhase.not_writes {u : UpdatePhase server} {o : Op server.keys}
    {k : o.Res → UpdatePhase server} (hview : u.view = .act o k) :
    (∀ bytes completes, o ≠ .writeAll bytes completes) ∧ ∀ j n, o ≠ .storeNotifier j n := by
  cases u with
  | finished result => cases hview
  | store j v =>
    cases hview
    exact ⟨nofun, nofun⟩
  | announce a j changed => cases a <;> cases hview <;> exact ⟨nofun, nofun⟩

def Phase.Notifies (i : Fin N) : Phase server → Prop
  | .notify f _ _ _ _ => f = changedFrame (server.keys i).keyref
  | .exit _ => True
  | _ => False

def Position.Notifies (i : Fin N) : Position server → Prop
  | .idle _ => False
  | .running _ p => p.Notifies i
  | .stopped => True

def Config.Owed (i : Fin N) (c : Config server) : Prop :=
  unannounced i c.log = true → 0 < sinceRead i c.log ∨ c.position.Notifies i

theorem owed_poll {l : Locals N} {generation : Fin N → UInt32} {log : List (Event server.keys)}
    {activity : Activity} {j : Fin N} {rest : List (Fin N)}
    (hready : Ready server nodeId none l generation log) (hobserved : l.observed j = true)
    (hfew : FewUpdates i log) (h : unannounced i log = true → 0 < sinceRead i log)
    (hu : unannounced i (.readGeneration j (generation j) :: log) = true) :
    0 < sinceRead i (.readGeneration j (generation j) :: log) ∨
      (Position.running activity (if generation j = l.seenGeneration j
        then (.flushPhase rest l : Phase server)
        else .sendChanged j rest (l.setSeen j (generation j)))).Notifies i := by
  have hno : ¬ (pendingRequest log).isSome = true := by rw [hready.pending_none]; simp
  rw [unannounced, if_neg fun h => hno h.2] at hu
  have hpos := h hu
  rw [sinceRead]
  by_cases hji : j = i
  · subst hji
    right
    split_ifs with hg
    · have hrec : recorded j log = true := (hready.recorded_eq j) ▸ hobserved
      have hne := ofNat32_ne_zero hpos (hfew.now hrec)
      have heq := hready.generation_eq j hobserved
      rw [hg] at heq
      exact absurd (by grind) hne
    · unfold Phase.sendChanged
      split_ifs
      · exact rfl
      · trivial
  · rw [if_neg hji]
    exact Or.inl hpos

theorem Config.Owed.act {activity : Activity} {p : Phase server} {o : Op server.keys}
    {k : o.Res → Phase server} {accepted : Bool} {m : Memory server.keys}
    {us : List (UpdatePhase server)} {w : List UInt8} {log : List (Event server.keys)}
    (h : Config.Owed i ⟨.running activity p, m, us, w, log⟩)
    (hok : (Position.running activity p).Ok server nodeId m.generation log)
    (hfew : FewUpdates i log) (hview : p.view = .act o k) :
    Config.Owed i ⟨.running activity (k (o.exec accepted m).1), (o.exec accepted m).2, us,
      w ++ o.written (o.exec accepted m).1, o.observe .server (o.exec accepted m).1 ++ log⟩ := by
  intro hu
  have hother : ¬ p.Notifies i → (∀ j, o ≠ .loadGeneration j) →
      (∀ bytes f, o ≠ .writeAll bytes (some f)) →
      0 < sinceRead i (o.observe .server (o.exec accepted m).1 ++ log) := by
    intro hp ho hsend
    rcases unannounced_observe ho hsend hu with hpos | ⟨hold, heq⟩
    · exact hpos
    · exact heq ▸ (h hold).resolve_right hp
  cases p with
  | done l => cases hview
  | exit e => cases hview
  | attach j rest =>
    cases hview
    exact Or.inl (hother id nofun nofun)
  | readValue j l =>
    cases hview
    exact Or.inl (hother id nofun nofun)
  | store j v l =>
    cases hview
    exact Or.inl (hother id nofun nofun)
  | announce a j v l =>
    cases hview
    exact Or.inl (hother id (by cases a <;> exact nofun) (by cases a <;> exact nofun))
  | respond f piece pieces l =>
    cases hview
    cases pieces with
    | cons next pieces => exact Or.inl (hother id nofun nofun)
    | nil =>
      cases accepted with
      | false => exact Or.inr trivial
      | true =>
        cases activity with
        | starting => exact hok.elim
        | flushing => exact hok.elim
        | handling request =>
          have hresponse := hok.1.response
          change unannounced i (.sent f :: log) = true at hu
          rw [unannounced, if_neg (hresponse.ne_changed _)] at hu
          exact Or.inl ((h hu).resolve_right id)
  | record j on l =>
    cases hview
    cases activity with
    | starting => exact hok.elim
    | flushing => exact hok.elim
    | handling request =>
      have hpend : (pendingRequest log).isSome = true := by rw [hok.1.pending_some]; rfl
      change unannounced i (.readGeneration j _ :: log) = true at hu
      rw [unannounced] at hu
      change 0 < sinceRead i (.readGeneration j _ :: log) ∨ _
      rw [sinceRead]
      by_cases hji : j = i
      · rw [if_pos ⟨hji, hpend⟩] at hu
        cases hu
      · rw [if_neg fun h => hji h.1] at hu
        rw [if_neg hji]
        exact Or.inl ((h hu).resolve_right id)
  | poll j rest l =>
    cases hview
    cases activity with
    | starting => exact hok.elim
    | handling request => exact hok.elim
    | flushing => exact owed_poll hok.1 hok.2.1 hfew (fun hold => (h hold).resolve_right id) hu
  | notify f piece pieces rest l =>
    cases hview
    cases accepted with
    | false => cases pieces <;> exact Or.inr trivial
    | true =>
      cases pieces with
      | cons next pieces => exact h hu
      | nil =>
        change unannounced i (.sent f :: log) = true at hu
        rw [unannounced] at hu
        split_ifs at hu with hf
        exact Or.inl ((h hu).resolve_right hf)

theorem Config.Owed.move {c c' : Config server} (h : c.Owed i) (hs : Session server nodeId c)
    (hfew : FewUpdates i c.log) (hm : Move server nodeId c c') : c'.Owed i := by
  cases hm with
  | quiet => exact h
  | stop => exact fun _ => Or.inr trivial
  | serve | wake | start | flush | answered | flushed =>
    exact fun hu => Or.inl ((h hu).resolve_right id)
  | spawn => exact h
  | act activity p o k accepted m us w log hview =>
    exact Config.Owed.act h hs.position_ok hfew hview
  | update j u o k position m us w log hj hview =>
    intro hu
    have hwrites := UpdatePhase.not_writes hview
    rcases unannounced_observe (UpdatePhase.not_reads hview) (fun bytes f => hwrites.1 bytes _) hu
      with hpos | ⟨hold, heq⟩
    · exact Or.inl hpos
    · exact (h hold).imp_left fun hpos => heq ▸ hpos

def Phase.Attaches (i : Fin N) : Phase server → Prop
  | .attach j rest => i ∈ j :: rest
  | .exit _ => True
  | _ => False

def Position.Attaches (i : Fin N) : Position server → Prop
  | .idle _ => False
  | .running _ p => p.Attaches i
  | .stopped => True

def Config.Attached (i : Fin N) (c : Config server) : Prop :=
  c.memory.notifier i = some server.notifier ∨
    (c.position.Attaches i ∧ recorded i c.log = false)

theorem attaches_attachPhase (hi : (server.keys i).observable = true) {rest : List (Fin N)}
    (h : i ∈ rest) : (Phase.attachPhase rest : Phase server).Attaches i := by
  induction rest with
  | nil => cases h
  | cons j rest ih =>
    rw [Phase.attachPhase]
    split_ifs with hj
    · exact h
    · refine ih ((List.mem_cons.mp h).resolve_left ?_)
      rintro rfl
      exact hj hi

theorem Config.Attached.initial (hi : (server.keys i).observable = true)
    (memory : Memory server.keys) :
    (PhaseSys.config (Sys.initial (phases server nodeId) memory)).Attached i := by
  refine Or.inr ⟨?_, rfl⟩
  change (Phase.start nodeId : Phase server).Attaches i
  unfold Phase.start
  cases Server.validateWireString nodeId with
  | error message => trivial
  | ok u => exact attaches_attachPhase hi (List.mem_finRange i)

theorem exec_notifier {o : Op server.keys} (ho : ∀ j n, o ≠ .storeNotifier j n) (accepted : Bool)
    (m : Memory server.keys) : (o.exec accepted m).2.notifier = m.notifier := by
  cases o with
  | storeNotifier j n => exact absurd rfl (ho j n)
  | _ => rfl

theorem Phase.storesNotifier {p : Phase server} {o : Op server.keys} {k : o.Res → Phase server}
    (hview : p.view = .act o k) (hp : ¬ ∃ j rest, p = .attach j rest) :
    (∀ j n, o ≠ .storeNotifier j n) ∧ ¬ p.Attaches i := by
  cases p with
  | attach j rest => exact absurd ⟨j, rest, rfl⟩ hp
  | announce a j v l => cases a <;> cases hview <;> exact ⟨nofun, id⟩
  | _ =>
    cases hview
    try exact ⟨nofun, id⟩

theorem Config.Attached.move (hi : (server.keys i).observable = true) {c c' : Config server}
    (h : c.Attached i) (hm : Move server nodeId c c') : c'.Attached i := by
  cases hm with
  | quiet => exact h
  | stop => exact h.imp_right fun ha => ⟨trivial, ha.2⟩
  | serve | wake | start | flush | answered | flushed => exact Or.inl (h.resolve_right fun ha => ha.1)
  | spawn => exact h
  | act activity p o k accepted m us w log hview =>
    by_cases hp : ∃ j rest, p = .attach j rest
    · obtain ⟨j, rest, rfl⟩ := hp
      cases hview
      change Function.update m.notifier j (some server.notifier) i = some server.notifier ∨
        ((Phase.attachPhase rest : Phase server).Attaches i ∧ recorded i log = false)
      by_cases hij : i = j
      · subst hij
        exact Or.inl (Function.update_self _ _ _)
      · rw [Function.update_of_ne hij]
        refine h.imp_right fun ha => ⟨?_, ha.2⟩
        exact attaches_attachPhase hi ((List.mem_cons.mp ha.1).resolve_left hij)
    · obtain ⟨ho, hattaches⟩ := Phase.storesNotifier (i := i) hview hp
      have hold := h.resolve_right fun ha => hattaches ha.1
      exact Or.inl ((congrFun (exec_notifier ho accepted m) i).trans hold)
  | update j u o k position m us w log hj hview =>
    have ho := (UpdatePhase.not_writes hview).2
    refine h.imp (fun hold => (congrFun (exec_notifier ho true m) i).trans hold) fun ha => ?_
    exact ⟨ha.1, (recorded_observe (UpdatePhase.not_reads hview) _).trans ha.2⟩

section
variable {K : ℕ} {pool : Fin K → ErasedKey} {h : Host pool} {i : Fin h.size}

theorem Host.view_write (m : Memory pool) (m' : Memory h.server.keys) :
    h.view (h.write m m') = m' := by
  have hvalue : (h.view (h.write m m')).value = m'.value := by
    funext j
    simp only [view, write]
    split
    · rename_i k hk
      have hkj : k = j := Option.some.inj (hk.symm.trans (h.slot_registry j))
      subst hkj
      rfl
    · rename_i hk
      rw [h.slot_registry] at hk
      cases hk
  have hgeneration : (h.view (h.write m m')).generation = m'.generation := by
    funext j
    simp only [view, write, slot_registry]
  have hsignal : (h.view (h.write m m')).changeSignal = m'.changeSignal := by
    funext j
    simp only [view, write, slot_registry]
  have hnotifier : (h.view (h.write m m')).notifier = m'.notifier := by
    funext j
    simp only [view, write, slot_registry]
  obtain ⟨value, generation, changeSignal, notifier, latch⟩ := m'
  rw [Memory.mk.injEq]
  exact ⟨hvalue, hgeneration, hsignal, hnotifier, rfl⟩

def sole (memory : Memory pool) (s : PhaseSys h.server) (history : List (Sighting Unit K)) :
    PhaseDevice fun _ : Unit => h where
  memory := memory
  conn _ := s
  history := history

theorem view_sole {memory : Memory pool} {s : PhaseSys h.server}
    (hmemory : h.view memory = s.memory) (history : List (Sighting Unit K)) :
    (sole memory s history).view () = s := by
  change { s with memory := h.view memory } = s
  rw [hmemory]

theorem after_sole (memory : Memory pool) (s t : PhaseSys h.server)
    (history seen : List (Sighting Unit K)) :
    (sole memory s history).after () t seen =
      sole (h.write memory t.memory) t (seen ++ history) := by
  simp only [sole, Device.after, Device.mk.injEq, and_true, true_and]
  funext c
  rw [Function.update_self]

theorem not_overtaken_exec {actor : Actor} {o : Op h.server.keys} {r : o.Res}
    {m : Memory h.server.keys} {log : List (Event h.server.keys)}
    {history : List (Sighting Unit K)}
    (hrec : recorded i log = true → m.notifier i = some h.notifier ∧
      ¬ Overtaken (fun _ : Unit => h) () (h.registry i) history)
    (hnow : recorded i (o.observe actor r ++ log) = true) :
    ¬ Overtaken (fun _ : Unit => h) () (h.registry i) (o.sightings () h.registry m ++ history) := by
  by_cases ho : ∃ j, o = .loadGeneration j
  · obtain ⟨j, rfl⟩ := ho
    rintro ⟨hne, hover⟩
    by_cases hji : j = i
    · exact hne ⟨rfl, congrArg h.registry hji⟩
    · refine (hrec ?_).2 hover
      simpa only [Op.observe, List.singleton_append, recorded, if_neg hji] using hnow
  · rw [recorded_observe (not_exists.mp ho)] at hnow
    obtain ⟨hnotifier, hover⟩ := hrec hnow
    cases o with
    | loadGeneration j => exact absurd ⟨j, rfl⟩ ho
    | loadNotifier j =>
      rintro (⟨hji, hne⟩ | hold)
      · rw [h.registry_injective hji] at hne
        exact hne hnotifier
      · exact hover hold
    | _ => exact hover

structure Vigilant (i : Fin h.size) (s : PhaseSys h.server) : Prop where
  attached : (PhaseSys.config s).Attached i
  attentive : ∃ memory history, h.view memory = s.memory ∧
    (sole memory s history).Attentive () i (PhaseSys.position s) ∧
      (recorded i s.log = true → ¬ Overtaken (fun _ : Unit => h) () (h.registry i) history)

theorem Config.Attached.notifier_eq {c : Config h.server} (ha : c.Attached i)
    (hrec : recorded i c.log = true) : c.memory.notifier i = some h.notifier := by
  refine ha.resolve_right fun hout => ?_
  rw [hrec] at hout
  cases hout.2

theorem recorded_still {c c' : Config h.server} (hstill : Still h.server nodeId c c') :
    recorded i c'.log = recorded i c.log := by
  cases hstill <;> rfl

theorem Vigilant.step (hi : (h.server.keys i).observable = true) {s t : PhaseSys h.server}
    {l : Label h.server.keys} (hv : Vigilant i s)
    (hstep : s.step (phases h.server nodeId) l = some t) : Vigilant i t := by
  obtain ⟨memory, history, hmemory, hattentive, hover⟩ := hv.attentive
  refine ⟨hv.attached.move hi (PhaseSys.step_move hstep), _,
    s.sightings (phases h.server nodeId) () h.registry l ++ history,
    Host.view_write memory t.memory, ?_, ?_⟩
  · have hdevice : ((sole memory s history).view ()).step
        (devicePhases (fun _ : Unit => h) (fun _ => nodeId) ()) l = some t := by
      rw [view_sole hmemory]
      exact hstep
    rw [← after_sole memory s]
    exact Device.Attentive.step hattentive hi hdevice (by rw [view_sole hmemory])
  · have hrec : recorded i s.log = true → s.memory.notifier i = some h.notifier ∧
        ¬ Overtaken (fun _ : Unit => h) () (h.registry i) history :=
      fun hrec => ⟨hv.attached.notifier_eq hrec, hover hrec⟩
    cases l with
    | wake =>
      obtain ⟨l, reader, reads, -, -, rfl⟩ := PhaseSys.step_wake hstep
      rintro hnow (⟨hne, -⟩ | hold)
      · exact hne rfl
      · exact (hrec hnow).2 hold
    | act accepted =>
      obtain ⟨activity, p, o, k, hctrl, hview, rfl⟩ := PhaseSys.step_act hstep
      have hseen : s.sightings (phases h.server nodeId) () h.registry (.act accepted) =
          o.sightings () h.registry s.memory := by
        simp only [Sys.sightings, hctrl, phases, hview]
      rw [hseen]
      exact not_overtaken_exec hrec
    | update j =>
      obtain ⟨u, o, k, hj, hview, rfl⟩ := PhaseSys.step_update hstep
      have hseen : s.sightings (phases h.server nodeId) () h.registry (.update j) =
          o.sightings () h.registry s.memory := by
        simp only [Sys.sightings, hj, phases, hview]
      rw [hseen]
      exact not_overtaken_exec hrec
    | _ =>
      have hsame := recorded_still (i := i) (PhaseSys.step_still id hstep)
      intro hnow
      exact (hrec (hsame.symm.trans hnow)).2

theorem vigilant_of_path (hi : (h.server.keys i).observable = true) {memory : Memory pool}
    {P : PhaseSys h.server → Label h.server.keys → Prop} {labels : List (Label h.server.keys)}
    {s : PhaseSys h.server} (hrun : Path (Sys.step (phases h.server nodeId)) P
      (Sys.initial (phases h.server nodeId) (h.view memory)) labels s) : Vigilant i s := by
  refine hrun.invariant (Vigilant i) ⟨.initial hi _, memory, [], rfl, ?_, nofun⟩
    fun _ _ _ hv _ hstep => hv.step hi hstep
  exact Device.starting_start nodeId

end

def BetweenRequests (e : Event server.keys) (log : List (Event server.keys)) : Prop :=
  ∀ r, e = .sent (changedFrame r) → pendingRequest log = none

theorem betweenRequests_observe {actor : Actor} {o : Op server.keys} {r : o.Res}
    {log : List (Event server.keys)} (hlog : Justified BetweenRequests log)
    (h : ∀ bytes x, o = .writeAll bytes (some (changedFrame x)) → pendingRequest log = none) :
    Justified BetweenRequests (o.observe actor r ++ log) := by
  cases o with
  | writeAll bytes completes =>
    cases completes with
    | none => exact hlog
    | some f =>
      cases r with
      | false => exact hlog
      | true =>
        refine ⟨fun x hx => h bytes x ?_, hlog⟩
        rw [Event.sent.inj hx]
  | loadNotifier | storeNotifier | signal | signalChange => exact hlog
  | _ => exact ⟨nofun, hlog⟩

theorem pending_none_of_writes {activity : Activity} {p : Phase server} {o : Op server.keys}
    {k : o.Res → Phase server} {generation : Fin N → UInt32} {log : List (Event server.keys)}
    (hok : (Position.running activity p).Ok server nodeId generation log)
    (hview : p.view = .act o k) {bytes : List UInt8} {x : UInt16}
    (ho : o = .writeAll bytes (some (changedFrame x))) : pendingRequest log = none := by
  subst ho
  cases p with
  | respond f piece pieces l =>
    cases activity with
    | starting => exact hok.elim
    | flushing => exact hok.elim
    | handling request =>
      have hresponse := hok.1.response
      cases pieces with
      | nil =>
        cases hview
        exact absurd hresponse (not_isResponse_changedFrame x)
      | cons next pieces => cases hview
  | notify f piece pieces rest l =>
    cases activity with
    | starting => exact hok.elim
    | handling request => exact hok.elim
    | flushing =>
      obtain ⟨j, -, hready, -⟩ := hok
      exact hready.pending_none
  | announce a j v l => cases a <;> cases hview
  | _ => cases hview

theorem betweenRequests_move {c c' : Config server} (hs : Session server nodeId c)
    (h : Justified BetweenRequests c.log) (hm : Move server nodeId c c') :
    Justified BetweenRequests c'.log := by
  cases hm with
  | quiet | stop | start | answered | spawn => exact h
  | serve | wake | flush | flushed => exact ⟨nofun, h⟩
  | act activity p o k accepted m us w log hview =>
    exact betweenRequests_observe h fun bytes x ho => pending_none_of_writes hs.position_ok hview ho
  | update j u o k position m us w log hj hview =>
    exact betweenRequests_observe h fun bytes x ho =>
      absurd ho ((UpdatePhase.not_writes hview).1 bytes _)

section
variable {memory : Memory server.keys} {P : PhaseSys server → Label server.keys → Prop}
  {labels : List (Label server.keys)} {s : PhaseSys server}

theorem betweenRequests_of_path (hdistinct : server.Distinct)
    (hrun : Path (Sys.step (phases server nodeId)) P (Sys.initial (phases server nodeId) memory)
      labels s) : Justified BetweenRequests s.log := by
  have hboth : Session server nodeId (PhaseSys.config s) ∧
      Justified BetweenRequests (PhaseSys.config s).log :=
    PhaseSys.invariant (I := fun c => Session server nodeId c ∧ Justified BetweenRequests c.log) hrun
      ⟨⟨trivial, start_ok memory.generation⟩, trivial⟩ fun _ _ h hm =>
        ⟨h.1.move hdistinct hm, betweenRequests_move h.1 h.2 hm⟩
  exact hboth.2

theorem owed_of_path (hdistinct : server.Distinct)
    (hrun : Path (Sys.step (phases server nodeId)) P (Sys.initial (phases server nodeId) memory)
      labels s) (hfew : FewUpdates i s.log) : (PhaseSys.config s).Owed i := by
  have hboth : Session server nodeId (PhaseSys.config s) ∧
      (FewUpdates i (PhaseSys.config s).log → (PhaseSys.config s).Owed i) := by
    refine PhaseSys.invariant
      (I := fun c => Session server nodeId c ∧ (FewUpdates i c.log → c.Owed i)) hrun
      ⟨⟨trivial, start_ok memory.generation⟩, fun _ => nofun⟩ fun c c' h hm =>
        ⟨h.1.move hdistinct hm, fun hfew => ?_⟩
    obtain ⟨newer, hlog⟩ := hm.log_grows
    have hold : FewUpdates i c.log := FewUpdates.older (hlog ▸ hfew)
    exact (h.2 hold).move h.1 hold hm
  exact hboth.2 hfew

theorem bumping_of_path
    (hrun : Path (Sys.step (phases server nodeId)) P (Sys.initial (phases server nodeId) memory)
      labels s) : (PhaseSys.config s).Bumping i :=
  PhaseSys.invariant hrun nofun fun _ _ h hm => h.move hm

end

/-- The server is suspended in its `select`, its signal is clear and no update
is under way. -/
structure Sys.AtRest {P U : Type} (M : Machine server P U) (s : Sys server.keys P U) : Prop where
  parked : ∃ l reader reads, s.ctrl = .parked l reader reads
  clear : s.memory.latch server.notifier = false
  settled : ¬ s.Updating M

def Sys.resting (s : Connection server) : Bool :=
  (match s.ctrl with
    | .parked _ _ _ => true
    | _ => false) && !s.memory.latch server.notifier &&
  s.updates.all fun u => match u with
    | .ret _ => true
    | _ => false

theorem Sys.atRest_of_resting {s : Connection server} (h : s.resting = true) :
    s.AtRest (programs server nodeId) := by
  rw [resting, Bool.and_eq_true, Bool.and_eq_true, List.all_eq_true] at h
  obtain ⟨⟨hctrl, hlatch⟩, hupdates⟩ := h
  refine ⟨?_, by simpa using hlatch, ?_⟩
  · cases hs : s.ctrl with
    | parked l reader reads => exact ⟨l, reader, reads, rfl⟩
    | _ => simp [hs] at hctrl
  · rintro (⟨activity, task, o, k, hs, -⟩ | ⟨u, hu, o, k, hview, -⟩)
    · rw [hs] at hctrl
      cases hctrl
    · have hret := hupdates u hu
      cases u with
      | ret r => cases hview
      | fail e => cases hret
      | act o k => cases hret

/-- At rest, every update of an observed key is announced, and every value
stored is followed by an update. -/
theorem announced_at_rest {K : ℕ} {pool : Fin K → ErasedKey} {h : Host pool} {i : Fin h.size}
    (hi : (h.server.keys i).observable = true) {memory : Memory pool}
    {P : PhaseSys h.server → Label h.server.keys → Prop} {labels : List (Label h.server.keys)}
    {s : PhaseSys h.server} (hrun : Path (Sys.step (phases h.server nodeId)) P
      (Sys.initial (phases h.server nodeId) (h.view memory)) labels s)
    (hrest : (s.map Phase.task UpdatePhase.task).AtRest (programs h.server nodeId))
    (hfew : FewUpdates i s.log) (hrec : recorded i s.log = true) :
    unannounced i s.log = false ∧ unbumped i s.log = false := by
  have hdistinct : h.server.Distinct := h.distinct
  have hsilent : ∀ j a, ¬ s.Announcing j a := fun j a ha => hrest.settled (updating_of_announcing ha)
  obtain ⟨l, reader, reads, hparked⟩ := hrest.parked
  have hctrl : s.ctrl = .parked l reader reads := by
    have hmap : s.ctrl.map Phase.task = .parked l reader reads := hparked
    cases hctrl : s.ctrl <;> rw [hctrl] at hmap <;> cases hmap
    rfl
  have hposition : PhaseSys.position s = .idle l := by rw [PhaseSys.position, hctrl]
  have hconfig := PhaseSys.config_of_position hposition
  constructor
  · by_contra hu
    rw [Bool.not_eq_false] at hu
    have howed := owed_of_path hdistinct hrun hfew
    have hready := (session_of_path hdistinct hrun).position_ok
    obtain ⟨memory', history, hmemory, hattentive, hover⟩ := (vigilant_of_path hi hrun).attentive
    rw [hconfig] at howed hready
    rw [hposition] at hattentive
    have hobserved : l.observed i = true := (hready.recorded_eq i).trans hrec
    have hpos := (howed hu).resolve_right id
    have hne : s.memory.generation i ≠ l.seenGeneration i := by
      intro heq
      have hgeneration := hready.generation_eq i hobserved
      rw [heq] at hgeneration
      exact absurd (by grind) (ofNat32_ne_zero hpos (hfew.now hrec))
    rw [← hmemory] at hne
    have hclear : (h.view memory').latch h.notifier = false := hmemory ▸ hrest.clear
    rcases hattentive hobserved hne with hlatch | ⟨c, j, a, ha, -⟩ | hold
    · cases hclear.symm.trans hlatch
    · exact hsilent j a ha
    · exact hover hrec hold
  · by_contra hu
    rw [Bool.not_eq_false] at hu
    rcases bumping_of_path hrun hu with hstop | ha
    · rw [hconfig] at hstop
      cases hstop
    · exact hsilent i .bump (Config.announcing_iff.mp ha)

end Qup.Embassy
