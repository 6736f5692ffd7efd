import Qup.Embassy.SessionRun

/-!
# Stored values

The value cell of a key against the log: it holds what was stored last, by
whichever task, and so every value that the server reads is the one stored last
before the read. A request stores at most once.
-/

namespace Qup.Embassy
open Foundation Foundation.Utf8

variable {N : ℕ} {server : Server N} {nodeId : Str} {m₀ : Memory server.keys}

/-- A value that is read is the one stored last. -/
def ReadsStored (m₀ : Memory server.keys) (e : Event server.keys) (log : List (Event server.keys)) :
    Prop :=
  match e with
  | .readValue i v => v = valueAfter m₀ i log
  | _ => True

structure Stored (m₀ m : Memory server.keys) (log : List (Event server.keys)) : Prop where
  value_eq : ∀ i, m.value i = valueAfter m₀ i log
  reads : Justified (ReadsStored m₀) log

theorem Stored.exec {m : Memory server.keys} {log : List (Event server.keys)}
    (h : Stored m₀ m log) (actor : Actor) (accepted : Bool) (o : Op server.keys) :
    Stored m₀ (o.exec accepted m).2 (o.observe actor (o.exec accepted m).1 ++ log) := by
  cases o with
  | loadValue i => exact ⟨h.value_eq, h.value_eq i, h.reads⟩
  | storeValue i v =>
    refine ⟨fun j => ?_, trivial, h.reads⟩
    change Function.update m.value i v j = valueAfter m₀ j (.stored actor i v :: log)
    by_cases hij : i = j
    · subst hij
      rw [Function.update_self, valueAfter, dif_pos rfl]
    · rw [Function.update_of_ne (Ne.symm hij), valueAfter, dif_neg hij]
      exact h.value_eq j
  | loadGeneration i => exact ⟨h.value_eq, trivial, h.reads⟩
  | fetchAddGeneration i => exact ⟨h.value_eq, trivial, h.reads⟩
  | writeAll bytes completes =>
    cases completes with
    | none => exact ⟨h.value_eq, h.reads⟩
    | some f =>
      cases accepted with
      | false => exact ⟨h.value_eq, h.reads⟩
      | true => exact ⟨h.value_eq, trivial, h.reads⟩
  | _ => exact ⟨h.value_eq, h.reads⟩

theorem Stored.move {c c' : Config server} (h : Stored m₀ c.memory c.log)
    (hm : Move server nodeId c c') : Stored m₀ c'.memory c'.log := by
  cases hm with
  | quiet | stop | start | answered | spawn => exact h
  | serve | wake | flush | flushed => exact ⟨h.value_eq, trivial, h.reads⟩
  | act activity p o k accepted => exact h.exec .server accepted o
  | update j u o k => exact h.exec .update true o

theorem valueAfter_of_not_stored {i : Fin N} {between pre : List (Event server.keys)}
    (h : ∀ a v, Event.stored a i v ∉ between) :
    valueAfter m₀ i (between ++ pre) = valueAfter m₀ i pre := by
  induction between with
  | nil => rfl
  | cons e between ih =>
    have hrest := ih fun a v hv => h a v (List.mem_cons_of_mem _ hv)
    cases e with
    | stored b j w =>
      rw [List.cons_append, valueAfter, dif_neg]
      · exact hrest
      · rintro rfl
        exact h b w List.mem_cons_self
    | _ => exact hrest

theorem valueAfter_stored {i : Fin N} {v : (server.keys i).type.Value} {a : Actor}
    {between pre : List (Event server.keys)} (h : ∀ a v, Event.stored a i v ∉ between) :
    valueAfter m₀ i (between ++ .stored a i v :: pre) = v := by
  rw [valueAfter_of_not_stored h, valueAfter, dif_pos rfl]

namespace Phase

def IsStore : Phase server → Prop
  | .store _ _ _ => True
  | _ => False

theorem respondWith_not_store (f : Frame) (l : Locals N) (pieces : List (List UInt8)) :
    ¬ (respondWith f l pieces : Phase server).IsStore := by
  cases pieces <;> exact id

theorem sendFrame_not_store (f : Frame) (l : Locals N) :
    ¬ (sendFrame f l : Phase server).IsStore := by
  unfold sendFrame
  split_ifs
  · exact respondWith_not_store f l _
  · exact id

theorem flushPhase_not_store (rest : List (Fin N)) (l : Locals N) :
    ¬ (flushPhase rest l : Phase server).IsStore := by
  induction rest with
  | nil => exact id
  | cons i rest ih =>
    unfold flushPhase
    split
    · exact id
    · exact ih

theorem flush_not_store (l : Locals N) : ¬ (flush l : Phase server).IsStore := by
  unfold flush
  split
  · exact id
  · exact flushPhase_not_store _ l

theorem notifyWith_not_store (f : Frame) (rest : List (Fin N)) (l : Locals N)
    (pieces : List (List UInt8)) : ¬ (notifyWith f rest l pieces : Phase server).IsStore := by
  cases pieces with
  | nil => exact flushPhase_not_store rest l
  | cons piece pieces => exact id

theorem attachPhase_not_store (rest : List (Fin N)) :
    ¬ (attachPhase rest : Phase server).IsStore := by
  induction rest with
  | nil =>
    unfold attachPhase
    split <;> exact id
  | cons i rest ih =>
    unfold attachPhase
    split
    · exact id
    · exact ih

theorem sendEncoded_not_store {i : Fin N} (v : (server.keys i).type.Value) (l : Locals N) :
    ¬ (sendValue v l).IsStore ∧ ¬ (sendWritten v l).IsStore := by
  unfold sendValue sendWritten
  cases QupValue.encode v server.maxResponse with
  | ok payload => exact ⟨sendFrame_not_store _ l, sendFrame_not_store _ l⟩
  | error e =>
    cases e with
    | invalid e => exact ⟨id, sendFrame_not_store _ l⟩
    | panic => exact ⟨id, id⟩

theorem view_not_store {p : Phase server} {o : Op server.keys} {k : o.Res → Phase server}
    (h : p.view = .act o k) (r : o.Res) : ¬ (k r).IsStore := by
  cases p with
  | done | exit => cases h
  | attach i rest =>
    cases h
    exact attachPhase_not_store rest
  | respond f piece pieces l =>
    cases h
    cases r with
    | false => exact id
    | true => exact respondWith_not_store f l pieces
  | readValue i l =>
    cases h
    exact (sendEncoded_not_store _ l).1
  | store i v l =>
    cases h
    exact id
  | announce a i v l =>
    cases h
    dsimp only
    split
    · exact id
    · exact (sendEncoded_not_store v l).2
  | record i on l =>
    cases h
    exact sendFrame_not_store _ _
  | poll i rest l =>
    cases h
    dsimp only
    split_ifs
    · exact flushPhase_not_store rest l
    · unfold sendChanged
      split_ifs
      · exact notifyWith_not_store _ rest _ _
      · exact id
  | notify f piece pieces rest l =>
    cases h
    cases r with
    | false => exact id
    | true => exact notifyWith_not_store f rest l pieces

end Phase

def Unstored (log : List (Event server.keys)) : Prop :=
  ∀ i v, Event.stored .server i v ∉ sinceServed log

def StoredOnce (e : Event server.keys) (log : List (Event server.keys)) : Prop :=
  match e with
  | .stored .server _ _ => Unstored log
  | _ => True

structure Once (c : Config server) : Prop where
  once : Justified StoredOnce c.log
  unstored : ∀ activity p, c.position = .running activity p → p.IsStore → Unstored c.log

theorem Unstored.cons {e : Event server.keys} {log : List (Event server.keys)} (h : Unstored log)
    (he : ∀ i v, e ≠ .stored .server i v) : Unstored (e :: log) := by
  intro i v hmem
  cases e with
  | served request => cases hmem
  | _ =>
    rcases List.mem_cons.mp hmem with heq | hmem
    · exact he i v heq.symm
    · exact h i v hmem

theorem Op.observe_update {o : Op server.keys} {r : o.Res} {log : List (Event server.keys)} :
    (Justified StoredOnce log → Justified StoredOnce (o.observe .update r ++ log)) ∧
      (Unstored log → Unstored (o.observe .update r ++ log)) := by
  have hone : ∀ e : Event server.keys, (∀ i v, e ≠ .stored .server i v) → StoredOnce e log := by
    intro e he
    cases e with
    | stored actor i v =>
      cases actor with
      | server => exact absurd rfl (he i v)
      | update => trivial
    | _ => trivial
  cases o with
  | writeAll bytes completes =>
    cases completes with
    | none => exact ⟨id, id⟩
    | some f =>
      cases r with
      | false => exact ⟨id, id⟩
      | true => exact ⟨fun h => ⟨trivial, h⟩, fun h => h.cons (by simp)⟩
  | signalChange | loadNotifier | storeNotifier | signal => exact ⟨id, id⟩
  | loadValue | loadGeneration | fetchAddGeneration | storeValue =>
    exact ⟨fun h => ⟨hone _ (by simp), h⟩, fun h => h.cons (by simp)⟩

theorem Once.move {c c' : Config server} (h : Once c) (hm : Move server nodeId c c') : Once c' := by
  cases hm with
  | quiet => exact h
  | stop => exact ⟨h.once, fun _ _ hp => by cases hp⟩
  | start l | answered request l => exact ⟨h.once, fun _ _ hp => by cases hp⟩
  | wake l | flush request l =>
    refine ⟨⟨trivial, h.once⟩, fun activity p hp hstore => ?_⟩
    cases hp
    exact absurd hstore (Phase.flush_not_store l)
  | flushed l => exact ⟨⟨trivial, h.once⟩, fun _ _ hp => by cases hp⟩
  | serve l request =>
    refine ⟨⟨trivial, h.once⟩, fun _ _ _ _ i v hmem => ?_⟩
    cases hmem
  | spawn i v => exact ⟨h.once, h.unstored⟩
  | update j u o k position m =>
    exact ⟨Op.observe_update.1 h.once, fun activity p hp hstore =>
      Op.observe_update.2 (h.unstored activity p hp hstore)⟩
  | act activity p o k accepted m us w log hview =>
    refine ⟨?_, fun activity' p' hp hstore => ?_⟩
    · cases o with
      | storeValue i v =>
        have hp : p.IsStore := by
          cases p with
          | store => trivial
          | announce a i v l => cases a <;> cases hview
          | _ => cases hview
        exact ⟨h.unstored activity p rfl hp, h.once⟩
      | writeAll bytes completes =>
        cases completes with
        | none => exact h.once
        | some f =>
          cases accepted with
          | false => exact h.once
          | true => exact ⟨trivial, h.once⟩
      | loadValue | loadGeneration | fetchAddGeneration => exact ⟨trivial, h.once⟩
      | _ => exact h.once
    · cases hp
      exact absurd hstore (Phase.view_not_store hview _)

/-- Of the handler's stores, no two are for the same request. -/
theorem once_of_path {m₀ : Memory server.keys}
    {P : PhaseSys server → Label server.keys → Prop} {ls : List (Label server.keys)}
    {s : PhaseSys server} (hrun : Path (Sys.step (phases server nodeId)) P
      (Sys.initial (phases server nodeId) m₀) ls s) : Justified StoredOnce s.log := by
  have hstart : Once (PhaseSys.config (Sys.initial (phases server nodeId) m₀)) := by
    refine ⟨trivial, fun activity p hp _ i v hmem => ?_⟩
    cases hmem
  exact (PhaseSys.invariant hrun hstart fun _ _ h hm => h.move hm).once

end Qup.Embassy
