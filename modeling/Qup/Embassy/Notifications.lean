import Qup.Embassy.SessionRun
import Qup.Embassy.Alignment

/-!
# Notifications

When a `CHANGED` is sent, and when one has to be. Both are read off the justified
log: a `CHANGED` has an observer, an update of its own and no `WRITTEN` ahead of
it, and an update that no `OBSERVE` or `UNOBSERVE` reads over is announced by the
end of the next flush.
-/

namespace Qup.Embassy
open Foundation Foundation.Utf8

variable {N : ℕ} {keys : Fin N → ErasedKey}

theorem exists_updated_of_sinceRead {i : Fin N} {log : List (Event keys)}
    (h : 0 < sinceRead i log) : ∃ between a before, log = between ++ .updated a i :: before ∧
      ∀ g, Event.readGeneration i g ∉ between := by
  induction log with
  | nil => exact absurd h (Nat.lt_irrefl 0)
  | cons e log ih =>
    have hskip : sinceRead i (e :: log) = sinceRead i log →
        (∀ g, e ≠ .readGeneration i g) → ∃ between a before,
          e :: log = between ++ .updated a i :: before ∧
            ∀ g, Event.readGeneration i g ∉ between := by
      intro heq hne
      rw [heq] at h
      obtain ⟨between, a, before, rfl, hread⟩ := ih h
      refine ⟨e :: between, a, before, rfl, fun g hg => ?_⟩
      rcases List.mem_cons.mp hg with rfl | hg
      · exact hne g rfl
      · exact hread g hg
    cases e with
    | updated a j =>
      by_cases hij : j = i
      · subst hij
        exact ⟨[], a, log, rfl, by simp⟩
      · exact hskip (by rw [sinceRead, if_neg hij]) (by simp)
    | readGeneration j g =>
      by_cases hij : j = i
      · rw [sinceRead, if_pos hij] at h
        exact absurd h (Nat.lt_irrefl 0)
      · exact hskip (by rw [sinceRead, if_neg hij]) (by simp [hij])
    | _ => exact hskip rfl (by simp)

theorem exists_written_of_owes_none {i : Fin N} {newer older : List (Event keys)}
    (h : owesWritten (newer ++ .updated .server i :: older) = false) :
    ∃ f, Event.sent f ∈ newer ∧ f.opcode = .written := by
  induction newer with
  | nil => cases h
  | cons e newer ih =>
    have hskip : owesWritten (newer ++ .updated .server i :: older) = false →
        ∃ f, Event.sent f ∈ e :: newer ∧ f.opcode = .written := by
      intro hnewer
      obtain ⟨f, hf, hop⟩ := ih hnewer
      exact ⟨f, List.mem_cons_of_mem _ hf, hop⟩
    cases e with
    | sent f =>
      rw [List.cons_append, owesWritten] at h
      split_ifs at h with hop
      · exact ⟨f, List.mem_cons_self, hop⟩
      · exact hskip h
    | updated a j =>
      cases a with
      | server => cases h
      | update => exact hskip h
    | _ => exact hskip h

theorem exists_observe_of_subscribed {keyref : UInt16} {answered : List (IncomingRequest × Frame)}
    (h : subscribed keyref answered = true) :
    ∃ later f earlier, answered = later ++ (.observe keyref, f) :: earlier ∧ f.opcode = .ok ∧
      ∀ x ∈ later, x.2.opcode = .ok → x.1 ≠ .observe keyref ∧ x.1 ≠ .unobserve keyref := by
  induction answered with
  | nil => cases h
  | cons x rest ih =>
    obtain ⟨request, f⟩ := x
    have hskip : subscribed keyref rest = true →
        (f.opcode = .ok → request ≠ .observe keyref ∧ request ≠ .unobserve keyref) →
        ∃ later f' earlier, (request, f) :: rest = later ++ (.observe keyref, f') :: earlier ∧
          f'.opcode = .ok ∧ ∀ x ∈ later, x.2.opcode = .ok →
            x.1 ≠ .observe keyref ∧ x.1 ≠ .unobserve keyref := by
      intro hrest hne
      obtain ⟨later, f', earlier, rfl, hf', hlater⟩ := ih hrest
      refine ⟨(request, f) :: later, f', earlier, rfl, hf', fun x hx => ?_⟩
      rcases List.mem_cons.mp hx with rfl | hx
      · exact hne
      · exact hlater x hx
    cases request with
    | observe r =>
      rw [subscribed] at h
      split_ifs at h with hr
      · obtain ⟨rfl, hop⟩ := hr
        exact ⟨[], f, rest, rfl, hop, by simp⟩
      · refine hskip h fun hop => ⟨fun he => hr ⟨?_, hop⟩, by simp⟩
        exact IncomingRequest.observe.inj he
    | unobserve r =>
      rw [subscribed] at h
      split_ifs at h with hr
      refine hskip h fun hop => ⟨by simp, fun he => hr ⟨?_, hop⟩⟩
      exact IncomingRequest.unobserve.inj he
    | _ => exact hskip h (by simp)

theorem recordings_le (i : Fin N) (newer older : List (Event keys)) :
    recordings i older ≤ recordings i (newer ++ older) := by
  induction newer with
  | nil => exact Nat.le_refl _
  | cons e newer ih =>
    cases e with
    | readGeneration j g =>
      rw [List.cons_append, recordings]
      split_ifs <;> omega
    | _ => exact ih

/-- Only a `CHANGED` or a recording settles an update. -/
theorem unannounced_append {i : Fin N} {newer older : List (Event keys)}
    (h : unannounced i older = true) (hsent : .sent (changedFrame (keys i).keyref) ∉ newer)
    (hrec : recordings i (newer ++ older) = recordings i older) :
    unannounced i (newer ++ older) = true := by
  induction newer with
  | nil => exact h
  | cons e newer ih =>
    have hle := recordings_le i newer older
    have hnext : recordings i (newer ++ older) = recordings i older →
        unannounced i (newer ++ older) = true :=
      ih fun hmem => hsent (List.mem_cons_of_mem _ hmem)
    cases e with
    | updated a j =>
      rw [List.cons_append, unannounced]
      have hn := hnext hrec
      split_ifs
      · rw [hn, Bool.or_true]
      · exact hn
    | readGeneration j g =>
      rw [List.cons_append, recordings] at hrec
      rw [List.cons_append, unannounced]
      split_ifs at hrec ⊢
      · omega
      · exact hnext hrec
    | sent f =>
      rw [List.cons_append, unannounced, if_neg]
      · exact hnext hrec
      · rintro rfl
        exact hsent List.mem_cons_self
    | _ => exact hnext hrec

theorem overdue_append {i : Fin N} {newer older : List (Event keys)}
    (h : overdue i older = true) (hsent : .sent (changedFrame (keys i).keyref) ∉ newer)
    (hbegin : .flushBegin ∉ newer) (hend : .flushEnd ∉ newer) :
    overdue i (newer ++ older) = true := by
  induction newer with
  | nil => exact h
  | cons e newer ih =>
    have hnext := ih (fun hmem => hsent (List.mem_cons_of_mem _ hmem))
      (fun hmem => hbegin (List.mem_cons_of_mem _ hmem))
      (fun hmem => hend (List.mem_cons_of_mem _ hmem))
    cases e with
    | flushBegin => exact absurd List.mem_cons_self hbegin
    | flushEnd => exact absurd List.mem_cons_self hend
    | sent f =>
      rw [List.cons_append, overdue, if_neg]
      · exact hnext
      · rintro rfl
        exact hsent List.mem_cons_self
    | _ => exact hnext

theorem updateCount_le (i : Fin N) (newer older : List (Event keys)) :
    updateCount i older ≤ updateCount i (newer ++ older) := by
  induction newer with
  | nil => exact Nat.le_refl _
  | cons e newer ih =>
    cases e with
    | updated a j =>
      rw [List.cons_append, updateCount]
      split_ifs <;> omega
    | _ => exact ih

/-- What holds when a `CHANGED` for key `i` is sent after the events `older`. -/
structure RightlyChanged (server : Server N) (i : Fin N) (older : List (Event server.keys)) :
    Prop where
  observable : (server.keys i).observable = true
  below_count : (server.keys i).keyref < server.keyCount
  observed : ∃ later k earlier,
    exchanges older = later ++ (.observe (server.keys i).keyref, k) :: earlier ∧ k.opcode = .ok ∧
      ∀ x ∈ later, x.2.opcode = .ok →
        x.1 ≠ .observe (server.keys i).keyref ∧ x.1 ≠ .unobserve (server.keys i).keyref
  /-- The last read of the generation is not one of an `OBSERVE`, nor has it been
  followed by a `CHANGED` of the key, and an update came between it and the read
  before it, whatever that one was for. -/
  update_since : ∃ sinceLook g between a before,
    older = sinceLook ++ .readGeneration i g :: (between ++ .updated a i :: before) ∧
      pendingRequest (between ++ .updated a i :: before) = none ∧
        .sent (changedFrame (server.keys i).keyref) ∉ sinceLook ∧
          (∀ g', Event.readGeneration i g' ∉ sinceLook) ∧
            ∀ g', Event.readGeneration i g' ∉ between
  count_lt : changedCount (server.keys i).keyref older < updateCount i older
  written : ∀ sinceWrite j before, older = sinceWrite ++ .updated .server j :: before →
    ∃ w, Event.sent w ∈ sinceWrite ∧ w.opcode = .written

/-- Every `CHANGED` that a server sends is for a registered key, rightly. -/
theorem changed_sound (server : Server N) (hdistinct : server.Distinct) (nodeId : Str)
    (memory : Memory server.keys) (labels : List (Label server.keys)) (s : Connection server)
    (hrun : Path (Sys.step (programs server nodeId)) (fun _ _ => True)
      (Sys.initial (programs server nodeId) memory) labels s)
    (newer older : List (Event server.keys)) (f : Frame)
    (hlog : s.log = newer ++ .sent f :: older) (hf : f.opcode = .changed) :
    ∃ i, f = changedFrame (server.keys i).keyref ∧ RightlyChanged server i older := by
  have hjust := log_justified hdistinct hrun
  rw [hlog] at hjust
  have hallowed := hjust.allowed_at
  have hnot : ¬ f.IsResponse := not_not.mpr hf
  rw [Allowed, if_neg hnot] at hallowed
  obtain ⟨i, rfl, hann⟩ := hallowed
  refine ⟨i, rfl, hann.observable, ?_, exists_observe_of_subscribed hann.subscribed_log, ?_,
    hann.count_lt, ?_⟩
  · have hknown := hann.known
    rwa [UInt16.not_le] at hknown
  · obtain ⟨sinceLook, g, rest, hrest, hread, hsent, hpend, hpos⟩ := hann.fresh
    obtain ⟨between, a, before, rfl, hbetween⟩ := exists_updated_of_sinceRead hpos
    exact ⟨sinceLook, g, between, a, before, hrest, hpend, hsent, hread, hbetween⟩
  · rintro sinceWrite j before rfl
    exact exists_written_of_owes_none hann.owes_none

/-- An update of an observed key is announced by the end of the next flush, and
of any later one, unless an `OBSERVE` or `UNOBSERVE` of the key reads its
generation before that flush begins. -/
theorem update_announced (server : Server N) (hdistinct : server.Distinct)
    (hobservable : server.hasObservableKeys = true) (nodeId : Str) (memory : Memory server.keys)
    (labels : List (Label server.keys)) (s : Connection server)
    (hrun : Path (Sys.step (programs server nodeId)) (fun _ _ => True)
      (Sys.initial (programs server nodeId) memory) labels s)
    (i : Fin N) (hcount : updateCount i s.log < 2 ^ 32)
    (post during between pre : List (Event server.keys)) (a : Actor)
    (hlog : s.log =
      post ++ .flushEnd :: (during ++ .flushBegin :: (between ++ .updated a i :: pre)))
    (hbegin : .flushBegin ∉ during) (hend : .flushEnd ∉ during)
    (hobserved : recorded i pre = true)
    (hrecordings : recordings i (between ++ .updated a i :: pre) =
      recordings i (.updated a i :: pre)) :
    .sent (changedFrame (server.keys i).keyref) ∈ during ++ between := by
  have hjust := log_justified hdistinct hrun
  rw [hlog] at hjust
  have hle := updateCount_le i (post ++ [.flushEnd])
    (during ++ .flushBegin :: (between ++ .updated a i :: pre))
  rw [List.append_assoc, List.singleton_append, ← hlog] at hle
  have hallowed := hjust.allowed_at hobservable i (by omega)
  by_contra hno
  rw [List.mem_append, not_or] at hno
  have hupdate : unannounced i (.updated a i :: pre) = true := by
    rw [unannounced, if_pos rfl, hobserved, Bool.true_or]
  have hbegun : overdue i (.flushBegin :: (between ++ .updated a i :: pre)) = true :=
    unannounced_append hupdate hno.2 hrecordings
  rw [overdue_append hbegun hno.1 hbegin hend] at hallowed
  cases hallowed

theorem lampServer_distinct : lampServer.Distinct := fun _ _ _ => Subsingleton.elim _ _

theorem lampServer_proper : lampServer.Proper :=
  ⟨Server.ofRun_sized _ _, lampServer_distinct⟩

def observeLamp : List (Label lampServer.keys) :=
  [.arrive (MessageRef.request (.observe 0)).frame, .read, .read, .read, .serve,
    .act true, .act true, .act true, .act true, .finish, .act true, .finish]

def switchLamp (j : ℕ) : List (Label lampServer.keys) :=
  [.spawn (Fin.last 0) true, .update j, .update j, .update j, .update j, .update j]

def announceLamp : List (Label lampServer.keys) :=
  [.pend, .wake, .act true, .act true, .act true, .act true, .finish]

def lampRun (labels : List (Label lampServer.keys)) : Option (Connection lampServer) :=
  runLabels (Sys.step (programs lampServer Str.empty))
    (Sys.initial (programs lampServer Str.empty) lampMemory) ([.act true, .finish] ++ labels)

def observedLamp (generation : UInt32) : List (Event lampServer.keys) :=
  [.flushEnd, .readGeneration (Fin.last 0) generation, .flushBegin, .sent okFrame,
    .readGeneration (Fin.last 0) generation, .served (.observe 0)]

def switchedLamp : List (Event lampServer.keys) :=
  [.updated .update (Fin.last 0), .stored .update (Fin.last 0) true]

theorem lampRun_log_of_eq {labels : List (Label lampServer.keys)}
    {log : List (Event lampServer.keys)} (h : (lampRun labels).map (fun s => s.log) = some log) :
    ∃ s, Path (Sys.step (programs lampServer Str.empty)) (fun _ _ => True)
      (Sys.initial (programs lampServer Str.empty) lampMemory) ([.act true, .finish] ++ labels) s ∧
        s.log = log := by
  obtain ⟨s, hs, hlog⟩ := Option.map_eq_some_iff.mp h
  exact ⟨s, .of_runLabels hs, hlog⟩

/-- A second `OBSERVE` reads over the update: the flush after it finds nothing. -/
theorem observe_swallows_update : ∃ s : Connection lampServer,
    Path (Sys.step (programs lampServer Str.empty)) (fun _ _ => True)
        (Sys.initial (programs lampServer Str.empty) lampMemory)
        ([.act true, .finish] ++ (observeLamp ++ switchLamp 0 ++ observeLamp)) s ∧
      lampServer.Proper ∧ lampServer.hasObservableKeys = true ∧ updateCount 0 s.log < 2 ^ 32 ∧
      ∃ during between pre,
        s.log = .flushEnd :: (during ++ .flushBegin :: (between ++ .updated .update 0 :: pre)) ∧
          .flushBegin ∉ between ∧ .flushBegin ∉ during ∧ .flushEnd ∉ during ∧
            recorded 0 pre = true ∧ (∀ r, .served (.unobserve r) ∉ between) ∧
              .sent (changedFrame lamp.keyref) ∉ during ++ between := by
  have hlog : (lampRun (observeLamp ++ switchLamp 0 ++ observeLamp)).map (fun s => s.log) =
      some (observedLamp 1 ++ switchedLamp ++ observedLamp 0) := by decide +kernel
  obtain ⟨s, hs, hlog⟩ := lampRun_log_of_eq hlog
  refine ⟨s, hs, lampServer_proper, rfl, by rw [hlog]; decide, [.readGeneration 0 1],
    [.sent okFrame, .readGeneration 0 1, .served (.observe 0)],
    .stored .update 0 true :: observedLamp 0, hlog, by decide, by decide, by decide, by decide,
    by simp, by decide⟩

def announcedLamp : List (Event lampServer.keys) :=
  [.flushEnd, .sent (changedFrame lamp.keyref), .readGeneration (Fin.last 0) 1, .flushBegin] ++
    switchedLamp ++ observedLamp 0

theorem announceLamp_log :
    (lampRun (observeLamp ++ switchLamp 0 ++ announceLamp)).map (fun s => s.log) =
      some announcedLamp := by decide +kernel

theorem update_announced_lamp : ∃ s : Connection lampServer,
    Path (Sys.step (programs lampServer Str.empty)) (fun _ _ => True)
        (Sys.initial (programs lampServer Str.empty) lampMemory)
        ([.act true, .finish] ++ (observeLamp ++ switchLamp 0 ++ announceLamp)) s ∧
      s.log = announcedLamp ∧ .sent (changedFrame lamp.keyref) ∈
        [.sent (changedFrame lamp.keyref), .readGeneration 0 1] ++
          ([] : List (Event lampServer.keys)) := by
  obtain ⟨s, hs, hlog⟩ := lampRun_log_of_eq announceLamp_log
  exact ⟨s, hs, hlog, update_announced lampServer lampServer_distinct rfl Str.empty lampMemory _ s hs 0
    (by rw [hlog]; decide) [] _ [] (.stored .update 0 true :: observedLamp 0) .update hlog
    (by decide) (by decide) (by decide) (by decide)⟩

theorem changed_sound_lamp : ∃ (s : Connection lampServer) (older : List (Event lampServer.keys)),
    Path (Sys.step (programs lampServer Str.empty)) (fun _ _ => True)
        (Sys.initial (programs lampServer Str.empty) lampMemory)
        ([.act true, .finish] ++ (observeLamp ++ switchLamp 0 ++ announceLamp)) s ∧
      s.log = [.flushEnd] ++ .sent (changedFrame lamp.keyref) :: older ∧
      ∃ i, changedFrame lamp.keyref = changedFrame (lampServer.keys i).keyref ∧
        RightlyChanged lampServer i older := by
  obtain ⟨s, hs, hlog⟩ := lampRun_log_of_eq announceLamp_log
  exact ⟨s, _, hs, hlog, changed_sound lampServer lampServer_distinct Str.empty lampMemory _ s hs
    [.flushEnd] _ (changedFrame lamp.keyref) hlog rfl⟩

end Qup.Embassy
