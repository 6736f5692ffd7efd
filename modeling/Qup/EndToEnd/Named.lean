import Qup.EndToEnd.Completion

/-!
# Keys by their names

`list_keys` and the methods that resolve a name, against a server that is reached over
channels of whole frames. An unregistered keyref below the count has the empty name,
and so is a key of that name to the client.
-/

namespace Qup.EndToEnd
open Foundation Foundation.Routine Foundation.Utf8
open Embassy (Server Memory programs lamp lampServer lampServer_distinct lampMemory)
open Client (Call ClientError KeyInfo Message)
open Client.Async (Op Action select byName listKeys request acceptKey acceptValue acceptWritten
  acceptOk keyByName getByName writeByName observeByName unobserveByName)

variable {N : ℕ} {server : Server N} {nodeId : Str} {α : Type}

namespace Profile
variable {profile : Profile} {name : Str}

def Named (profile : Profile) (name : Str) (r : UInt16) : Prop :=
  r < profile.table.count ∧ profile.table.name r = name

def Only (profile : Profile) (name : Str) (r : UInt16) : Prop :=
  profile.Named name r ∧ ∀ r', profile.Named name r' → r' = r

theorem filter_keys (profile : Profile) (name : Str) :
    profile.keys.filter (fun key => decide (key.name = name)) =
      ((List.range profile.table.count.toNat).filter fun n =>
        decide (profile.table.name (UInt16.ofNat n) = name)).map profile.info :=
  List.filter_map

theorem mem_matches {r : UInt16} : profile.Named name r ↔
    r.toNat ∈ (List.range profile.table.count.toNat).filter fun n =>
      decide (profile.table.name (UInt16.ofNat n) = name) := by
  rw [List.mem_filter, List.mem_range, decide_eq_true_iff, UInt16.ofNat_toNat]
  rfl

theorem select_cases (profile : Profile) (name : Str) :
    (∃ key, select name profile.keys = .ok key ∧ profile.Only name key.keyref) ∨
      (select name profile.keys = .error (.keyNotFound name) ∧ ∀ r, ¬ profile.Named name r) ∨
      (select name profile.keys = .error (.ambiguousKey name) ∧
        ∃ r r', r ≠ r' ∧ profile.Named name r ∧ profile.Named name r') := by
  have hnodup := (List.nodup_range (n := profile.table.count.toNat)).filter
    fun n => decide (profile.table.name (UInt16.ofNat n) = name)
  have hlt : ∀ n ∈ (List.range profile.table.count.toNat).filter (fun n =>
      decide (profile.table.name (UInt16.ofNat n) = name)), n < profile.table.count.toNat :=
    fun n hn => List.mem_range.mp (List.mem_filter.mp hn).1
  have hnamed := @mem_matches profile name
  unfold select
  rw [filter_keys]
  generalize (List.range profile.table.count.toNat).filter (fun n =>
    decide (profile.table.name (UInt16.ofNat n) = name)) = found at *
  have hcount := profile.table.count.toNat_lt
  have hofNat : ∀ n ∈ found, (UInt16.ofNat n).toNat = n := fun n hn =>
    toNat_ofNat16 (by have := hlt n hn; omega)
  match found with
  | [] => exact .inr (.inl ⟨rfl, fun r hr => by cases hnamed.mp hr⟩)
  | [n] =>
    have hn := hofNat n List.mem_cons_self
    refine .inl ⟨profile.info n, rfl, hnamed.mpr ?_, fun r' hr' => ?_⟩
    · exact List.mem_singleton.mpr hn
    · rw [← UInt16.toNat_inj]
      exact (List.mem_singleton.mp (hnamed.mp hr')).trans hn.symm
  | n :: n' :: rest =>
    have hn := hofNat n List.mem_cons_self
    have hn' := hofNat n' (List.mem_cons_of_mem _ List.mem_cons_self)
    refine .inr (.inr ⟨rfl, UInt16.ofNat n, UInt16.ofNat n', fun heq => ?_, ?_, ?_⟩)
    · rw [← UInt16.toNat_inj, hn, hn'] at heq
      exact (List.nodup_cons.mp hnodup).1 (heq ▸ List.mem_cons_self)
    · exact hnamed.mpr (hn.symm ▸ List.mem_cons_self)
    · exact hnamed.mpr (hn'.symm ▸ List.mem_cons_of_mem _ List.mem_cons_self)

end Profile

abbrev ClientRun (server : Server N) (ε α : Type) := Hosted (Pair server) Op.Res ε α

def clientStep (server : Server N) (nodeId : Str) {ε α : Type} :
    ClientRun server ε α → Beat Unit (Act server.keys) → Option (ClientRun server ε α) :=
  Hosted.step (linkWorld (programs server nodeId))

theorem accompanies_initial {A : List Call → Prop} (hA : A []) (memory : Memory server.keys) :
    Accompanies nodeId A (Link.initial (programs server nodeId) memory) (.idle []) :=
  ⟨_, (Link.initial_map (Embassy.phasesHom server nodeId) memory).symm, linked_initial memory,
    ⟨rfl, rfl, rfl⟩, hA⟩

theorem Accompanies.phased {A : List Call → Prop} {k : Pair server} {talk : Talk}
    (h : Accompanies nodeId A k talk) : Phased nodeId k := by
  obtain ⟨t, ht, hlinked, -⟩ := h
  exact ⟨t, ht, hlinked⟩

theorem Accompanies.results_eq {A : List Call → Prop} {k : Pair server} {talk : Talk}
    (h : Accompanies nodeId A k talk) :
    k.calls = talk.calls ∧ k.results = talk.exchanges.map fun x => x.1.method.accept x.2 := by
  obtain ⟨t, rfl, -, hin, -⟩ := h
  exact ⟨hin.calls_eq, hin.results_eq⟩

theorem Accompanies.allowed {A : List Call → Prop} {k : Pair server} {talk : Talk}
    (h : Accompanies nodeId A k talk) : A k.calls := by
  rw [h.results_eq.1]
  obtain ⟨t, -, -, -, hA⟩ := h
  exact hA

theorem method_run (hdistinct : server.Distinct) {A : List Call → Prop} (hA : A []) {ε α : Type}
    {method : Action ε α} {R : Talk → Except ε α → Prop} (hready : Ready method)
    (hfollows : method.Follows (talking A) (Server.profile server nodeId).Promises R (.idle []))
    {memory : Memory server.keys} {beats : List (Beat Unit (Act server.keys))}
    {h : ClientRun server ε α}
    (hrun : Path (clientStep server nodeId) (fun _ _ => True)
      ⟨Link.initial (programs server nodeId) memory, method⟩ beats h) :
    A h.world.calls ∧ CanEnd nodeId h ∧ ∃ talk, Accompanies nodeId A h.world talk ∧
      (∀ a, h.routine = .ret a → R talk (.ok a)) ∧ ∀ e, h.routine = .fail e → R talk (.error e) := by
  have hstart : Hosted.Follows (talking A) (Server.profile server nodeId).Promises
      (Accompanies nodeId A) R ⟨Link.initial (programs server nodeId) memory, method⟩ :=
    ⟨.idle [], accompanies_initial hA memory, hfollows⟩
  obtain ⟨talk, haccompanies, hp⟩ := hstart.path (linkWorld_keeps hdistinct A) hrun
  have hpoised : Poised h := hrun.invariant Poised hready fun _ _ _ hu _ hs => hu.step hs
  refine ⟨haccompanies.allowed, hpoised.canEnd hdistinct haccompanies.phased, talk, haccompanies, ?_, ?_⟩
  · intro a ha
    rwa [ha] at hp
  · intro e he
    rwa [he] at hp

structure ListsKeys (server : Server N) (nodeId : Str)
    (h : ClientRun server ClientError (List KeyInfo)) : Prop where
  calls : h.world.calls <+: (Server.profile server nodeId).lookups.map Prod.fst
  returned : ∀ keys, h.routine = .ret keys → keys = (Server.profile server nodeId).keys
  /-- Every registered key is in the list, but one that no count can address. -/
  registered : ∀ keys, h.routine = .ret keys → ∀ i, (server.keys i).keyref ≠ 65535 →
    ⟨(server.keys i).keyref, (server.keys i).perm.keyFlags, (server.keys i).name⟩ ∈ keys
  succeeds : ∀ error, h.routine ≠ .fail error
  canEnd : CanEnd nodeId h

theorem registered_mem_keys (hdistinct : server.Distinct) {i : Fin N}
    (hi : (server.keys i).keyref ≠ 65535) :
    ⟨(server.keys i).keyref, (server.keys i).perm.keyFlags, (server.keys i).name⟩ ∈
      (Server.profile server nodeId).keys := by
  have hslot := @Embassy.Server.findSlot_keyref_self N server hdistinct i
  obtain ⟨hflags, hname⟩ := Embassy.Server.keyTable_registered hslot
  have hlt : (server.keys i).keyref < server.keyCount :=
    UInt16.not_le.mp (@Embassy.Server.keyref_lt_keyCount N server i hi)
  refine List.mem_map.mpr ⟨(server.keys i).keyref.toNat, ?_, ?_⟩
  · exact List.mem_range.mpr (UInt16.lt_iff_toNat_lt.mp hlt)
  · simp only [Profile.info, UInt16.ofNat_toNat, hflags, hname]

/-- `list_keys` returns exactly the key table, whatever happens in between. -/
theorem list_keys_exact (server : Server N) (hdistinct : server.Distinct) (nodeId : Str)
    (memory : Memory server.keys) (beats : List (Beat Unit (Act server.keys)))
    (h : ClientRun server ClientError (List KeyInfo))
    (hrun : Path (clientStep server nodeId) (fun _ _ => True)
      ⟨Link.initial (programs server nodeId) memory, listKeys⟩ beats h) :
    ListsKeys server nodeId h := by
  have hready : Ready listKeys := (ready_request _ _).bind fun count => ready_keysOf _
  obtain ⟨hcalls, hend, talk, -, hret, hfail⟩ := method_run hdistinct
    (A := fun calls => calls <+: (Server.profile server nodeId).lookups.map Prod.fst)
    List.nil_prefix hready (listKeys_follows fun some hsome => hsome) hrun
  have hreturned : ∀ keys, h.routine = .ret keys → keys = (Server.profile server nodeId).keys :=
    fun keys hkeys => Except.ok.inj (hret keys hkeys).2
  refine ⟨hcalls, hreturned, fun keys hkeys i hi => ?_, fun error herror => ?_, hend⟩
  · rw [hreturned keys hkeys]
    exact registered_mem_keys hdistinct hi
  · cases (hfail error herror).2

def nodeBeats {keys : Fin N → Embassy.ErasedKey} (labels : List (Embassy.Label keys)) :
    List (Beat Unit (Act keys)) := labels.map fun l => .move (.node l)

def asking {keys : Fin N → Embassy.ErasedKey} : List (Beat Unit (Act keys)) :=
  [.request (), .unroll, .move .deliver]

def lampLookups : List (Beat Unit (Act lampServer.keys)) :=
  asking ++ nodeBeats ([.act true, .finish, .read, .read, .serve] ++ List.replicate 3 (.act true)) ++
    .request () :: asking ++ nodeBeats ([.finish, .finish, .read, .read, .read, .serve] ++
      List.replicate 5 (.act true)) ++ [.request ()]

theorem list_keys_exact_lamp : ∃ h : ClientRun lampServer ClientError (List KeyInfo),
    Path (clientStep lampServer Str.empty) (fun _ _ => True)
        ⟨Link.initial (programs lampServer Str.empty) lampMemory, listKeys⟩ lampLookups h ∧
      h.routine = .ret [⟨0, lamp.perm.keyFlags, lamp.name⟩] ∧ ListsKeys lampServer Str.empty h := by
  have hrun : (runLabels (clientStep lampServer Str.empty)
      ⟨Link.initial (programs lampServer Str.empty) lampMemory, listKeys⟩ lampLookups).map
        (fun h => h.routine.returned) = some (some [⟨0, lamp.perm.keyFlags, lamp.name⟩]) := by
    decide +kernel
  obtain ⟨h, hh, hreturned⟩ := Option.map_eq_some_iff.mp hrun
  have hpath := Path.of_runLabels hh
  exact ⟨h, hpath, eq_ret_of_returned hreturned,
    list_keys_exact lampServer lampServer_distinct Str.empty lampMemory _ h hpath⟩

/-- What a run of a method by name has done and returned. -/
structure ActsOnNamed (server : Server N) (nodeId name : Str) (call : UInt16 → Call)
    (accept : UInt16 → Message → Except ClientError α) (h : ClientRun server Client.Async.Error α) :
    Prop where
  calls : ∃ target : Option UInt16, (∀ r ∈ target, (Server.profile server nodeId).Only name r) ∧
    h.world.calls <+: (Server.profile server nodeId).lookups.map Prod.fst ++
      (target.map call).toList
  returned : ∀ a, h.routine = .ret a → ∃ r m, (Server.profile server nodeId).Only name r ∧
    (Server.profile server nodeId).Replies (call r) m ∧ accept r m = .ok a ∧
      h.world.results.getLast? = some ((call r).method.accept m)
  notFound : ∀ n, h.routine = .fail (.keyNotFound n) →
    n = name ∧ ∀ r, ¬ (Server.profile server nodeId).Named name r
  ambiguous : ∀ n, h.routine = .fail (.ambiguousKey n) → n = name ∧ ∃ r r', r ≠ r' ∧
    (Server.profile server nodeId).Named name r ∧ (Server.profile server nodeId).Named name r'
  refused : ∀ error, h.routine = .fail (.client error) →
    ∃ r, (Server.profile server nodeId).Only name r ∧
      ((∃ cause, (call r).method.send = .error cause ∧ error = .io cause) ∨
        ∃ m, (Server.profile server nodeId).Replies (call r) m ∧ accept r m = .error error)
  canEnd : CanEnd nodeId h

theorem actsOnNamed_of_path (server : Server N) (hdistinct : server.Distinct) (nodeId : Str)
    (memory : Memory server.keys) (name : Str) (call : UInt16 → Call)
    (accept : UInt16 → Message → Except ClientError α)
    (beats : List (Beat Unit (Act server.keys))) (h : ClientRun server Client.Async.Error α)
    (hrun : Path (clientStep server nodeId) (fun _ _ => True)
      ⟨Link.initial (programs server nodeId) memory,
        byName name fun r => request (call r) (accept r)⟩ beats h) :
    ActsOnNamed server nodeId name call accept h := by
  obtain ⟨hcalls, hend, talk, haccompanies, hret, hfail⟩ := method_run hdistinct
    (A := fun calls => calls <+: (Server.profile server nodeId).callsByName name call)
    List.nil_prefix (ready_byName name fun r => ready_request _ _)
    (byName_follows name call accept fun some hsome => hsome) hrun
  have hresults := haccompanies.results_eq.2
  unfold Profile.callsByName at hcalls
  unfold Profile.ReturnsByName at hret hfail
  rcases (Server.profile server nodeId).select_cases name with
    ⟨key, hselect, honly⟩ | ⟨hselect, hnone⟩ | ⟨hselect, hmany⟩
  · rw [hselect] at hcalls
    simp only [hselect] at hret hfail
    refine ⟨⟨some key.keyref, fun r hr => Option.some.inj hr ▸ honly, hcalls⟩, ?_, ?_, ?_, ?_, hend⟩
    · intro a ha
      obtain ⟨r', hr', ⟨error, -, -, rfl⟩ | ⟨m, hm, rfl, rfl⟩⟩ := hret a ha
      · cases hr'
      · cases haccept : accept key.keyref m with
        | error e =>
          rw [haccept] at hr'
          cases hr'
        | ok answer =>
          rw [haccept] at hr'
          cases hr'
          refine ⟨key.keyref, m, honly, hm, haccept, ?_⟩
          rw [hresults]
          simp [Talk.idle]
    · intro n hn
      obtain ⟨r', hr', -⟩ := hfail _ hn
      cases r' <;> cases hr'
    · intro n hn
      obtain ⟨r', hr', -⟩ := hfail _ hn
      cases r' <;> cases hr'
    · intro error herror
      obtain ⟨r', hr', ⟨cause, hcause, -, rfl⟩ | ⟨m, hm, -, rfl⟩⟩ := hfail _ herror
      · cases hr'
        exact ⟨key.keyref, honly, .inl ⟨cause, hcause, rfl⟩⟩
      · cases haccept : accept key.keyref m with
        | error e =>
          rw [haccept] at hr'
          cases hr'
          exact ⟨key.keyref, honly, .inr ⟨m, hm, haccept⟩⟩
        | ok answer =>
          rw [haccept] at hr'
          cases hr'
  · rw [hselect] at hcalls
    simp only [hselect] at hret hfail
    refine ⟨⟨none, by simp, hcalls⟩, ?_, ?_, ?_, ?_, hend⟩
    · intro a ha
      cases (hret a ha).2
    · intro n hn
      cases (hfail _ hn).2
      exact ⟨rfl, hnone⟩
    · intro n hn
      cases (hfail _ hn).2
    · intro error herror
      cases (hfail _ herror).2
  · rw [hselect] at hcalls
    simp only [hselect] at hret hfail
    refine ⟨⟨none, by simp, hcalls⟩, ?_, ?_, ?_, ?_, hend⟩
    · intro a ha
      cases (hret a ha).2
    · intro n hn
      cases (hfail _ hn).2
    · intro n hn
      cases (hfail _ hn).2
      exact ⟨rfl, hmany⟩
    · intro error herror
      cases (hfail _ herror).2

def RunsOnNamed (server : Server N) (nodeId : Str) (memory : Memory server.keys) (name : Str)
    (call : UInt16 → Call) (accept : UInt16 → Message → Except ClientError α)
    (method : Action Client.Async.Error α) : Prop :=
  ∀ (beats : List (Beat Unit (Act server.keys))) (h : ClientRun server Client.Async.Error α),
    Path (clientStep server nodeId) (fun _ _ => True)
      ⟨Link.initial (programs server nodeId) memory, method⟩ beats h →
        ActsOnNamed server nodeId name call accept h

/-- The methods by name act on the key of the name, and on nothing where there is
none or more than one. -/
theorem by_name_acts (server : Server N) (hdistinct : server.Distinct) (nodeId : Str)
    (memory : Memory server.keys) (name : Str) (value : Client.Value) :
    RunsOnNamed server nodeId memory name .key acceptKey (keyByName name) ∧
      RunsOnNamed server nodeId memory name .get (fun _ => acceptValue) (getByName name) ∧
      RunsOnNamed server nodeId memory name (.write · value) (fun _ => acceptWritten)
        (writeByName name value) ∧
      RunsOnNamed server nodeId memory name .observe (fun _ => acceptOk .observe)
        (observeByName name) ∧
      RunsOnNamed server nodeId memory name .unobserve (fun _ => acceptOk .unobserve)
        (unobserveByName name) :=
  ⟨actsOnNamed_of_path server hdistinct nodeId memory name _ _,
    actsOnNamed_of_path server hdistinct nodeId memory name _ _,
    actsOnNamed_of_path server hdistinct nodeId memory name _ _,
    actsOnNamed_of_path server hdistinct nodeId memory name _ _,
    actsOnNamed_of_path server hdistinct nodeId memory name _ _⟩

def lampGet : List (Beat Unit (Act lampServer.keys)) :=
  lampLookups ++ asking ++ nodeBeats ([.finish, .finish, .read, .read, .read, .serve] ++
    List.replicate 4 (.act true)) ++ [.request ()]

theorem by_name_acts_lamp : ∃ h : ClientRun lampServer Client.Async.Error Client.Value,
    Path (clientStep lampServer Str.empty) (fun _ _ => True)
        ⟨Link.initial (programs lampServer Str.empty) lampMemory, getByName lamp.name⟩
        lampGet h ∧
      h.routine = .ret (.bool false) ∧
      ActsOnNamed lampServer Str.empty lamp.name .get (fun _ => acceptValue) h := by
  have hrun : (runLabels (clientStep lampServer Str.empty)
      ⟨Link.initial (programs lampServer Str.empty) lampMemory, getByName lamp.name⟩
      lampGet).map (fun h => h.routine.returned) = some (some (.bool false)) := by
    decide +kernel
  obtain ⟨h, hh, hreturned⟩ := Option.map_eq_some_iff.mp hrun
  have hpath := Path.of_runLabels hh
  exact ⟨h, hpath, eq_ret_of_returned hreturned,
    (by_name_acts lampServer lampServer_distinct Str.empty lampMemory lamp.name (.bool true)).2.1
      _ h hpath⟩

end Qup.EndToEnd
