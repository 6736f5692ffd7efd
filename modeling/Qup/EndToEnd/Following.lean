import Qup.EndToEnd.Console
import Qup.EndToEnd.Atomic

/-!
# Follow mode, from the name to the values

`run_follow_mode` against a node that keeps to its key table: it asks for nothing
but the table, one `OBSERVE` and the `GET`s of one key, it ends only where the
table has no key that can be followed, and it prints the answers to its `GET`s.
-/

namespace Qup.EndToEnd
open Foundation Foundation.Routine Foundation.Utf8
open Embassy (Memory Server programs wireOf lamp lampServer lampServer_distinct lampMemory)
open Client (Call KeyInfo Message ownedValue)
open Client.Async (select)
open Cli (Failure followLoop runFollowMode selectFollowKey)

variable {profile : Profile} {name : Str} {P T : Visit → Prop} {A : List Call → Prop} {α : Type}

namespace Profile

/-- The only key of the name, and it can be read and observed. -/
def Followable (profile : Profile) (name : Str) (r : UInt16) : Prop :=
  profile.Only name r ∧ (profile.table.flags r).isReadable = true ∧
    (profile.table.flags r).isObservable = true

def Unfollowable (profile : Profile) (name : Str) : Failure → Prop
  | .followNotFound n => n = name ∧ ∀ r, ¬ profile.Named name r
  | .followAmbiguous n => n = name ∧
      ∃ r r', r ≠ r' ∧ profile.Named name r ∧ profile.Named name r'
  | .followPermission n flags => n = name ∧
      ∃ r, profile.Only name r ∧ flags = profile.table.flags r ∧ ¬ profile.Followable name r
  | _ => False

end Profile

theorem filter_of_select {keys : List KeyInfo} {key : KeyInfo} (h : select name keys = .ok key) :
    keys.filter (fun key => decide (key.name = name)) = [key] := by
  unfold select at h
  split at h
  · cases h
  · rename_i first hfilter
    rw [hfilter, Except.ok.inj h]
  · cases h

theorem filter_of_keyNotFound {keys : List KeyInfo} {n : Str}
    (h : select name keys = .error (.keyNotFound n)) :
    keys.filter (fun key => decide (key.name = name)) = [] := by
  unfold select at h
  split at h
  · assumption
  · cases h
  · cases h

theorem filter_of_ambiguousKey {keys : List KeyInfo} {n : Str}
    (h : select name keys = .error (.ambiguousKey n)) :
    ∃ key key' rest, keys.filter (fun key => decide (key.name = name)) = key :: key' :: rest := by
  unfold select at h
  split at h
  · cases h
  · cases h
  · exact ⟨_, _, _, by assumption⟩

theorem selectFollowKey_cases (profile : Profile) (name : Str) :
    (∃ key, selectFollowKey profile.keys name = .ok key ∧ profile.Followable name key.keyref) ∨
      ∃ error, selectFollowKey profile.keys name = .error error ∧
        profile.Unfollowable name error := by
  unfold selectFollowKey
  rcases profile.select_cases name with ⟨key, hselect, honly⟩ | ⟨hselect, hnone⟩ | ⟨hselect, hmany⟩
  · have hfilter := filter_of_select hselect
    have hkey : key ∈ profile.keys := by
      refine List.mem_of_mem_filter (p := fun key => decide (key.name = name)) ?_
      rw [hfilter]
      exact List.mem_cons_self
    have hflags := (Profile.mem_keys hkey).2
    simp only [hfilter]
    by_cases hfollow : profile.Followable name key.keyref
    · refine .inl ⟨key, ?_, hfollow⟩
      rw [hflags, hfollow.2.1, hfollow.2.2]
      rfl
    · refine .inr ⟨.followPermission name key.keyflags, if_pos ?_, rfl, key.keyref, honly, hflags,
        hfollow⟩
      rw [hflags]
      by_contra hflagged
      rw [Bool.not_eq_true, Bool.or_eq_false_iff, Bool.not_eq_false', Bool.not_eq_false'] at hflagged
      exact hfollow ⟨honly, hflagged⟩
  · simp only [filter_of_keyNotFound hselect]
    exact .inr ⟨_, rfl, rfl, hnone⟩
  · obtain ⟨key, key', rest, hfilter⟩ := filter_of_ambiguousKey hselect
    simp only [hfilter]
    exact .inr ⟨_, rfl, rfl, hmany⟩

namespace Profile

def FollowCalls (profile : Profile) (name : Str) (calls : List Call) : Prop :=
  calls <+: profile.lookups.map Prod.fst ∨
    ∃ r n, profile.Followable name r ∧ calls <+: issued (profile.lookups.map Prod.fst) r n

end Profile

def valueIn : Call × Message → Option Client.Value
  | (.get _, .value value) => some value
  | _ => none

def Echoes (visit : Visit) : Prop :=
  visit.shown <+: (visit.talk.exchanges.filterMap valueIn).map fun v => .printed (.followed v)

theorem echoes_lasting : Lasting (fun _ => False) Echoes where
  talk hgrown h := h.trans ((hgrown.filterMap valueIn).map _)
  read _ h := h.elim

def followed (profile : Profile) (r : UInt16) (values : List Client.Value) : Visit where
  talk := .idle (profile.lookups ++ (.observe r, .ok) :: values.map fun v => (.get r, .value v))
  shown := values.map fun v => .printed (.followed v)

theorem valueIn_lookups (profile : Profile) : profile.lookups.filterMap valueIn = [] := by
  rw [List.filterMap_eq_nil_iff]
  intro x hx
  rcases List.mem_cons.mp hx with rfl | hx
  · rfl
  · obtain ⟨n, -, rfl⟩ := List.mem_map.mp hx
    rfl

theorem calls_followed (profile : Profile) (r : UInt16) (values : List Client.Value) :
    (followed profile r values).talk.exchanges.map Prod.fst =
      issued (profile.lookups.map Prod.fst) r values.length := by
  rw [followed, Talk.idle, issued, List.map_append, List.map_cons, List.map_map]
  congr 2
  exact List.map_const' ..

theorem values_followed (profile : Profile) (r : UInt16) (values : List Client.Value) :
    (followed profile r values).talk.exchanges.filterMap valueIn = values := by
  rw [followed, Talk.idle, List.filterMap_append, valueIn_lookups, List.nil_append,
    List.filterMap_cons_none rfl, List.filterMap_map]
  exact List.filterMap_some

theorem issued_prefix {profile : Profile} {name : Str} {r : UInt16}
    (hr : profile.Followable name r) (n : ℕ) :
    profile.FollowCalls name (issued (profile.lookups.map Prod.fst) r n) :=
  .inr ⟨r, n, hr, List.prefix_rfl⟩

theorem Profile.Replies.value {r : UInt16} {m : Message} (h : profile.Replies (.get r) m)
    (hr : profile.Followable name r) : ∃ value, m = .value value := by
  have hlt : ¬ profile.table.count ≤ r := UInt16.not_le.mpr hr.1.1.1
  rwa [Replies, if_neg hlt, if_pos hr.2.1] at h

theorem Profile.Replies.observed {r : UInt16} {m : Message} (h : profile.Replies (.observe r) m)
    (hr : profile.Followable name r) : m = .ok := by
  have hlt : ¬ profile.table.count ≤ r := UInt16.not_le.mpr hr.1.1.1
  rwa [Replies, if_neg hlt, if_pos hr.2.2] at h

theorem followLoop_follows {key : KeyInfo} (hkey : profile.Followable name key.keyref)
    {R : Visit → Except Failure Unit → Prop} :
    (followLoop key).Follows (consoling (profile.FollowCalls name) (fun _ => False) Echoes)
      profile.Meets R (followed profile key.keyref []) := by
  refine .iterate (fun _ visit => ∃ values, visit = followed profile key.keyref values) ⟨[], rfl⟩ ?_
  rintro - visit ⟨values, rfl⟩
  refine ⟨trivial, fun reply hreply => ?_⟩
  rcases hreply with ⟨r, rfl, -⟩ | ⟨call, m, hcall, -⟩
  · refine follows_ite (fun hr => ?_) fun _ => ⟨values, rfl⟩
    have hA : profile.FollowCalls name ((followed profile key.keyref values).talk.exchanges.map
        Prod.fst ++ [.get key.keyref]) := by
      rw [calls_followed, issued_succ]
      exact issued_prefix hkey _
    refine .bind (awaitMethod_follows ((request_answered hA _ fun _ _ h => by cases h).mono ?_))
    rintro talk r ⟨m, hm, rfl, rfl⟩
    obtain ⟨value, rfl⟩ := hm.value hkey
    have hnext : ((⟨.idle ((followed profile key.keyref values).talk.exchanges ++
        [(.get key.keyref, .value value)]), (followed profile key.keyref values).shown⟩ :
          Visit).print (.followed value)) = followed profile key.keyref (values ++ [value]) := by
      simp [followed, Visit.print, Talk.idle]
    have hechoes : Echoes (followed profile key.keyref (values ++ [value])) := by
      rw [Echoes, values_followed]
      exact List.prefix_rfl
    rw [← hnext] at hechoes
    exact ⟨hechoes, fun _ _ => ⟨values ++ [value], hnext⟩⟩
  · cases hcall

theorem runFollowMode_follows (profile : Profile) (name : Str) :
    (runFollowMode name).Follows (consoling (profile.FollowCalls name) (fun _ => False) Echoes)
      profile.Meets (fun visit r => ∃ error, r = .error error ∧ profile.Unfollowable name error ∧
        visit = ⟨.idle profile.lookups, []⟩) .start := by
  have hlookups : ∀ some, some <+: profile.lookups.map Prod.fst →
      profile.FollowCalls name (([] : List (Call × Message)).map Prod.fst ++ some) :=
    fun some hsome => .inl hsome
  refine .bind (.bind (awaitMethod_follows ((listKeys_follows hlookups).mono ?_)))
  rintro talk r ⟨rfl, rfl⟩
  dsimp only [Except.mapError, Routine.AndThen]
  rcases selectFollowKey_cases profile name with ⟨key, hselect, hkey⟩ | ⟨error, hselect, herror⟩
  · rw [hselect]
    have hA : profile.FollowCalls name ((([] : List (Call × Message)) ++ profile.lookups).map
        Prod.fst ++ [.observe key.keyref]) := issued_prefix hkey 0
    refine .bind (awaitMethod_follows ((request_answered hA _ fun _ _ h => by cases h).mono ?_))
    rintro talk r ⟨m, hm, rfl, rfl⟩
    obtain rfl := hm.observed hkey
    exact followLoop_follows hkey
  · rw [hselect]
    exact ⟨error, rfl, herror, rfl⟩

section
variable {N : ℕ} {server : Server N} {nodeId : Str}

theorem valueOf_accept {call : Call} (hcall : ∀ r v, call ≠ .write r v) (m : Message) :
    valueOf (call.method.accept m) = valueIn (call, m) := by
  cases call with
  | write r v => exact absurd rfl (hcall r v)
  | _ => cases m <;> rfl

theorem lookup_of_mem {profile : Profile} {call : Call}
    (h : call ∈ profile.lookups.map Prod.fst) : Lookup call := by
  obtain ⟨x, hx, rfl⟩ := List.mem_map.mp h
  rcases List.mem_cons.mp hx with rfl | hx
  · trivial
  · obtain ⟨n, -, rfl⟩ := List.mem_map.mp hx
    trivial

theorem Profile.FollowCalls.cases {profile : Profile} {calls : List Call}
    (h : profile.FollowCalls name calls) {call : Call} (hcall : call ∈ calls) :
    Lookup call ∨ ∃ r, profile.Followable name r ∧ (call = .observe r ∨ call = .get r) := by
  rcases h with hgrown | ⟨r, n, hr, hgrown⟩
  · exact .inl (lookup_of_mem (hgrown.subset hcall))
  · rcases List.mem_append.mp (hgrown.subset hcall) with hmem | hmem
    · exact .inl (lookup_of_mem hmem)
    · rcases List.mem_cons.mp hmem with hobserve | hget
      · exact .inr ⟨r, hr, .inl hobserve⟩
      · exact .inr ⟨r, hr, .inr (List.eq_of_mem_replicate hget)⟩

structure FollowsKey (memory : Memory server.keys) (nodeId name : Str)
    (h : TerminalRun server Unit) : Prop where
  calls : (Server.profile server nodeId).FollowCalls name h.world.node.calls
  /-- What is printed are answers to its `GET`s: values that the key has held, in the
  order in which it has held them. -/
  shown : ∃ values, h.world.shown = values.map (fun v => .printed (.followed v)) ∧
    values <+: h.world.node.results.filterMap valueOf ∧
      (values ≠ [] → ∃ i, (Server.profile server nodeId).Followable name (server.keys i).keyref ∧
        Sampled ((held memory i h.world.node.node.log).map fun v => ownedValue (@wireOf _ server i v))
          values)
  goesOn : h.routine ≠ .ret ()
  failed : ∀ error, h.routine = .fail error →
    (Server.profile server nodeId).Unfollowable name error ∧
      h.world.node.calls = (Server.profile server nodeId).lookups.map Prod.fst ∧ h.world.shown = []

theorem get_of_value {memory : Memory server.keys} {t : PhaseLink server}
    (h : Link.Linked nodeId t) (hstored : Embassy.Stored memory t.node.memory t.node.log)
    (hcalls : (Server.profile server nodeId).FollowCalls name t.calls) {j : ℕ} {v : Client.Value}
    (hj : t.results[j]? = some (.ok (.value v))) :
    ∃ r i, t.calls[j]? = some (.get r) ∧ (Server.profile server nodeId).Followable name r ∧
      server.findSlot r = some i := by
  obtain ⟨call, q, f, newer, older, ha, hout⟩ := answered_of_result h hj
  have hdecided := ha.decided h
  rw [← hout] at hdecided
  rcases hcalls.cases (List.mem_of_getElem? ha.call_eq) with hlookup | ⟨r, hr, rfl | rfl⟩
  · cases call with
    | keyCount => cases hdecided
    | key r =>
      simp only [Decided] at hdecided
      split_ifs at hdecided
      cases hdecided
    | _ => exact hlookup.elim
  · simp only [Decided] at hdecided
    split_ifs at hdecided
    split at hdecided
    · split_ifs at hdecided
      cases hdecided
    · cases hdecided
  · obtain ⟨i, -, -, -, hi, -⟩ := read_of_result h hstored ha.call_eq hj
    exact ⟨r, i, ha.call_eq, hr, hi⟩

theorem sampled_of_followCalls (hdistinct : server.Distinct) {memory : Memory server.keys}
    {k : Pair server} (hk : Reachable (Link.step (programs server nodeId))
      (Link.initial (programs server nodeId) memory) k)
    (hcalls : (Server.profile server nodeId).FollowCalls name k.calls)
    (hsome : k.results.filterMap valueOf ≠ []) :
    ∃ i, (Server.profile server nodeId).Followable name (server.keys i).keyref ∧
      Sampled ((held memory i k.node.log).map fun v => ownedValue (@wireOf _ server i v))
        (k.results.filterMap valueOf) := by
  obtain ⟨acts, hpath⟩ := hk
  obtain ⟨t, ht, rfl⟩ := exists_phaseLink hpath
  have h := linked_of_path hdistinct ht
  have hstored := stored_of_path ht
  obtain ⟨v, hv⟩ := List.exists_mem_of_ne_nil _ hsome
  obtain ⟨result, hresult, hvalue⟩ := List.mem_filterMap.mp hv
  obtain rfl := valueOf_eq_some hvalue
  obtain ⟨j, hj⟩ := List.mem_iff_getElem?.mp hresult
  obtain ⟨r, i, -, hr, hi⟩ := get_of_value h hstored hcalls hj
  have hkeyref := Embassy.Server.findSlot_keyref hi
  refine ⟨i, hkeyref ▸ hr, reads_sampled h hstored fun j' v' hj' => ?_⟩
  obtain ⟨r', i', hcall', hr', hi'⟩ := get_of_value h hstored hcalls hj'
  obtain rfl : r' = r := hr.1.2 r' hr'.1.1
  exact ⟨r', hcall', hi⟩

/-- Follow mode follows its key, or has told why it cannot. -/
theorem follow_mode (server : Server N) (hdistinct : server.Distinct) (nodeId : Str)
    (memory : Memory server.keys) (name : Str)
    (beats : List (Beat (Given Unit) (Act server.keys))) (h : TerminalRun server Unit)
    (hrun : Path (terminalStep server nodeId) (fun _ _ => True)
      (terminalStart server nodeId memory (runFollowMode name)) beats h) :
    FollowsKey memory nodeId name h := by
  obtain ⟨visit, ⟨haccompanies, hshown, hechoes⟩, hfollows⟩ := terminal_run hdistinct echoes_lasting
    (.inl List.nil_prefix) List.nil_prefix (runFollowMode_follows _ name) hrun
  obtain ⟨hcalls_eq, hresults_eq⟩ := haccompanies.results_eq
  have hcalls := haccompanies.allowed
  have hwrites : ∀ x ∈ visit.talk.exchanges, ∀ r v, x.1 ≠ .write r v := by
    intro x hx r v hwrite
    have hmem : x.1 ∈ h.world.node.calls := by
      rw [hcalls_eq]
      exact List.mem_append_left _ (List.mem_map_of_mem hx)
    rcases hcalls.cases hmem with hlookup | ⟨r', -, hr' | hr'⟩
    · rw [hwrite] at hlookup
      exact hlookup
    · cases hwrite.symm.trans hr'
    · cases hwrite.symm.trans hr'
  have hvalues : h.world.node.results.filterMap valueOf =
      visit.talk.exchanges.filterMap valueIn := by
    rw [hresults_eq, List.filterMap_map]
    exact List.filterMap_congr fun x hx => valueOf_accept (hwrites x hx) x.2
  refine ⟨hcalls, ?_, fun hret => ?_, fun error herror => ?_⟩
  · obtain ⟨values, hgrown, heq⟩ := List.prefix_map_iff.mp hechoes
    rw [← hvalues] at hgrown
    refine ⟨values, hshown.trans heq, hgrown, fun hne => ?_⟩
    have hsome : h.world.node.results.filterMap valueOf ≠ [] := by
      intro hnil
      rw [hnil] at hgrown
      exact hne (List.prefix_nil.mp hgrown)
    obtain ⟨i, hi, hsampled⟩ := sampled_of_followCalls hdistinct (terminal_reachable hrun) hcalls hsome
    exact ⟨i, hi, hsampled.of_prefix hgrown⟩
  · rw [hret] at hfollows
    obtain ⟨error, herror, -⟩ := hfollows
    cases herror
  · rw [herror] at hfollows
    obtain ⟨error', herror', hwhy, rfl⟩ := hfollows
    cases herror'
    exact ⟨hwhy, hcalls_eq.trans (Talk.calls_idle _), hshown⟩

def resolveLamp : List (Beat Unit (Act lampServer.keys)) :=
  lampLookups ++ asking ++ nodeBeats ([.finish, .finish, .read, .read, .read, .serve] ++
    List.replicate 4 (.act true)) ++ [.request (), .unroll]

def heedLamp : List (Beat Unit (Act lampServer.keys)) :=
  nodeBeats ([.finish, .act true, .finish] ++ Embassy.switchLamp 0 ++ Embassy.announceLamp) ++
    .request () :: asking ++ nodeBeats ([.read, .read, .read, .serve] ++
      List.replicate 4 (.act true)) ++ [.request ()]

theorem follow_mode_lamp : ∃ h : TerminalRun lampServer Unit,
    Path (terminalStep lampServer Str.empty) (fun _ _ => True)
        (terminalStart lampServer Str.empty lampMemory (runFollowMode lamp.name))
        ((resolveLamp ++ heedLamp).map overNetwork ++ [.request (.terminal .eof)]) h ∧
      h.world.shown = [.printed (.followed (.bool true))] ∧
        FollowsKey lampMemory Str.empty lamp.name h := by
  have hrun : (runLabels (terminalStep lampServer Str.empty)
      (terminalStart lampServer Str.empty lampMemory (runFollowMode lamp.name))
      ((resolveLamp ++ heedLamp).map overNetwork ++ [.request (.terminal .eof)])).map
        (fun h => h.world.shown) = some [.printed (.followed (.bool true))] := by
    decide +kernel
  obtain ⟨h, hh, hshown⟩ := Option.map_eq_some_iff.mp hrun
  have hpath := Path.of_runLabels hh
  exact ⟨h, hpath, hshown, follow_mode lampServer lampServer_distinct Str.empty lampMemory lamp.name
    _ h hpath⟩

end

end Qup.EndToEnd
