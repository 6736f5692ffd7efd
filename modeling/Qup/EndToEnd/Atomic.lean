import Qup.EndToEnd.Calls
import Qup.Foundation.Sampling

/-!
# Keys are atomic registers

Over channels of whole frames: a `GET` that succeeds has read its key at one moment
between its call and its return, and a `WRITE` that succeeds has stored its value at
one. Nothing else that a client does stores anything. The moments are in the order of
the calls: at that of a call the requests of all calls before it have been answered.
-/

namespace Qup.EndToEnd
open Foundation Foundation.Utf8 Embassy Link
open Client (Call Answer ClientError ownedValue)

variable {N : ℕ} {server : Server N} {nodeId : Str} {m₀ : Memory server.keys}

section
variable {newer older : List (Event server.keys)}

theorem exchanges_lt_of_answered {q : IncomingRequest} (hq : pendingRequest older = some q)
    (hnone : pendingRequest (newer ++ older) = none) :
    (exchanges older).length < (exchanges (newer ++ older)).length := by
  induction newer with
  | nil =>
    rw [List.nil_append, hq] at hnone
    cases hnone
  | cons e newer ih =>
    cases hpend : pendingRequest (newer ++ older) with
    | none => exact Nat.lt_of_lt_of_le (ih hpend) (exchanges_length_mono [e] (newer ++ older))
    | some q' =>
      cases e with
      | sent f =>
        by_cases hf : f.IsResponse
        · rw [List.cons_append, exchanges, if_pos hf, hpend]
          exact Nat.lt_succ_of_le (exchanges_length_mono newer older)
        · rw [List.cons_append, pendingRequest, if_neg hf, hpend] at hnone
          cases hnone
      | served request => cases hnone
      | _ =>
        rw [List.cons_append, pendingRequest, hpend] at hnone
        · cases hnone
        · intro request h
          cases h
        · intro f h
          cases h

/-- What happened at the position of the pending request happened since it was served. -/
theorem mem_sinceServed_of_length {e : Event server.keys} {q : IncomingRequest}
    (h : Justified (Allowed server nodeId) (newer ++ e :: older)) (he : ∀ q, e ≠ .served q)
    (hq : pendingRequest (e :: older) = some q)
    (hlen : (exchanges (newer ++ e :: older)).length ≤ (exchanges (e :: older)).length) :
    e ∈ sinceServed (newer ++ e :: older) := by
  induction newer with
  | nil =>
    cases e with
    | served request => exact absurd rfl (he request)
    | _ => exact List.mem_cons_self
  | cons d newer ih =>
    have hshorter := exchanges_length_mono [d] (newer ++ e :: older)
    have hmem := ih h.2 (hshorter.trans hlen)
    cases d with
    | served request =>
      have hlt := exchanges_lt_of_answered hq h.1
      exact absurd hlen (Nat.not_le_of_lt hlt)
    | _ => exact List.mem_cons_of_mem _ hmem

end

theorem served_length_le {k : PhaseLink server} (h : Linked nodeId k) :
    (servedRequests k.node.log).length ≤ k.calls.length := by
  obtain ⟨rest, hrest⟩ := h.served_eq
  have hlength := congrArg List.length hrest
  simp only [List.length_append, List.length_map, Link.messages] at hlength
  omega

theorem suffix_of_position {k₁ k : PhaseLink server} (h₁ : Linked nodeId k₁) (h : Linked nodeId k)
    {more newer older : List (Event server.keys)} {q : IncomingRequest}
    (hgrown : k.node.log = more ++ k₁.node.log) (hlog : k.node.log = newer ++ older)
    (hq : pendingRequest older = some q) (hcalled : k₁.calls.length ≤ (exchanges older).length) :
    k₁.node.log <:+ older := by
  have hjust : Justified (Allowed server nodeId) k.node.log := h.session.justified
  rcases List.suffix_or_suffix_of_suffix ⟨more, hgrown.symm⟩ ⟨newer, hlog.symm⟩ with hsuffix | hsuffix
  · exact hsuffix
  · obtain ⟨between, hbetween⟩ := hsuffix
    have hserved := served_length_le h₁
    rw [← hbetween, servedRequests_append, List.length_append,
      servedRequests_eq (hlog ▸ hjust).older, hq] at hserved
    simp only [List.length_append, List.length_map, List.length_reverse, Option.toList_some,
      List.length_singleton] at hserved
    omega

theorem read_of_result {k : PhaseLink server} (h : Linked nodeId k)
    (hstored : Stored m₀ k.node.memory k.node.log) {j : ℕ} {r : UInt16} {value : Client.Value}
    (hcall : k.calls[j]? = some (.get r)) (hresult : k.results[j]? = some (.ok (.value value))) :
    ∃ i newer older q, server.findSlot r = some i ∧ k.node.log = newer ++ older ∧
      (exchanges older).length = j ∧ pendingRequest older = some q ∧
        value = ownedValue (wireOf (valueAfter m₀ i older)) := by
  obtain ⟨call, q, f, newer, older, ha, hout⟩ := answered_of_result h hresult
  obtain rfl : call = .get r := Option.some.inj (ha.call_eq.symm.trans hcall)
  have hdecided := ha.decided h
  rw [← hout] at hdecided
  simp only [Decided] at hdecided
  split_ifs at hdecided with hr
  split at hdecided
  · rename_i i hi
    split_ifs at hdecided with hread
    obtain ⟨x, hx, houtcome⟩ := ha.read h hr hi hread
    obtain ⟨since, rest, hrest, hposition, -⟩ := exchanges_of_mem ha.pending hx
    have hlog : k.node.log = (newer ++ .sent f :: since) ++ .readValue i x :: rest := by
      rw [ha.log_eq, hrest]
      simp
    have hvalue : x = valueAfter m₀ i rest := (hlog ▸ hstored.reads).allowed_at
    have hjust : Justified (Allowed server nodeId) k.node.log := h.session.justified
    obtain ⟨-, r', hpending, -⟩ := (hlog ▸ hjust).allowed_at
    have hsplit : k.node.log = ((newer ++ .sent f :: since) ++ [.readValue i x]) ++ rest := by
      rw [hlog, List.append_assoc _ [_], List.singleton_append]
    refine ⟨i, _, rest, _, hi, hsplit, hposition ▸ ha.position, hpending, ?_⟩
    rw [houtcome] at hout
    rw [← hvalue]
    exact Answer.value.inj (Except.ok.inj hout)
  · cases hdecided

theorem store_of_result {k : PhaseLink server} (h : Linked nodeId k) {j : ℕ} {r : UInt16}
    {value : Client.Value} {answer : Answer} (hcall : k.calls[j]? = some (.write r value))
    (hresult : k.results[j]? = some (.ok answer)) :
    ∃ (i : Fin N) (v : (server.keys i).type.Value) (newer older : List (Event server.keys))
      (q : IncomingRequest), server.findSlot r = some i ∧
        k.node.log = newer ++ .stored .server i v :: older ∧ (exchanges older).length = j ∧
          pendingRequest older = some q ∧ value = ownedValue (wireOf v) := by
  obtain ⟨call, q, f, newer, older, ha, hout⟩ := answered_of_result h hresult
  obtain rfl : call = .write r value := Option.some.inj (ha.call_eq.symm.trans hcall)
  have hdecided := ha.decided h
  rw [← hout] at hdecided
  obtain ⟨i, v, -, hi, hv, hvalue, -⟩ := hdecided.written
  obtain ⟨since, rest, hrest, hposition, -⟩ := exchanges_of_mem ha.pending hv
  have hlog : k.node.log = (newer ++ .sent f :: since) ++ .stored .server i v :: rest := by
    rw [ha.log_eq, hrest]
    simp
  have hjust : Justified (Allowed server nodeId) k.node.log := h.session.justified
  obtain ⟨r', hpending, -⟩ := (hlog ▸ hjust).allowed_at
  exact ⟨i, v, _, rest, _, hi, hlog, hposition ▸ ha.position, hpending, hvalue⟩

theorem ofValue_wireOf {i : Fin N} {v : (server.keys i).type.Value} {value : Client.Value}
    (h : wireValue server.maxStr (Client.valueRef value) = .ofValue (wireOf v)) :
    value = ownedValue (wireOf v) := by
  rw [← wireValue_eq_ofValue h, Client.ownedValue_valueRef]

theorem Answered.succeeds {k : PhaseLink server} {j : ℕ} {call : Call} {q : IncomingRequest}
    {f : Frame} {newer older : List (Event server.keys)}
    (ha : Answered nodeId k j call q f newer older) (hwritten : f.opcode = .written) {r : UInt16}
    {value : Client.Value} (hcall : call = .write r value) :
    ∃ answer, call.outcome f.bytes = .ok answer := by
  subst hcall
  have herror : ∀ code, f ≠ errorFrame code := by
    rintro code rfl
    cases hwritten
  have hdecides := ha.decides
  cases ha.request
  simp only [Decides] at hdecides
  split_ifs at hdecides
  · exact absurd hdecides (herror _)
  · split at hdecides
    · rename_i i hi
      split_ifs at hdecides
      · rcases hdecides with ⟨v, -, -, hf, hwire⟩ | ⟨hf, -⟩
        · obtain rfl : f = responseFrame (.ordinaryResponse (.written (wireOf v))) := hf
          exact ⟨_, Call.outcome_frame _ ⟨ordinary_legal _, hwire, ha.fits⟩⟩
        · exact absurd hf (herror _)
      · exact absurd hdecides (herror _)
    · exact absurd hdecides (herror _)

theorem write_of_store {k : PhaseLink server} (h : Linked nodeId k)
    {newer older : List (Event server.keys)} {i : Fin N} {v : (server.keys i).type.Value}
    (hlog : k.node.log = newer ++ .stored .server i v :: older) :
    (∃ r, k.calls[(exchanges older).length]? = some (.write r (ownedValue (wireOf v))) ∧
      server.findSlot r = some i) ∧
        ∀ e, k.results[(exchanges older).length]? ≠ some (.error e) := by
  have hjust : Justified (Allowed server nodeId) k.node.log := h.session.justified
  obtain ⟨r, hpending, hslot⟩ := (hlog ▸ hjust).allowed_at
  have hcalled : k.calls[(exchanges older).length]? =
      some (.write r (ownedValue (wireOf v))) := by
    have hsplit : k.node.log = (newer ++ [.stored .server i v]) ++ older := by
      rw [hlog, List.append_assoc, List.singleton_append]
    have hserved := served_at (hsplit ▸ hjust) hpending
    rw [← hsplit] at hserved
    obtain ⟨call, hcall, hincoming⟩ := call_at h hserved
    cases call with
    | write r' value =>
      obtain ⟨rfl, hvalue⟩ := IncomingRequest.write.inj (Option.some.inj hincoming)
      rwa [ofValue_wireOf hvalue] at hcall
    | _ => cases hincoming
  refine ⟨⟨r, hcalled, hslot⟩, fun e hresult => ?_⟩
  obtain ⟨call, q, f, newer', older', ha, hout⟩ := answered_of_result h hresult
  obtain rfl := Option.some.inj (ha.call_eq.symm.trans hcalled)
  have hrefused : f.opcode ≠ .written := by
    intro hwritten
    obtain ⟨answer, hanswer⟩ := ha.succeeds hwritten rfl
    rw [hanswer] at hout
    cases hout
  -- then the handler has stored nothing since the request was served
  have hallowed : Allowed server nodeId (.sent f) older' := (ha.log_eq ▸ hjust).allowed_at
  rw [Allowed, if_pos ha.response] at hallowed
  obtain ⟨-, -, -, hquiet, -⟩ := hallowed
  have hsame : newer ++ .stored .server i v :: older = newer' ++ .sent f :: older' :=
    hlog.symm.trans ha.log_eq
  have hlonger : (exchanges older).length < (exchanges (.sent f :: older')).length := by
    rw [exchanges, if_pos ha.response, ha.pending, List.length_cons, ha.position]
    exact Nat.lt_succ_self _
  obtain ⟨between, hbetween⟩ := split_of_exchanges_lt hsame hlonger
  cases between with
  | nil => cases hbetween
  | cons d between =>
    have holder : older' = between ++ .stored .server i v :: older := (List.cons.inj hbetween).2
    have hquiet' := hquiet hrefused
    have hposition := ha.position
    rw [holder] at hquiet' hposition
    have hjust' : Justified (Allowed server nodeId) (between ++ .stored .server i v :: older) :=
      holder ▸ (ha.log_eq ▸ hjust).older.2
    exact (hquiet' i).1 v
      (mem_sinceServed_of_length hjust' (fun _ h => by cases h) hpending hposition.le)

section
variable {log newer older newer' older' : List (Event server.keys)} {i i' : Fin N}
  {v : (server.keys i).type.Value} {v' : (server.keys i').type.Value}

theorem position_lt_of_stores (hjust : Justified (Allowed server nodeId) log)
    (honce : Justified StoredOnce log) (hlog : log = newer ++ .stored .server i v :: older)
    (hsplit : older = newer' ++ .stored .server i' v' :: older') :
    (exchanges older').length < (exchanges older).length := by
  by_contra hle
  have hunstored : Unstored older := (hlog ▸ honce).allowed_at
  obtain ⟨r, hpending, -⟩ := (hsplit ▸ (hlog ▸ hjust).older.2).allowed_at
  rw [hsplit] at hunstored hle
  exact hunstored i' v' (mem_sinceServed_of_length (hsplit ▸ (hlog ▸ hjust).older.2)
    (fun _ h => by cases h) hpending (Nat.le_of_not_lt hle))

theorem store_unique (hjust : Justified (Allowed server nodeId) log)
    (honce : Justified StoredOnce log) (hlog : log = newer ++ .stored .server i v :: older)
    (hlog' : log = newer' ++ .stored .server i' v' :: older')
    (hposition : (exchanges older).length = (exchanges older').length) : older = older' := by
  rcases List.append_eq_append_iff.mp (hlog.symm.trans hlog') with ⟨mid, -, hmid⟩ | ⟨mid, -, hmid⟩
  · cases mid with
    | nil => exact (List.cons.inj hmid).2
    | cons d mid =>
      have hlt := position_lt_of_stores hjust honce hlog (List.cons.inj hmid).2
      omega
  · cases mid with
    | nil => exact ((List.cons.inj hmid).2).symm
    | cons d mid =>
      have hlt := position_lt_of_stores hjust honce hlog' (List.cons.inj hmid).2
      omega

end

/-- The values that a key has held, in order. -/
def held (memory : Memory server.keys) (i : Fin N) :
    List (Event server.keys) → List (server.keys i).type.Value
  | [] => [memory.value i]
  | .stored _ j v :: log =>
    if h : j = i then held memory i log ++ [h ▸ v] else held memory i log
  | _ :: log => held memory i log

theorem held_older (m₀ : Memory server.keys) (i : Fin N) (newer older : List (Event server.keys)) :
    held m₀ i older <+: held m₀ i (newer ++ older) := by
  induction newer with
  | nil => exact List.prefix_rfl
  | cons e newer ih =>
    cases e with
    | stored actor j v =>
      rw [List.cons_append, held]
      split_ifs
      · exact ih.trans (List.prefix_append _ _)
      · exact ih
    | _ => exact ih

theorem getLast?_held (m₀ : Memory server.keys) (i : Fin N) (log : List (Event server.keys)) :
    (held m₀ i log).getLast? = some (valueAfter m₀ i log) := by
  induction log with
  | nil => rfl
  | cons e log ih =>
    cases e with
    | stored actor j v =>
      rw [held, valueAfter]
      split_ifs
      · exact List.getLast?_concat
      · exact ih
    | _ => exact ih

theorem getElem?_held (i : Fin N) (newer older : List (Event server.keys)) :
    (held m₀ i (newer ++ older))[(held m₀ i older).length - 1]? = some (valueAfter m₀ i older) := by
  obtain ⟨later, hlater⟩ := held_older m₀ i newer older
  have hlast := getLast?_held m₀ i older
  rw [List.getLast?_eq_getElem?] at hlast
  rw [← hlater, List.getElem?_append_left (List.getElem?_eq_some_iff.mp hlast).1, hlast]

def valueOf : Except ClientError Answer → Option Client.Value
  | .ok (.value value) => some value
  | _ => none

theorem valueOf_eq_some {result : Except ClientError Answer} {value : Client.Value}
    (h : valueOf result = some value) : result = .ok (.value value) := by
  cases result with
  | error e => cases h
  | ok answer =>
    cases answer with
    | value v => exact congrArg (fun v => Except.ok (Answer.value v)) (Option.some.inj h)
    | _ => cases h

/-- Where a client reads one key only, it reads what the key has held, in order. -/
theorem reads_sampled {k : PhaseLink server} (h : Linked nodeId k)
    (hstored : Stored m₀ k.node.memory k.node.log) {i : Fin N}
    (hcalls : ∀ (j : ℕ) (v : Client.Value), k.results[j]? = some (.ok (.value v)) →
      ∃ r, k.calls[j]? = some (.get r) ∧ server.findSlot r = some i) :
    Sampled ((held m₀ i k.node.log).map fun v => ownedValue (wireOf v))
      (k.results.filterMap valueOf) := by
  have hread : ∀ (j : ℕ) (x : Except ClientError Answer) (v : Client.Value),
      k.results[j]? = some x → valueOf x = some v →
        ∃ t, (∃ newer older, k.node.log = newer ++ older ∧ (exchanges older).length = j ∧
          t = (held m₀ i older).length - 1) ∧
            ((held m₀ i k.node.log).map fun v => ownedValue (wireOf v))[t]? = some v := by
    intro j x v hx hv
    obtain rfl := valueOf_eq_some hv
    obtain ⟨r, hcall, hslot⟩ := hcalls j v hx
    obtain ⟨i', newer, older, q, hi', hlog, hposition, -, hvalue⟩ := read_of_result h hstored hcall hx
    obtain rfl : i = i' := Option.some.inj (hslot.symm.trans hi')
    refine ⟨_, ⟨newer, older, hlog, hposition, rfl⟩, ?_⟩
    rw [List.getElem?_map, hlog, getElem?_held, hvalue]
    rfl
  refine .of_entries hread ?_
  rintro j j' t t' hlt ⟨newer, older, hlog, hposition, rfl⟩ ⟨newer', older', hlog', hposition', rfl⟩
  rcases List.suffix_or_suffix_of_suffix ⟨newer, hlog.symm⟩ ⟨newer', hlog'.symm⟩ with hsuffix | hsuffix
  · obtain ⟨between, rfl⟩ := hsuffix
    have hle := (held_older m₀ i between older).length_le
    omega
  · obtain ⟨between, rfl⟩ := hsuffix
    have hle := exchanges_length_mono between older'
    omega

/-- What has taken effect between two moments of a run, at which the client and the
node were in `k₁` and `k`. -/
structure Linearizes (memory : Memory server.keys) (k₁ k : Pair server) : Prop where
  reads : ∀ (j : ℕ) (r : UInt16) (value : Client.Value), k₁.calls.length ≤ j →
    k.calls[j]? = some (.get r) → k.results[j]? = some (.ok (.value value)) →
      ∃ i newer older, server.findSlot r = some i ∧ k.node.log = newer ++ older ∧
        k₁.node.log <:+ older ∧ (exchanges older).length = j ∧
          value = ownedValue (wireOf (valueAfter memory i older))
  writes : ∀ (j : ℕ) (r : UInt16) (value : Client.Value) (answer : Answer), k₁.calls.length ≤ j →
    k.calls[j]? = some (.write r value) → k.results[j]? = some (.ok answer) →
      ∃ (i : Fin N) (v : (server.keys i).type.Value) (newer older : List (Event server.keys)),
        server.findSlot r = some i ∧ k.node.log = newer ++ .stored .server i v :: older ∧
          k₁.node.log <:+ older ∧ (exchanges older).length = j ∧ value = ownedValue (wireOf v)
  stores : ∀ (newer : List (Event server.keys)) (i : Fin N) (v : (server.keys i).type.Value)
    (older : List (Event server.keys)), k.node.log = newer ++ .stored .server i v :: older →
      (∃ r, k.calls[(exchanges older).length]? = some (.write r (ownedValue (wireOf v))) ∧
        server.findSlot r = some i) ∧
          ∀ e, k.results[(exchanges older).length]? ≠ some (.error e)
  once : ∀ (newer newer' older older' : List (Event server.keys)) (i i' : Fin N)
    (v : (server.keys i).type.Value) (v' : (server.keys i').type.Value),
      k.node.log = newer ++ .stored .server i v :: older →
      k.node.log = newer' ++ .stored .server i' v' :: older' →
        (exchanges older).length = (exchanges older').length → older = older'

theorem calls_linearize (server : Server N) (hdistinct : server.Distinct) (nodeId : Str)
    (memory : Memory server.keys) (acts acts' : List (Act server.keys)) (k₁ k : Pair server)
    (hcalled : Path (Link.step (programs server nodeId)) (fun _ _ => True)
      (Link.initial (programs server nodeId) memory) acts k₁)
    (hreturned : Path (Link.step (programs server nodeId)) (fun _ _ => True) k₁ acts' k) :
    Linearizes memory k₁ k := by
  obtain ⟨t₁, ht₁, rfl⟩ := exists_phaseLink hcalled
  obtain ⟨t, ht, rfl⟩ := hreturned.lift (Link.step_map (phasesHom server nodeId))
  have hpath := ht₁.trans (ht.mono fun _ _ _ => trivial)
  have h₁ := linked_of_path hdistinct ht₁
  have h := linked_of_path hdistinct hpath
  have hstored := stored_of_path hpath
  have hjust : Justified (Allowed server nodeId) t.node.log := h.session.justified
  obtain ⟨labels, hnode⟩ := Link.exists_nodePath hpath
  have honce := once_of_path hnode
  obtain ⟨more, hgrown⟩ : ∃ more, t.node.log = more ++ t₁.node.log := by
    refine ht.invariant (fun u => ∃ more, u.node.log = more ++ t₁.node.log) ⟨[], rfl⟩ ?_
    rintro u a v ⟨more, hu⟩ - hs
    obtain ⟨newer, hv⟩ := Link.log_grows hs
    exact ⟨newer ++ more, by rw [hv, hu, List.append_assoc]⟩
  refine ⟨?_, ?_, ?_, ?_⟩
  · intro j r value hj hcall hresult
    obtain ⟨i, newer, older, q, hi, hlog, rfl, hq, hvalue⟩ := read_of_result h hstored hcall hresult
    exact ⟨i, newer, older, hi, hlog, suffix_of_position h₁ h hgrown hlog hq hj, rfl, hvalue⟩
  · intro j r value answer hj hcall hresult
    obtain ⟨i, v, newer, older, q, hi, hlog, rfl, hq, hvalue⟩ := store_of_result h hcall hresult
    have hsplit : t.node.log = (newer ++ [.stored .server i v]) ++ older := by
      rw [hlog, List.append_assoc, List.singleton_append]
    exact ⟨i, v, newer, older, hi, hlog, suffix_of_position h₁ h hgrown hsplit hq hj, rfl, hvalue⟩
  · exact fun newer i v older hlog => write_of_store h hlog
  · exact fun _ _ _ _ _ _ _ _ hlog hlog' => store_unique hjust honce hlog hlog'

theorem calls_linearize_lamp : ∃ k₁ k : Pair lampServer,
    Path (Link.step (programs lampServer Str.empty)) (fun _ _ => True)
        (Link.initial (programs lampServer Str.empty) lampMemory) (lampCalls.take 21) k₁ ∧
      Path (Link.step (programs lampServer Str.empty)) (fun _ _ => True) k₁ (lampCalls.drop 21) k ∧
        k₁.results.length = 1 ∧ k.results.length = 2 ∧ Linearizes lampMemory k₁ k := by
  have hrun : ((runLabels (Link.step (programs lampServer Str.empty))
      (Link.initial (programs lampServer Str.empty) lampMemory) (lampCalls.take 21)).bind
        fun k₁ => (runLabels (Link.step (programs lampServer Str.empty)) k₁
          (lampCalls.drop 21)).map fun k => (k₁.results.length, k.results.length)) =
      some (1, 2) := by decide +kernel
  obtain ⟨k₁, hk₁, hrest⟩ := Option.bind_eq_some_iff.mp hrun
  obtain ⟨k, hk, hlengths⟩ := Option.map_eq_some_iff.mp hrest
  obtain ⟨hone, htwo⟩ := Prod.mk.inj hlengths
  have hcalled := Path.of_runLabels hk₁
  have hreturned := Path.of_runLabels hk
  exact ⟨k₁, k, hcalled, hreturned, hone, htwo, calls_linearize lampServer lampServer_distinct
    Str.empty lampMemory _ _ k₁ k hcalled hreturned⟩

end Qup.EndToEnd
