import Qup.EndToEnd.Progress
import Qup.Embassy.Stored

/-!
# Client and node agree

Every call that has returned returned what the node decided for the request of
the same position, over every run of a client and a node: any calls, any local
updates, notifications anywhere among the responses.
-/

namespace Qup.EndToEnd
open Foundation Foundation.Utf8 Embassy Link
open Client (Call Answer ClientError ownedValue valueRef)

variable {N : ℕ} {server : Server N} {nodeId : Str}

section
variable {log : List (Event server.keys)}

theorem exchange_at (h : Justified (Allowed server nodeId) log) {i : ℕ} {q : IncomingRequest}
    {f : Frame} (hi : (exchanges log).reverse[i]? = some (q, f)) :
    ∃ newer older, log = newer ++ .sent f :: older ∧ f.IsResponse ∧
      (exchanges older).length = i ∧ pendingRequest older = some q := by
  induction log with
  | nil => simp [exchanges] at hi
  | cons e log ih =>
    have hskip : exchanges (e :: log) = exchanges log →
        ∃ newer older, e :: log = newer ++ .sent f :: older ∧ f.IsResponse ∧
          (exchanges older).length = i ∧ pendingRequest older = some q := by
      intro heq
      rw [heq] at hi
      obtain ⟨newer, older, rfl, hrest⟩ := ih h.2 hi
      exact ⟨e :: newer, older, rfl, hrest⟩
    cases e with
    | sent g =>
      by_cases hg : g.IsResponse
      · have hallowed := h.1
        rw [Allowed, if_pos hg] at hallowed
        obtain ⟨q', hq', -⟩ := hallowed
        rw [exchanges, if_pos hg, hq', List.reverse_cons] at hi
        by_cases hlt : i < (exchanges log).length
        · rw [List.getElem?_append_left (by simpa using hlt)] at hi
          obtain ⟨newer, older, rfl, hrest⟩ := ih h.2 hi
          exact ⟨.sent g :: newer, older, rfl, hrest⟩
        · rw [List.getElem?_append_right (by simpa using hlt), List.length_reverse,
            List.getElem?_singleton] at hi
          split_ifs at hi with h0
          cases hi
          exact ⟨[], log, rfl, hg, by omega, hq'⟩
      · exact hskip (by rw [exchanges, if_neg hg])
    | _ => exact hskip rfl

theorem servedRequests_append (newer older : List (Event server.keys)) :
    servedRequests (newer ++ older) = servedRequests older ++ servedRequests newer := by
  induction newer with
  | nil => simp [servedRequests]
  | cons e newer ih =>
    cases e with
    | served q => simp only [List.cons_append, servedRequests, ih, List.append_assoc]
    | _ => exact ih

theorem served_at {newer older : List (Event server.keys)} {q : IncomingRequest}
    (h : Justified (Allowed server nodeId) (newer ++ older)) (hq : pendingRequest older = some q) :
    (servedRequests (newer ++ older))[(exchanges older).length]? = some q := by
  rw [servedRequests_append, servedRequests_eq h.older, hq]
  simp

theorem exchanges_length_mono (newer older : List (Event server.keys)) :
    (exchanges older).length ≤ (exchanges (newer ++ older)).length := by
  induction newer with
  | nil => exact Nat.le_refl _
  | cons e newer ih =>
    cases e with
    | sent f =>
      rw [List.cons_append, exchanges]
      split_ifs
      · cases pendingRequest (newer ++ older) with
        | some q => exact Nat.le_succ_of_le ih
        | none => exact ih
      · exact ih
    | _ => exact ih

/-- What happened since the pending request was served happened at its position,
and the request has been pending since then. -/
theorem exchanges_of_mem {e : Event server.keys} {q : IncomingRequest}
    (hq : pendingRequest log = some q) (he : e ∈ sinceServed log) :
    ∃ newer older, log = newer ++ e :: older ∧ exchanges older = exchanges log ∧
      ∀ later d between, newer = later ++ d :: between →
        pendingRequest (between ++ e :: older) = some q := by
  induction log with
  | nil => cases he
  | cons d log ih =>
    have htail : exchanges (d :: log) = exchanges log → pendingRequest log = some q →
        e ∈ d :: sinceServed log →
          ∃ newer older, d :: log = newer ++ e :: older ∧ exchanges older = exchanges (d :: log) ∧
            ∀ later d' between, newer = later ++ d' :: between →
              pendingRequest (between ++ e :: older) = some q := by
      intro hsame hpend he
      rcases List.mem_cons.mp he with rfl | he
      · exact ⟨[], log, rfl, hsame.symm, fun later d between h => by simp at h⟩
      · obtain ⟨newer, older, hlog, heq, hpending⟩ := ih hpend he
        refine ⟨d :: newer, older, by rw [hlog, List.cons_append], by rw [heq, hsame], ?_⟩
        intro later d' between h
        cases later with
        | nil =>
          obtain ⟨rfl, rfl⟩ := List.cons.inj h
          exact hlog ▸ hpend
        | cons x later => exact hpending later d' between (List.cons.inj h).2
    cases d with
    | served q' => cases he
    | sent f =>
      rw [pendingRequest] at hq
      split_ifs at hq with hf
      exact htail (by rw [exchanges, if_neg hf]) hq he
    | _ => exact htail rfl hq he

theorem split_of_exchanges_lt {newer older newer' older' : List (Event server.keys)}
    {e : Event server.keys} (hlog : newer ++ e :: older = newer' ++ older')
    (hlt : (exchanges older).length < (exchanges older').length) :
    ∃ between, older' = between ++ e :: older := by
  rcases List.append_eq_append_iff.mp hlog with ⟨mid, -, hmid⟩ | ⟨mid, -, hmid⟩
  · cases mid with
    | nil => exact ⟨[], hmid.symm⟩
    | cons d mid =>
      have holder : older = mid ++ older' := (List.cons.inj hmid).2
      have hle := exchanges_length_mono mid older'
      rw [← holder] at hle
      omega
  · exact ⟨mid, hmid⟩

end

theorem stored_of_path {m₀ : Memory server.keys} {Q : PhaseLink server → Act server.keys → Prop}
    {acts : List (Act server.keys)} {k : PhaseLink server}
    (hrun : Path (Link.step (phases server nodeId)) Q
      (Link.initial (phases server nodeId) m₀) acts k) : Stored m₀ k.node.memory k.node.log := by
  obtain ⟨labels, hnode⟩ := Link.exists_nodePath hrun
  exact PhaseSys.invariant (I := fun c => Stored m₀ c.memory c.log) hnode
    ⟨fun _ => rfl, trivial⟩ fun _ _ h hm => h.move hm

structure Answered (nodeId : Str) (k : PhaseLink server) (i : ℕ) (call : Call)
    (q : IncomingRequest) (f : Frame) (newer older : List (Event server.keys)) : Prop where
  call_eq : k.calls[i]? = some call
  log_eq : k.node.log = newer ++ .sent f :: older
  response : f.IsResponse
  position : (exchanges older).length = i
  pending : pendingRequest older = some q
  request : incoming server.maxStr call.message = some q
  decides : Decides server nodeId older q f
  fits : f.payload.length ≤ 65535

theorem call_at {k : PhaseLink server} (h : Linked nodeId k) {i : ℕ} {q : IncomingRequest}
    (hserved : (servedRequests k.node.log)[i]? = some q) :
    ∃ call, k.calls[i]? = some call ∧ incoming server.maxStr call.message = some q := by
  obtain ⟨rest, hrest⟩ := h.served_eq
  have hincoming : (k.messages.map (incoming server.maxStr))[i]? = some (some q) := by
    rw [← hrest, List.getElem?_append_left]
    · rw [List.getElem?_map, hserved]
      rfl
    · rw [List.length_map]
      exact (List.getElem?_eq_some_iff.mp hserved).1
  rw [messages, List.getElem?_map, List.getElem?_map, Option.map_map,
    Option.map_eq_some_iff] at hincoming
  exact hincoming

/-- A response that the client has read answers the call of the same position. -/
theorem Link.Matched.answered {k : PhaseLink server} (h : Linked nodeId k) {returned : List Call}
    {received queued : List Frame} (hmatched : Matched k returned received queued) {i : ℕ}
    {call : Call} {f : Frame} (hcall : returned[i]? = some call)
    (hf : (responses received)[i]? = some f) :
    ∃ q newer older, Answered nodeId k i call q f newer older := by
  have hjust : Justified (Allowed server nodeId) k.node.log := h.session.justified
  have hcalls : k.calls[i]? = some call := by
    rw [hmatched.calls_eq, List.getElem?_append_left (List.getElem?_eq_some_iff.mp hcall).1, hcall]
  have hresponse : ((exchanges k.node.log).reverse.map Prod.snd)[i]? = some f := by
    rw [← responses_eq hjust]
    change (responses (sentFrames k.node.log))[i]? = some f
    rw [hmatched.sent_eq, responses_append,
      List.getElem?_append_left (List.getElem?_eq_some_iff.mp hf).1, hf]
  rw [List.getElem?_map, Option.map_eq_some_iff] at hresponse
  obtain ⟨⟨q, g⟩, hexchange, rfl⟩ := hresponse
  obtain ⟨newer, older, hlog, hg, hposition, hpending⟩ := exchange_at hjust hexchange
  have hallowed : Allowed server nodeId (.sent g) older := (hlog ▸ hjust).allowed_at
  rw [Allowed, if_pos hg] at hallowed
  obtain ⟨q', hq', hdecides, -, hfits⟩ := hallowed
  rw [hpending] at hq'
  cases hq'
  refine ⟨q, newer, older, hcalls, hlog, hg, hposition, hpending, ?_, hdecides, hfits⟩
  have hlong : Justified (Allowed server nodeId) ((newer ++ [.sent g]) ++ older) := by
    rw [List.append_assoc, List.singleton_append]
    exact hlog ▸ hjust
  have hserved := served_at hlong hpending
  rw [List.append_assoc, List.singleton_append, ← hlog, hposition] at hserved
  obtain ⟨call', hcall', hincoming⟩ := call_at h hserved
  rw [hcalls] at hcall'
  cases hcall'
  exact hincoming

theorem answered_of_result {k : PhaseLink server} (h : Linked nodeId k) {i : ℕ}
    {result : Except ClientError Answer} (hi : k.results[i]? = some result) :
    ∃ call q f newer older, Answered nodeId k i call q f newer older ∧
      result = call.outcome f.bytes := by
  obtain ⟨returned, received, queued, hmatched⟩ := h.matched
  rw [hmatched.results_eq, List.getElem?_zipWith_eq_some] at hi
  obtain ⟨call, f, hcall, hf, rfl⟩ := hi
  obtain ⟨q, newer, older, hanswered⟩ := hmatched.answered h hcall hf
  exact ⟨call, q, f, newer, older, hanswered, rfl⟩

theorem Answered.decided {k : PhaseLink server} (h : Linked nodeId k) {i : ℕ} {call : Call}
    {q : IncomingRequest} {f : Frame} {newer older : List (Event server.keys)}
    (ha : Answered nodeId k i call q f newer older) :
    Decided server nodeId older call (call.outcome f.bytes) := by
  have hjust : Justified (Allowed server nodeId) k.node.log := h.session.justified
  rw [ha.log_eq] at hjust
  exact decided_of_decides hjust.older.2 ha.request ha.decides ha.fits

theorem Decided.written {older : List (Event server.keys)} {r : UInt16} {value : Client.Value}
    {answer : Answer} (h : Decided server nodeId older (.write r value) (.ok answer)) :
    ∃ s w, ¬ server.keyCount ≤ r ∧ server.findSlot r = some s ∧
      .stored .server s w ∈ sinceServed older ∧ value = ownedValue (wireOf w) ∧
        answer = .value value := by
  simp only [Decided] at h
  by_cases hr : server.keyCount ≤ r
  · rw [if_pos hr] at h
    cases h
  · rw [if_neg hr] at h
    cases hs : server.findSlot r with
    | none =>
      rw [hs] at h
      cases h
    | some s =>
      simp only [hs] at h
      by_cases hw : (server.keys s).writable = true
      · rw [if_pos hw] at h
        rcases h with ⟨w, hmem, hvalue, hanswer⟩ | ⟨hanswer, -⟩
        · exact ⟨s, w, hr, rfl, hmem, hvalue, Except.ok.inj hanswer⟩
        · cases hanswer
      · rw [if_neg hw] at h
        cases h

theorem Answered.read {k : PhaseLink server} (h : Linked nodeId k) {i : ℕ} {r : UInt16}
    {q : IncomingRequest} {f : Frame} {newer older : List (Event server.keys)} {s : Fin N}
    (ha : Answered nodeId k i (.get r) q f newer older) (hr : ¬ server.keyCount ≤ r)
    (hs : server.findSlot r = some s) (hread : (server.keys s).readable = true) :
    ∃ x, .readValue s x ∈ sinceServed older ∧
      (Call.get r).outcome f.bytes = .ok (.value (ownedValue (wireOf x))) := by
  have hjust : Justified (Allowed server nodeId) k.node.log := h.session.justified
  rw [ha.log_eq] at hjust
  have hdecided := ha.decided h
  have hdecides := ha.decides
  cases ha.request
  simp only [Decides, if_neg hr, hs, if_pos hread] at hdecides
  simp only [Decided, if_neg hr, hs, if_pos hread] at hdecided
  obtain ⟨x, hx, -⟩ := hdecides
  obtain ⟨x', hx', hresult⟩ := hdecided
  rw [lastRead_of_mem hjust.older.2 hx] at hx'
  cases hx'
  exact ⟨x, hx, hresult⟩

/-- Request `i` has stored a value in slot `s` and request `j` has read the slot;
with no store in between, `result` is the `value` written. -/
def ReadsBack (server : Server N) (log : List (Event server.keys)) (i j : ℕ) (s : Fin N)
    (value : Client.Value) (result : Except ClientError Answer) : Prop :=
  ∃ post x between w pre,
    log = post ++ .readValue s x :: (between ++ .stored .server s w :: pre) ∧
    (exchanges pre).length = i ∧ (exchanges (between ++ .stored .server s w :: pre)).length = j ∧
    ((∀ a v, .stored a s v ∉ between) → result = .ok (.value value))

/-- What a client and a node have agreed on at some moment of a run. -/
structure Agrees (server : Server N) (nodeId : Str) (k : Pair server) : Prop where
  returned : ∀ (i : ℕ) (result : Except ClientError Answer), k.results[i]? = some result →
    ∃ call q f newer older, k.calls[i]? = some call ∧ k.node.log = newer ++ .sent f :: older ∧
      f.IsResponse ∧ (exchanges older).length = i ∧ pendingRequest older = some q ∧
        incoming server.maxStr call.message = some q ∧ Decided server nodeId older call result
  expected : ∀ result ∈ k.results, (∀ request actual,
    result ≠ .error (.unexpectedMessage request actual)) ∧ ∀ e, result ≠ .error (.protocol e)
  echo : ∀ (i : ℕ) (r : UInt16) (value : Client.Value) (answer : Answer),
    k.calls[i]? = some (.write r value) → k.results[i]? = some (.ok answer) →
      answer = .value value
  readBack : ∀ (i j : ℕ) (r : UInt16) (value : Client.Value) (answer : Answer) (s : Fin N)
    (result : Except ClientError Answer), k.calls[i]? = some (.write r value) →
    k.results[i]? = some (.ok answer) → i < j → k.calls[j]? = some (.get r) →
      k.results[j]? = some result → server.findSlot r = some s →
        (server.keys s).readable = true → ReadsBack server k.node.log i j s value result
  canReturn : ∀ call, k.awaiting = some call → ∃ k', Advances nodeId k k' ∧
    (IsStopped k'.node.ctrl ∨ k'.results.length = k.results.length + 1)

theorem readBack_of_answered {m₀ : Memory server.keys} {k : PhaseLink server} (h : Linked nodeId k)
    (hstored : Stored m₀ k.node.memory k.node.log) {i j : ℕ} {r : UInt16} {value : Client.Value}
    {answer : Answer} {s : Fin N} {result : Except ClientError Answer}
    (hcall : k.calls[i]? = some (.write r value)) (hwrite : k.results[i]? = some (.ok answer))
    (hij : i < j) (hget : k.calls[j]? = some (.get r)) (hresult : k.results[j]? = some result)
    (hs : server.findSlot r = some s) (hread : (server.keys s).readable = true) :
    ReadsBack server k.node.log i j s value result := by
  obtain ⟨call, q, f, newer, older, ha, hout⟩ := answered_of_result h hwrite
  obtain rfl : call = .write r value := Option.some.inj (ha.call_eq.symm.trans hcall)
  obtain ⟨call', q', f', newer', older', ha', rfl⟩ := answered_of_result h hresult
  obtain rfl : call' = .get r := Option.some.inj (ha'.call_eq.symm.trans hget)
  have hdecided := ha.decided h
  rw [← hout] at hdecided
  obtain ⟨s', w, hr, hs', hw, hvalue, -⟩ := hdecided.written
  obtain rfl : s = s' := Option.some.inj (hs.symm.trans hs')
  obtain ⟨x, hx, houtcome⟩ := ha'.read h hr hs hread
  obtain ⟨a, pre, hpre, hprelen, -⟩ := exchanges_of_mem ha.pending hw
  obtain ⟨b, rest, hrest, hrestlen, -⟩ := exchanges_of_mem ha'.pending hx
  have hprepos : (exchanges pre).length = i := by rw [hprelen, ha.position]
  have hrestpos : (exchanges rest).length = j := by rw [hrestlen, ha'.position]
  have hreadlog : k.node.log = (newer' ++ .sent f' :: b) ++ .readValue s x :: rest := by
    rw [ha'.log_eq, hrest]
    simp
  have hstorelog : k.node.log = (newer ++ .sent f :: a) ++ .stored .server s w :: pre := by
    rw [ha.log_eq, hpre]
    simp
  have hsplit : (newer ++ .sent f :: a) ++ .stored .server s w :: pre =
      ((newer' ++ .sent f' :: b) ++ [.readValue s x]) ++ rest := by
    rw [← hstorelog, hreadlog]
    simp
  obtain ⟨between, rfl⟩ := split_of_exchanges_lt hsplit (by omega)
  refine ⟨newer' ++ .sent f' :: b, x, between, w, pre, hreadlog, hprepos, hrestpos, fun hno => ?_⟩
  have hvalueAt : x = valueAfter m₀ s (between ++ .stored .server s w :: pre) :=
    (hreadlog ▸ hstored.reads).allowed_at
  rw [valueAfter_stored hno] at hvalueAt
  rw [houtcome, hvalueAt, hvalue]

/-- Client and node agree at every moment of every run. -/
theorem calls_agree (server : Server N) (hdistinct : server.Distinct) (nodeId : Str)
    (memory : Memory server.keys) (acts : List (Act server.keys)) (k : Pair server)
    (hrun : Path (Link.step (programs server nodeId)) (fun _ _ => True)
      (Link.initial (programs server nodeId) memory) acts k) : Agrees server nodeId k := by
  obtain ⟨t, ht, rfl⟩ := exists_phaseLink hrun
  have hlinked := linked_of_path hdistinct ht
  have hstored := stored_of_path ht
  have hreturned : ∀ i result, t.results[i]? = some result → ∃ call q f newer older,
      Answered nodeId t i call q f newer older ∧ Decided server nodeId older call result := by
    intro i result hi
    obtain ⟨call, q, f, newer, older, ha, rfl⟩ := answered_of_result hlinked hi
    exact ⟨call, q, f, newer, older, ha, ha.decided hlinked⟩
  refine ⟨?_, ?_, ?_, ?_, ?_⟩
  · intro i result hi
    obtain ⟨call, q, f, newer, older, ha, hdecided⟩ := hreturned i result hi
    exact ⟨call, q, f, newer, older, ha.call_eq, ha.log_eq, ha.response, ha.position, ha.pending,
      ha.request, hdecided⟩
  · intro result hresult
    obtain ⟨i, hi⟩ := List.mem_iff_getElem?.mp hresult
    obtain ⟨call, q, f, newer, older, -, hdecided⟩ := hreturned i result hi
    exact hdecided.expected
  · intro i r value answer hcall hi
    obtain ⟨call, q, f, newer, older, ha, hdecided⟩ := hreturned i _ hi
    obtain rfl : call = .write r value := Option.some.inj (ha.call_eq.symm.trans hcall)
    obtain ⟨-, -, -, -, -, -, hanswer⟩ := hdecided.written
    exact hanswer
  · intro i j r value answer s result hcall hi hij hget hresult hs hread
    exact readBack_of_answered hlinked hstored hcall hi hij hget hresult hs hread
  · exact fun call hcall => call_can_return hdistinct ⟨t, rfl, hlinked⟩ hcall

def lampCalls : List (Act lampServer.keys) :=
  [.node (.act true), .node .finish, .call (.write 0 (.bool true)), .deliver] ++
    List.replicate 5 (.node .read) ++ [.node .serve] ++ List.replicate 8 (.node (.act true)) ++
    [.node .finish, .node .finish, .receive, .call (.get 0), .deliver] ++
    List.replicate 3 (.node .read) ++ [.node .serve] ++ List.replicate 4 (.node (.act true)) ++
    [.node .finish, .node .finish, .receive]

theorem calls_agree_lamp : ∃ k : Pair lampServer,
    Path (Link.step (programs lampServer Str.empty)) (fun _ _ => True)
        (Link.initial (programs lampServer Str.empty) lampMemory) lampCalls k ∧
      k.calls = [.write 0 (.bool true), .get 0] ∧
      k.results.map Except.toOption = [some (.value (.bool true)), some (.value (.bool true))] ∧
      Agrees lampServer Str.empty k := by
  have hrun : (runLabels (Link.step (programs lampServer Str.empty))
      (Link.initial (programs lampServer Str.empty) lampMemory) lampCalls).map
        (fun k => (k.calls, k.results.map Except.toOption)) =
      some ([.write 0 (.bool true), .get 0],
        [some (.value (.bool true)), some (.value (.bool true))]) := by decide +kernel
  obtain ⟨k, hk, heq⟩ := Option.map_eq_some_iff.mp hrun
  obtain ⟨hcalls, hresults⟩ := Prod.mk.inj heq
  have hpath := Path.of_runLabels hk
  exact ⟨k, hpath, hcalls, hresults,
    calls_agree lampServer lampServer_distinct Str.empty lampMemory _ k hpath⟩

end Qup.EndToEnd
