import Qup.Embassy.Notifications
import Qup.Embassy.Wire

/-!
# Session conformance

The node against the key table it advertises: what a client learns from
`GETKEYTABLEN` and `GETKEY` decides which response each of its requests gets.
`KeyTable.Answers` is the protocol document's view of one request and one
response, and names nothing of the registry.
-/

namespace Qup.Embassy
open Foundation Foundation.Utf8

structure KeyTable where
  count : UInt16
  flags : UInt16 → KeyFlags
  name : UInt16 → Str

def unknownKeyref : UInt8 := 0x01
def notAllowed : UInt8 := 0x02
def typeMismatch : UInt8 := 0x03

def IncomingRequest.successOpcode : IncomingRequest → Opcode
  | .ping => .ok
  | .identify => .identified
  | .getCaps => .caps
  | .getKeytabLen => .keytablen
  | .getKey _ => .key
  | .get _ => .value
  | .write _ _ => .written
  | .observe _ => .ok
  | .unobserve _ => .ok

def IncomingRequest.errorCodes : IncomingRequest → List UInt8
  | .ping | .identify | .getCaps | .getKeytabLen => []
  | .getKey _ | .unobserve _ => [unknownKeyref]
  | .get _ | .observe _ => [unknownKeyref, notAllowed]
  | .write _ _ => [unknownKeyref, notAllowed, typeMismatch]

def KeyTable.Answers (table : KeyTable) (nodeId caps : Str) (request : IncomingRequest)
    (f : Frame) : Prop :=
  match request with
  | .ping => f = okFrame
  | .identify => f = ⟨.identified, str16 nodeId⟩
  | .getCaps => f = ⟨.caps, str16 caps⟩
  | .getKeytabLen => f = ⟨.keytablen, be16 table.count⟩
  | .getKey r =>
    if table.count ≤ r then f = errorFrame unknownKeyref
    else f = ⟨.key, (table.flags r).bits :: str16 (table.name r)⟩
  | .get r =>
    if table.count ≤ r then f = errorFrame unknownKeyref
    else if (table.flags r).isReadable then ∃ v : ValueRef, v.OnWire ∧ f = ⟨.value, v.bytes⟩
    else f = errorFrame notAllowed
  | .write r w =>
    if table.count ≤ r then f = errorFrame unknownKeyref
    else if (table.flags r).isWritable then
      (∃ v : ValueRef, v.OnWire ∧ w = .ofValue v ∧ f = ⟨.written, v.bytes⟩) ∨
        f = errorFrame typeMismatch
    else f = errorFrame notAllowed
  | .observe r =>
    if table.count ≤ r then f = errorFrame unknownKeyref
    else if (table.flags r).isObservable then f = okFrame
    else f = errorFrame notAllowed
  | .unobserve r =>
    if table.count ≤ r then f = errorFrame unknownKeyref else f = okFrame

theorem KeyTable.Answers.listed {table : KeyTable} {nodeId caps : Str} {request : IncomingRequest}
    {f : Frame} (h : table.Answers nodeId caps request f) :
    f.opcode = request.successOpcode ∨ ∃ code ∈ request.errorCodes, f = errorFrame code := by
  cases request with
  | ping | identify | getCaps | getKeytabLen =>
    subst h
    exact Or.inl rfl
  | getKey r =>
    simp only [Answers] at h
    split_ifs at h
    · exact Or.inr ⟨_, by simp [IncomingRequest.errorCodes], h⟩
    · subst h
      exact Or.inl rfl
  | get r =>
    simp only [Answers] at h
    split_ifs at h
    · exact Or.inr ⟨_, by simp [IncomingRequest.errorCodes], h⟩
    · obtain ⟨v, -, rfl⟩ := h
      exact Or.inl rfl
    · exact Or.inr ⟨_, by simp [IncomingRequest.errorCodes], h⟩
  | write r w =>
    simp only [Answers] at h
    split_ifs at h
    · exact Or.inr ⟨_, by simp [IncomingRequest.errorCodes], h⟩
    · rcases h with ⟨v, -, -, rfl⟩ | h
      · exact Or.inl rfl
      · exact Or.inr ⟨_, by simp [IncomingRequest.errorCodes], h⟩
    · exact Or.inr ⟨_, by simp [IncomingRequest.errorCodes], h⟩
  | observe r =>
    simp only [Answers] at h
    split_ifs at h
    · exact Or.inr ⟨_, by simp [IncomingRequest.errorCodes], h⟩
    · subst h
      exact Or.inl rfl
    · exact Or.inr ⟨_, by simp [IncomingRequest.errorCodes], h⟩
  | unobserve r =>
    simp only [Answers] at h
    split_ifs at h
    · exact Or.inr ⟨_, by simp [IncomingRequest.errorCodes], h⟩
    · subst h
      exact Or.inl rfl

variable {N : ℕ} {server : Server N} {nodeId : Str} {log : List (Event server.keys)}
  {request : IncomingRequest} {f : Frame}

def Server.keyTable (server : Server N) : KeyTable where
  count := server.keyCount
  flags r := match server.findSlot r with
    | some i => (server.keys i).perm.keyFlags
    | none => Perm.none.keyFlags
  name r := match server.findSlot r with
    | some i => (server.keys i).name
    | none => Str.empty

theorem Server.keyTable_registered {r : UInt16} {i : Fin N} (h : server.findSlot r = some i) :
    server.keyTable.flags r = (server.keys i).perm.keyFlags ∧
      server.keyTable.name r = (server.keys i).name := by
  simp only [keyTable, h, and_self]

theorem Server.keyTable_void {r : UInt16} (h : server.findSlot r = none) :
    server.keyTable.flags r = Perm.none.keyFlags ∧ server.keyTable.name r = Str.empty := by
  simp only [keyTable, h, and_self]

theorem Decides.answers (h : Decides server nodeId log request f) :
    server.keyTable.Answers nodeId server.caps request f := by
  have hpos : ∀ {r : UInt16}, server.keyCount ≤ r → server.keyTable.count ≤ r := fun hr => hr
  have hneg : ∀ {r : UInt16}, ¬ server.keyCount ≤ r → ¬ server.keyTable.count ≤ r := fun hr => hr
  cases request with
  | ping => exact h
  | identify => exact h.1
  | getCaps => exact h
  | getKeytabLen => exact h
  | getKey r =>
    simp only [Decides] at h
    simp only [KeyTable.Answers]
    split_ifs at h with hr
    · rw [if_pos (hpos hr)]
      exact h
    · rw [if_neg (hneg hr)]
      cases hslot : server.findSlot r with
      | some i =>
        rw [hslot] at h
        rw [(Server.keyTable_registered hslot).1, (Server.keyTable_registered hslot).2]
        exact h
      | none =>
        rw [hslot] at h
        rw [(Server.keyTable_void hslot).1, (Server.keyTable_void hslot).2]
        exact h
  | get r =>
    simp only [Decides] at h
    simp only [KeyTable.Answers]
    split_ifs at h with hr
    · rw [if_pos (hpos hr)]
      exact h
    · rw [if_neg (hneg hr)]
      cases hslot : server.findSlot r with
      | some i =>
        rw [(Server.keyTable_registered hslot).1]
        simp only [hslot] at h
        split_ifs at h with hk
        · rw [if_pos (show (server.keys i).perm.keyFlags.isReadable = true from hk)]
          obtain ⟨v, -, rfl, hv⟩ := h
          exact ⟨_, hv, rfl⟩
        · rw [if_neg (show ¬ (server.keys i).perm.keyFlags.isReadable = true from hk)]
          exact h
      | none =>
        rw [hslot] at h
        rw [(Server.keyTable_void hslot).1]
        exact h
  | write r w =>
    simp only [Decides] at h
    simp only [KeyTable.Answers]
    split_ifs at h with hr
    · rw [if_pos (hpos hr)]
      exact h
    · rw [if_neg (hneg hr)]
      cases hslot : server.findSlot r with
      | some i =>
        rw [(Server.keyTable_registered hslot).1]
        simp only [hslot] at h
        split_ifs at h with hk
        · rw [if_pos (show (server.keys i).perm.keyFlags.isWritable = true from hk)]
          rcases h with ⟨v, -, hw, rfl, hv⟩ | ⟨rfl, -⟩
          · exact Or.inl ⟨_, hv, hw, rfl⟩
          · exact Or.inr rfl
        · rw [if_neg (show ¬ (server.keys i).perm.keyFlags.isWritable = true from hk)]
          exact h
      | none =>
        rw [hslot] at h
        rw [(Server.keyTable_void hslot).1]
        exact h
  | observe r =>
    simp only [Decides] at h
    simp only [KeyTable.Answers]
    split_ifs at h with hr
    · rw [if_pos (hpos hr)]
      exact h
    · rw [if_neg (hneg hr)]
      cases hslot : server.findSlot r with
      | some i =>
        rw [hslot] at h
        rw [(Server.keyTable_registered hslot).1]
        exact h
      | none =>
        rw [hslot] at h
        rw [(Server.keyTable_void hslot).1]
        exact h
  | unobserve r => exact h

theorem servedRequests_eq (h : Justified (Allowed server nodeId) log) :
    servedRequests log =
      (exchanges log).reverse.map Prod.fst ++ (pendingRequest log).toList := by
  induction log with
  | nil => rfl
  | cons e log ih =>
    have hlog := ih h.2
    cases e with
    | served q =>
      have hnone : pendingRequest log = none := h.1
      rw [servedRequests, hlog, hnone]
      simp [exchanges, pendingRequest]
    | sent f =>
      have hallowed := h.1
      rw [Allowed] at hallowed
      rw [servedRequests, exchanges, pendingRequest, hlog]
      · split_ifs at hallowed ⊢ with hf
        · obtain ⟨q, hq, -⟩ := hallowed
          rw [hq]
          simp
        · rfl
      · simp
    | _ => exact hlog

theorem responses_eq (h : Justified (Allowed server nodeId) log) :
    (sentFrames log).filter (fun f => decide f.IsResponse) =
      (exchanges log).reverse.map Prod.snd := by
  induction log with
  | nil => rfl
  | cons e log ih =>
    have hlog := ih h.2
    cases e with
    | sent f =>
      have hallowed := h.1
      rw [Allowed] at hallowed
      rw [sentFrames, List.filter_append, hlog, exchanges]
      split_ifs at hallowed ⊢ with hf
      · obtain ⟨q, hq, -⟩ := hallowed
        rw [hq]
        simp [hf]
      · simp [hf]
    | _ => exact hlog

theorem exchanges_answers (h : Justified (Allowed server nodeId) log) :
    ∀ x ∈ exchanges log, server.keyTable.Answers nodeId server.caps x.1 x.2 := by
  induction log with
  | nil => simp [exchanges]
  | cons e log ih =>
    have hlog := ih h.2
    cases e with
    | sent f =>
      have hallowed := h.1
      rw [Allowed] at hallowed
      rw [exchanges]
      split_ifs at hallowed ⊢ with hf
      · obtain ⟨q, hq, hd, -⟩ := hallowed
        rw [hq]
        intro x hx
        rcases List.mem_cons.mp hx with rfl | hx
        · exact hd.answers
        · exact hlog x hx
      · exact hlog
    | _ => exact hlog

theorem unanswered {newer : List (Event server.keys)} {older : List (Event server.keys)}
    (h : Justified (Allowed server nodeId) (newer ++ older)) {q : IncomingRequest}
    (hq : pendingRequest older = some q) (hno : ∀ g, Event.sent g ∈ newer → ¬ g.IsResponse) :
    pendingRequest (newer ++ older) = some q ∧
      ∀ e ∈ sinceServed older, e ∈ sinceServed (newer ++ older) := by
  induction newer with
  | nil => exact ⟨hq, fun e he => he⟩
  | cons e newer ih =>
    obtain ⟨hpend, hmem⟩ := ih h.2 fun g hg => hno g (List.mem_cons_of_mem _ hg)
    cases e with
    | served q' =>
      have hnone : pendingRequest (newer ++ older) = none := h.1
      rw [hnone] at hpend
      cases hpend
    | sent f =>
      refine ⟨?_, fun e he => List.mem_cons_of_mem _ (hmem e he)⟩
      rw [List.cons_append, pendingRequest, if_neg (hno f List.mem_cons_self), hpend]
    | _ => exact ⟨hpend, fun e he => List.mem_cons_of_mem _ (hmem e he)⟩

def Event.Changes {keys : Fin N → ErasedKey} (i : Fin N) : Event keys → Prop
  | .stored .server j _ => j = i
  | .updated .server j => j = i
  | _ => False

theorem written_of_changes {i : Fin N} {e : Event server.keys}
    {later sinceStore older : List (Event server.keys)}
    (h : Justified (Allowed server nodeId) (later ++ .sent f :: (sinceStore ++ e :: older)))
    (he : e.Changes i) (hf : f.IsResponse)
    (hno : ∀ g, Event.sent g ∈ sinceStore → ¬ g.IsResponse) : f.opcode = .written := by
  have hsent := h.allowed_at
  have hinner : Justified (Allowed server nodeId) (sinceStore ++ e :: older) := h.older.2
  have hchange := hinner.allowed_at
  rw [Allowed, if_pos hf] at hsent
  obtain ⟨q, -, -, hquiet, -⟩ := hsent
  have hpend : ∃ q', pendingRequest (e :: older) = some q' ∧ e ∈ sinceServed (e :: older) := by
    cases e with
    | stored a j v =>
      cases a with
      | server =>
        obtain ⟨r, hr, -⟩ := hchange
        exact ⟨_, hr, List.mem_cons_self⟩
      | update => exact he.elim
    | updated a j =>
      cases a with
      | server =>
        obtain ⟨r, w, hr, -⟩ := hchange
        exact ⟨_, hr, List.mem_cons_self⟩
      | update => exact he.elim
    | _ => exact he.elim
  obtain ⟨q', hq', hmem⟩ := hpend
  have hin := (unanswered hinner hq' hno).2 e hmem
  by_contra hop
  cases e with
  | stored a j v =>
    cases a with
    | server => exact ((hquiet hop) j).1 v hin
    | update => exact he.elim
  | updated a j =>
    cases a with
    | server => exact ((hquiet hop) j).2 hin
    | update => exact he.elim
  | _ => exact he.elim

/-- What one connection of a node has done is what its key table promises. -/
structure Conforms (server : Server N) (nodeId : Str) (s : Connection server) : Prop where
  requests : servedRequests s.log =
    (exchanges s.log).reverse.map Prod.fst ++ (pendingRequest s.log).toList
  responses : (sentFrames s.log).filter (fun f => decide f.IsResponse) =
    (exchanges s.log).reverse.map Prod.snd
  answers : ∀ x ∈ exchanges s.log, server.keyTable.Answers nodeId server.caps x.1 x.2
  listed : ∀ x ∈ exchanges s.log,
    x.2.opcode = x.1.successOpcode ∨ ∃ code ∈ x.1.errorCodes, x.2 = errorFrame code
  changes : ∀ (newer older : List (Event server.keys)) e i, s.log = newer ++ e :: older →
    e.Changes i →
    ∃ w, pendingRequest older = some (.write (server.keys i).keyref w)
  written : ∀ (later sinceStore older : List (Event server.keys)) f e i,
    s.log = later ++ .sent f :: (sinceStore ++ e :: older) → e.Changes i → f.IsResponse →
      (∀ g, Event.sent g ∈ sinceStore → ¬ g.IsResponse) → f.opcode = .written
  wire : (sentFrames s.log).flatMap Frame.bytes <+: s.wire

/-- Every run of every connection conforms. -/
theorem session_conforms (server : Server N) (hdistinct : server.Distinct) (nodeId : Str)
    (memory : Memory server.keys) (labels : List (Label server.keys)) (s : Connection server)
    (hrun : Path (Sys.step (programs server nodeId)) (fun _ _ => True)
      (Sys.initial (programs server nodeId) memory) labels s) : Conforms server nodeId s := by
  have hjust := log_justified hdistinct hrun
  have hanswers := exchanges_answers hjust
  refine ⟨servedRequests_eq hjust, responses_eq hjust, hanswers,
    fun x hx => (hanswers x hx).listed, ?_, ?_, (wire_framed hrun).1⟩
  · intro newer older e i hlog he
    rw [hlog] at hjust
    have hallowed := hjust.allowed_at
    cases e with
    | stored a j v =>
      cases a with
      | server =>
        obtain rfl : j = i := he
        obtain ⟨r, hr, hslot⟩ := hallowed
        exact ⟨_, by rw [hr, Server.findSlot_keyref hslot]⟩
      | update => exact he.elim
    | updated a j =>
      cases a with
      | server =>
        obtain rfl : j = i := he
        obtain ⟨r, w, hr, hslot⟩ := hallowed
        exact ⟨w, by rw [hr, Server.findSlot_keyref hslot]⟩
      | update => exact he.elim
    | _ => exact he.elim
  · intro later sinceStore older f e i hlog he hf hno
    rw [hlog] at hjust
    exact written_of_changes hjust he hf hno

def writeLamp : List (Label lampServer.keys) :=
  .arrive (MessageRef.request (.write 0 (.bool true))).frame :: List.replicate 5 .read ++
    [.serve] ++ List.replicate 8 (.act true) ++ [.finish] ++ List.replicate 4 (.act true) ++
    [.finish]

theorem session_conforms_lamp : ∃ s : Connection lampServer,
    Path (Sys.step (programs lampServer Str.empty)) (fun _ _ => True)
        (Sys.initial (programs lampServer Str.empty) lampMemory)
        ([.act true, .finish] ++ (observeLamp ++ writeLamp)) s ∧
      exchanges s.log = [(.write 0 (.bool true), ⟨.written, [0x01, 0x01]⟩),
        (.observe 0, okFrame)] ∧
      Conforms lampServer Str.empty s := by
  have hrun : (lampRun (observeLamp ++ writeLamp)).map (fun s => exchanges s.log) =
      some [(.write 0 (.bool true), ⟨.written, [0x01, 0x01]⟩), (.observe 0, okFrame)] := by
    decide +kernel
  obtain ⟨s, hs, hex⟩ := Option.map_eq_some_iff.mp hrun
  have hpath := Path.of_runLabels hs
  exact ⟨s, hpath, hex,
    session_conforms lampServer lampServer_distinct Str.empty lampMemory _ s hpath⟩

end Qup.Embassy
