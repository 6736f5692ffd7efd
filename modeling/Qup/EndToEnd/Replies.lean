import Qup.Client.Async
import Qup.Embassy.Conformance

/-!
# A client and a key table

What a client may count on from a node that keeps to its key table, whichever
node it is, and what the client's methods return and send against one. A node
may put notifications anywhere.
-/

namespace Qup.EndToEnd
open Foundation Foundation.Routine Foundation.Utf8
open Embassy (KeyTable unknownKeyref notAllowed typeMismatch)
open Client (Call ClientError KeyInfo Message)
open Client.Async (Op)

structure Profile where
  table : KeyTable
  nodeId : Str
  caps : Str

namespace Profile

/-- The message that a call is answered with. -/
def Replies (profile : Profile) : Call → Message → Prop
  | .ping, m => m = .ok
  | .caps, m => m = .caps profile.caps
  | .identify, m => m = .identified profile.nodeId
  | .keyCount, m => m = .keytabLen profile.table.count
  | .key r, m =>
    if profile.table.count ≤ r then m = .error unknownKeyref
    else m = .key (profile.table.flags r) (profile.table.name r)
  | .get r, m =>
    if profile.table.count ≤ r then m = .error unknownKeyref
    else if (profile.table.flags r).isReadable then ∃ value, m = .value value
    else m = .error notAllowed
  | .write r value, m =>
    if profile.table.count ≤ r then m = .error unknownKeyref
    else if (profile.table.flags r).isWritable then m = .written value ∨ m = .error typeMismatch
    else m = .error notAllowed
  | .observe r, m =>
    if profile.table.count ≤ r then m = .error unknownKeyref
    else if (profile.table.flags r).isObservable then m = .ok
    else m = .error notAllowed
  | .unobserve r, m => m = if profile.table.count ≤ r then .error unknownKeyref else .ok

def Notifies (profile : Profile) (calls : List Call) (r : UInt16) : Prop :=
  r < profile.table.count ∧ (profile.table.flags r).isObservable = true ∧ .observe r ∈ calls

def info (profile : Profile) (n : ℕ) : KeyInfo :=
  ⟨UInt16.ofNat n, profile.table.flags (UInt16.ofNat n), profile.table.name (UInt16.ofNat n)⟩

def keys (profile : Profile) : List KeyInfo := (List.range profile.table.count.toNat).map profile.info

def lookup (profile : Profile) (n : ℕ) : Call × Message :=
  (.key (UInt16.ofNat n),
    .key (profile.table.flags (UInt16.ofNat n)) (profile.table.name (UInt16.ofNat n)))

def lookups (profile : Profile) : List (Call × Message) :=
  (.keyCount, .keytabLen profile.table.count) ::
    (List.range profile.table.count.toNat).map profile.lookup

end Profile

/-- The calls that were answered, with their answers, and the one that is not. -/
structure Talk where
  exchanges : List (Call × Message)
  awaiting : Option Call

namespace Talk

def idle (exchanges : List (Call × Message)) : Talk := ⟨exchanges, none⟩

def calls (talk : Talk) : List Call := talk.exchanges.map Prod.fst ++ talk.awaiting.toList

def hear (talk : Talk) : Except ClientError Message → Talk
  | .ok (.changed _) => talk
  | .ok message => .idle (talk.exchanges ++ talk.awaiting.toList.map fun call => (call, message))
  | .error _ => .idle talk.exchanges

end Talk

/-- One request at a time, and only calls that lead on in `A`. -/
def talking (A : List Call → Prop) : Discipline Op.Res Talk where
  allows
    | talk, .send call => talk.awaiting = none ∧ A (talk.calls ++ [call])
    | _, .nextMessage => True
  next
    | talk, .send call, .ok () => ⟨talk.exchanges, some call⟩
    | talk, .send _, .error _ => talk
    | talk, .nextMessage, reply => talk.hear reply

/-- What a node keeps to: whole messages, an answer only to the call that waits,
and the answer that its table calls for. -/
def Profile.Promises (profile : Profile) (talk : Talk) : (o : Op) → o.Res → Prop
  | .send call, sent => sent = call.method.send.map fun _ => ()
  | .nextMessage, reply =>
    (∃ r, reply = .ok (.changed r) ∧ profile.Notifies talk.calls r) ∨
      ∃ call m, talk.awaiting = some call ∧ reply = .ok m ∧ profile.Replies call m

variable {profile : Profile} {A : List Call → Prop} {done : List (Call × Message)} {α : Type}

@[simp] theorem Talk.calls_idle (done : List (Call × Message)) :
    (Talk.idle done).calls = done.map Prod.fst := List.append_nil _

theorem Profile.Replies.ne_changed {call : Call} {m : Message} (h : profile.Replies call m)
    (r : UInt16) : m ≠ .changed r := by
  rintro rfl
  cases call with
  | ping | caps | identify | keyCount => cases h
  | key r' =>
    simp only [Replies] at h
    split_ifs at h
  | get r' =>
    simp only [Replies] at h
    split_ifs at h
    obtain ⟨value, hv⟩ := h
    cases hv
  | write r' value =>
    simp only [Replies] at h
    split_ifs at h
    rcases h with h | h <;> cases h
  | observe r' =>
    simp only [Replies] at h
    split_ifs at h
  | unobserve r' =>
    simp only [Replies] at h
    split_ifs at h

theorem Talk.hear_other {done : List (Call × Message)} {call : Call} {m : Message}
    (h : ∀ r, m ≠ .changed r) : Talk.hear ⟨done, some call⟩ (.ok m) = .idle (done ++ [(call, m)]) := by
  cases m with
  | changed r => exact absurd rfl (h r)
  | _ => rfl

theorem Profile.mem_keys {key : KeyInfo} (h : key ∈ profile.keys) :
    key.keyref < profile.table.count ∧ key.keyflags = profile.table.flags key.keyref := by
  obtain ⟨n, hn, rfl⟩ := List.mem_map.mp h
  have hcount := profile.table.count.toNat_lt
  have hlt := List.mem_range.mp hn
  refine ⟨?_, rfl⟩
  change UInt16.ofNat n < _
  rw [UInt16.lt_iff_toNat_lt, toNat_ofNat16 (by omega)]
  exact hlt

theorem readRequestResponse_follows {call : Call} :
    Client.Async.readRequestResponse.Follows (talking A) profile.Promises
      (fun talk r => ∃ m, profile.Replies call m ∧ talk = .idle (done ++ [(call, m)]) ∧ r = .ok m)
      ⟨done, some call⟩ := by
  refine .iterate (fun _ talk => talk = ⟨done, some call⟩) rfl ?_
  rintro - talk rfl
  refine ⟨trivial, fun reply hreply => ?_⟩
  rcases hreply with ⟨r, rfl, -⟩ | ⟨call', m, hcall, rfl, hm⟩
  · rfl
  · cases hcall
    have hne := hm.ne_changed
    cases m with
    | changed r => exact absurd rfl (hne r)
    | _ => exact ⟨_, hm, rfl, rfl⟩

def Profile.Returns (profile : Profile) (done : List (Call × Message)) (call : Call)
    (accept : Message → Except ClientError α) (talk : Talk) (r : Except ClientError α) : Prop :=
  (∃ error, call.method.send = .error error ∧ talk = .idle done ∧ r = .error (.io error)) ∨
    ∃ m, profile.Replies call m ∧ talk = .idle (done ++ [(call, m)]) ∧ r = accept m

theorem request_follows {call : Call} (hA : A (done.map Prod.fst ++ [call]))
    (accept : Message → Except ClientError α) :
    (Client.Async.request call accept).Follows (talking A) profile.Promises
      (profile.Returns done call accept) (.idle done) := by
  have hallows : A ((Talk.idle done).calls ++ [call]) := by rwa [Talk.calls_idle]
  refine ⟨⟨rfl, hallows⟩, fun sent hsent => ?_⟩
  change sent = _ at hsent
  subst hsent
  unfold Profile.Returns
  cases hsend : call.method.send with
  | error error => exact .inl ⟨error, rfl, rfl, rfl⟩
  | ok frame =>
    change (Client.Async.readRequestResponse.bind _).Follows (talking A) _ _ ⟨done, some call⟩
    refine .bind (readRequestResponse_follows.mono ?_)
    rintro talk r ⟨m, hm, rfl, rfl⟩
    unfold Routine.AndThen
    cases haccept : accept m with
    | ok answer =>
      simp only [haccept]
      exact .inr ⟨m, hm, rfl, haccept.symm⟩
    | error error =>
      simp only [haccept]
      exact .inr ⟨m, hm, rfl, haccept.symm⟩

theorem exists_frame {call : Call} (h : ∀ r value, call ≠ .write r value) :
    ∃ frame, call.method.send = .ok frame := by
  have hsend := (call.send_ok_iff call.message.frame).mpr
  cases call with
  | write r value => exact absurd rfl (h r value)
  | _ => exact ⟨_, hsend ⟨⟨Call.opcode_legal _, trivial, by
      simp [Call.message, MessageRef.payload, RequestRef.payload]⟩, rfl⟩⟩

theorem request_answered {call : Call} (hA : A (done.map Prod.fst ++ [call]))
    (accept : Message → Except ClientError α) (h : ∀ r value, call ≠ .write r value) :
    (Client.Async.request call accept).Follows (talking A) profile.Promises
      (fun talk r => ∃ m, profile.Replies call m ∧ talk = .idle (done ++ [(call, m)]) ∧ r = accept m)
      (.idle done) := by
  refine (request_follows hA accept).mono fun talk r hr => hr.resolve_left ?_
  rintro ⟨error, herror, -⟩
  obtain ⟨frame, hframe⟩ := exists_frame h
  rw [hframe] at herror
  cases herror

theorem keyCount_follows (hA : A (done.map Prod.fst ++ [.keyCount])) :
    Client.Async.keyCount.Follows (talking A) profile.Promises
    (fun talk r => talk = .idle (done ++ [(.keyCount, .keytabLen profile.table.count)]) ∧
      r = .ok profile.table.count) (.idle done) := by
  refine (request_answered hA _ (fun _ _ h => by cases h)).mono ?_
  rintro talk r ⟨m, rfl, rfl, rfl⟩
  exact ⟨rfl, rfl⟩

theorem Profile.not_count_le {n : ℕ} (hn : n < profile.table.count.toNat) :
    ¬ profile.table.count ≤ UInt16.ofNat n := by
  have hcount := profile.table.count.toNat_lt
  rw [UInt16.le_iff_toNat_le, toNat_ofNat16 (by omega)]
  omega

theorem key_follows {n : ℕ} (hn : n < profile.table.count.toNat)
    (hA : A (done.map Prod.fst ++ [.key (UInt16.ofNat n)])) :
    (Client.Async.key (UInt16.ofNat n)).Follows (talking A) profile.Promises
      (fun talk r => talk = .idle (done ++ [profile.lookup n]) ∧ r = .ok (profile.info n))
      (.idle done) := by
  refine (request_answered hA _ (fun _ _ h => by cases h)).mono ?_
  rintro talk r ⟨m, hm, rfl, rfl⟩
  rw [Profile.Replies, if_neg (Profile.not_count_le hn)] at hm
  subst hm
  exact ⟨rfl, rfl⟩

theorem keysOf_follows {ns : List ℕ} (hns : ∀ n ∈ ns, n < profile.table.count.toNat)
    (hA : ∀ some, some <+: (ns.map profile.lookup).map Prod.fst → A (done.map Prod.fst ++ some)) :
    (Client.Async.keysOf ns).Follows (talking A) profile.Promises
      (fun talk r => talk = .idle (done ++ ns.map profile.lookup) ∧ r = .ok (ns.map profile.info))
      (.idle done) := by
  induction ns generalizing done with
  | nil => exact ⟨by rw [List.map_nil, List.append_nil], rfl⟩
  | cons n ns ih =>
    have hfirst : A (done.map Prod.fst ++ [.key (UInt16.ofNat n)]) := hA _ ⟨_, rfl⟩
    have hothers : ∀ some, some <+: (ns.map profile.lookup).map Prod.fst →
        A ((done ++ [profile.lookup n]).map Prod.fst ++ some) := by
      intro some hsome
      rw [List.map_append, List.append_assoc]
      exact hA _ ((List.prefix_append_right_inj _).mpr hsome)
    unfold Client.Async.keysOf
    refine .bind ((key_follows (hns n List.mem_cons_self) hfirst).mono ?_)
    rintro talk r ⟨rfl, rfl⟩
    refine .bind ((ih (fun m hm => hns m (List.mem_cons_of_mem _ hm)) hothers).mono ?_)
    rintro talk r ⟨rfl, rfl⟩
    exact ⟨by rw [List.map_cons, List.append_assoc, List.singleton_append], rfl⟩

theorem listKeys_follows
    (hA : ∀ some, some <+: profile.lookups.map Prod.fst → A (done.map Prod.fst ++ some)) :
    Client.Async.listKeys.Follows (talking A) profile.Promises
      (fun talk r => talk = .idle (done ++ profile.lookups) ∧ r = .ok profile.keys)
      (.idle done) := by
  unfold Client.Async.listKeys
  refine .bind ((keyCount_follows (hA [.keyCount] ⟨_, rfl⟩)).mono ?_)
  rintro talk r ⟨rfl, rfl⟩
  refine (keysOf_follows (fun n hn => List.mem_range.mp hn) fun some hsome => ?_).mono ?_
  · rw [List.map_append, List.append_assoc]
    exact hA _ ((List.prefix_append_right_inj _).mpr hsome)
  · rintro talk r ⟨rfl, rfl⟩
    exact ⟨by rw [Profile.lookups, List.append_assoc, List.singleton_append], rfl⟩

def Profile.callsByName (profile : Profile) (name : Str) (call : UInt16 → Call) : List Call :=
  profile.lookups.map Prod.fst ++
    ((Client.Async.select name profile.keys).toOption.map fun key => call key.keyref).toList

def Profile.ReturnsByName (profile : Profile) (done : List (Call × Message)) (name : Str)
    (call : UInt16 → Call) (accept : UInt16 → Message → Except ClientError α) (talk : Talk)
    (r : Except Client.Async.Error α) : Prop :=
  match Client.Async.select name profile.keys with
  | .error error => talk = .idle (done ++ profile.lookups) ∧ r = .error error
  | .ok key => ∃ r', r = r'.mapError .client ∧
      profile.Returns (done ++ profile.lookups) (call key.keyref) (accept key.keyref) talk r'

theorem resolveKeyrefByName_follows (name : Str)
    (hA : ∀ some, some <+: profile.lookups.map Prod.fst → A (done.map Prod.fst ++ some)) :
    (Client.Async.resolveKeyrefByName name).Follows (talking A) profile.Promises
      (fun talk r => talk = .idle (done ++ profile.lookups) ∧
        r = (Client.Async.select name profile.keys).map KeyInfo.keyref) (.idle done) := by
  refine .bind (.mapError ((listKeys_follows hA).mono ?_))
  rintro talk r ⟨rfl, rfl⟩
  dsimp only [Except.mapError, Routine.AndThen]
  cases Client.Async.select name profile.keys with
  | error error => exact ⟨rfl, rfl⟩
  | ok key => exact ⟨rfl, rfl⟩

theorem byName_follows (name : Str) (call : UInt16 → Call)
    (accept : UInt16 → Message → Except ClientError α)
    (hA : ∀ some, some <+: profile.callsByName name call → A (done.map Prod.fst ++ some)) :
    (Client.Async.byName name fun r => Client.Async.request (call r) (accept r)).Follows (talking A)
      profile.Promises (profile.ReturnsByName done name call accept) (.idle done) := by
  have hlookups : ∀ some, some <+: profile.lookups.map Prod.fst → A (done.map Prod.fst ++ some) :=
    fun some hsome => hA some (hsome.trans (List.prefix_append _ _))
  refine .bind ((resolveKeyrefByName_follows name hlookups).mono ?_)
  rintro talk r ⟨rfl, rfl⟩
  unfold Profile.ReturnsByName
  cases hselect : Client.Async.select name profile.keys with
  | error error => exact ⟨rfl, rfl⟩
  | ok key =>
    have hcall : A ((done ++ profile.lookups).map Prod.fst ++ [call key.keyref]) := by
      rw [List.map_append, List.append_assoc]
      exact hA _ (by rw [Profile.callsByName, hselect]; exact List.prefix_rfl)
    refine .mapError ((request_follows hcall (accept key.keyref)).mono ?_)
    exact fun talk r hr => ⟨r, rfl, hr⟩

end Qup.EndToEnd
