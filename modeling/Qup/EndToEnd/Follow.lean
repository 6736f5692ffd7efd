import Qup.EndToEnd.Exchange

/-!
# Follow mode

`run_follow_mode` of the test client, from the moment its key is resolved: one
`OBSERVE`, then a `GET` for every `CHANGED` of the key that `next_message`
returns. Between any two of its operations the node, the updates of its keys and
the channels take steps. While a call waits for its response it drops
notifications, those of the key included.
-/

namespace Qup.EndToEnd
open Foundation Foundation.Utf8 Embassy
open Client (Call Answer ClientError Message)

variable {N : ℕ}

inductive Mode where
  | resolved
  | observing
  | following
  | changed
  | getting
  | returned
  deriving DecidableEq

namespace Mode

def act {keys : Fin N → ErasedKey} (keyref : UInt16) : Mode → Option (Act keys)
  | .resolved => some (.call (.observe keyref))
  | .observing => some .receive
  | .following => some .next
  | .changed => some (.call (.get keyref))
  | .getting => some .receive
  | .returned => none

/-- Where the loop goes on and what it prints, from the message that was read,
whether a call is waiting now and the last result. -/
def next (keyref : UInt16) (read : Option (Except ClientError Message)) (waiting : Bool)
    (result : Option (Except ClientError Answer)) : Mode → Mode × List Client.Value
  | .resolved => (if waiting then .observing else .returned, [])
  | .observing =>
    if waiting then (.observing, [])
    else match result with
      | some (.ok _) => (.following, [])
      | _ => (.returned, [])
  | .following =>
    match read with
    | some (.ok (.changed r)) => (if r = keyref then .changed else .following, [])
    | _ => (.returned, [])
  | .changed => (if waiting then .getting else .returned, [])
  | .getting =>
    if waiting then (.getting, [])
    else match result with
      | some (.ok (.value value)) => (.following, [value])
      | _ => (.returned, [])
  | .returned => (.returned, [])

end Mode

structure Follow (server : Server N) (P U : Type) where
  link : Link server P U
  mode : Mode
  printed : List Client.Value

inductive Turn (keys : Fin N → ErasedKey) where
  | client
  | deliver
  | node (l : Label keys)

namespace Follow
variable {server : Server N} {P U P' U' : Type}

def initial (k : Link server P U) : Follow server P U := ⟨k, .resolved, []⟩

def clientStep (M : Machine server P U) (keyref : UInt16) (s : Follow server P U)
    (a : Act server.keys) : Option (Follow server P U) :=
  (s.link.step M a).map fun k =>
    let next := s.mode.next keyref ((nextFrame s.link.toClient).map Prod.fst) k.awaiting.isSome
      k.results.getLast?
    ⟨k, next.1, s.printed ++ next.2⟩

def step (M : Machine server P U) (keyref : UInt16) (s : Follow server P U) :
    Turn server.keys → Option (Follow server P U)
  | .client => (s.mode.act keyref).bind (s.clientStep M keyref)
  | .deliver => (s.link.step M .deliver).map fun k => { s with link := k }
  | .node l => (s.link.step M (.node l)).map fun k => { s with link := k }

inductive ClientTurn (keyref : UInt16) : Follow server P U → Follow server P U → Prop where
  | returned (s : Follow server P U) (k : Link server P U) (printed : List Client.Value) :
      ClientTurn keyref s ⟨k, .returned, printed⟩
  | observe (k : Link server P U) (printed : List Client.Value) (frame : List UInt8) :
      ClientTurn keyref ⟨k, .resolved, printed⟩ ⟨{ k with
        toNode := k.toNode ++ [frame]
        awaiting := some (.observe keyref)
        calls := k.calls ++ [.observe keyref] }, .observing, printed⟩
  | get (k : Link server P U) (printed : List Client.Value) (frame : List UInt8) :
      ClientTurn keyref ⟨k, .changed, printed⟩ ⟨{ k with
        toNode := k.toNode ++ [frame]
        awaiting := some (.get keyref)
        calls := k.calls ++ [.get keyref] }, .getting, printed⟩
  | skip (k : Link server P U) (mode : Mode) (printed : List Client.Value) (r : UInt16)
      (rest : List (List UInt8)) (hmode : mode = .observing ∨ mode = .getting)
      (hnext : nextFrame k.toClient = some (.ok (.changed r), rest)) :
      ClientTurn keyref ⟨k, mode, printed⟩ ⟨{ k with toClient := rest }, mode, printed⟩
  | observed (k : Link server P U) (printed : List Client.Value) (answer : Answer)
      (message : Except ClientError Message) (rest : List (List UInt8))
      (hnext : nextFrame k.toClient = some (message, rest)) (hne : ∀ r, message ≠ .ok (.changed r)) :
      ClientTurn keyref ⟨k, .observing, printed⟩ ⟨{ k with
        toClient := rest
        awaiting := none
        results := k.results ++ [.ok answer] }, .following, printed⟩
  | got (k : Link server P U) (printed : List Client.Value) (value : Client.Value)
      (message : Except ClientError Message) (rest : List (List UInt8))
      (hnext : nextFrame k.toClient = some (message, rest)) (hne : ∀ r, message ≠ .ok (.changed r)) :
      ClientTurn keyref ⟨k, .getting, printed⟩ ⟨{ k with
        toClient := rest
        awaiting := none
        results := k.results ++ [.ok (.value value)] }, .following, printed ++ [value]⟩
  | heed (k : Link server P U) (printed : List Client.Value) (rest : List (List UInt8)) :
      ClientTurn keyref ⟨k, .following, printed⟩ ⟨{ k with toClient := rest }, .changed, printed⟩
  | pass (k : Link server P U) (printed : List Client.Value) (r : UInt16)
      (rest : List (List UInt8)) (hr : r ≠ keyref)
      (hnext : nextFrame k.toClient = some (.ok (.changed r), rest)) :
      ClientTurn keyref ⟨k, .following, printed⟩ ⟨{ k with toClient := rest }, .following, printed⟩

theorem clientTurn_of_step {M : Machine server P U} {keyref : UInt16} {s s' : Follow server P U}
    (h : s.step M keyref .client = some s') : ClientTurn keyref s s' := by
  obtain ⟨k, mode, printed⟩ := s
  obtain ⟨a, hact, hclient⟩ := Option.bind_eq_some_iff.mp h
  obtain ⟨k', hk', rfl⟩ := Option.map_eq_some_iff.mp hclient
  cases mode with
  | returned => cases hact
  | resolved =>
    cases hact
    cases Link.step_cases hk' with
    | refuse call =>
      have hwaiting : ¬k.awaiting.isSome = true := by rw [Link.idle_of_call hk']; exact nofun
      simp only [Mode.next, if_neg hwaiting]
      exact .returned _ _ _
    | call call frame hidle hsend =>
      simp only [Mode.next, Option.isSome_some, if_true, List.append_nil]
      exact .observe k printed frame
  | changed =>
    cases hact
    cases Link.step_cases hk' with
    | refuse call =>
      have hwaiting : ¬k.awaiting.isSome = true := by rw [Link.idle_of_call hk']; exact nofun
      simp only [Mode.next, if_neg hwaiting]
      exact .returned _ _ _
    | call call frame hidle hsend =>
      simp only [Mode.next, Option.isSome_some, if_true, List.append_nil]
      exact .get k printed frame
  | following =>
    cases hact
    cases Link.step_cases hk' with
    | hear message rest hidle hnext =>
      simp only [Mode.next, hnext, Option.map_some]
      rcases message with e | m
      · exact .returned _ _ _
      · cases m with
        | changed r =>
          by_cases hr : r = keyref
          · simp only [if_pos hr, List.append_nil]
            exact .heed k printed rest
          · simp only [if_neg hr, List.append_nil]
            exact .pass k printed r rest hr hnext
        | _ => exact .returned _ _ _
  | observing =>
    cases hact
    cases Link.step_cases hk' with
    | skip call r rest hcall hnext =>
      have hwaiting : k.awaiting.isSome = true := Option.isSome_iff_exists.mpr ⟨call, hcall⟩
      simp only [Mode.next, hwaiting, if_true, List.append_nil]
      exact .skip k .observing printed r rest (Or.inl rfl) hnext
    | finish call message rest hcall hnext hne =>
      simp only [Mode.next, Option.isSome_none, Bool.false_eq_true, if_false,
        List.getLast?_append, List.getLast?_singleton, Option.some_or]
      cases hresult : message >>= call.method.accept with
      | error e => exact .returned _ _ _
      | ok answer =>
        simp only [List.append_nil]
        exact .observed k printed answer message rest hnext hne
  | getting =>
    cases hact
    cases Link.step_cases hk' with
    | skip call r rest hcall hnext =>
      have hwaiting : k.awaiting.isSome = true := Option.isSome_iff_exists.mpr ⟨call, hcall⟩
      simp only [Mode.next, hwaiting, if_true, List.append_nil]
      exact .skip k .getting printed r rest (Or.inr rfl) hnext
    | finish call message rest hcall hnext hne =>
      simp only [Mode.next, Option.isSome_none, Bool.false_eq_true, if_false,
        List.getLast?_append, List.getLast?_singleton, Option.some_or]
      cases hresult : message >>= call.method.accept with
      | error e => exact .returned _ _ _
      | ok answer =>
        cases answer with
        | value v => exact .got k printed v message rest hnext hne
        | _ => exact .returned _ _ _

theorem step_link {M : Machine server P U} {keyref : UInt16} {s s' : Follow server P U}
    {t : Turn server.keys} (h : s.step M keyref t = some s') :
    ∃ a, s.link.step M a = some s'.link := by
  cases t with
  | client =>
    obtain ⟨a, -, ha⟩ := Option.bind_eq_some_iff.mp h
    obtain ⟨k, hk, rfl⟩ := Option.map_eq_some_iff.mp ha
    exact ⟨a, hk⟩
  | deliver =>
    obtain ⟨k, hk, rfl⟩ := Option.map_eq_some_iff.mp h
    exact ⟨.deliver, hk⟩
  | node l =>
    obtain ⟨k, hk, rfl⟩ := Option.map_eq_some_iff.mp h
    exact ⟨.node l, hk⟩

theorem exists_linkPath {M : Machine server P U} {keyref : UInt16}
    {Q : Follow server P U → Turn server.keys → Prop} {s s' : Follow server P U}
    {turns : List (Turn server.keys)} (hrun : Path (step M keyref) Q s turns s') :
    ∃ acts, Path (Link.step M) (fun _ _ => True) s.link acts s'.link := by
  induction hrun with
  | nil => exact ⟨[], .nil _⟩
  | snoc _ _ hstep ih =>
    obtain ⟨acts, hacts⟩ := ih
    obtain ⟨a, ha⟩ := step_link hstep
    exact ⟨acts ++ [a], .snoc hacts trivial ha⟩

def map (f : P → P') (g : U → U') (s : Follow server P U) : Follow server P' U' where
  link := s.link.map f g
  mode := s.mode
  printed := s.printed

variable {M : Machine server P U} {M' : Machine server P' U'}

theorem step_map (h : M.Hom M') (keyref : UInt16) (s : Follow server P U) (t : Turn server.keys) :
    (s.map h.task h.update).step M' keyref t =
      (s.step M keyref t).map (map h.task h.update) := by
  have hclient : ∀ a, (s.map h.task h.update).clientStep M' keyref a =
      (s.clientStep M keyref a).map (map h.task h.update) := by
    intro a
    have hlink := Link.step_map h s.link a
    simp only [clientStep, map, hlink]
    cases s.link.step M a <;> rfl
  cases t with
  | client =>
    change (s.mode.act keyref).bind _ = ((s.mode.act keyref).bind _).map _
    cases s.mode.act keyref with
    | none => rfl
    | some a => exact hclient a
  | deliver =>
    have hlink := Link.step_map h s.link .deliver
    simp only [step, map, hlink]
    cases s.link.step M .deliver <;> rfl
  | node l =>
    have hlink := Link.step_map h s.link (.node l)
    simp only [step, map, hlink]
    cases s.link.step M (.node l) <;> rfl

end Follow

abbrev FollowMode (server : Server N) :=
  Follow server (server.Handler (Locals N)) (Action server.keys (Except WireValueError Bool))

abbrev PhaseFollow (server : Server N) := Follow server (Phase server) (UpdatePhase server)

end Qup.EndToEnd
