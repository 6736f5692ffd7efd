import Qup.EndToEnd.Response

/-!
# A client and a node

A client and one connection of a node over two in-order channels of whole
frames. Calls are made one after another; while one waits for its response, and
between calls, the node's task, the updates of its keys and the two channels
take steps in any order. A frame enters the channel to the client with the
write that completes it.
-/

namespace Qup.EndToEnd
open Foundation Foundation.Utf8 Embassy
open Client (Call Answer ClientError Message)

variable {N : ℕ}

/-- `next_message` over a channel of whole frames: what it returns and what it
leaves in the channel. -/
def nextFrame : List (List UInt8) → Option (Except ClientError Message × List (List UInt8))
  | [] => none
  | frame :: rest =>
    match Reader.run Client.nextMessage frame with
    | .starved => none
    | .failed e _ => some (.error e, rest)
    | .done message _ => some (.ok message, rest)

structure Link (server : Server N) (P U : Type) where
  node : Sys server.keys P U
  toNode : List (List UInt8)
  toClient : List (List UInt8)
  awaiting : Option Call
  calls : List Call
  results : List (Except ClientError Answer)

inductive Act (keys : Fin N → ErasedKey) where
  | call (call : Call)
  | deliver
  | node (l : Label keys)
  | receive
  | next

namespace Link
variable {server : Server N} {P U : Type}

def initial (M : Machine server P U) (memory : Memory server.keys) : Link server P U where
  node := Sys.initial M memory
  toNode := []
  toClient := []
  awaiting := none
  calls := []
  results := []

def newFrames (s s' : Sys server.keys P U) : List Frame :=
  (sentFrames s'.log).drop (sentFrames s.log).length

def nodeStep (M : Machine server P U) (k : Link server P U) (l : Label server.keys) :
    Option (Link server P U) :=
  (k.node.step M l).map fun s =>
    { k with node := s, toClient := k.toClient ++ (newFrames k.node s).map Frame.bytes }

def step (M : Machine server P U) (k : Link server P U) :
    Act server.keys → Option (Link server P U)
  | .call call =>
    match k.awaiting with
    | some _ => none
    | none =>
      match call.method.send with
      | .error _ => some k
      | .ok frame =>
        some { k with
          toNode := k.toNode ++ [frame]
          awaiting := some call
          calls := k.calls ++ [call] }
  | .deliver =>
    match k.toNode with
    | [] => none
    | frame :: rest => ({ k with toNode := rest } : Link server P U).nodeStep M (.arrive frame)
  | .node (.arrive _) => none
  | .node l => k.nodeStep M l
  | .receive =>
    match k.awaiting, nextFrame k.toClient with
    | some _, some (.ok (.changed _), rest) => some { k with toClient := rest }
    | some call, some (message, rest) =>
      some { k with
        toClient := rest
        awaiting := none
        results := k.results ++ [message >>= call.method.accept] }
    | _, _ => none
  | .next =>
    match k.awaiting, nextFrame k.toClient with
    | none, some (_, rest) => some { k with toClient := rest }
    | _, _ => none

end Link

section
variable {server : Server N} {P U : Type} {M : Machine server P U}

inductive Link.Steps (M : Machine server P U) (k : Link server P U) :
    Act server.keys → Link server P U → Prop where
  | refuse (call : Call) : Steps M k (.call call) k
  | call (call : Call) (frame : List UInt8) (hidle : k.awaiting = none)
      (hsend : call.method.send = .ok frame) :
      Steps M k (.call call) { k with
        toNode := k.toNode ++ [frame]
        awaiting := some call
        calls := k.calls ++ [call] }
  | deliver (frame : List UInt8) (rest : List (List UInt8)) (s : Sys server.keys P U)
      (hto : k.toNode = frame :: rest) (hs : k.node.step M (.arrive frame) = some s) :
      Steps M k .deliver { k with
        node := s
        toNode := rest
        toClient := k.toClient ++ (newFrames k.node s).map Frame.bytes }
  | node (l : Label server.keys) (s : Sys server.keys P U) (hl : arrivals [l] = [])
      (hs : k.node.step M l = some s) :
      Steps M k (.node l) { k with
        node := s
        toClient := k.toClient ++ (newFrames k.node s).map Frame.bytes }
  | skip (call : Call) (r : UInt16) (rest : List (List UInt8)) (hcall : k.awaiting = some call)
      (hnext : nextFrame k.toClient = some (.ok (.changed r), rest)) :
      Steps M k .receive { k with toClient := rest }
  | finish (call : Call) (message : Except ClientError Message) (rest : List (List UInt8))
      (hcall : k.awaiting = some call) (hnext : nextFrame k.toClient = some (message, rest))
      (hne : ∀ r, message ≠ .ok (.changed r)) :
      Steps M k .receive { k with
        toClient := rest
        awaiting := none
        results := k.results ++ [message >>= call.method.accept] }
  | hear (message : Except ClientError Message) (rest : List (List UInt8))
      (hidle : k.awaiting = none) (hnext : nextFrame k.toClient = some (message, rest)) :
      Steps M k .next { k with toClient := rest }

theorem Link.idle_of_call {k k' : Link server P U} {call : Call}
    (h : k.step M (.call call) = some k') : k.awaiting = none := by
  cases hidle : k.awaiting with
  | none => rfl
  | some waiting =>
    simp only [Link.step, hidle] at h
    cases h

theorem Link.step_cases {k k' : Link server P U} {a : Act server.keys}
    (h : k.step M a = some k') : Link.Steps M k a k' := by
  have hnode : ∀ l, arrivals [l] = [] → k.nodeStep M l = some k' →
      Link.Steps M k (.node l) k' := by
    intro l hl hstep
    obtain ⟨s, hs, rfl⟩ := Option.map_eq_some_iff.mp hstep
    exact .node l s hl hs
  cases a with
  | call call =>
    simp only [Link.step] at h
    cases hidle : k.awaiting with
    | some c => simp [hidle] at h
    | none =>
      cases hsend : call.method.send with
      | error e =>
        simp only [hidle, hsend] at h
        cases h
        exact .refuse call
      | ok frame =>
        simp only [hidle, hsend] at h
        cases h
        exact .call call frame hidle hsend
  | deliver =>
    simp only [Link.step] at h
    cases hto : k.toNode with
    | nil => simp [hto] at h
    | cons frame rest =>
      simp only [hto] at h
      obtain ⟨s, hs, rfl⟩ := Option.map_eq_some_iff.mp h
      exact .deliver frame rest s hto hs
  | node l =>
    cases l with
    | arrive bytes => cases h
    | _ => exact hnode _ rfl h
  | receive =>
    simp only [Link.step] at h
    cases hcall : k.awaiting with
    | none => simp [hcall] at h
    | some call =>
      cases hnext : nextFrame k.toClient with
      | none => simp [hcall, hnext] at h
      | some read =>
        obtain ⟨message, rest⟩ := read
        have hfinish : (∀ r, message ≠ .ok (.changed r)) → some k' = some { k with
            toClient := rest
            awaiting := none
            results := k.results ++ [message >>= call.method.accept] } →
              Link.Steps M k .receive k' := by
          intro hne hk
          cases hk
          exact .finish call message rest hcall hnext hne
        simp only [hcall, hnext] at h
        rcases message with e | message
        · exact hfinish (by simp) h.symm
        · cases message with
          | changed r =>
            cases h
            have hskip : Link.Steps M k .receive _ := .skip call r rest hcall hnext
            rwa [hcall] at hskip
          | _ => exact hfinish (by simp) h.symm
  | next =>
    simp only [Link.step] at h
    cases hidle : k.awaiting with
    | some call => simp [hidle] at h
    | none =>
      cases hnext : nextFrame k.toClient with
      | none => simp [hidle, hnext] at h
      | some read =>
        simp only [hidle, hnext] at h
        cases h
        have hhear : Link.Steps M k .next _ := .hear read.1 read.2 hidle hnext
        rwa [hidle] at hhear

theorem Link.exists_nodePath {Q : Link server P U → Act server.keys → Prop}
    {k k' : Link server P U} {acts : List (Act server.keys)}
    (hrun : Path (Link.step M) Q k acts k') :
    ∃ labels, Path (Sys.step M) (fun _ _ => True) k.node labels k'.node := by
  induction hrun with
  | nil => exact ⟨[], .nil _⟩
  | snoc _ _ hstep ih =>
    obtain ⟨labels, hpath⟩ := ih
    cases Link.step_cases hstep with
    | deliver frame rest s hto hs => exact ⟨_, .snoc hpath trivial hs⟩
    | node l s hl hs => exact ⟨_, .snoc hpath trivial hs⟩
    | _ => exact ⟨labels, hpath⟩

end

section
variable {server : Server N} {P U P' U' : Type}

def Link.map (f : P → P') (g : U → U') (k : Link server P U) : Link server P' U' where
  node := k.node.map f g
  toNode := k.toNode
  toClient := k.toClient
  awaiting := k.awaiting
  calls := k.calls
  results := k.results

variable {M : Machine server P U} {M' : Machine server P' U'}

theorem Link.initial_map (h : M.Hom M') (memory : Memory server.keys) :
    Link.initial M' memory = (Link.initial M memory).map h.task h.update := by
  simp only [Link.initial, Link.map, Sys.initial_map h]

theorem Link.nodeStep_map (h : M.Hom M') (k : Link server P U) (l : Label server.keys) :
    (k.map h.task h.update).nodeStep M' l = (k.nodeStep M l).map (Link.map h.task h.update) := by
  simp only [Link.nodeStep, Link.map, Sys.step_map h]
  cases k.node.step M l <;> rfl

theorem Link.step_map (h : M.Hom M') (k : Link server P U) (a : Act server.keys) :
    (k.map h.task h.update).step M' a = (k.step M a).map (Link.map h.task h.update) := by
  obtain ⟨node, toNode, toClient, awaiting, calls, results⟩ := k
  cases a with
  | call call =>
    cases awaiting with
    | some c => rfl
    | none =>
      simp only [Link.step, Link.map]
      cases call.method.send <;> rfl
  | deliver =>
    cases toNode with
    | nil => rfl
    | cons frame rest =>
      exact Link.nodeStep_map h ⟨node, rest, toClient, awaiting, calls, results⟩ (.arrive frame)
  | node l =>
    cases l with
    | arrive bytes => rfl
    | _ => exact Link.nodeStep_map h ⟨node, toNode, toClient, awaiting, calls, results⟩ _
  | receive =>
    cases awaiting with
    | none => rfl
    | some call =>
      simp only [Link.step, Link.map]
      rcases nextFrame toClient with _ | ⟨e | m, rest⟩
      · rfl
      · rfl
      · cases m <;> rfl
  | next =>
    cases awaiting with
    | some call => rfl
    | none =>
      simp only [Link.step, Link.map]
      cases nextFrame toClient <;> rfl

end

abbrev Pair (server : Server N) :=
  Link server (server.Handler (Locals N)) (Action server.keys (Except WireValueError Bool))

theorem exists_phaseLink {server : Server N} {nodeId : Str}
    {Q : Pair server → Act server.keys → Prop} {memory : Memory server.keys}
    {acts : List (Act server.keys)} {k : Pair server}
    (hrun : Path (Link.step (programs server nodeId)) Q
      (Link.initial (programs server nodeId) memory) acts k) :
    ∃ t : Link server (Phase server) (UpdatePhase server),
      Path (Link.step (phases server nodeId)) (fun _ _ => True)
          (Link.initial (phases server nodeId) memory) acts t ∧
        t.map Phase.task UpdatePhase.task = k := by
  rw [Link.initial_map (phasesHom server nodeId)] at hrun
  obtain ⟨t, ht, hk⟩ := hrun.lift (Link.step_map (phasesHom server nodeId))
  exact ⟨t, ht.mono fun _ _ _ => trivial, hk⟩

end Qup.EndToEnd
