import Qup.Embassy.Oversized
import Qup.Embassy.Alignment
import Qup.Embassy.Log

/-!
# Two sizes of the scratch buffer

The same server with scratch buffers of `M` and of `M'` bytes. The connection
with the second one lets the other go ahead inside a frame and catches up when
the request is complete; between frames the two are side by side. So what one
does the other can do as well, and a run over a given stream, which leaves no
choice, ends in the same way with both.
-/

namespace Qup.Embassy
open Foundation Foundation.Utf8

variable {N : ℕ}

abbrev Server.withScratch (server : Server N) (maxStr : ℕ) : Server N :=
  { server with maxStr := maxStr }

namespace Server
variable (server : Server N) (maxStr : ℕ)

theorem flushFrom_withScratch (rest : List (Fin N)) (l : Locals N) :
    (server.withScratch maxStr).flushFrom rest l = server.flushFrom rest l := by
  induction rest generalizing l with
  | nil => rfl
  | cons i rest ih =>
    unfold flushFrom
    simp only [ih]
    rfl

theorem flushNotifications_withScratch (l : Locals N) :
    (server.withScratch maxStr).flushNotifications l = server.flushNotifications l := by
  simp only [flushNotifications, flushFrom_withScratch]

theorem attachNotifiers_withScratch (rest : List (Fin N)) :
    (server.withScratch maxStr).attachNotifiers rest = server.attachNotifiers rest := by
  induction rest with
  | nil => rfl
  | cons i rest ih =>
    unfold attachNotifiers
    rw [ih]

theorem uniqueKeyrefs_withScratch (rest : List (Fin N)) :
    (server.withScratch maxStr).uniqueKeyrefs rest = server.uniqueKeyrefs rest := by
  induction rest with
  | nil => rfl
  | cons i rest ih =>
    unfold uniqueKeyrefs
    rw [ih]

theorem startup_withScratch (nodeId : Str) :
    (server.withScratch maxStr).startup nodeId = server.startup nodeId := by
  simp only [startup, attachNotifiers_withScratch, uniqueKeyrefs_withScratch]
  rfl

end Server

variable {server : Server N} {nodeId : Str} {M M' : ℕ}

def stepWith (server : Server N) (nodeId : Str) (maxStr : ℕ) :
    Connection server → Label server.keys → Option (Connection server) :=
  @Sys.step N (server.withScratch maxStr) _ _ (programs (server.withScratch maxStr) nodeId)

def openedWith (server : Server N) (nodeId : Str) (maxStr : ℕ) (memory : Memory server.keys) :
    Connection server :=
  @Sys.initial N (server.withScratch maxStr) _ _ (programs (server.withScratch maxStr) nodeId)
    memory

theorem stepWith_iff {maxStr : ℕ} {s t : Connection server}
    (l : Label (server.withScratch maxStr).keys) :
    stepWith server nodeId maxStr s l = some t ↔
      @Sys.Steps N (server.withScratch maxStr) _ _ (programs (server.withScratch maxStr) nodeId)
        s l t :=
  ⟨Sys.step_cases, Sys.Steps.step_eq⟩

inductive SameEvent {keys : Fin N → ErasedKey} (M M' : ℕ) : Event keys → Event keys → Prop where
  | same (e : Event keys) (h : ∀ q, e ≠ .served q) : SameEvent M M' e e
  | served {q q' : IncomingRequest} (h : SameMessage M M' q q') :
      SameEvent M M' (.served q) (.served q')

inductive SameActivity (M M' : ℕ) : Activity → Activity → Prop where
  | same (a : Activity) : SameActivity M M' a a
  | handling {q q' : IncomingRequest} (h : SameMessage M M' q q') :
      SameActivity M M' (.handling q) (.handling q')

def Ctrl.Pending {P : Type} (ctrl : Ctrl N P) (l : Locals N)
    (reader : RequestReader IncomingRequest) (reads : ℕ) : Prop :=
  ctrl = .reading l reader reads ∨ ctrl = .waiting l reader reads ∨ ctrl = .parked l reader reads

/-- How the second connection stands when the first one has the control state
and the inbox given. -/
inductive Abreast {P : Type} (M M' : ℕ) :
    Ctrl N P → List UInt8 → Ctrl N P → List UInt8 → Prop where
  | reading (l : Locals N) (inbox : List UInt8) :
      Abreast M M' (.reading l (readRequest M) 0) inbox (.reading l (readRequest M') 0) inbox
  | waiting (l : Locals N) (inbox : List UInt8) :
      Abreast M M' (.waiting l (readRequest M) 0) inbox (.waiting l (readRequest M') 0) inbox
  | parked (l : Locals N) (inbox : List UInt8) :
      Abreast M M' (.parked l (readRequest M) 0) inbox (.parked l (readRequest M') 0) inbox
  | ahead {ctrl : Ctrl N P} {l : Locals N} {reader : RequestReader IncomingRequest} {reads : ℕ}
      {inbox pend : List UInt8} (hctrl : ctrl.Pending l reader reads) (hreads : reads ≠ 0)
      (hresumes : Reader.Resumes (readRequest M) pend reader inbox) :
      Abreast M M' ctrl inbox (.reading l (readRequest M') 0) pend
  | running {activity activity' : Activity} (h : SameActivity M M' activity activity') (task : P)
      (inbox : List UInt8) :
      Abreast M M' (.running activity task) inbox (.running activity' task) inbox
  | cut (inbox inbox' : List UInt8) :
      Abreast M M' (.stopped (.error .read)) inbox (.stopped (.error .read)) inbox'
  | stopped (e : Exit) (inbox : List UInt8) :
      Abreast M M' (.stopped e) inbox (.stopped e) inbox
  | rejected (e e' : ProtocolError) (inbox : List UInt8) :
      Abreast M M' (.stopped (.error (.protocol e))) inbox
        (.stopped (.error (.protocol e'))) inbox

structure Twin (M M' : ℕ) (s s' : Connection server) : Prop where
  memory_eq : s.memory = s'.memory
  updates_eq : s.updates = s'.updates
  wire_eq : s.wire = s'.wire
  log_same : List.Forall₂ (SameEvent M M') s.log s'.log
  abreast : Abreast M M' s.ctrl s.inbox s'.ctrl s'.inbox

theorem observe_ne_served {keys : Fin N → ErasedKey} (actor : Actor) (o : Op keys) (r : o.Res)
    {e : Event keys} (he : e ∈ o.observe actor r) (q : IncomingRequest) : e ≠ .served q := by
  rintro rfl
  cases o with
  | writeAll bytes completes =>
    cases completes with
    | none => cases he
    | some f => cases r <;> simp [Op.observe] at he
  | _ => simp [Op.observe] at he

theorem sameEvent_observe {keys : Fin N → ErasedKey} {log log' : List (Event keys)}
    (h : List.Forall₂ (SameEvent M M') log log') (actor : Actor) (o : Op keys) (r : o.Res) :
    List.Forall₂ (SameEvent M M') (o.observe actor r ++ log) (o.observe actor r ++ log') := by
  have hsame : List.Forall₂ (SameEvent M M') (o.observe actor r) (o.observe actor r) :=
    List.forall₂_same.mpr fun e he => .same e (observe_ne_served actor o r he)
  exact List.rel_append hsame h

def Starved (s : Connection server) : Prop :=
  ∃ l n k reads, s.ctrl = .reading l (.act n k) reads ∧ s.inbox.length < n

/-- A guard on the steps that does not depend on how far into a frame the reader
is, except that a wake-up never takes a frame apart. -/
structure Impartial (G : Connection server → Label server.keys → Prop) : Prop where
  read : ∀ s, G s .read
  wake : ∀ s, G s .wake → s.ctrl.midFrame = false
  transfer : ∀ {s u l}, G s l → (l = .wake → u.ctrl.midFrame = false) →
    (l = .readFail → Starved s → Starved u) → G u l

def Label.stimulus {keys : Fin N → ErasedKey} : Label keys → Bool
  | .read | .pend | .park | .repoll => false
  | .arrive _ | .readFail | .serve | .wake | .act _ | .finish | .spawn _ _ | .update _ => true

def Answers (server : Server N) (nodeId : Str) (M M' : ℕ)
    (G : Connection server → Label server.keys → Prop) (l : Label server.keys)
    (t s' : Connection server) : Prop :=
  ∃ ls t', Path (stepWith server nodeId M') G s' ls t' ∧ Twin M M' t t' ∧
    ls.filter Label.stimulus = [l].filter Label.stimulus

section
variable {G : Connection server → Label server.keys → Prop} {s s' t t' : Connection server}
  {l : Label server.keys}

theorem Answers.stay (h : Twin M M' t s') (hl : l.stimulus = false) :
    Answers server nodeId M M' G l t s' := by
  refine ⟨[], s', .nil s', h, ?_⟩
  simp [hl]

theorem Answers.step (hl : G s' l) (hs : stepWith server nodeId M' s' l = some t')
    (h : Twin M M' t t') : Answers server nodeId M M' G l t s' :=
  ⟨[l], t', .one hl hs, h, rfl⟩

theorem Answers.after {ls : List (Label server.keys)} {u' : Connection server}
    (hquiet : ls.filter Label.stimulus = []) (hpath : Path (stepWith server nodeId M') G s' ls u')
    (h : Answers server nodeId M M' G l t u') : Answers server nodeId M M' G l t s' := by
  obtain ⟨ks, t', hpath', htwin, hlabels⟩ := h
  refine ⟨ls ++ ks, t', hpath.trans hpath', htwin, ?_⟩
  rw [List.filter_append, hquiet, hlabels, List.nil_append]

variable (nodeId) in
theorem poll_path (hread : ∀ s, G s .read) {l : Locals N} (reader : RequestReader IncomingRequest) :
    ∀ (s : Connection server) (reads : ℕ), s.ctrl = .reading l reader reads →
      ∃ ls reads', ls.filter Label.stimulus = [] ∧ Path (stepWith server nodeId M') G s ls
        { s with
          ctrl := .reading l (Reader.poll reader s.inbox).1 reads'
          inbox := (Reader.poll reader s.inbox).2 } := by
  induction reader with
  | ret q =>
    intro s reads hs
    refine ⟨[], reads, rfl, ?_⟩
    simp only [Reader.poll, ← hs]
    exact .nil s
  | fail e =>
    intro s reads hs
    refine ⟨[], reads, rfl, ?_⟩
    simp only [Reader.poll, ← hs]
    exact .nil s
  | act n k ih =>
    intro s reads hs
    rw [Reader.poll]
    split_ifs with hn
    · have hstep := (@stepWith_iff N server nodeId M' s _ .read).mpr (.read l n k reads hs hn)
      obtain ⟨ls, reads', hquiet, hpath⟩ := ih (s.inbox.take n) { s with
        inbox := s.inbox.drop n
        ctrl := .reading l (k (s.inbox.take n)) (reads + 1) } (reads + 1) rfl
      exact ⟨.read :: ls, reads', hquiet, .cons (hread s) hstep hpath⟩
    · refine ⟨[], reads, rfl, ?_⟩
      simp only [← hs]
      exact .nil s

theorem Abreast.arrive {P : Type} {ctrl ctrl' : Ctrl N P} {inbox inbox' : List UInt8}
    (h : Abreast M M' ctrl inbox ctrl' inbox') (bytes : List UInt8) :
    Abreast M M' ctrl (inbox ++ bytes) ctrl' (inbox' ++ bytes) := by
  cases h with
  | reading l inbox => exact .reading l _
  | waiting l inbox => exact .waiting l _
  | parked l inbox => exact .parked l _
  | ahead hctrl hreads hresumes => exact .ahead hctrl hreads (hresumes.append bytes)
  | running h task inbox => exact .running h task _
  | cut inbox inbox' => exact .cut _ _
  | stopped e inbox => exact .stopped e _
  | rejected e e' inbox => exact .rejected e e' _

theorem Twin.beginFlush (h : Twin M M' s s') (hinbox : s.inbox = s'.inbox) (l : Locals N) :
    @Twin N server M M'
      (@Sys.beginFlush N (server.withScratch M) _ _ (programs (server.withScratch M) nodeId) s l)
      (@Sys.beginFlush N (server.withScratch M') _ _ (programs (server.withScratch M') nodeId)
        s' l) := by
  refine ⟨h.memory_eq, h.updates_eq, h.wire_eq, .cons (.same _ (by simp)) h.log_same, ?_⟩
  simp only [Sys.beginFlush, programs, Server.flushNotifications_withScratch, hinbox]
  exact .running (.same _) _ _

theorem Twin.select (h : Twin M M' s s') (hinbox : s.inbox = s'.inbox) (l : Locals N) :
    @Twin N server M M' (@Sys.select N (server.withScratch M) _ _ s l)
      (@Sys.select N (server.withScratch M') _ _ s' l) := by
  refine ⟨h.memory_eq, h.updates_eq, h.wire_eq, h.log_same, ?_⟩
  simp only [Sys.select, hinbox]
  exact .reading l _

theorem Twin.next (h : Twin M M' s s') (hinbox : s.inbox = s'.inbox) {a a' : Activity}
    (ha : SameActivity M M' a a') (l : Locals N) :
    @Twin N server M M'
      (@Sys.next N (server.withScratch M) _ _ (programs (server.withScratch M) nodeId) s a l)
      (@Sys.next N (server.withScratch M') _ _ (programs (server.withScratch M') nodeId)
        s' a' l) := by
  have hhandling : ∀ q q' : IncomingRequest, @Twin N server M M'
      (@Sys.next N (server.withScratch M) _ _ (programs (server.withScratch M) nodeId) s
        (.handling q) l)
      (@Sys.next N (server.withScratch M') _ _ (programs (server.withScratch M') nodeId) s'
        (.handling q') l) := by
    intro q q'
    simp only [Sys.next]
    split_ifs
    · exact h.beginFlush hinbox l
    · exact h.select hinbox l
  cases ha with
  | same a =>
    cases a with
    | starting => exact h.select hinbox l
    | handling q => exact hhandling q q
    | flushing =>
      have hselect := h.select hinbox l
      exact ⟨hselect.memory_eq, hselect.updates_eq, hselect.wire_eq,
        .cons (.same _ (by simp)) h.log_same, hselect.abreast⟩
  | handling hsame => exact hhandling _ _

theorem Twin.recontrol (h : Twin M M' s s') {ctrl ctrl' : Ctrl N (server.Handler (Locals N))}
    (habreast : Abreast M M' ctrl s.inbox ctrl' s'.inbox) :
    Twin M M' { s with ctrl := ctrl } { s' with ctrl := ctrl' } :=
  ⟨h.memory_eq, h.updates_eq, h.wire_eq, h.log_same, habreast⟩

theorem Abreast.of_running {P : Type} {a : Activity} {task : P} {ctrl' : Ctrl N P}
    {inbox inbox' : List UInt8} (h : Abreast M M' (.running a task) inbox ctrl' inbox') :
    ∃ a', ctrl' = .running a' task ∧ SameActivity M M' a a' ∧ inbox = inbox' := by
  cases h with
  | running ha task inbox => exact ⟨_, rfl, ha, rfl⟩
  | ahead hctrl hreads hresumes => rcases hctrl with hctrl | hctrl | hctrl <;> cases hctrl

theorem Twin.act (h : Twin M M' s s') (hG : Impartial G) {accepted : Bool}
    (hl : G s (.act accepted)) (hs : stepWith server nodeId M s (.act accepted) = some t) :
    Answers server nodeId M M' G (.act accepted) t s' := by
  have habreast := h.abreast
  cases (stepWith_iff (.act accepted)).mp hs with
  | act accepted a task o k hctrl hview =>
    rw [hctrl] at habreast
    obtain ⟨a', hctrl', ha, hinbox⟩ := habreast.of_running
    have hs' := @Sys.Steps.act N (server.withScratch M') _ _ (programs _ nodeId) s' accepted a' task
      o k hctrl' hview
    refine .step (hG.transfer hl (by simp) (by simp)) ((stepWith_iff (.act accepted)).mpr hs') ?_
    refine ⟨?_, h.updates_eq, ?_, ?_, ?_⟩
    · simp only [Sys.perform, h.memory_eq]
    · simp only [Sys.perform, h.memory_eq, h.wire_eq]
    · simp only [Sys.perform, h.memory_eq]
      exact sameEvent_observe h.log_same _ _ _
    · simp only [Sys.perform, h.memory_eq, hinbox]
      exact .running ha _ _

theorem Twin.finish (h : Twin M M' s s') (hG : Impartial G) (hl : G s .finish)
    (hs : stepWith server nodeId M s .finish = some t) :
    Answers server nodeId M M' G .finish t s' := by
  have habreast := h.abreast
  have hl' : G s' .finish := hG.transfer hl (by simp) (by simp)
  cases (stepWith_iff .finish).mp hs with
  | finish a task l hctrl hview =>
    rw [hctrl] at habreast
    obtain ⟨a', hctrl', ha, hinbox⟩ := habreast.of_running
    exact .step hl' ((stepWith_iff .finish).mpr (.finish a' task l hctrl' hview))
      (h.next hinbox ha l)
  | exit a task e hctrl hview =>
    rw [hctrl] at habreast
    obtain ⟨a', hctrl', -, hinbox⟩ := habreast.of_running
    refine .step hl' ((stepWith_iff .finish).mpr (.exit a' task e hctrl' hview)) (h.recontrol ?_)
    rw [hinbox]
    exact .stopped e _

theorem Abreast.of_pending {P : Type} {l : Locals N} {reader : RequestReader IncomingRequest}
    {reads : ℕ} {ctrl' : Ctrl N P} {inbox inbox' : List UInt8}
    {make : Locals N → RequestReader IncomingRequest → ℕ → Ctrl N P}
    (hmake : make = .reading ∨ make = .waiting ∨ make = .parked)
    (h : Abreast M M' (make l reader reads) inbox ctrl' inbox') :
    (reader = readRequest M ∧ reads = 0 ∧ ctrl' = make l (readRequest M') 0 ∧ inbox = inbox') ∨
      (reads ≠ 0 ∧ ctrl' = .reading l (readRequest M') 0 ∧
        Reader.Resumes (readRequest M) inbox' reader inbox) := by
  rcases hmake with rfl | rfl | rfl
  all_goals
    cases h with
    | ahead hctrl hreads hresumes =>
      rcases hctrl with hctrl | hctrl | hctrl <;> cases hctrl
      exact Or.inr ⟨hreads, rfl, hresumes⟩
    | _ => exact Or.inl ⟨rfl, rfl, rfl, rfl⟩

theorem Abreast.of_reading {P : Type} {l : Locals N} {reader : RequestReader IncomingRequest}
    {reads : ℕ} {ctrl' : Ctrl N P} {inbox inbox' : List UInt8}
    (h : Abreast M M' (.reading l reader reads) inbox ctrl' inbox') :
    ctrl' = .reading l (readRequest M') 0 ∧
      Reader.Resumes (readRequest M) inbox' reader inbox := by
  rcases h.of_pending (Or.inl rfl) with ⟨rfl, -, hctrl', rfl⟩ | ⟨-, hctrl', hresumes⟩
  · exact ⟨hctrl', .start _ _⟩
  · exact ⟨hctrl', hresumes⟩

theorem Twin.read (h : Twin M M' s s') (hs : stepWith server nodeId M s .read = some t) :
    Answers server nodeId M M' G .read t s' := by
  have habreast := h.abreast
  cases (stepWith_iff .read).mp hs with
  | read l n k reads hctrl hn =>
    rw [hctrl] at habreast
    obtain ⟨hctrl', hresumes⟩ := habreast.of_reading
    refine .stay ⟨h.memory_eq, h.updates_eq, h.wire_eq, h.log_same, ?_⟩ rfl
    rw [hctrl']
    exact .ahead (Or.inl rfl) (Nat.succ_ne_zero reads) (hresumes.read hn)

variable (nodeId) in
theorem Twin.polled (h : Twin M M' s s') (hread : ∀ s, G s .read) {l : Locals N}
    {reader : RequestReader IncomingRequest} {reads : ℕ} (hctrl : s.ctrl = .reading l reader reads) :
    Reader.run reader s.inbox = Reader.run (readRequest M) s'.inbox ∧
      ∃ ls reads', ls.filter Label.stimulus = [] ∧ Path (stepWith server nodeId M') G s' ls
        { s' with
          ctrl := .reading l (Reader.poll (readRequest M') s'.inbox).1 reads'
          inbox := (Reader.poll (readRequest M') s'.inbox).2 } := by
  have habreast := h.abreast
  rw [hctrl] at habreast
  obtain ⟨hctrl', hresumes⟩ := habreast.of_reading
  have hrun := hresumes []
  rw [List.append_nil, List.append_nil] at hrun
  exact ⟨hrun, poll_path nodeId hread (readRequest M') s' 0 hctrl'⟩

theorem Twin.serve (hM : Covers server.keys M) (hM' : Covers server.keys M')
    (h : Twin M M' s s') (hG : Impartial G) (hl : G s .serve)
    (hs : stepWith server nodeId M s .serve = some t) :
    Answers server nodeId M M' G .serve t s' := by
  cases (stepWith_iff .serve).mp hs with
  | serve l q reads hctrl =>
    obtain ⟨hrun, ls, reads', hquiet, hpath⟩ := h.polled nodeId hG.read hctrl
    rw [Reader.run_ret] at hrun
    cases sameEnd M M' s'.inbox with
    | starved hstarved _ =>
      rw [hstarved] at hrun
      cases hrun
    | failed e e' rest hfailed _ =>
      rw [hfailed] at hrun
      cases hrun
    | done p q' rest hsame hdone hdone' =>
      rw [hdone] at hrun
      cases hrun
      rw [Reader.poll_of_done hdone'] at hpath
      refine .after hquiet hpath (.step (hG.transfer hl (by simp) (by simp)) rfl ?_)
      refine ⟨h.memory_eq, h.updates_eq, h.wire_eq, .cons (.served hsame) h.log_same, ?_⟩
      change Abreast M M' (.running _ (server.handleRequest nodeId q l)) _
        (.running _ (server.handleRequest nodeId q' l)) _
      rw [server.handleRequest_same hM hM' nodeId hsame l]
      exact .running (.handling hsame) _ _
  | reject l e reads hctrl =>
    obtain ⟨hrun, ls, reads', hquiet, hpath⟩ := h.polled nodeId hG.read hctrl
    rw [Reader.run_fail] at hrun
    cases sameEnd M M' s'.inbox with
    | starved hstarved _ =>
      rw [hstarved] at hrun
      cases hrun
    | failed p e' rest hfailed hfailed' =>
      rw [hfailed] at hrun
      cases hrun
      rw [Reader.poll_of_failed hfailed'] at hpath
      refine .after hquiet hpath (.step (hG.transfer hl (by simp) (by simp)) rfl ?_)
      exact ⟨h.memory_eq, h.updates_eq, h.wire_eq, h.log_same, .rejected _ _ _⟩
    | done q q' rest _ hdone _ =>
      rw [hdone] at hrun
      cases hrun

theorem Starved.of_reading {l : Locals N} {n : ℕ} {k : List UInt8 → RequestReader IncomingRequest}
    {reads : ℕ} (hctrl : s.ctrl = .reading l (.act n k) reads) (h : Starved s) :
    s.inbox.length < n := by
  obtain ⟨l', n', k', reads', hctrl', hlt⟩ := h
  rw [hctrl] at hctrl'
  cases hctrl'
  exact hlt

theorem Twin.readFail (h : Twin M M' s s') (hG : Impartial G) (hl : G s .readFail)
    (hs : stepWith server nodeId M s .readFail = some t) :
    Answers server nodeId M M' G .readFail t s' := by
  have habreast := h.abreast
  cases (stepWith_iff .readFail).mp hs with
  | readFail l n k reads hctrl =>
    by_cases hstarved : Starved s
    · obtain ⟨hrun, ls, reads', hquiet, hpath⟩ := h.polled nodeId hG.read hctrl
      rw [Reader.run_act_of_lt k (hstarved.of_reading hctrl)] at hrun
      have hsame : Reader.run (readRequest M') s'.inbox = .starved := by
        cases sameEnd M M' s'.inbox with
        | starved _ hstarved' => exact hstarved'
        | failed e e' rest hfailed _ =>
          rw [hfailed] at hrun
          cases hrun
        | done q q' rest _ hdone _ =>
          rw [hdone] at hrun
          cases hrun
      obtain ⟨m, k', rest, hpoll, hlt⟩ := Reader.poll_of_starved hsame
      rw [hpoll] at hpath
      have hl' := hG.transfer hl (u := { s' with
        ctrl := .reading l (.act m k') reads', inbox := rest }) (by simp)
          fun _ _ => ⟨l, m, k', reads', rfl, hlt⟩
      refine .after hquiet hpath (.step hl' rfl ?_)
      exact ⟨h.memory_eq, h.updates_eq, h.wire_eq, h.log_same, .cut _ _⟩
    · rw [hctrl] at habreast
      refine .step (hG.transfer hl (by simp) fun _ hs => absurd hs hstarved)
        ((stepWith_iff .readFail).mpr (.readFail l _ _ 0 habreast.of_reading.1)) ?_
      exact ⟨h.memory_eq, h.updates_eq, h.wire_eq, h.log_same, .cut _ _⟩

theorem Twin.pend (h : Twin M M' s s') (hG : Impartial G) (hl : G s .pend)
    (hs : stepWith server nodeId M s .pend = some t) :
    Answers server nodeId M M' G .pend t s' := by
  have habreast := h.abreast
  have hl' : G s' .pend := hG.transfer hl (by simp) (by simp)
  cases (stepWith_iff .pend).mp hs with
  | pend l n k reads hctrl hn ho =>
    rw [hctrl] at habreast
    rcases habreast.of_pending (Or.inl rfl) with ⟨hreader, rfl, hctrl', hinbox⟩ |
      ⟨hreads, hctrl', hresumes⟩
    · cases hreader
      refine .step hl' ((stepWith_iff .pend).mpr (.pend l 3 _ 0 hctrl' (hinbox ▸ hn) ho))
        (h.recontrol ?_)
      rw [hinbox]
      exact .waiting l _
    · refine .stay ⟨h.memory_eq, h.updates_eq, h.wire_eq, h.log_same, ?_⟩ rfl
      rw [hctrl']
      exact .ahead (Or.inr (Or.inl rfl)) hreads hresumes
  | suspend l n k reads hctrl hn ho =>
    rw [hctrl] at habreast
    rcases habreast.of_pending (Or.inl rfl) with ⟨hreader, rfl, hctrl', hinbox⟩ |
      ⟨hreads, hctrl', hresumes⟩
    · cases hreader
      refine .step hl' ((stepWith_iff .pend).mpr (.suspend l 3 _ 0 hctrl' (hinbox ▸ hn) ho))
        (h.recontrol ?_)
      rw [hinbox]
      exact .parked l _
    · refine .stay ⟨h.memory_eq, h.updates_eq, h.wire_eq, h.log_same, ?_⟩ rfl
      rw [hctrl']
      exact .ahead (Or.inr (Or.inr rfl)) hreads hresumes

theorem Twin.park (h : Twin M M' s s') (hG : Impartial G) (hl : G s .park)
    (hs : stepWith server nodeId M s .park = some t) :
    Answers server nodeId M M' G .park t s' := by
  have habreast := h.abreast
  have hl' : G s' .park := hG.transfer hl (by simp) (by simp)
  cases (stepWith_iff .park).mp hs with
  | park l reader reads hctrl hlatch =>
    rw [hctrl] at habreast
    rcases habreast.of_pending (Or.inr (Or.inl rfl)) with ⟨rfl, rfl, hctrl', hinbox⟩ |
      ⟨hreads, hctrl', hresumes⟩
    · rw [h.memory_eq] at hlatch
      refine .step hl' ((stepWith_iff .park).mpr (.park l _ 0 hctrl' hlatch)) (h.recontrol ?_)
      rw [hinbox]
      exact .parked l _
    · refine .stay ⟨h.memory_eq, h.updates_eq, h.wire_eq, h.log_same, ?_⟩ rfl
      rw [hctrl']
      exact .ahead (Or.inr (Or.inr rfl)) hreads hresumes

theorem Twin.repoll (h : Twin M M' s s') (hG : Impartial G) (hl : G s .repoll)
    (hs : stepWith server nodeId M s .repoll = some t) :
    Answers server nodeId M M' G .repoll t s' := by
  have habreast := h.abreast
  have hl' : G s' .repoll := hG.transfer hl (by simp) (by simp)
  cases (stepWith_iff .repoll).mp hs with
  | repoll l reader reads hctrl =>
    rw [hctrl] at habreast
    rcases habreast.of_pending (Or.inr (Or.inr rfl)) with ⟨rfl, rfl, hctrl', hinbox⟩ |
      ⟨hreads, hctrl', hresumes⟩
    · refine .step hl' ((stepWith_iff .repoll).mpr (.repoll l _ 0 hctrl')) (h.recontrol ?_)
      rw [hinbox]
      exact .reading l _
    · refine .stay ⟨h.memory_eq, h.updates_eq, h.wire_eq, h.log_same, ?_⟩ rfl
      rw [hctrl']
      exact .ahead (Or.inl rfl) hreads hresumes

theorem Twin.wake (h : Twin M M' s s') (hG : Impartial G) (hl : G s .wake)
    (hs : stepWith server nodeId M s .wake = some t) :
    Answers server nodeId M M' G .wake t s' := by
  have habreast := h.abreast
  have hmid := hG.wake s hl
  cases (stepWith_iff .wake).mp hs with
  | wake l reader reads hctrl hlatch =>
    rw [hctrl] at habreast hmid
    rcases habreast.of_pending (Or.inr (Or.inl rfl)) with ⟨rfl, rfl, hctrl', hinbox⟩ |
      ⟨hreads, -, -⟩
    · have hl' : G s' .wake := hG.transfer hl (fun _ => by rw [hctrl']; rfl) (by simp)
      have hwoken : Twin M M'
          { s with memory := { s.memory with
            latch := Function.update s.memory.latch server.notifier false } }
          { s' with memory := { s'.memory with
            latch := Function.update s'.memory.latch server.notifier false } } := by
        refine ⟨?_, h.updates_eq, h.wire_eq, h.log_same, h.abreast⟩
        rw [h.memory_eq]
      rw [h.memory_eq] at hlatch
      exact .step hl' ((stepWith_iff .wake).mpr (.wake l _ 0 hctrl' hlatch))
        (hwoken.beginFlush hinbox l)
    · simp only [Ctrl.midFrame, bne_eq_false_iff_eq] at hmid
      exact absurd hmid hreads

theorem Twin.update (h : Twin M M' s s') (hG : Impartial G) {j : ℕ} (hl : G s (.update j))
    (hs : stepWith server nodeId M s (.update j) = some t) :
    Answers server nodeId M M' G (.update j) t s' := by
  have hl' : G s' (.update j) := hG.transfer hl (by simp) (by simp)
  cases (stepWith_iff (.update j)).mp hs with
  | update j u o k hj hview =>
    rw [h.updates_eq] at hj
    have hs' := @Sys.Steps.update N (server.withScratch M') _ _ (programs _ nodeId) s' j u o k hj
      hview
    refine .step hl' ((stepWith_iff (.update j)).mpr hs') ?_
    refine ⟨?_, ?_, h.wire_eq, ?_, h.abreast⟩
    · simp only [Sys.performUpdate, h.memory_eq]
    · simp only [Sys.performUpdate, h.memory_eq, h.updates_eq]
    · simp only [Sys.performUpdate, h.memory_eq]
      exact sameEvent_observe h.log_same _ _ _

theorem Twin.step (hM : Covers server.keys M) (hM' : Covers server.keys M')
    (h : Twin M M' s s') (hG : Impartial G) (hl : G s l)
    (hs : stepWith server nodeId M s l = some t) : Answers server nodeId M M' G l t s' := by
  cases l with
  | arrive bytes =>
    cases hs
    exact .step (hG.transfer hl (by simp) (by simp)) rfl
      ⟨h.memory_eq, h.updates_eq, h.wire_eq, h.log_same, h.abreast.arrive bytes⟩
  | spawn i v =>
    cases hs
    refine .step (hG.transfer hl (by simp) (by simp)) rfl
      ⟨h.memory_eq, ?_, h.wire_eq, h.log_same, h.abreast⟩
    rw [h.updates_eq]
    rfl
  | read => exact h.read hs
  | pend => exact h.pend hG hl hs
  | readFail => exact h.readFail hG hl hs
  | serve => exact h.serve hM hM' hG hl hs
  | wake => exact h.wake hG hl hs
  | park => exact h.park hG hl hs
  | repoll => exact h.repoll hG hl hs
  | act accepted => exact h.act hG hl hs
  | finish => exact h.finish hG hl hs
  | update j => exact h.update hG hl hs

theorem twin_opened (memory : Memory server.keys) :
    Twin M M' (openedWith server nodeId M memory) (openedWith server nodeId M' memory) := by
  refine ⟨rfl, rfl, rfl, .nil, ?_⟩
  simp only [openedWith, Sys.initial, programs, Server.startup_withScratch]
  exact .running (.same _) _ _

end

/-- The same messages were served, the same frames sent, and the same values,
generations and signals are left; if one stopped at a frame, the other did. -/
structure SameOutcome (M M' : ℕ) (s s' : Connection server) : Prop where
  requests_same : List.Forall₂ (SameMessage M M') (servedRequests s.log) (servedRequests s'.log)
  frames_eq : sentFrames s.log = sentFrames s'.log
  wire_eq : s.wire = s'.wire
  memory_eq : s.memory = s'.memory
  protocol_iff : (∃ e, s.ctrl = .stopped (.error (.protocol e))) ↔
    ∃ e, s'.ctrl = .stopped (.error (.protocol e))
  place_eq : (∃ e, s.ctrl = .stopped (.error (.protocol e))) → s.inbox = s'.inbox
  exit_iff : ∀ e, LocalExit e → (s.ctrl = .stopped e ↔ s'.ctrl = .stopped e)

theorem servedRequests_same {keys : Fin N → ErasedKey} {log log' : List (Event keys)}
    (h : List.Forall₂ (SameEvent M M') log log') :
    List.Forall₂ (SameMessage M M') (servedRequests log) (servedRequests log') := by
  induction h with
  | nil => exact .nil
  | @cons e _ _ _ he hlog ih =>
    cases he with
    | same _ hne =>
      cases e with
      | served q => exact absurd rfl (hne q)
      | _ => exact ih
    | served hsame => exact List.rel_append ih (.cons hsame .nil)

theorem sentFrames_same {keys : Fin N → ErasedKey} {log log' : List (Event keys)}
    (h : List.Forall₂ (SameEvent M M') log log') : sentFrames log = sentFrames log' := by
  induction h with
  | nil => rfl
  | @cons e _ _ _ he hlog ih =>
    cases he with
    | same _ hne =>
      cases e with
      | sent f => simp only [sentFrames, ih]
      | _ => exact ih
    | served hsame => exact ih

theorem Abreast.exits {P : Type} {ctrl ctrl' : Ctrl N P} {inbox inbox' : List UInt8}
    (h : Abreast M M' ctrl inbox ctrl' inbox') :
    ((∃ e, ctrl = .stopped (.error (.protocol e))) ∧
      (∃ e, ctrl' = .stopped (.error (.protocol e))) ∧ inbox = inbox') ∨
    (∃ e, LocalExit e ∧ ctrl = .stopped e ∧ ctrl' = .stopped e) ∨
    ((∀ e, ctrl ≠ .stopped e) ∧ ∀ e, ctrl' ≠ .stopped e) := by
  cases h with
  | cut inbox inbox' => exact Or.inr (Or.inl ⟨.error .read, trivial, rfl, rfl⟩)
  | rejected e e' inbox => exact Or.inl ⟨⟨e, rfl⟩, ⟨e', rfl⟩, rfl⟩
  | stopped e inbox =>
    by_cases he : LocalExit e
    · exact Or.inr (Or.inl ⟨e, he, rfl, rfl⟩)
    · cases e with
      | panic => exact absurd trivial he
      | error error =>
        cases error with
        | protocol p => exact Or.inl ⟨⟨p, rfl⟩, ⟨p, rfl⟩, rfl⟩
        | _ => exact absurd trivial he
  | ahead hctrl _ _ =>
    refine Or.inr (Or.inr ⟨fun e he => ?_, nofun⟩)
    rcases hctrl with rfl | rfl | rfl <;> cases he
  | _ => exact Or.inr (Or.inr ⟨nofun, nofun⟩)

theorem Twin.sameOutcome {s s' : Connection server} (h : Twin M M' s s') :
    SameOutcome M M' s s' := by
  have hcommon : ∀ hprotocol hplace hexit, SameOutcome M M' s s' :=
    SameOutcome.mk (servedRequests_same h.log_same) (sentFrames_same h.log_same) h.wire_eq
      h.memory_eq
  rcases h.abreast.exits with ⟨hprotocol, hprotocol', hinbox⟩ | ⟨e, he, hs, hs'⟩ | ⟨hs, hs'⟩
  · refine hcommon ⟨fun _ => hprotocol', fun _ => hprotocol⟩ (fun _ => hinbox) fun e he => ?_
    obtain ⟨p, hp⟩ := hprotocol
    obtain ⟨p', hp'⟩ := hprotocol'
    rw [hp, hp']
    constructor
    · rintro ⟨⟩
      exact he.elim
    · rintro ⟨⟩
      exact he.elim
  · refine hcommon (by rw [hs, hs']) ?_ fun e' _ => by rw [hs, hs']
    rintro ⟨p, hp⟩
    rw [hs] at hp
    cases hp
    exact he.elim
  · exact hcommon ⟨fun ⟨p, hp⟩ => absurd hp (hs _), fun ⟨p, hp⟩ => absurd hp (hs' _)⟩
      (fun ⟨p, hp⟩ => absurd hp (hs _))
      fun e _ => ⟨fun he => absurd he (hs e), fun he => absurd he (hs' e)⟩

end Qup.Embassy
