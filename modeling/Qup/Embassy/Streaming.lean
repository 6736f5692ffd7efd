import Qup.Embassy.ScratchSize
import Qup.Embassy.Progress

/-!
# A server alone with a stream

The transport has the whole stream at hand, takes every response and then ends;
nothing else runs. Such a run leaves no choice and comes to an end, so that two
servers can be compared by what they do with a stream.
-/

namespace Qup.Embassy
open Foundation Foundation.Utf8

variable {N : ℕ} {server : Server N} {nodeId : Str} {M M' : ℕ}

/-- A read fails only where the stream has ended, and no write does. -/
def Streams (s : Connection server) : Label server.keys → Prop
  | .read | .serve | .act true | .finish => True
  | .readFail => Starved s
  | .arrive _ | .pend | .wake | .park | .repoll | .act false | .spawn _ _ | .update _ => False

theorem streams_impartial : Impartial (@Streams N server) where
  read _ := trivial
  wake _ h := h.elim
  transfer := by
    intro s u l h hwake hfail
    cases l with
    | readFail => exact hfail rfl h
    | act accepted => cases accepted <;> exact h
    | _ => exact h

theorem wakesBetweenFrames_impartial :
    Impartial (@WakesBetweenFrames N server.keys (server.Handler (Locals N)) _) where
  read _ := trivial
  wake _ h := h
  transfer := by
    intro s u l h hwake hfail
    cases l with
    | wake => exact hwake rfl
    | _ => trivial

def onStream (server : Server N) (nodeId : Str) (maxStr : ℕ) (memory : Memory server.keys)
    (stream : List UInt8) : Connection server :=
  { openedWith server nodeId maxStr memory with inbox := stream }

def Plays (server : Server N) (nodeId : Str) (maxStr : ℕ) (memory : Memory server.keys)
    (stream : List UInt8) (s : Connection server) : Prop :=
  IsStopped s.ctrl ∧
    ∃ labels, Path (stepWith server nodeId maxStr) Streams
      (onStream server nodeId maxStr memory stream) labels s

def onlyLabel (s : Connection server) : Label server.keys :=
  match s.ctrl with
  | .reading _ (.act n _) _ => if n ≤ s.inbox.length then .read else .readFail
  | .reading _ _ _ => .serve
  | .running _ (.act _ _) => .act true
  | _ => .finish

theorem onlyLabel_eq {s t : Connection server} {l : Label server.keys} (hl : Streams s l)
    (hs : stepWith server nodeId M s l = some t) : l = onlyLabel s := by
  unfold onlyLabel
  cases l with
  | read =>
    cases (stepWith_iff .read).mp hs with
    | read l n k reads hctrl hn => simp only [hctrl, if_pos hn]
  | readFail =>
    cases (stepWith_iff .readFail).mp hs with
    | readFail l n k reads hctrl =>
      have hlt := Starved.of_reading hctrl hl
      simp only [hctrl, if_neg (Nat.not_le_of_lt hlt)]
  | serve =>
    cases (stepWith_iff .serve).mp hs with
    | serve l q reads hctrl => simp only [hctrl]
    | reject l e reads hctrl => simp only [hctrl]
  | act accepted =>
    cases (stepWith_iff (.act accepted)).mp hs with
    | act accepted activity task o k hctrl hview =>
      obtain rfl := Program.eq_act_of_view hview
      cases accepted with
      | true => simp only [hctrl]
      | false => exact hl.elim
  | finish =>
    cases (stepWith_iff .finish).mp hs with
    | finish activity task l hctrl hview =>
      obtain rfl := Program.eq_ret_of_view hview
      simp only [hctrl]
    | exit activity task e hctrl hview =>
      obtain rfl := Program.eq_fail_of_view hview
      simp only [hctrl]
  | _ => exact hl.elim

theorem stepWith_stopped {s : Connection server} (h : IsStopped s.ctrl) {l : Label server.keys}
    (hl : Streams s l) : stepWith server nodeId M s l = none := by
  obtain ⟨e, he⟩ := h
  cases l with
  | read => simp only [stepWith, Sys.step, he]
  | readFail => simp only [stepWith, Sys.step, he]
  | serve => simp only [stepWith, Sys.step, he]
  | act accepted => simp only [stepWith, Sys.step, he]
  | finish => simp only [stepWith, Sys.step, he]
  | _ => exact hl.elim

theorem Plays.unique {memory : Memory server.keys} {stream : List UInt8} {s t : Connection server}
    (hs : Plays server nodeId M memory stream s) (ht : Plays server nodeId M memory stream t) :
    s = t := by
  obtain ⟨hstopped, labels, hpath⟩ := hs
  obtain ⟨hstopped', labels', hpath'⟩ := ht
  refine hpath.end_unique ?_ hpath' (fun _ => stepWith_stopped hstopped)
    fun _ => stepWith_stopped hstopped'
  intro u l k v w hl hk hv hw
  rw [onlyLabel_eq hl hv, onlyLabel_eq hk hw]

def Leads (nodeId : Str) (M : ℕ) (s t : Connection server) : Prop :=
  ∃ labels, Path (stepWith server nodeId M) Streams s labels t

theorem Leads.trans {s t u : Connection server} (h : Leads nodeId M s t)
    (h' : Leads nodeId M t u) : Leads nodeId M s u := by
  obtain ⟨ls, hp⟩ := h
  obtain ⟨ks, hq⟩ := h'
  exact ⟨ls ++ ks, hp.trans hq⟩

theorem Leads.one {s t : Connection server} {l : Label server.keys} (hl : Streams s l)
    (h : stepWith server nodeId M s l = some t) : Leads nodeId M s t := ⟨[l], .one hl h⟩

theorem Leads.finish {s : Connection server} {activity : Activity} {l : Locals N}
    (hs : s.ctrl = .running activity (.ret l)) :
    Leads nodeId M s
      (@Sys.next N (server.withScratch M) _ _ (programs (server.withScratch M) nodeId) s activity l) :=
  .one (l := .finish) trivial
    ((stepWith_iff .finish).mpr (.finish activity (.ret l) l hs rfl))

def Ends (nodeId : Str) (M : ℕ) (s : Connection server) : Prop :=
  ∃ t, Leads nodeId M s t ∧ IsStopped t.ctrl

theorem Leads.ends {s t : Connection server} (h : Leads nodeId M s t) (ht : Ends nodeId M t) :
    Ends nodeId M s := by
  obtain ⟨u, hu, hstopped⟩ := ht
  exact ⟨u, h.trans hu, hstopped⟩

theorem ends_task {activity : Activity} {inbox : List UInt8}
    (hnext : ∀ l (s : Connection server), s.ctrl = .running activity (.ret l) → s.inbox = inbox →
      Ends nodeId M s) (task : server.Handler (Locals N)) :
    ∀ s : Connection server, s.ctrl = .running activity task → s.inbox = inbox →
      Ends nodeId M s := by
  induction task with
  | ret l => exact hnext l
  | fail e =>
    intro s hs hinbox
    exact ⟨{ s with ctrl := .stopped e }, .one (l := .finish) trivial
      ((stepWith_iff .finish).mpr (.exit activity (.fail e) e hs rfl)), e, rfl⟩
  | act o k ih =>
    intro s hs hinbox
    have hstep := @Sys.Steps.act N (server.withScratch M) _ _ (programs _ nodeId) s true activity
      (.act o k) o k hs rfl
    exact (Leads.one (l := .act true) trivial hstep.step_eq).ends
      (ih _ (s.perform activity true o k) rfl hinbox)

theorem ends_next {inbox : List UInt8}
    (hread : ∀ l (s : Connection server), s.ctrl = .reading l (readRequest M) 0 →
      s.inbox = inbox → Ends nodeId M s) (activity : Activity) (l : Locals N) :
    ∀ s : Connection server, s.ctrl = .running activity (.ret l) → s.inbox = inbox →
      Ends nodeId M s := by
  have hflushed : ∀ l (s : Connection server), s.ctrl = .running .flushing (.ret l) →
      s.inbox = inbox → Ends nodeId M s := by
    intro l s hs hinbox
    have hfinish := @Leads.finish N server nodeId M s .flushing l hs
    exact hfinish.ends (hread l _ rfl hinbox)
  intro s hs hinbox
  have hfinish := @Leads.finish N server nodeId M s activity l hs
  cases activity with
  | starting => exact hfinish.ends (hread l _ rfl hinbox)
  | flushing => exact hflushed l s hs hinbox
  | handling q =>
    rw [Sys.next] at hfinish
    split_ifs at hfinish
    · exact hfinish.ends (ends_task hflushed _ _ rfl hinbox)
    · exact hfinish.ends (hread l _ rfl hinbox)

/-- Every request takes bytes from the stream, so that the stream comes to its end. -/
theorem ends_reading {l : Locals N} (s : Connection server)
    (hctrl : s.ctrl = .reading l (readRequest M) 0) : Ends nodeId M s := by
  induction hn : s.inbox.length using Nat.strongRecOn generalizing s l with
  | ind n ih =>
    obtain ⟨ls, reads, -, hpath⟩ := @poll_path N server nodeId M _ streams_impartial.read l
      (readRequest M) s 0 hctrl
    cases hrun : Reader.run (readRequest M) s.inbox with
    | starved =>
      obtain ⟨m, k, rest, hpoll, hlt⟩ := Reader.poll_of_starved hrun
      rw [hpoll] at hpath
      have hfail : stepWith server nodeId M
          { s with ctrl := .reading l (.act m k) reads, inbox := rest } .readFail =
            some { s with ctrl := .stopped (.error .read), inbox := rest } := rfl
      exact Leads.ends ⟨ls, hpath⟩
        ⟨_, .one (l := .readFail) ⟨l, m, k, reads, rfl, hlt⟩ hfail, _, rfl⟩
    | failed e rest =>
      rw [Reader.poll_of_failed hrun] at hpath
      have hstop : stepWith server nodeId M
          { s with ctrl := .reading l (.fail e) reads, inbox := rest } .serve =
            some { s with ctrl := .stopped e, inbox := rest } := rfl
      exact Leads.ends ⟨ls, hpath⟩ ⟨_, .one (l := .serve) trivial hstop, _, rfl⟩
    | done q rest =>
      rw [Reader.poll_of_done hrun] at hpath
      have hlt : rest.length < n := by
        rcases @readRequest_vs_core M s.inbox with ⟨_, _, _, hdone, -, -, -, hlt⟩ | ⟨hnone, -⟩
        · rw [hrun] at hdone
          cases hdone
          rw [← hn]
          exact hlt
        · exact absurd hrun (hnone q rest)
      have hserve : stepWith server nodeId M
          { s with ctrl := .reading l (.ret q) reads, inbox := rest } .serve =
            some { s with
              ctrl := .running (.handling q) (server.handleRequest nodeId q l)
              inbox := rest
              log := .served q :: s.log } := rfl
      have hread : ∀ l (t : Connection server), t.ctrl = .reading l (readRequest M) 0 →
          t.inbox = rest → Ends nodeId M t :=
        fun l t ht hinbox => ih rest.length hlt t ht (by rw [hinbox])
      exact (Leads.trans ⟨ls, hpath⟩ (.one (l := .serve) trivial hserve)).ends
        (ends_task (ends_next hread _) _ _ rfl rfl)

theorem exists_plays (memory : Memory server.keys) (stream : List UInt8) :
    ∃ s, Plays server nodeId M memory stream s := by
  have hends : Ends nodeId M (onStream server nodeId M memory stream) :=
    ends_task (ends_next (fun _ s hs _ => ends_reading s hs) .starting) _ _ rfl rfl
  obtain ⟨s, hpath, hstopped⟩ := hends
  exact ⟨s, hstopped, hpath⟩

theorem twin_onStream (memory : Memory server.keys) (stream : List UInt8) :
    Twin M M' (onStream server nodeId M memory stream) (onStream server nodeId M' memory stream) := by
  have h : Twin M M' (openedWith server nodeId M memory) (openedWith server nodeId M' memory) :=
    twin_opened memory
  exact ⟨h.memory_eq, h.updates_eq, h.wire_eq, h.log_same, h.abreast.arrive stream⟩

theorem Plays.same {memory : Memory server.keys} {stream : List UInt8}
    (hM : Covers server.keys M) (hM' : Covers server.keys M') {s s' : Connection server}
    (hs : Plays server nodeId M memory stream s) (hs' : Plays server nodeId M' memory stream s') :
    SameOutcome M M' s s' := by
  obtain ⟨⟨e, he⟩, labels, hpath⟩ := hs
  obtain ⟨ks, t, hpath', htwin, -⟩ := hpath.simulate
    (fun u u' l v h hl hv => h.step hM hM' streams_impartial hl hv) (twin_onStream memory stream)
  have hstopped : IsStopped t.ctrl := by
    rcases htwin.abreast.exits with ⟨-, ⟨p, hp⟩, -⟩ | ⟨p, -, -, hp⟩ | ⟨hnever, -⟩
    · exact ⟨_, hp⟩
    · exact ⟨_, hp⟩
    · exact absurd he (hnever e)
  obtain rfl := Plays.unique hs' ⟨hstopped, ks, hpath'⟩
  exact htwin.sameOutcome

/-- With buffers of `M` and `M'` bytes the server does the same: over every
stream of bytes, and in every run with other tasks and deliveries in pieces in
which the notifier takes no frame apart. -/
structure Indistinguishable (server : Server N) (nodeId : Str) (memory : Memory server.keys)
    (M M' : ℕ) : Prop where
  streams : ∀ stream, (∃ s, Plays server nodeId M memory stream s) ∧
    (∃ s', Plays server nodeId M' memory stream s') ∧
      ∀ s s', Plays server nodeId M memory stream s → Plays server nodeId M' memory stream s' →
        SameOutcome M M' s s'
  runs : ∀ labels s,
    Path (stepWith server nodeId M) WakesBetweenFrames (openedWith server nodeId M memory)
      labels s →
    ∃ labels' s',
      Path (stepWith server nodeId M') WakesBetweenFrames (openedWith server nodeId M' memory)
        labels' s' ∧
      labels'.filter Label.stimulus = labels.filter Label.stimulus ∧ SameOutcome M M' s s'

/-- Discarding a long string is indistinguishable from buffering it. -/
theorem discarding_is_buffering (server : Server N) (nodeId : Str) (memory : Memory server.keys)
    {M M' : ℕ} (hM : Covers server.keys M) (hM' : Covers server.keys M') :
    Indistinguishable server nodeId memory M M' := by
  constructor
  · intro stream
    exact ⟨exists_plays memory stream, exists_plays memory stream,
      fun s s' hs hs' => hs.same hM hM' hs'⟩
  · intro labels s hpath
    obtain ⟨labels', s', hpath', htwin, hlabels⟩ := hpath.simulate
      (fun u u' l v h hl hv => h.step hM hM' wakesBetweenFrames_impartial hl hv)
      (twin_opened memory)
    exact ⟨labels', s', hpath', hlabels, htwin.sameOutcome⟩

theorem discarding_is_buffering_lamp :
    Indistinguishable lampServer Str.empty lampMemory 0 64 :=
  discarding_is_buffering lampServer Str.empty lampMemory (fun _ => Nat.zero_le 0)
    fun _ => Nat.zero_le 64

end Qup.Embassy
