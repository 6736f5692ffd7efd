import Qup.Embassy.Fits
import Qup.Embassy.Notifications
import Qup.Embassy.Progress

/-!
# A server that starts can serve

The converse of `Fits.not_internal`. Whatever does not fit, one request stops
the server: `IDENTIFY`, `GETKEY` of the name or `GET` of the value, which may
first have to be set by another task. With the handlers' meaning run alone, each
of these runs is a start, at most one `try_set`, and a single frame.
-/

namespace Qup.Embassy
open Foundation Foundation.Utf8

variable {N : ℕ} {server : Server N} {nodeId : Str}

/-- Whatever well-formed requests a client sends and whatever values of `sets`
other tasks set, `run` does not stop for a reason of its own. -/
def Serves (server : Server N) (nodeId : Str) (memory : Memory server.keys)
    (sets : (i : Fin N) → (server.keys i).type.Value → Prop) : Prop :=
  ∀ (messages : List MessageRef) (labels : List (Label server.keys)) (s : Connection server),
    (∀ m ∈ messages, m.WellFormed .clientToNode) → arrivals labels <+: streamOf messages →
    Path (Sys.step (programs server nodeId)) (fun _ l => l.Sets sets)
      (Sys.initial (programs server nodeId) memory) labels s →
    ∀ e, s.ctrl = .stopped e → ¬ Internal e

namespace Server

theorem findSlot_keyref_self (hdistinct : Function.Injective fun i => (server.keys i).keyref)
    (i : Fin N) : server.findSlot (server.keys i).keyref = some i := by
  cases hslot : server.findSlot (server.keys i).keyref with
  | none =>
    have hnone := List.find?_eq_none.mp hslot i (List.mem_finRange i)
    simp at hnone
  | some j => rw [hdistinct (findSlot_keyref hslot)]

theorem toNat_saturatingSucc (x : UInt16) : (saturatingSucc x).toNat = min (x.toNat + 1) 65535 := by
  have hlt := x.toNat_lt
  unfold saturatingSucc
  split_ifs with h
  · rw [h]
    rfl
  · have hne : x.toNat ≠ 65535 := fun hx => h (UInt16.toNat_inj.mp hx)
    have hmod : (x.toNat + 1) % 2 ^ 16 = x.toNat + 1 := Nat.mod_eq_of_lt (by omega)
    rw [UInt16.toNat_add]
    change (x.toNat + 1) % 2 ^ 16 = _
    omega

theorem toNat_max (x y : UInt16) : (max x y).toNat = max x.toNat y.toNat := by
  change (if x ≤ y then y else x).toNat = _
  split_ifs with h <;> rw [UInt16.le_iff_toNat_le] at h <;> omega

/-- The count is the least bound of the keyrefs that a `u16` holds. -/
theorem keyCount_le_iff (server : Server N) (n : ℕ) : server.keyCount.toNat ≤ n ↔
    ∀ i, min ((server.keys i).keyref.toNat + 1) 65535 ≤ n := by
  have hfold : ∀ (js : List (Fin N)) (x : UInt16),
      (js.foldl (fun maxKeyref j => max maxKeyref (saturatingSucc (server.keys j).keyref))
        x).toNat ≤ n ↔ x.toNat ≤ n ∧ ∀ j ∈ js, min ((server.keys j).keyref.toNat + 1) 65535 ≤ n := by
    intro js
    induction js with
    | nil => simp
    | cons k js ih =>
      intro x
      rw [List.foldl_cons, ih, toNat_max, toNat_saturatingSucc, List.forall_mem_cons, max_le_iff,
        and_assoc]
  rw [keyCount, hfold]
  simp

theorem keyref_lt_keyCount {i : Fin N} (h : (server.keys i).keyref ≠ 65535) :
    ¬ server.keyCount ≤ (server.keys i).keyref := by
  have hle := (server.keyCount_le_iff _).mp (le_refl _) i
  have hlt := (server.keys i).keyref.toNat_lt
  have hne : (server.keys i).keyref.toNat ≠ 65535 := fun hx => h (UInt16.toNat_inj.mp hx)
  rw [UInt16.le_iff_toNat_le]
  omega

end Server

abbrev alone {keys : Fin N → ErasedKey} {α : Type} (p : Action keys α) (m : Memory keys) :
    Except Exit α × Memory keys := p.eval (fun o m => o.exec true m) m

namespace Server
variable {m : Memory server.keys}

theorem alone_attachNotifiers (rest : List (Fin N)) (m : Memory server.keys) :
    (alone (server.attachNotifiers rest) m).1 = .ok () ∧
      (alone (server.attachNotifiers rest) m).2.value = m.value := by
  induction rest generalizing m with
  | nil => exact ⟨rfl, rfl⟩
  | cons i rest ih =>
    have hattach : (alone (Key.attachNotifier i server.notifier) m).1 = .ok () ∧
        (alone (Key.attachNotifier i server.notifier) m).2.value = m.value := by
      unfold Key.attachNotifier
      split_ifs <;> exact ⟨rfl, rfl⟩
    have hrest := ih (alone (Key.attachNotifier i server.notifier) m).2
    rw [hattach.2] at hrest
    unfold alone at hattach hrest ⊢
    rw [attachNotifiers, Program.eval_bind_ok hattach.1]
    exact hrest

theorem alone_startup (hproper : server.Proper) (hid : validateWireString nodeId = .ok ())
    (m : Memory server.keys) : (alone (server.startup nodeId) m).1 = .ok () ∧
      (alone (server.startup nodeId) m).2.value = m.value := by
  have hattach := server.alone_attachNotifiers (List.finRange N) m
  unfold alone at hattach ⊢
  rw [startup, hid]
  simp only
  rw [Program.eval_bind_ok hattach.1,
    if_pos (uniqueKeyrefs_of_injective hproper.distinct (List.nodup_finRange N))]
  exact ⟨rfl, hattach.2⟩

def Fails (nodeId : Str) (request : IncomingRequest) (l : Locals N) (m : Memory server.keys) :
    Prop :=
  ∃ e, (alone (server.handleRequest nodeId request l) m).1 = .error e ∧ Internal e

theorem identify_fails (h : 65533 < nodeId.length) (l : Locals N) (m : Memory server.keys) :
    Fails nodeId .identify l m := by
  have hsend : server.sendStr16Response .identified nodeId =
      server.internal "response string exceeded u16 wire length" := by
    unfold sendStr16Response
    split_ifs with hlen
    · have hmod := toNat_ofNat16 hlen
      simp only [hmod]
      rw [if_neg (by omega)]
    · rfl
  refine ⟨.error (.internal "response string exceeded u16 wire length"), ?_, trivial⟩
  simp only [alone, handleRequest, hsend]
  rfl

theorem sendKeyResponse_internal (server : Server N) {key : ErasedKey}
    (h : 65532 < key.name.length) :
    server.sendKeyResponse key = server.internal "key name exceeded u16 wire length" := by
  unfold sendKeyResponse
  split_ifs with hlen
  · have hmod := toNat_ofNat16 hlen
    simp only [hmod]
    rw [if_neg (by omega)]
  · rfl

theorem getKey_fails {i : Fin N} (hproper : server.Proper) (hi : (server.keys i).keyref ≠ 65535)
    (h : 65532 < (server.keys i).name.length) (l : Locals N) (m : Memory server.keys) :
    Fails nodeId (.getKey (server.keys i).keyref) l m := by
  have hsend := server.sendKeyResponse_internal h
  refine ⟨.error (.internal "key name exceeded u16 wire length"), ?_, trivial⟩
  simp only [alone, handleRequest]
  rw [if_neg (keyref_lt_keyCount hi), findSlot_keyref_self hproper.distinct]
  simp only [hsend]
  rfl

theorem validate_of_onWire {t : KeyType} (v : t.Value) (h : (LawfulQupValue.wire v).OnWire) :
    QupValue.validate v = .ok () := by
  cases t with
  | bool => rfl
  | i64 => rfl
  | string n => exact (HString.validate_ok_iff _).mpr h
  | derived e => rfl

theorem get_fails {i : Fin N} (hproper : server.Proper) (h : ¬ Fit server i (m.value i))
    (l : Locals N) : Fails nodeId (.get (server.keys i).keyref) l m := by
  simp only [Fit, Classical.not_imp] at h
  obtain ⟨hread, hi, hunfit⟩ := h
  unfold Fails
  simp only [handleRequest]
  rw [if_neg (keyref_lt_keyCount hi), findSlot_keyref_self hproper.distinct]
  simp only [hread, Bool.not_true, Bool.false_eq_true, if_false]
  have hcurrent : (alone (Key.encodeCurrentValue i server.maxResponse) m).1 =
      .ok (QupValue.encode (m.value i) server.maxResponse) := rfl
  simp only [alone]
  rw [Program.eval_bind_ok hcurrent]
  cases hencode : QupValue.encode (m.value i) server.maxResponse with
  | error e =>
    cases e with
    | invalid e =>
      exact ⟨.error (.internal "stored value could not be encoded"), rfl, trivial⟩
    | panic => exact ⟨.panic, rfl, trivial⟩
  | ok payload =>
    obtain ⟨rfl, hwire⟩ := LawfulQupValue.encode_ok hencode
    have hlen : ¬ (wireOf (m.value i)).bytes.length ≤ 65535 := fun hlen =>
      hunfit ⟨validate_of_onWire _ hwire, hlen⟩
    refine ⟨.error (.internal "response payload exceeded u16 wire length"), ?_, trivial⟩
    simp only [sendFrame]
    rw [if_neg hlen]
    rfl

end Server

theorem arrivals_own {s s' : Connection server} {labels : List (Label server.keys)}
    (h : Path (Sys.step (programs server nodeId)) (fun _ l => l.Own) s labels s') :
    arrivals labels = [] := by
  induction h with
  | nil => rfl
  | @snoc _ _ _ l _ hown _ ih =>
    rw [arrivals_append, ih, List.nil_append]
    cases l with
    | arrive bytes => exact hown.elim
    | _ => rfl

theorem Label.Own.sets {l : Label server.keys} (h : l.Own)
    (sets : (i : Fin N) → (server.keys i).type.Value → Prop) : l.Sets sets := by
  cases l with
  | spawn i v => exact h.elim
  | _ => trivial

structure Started (m : Memory server.keys) (s : Connection server) : Prop where
  reading : ∃ l, s.ctrl = .reading l (readRequest server.maxStr) 0
  inbox_nil : s.inbox = []
  value_eq : s.memory.value = m.value

theorem exists_started (hproper : server.Proper) (hid : Server.validateWireString nodeId = .ok ())
    (m : Memory server.keys) : ∃ labels s, Started m s ∧
      Path (Sys.step (programs server nodeId)) (fun _ l => l.Own)
        (Sys.initial (programs server nodeId) m) labels s := by
  obtain ⟨hresult, hvalue⟩ := Server.alone_startup hproper hid m
  obtain ⟨s, ⟨labels, hpath, hinbox⟩, hmemory, hctrl⟩ := drives_eval nodeId
    (programs server nodeId).start (Sys.initial (programs server nodeId) m) rfl
  have hstart : alone (programs server nodeId).start m =
      (.ok (Locals.initial N), (alone (server.startup nodeId) m).2) := by
    change Program.eval _ (server.startup nodeId >>= fun _ => pure (Locals.initial N)) m = _
    rw [Program.eval_bind_ok hresult]
    rfl
  change s.memory = (alone (programs server nodeId).start m).2 at hmemory
  change s.ctrl = ended .starting (alone (programs server nodeId).start m).1 at hctrl
  rw [hstart] at hmemory hctrl
  have hreturned : s.ctrl = .running .starting (.ret (Locals.initial N)) := hctrl
  have hfinish : s.step (programs server nodeId) .finish =
      some (s.select (Locals.initial N)) :=
    Sys.Steps.step_eq (.finish .starting (.ret _) _ hreturned rfl)
  refine ⟨labels ++ [.finish], s.select (Locals.initial N), ⟨⟨_, rfl⟩, hinbox, ?_⟩,
    hpath.trans (Path.one (l := Label.finish) trivial hfinish)⟩
  change s.memory.value = m.value
  rw [hmemory, hvalue]

theorem Started.set {m : Memory server.keys} {s : Connection server} (hs : Started m s)
    {i : Fin N} {v : (server.keys i).type.Value} (hvalid : QupValue.validate v = .ok ())
    {sets : (i : Fin N) → (server.keys i).type.Value → Prop} (hv : sets i v) :
    ∃ s', s'.memory.value i = v ∧ Started s'.memory s' ∧
      Path (Sys.step (programs server nodeId)) (fun _ l => l.Sets sets) s
        [.spawn i v, .update s.updates.length] s' := by
  obtain ⟨l, hctrl⟩ := hs.reading
  have hspawn : s.step (programs server nodeId) (.spawn i v) =
      some { s with updates := s.updates ++ [Key.trySet i v] } := rfl
  have hlast : (s.updates ++ [Key.trySet i v])[s.updates.length]? =
      some (.act (.storeValue i v) fun (previous : (server.keys i).type.Value) =>
        Key.notifyChanged i >>= fun _ => pure (.ok (decide (previous ≠ v)))) := by
    rw [List.getElem?_concat_length, Key.trySet, hvalid]
  have hstore : ∃ s', Sys.step (programs server nodeId)
      { s with updates := s.updates ++ [Key.trySet i v] } (.update s.updates.length) = some s' ∧
      s'.memory.value = Function.update s.memory.value i v ∧ s'.ctrl = s.ctrl ∧
        s'.inbox = s.inbox :=
    ⟨_, Sys.Steps.step_eq (.update _ _ _ _ hlast rfl), rfl, rfl, rfl⟩
  obtain ⟨s', hstep, hvalue, hctrl', hinbox⟩ := hstore
  refine ⟨s', ?_, ⟨⟨l, hctrl'.trans hctrl⟩, hinbox.trans hs.inbox_nil, rfl⟩,
    (Path.one (l := Label.spawn i v) hv hspawn).trans
      (Path.one (l := Label.update _) trivial hstep)⟩
  rw [hvalue, Function.update_self]

theorem exists_stopped {m : Memory server.keys} {s : Connection server} (hs : Started m s)
    {message : MessageRef} (hwf : message.WellFormed .clientToNode) {q : IncomingRequest}
    (hq : incoming server.maxStr message = some q)
    (hfails : ∀ l, Server.Fails nodeId q l s.memory) :
    ∃ labels s' e, Path (Sys.step (programs server nodeId)) (fun _ l => l.Own)
        { s with inbox := message.frame } labels s' ∧
      s'.ctrl = .stopped e ∧ Internal e := by
  obtain ⟨l, hctrl⟩ := hs.reading
  obtain ⟨q', hq', hread⟩ := run_readRequest_frame server.maxStr hwf
  obtain rfl : q = q' := Option.some.inj (hq.symm.trans hq')
  have hread' := hread []
  rw [List.append_nil] at hread'
  obtain ⟨labels, t, hpath, htask, hmemory, -⟩ := drives_serve nodeId (readRequest server.maxStr)
    { s with inbox := message.frame } 0 hctrl hread'
  obtain ⟨u, ⟨labels', hpath', -⟩, -, hend⟩ := drives_eval nodeId _ t htask
  obtain ⟨e, he, hinternal⟩ := hfails l
  rw [hmemory] at hend
  change u.ctrl = ended (.handling q) (alone (server.handleRequest nodeId q l) s.memory).1 at hend
  rw [he] at hend
  exact ⟨labels ++ labels', u, e, hpath.trans hpath', hend, hinternal⟩

variable {memory : Memory server.keys} {sets : (i : Fin N) → (server.keys i).type.Value → Prop}

theorem Serves.not_fails (h : Serves server nodeId memory sets) {labels : List (Label server.keys)}
    {s : Connection server} (hrun : Path (Sys.step (programs server nodeId))
      (fun _ l => l.Sets sets) (Sys.initial (programs server nodeId) memory) labels s)
    (harrivals : arrivals labels = []) {m : Memory server.keys} (hs : Started m s)
    {message : MessageRef} (hwf : message.WellFormed .clientToNode) {q : IncomingRequest}
    (hq : incoming server.maxStr message = some q) :
    ¬ ∀ l, Server.Fails nodeId q l s.memory := by
  intro hfails
  obtain ⟨labels', s', e, hpath, hctrl, hinternal⟩ := exists_stopped hs hwf hq hfails
  have harrive : s.step (programs server nodeId) (.arrive message.frame) =
      some { s with inbox := message.frame } := by
    simp only [Sys.step, hs.inbox_nil, List.nil_append]
  have hall := (hrun.trans (Path.one (P := fun _ l => l.Sets sets) trivial harrive)).trans
    (hpath.mono fun _ l hl => hl.sets sets)
  refine h [message] _ s' (fun m hm => List.mem_singleton.mp hm ▸ hwf) ?_ hall e hctrl hinternal
  rw [arrivals_append, arrivals_append, harrivals, arrivals_own hpath]
  simp [arrivals]

/-- A server serves exactly when its node id, its key names and its values fit
the frames that have to carry them. -/
theorem serves_iff_fits (server : Server N) (hproper : server.Proper) (nodeId : Str)
    (hid : Server.validateWireString nodeId = .ok ()) (memory : Memory server.keys)
    (sets : (i : Fin N) → (server.keys i).type.Value → Prop) :
    Serves server nodeId memory sets ↔ Fits server nodeId memory sets := by
  constructor
  · intro h
    obtain ⟨labels, s, hs, hown⟩ := exists_started hproper hid memory
    have hrun := hown.mono fun _ l hl => Label.Own.sets hl sets
    have hnone := arrivals_own hown
    have hidentify : (MessageRef.request .identify).WellFormed .clientToNode :=
      ⟨by decide, trivial, by decide⟩
    have hgetKey : ∀ r, (MessageRef.request (.getKey r)).WellFormed .clientToNode := fun r =>
      ⟨show Opcode.getkey.Legal .clientToNode by decide, trivial,
        by simp [MessageRef.payload, RequestRef.payload]⟩
    have hget : ∀ r, (MessageRef.request (.get r)).WellFormed .clientToNode := fun r =>
      ⟨show Opcode.get.Legal .clientToNode by decide, trivial,
        by simp [MessageRef.payload, RequestRef.payload]⟩
    refine ⟨?_, fun i hi => ?_, fun i => ?_, fun i v hv hvalid => ?_⟩
    · by_contra hlong
      exact h.not_fails hrun hnone hs hidentify rfl
        fun l => Server.identify_fails (by omega) l s.memory
    · by_contra hlong
      exact h.not_fails hrun hnone hs (hgetKey (server.keys i).keyref) rfl
        fun l => Server.getKey_fails hproper hi (by omega) l s.memory
    · by_contra hunfit
      rw [← hs.value_eq] at hunfit
      exact h.not_fails hrun hnone hs (hget (server.keys i).keyref) rfl
        fun l => Server.get_fails hproper hunfit l
    · by_contra hunfit
      obtain ⟨s', hvalue, hs', hset⟩ := @Started.set N server nodeId _ _ hs _ _ hvalid _ hv
      rw [← hvalue] at hunfit
      exact h.not_fails (hrun.trans hset) (by rw [arrivals_append, hnone]; rfl) hs'
        (hget (server.keys i).keyref) rfl fun l => Server.get_fails hproper hunfit l
  · intro hfits messages labels s _ _ hrun
    exact hfits.not_internal hproper hid hrun

theorem serves_lamp : Serves lampServer Str.empty lampMemory fun _ _ => True := by
  have hfit : ∀ i v, Fit lampServer i v := fun _ v _ _ => ⟨rfl, show 2 ≤ 65535 by decide⟩
  exact (serves_iff_fits lampServer lampServer_proper Str.empty rfl lampMemory _).mpr
    ⟨by decide, fun _ _ => show 1 ≤ 65532 by decide, fun i => hfit i _, fun i v _ _ => hfit i v⟩

def label : ErasedKey where
  type := .string 1
  perm := .r
  name := lamp.name
  keyref := 0
  nameOnWire := lamp.nameOnWire

def labelServer : Server 1 := .ofRun (fun _ => label) 0

/-- `Key::with_initial` with a string that `try_set` would refuse. -/
def labelMemory : Memory labelServer.keys where
  value _ := show HString 1 from ⟨⟨[0x00], by decide⟩, by decide⟩
  generation _ := 0
  changeSignal _ := false
  notifier _ := none
  latch _ := false

def readLabel : List (Label labelServer.keys) :=
  [.finish, .arrive (MessageRef.request (.get 0)).frame, .read, .read, .read, .serve, .act true,
    .finish]

theorem starts_but_cannot_serve : labelServer.Proper ∧
    Server.validateWireString Str.empty = .ok () ∧
    ¬ Serves labelServer Str.empty labelMemory fun _ _ => True := by
  have hproper : labelServer.Proper :=
    ⟨Server.ofRun_sized _ _, fun i j _ => Subsingleton.elim i j⟩
  refine ⟨hproper, rfl, fun hserves => ?_⟩
  have hrun : ((runLabels (Sys.step (programs labelServer Str.empty))
      (Sys.initial (programs labelServer Str.empty) labelMemory) readLabel).bind
        fun s => s.ctrl.exit) =
      some (.error (.internal "stored value could not be encoded")) := by decide +kernel
  obtain ⟨s, hs, hexit⟩ := Option.bind_eq_some_iff.mp hrun
  have hsets : ∀ l : Label labelServer.keys, l.Sets fun _ _ => True := fun l => by
    cases l <;> trivial
  refine hserves [.request (.get 0)] readLabel s ?_ (by decide)
    ((Path.of_runLabels hs).mono fun _ l _ => hsets l) _ (Ctrl.exit_eq_some hexit) trivial
  intro m hm
  obtain rfl := List.mem_singleton.mp hm
  exact ⟨by decide, trivial, by decide⟩

end Qup.Embassy
