import Qup.Embassy.Request

/-!
# The streaming reader against the core parser

`coreRequest` is the reference: read a whole frame, check it, then decode its
payload. For each body reader of the server, `Settles` says that it consumes the
payload and the checksum byte and ends as decoding the payload ends; the
refinement of whole streams is assembled from these.
-/

namespace Qup.Embassy
open Foundation Foundation.Utf8

inductive CoreError where
  | read (error : ReadFrameError)
  | payload (error : PayloadError)
  deriving DecidableEq

def mapFail {α ε ε' : Type} (g : ε → ε') : Reader UInt8 ε α → Reader UInt8 ε' α
  | .ret a => .ret a
  | .fail e => .fail (g e)
  | .act n k => .act n fun bs => mapFail g (k bs)

theorem run_mapFail {α ε ε' : Type} (g : ε → ε') (p : Reader UInt8 ε α) (s : List UInt8) :
    Reader.run (mapFail g p) s = match Reader.run p s with
      | .starved => .starved
      | .failed e rest => .failed (g e) rest
      | .done a rest => .done a rest := by
  induction p generalizing s with
  | ret a => rfl
  | fail e => rfl
  | act n k ih =>
    rw [mapFail, Reader.run_act, Reader.run_act]
    split_ifs
    · exact ih _ _
    · rfl

/-- `read_frame` with a buffer of 65535 bytes, then `FrameView::decode_message`. -/
def coreRequest : Reader UInt8 CoreError MessageRef := do
  let view ← mapFail .read (readFrame .clientToNode 65535)
  Program.lift ((MessageRef.decode view.opcode view.payload).mapError .payload)

def wireValue (maxStr : ℕ) : ValueRef → WireValueRef
  | .bool b => .bool b
  | .i64 x => .i64 x
  | .str s => if s.length ≤ maxStr then .str s else .oversizedStr

def incoming (maxStr : ℕ) : MessageRef → Option IncomingRequest
  | .request .ping => some .ping
  | .request .identify => some .identify
  | .request .getKeytabLen => some .getKeytabLen
  | .request (.getKey keyref) => some (.getKey keyref)
  | .request (.get keyref) => some (.get keyref)
  | .request (.write keyref value) => some (.write keyref (wireValue maxStr value))
  | .request (.observe keyref) => some (.observe keyref)
  | .request (.unobserve keyref) => some (.unobserve keyref)
  | .compatibilityRequest => some .getCaps
  | .ordinaryResponse _ | .compatibilityResponse _ | .error _ | .changed _ => none

/-- The server accepts a payload as `q` only where decoding accepts it as the
message that `q` stands for, and rejects it where decoding does. -/
def Agrees (maxStr : ℕ) (decoded : Except PayloadError MessageRef) :
    Except PayloadError IncomingRequest → Prop
  | .ok q => ∃ m, decoded = .ok m ∧ incoming maxStr m = some q
  | .error _ => ∀ m, decoded ≠ .ok m

def Settles (maxStr : ℕ) (payload : List UInt8) (decoded : Except PayloadError MessageRef)
    (body : FrameSum → RequestReader IncomingRequest) : Prop :=
  ∃ r, Agrees maxStr decoded r ∧ ∀ sum c t,
    Reader.run (body sum) (payload ++ c :: t) = settle (sum + frameSum payload + c) r t

variable {maxStr : ℕ}

theorem settles_reject {payload : List UInt8} {n : ℕ} (hn : payload.length = n)
    {decoded : Except PayloadError MessageRef} (hd : ∀ m, decoded ≠ .ok m) (e : PayloadError) :
    Settles maxStr payload decoded (fun sum => rejectPayload n sum e) :=
  ⟨.error e, hd, fun sum c t => run_rejectPayload hn sum e c t⟩

theorem settles_lengthError {payload : List UInt8} {n : ℕ} (hn : payload.length = n) (len : ℕ)
    {decoded : Except PayloadError MessageRef} (hd : ∀ m, decoded ≠ .ok m) :
    Settles maxStr payload decoded (fun sum => do
      let sum ← discardExact n sum
      finishChecksum sum
      let e ← lengthError n len
      .fail (payloadError e)) := by
  refine ⟨.error (if n < len then .internalLengthExceedsPayload else .trailingBytes (n - len)), hd,
    fun sum c t => ?_⟩
  rw [run_discardExact_bind hn, run_finishChecksum_bind]
  unfold settle
  split_ifs with hs hlt
  · simp [lengthError, hlt]
  · simp [lengthError, hlt, checkedSub, Nat.le_of_not_lt hlt]
  · rfl

theorem ofNat16_eq_iff {n m : ℕ} (hn : n ≤ 65535) (hm : m ≤ 65535) :
    UInt16.ofNat n = UInt16.ofNat m ↔ n = m := by
  rw [← UInt16.toNat_inj, toNat_ofNat16 hn, toNat_ofNat16 hm]

theorem settles_empty {payload : List UInt8} (hlen : payload.length ≤ 65535) (opcode : Opcode)
    {m : MessageRef} {q : IncomingRequest} (hq : incoming maxStr m = some q) :
    Settles maxStr payload ((expectEmpty opcode payload).map fun _ => m)
      (fun sum => readEmptyRequest opcode (UInt16.ofNat payload.length) sum q) := by
  unfold readEmptyRequest
  by_cases h0 : payload.length = 0
  · obtain rfl : payload = [] := List.eq_nil_of_length_eq_zero h0
    refine ⟨.ok q, ⟨m, rfl, hq⟩, fun sum c t => ?_⟩
    simpa using run_finishChecksum_pure sum c t q
  · have hne : UInt16.ofNat payload.length ≠ 0 := fun h =>
      h0 ((ofNat16_eq_iff hlen (Nat.zero_le _)).mp h)
    simp only [if_pos hne]
    refine settles_reject (toNat_ofNat16 hlen).symm (fun n hn => h0 ?_) _
    rw [((expectEmpty_ok_iff _ _ _ _).mp hn).1]
    rfl

theorem settles_keyref {payload : List UInt8} (hlen : payload.length ≤ 65535) (opcode : Opcode)
    {constructor : UInt16 → RequestRef} {make : UInt16 → IncomingRequest}
    (hq : ∀ keyref, incoming maxStr (.request (constructor keyref)) = some (make keyref)) :
    Settles maxStr payload (decodeKeyrefRequest opcode payload constructor)
      (fun sum => readKeyrefRequest opcode (UInt16.ofNat payload.length) sum make) := by
  unfold readKeyrefRequest
  by_cases h2 : payload.length = 2
  · obtain ⟨hi, lo, rfl⟩ := List.length_eq_two.mp h2
    refine ⟨.ok (make (ofBe16 hi lo)), ⟨.request (constructor (ofBe16 hi lo)), ?_, hq _⟩,
      fun sum c t => ?_⟩
    · exact (decodeKeyrefRequest_ok_iff _ _ _ _).mpr ⟨_, (be16_ofBe16 hi lo).symm, rfl⟩
    · have h := @run_readExactTracked_bind _ [hi, lo] _ rfl sum (c :: t) fun r =>
        finishChecksum r.2 >>= fun _ =>
          (.ret (make (ofBe16 (byteAt r.1 0) (byteAt r.1 1))) : RequestReader IncomingRequest)
      rw [run_finishChecksum_pure] at h
      exact h
  · have hne : UInt16.ofNat payload.length ≠ 2 := fun h =>
      h2 ((ofNat16_eq_iff hlen (by omega)).mp h)
    simp only [if_pos hne]
    refine settles_reject (toNat_ofNat16 hlen).symm (fun n hn => h2 ?_) _
    obtain ⟨keyref, rfl, -⟩ := (decodeKeyrefRequest_ok_iff _ _ _ _).mp hn
    exact length_be16 keyref

theorem decodeWrite_cons_ok_iff (a b kind : UInt8) (body : List UInt8) (m : MessageRef) :
    decodeWrite (a :: b :: kind :: body) = .ok m ↔
      ∃ value, kind :: body = ValueRef.bytes value ∧ value.OnWire ∧
        m = .request (.write (ofBe16 a b) value) := by
  rw [decodeWrite_ok_iff]
  constructor
  · rintro ⟨keyref, value, hp, hw, rfl⟩
    simp only [be16, List.cons_append, List.nil_append, List.cons.injEq] at hp
    obtain ⟨rfl, rfl, hbody⟩ := hp
    exact ⟨value, hbody, hw, by rw [ofBe16_be16]⟩
  · rintro ⟨value, hbody, hw, rfl⟩
    exact ⟨ofBe16 a b, value, by rw [be16_ofBe16, ← hbody]; rfl, hw, rfl⟩

theorem ValueRef.bytes_kind {k : ValueKind} {body : List UInt8} {value : ValueRef}
    (h : k.asByte :: body = value.bytes) :
    match k, value with
    | .bool, .bool b => body = [boolByte b]
    | .i64, .i64 x => body = be64 x
    | .str, .str s => body = str16 s
    | _, _ => False := by
  cases k <;> cases value <;>
    simp only [ValueRef.bytes, ValueKind.asByte, List.cons.injEq, true_and] at h ⊢ <;>
    first | exact h | exact absurd h.1 (by decide)

theorem decodeWireString_ok_iff (bs : List UInt8) (s : Str) :
    decodeWireString bs = .ok s ↔ s.bytes = bs ∧ bs.contains 0x00 = false := by
  unfold decodeWireString
  by_cases h0 : bs.contains 0x00 = true
  · rw [if_pos h0]
    refine ⟨fun h => (by cases h), fun h => ?_⟩
    rw [h0] at h
    cases h.2
  · rw [if_neg h0]
    cases hu : fromUtf8 bs with
    | ok s' =>
      have hs' := fromUtf8_ok_iff.mp hu
      have h0' : bs.contains 0x00 = false := by simpa using h0
      simp only [Except.ok.injEq, h0', and_true]
      exact ⟨fun h => h ▸ hs', fun h => Str.ext (hs'.trans h.symm)⟩
    | error e =>
      refine ⟨fun h => (by cases h), fun h => ?_⟩
      rw [fromUtf8_ok_iff.mpr h.1] at hu
      cases hu

section
variable (a b : UInt8)

theorem settles_bool (body : List UInt8) :
    Settles maxStr body (decodeWrite (a :: b :: ValueKind.bool.asByte :: body))
      (readBoolBody (ofBe16 a b) body.length) := by
  unfold readBoolBody
  by_cases h1 : body.length = 1
  · obtain ⟨x, rfl⟩ := List.length_eq_one_iff.mp h1
    refine ⟨(decodeBool x).map fun v => .write (ofBe16 a b) (.bool v), ?_, fun sum c t => ?_⟩
    · cases hx : decodeBool x with
      | error e =>
        intro m hm
        obtain ⟨value, hbody, -, -⟩ := (decodeWrite_cons_ok_iff _ _ _ _ _).mp hm
        have hk := ValueRef.bytes_kind hbody
        cases value <;> simp only at hk
        obtain ⟨rfl, -⟩ := List.cons.inj hk
        rw [decodeBool_boolByte] at hx
        cases hx
      | ok v =>
        refine ⟨.request (.write (ofBe16 a b) (.bool v)), ?_, rfl⟩
        exact (decodeWrite_cons_ok_iff _ _ _ _ _).mpr
          ⟨.bool v, by rw [decodeBool_ok hx]; rfl, trivial, rfl⟩
    · simp only [List.length_singleton, ne_eq, not_true_eq_false, if_false]
      rw [run_readExactTracked_bind h1]
      simp only [byteAt, List.getD_cons_zero]
      rw [run_finishChecksum_bind]
      unfold settle
      split_ifs
      · cases decodeBool x <;> rfl
      · rfl
  · simp only [ne_eq, h1, not_false_eq_true, if_true]
    refine settles_lengthError rfl 1 fun m hm => h1 ?_
    obtain ⟨value, hbody, -, -⟩ := (decodeWrite_cons_ok_iff _ _ _ _ _).mp hm
    have hk := ValueRef.bytes_kind hbody
    cases value <;> simp only at hk
    rw [hk]
    rfl

theorem settles_i64 (body : List UInt8) :
    Settles maxStr body (decodeWrite (a :: b :: ValueKind.i64.asByte :: body))
      (readI64Body (ofBe16 a b) body.length) := by
  unfold readI64Body
  by_cases h8 : body.length = 8
  · refine ⟨.ok (.write (ofBe16 a b) (.i64 (ofBe64 body))),
      ⟨.request (.write (ofBe16 a b) (.i64 (ofBe64 body))), ?_, rfl⟩, fun sum c t => ?_⟩
    · exact (decodeWrite_cons_ok_iff _ _ _ _ _).mpr
        ⟨.i64 (ofBe64 body), by rw [ValueRef.bytes, be64_ofBe64 h8], trivial, rfl⟩
    · simp only [h8, ne_eq, not_true_eq_false, if_false]
      rw [run_readExactTracked_bind h8]
      exact run_finishChecksum_pure _ c t _
  · simp only [ne_eq, h8, not_false_eq_true, if_true]
    refine settles_lengthError rfl 8 fun m hm => h8 ?_
    obtain ⟨value, hbody, -, -⟩ := (decodeWrite_cons_ok_iff _ _ _ _ _).mp hm
    have hk := ValueRef.bytes_kind hbody
    cases value <;> simp only at hk
    rw [hk, length_be64]

theorem decodeWrite_str_ok {body : List UInt8} {m : MessageRef}
    (hm : decodeWrite (a :: b :: ValueKind.str.asByte :: body) = .ok m) :
    ∃ s, body = str16 s ∧ WireStr s := by
  obtain ⟨value, hbody, hw, -⟩ := (decodeWrite_cons_ok_iff _ _ _ _ _).mp hm
  have hk := ValueRef.bytes_kind hbody
  cases value <;> simp only at hk
  exact ⟨_, hk, hw⟩

theorem decodeWrite_str_agrees {hi lo : UInt8} {bytes : List UInt8}
    (hn : bytes.length = (ofBe16 hi lo).toNat) :
    match decodeWireString bytes with
    | .ok s => decodeWrite (a :: b :: ValueKind.str.asByte :: hi :: lo :: bytes) =
        .ok (.request (.write (ofBe16 a b) (.str s)))
    | .error _ => ∀ m,
        decodeWrite (a :: b :: ValueKind.str.asByte :: hi :: lo :: bytes) ≠ .ok m := by
  have hlt := (ofBe16 hi lo).toNat_lt
  cases hd : decodeWireString bytes with
  | ok s =>
    obtain ⟨rfl, hnul⟩ := (decodeWireString_ok_iff _ _).mp hd
    have hs : str16 s = hi :: lo :: s.bytes := by
      rw [str16, Str.length, hn, UInt16.ofNat_toNat, be16_ofBe16]
      rfl
    refine (decodeWrite_cons_ok_iff _ _ _ _ _).mpr ⟨.str s, by rw [ValueRef.bytes, hs], ?_, rfl⟩
    exact ⟨hnul, by rw [Str.length]; omega⟩
  | error e =>
    intro m hm
    obtain ⟨s, hs, hw⟩ := decodeWrite_str_ok a b hm
    rw [str16, be16] at hs
    simp only [List.cons_append, List.nil_append, List.cons.injEq] at hs
    rw [(decodeWireString_ok_iff bytes s).mpr ⟨hs.2.2.symm, by rw [hs.2.2]; exact hw.noNul⟩] at hd
    cases hd

theorem settles_str (body : List UInt8) :
    Settles maxStr body (decodeWrite (a :: b :: ValueKind.str.asByte :: body))
      (readStrBody maxStr (ofBe16 a b) body.length) := by
  unfold readStrBody
  have hshort : ∀ {body : List UInt8}, body.length < 2 → ∀ m,
      decodeWrite (a :: b :: ValueKind.str.asByte :: body) ≠ .ok m := by
    intro body hbody m hm
    obtain ⟨s, hs, -⟩ := decodeWrite_str_ok a b hm
    rw [hs, str16, List.length_append, length_be16] at hbody
    omega
  rcases body with _ | ⟨hi, _ | ⟨lo, bytes⟩⟩
  · exact settles_reject rfl (hshort (by simp)) _
  · exact settles_reject rfl (hshort (by simp)) _
  · have hpre : ∀ sum : FrameSum, sum + frameSum (hi :: lo :: bytes) =
        sum + frameSum [hi, lo] + frameSum bytes := fun sum => by
      rw [UInt8.add_assoc, ← frameSum_append]
      rfl
    have hstart : ∀ (sum : FrameSum) (t : List UInt8) f, Reader.run
        (readExactTracked 2 sum >>= f : RequestReader IncomingRequest) (hi :: lo :: t) =
          Reader.run (f ([hi, lo], sum + frameSum [hi, lo])) t :=
      fun sum t f => @run_readExactTracked_bind _ [hi, lo] _ rfl sum t f
    have hlen2 : ¬ (hi :: lo :: bytes).length < 2 := by simp
    have hsub : (checkedSub (hi :: lo :: bytes).length 2 : RequestReader ℕ) =
        .ret bytes.length := by simp [checkedSub]
    simp only [if_neg hlen2, hsub, Program.ret_bind]
    by_cases hn : bytes.length = (ofBe16 hi lo).toNat
    · have hagree := decodeWrite_str_agrees a b hn
      by_cases hfit : (ofBe16 hi lo).toNat ≤ maxStr
      · refine ⟨(decodeWireString bytes).map fun s => .write (ofBe16 a b) (.str s), ?_,
          fun sum c t => ?_⟩
        · cases hd : decodeWireString bytes with
          | ok s =>
            rw [hd] at hagree
            obtain ⟨hs, -⟩ := (decodeWireString_ok_iff _ _).mp hd
            refine ⟨_, hagree, ?_⟩
            rw [incoming, wireValue, if_pos (by rw [Str.length, hs]; omega)]
          | error e =>
            rw [hd] at hagree
            exact hagree
        · rw [List.cons_append, List.cons_append, hstart]
          simp only [byteAt, List.getD_cons_zero, List.getD_cons_succ]
          rw [if_neg (not_not.mpr hn), if_pos hfit, run_readExactTracked_bind hn, hpre]
          simp only
          rw [run_finishChecksum_bind]
          unfold settle
          split_ifs
          · cases decodeWireString bytes <;> rfl
          · rfl
      · obtain ⟨w, err, hk, hrun⟩ := run_readOversized bytes [] .new none
          Utf8StreamValidator.knows_new
        rw [List.nil_append] at hk
        refine ⟨err.elim (w.finish.map fun _ => .write (ofBe16 a b) .oversizedStr) .error, ?_,
          fun sum c t => ?_⟩
        · have hbad : ¬ (bytes.contains 0x00 = false ∧ Valid bytes) → ∀ m,
              decodeWrite (a :: b :: ValueKind.str.asByte :: hi :: lo :: bytes) ≠ .ok m := by
            intro hnot
            cases hd : decodeWireString bytes with
            | ok s =>
              obtain ⟨hs, hnul⟩ := (decodeWireString_ok_iff _ _).mp hd
              exact absurd ⟨hnul, hs ▸ s.valid⟩ hnot
            | error e =>
              rw [hd] at hagree
              exact hagree
          cases err with
          | some e =>
            refine hbad fun h => ?_
            have hk' := hk []
            rw [List.append_nil] at hk'
            rcases hk' with h0 | hv
            · rw [h.1] at h0
              cases h0
            · exact hv h.2
          | none =>
            have hfin := Utf8StreamValidator.finish_knows hk
            cases hf : w.finish with
            | error e =>
              refine hbad fun h => ?_
              rw [hfin.mpr h] at hf
              cases hf
            | ok u =>
              obtain ⟨hnul, hv⟩ := hfin.mp hf
              rw [(decodeWireString_ok_iff bytes ⟨bytes, hv⟩).mpr ⟨rfl, hnul⟩] at hagree
              refine ⟨_, hagree, ?_⟩
              rw [incoming, wireValue, if_neg (by change ¬ bytes.length ≤ maxStr; omega)]
        · rw [List.cons_append, List.cons_append, hstart]
          simp only [byteAt, List.getD_cons_zero, List.getD_cons_succ]
          rw [if_neg (not_not.mpr hn), if_neg hfit, ← hn, Reader.run_bind, hrun, hpre]
          simp only
          rw [run_finishChecksum_bind]
          unfold settle
          split_ifs
          · cases err with
            | some e => rfl
            | none => cases w.finish <;> rfl
          · rfl
    · have hbad : ∀ m,
          decodeWrite (a :: b :: ValueKind.str.asByte :: hi :: lo :: bytes) ≠ .ok m := by
        intro m hm
        obtain ⟨s, hs, hw⟩ := decodeWrite_str_ok a b hm
        rw [str16, be16] at hs
        simp only [List.cons_append, List.nil_append, List.cons.injEq] at hs
        obtain ⟨rfl, rfl, rfl⟩ := hs
        rw [ofBe16_be16, toNat_ofNat16 hw.fits] at hn
        exact hn rfl
      obtain ⟨r, hr, hrun⟩ := @settles_lengthError maxStr bytes _ rfl
        (ofBe16 hi lo).toNat _ hbad
      refine ⟨r, hr, fun sum c t => ?_⟩
      rw [List.cons_append, List.cons_append, hstart]
      simp only [byteAt, List.getD_cons_zero, List.getD_cons_succ]
      rw [if_pos hn, hrun, hpre]

end

def readValueBody (maxStr : ℕ) (keyref : UInt16) (kind : UInt8) (len : ℕ) (sum : FrameSum) :
    RequestReader IncomingRequest :=
  match ValueKind.fromByte kind with
  | .ok .bool => readBoolBody keyref len sum
  | .ok .i64 => readI64Body keyref len sum
  | .ok .str => readStrBody maxStr keyref len sum
  | .error e => rejectPayload len sum e

theorem settles_write {payload : List UInt8} (hlen : payload.length ≤ 65535) :
    Settles maxStr payload (decodeWrite payload)
      (readWriteRequest maxStr (UInt16.ofNat payload.length)) := by
  have hn := toNat_ofNat16 hlen
  have hshort : UInt16.ofNat payload.length < 3 ↔ payload.length < 3 := by
    rw [UInt16.lt_iff_toNat_lt, hn]
    rfl
  unfold readWriteRequest
  by_cases h3 : payload.length < 3
  · simp only [if_pos (hshort.mpr h3)]
    refine settles_reject hn.symm (fun m hm => ?_) _
    obtain ⟨keyref, value, rfl, -, -⟩ := (decodeWrite_ok_iff _ _).mp hm
    have hpos : 0 < value.bytes.length := by cases value <;> simp [ValueRef.bytes]
    rw [List.length_append, length_be16] at h3
    omega
  · simp only [if_neg (fun h => h3 (hshort.mp h)), hn]
    rcases payload with _ | ⟨a, _ | ⟨b, _ | ⟨kind, body⟩⟩⟩
    · exact absurd (by simp) h3
    · exact absurd (by simp) h3
    · exact absurd (by simp) h3
    · have hstart : ∀ (sum : FrameSum) (t : List UInt8) f, Reader.run
          (readExactTracked 2 sum >>= f : RequestReader IncomingRequest) (a :: b :: t) =
            Reader.run (f ([a, b], sum + frameSum [a, b])) t :=
        fun sum t f => @run_readExactTracked_bind _ [a, b] _ rfl sum t f
      have hkind : ∀ (sum : FrameSum) (t : List UInt8) f, Reader.run
          (readExactTracked 1 sum >>= f : RequestReader IncomingRequest) (kind :: t) =
            Reader.run (f ([kind], sum + frameSum [kind])) t :=
        fun sum t f => @run_readExactTracked_bind _ [kind] _ rfl sum t f
      have hsub : (checkedSub (a :: b :: kind :: body).length 3 : RequestReader ℕ) =
          .ret body.length := by simp [checkedSub]
      have hsum : ∀ sum : FrameSum, sum + frameSum (a :: b :: kind :: body) =
          sum + frameSum [a, b] + frameSum [kind] + frameSum body := fun sum => by
        rw [UInt8.add_assoc, UInt8.add_assoc, ← frameSum_append, ← frameSum_append]
        rfl
      obtain ⟨r, hr, hrun⟩ : Settles maxStr body (decodeWrite (a :: b :: kind :: body))
          (readValueBody maxStr (ofBe16 a b) kind body.length) := by
        unfold readValueBody
        cases hk : ValueKind.fromByte kind with
        | error e =>
          refine settles_reject rfl (fun m hm => ?_) e
          obtain ⟨value, hbody, -, -⟩ := (decodeWrite_cons_ok_iff _ _ _ _ _).mp hm
          cases value <;> (
            obtain ⟨rfl, -⟩ := List.cons.inj hbody
            rw [ValueKind.fromByte_asByte] at hk
            cases hk)
        | ok k =>
          obtain rfl := ValueKind.fromByte_ok hk
          cases k with
          | bool => exact settles_bool a b body
          | i64 => exact settles_i64 a b body
          | str => exact settles_str a b body
      refine ⟨r, hr, fun sum c t => ?_⟩
      have h := hrun (sum + frameSum [a, b] + frameSum [kind]) c t
      rw [← hsum] at h
      simp only [List.cons_append, hstart, byteAt, List.getD_cons_zero, List.getD_cons_succ, hkind,
        hsub, Program.ret_bind]
      exact h

/-- A complete frame with a legal opcode: both readers look at the checksum
first, and then at the payload. -/
theorem run_readRequest_rawFrame {opcode : Opcode} (hlegal : opcode.Legal .clientToNode)
    {payload : List UInt8} (hlen : payload.length ≤ 65535) (c : UInt8) :
    ∃ r, Agrees maxStr (MessageRef.decode opcode payload) r ∧ ∀ t,
      Reader.run (readRequest maxStr) (rawFrame opcode payload c ++ t) =
        settle (frameSum (rawFrame opcode payload c)) r t := by
  have hhead : ∀ t, Reader.run (readRequest maxStr) (rawFrame opcode payload c ++ t) =
      Reader.run (
        let payloadLen := UInt16.ofNat payload.length
        let sum := FrameSum.new opcode payloadLen
        if opcode = .ping then readEmptyRequest opcode payloadLen sum .ping
        else if opcode = .identify then readEmptyRequest opcode payloadLen sum .identify
        else if opcode = .getkeytablen then readEmptyRequest opcode payloadLen sum .getKeytabLen
        else if opcode = .getcaps then readEmptyRequest opcode payloadLen sum .getCaps
        else if opcode = .getkey then readKeyrefRequest opcode payloadLen sum .getKey
        else if opcode = .get then readKeyrefRequest opcode payloadLen sum .get
        else if opcode = .observe then readKeyrefRequest opcode payloadLen sum .observe
        else if opcode = .unobserve then readKeyrefRequest opcode payloadLen sum .unobserve
        else if opcode = .write then readWriteRequest maxStr payloadLen sum
        else .fail (frameError (.invalidDirection opcode .clientToNode))) (payload ++ c :: t) := by
    intro t
    rw [rawFrame_eq, List.append_assoc]
    simp only [readRequest, Reader.readExact_bind, List.cons_append, List.nil_append,
      Reader.run_act_three, byteAt, List.getD_cons_zero, List.getD_cons_succ,
      (opcode.validate_ok_iff .clientToNode).mpr hlegal, ofBe16_be16, List.append_assoc]
  have hsum : frameSum (rawFrame opcode payload c) =
      FrameSum.new opcode (UInt16.ofNat payload.length) + frameSum payload + c := by
    rw [rawFrame_eq, FrameSum.new]
    simp only [frameSum_append, frameSum_cons, frameSum_nil]
    grind
  obtain ⟨r, hr, hrun⟩ : Settles maxStr payload (MessageRef.decode opcode payload) (fun sum =>
      if opcode = .ping then readEmptyRequest opcode (UInt16.ofNat payload.length) sum .ping
      else if opcode = .identify then
        readEmptyRequest opcode (UInt16.ofNat payload.length) sum .identify
      else if opcode = .getkeytablen then
        readEmptyRequest opcode (UInt16.ofNat payload.length) sum .getKeytabLen
      else if opcode = .getcaps then
        readEmptyRequest opcode (UInt16.ofNat payload.length) sum .getCaps
      else if opcode = .getkey then
        readKeyrefRequest opcode (UInt16.ofNat payload.length) sum .getKey
      else if opcode = .get then readKeyrefRequest opcode (UInt16.ofNat payload.length) sum .get
      else if opcode = .observe then
        readKeyrefRequest opcode (UInt16.ofNat payload.length) sum .observe
      else if opcode = .unobserve then
        readKeyrefRequest opcode (UInt16.ofNat payload.length) sum .unobserve
      else if opcode = .write then readWriteRequest maxStr (UInt16.ofNat payload.length) sum
      else .fail (frameError (.invalidDirection opcode .clientToNode))) := by
    have hop := (opcode.legal_clientToNode_iff).mp hlegal
    simp only [List.mem_cons, List.not_mem_nil, or_false] at hop
    rcases hop with rfl | rfl | rfl | rfl | rfl | rfl | rfl | rfl | rfl
    · exact settles_empty hlen _ rfl
    · exact settles_empty hlen _ rfl
    · exact settles_empty hlen _ rfl
    · exact settles_keyref hlen _ fun _ => rfl
    · exact settles_keyref hlen _ fun _ => rfl
    · exact settles_write hlen
    · exact settles_keyref hlen _ fun _ => rfl
    · exact settles_keyref hlen _ fun _ => rfl
    · exact settles_empty hlen _ rfl
  exact ⟨r, hr, fun t => by rw [hhead, hsum]; exact hrun _ c t⟩

theorem run_coreRequest_rawFrame {opcode : Opcode} (hlegal : opcode.Legal .clientToNode)
    {payload : List UInt8} (hlen : payload.length ≤ 65535) (c : UInt8) (t : List UInt8) :
    Reader.run coreRequest (rawFrame opcode payload c ++ t) =
      if frameSum (rawFrame opcode payload c) = 0 then
        match MessageRef.decode opcode payload with
        | .ok m => .done m t
        | .error e => .failed (.payload e) t
      else .failed (.read (.frame (.checksumMismatch (frameSum (rawFrame opcode payload c))))) t := by
  rw [coreRequest, Reader.run_bind, run_mapFail,
    run_readFrame_rawFrame .clientToNode opcode hlen hlen, parseFrame_rawFrame _ _ _ hlen,
    (opcode.validate_ok_iff .clientToNode).mpr hlegal]
  simp only [frameSum_eq_zero_iff]
  split_ifs
  · simp only [Except.map]
    change Reader.run (Program.lift
      ((MessageRef.decode opcode payload).mapError CoreError.payload)) t = _
    cases MessageRef.decode opcode payload <;> rfl
  · rfl

theorem run_readRequest_illegal {op : UInt8} (h : ¬ (⟨op⟩ : Opcode).Legal .clientToNode)
    (hi lo : UInt8) (s : List UInt8) : ∃ e, ∀ maxStr,
      Reader.run (readRequest maxStr) (op :: hi :: lo :: s) =
        .failed (.error (.protocol (.frame e))) s := by
  cases hv : (⟨op⟩ : Opcode).validate .clientToNode with
  | ok u => exact absurd ((Opcode.validate_ok_iff _ _).mp hv) h
  | error e =>
    refine ⟨e, fun maxStr => ?_⟩
    simp only [readRequest, Reader.readExact_bind, Reader.run_act_three, byteAt,
      List.getD_cons_zero, hv]
    rfl

theorem run_illegal {opcode : Opcode} (hillegal : ¬ opcode.Legal .clientToNode)
    {payload : List UInt8} (hlen : payload.length ≤ 65535) (c : UInt8) (t : List UInt8) :
    (∃ e rest, Reader.run (readRequest maxStr) (rawFrame opcode payload c ++ t) =
      .failed (.error (.protocol e)) rest) ∧
    (∃ e rest, Reader.run coreRequest (rawFrame opcode payload c ++ t) = .failed e rest) := by
  constructor
  · obtain ⟨e, he⟩ := run_readRequest_illegal hillegal (hiByte (UInt16.ofNat payload.length))
      (loByte (UInt16.ofNat payload.length)) (payload ++ [c] ++ t)
    exact ⟨.frame e, _, he maxStr⟩
  · cases hv : opcode.validate .clientToNode with
    | ok u => exact absurd ((opcode.validate_ok_iff .clientToNode).mp hv) hillegal
    | error e =>
      rw [coreRequest, Reader.run_bind, run_mapFail,
        run_readFrame_rawFrame .clientToNode opcode hlen hlen, parseFrame_rawFrame _ _ _ hlen, hv]
      split_ifs
      · exact ⟨_, t, rfl⟩
      · exact ⟨_, t, rfl⟩

theorem run_coreRequest_short {s : List UInt8} (hs : s.length < declaredLen s + 4) :
    Reader.run coreRequest s = .starved := by
  have hlt : declaredLen s ≤ 65535 := by
    match s with
    | [] | [_] | [_, _] => simp [declaredLen]
    | _ :: hi :: lo :: _ =>
      have h := (ofBe16 hi lo).toNat_lt
      simp only [declaredLen]
      omega
  rw [coreRequest, Reader.run_bind, run_mapFail, run_readFrame_short .clientToNode hlt hs]

theorem run_readRequest_headerless {s : List UInt8} (hs : s.length < 3) :
    Reader.run (readRequest maxStr) s = .starved := Reader.run_act_of_lt _ hs

theorem run_readRequest_unfinished {op hi lo : UInt8} {s : List UInt8}
    (hlegal : (⟨op⟩ : Opcode).Legal .clientToNode) (hs : s.length < (ofBe16 hi lo).toNat + 1) :
    Reader.run (readRequest maxStr) (op :: hi :: lo :: s) = .starved := by
  have hpad : ∃ t : List UInt8, t ≠ [] ∧
      (op :: hi :: lo :: s ++ t).length = (ofBe16 hi lo).toNat + 4 := by
    refine ⟨List.replicate ((ofBe16 hi lo).toNat + 4 - (s.length + 3)) 0, ?_, ?_⟩
    · intro h
      have hl := congrArg List.length h
      rw [List.length_replicate, List.length_nil] at hl
      omega
    · simp only [List.length_append, List.length_cons, List.length_replicate]
      omega
  obtain ⟨t, hne, hlen⟩ := hpad
  have hdecl : declaredLen (op :: hi :: lo :: s ++ t) = (ofBe16 hi lo).toNat := rfl
  obtain ⟨opcode, payload, c, t', hp, heq⟩ := stream_eq_rawFrame
    (show declaredLen (op :: hi :: lo :: s ++ t) + 4 ≤ (op :: hi :: lo :: s ++ t).length by
      rw [hdecl, hlen])
  have ht' : t' = [] := by
    have hl := hlen
    rw [heq, List.length_append, length_rawFrame, ← hdecl, heq, declaredLen_rawFrame opcode hp] at hl
    exact List.eq_nil_of_length_eq_zero (by omega)
  subst ht'
  have hop : opcode = ⟨op⟩ := by
    rw [rawFrame_eq] at heq
    exact congrArg Opcode.mk (List.cons.inj heq).1.symm
  subst hop
  obtain ⟨r, -, hrun⟩ := @run_readRequest_rawFrame maxStr _ hlegal _ hp c
  have hfull := hrun []
  rw [← heq] at hfull
  have hrest : ∀ rest : List UInt8, rest ++ t ≠ [] := fun rest h =>
    hne (List.append_eq_nil_iff.mp h).2
  cases hcase : Reader.run (readRequest maxStr) (op :: hi :: lo :: s) with
  | starved => rfl
  | failed e rest =>
    rw [(Reader.run_append t).2 e rest hcase] at hfull
    unfold settle at hfull
    split_ifs at hfull
    · cases r with
      | ok q => cases hfull
      | error e' =>
        injection hfull with _ hr
        exact absurd hr (hrest rest)
    · injection hfull with _ hr
      exact absurd hr (hrest rest)
  | done q rest =>
    rw [(Reader.run_append t).1 q rest hcase] at hfull
    unfold settle at hfull
    split_ifs at hfull
    cases r with
    | ok q' =>
      injection hfull with _ hr
      exact absurd hr (hrest rest)
    | error e' => cases hfull

theorem run_readRequest_short {s : List UInt8} (hs : s.length < declaredLen s + 4) :
    Reader.run (readRequest maxStr) s = .starved ∨
      ∃ e rest, Reader.run (readRequest maxStr) s = .failed (.error (.protocol e)) rest := by
  match s with
  | [] | [_] | [_, _] => exact Or.inl (run_readRequest_headerless (by simp))
  | op :: hi :: lo :: s =>
    by_cases hlegal : (⟨op⟩ : Opcode).Legal .clientToNode
    · simp only [declaredLen, List.length_cons] at hs
      exact Or.inl (run_readRequest_unfinished hlegal (by omega))
    · obtain ⟨e, he⟩ := run_readRequest_illegal hlegal hi lo s
      exact Or.inr ⟨_, s, he maxStr⟩

theorem readRequest_vs_core (s : List UInt8) :
    (∃ q m rest, Reader.run (readRequest maxStr) s = .done q rest ∧
      Reader.run coreRequest s = .done m rest ∧ incoming maxStr m = some q ∧
        m.payload.length ≤ 65535 ∧ rest.length < s.length) ∨
    ((∀ q rest, Reader.run (readRequest maxStr) s ≠ .done q rest) ∧
      (∀ m rest, Reader.run coreRequest s ≠ .done m rest) ∧
        ∀ e rest, Reader.run (readRequest maxStr) s = .failed e rest →
          ∃ e', e = .error (.protocol e')) := by
  rcases Nat.lt_or_ge s.length (declaredLen s + 4) with hshort | hfull
  · right
    rw [run_coreRequest_short hshort]
    rcases @run_readRequest_short maxStr _ hshort with h | ⟨e, r, h⟩ <;> rw [h] <;> simp
  · obtain ⟨opcode, payload, c, t, hp, rfl⟩ := stream_eq_rawFrame hfull
    by_cases hlegal : opcode.Legal .clientToNode
    · obtain ⟨r, hr, hrun⟩ := @run_readRequest_rawFrame maxStr _ hlegal _ hp c
      rw [hrun, run_coreRequest_rawFrame hlegal hp]
      unfold settle
      split_ifs with hsum
      · cases r with
        | ok q =>
          obtain ⟨m, hm, hq⟩ := hr
          refine Or.inl ⟨q, m, t, rfl, by rw [hm], hq, (MessageRef.decode_ok hm).2.1 ▸ hp, ?_⟩
          rw [List.length_append, length_rawFrame]
          omega
        | error e =>
          right
          cases hd : MessageRef.decode opcode payload with
          | ok m => exact absurd hd (hr m)
          | error e' => simp [payloadError]
      · right
        simp [frameError]
    · obtain ⟨⟨e, r, h⟩, ⟨e', r', h'⟩⟩ := @run_illegal maxStr _ hlegal _ hp c t
      right
      rw [h, h']
      simp

theorem run_readRequest_write {s rest : List UInt8} {keyref : UInt16} {v : ValueRef}
    (h : Reader.run (readRequest maxStr) s = .done (.write keyref (.ofValue v)) rest) :
    v.bytes.length ≤ 65533 := by
  rcases @readRequest_vs_core maxStr s with ⟨q, m, rest', hq, -, hm, hlen, -⟩ | ⟨hnone, -⟩
  · rw [hq] at h
    cases h
    cases m with
    | request r =>
      cases r with
      | write keyref' v' =>
        have hv : wireValue maxStr v' = .ofValue v := by
          injection hm with h
          injection h
        have hsame : v' = v := by
          cases v' with
          | str s =>
            rw [wireValue] at hv
            split_ifs at hv
            · cases v <;> cases hv
              rfl
            · cases v <;> cases hv
          | _ =>
            cases v <;> cases hv
            rfl
        subst hsame
        simp only [MessageRef.payload, RequestRef.payload, List.length_append, length_be16] at hlen
        omega
      | _ => cases hm
    | compatibilityRequest => cases hm
    | _ => cases hm
  · exact absurd h (hnone _ _)

/-- The streaming request reader refines the core parser over whole streams:
the same requests, each from the same bytes, up to the first error. On a
complete frame with a legal opcode it consumes exactly the frame and reports a
wrong sum as such; it accepts exactly where the core parser does, and it never
panics. -/
theorem readRequest_refines_core (maxStr : ℕ) (s : List UInt8) :
    (Reader.collect (readRequest maxStr) s).map (fun r => (some r.1, r.2)) =
      (Reader.collect coreRequest s).map (fun r => (incoming maxStr r.1, r.2)) ∧
    ((∃ q rest, Reader.run (readRequest maxStr) s = .done q rest) ↔
      ∃ m rest, Reader.run coreRequest s = .done m rest) ∧
    (∀ (opcode : Opcode) (payload : List UInt8) (c : UInt8) (t : List UInt8),
      opcode.Legal .clientToNode → payload.length ≤ 65535 → s = rawFrame opcode payload c ++ t →
        ((∃ q, Reader.run (readRequest maxStr) s = .done q t) ∨
          ∃ e, Reader.run (readRequest maxStr) s = .failed e t) ∧
        (frameSum (rawFrame opcode payload c) ≠ 0 → Reader.run (readRequest maxStr) s =
          .failed (.error (.protocol (.frame
            (.checksumMismatch (frameSum (rawFrame opcode payload c)))))) t)) ∧
    (∀ rest, Reader.run (readRequest maxStr) s ≠ .failed .panic rest) := by
  refine ⟨?_, ?_, ?_, ?_⟩
  · induction hn : s.length using Nat.strongRecOn generalizing s with
    | ind n ih =>
      rcases @readRequest_vs_core maxStr s with
        ⟨q, m, rest, he, hc, hq, -, hlt⟩ | ⟨he, hc, -⟩
      · rw [Reader.collect_done he hlt, Reader.collect_done hc hlt]
        simp only [List.map_cons, hq]
        rw [ih rest.length (by omega) rest rfl]
      · rw [Reader.collect_of_not_done he, Reader.collect_of_not_done hc]
        rfl
  · rcases @readRequest_vs_core maxStr s with
      ⟨q, m, rest, he, hc, -, -⟩ | ⟨he, hc, -⟩
    · exact ⟨fun _ => ⟨m, rest, hc⟩, fun _ => ⟨q, rest, he⟩⟩
    · exact ⟨fun ⟨q, rest, h⟩ => absurd h (he q rest), fun ⟨m, rest, h⟩ => absurd h (hc m rest)⟩
  · rintro opcode payload c t hlegal hp rfl
    obtain ⟨r, -, hrun⟩ := @run_readRequest_rawFrame maxStr _ hlegal _ hp c
    rw [hrun]
    unfold settle
    constructor
    · split_ifs
      · cases r with
        | ok q => exact Or.inl ⟨q, rfl⟩
        | error e => exact Or.inr ⟨_, rfl⟩
      · exact Or.inr ⟨_, rfl⟩
    · intro hsum
      rw [if_neg hsum]
      rfl
  · rcases @readRequest_vs_core maxStr s with
      ⟨q, m, rest, he, -, -, -⟩ | ⟨-, -, hfailed⟩
    · rw [he]
      simp
    · intro rest hpanic
      obtain ⟨e, he⟩ := hfailed _ _ hpanic
      cases he

end Qup.Embassy
