import Qup.Core.Message
import Qup.Core.ReadFrame
import Qup.Embassy.Value
import Qup.Foundation.Characters

/-!
# The streaming request reader

`Server::read_request` and everything below it in `qup-embassy/src/lib.rs`. The
reader never holds a frame: it adds up the checksum while it reads, discards
what it does not need in chunks of 64 bytes and validates an oversized string
chunk by chunk. Subtractions of lengths and slices of fixed arrays go through
`checkedSub` and explicit bounds, so that a panic is an outcome of the model.
-/

namespace Qup.Embassy
open Foundation Foundation.Utf8

inductive ProtocolError where
  | frame (error : FrameError)
  | payload (error : PayloadError)
  deriving DecidableEq

inductive ServerError where
  | read
  | write
  | protocol (error : ProtocolError)
  | internal (message : String)
  deriving DecidableEq

inductive Exit where
  | error (error : ServerError)
  | panic
  deriving DecidableEq

inductive IncomingRequest where
  | ping
  | identify
  | getCaps
  | getKeytabLen
  | getKey (keyref : UInt16)
  | get (keyref : UInt16)
  | write (keyref : UInt16) (value : WireValueRef)
  | observe (keyref : UInt16)
  | unobserve (keyref : UInt16)
  deriving DecidableEq

abbrev RequestReader (α : Type) := Reader UInt8 Exit α

def frameError (e : FrameError) : Exit := .error (.protocol (.frame e))

def payloadError (e : PayloadError) : Exit := .error (.protocol (.payload e))

def discardChunk : ℕ := 64

def checkedSub (a b : ℕ) : RequestReader ℕ := if b ≤ a then .ret (a - b) else .fail .panic

abbrev FrameSum := UInt8

namespace FrameSum

def new (opcode : Opcode) (payloadLen : UInt16) : FrameSum :=
  opcode.byte + hiByte payloadLen + loByte payloadLen

def addByte (sum : FrameSum) (byte : UInt8) : FrameSum := sum + byte

def addSlice (sum : FrameSum) (bytes : List UInt8) : FrameSum := bytes.foldl addByte sum

def finish (sum : FrameSum) : Except FrameError Unit :=
  if sum = 0 then .ok () else .error (.checksumMismatch sum)

theorem addSlice_eq (sum : FrameSum) (bytes : List UInt8) :
    addSlice sum bytes = sum + frameSum bytes := foldl_sum sum bytes

end FrameSum

def readExactTracked (len : ℕ) (sum : FrameSum) : RequestReader (List UInt8 × FrameSum) := do
  let buffer ← Reader.readExact len
  pure (buffer, FrameSum.addSlice sum buffer)

def discardExact (remaining : ℕ) (sum : FrameSum) : RequestReader FrameSum :=
  if _h : remaining = 0 then .ret sum
  else
    let chunkLen := min remaining discardChunk
    Program.act chunkLen fun chunk =>
      discardExact (remaining - chunkLen) (FrameSum.addSlice sum chunk)
termination_by remaining
decreasing_by
  simp only [discardChunk]
  omega

def finishChecksum (sum : FrameSum) : RequestReader Unit := do
  let checksum ← Reader.readExact 1
  match FrameSum.finish (FrameSum.addByte sum (byteAt checksum 0)) with
  | .ok () => pure ()
  | .error e => .fail (frameError e)

def rejectPayload (remaining : ℕ) (sum : FrameSum) (e : PayloadError) :
    RequestReader IncomingRequest := do
  let sum ← discardExact remaining sum
  finishChecksum sum
  .fail (payloadError e)

/-- `tail` is the filled part of the four-byte array. -/
structure Utf8StreamValidator where
  tail : List UInt8

namespace Utf8StreamValidator

def new : Utf8StreamValidator := ⟨[]⟩

/-- `none` is an index past one of the fixed arrays. -/
def feed (v : Utf8StreamValidator) (chunk : List UInt8) :
    Option (Except PayloadError Utf8StreamValidator) :=
  if chunk.contains 0x00 then some (.error .stringContainsNul)
  else
    let total := v.tail.length + chunk.length
    if discardChunk + 4 < total then none
    else
      let buffer := v.tail ++ chunk
      match check buffer with
      | .ok () => some (.ok ⟨[]⟩)
      | .error ⟨validUpTo, some errorLen⟩ => some (.error (.invalidUtf8 ⟨validUpTo, some errorLen⟩))
      | .error ⟨validUpTo, none⟩ =>
        if total < validUpTo then none
        else
          let leftover := total - validUpTo
          if 4 < leftover then none
          else some (.ok ⟨buffer.drop validUpTo⟩)

def finish (v : Utf8StreamValidator) : Except PayloadError Unit :=
  if v.tail.length = 0 then .ok ()
  else match check v.tail with
    | .ok () => .ok ()
    | .error e => .error (.invalidUtf8 e)

end Utf8StreamValidator

def decodeWireString (bytes : List UInt8) : Except PayloadError Str :=
  if bytes.contains 0x00 then .error .stringContainsNul
  else match fromUtf8 bytes with
    | .ok s => .ok s
    | .error e => .error (.invalidUtf8 e)

def readOversized (remaining : ℕ) (validator : Utf8StreamValidator)
    (payloadError : Option PayloadError) (sum : FrameSum) :
    RequestReader (Utf8StreamValidator × Option PayloadError × FrameSum) :=
  if _h : remaining = 0 then .ret (validator, payloadError, sum)
  else
    let chunkLen := min remaining discardChunk
    Program.act chunkLen fun chunk =>
      let sum := FrameSum.addSlice sum chunk
      match payloadError with
      | some e => readOversized (remaining - chunkLen) validator (some e) sum
      | none =>
        match validator.feed chunk with
        | none => .fail .panic
        | some (.error e) => readOversized (remaining - chunkLen) validator (some e) sum
        | some (.ok validator) => readOversized (remaining - chunkLen) validator none sum
termination_by remaining
decreasing_by
  all_goals
    simp only [discardChunk]
    omega

def readEmptyRequest (opcode : Opcode) (payloadLen : UInt16) (sum : FrameSum)
    (request : IncomingRequest) : RequestReader IncomingRequest :=
  if payloadLen ≠ 0 then
    rejectPayload payloadLen.toNat sum (.invalidLength opcode 0 payloadLen.toNat)
  else do
    finishChecksum sum
    pure request

def readKeyrefRequest (opcode : Opcode) (payloadLen : UInt16) (sum : FrameSum)
    (constructor : UInt16 → IncomingRequest) : RequestReader IncomingRequest :=
  if payloadLen ≠ 2 then
    rejectPayload payloadLen.toNat sum (.invalidLength opcode 2 payloadLen.toNat)
  else do
    let (keyref, sum) ← readExactTracked 2 sum
    finishChecksum sum
    pure (constructor (ofBe16 (byteAt keyref 0) (byteAt keyref 1)))

def lengthError (remaining len : ℕ) : RequestReader PayloadError :=
  if remaining < len then .ret .internalLengthExceedsPayload
  else do
    let extra ← checkedSub remaining len
    .ret (.trailingBytes extra)

def readBoolBody (keyref : UInt16) (remaining : ℕ) (sum : FrameSum) :
    RequestReader IncomingRequest :=
  if remaining ≠ 1 then do
    let sum ← discardExact remaining sum
    finishChecksum sum
    let e ← lengthError remaining 1
    .fail (payloadError e)
  else do
    let (value, sum) ← readExactTracked 1 sum
    finishChecksum sum
    match decodeBool (byteAt value 0) with
    | .ok decoded => pure (.write keyref (.bool decoded))
    | .error e => .fail (payloadError e)

def readI64Body (keyref : UInt16) (remaining : ℕ) (sum : FrameSum) :
    RequestReader IncomingRequest :=
  if remaining ≠ 8 then do
    let sum ← discardExact remaining sum
    finishChecksum sum
    let e ← lengthError remaining 8
    .fail (payloadError e)
  else do
    let (value, sum) ← readExactTracked 8 sum
    finishChecksum sum
    pure (.write keyref (.i64 (ofBe64 value)))

def readStrBody (maxStr : ℕ) (keyref : UInt16) (remaining : ℕ) (sum : FrameSum) :
    RequestReader IncomingRequest :=
  if remaining < 2 then
    rejectPayload remaining sum .internalLengthExceedsPayload
  else do
    let (lenBytes, sum) ← readExactTracked 2 sum
    let stringLen := (ofBe16 (byteAt lenBytes 0) (byteAt lenBytes 1)).toNat
    let remainingStringBytes ← checkedSub remaining 2
    if remainingStringBytes ≠ stringLen then
      let sum ← discardExact remainingStringBytes sum
      finishChecksum sum
      let e ← lengthError remainingStringBytes stringLen
      .fail (payloadError e)
    else if stringLen ≤ maxStr then
      let (scratch, sum) ← readExactTracked stringLen sum
      finishChecksum sum
      match decodeWireString scratch with
      | .ok value => pure (.write keyref (.str value))
      | .error e => .fail (payloadError e)
    else
      let (validator, payloadErr, sum) ← readOversized stringLen .new none sum
      finishChecksum sum
      match payloadErr with
      | some e => .fail (payloadError e)
      | none =>
        match validator.finish with
        | .error e => .fail (payloadError e)
        | .ok () => pure (.write keyref .oversizedStr)

def readWriteRequest (maxStr : ℕ) (payloadLen : UInt16) (sum : FrameSum) :
    RequestReader IncomingRequest :=
  if payloadLen < 3 then
    rejectPayload payloadLen.toNat sum (.invalidLength .write 3 payloadLen.toNat)
  else do
    let (keyrefBytes, sum) ← readExactTracked 2 sum
    let keyref := ofBe16 (byteAt keyrefBytes 0) (byteAt keyrefBytes 1)
    let (kind, sum) ← readExactTracked 1 sum
    let remaining ← checkedSub payloadLen.toNat 3
    match ValueKind.fromByte (byteAt kind 0) with
    | .ok .bool => readBoolBody keyref remaining sum
    | .ok .i64 => readI64Body keyref remaining sum
    | .ok .str => readStrBody maxStr keyref remaining sum
    | .error e => rejectPayload remaining sum e

def readRequest (maxStr : ℕ) : RequestReader IncomingRequest := do
  let header ← Reader.readExact 3
  let opcode : Opcode := ⟨byteAt header 0⟩
  match opcode.validate .clientToNode with
  | .error e => .fail (frameError e)
  | .ok () =>
    let payloadLen := ofBe16 (byteAt header 1) (byteAt header 2)
    let sum := FrameSum.new opcode payloadLen
    if opcode = .ping then readEmptyRequest opcode payloadLen sum .ping
    else if opcode = .identify then readEmptyRequest opcode payloadLen sum .identify
    else if opcode = .getkeytablen then readEmptyRequest opcode payloadLen sum .getKeytabLen
    else if opcode = .getcaps then readEmptyRequest opcode payloadLen sum .getCaps
    else if opcode = .getkey then readKeyrefRequest opcode payloadLen sum .getKey
    else if opcode = .get then readKeyrefRequest opcode payloadLen sum .get
    else if opcode = .observe then readKeyrefRequest opcode payloadLen sum .observe
    else if opcode = .unobserve then readKeyrefRequest opcode payloadLen sum .unobserve
    else if opcode = .write then readWriteRequest maxStr payloadLen sum
    else .fail (frameError (.invalidDirection opcode .clientToNode))

/-- A request body is read through the checksum byte whatever it holds; only then is it
accepted or reported. -/
def settle (sum : UInt8) (result : Except PayloadError IncomingRequest) (t : List UInt8) :
    Outcome UInt8 Exit IncomingRequest :=
  if sum = 0 then
    match result with
    | .ok request => .done request t
    | .error e => .failed (payloadError e) t
  else .failed (frameError (.checksumMismatch sum)) t

theorem run_finishChecksum_bind {α : Type} (sum : FrameSum) (c : UInt8) (t : List UInt8)
    (f : Unit → RequestReader α) :
    Reader.run (finishChecksum sum >>= f) (c :: t) =
      if sum + c = 0 then Reader.run (f ()) t
      else .failed (frameError (.checksumMismatch (sum + c))) t := by
  simp only [finishChecksum, Reader.readExact_bind, Program.act_bind, Reader.run_act_one, byteAt,
    List.getD_cons_zero, FrameSum.finish, FrameSum.addByte]
  split_ifs with h <;> rfl

theorem run_finishChecksum_fail (sum : FrameSum) (c : UInt8) (t : List UInt8) (e : PayloadError) :
    Reader.run (finishChecksum sum >>= fun _ => .fail (payloadError e)) (c :: t) =
      settle (sum + c) (.error e) t := by
  rw [run_finishChecksum_bind]
  rfl

theorem run_finishChecksum_pure (sum : FrameSum) (c : UInt8) (t : List UInt8)
    (r : IncomingRequest) :
    Reader.run (finishChecksum sum >>= fun _ => .ret r) (c :: t) = settle (sum + c) (.ok r) t := by
  rw [run_finishChecksum_bind]
  rfl

theorem run_readExactTracked_bind {α : Type} {bs : List UInt8} {n : ℕ} (h : bs.length = n)
    (sum : FrameSum) (t : List UInt8) (f : List UInt8 × FrameSum → RequestReader α) :
    Reader.run (readExactTracked n sum >>= f) (bs ++ t) =
      Reader.run (f (bs, sum + frameSum bs)) t := by
  rw [readExactTracked, Reader.readExact_bind, Program.act_bind, Reader.run_act_append _ h,
    FrameSum.addSlice_eq]
  rfl

theorem run_discardExact (bs : List UInt8) (sum : FrameSum) (t : List UInt8) :
    Reader.run (discardExact bs.length sum) (bs ++ t) = .done (sum + frameSum bs) t := by
  induction hn : bs.length using Nat.strongRecOn generalizing bs sum with
  | ind n ih =>
    rw [discardExact]
    split_ifs with h
    · obtain rfl : bs = [] := List.eq_nil_of_length_eq_zero (by omega)
      simp
    · have hlt : n - min n discardChunk < n := by
        simp only [discardChunk]
        omega
      have hsplit := List.take_append_drop (min n discardChunk) bs
      have htake : (bs.take (min n discardChunk)).length = min n discardChunk := by
        rw [List.length_take]
        omega
      have hrest := ih _ hlt (bs.drop (min n discardChunk))
        (FrameSum.addSlice sum (bs.take (min n discardChunk))) (by rw [List.length_drop, hn])
      rw [← hsplit, List.append_assoc, Reader.run_act_append _ htake, hrest, FrameSum.addSlice_eq,
        frameSum_append, UInt8.add_assoc]

theorem run_discardExact_bind {α : Type} {bs : List UInt8} {n : ℕ} (h : bs.length = n)
    (sum : FrameSum) (t : List UInt8) (f : FrameSum → RequestReader α) :
    Reader.run (discardExact n sum >>= f) (bs ++ t) = Reader.run (f (sum + frameSum bs)) t := by
  subst h
  rw [Reader.run_bind, run_discardExact]

theorem run_rejectPayload {payload : List UInt8} {n : ℕ} (h : payload.length = n) (sum : FrameSum)
    (e : PayloadError) (c : UInt8) (t : List UInt8) :
    Reader.run (rejectPayload n sum e) (payload ++ c :: t) =
      settle (sum + frameSum payload + c) (.error e) t := by
  rw [rejectPayload, run_discardExact_bind h, run_finishChecksum_fail]

theorem Utf8StreamValidator.feed_carry {v : Utf8StreamValidator} {chunk : List UInt8}
    (hfits : v.tail.length + chunk.length ≤ discardChunk + 4)
    (hnul : chunk.contains 0x00 = false) :
    (∃ tail, carry (v.tail ++ chunk) = some tail ∧ v.feed chunk = some (.ok ⟨tail⟩)) ∨
      (carry (v.tail ++ chunk) = none ∧ ∃ e, v.feed chunk = some (.error e)) := by
  unfold feed carry
  rw [hnul, if_neg Bool.false_ne_true]
  dsimp only
  rw [if_neg (by omega)]
  cases hcheck : check (v.tail ++ chunk) with
  | ok u => exact .inl ⟨[], rfl, rfl⟩
  | error e =>
    obtain ⟨validUpTo, _ | errorLen⟩ := e
    · obtain ⟨hbefore, hsplit⟩ := check_unfinished_iff.mp hcheck
      have hleft := length_of_unfinished hsplit.unfinished
      rw [List.length_append] at hbefore
      rw [List.length_drop, List.length_append] at hleft
      refine .inl ⟨(v.tail ++ chunk).drop validUpTo, rfl, ?_⟩
      dsimp only
      rw [if_neg (by omega), if_neg (by omega)]
    · exact .inr ⟨rfl, _, rfl⟩

/-- What the validator knows after the bytes `pre`: either they are complete
characters up to a tail of an unfinished one, or nothing that starts with them
is a string. -/
def Utf8StreamValidator.Knows (pre : List UInt8) (v : Utf8StreamValidator) :
    Option PayloadError → Prop
  | none => pre.contains 0x00 = false ∧ v.tail.length ≤ 3 ∧
      ∃ front, pre = front ++ v.tail ∧ Valid front ∧ (v.tail ≠ [] → ¬ Valid v.tail)
  | some _ => ∀ more, (pre ++ more).contains 0x00 = true ∨ ¬ Valid (pre ++ more)

namespace Utf8StreamValidator

theorem knows_new : Knows [] new none :=
  ⟨rfl, Nat.zero_le 3, [], rfl, rfl, fun h => absurd rfl h⟩

theorem Knows.more {pre : List UInt8} {v w : Utf8StreamValidator} {e e' : PayloadError}
    (h : Knows pre v (some e)) (chunk : List UInt8) : Knows (pre ++ chunk) w (some e') := by
  intro more
  rw [List.append_assoc]
  exact h (chunk ++ more)

theorem Knows.of_split {pre front : List UInt8} {v : Utf8StreamValidator}
    (hnul : pre.contains 0x00 = false) (hsplit : Split characters pre front v.tail) :
    Knows pre v none := by
  refine ⟨hnul, length_of_unfinished hsplit.unfinished, front, hsplit.eq_append,
    (valid_iff_mem front).mpr hsplit.front_mem, fun hne hvalid => hne ?_⟩
  exact prefixCode_characters.eq_nil_of_unfinished hsplit.unfinished (List.prefix_refl v.tail)
    ((valid_iff_mem v.tail).mp hvalid)

theorem feed_knows {pre chunk : List UInt8} {v : Utf8StreamValidator} (h : Knows pre v none)
    (hc : chunk.length ≤ discardChunk) :
    (∃ w, v.feed chunk = some (.ok w) ∧ Knows (pre ++ chunk) w none) ∨
    (∃ e, v.feed chunk = some (.error e) ∧ Knows (pre ++ chunk) v (some e)) := by
  obtain ⟨hpre, htail, front, rfl, hfront, -⟩ := h
  have happ : front ++ v.tail ++ chunk = front ++ (v.tail ++ chunk) := List.append_assoc _ _ _
  cases hnul : chunk.contains 0x00 with
  | true =>
    refine .inr ⟨.stringContainsNul, if_pos hnul, fun more => .inl ?_⟩
    simp only [List.contains_eq_mem, decide_eq_true_eq] at hnul ⊢
    simp [hnul]
  | false =>
    rcases @feed_carry v chunk (by omega) hnul with ⟨tail, hcarry, hfeed⟩ | ⟨hcarry, e, hfeed⟩
    · obtain ⟨more, hsplit⟩ := reads_carry.split _ _ hcarry
      have hfed : Split characters (front ++ v.tail ++ chunk) (front ++ more) tail := by
        refine ⟨?_, append_mem_kstar ((valid_iff_mem front).mp hfront) hsplit.front_mem,
          hsplit.unfinished⟩
        rw [happ, hsplit.eq_append, List.append_assoc]
      refine .inl ⟨⟨tail⟩, hfeed, .of_split ?_ hfed⟩
      simp only [List.contains_eq_mem, decide_eq_false_iff_not, List.mem_append, not_or]
        at hpre hnul ⊢
      exact ⟨hpre, hnul⟩
    · refine .inr ⟨e, hfeed, fun more => .inr fun hvalid => ?_⟩
      rw [Valid, happ, List.append_assoc, hfront.run_append] at hvalid
      exact reads_carry.doomed _ hcarry more ((valid_iff_mem _).mp hvalid)

theorem finish_knows {pre : List UInt8} {v : Utf8StreamValidator} (h : Knows pre v none) :
    v.finish = .ok () ↔ pre.contains 0x00 = false ∧ Valid pre := by
  obtain ⟨hnul, -, front, rfl, hfront, hunfinished⟩ := h
  have hv : Valid (front ++ v.tail) ↔ Valid v.tail := by
    rw [Valid, hfront.run_append, Valid]
  rw [hv]
  unfold finish
  cases htail : v.tail with
  | nil => simpa [htail, Valid, Utf8.run] using hnul
  | cons b bs =>
    have hn : ¬ Valid (b :: bs) := by
      rw [← htail]
      exact hunfinished (by simp [htail])
    cases hcheck : check (b :: bs) with
    | ok u => exact absurd ((check_ok_iff _).mp hcheck) hn
    | error e => simp [hn]

end Utf8StreamValidator

theorem readOversized_some {n : ℕ} (h : n ≠ 0) (v : Utf8StreamValidator) (e : PayloadError)
    (sum : FrameSum) : readOversized n v (some e) sum = .act (min n discardChunk) fun chunk =>
      readOversized (n - min n discardChunk) v (some e) (FrameSum.addSlice sum chunk) := by
  rw [readOversized, dif_neg h]

theorem readOversized_none {n : ℕ} (h : n ≠ 0) (v : Utf8StreamValidator) (sum : FrameSum) :
    readOversized n v none sum = .act (min n discardChunk) fun chunk =>
      match v.feed chunk with
      | none => .fail .panic
      | some (.error e) =>
        readOversized (n - min n discardChunk) v (some e) (FrameSum.addSlice sum chunk)
      | some (.ok w) =>
        readOversized (n - min n discardChunk) w none (FrameSum.addSlice sum chunk) := by
  rw [readOversized, dif_neg h]

theorem run_readOversized (s pre : List UInt8) (v : Utf8StreamValidator) (err : Option PayloadError)
    (h : v.Knows pre err) :
    ∃ w err', w.Knows (pre ++ s) err' ∧ ∀ sum t,
      Reader.run (readOversized s.length v err sum) (s ++ t) =
        .done (w, err', sum + frameSum s) t := by
  induction hn : s.length using Nat.strongRecOn generalizing s pre v err with
  | ind n ih =>
    by_cases h0 : n = 0
    · obtain rfl : s = [] := List.eq_nil_of_length_eq_zero (by omega)
      subst h0
      refine ⟨v, err, by simpa using h, fun sum t => ?_⟩
      rw [readOversized]
      simp
    · have hlt : n - min n discardChunk < n := by
        simp only [discardChunk]
        omega
      have htake : (s.take (min n discardChunk)).length = min n discardChunk := by
        rw [List.length_take]
        omega
      have hdrop : (s.drop (min n discardChunk)).length = n - min n discardChunk := by
        rw [List.length_drop, hn]
      have hsplit := List.take_append_drop (min n discardChunk) s
      revert htake hdrop hsplit
      generalize s.take (min n discardChunk) = chunk
      generalize s.drop (min n discardChunk) = rest
      rintro htake hdrop rfl
      -- whatever the chunk did to the validator, the rest is an instance of `ih`
      have hnext : ∀ (v' : Utf8StreamValidator) (err₁ : Option PayloadError),
          v'.Knows (pre ++ chunk) err₁ →
          (∀ sum t, Reader.run (readOversized n v err sum) (chunk ++ t) = Reader.run
            (readOversized (n - min n discardChunk) v' err₁ (FrameSum.addSlice sum chunk)) t) →
          ∃ w err', w.Knows (pre ++ (chunk ++ rest)) err' ∧ ∀ sum t,
            Reader.run (readOversized n v err sum) (chunk ++ rest ++ t) =
              .done (w, err', sum + frameSum (chunk ++ rest)) t := by
        intro v' err₁ hk hrun
        obtain ⟨w, err', hw, hrest⟩ := ih _ hlt rest (pre ++ chunk) v' err₁ hk hdrop
        refine ⟨w, err', by rwa [← List.append_assoc], fun sum t => ?_⟩
        rw [List.append_assoc, hrun, hrest, FrameSum.addSlice_eq, frameSum_append, UInt8.add_assoc]
      cases err with
      | some e =>
        refine hnext v (some e) (h.more chunk) fun sum t => ?_
        rw [readOversized_some h0, Reader.run_act_append _ htake]
      | none =>
        have hc : chunk.length ≤ discardChunk := by omega
        rcases Utf8StreamValidator.feed_knows h hc with ⟨w, hf, hw⟩ | ⟨e, hf, he⟩
        · refine hnext w none hw fun sum t => ?_
          rw [readOversized_none h0, Reader.run_act_append _ htake, hf]
        · refine hnext v (some e) he fun sum t => ?_
          rw [readOversized_none h0, Reader.run_act_append _ htake, hf]

end Qup.Embassy
