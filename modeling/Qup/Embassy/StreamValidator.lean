import Qup.Embassy.RequestRefinement
import Qup.Foundation.Encoding
import Mathlib.Data.Vector.Defs

/-!
# Validating a string in chunks

`Utf8StreamValidator` with the arrays that it works on: four bytes for the tail, and
a buffer for the tail and a chunk. A slice or a copy out of range panics. What the
tail array holds is the tail of the validator that the request reader goes on, and
it is the unfinished character of the bytes fed so far.
-/

namespace Qup.Embassy
open Foundation Foundation.Utf8

def slice {n : ℕ} (array : List.Vector UInt8 n) (lo hi : ℕ) : Option (List UInt8) :=
  if lo ≤ hi ∧ hi ≤ n then some ((array.toList.take hi).drop lo) else none

def copyFromSlice {n : ℕ} (array : List.Vector UInt8 n) (lo hi : ℕ) (src : List UInt8) :
    Option (List.Vector UInt8 n) :=
  if h : lo ≤ hi ∧ hi ≤ n ∧ src.length = hi - lo then
    some ⟨array.toList.take lo ++ src ++ array.toList.drop hi, by
      simp only [List.length_append, List.length_take, List.length_drop, List.Vector.toList_length]
      omega⟩
  else none

section
variable {n : ℕ} {array copied : List.Vector UInt8 n} {lo hi k : ℕ} {src : List UInt8}

theorem slice_front (h : k ≤ n) : slice array 0 k = some (array.toList.take k) := by
  rw [slice, if_pos ⟨Nat.zero_le k, h⟩, List.drop_zero]

theorem copyFromSlice_front (h : src.length ≤ n) :
    ∃ copied, copyFromSlice array 0 src.length src = some copied ∧
      copied.toList.take src.length = src := by
  have hrange : 0 ≤ src.length ∧ src.length ≤ n ∧ src.length = src.length - 0 :=
    ⟨Nat.zero_le _, h, rfl⟩
  refine ⟨_, dif_pos hrange, ?_⟩
  change ([] ++ src ++ _).take src.length = src
  rw [List.nil_append, List.take_left]

theorem copyFromSlice_append (h : k + src.length ≤ n) :
    ∃ copied, copyFromSlice array k (k + src.length) src = some copied ∧
      copied.toList.take (k + src.length) = array.toList.take k ++ src := by
  have hrange : k ≤ k + src.length ∧ k + src.length ≤ n ∧ src.length = k + src.length - k :=
    ⟨by omega, h, by omega⟩
  refine ⟨_, dif_pos hrange, ?_⟩
  have hlen : (array.toList.take k ++ src).length = k + src.length := by
    rw [List.length_append, List.length_take_of_le (by rw [List.Vector.toList_length]; omega)]
  change (array.toList.take k ++ src ++ _).take (k + src.length) = _
  rw [← hlen, List.take_left]

end

structure Utf8StreamArrays where
  tail : List.Vector UInt8 4
  tailLen : ℕ

namespace Utf8StreamArrays

def new : Utf8StreamArrays := ⟨List.Vector.replicate 4 0, 0⟩

/-- `none` is a panic. -/
def feed (v : Utf8StreamArrays) (chunk : List UInt8) :
    Option (Except PayloadError Utf8StreamArrays) :=
  if chunk.contains 0x00 then some (.error .stringContainsNul)
  else do
    let total := v.tailLen + chunk.length
    let buffer : List.Vector UInt8 (discardChunk + 4) := List.Vector.replicate (discardChunk + 4) 0
    let carried ← slice v.tail 0 v.tailLen
    let buffer ← copyFromSlice buffer 0 v.tailLen carried
    let buffer ← copyFromSlice buffer v.tailLen total chunk
    let fed ← slice buffer 0 total
    match check fed with
    | .ok () => some (.ok { v with tailLen := 0 })
    | .error ⟨validUpTo, some errorLen⟩ => some (.error (.invalidUtf8 ⟨validUpTo, some errorLen⟩))
    | .error ⟨validUpTo, none⟩ =>
      if total < validUpTo then none
      else do
        let leftover := total - validUpTo
        let rest ← slice buffer validUpTo total
        let tail ← copyFromSlice v.tail 0 leftover rest
        some (.ok ⟨tail, leftover⟩)

def finish (v : Utf8StreamArrays) : Option (Except PayloadError Unit) :=
  if v.tailLen = 0 then some (.ok ())
  else do
    let carried ← slice v.tail 0 v.tailLen
    match check carried with
    | .ok () => some (.ok ())
    | .error e => some (.error (.invalidUtf8 e))

def feedAll (v : Utf8StreamArrays) : List (List UInt8) →
    Option (Except PayloadError Utf8StreamArrays)
  | [] => some (.ok v)
  | chunk :: chunks => do
    match ← v.feed chunk with
    | .error e => some (.error e)
    | .ok v => v.feedAll chunks

def validate (chunks : List (List UInt8)) : Option (Except PayloadError Unit) := do
  match ← new.feedAll chunks with
  | .error e => some (.error e)
  | .ok v => v.finish

def carried (v : Utf8StreamArrays) : List UInt8 := v.tail.toList.take v.tailLen

def validator (v : Utf8StreamArrays) : Utf8StreamValidator := ⟨v.carried⟩

theorem length_carried {v : Utf8StreamArrays} (h : v.tailLen ≤ 4) :
    v.carried.length = v.tailLen := by
  rw [carried, List.length_take_of_le (by rw [List.Vector.toList_length]; exact h)]

theorem buffered {v : Utf8StreamArrays} (h : v.tailLen ≤ 4)
    (array : List.Vector UInt8 (discardChunk + 4)) :
    ∃ first, copyFromSlice array 0 v.tailLen v.carried = some first ∧
      first.toList.take v.tailLen = v.carried := by
  have hlen := length_carried h
  have hfits : v.carried.length ≤ discardChunk + 4 := by
    rw [hlen, discardChunk]
    omega
  have hfirst := @copyFromSlice_front _ array v.carried hfits
  rw [hlen] at hfirst
  exact hfirst

/-- The arrays do what the validator of the request reader does, and panic where it does. -/
theorem feed_validator {v : Utf8StreamArrays} (h : v.tailLen ≤ 4) (chunk : List UInt8) :
    (v.feed chunk).map (Except.map validator) = v.validator.feed chunk := by
  have hlen : v.validator.tail.length = v.tailLen := length_carried h
  have hcarried : slice v.tail 0 v.tailLen = some v.carried := slice_front h
  unfold feed Utf8StreamValidator.feed
  by_cases hnul : chunk.contains 0x00 = true
  · rw [if_pos hnul, if_pos hnul]
    rfl
  rw [if_neg hnul, if_neg hnul]
  obtain ⟨first, hfirst, hfront⟩ := buffered h (List.Vector.replicate (discardChunk + 4) 0)
  simp only [hcarried, hfirst, hlen, Option.bind_eq_bind, Option.bind_some]
  by_cases htotal : discardChunk + 4 < v.tailLen + chunk.length
  · have hout : copyFromSlice first v.tailLen (v.tailLen + chunk.length) chunk = none :=
      dif_neg (by omega)
    rw [if_pos htotal, hout]
    rfl
  · obtain ⟨buffer, hbuffer, hfed⟩ := @copyFromSlice_append _ first v.tailLen chunk (by omega)
    rw [hfront] at hfed
    have hslice : slice buffer 0 (v.tailLen + chunk.length) = some (v.carried ++ chunk) := by
      rw [slice_front (by omega), hfed]
    rw [if_neg htotal, hbuffer]
    simp only [Option.bind_some, hslice, validator]
    cases hcheck : check (v.carried ++ chunk) with
    | ok u => rfl
    | error e =>
      obtain ⟨validUpTo, _ | errorLen⟩ := e
      · dsimp only
        split_ifs with hbefore hlong
        · rfl
        all_goals
          have hrest : slice buffer validUpTo (v.tailLen + chunk.length) =
              some ((v.carried ++ chunk).drop validUpTo) := by
            rw [slice, if_pos ⟨by omega, by omega⟩, hfed]
          rw [hrest, Option.bind_some]
        · -- the leftover does not fit the tail
          have hout : copyFromSlice v.tail 0 (v.tailLen + chunk.length - validUpTo)
              ((v.carried ++ chunk).drop validUpTo) = none := dif_neg (by omega)
          rw [hout]
          rfl
        · have hleft : ((v.carried ++ chunk).drop validUpTo).length =
              v.tailLen + chunk.length - validUpTo := by
            rw [List.length_drop, List.length_append, length_carried h]
          obtain ⟨tail, htail, hkept⟩ := @copyFromSlice_front _ v.tail
            ((v.carried ++ chunk).drop validUpTo) (by omega)
          rw [hleft] at htail hkept
          rw [htail]
          exact congrArg (fun t => some (Except.ok (Utf8StreamValidator.mk t))) hkept
      · rfl

theorem finish_validator {v : Utf8StreamArrays} (h : v.tailLen ≤ 4) :
    v.finish = some v.validator.finish := by
  have hlen : v.validator.tail.length = v.tailLen := length_carried h
  have hcarried : slice v.tail 0 v.tailLen = some v.carried := slice_front h
  unfold finish Utf8StreamValidator.finish
  rw [hlen]
  split_ifs with hempty
  · rfl
  · simp only [hcarried, Option.bind_eq_bind, Option.bind_some, validator]
    cases check v.carried <;> rfl

theorem tailLen_of_carried {v : Utf8StreamArrays} (h : v.carried.length ≤ 3) : v.tailLen ≤ 3 := by
  rw [carried, List.length_take, List.Vector.toList_length] at h
  omega

theorem feed_carry {v : Utf8StreamArrays} (hv : v.tailLen ≤ 3) {chunk : List UInt8}
    (hsize : chunk.length ≤ discardChunk) (hnul : chunk.contains 0x00 = false) :
    (∃ w, v.feed chunk = some (.ok w) ∧ w.tailLen ≤ 3 ∧
        carry (v.carried ++ chunk) = some w.carried) ∨
      ∃ e, v.feed chunk = some (.error e) ∧ carry (v.carried ++ chunk) = none := by
  have hfour : v.tailLen ≤ 4 := by omega
  have hlen : v.validator.tail.length = v.tailLen := length_carried hfour
  have harrays := feed_validator hfour chunk
  rcases @Utf8StreamValidator.feed_carry v.validator chunk (by omega) hnul with
    ⟨tail, hcarry, hfeed⟩ | ⟨hcarry, e, hfeed⟩
  · rw [hfeed, Option.map_eq_some_iff] at harrays
    obtain ⟨r, hr, hok⟩ := harrays
    cases r with
    | error e => cases hok
    | ok w =>
      have htail : w.carried = tail := by
        cases hok
        rfl
      obtain ⟨front, hsplit⟩ := reads_carry.split _ _ hcarry
      refine .inl ⟨w, hr, tailLen_of_carried ?_, htail ▸ hcarry⟩
      rw [htail]
      exact length_of_unfinished hsplit.unfinished
  · rw [hfeed, Option.map_eq_some_iff] at harrays
    obtain ⟨r, hr, herror⟩ := harrays
    cases r with
    | error e => exact .inr ⟨e, hr, hcarry⟩
    | ok w => cases herror

theorem feedAll_carry {chunks : List (List UInt8)} {v : Utf8StreamArrays} (hv : v.tailLen ≤ 3)
    (hsize : ∀ chunk ∈ chunks, chunk.length ≤ discardChunk) :
    (∃ w, v.feedAll chunks = some (.ok w) ∧ w.tailLen ≤ 3 ∧
        chunks.flatten.contains 0x00 = false ∧
          readPieces carry v.carried chunks = some w.carried) ∨
      ∃ e, v.feedAll chunks = some (.error e) ∧
        (chunks.flatten.contains 0x00 = true ∨ readPieces carry v.carried chunks = none) := by
  induction chunks generalizing v with
  | nil => exact .inl ⟨v, rfl, hv, rfl, rfl⟩
  | cons chunk chunks ih =>
    have hchunk := hsize chunk List.mem_cons_self
    have hrest := fun c hc => hsize c (List.mem_cons_of_mem chunk hc)
    rw [List.flatten_cons, List.contains_append, feedAll, readPieces]
    cases hnul : chunk.contains 0x00 with
    | true =>
      have hfeed : v.feed chunk = some (.error .stringContainsNul) := if_pos hnul
      rw [hfeed]
      exact .inr ⟨_, rfl, .inl rfl⟩
    | false =>
      rcases feed_carry hv hchunk hnul with ⟨w, hfeed, hw, hcarry⟩ | ⟨e, hfeed, hcarry⟩
      · rw [hfeed, hcarry]
        exact ih hw hrest
      · rw [hfeed, hcarry]
        exact .inr ⟨e, rfl, .inr rfl⟩

end Utf8StreamArrays

theorem exists_decodeWireString_iff (bs : List UInt8) :
    (∃ s, decodeWireString bs = .ok s) ↔ bs.contains 0x00 = false ∧ Valid bs := by
  constructor
  · rintro ⟨s, hs⟩
    obtain ⟨rfl, hnul⟩ := (decodeWireString_ok_iff bs s).mp hs
    exact ⟨hnul, s.valid⟩
  · rintro ⟨hnul, hvalid⟩
    exact ⟨⟨bs, hvalid⟩, (decodeWireString_ok_iff bs _).mpr ⟨rfl, hnul⟩⟩

/-- A string is accepted in chunks as it is at once, nothing is sliced or copied out
of range, and between chunks the tail is the unfinished character. -/
theorem validate_chunks (chunks : List (List UInt8))
    (hsize : ∀ chunk ∈ chunks, chunk.length ≤ discardChunk) :
    (∃ r, Utf8StreamArrays.validate chunks = some r ∧
      (r = .ok () ↔ ∃ s, decodeWireString chunks.flatten = .ok s)) ∧
    ((∃ s, decodeWireString chunks.flatten = .ok s) ↔ chunks.flatten.contains 0x00 = false ∧
      ∃ text : List Char, chunks.flatten = text.flatMap String.utf8EncodeChar) ∧
    ∀ fed rest, chunks = fed ++ rest → ∃ r, Utf8StreamArrays.new.feedAll fed = some r ∧
      ∀ v, r = .ok v → v.tailLen ≤ 3 ∧ ∀ tail,
        (∃ front, Split characters fed.flatten front tail) ↔
          tail = v.tail.toList.take v.tailLen := by
  have hnew : Utf8StreamArrays.new.tailLen ≤ 3 := Nat.zero_le 3
  have hstart : Split characters [] [] Utf8StreamArrays.new.carried := .nil unfinished_nil
  refine ⟨?_, ?_, ?_⟩
  · rw [exists_decodeWireString_iff, valid_iff_mem]
    unfold Utf8StreamArrays.validate
    rcases Utf8StreamArrays.feedAll_carry hnew hsize with
      ⟨v, hfed, htail, hnul, hread⟩ | ⟨e, hfed, hbad⟩
    · obtain ⟨front, hsplit⟩ := split_readPieces reads_carry hstart hread
      rw [List.nil_append] at hsplit
      have hfinish := Utf8StreamArrays.finish_validator (Nat.le_succ_of_le htail)
      have hknows : Utf8StreamValidator.Knows chunks.flatten v.validator none :=
        .of_split hnul hsplit
      refine ⟨v.validator.finish, by rw [hfed]; exact hfinish, ?_⟩
      rw [Utf8StreamValidator.finish_knows hknows, valid_iff_mem]
    · refine ⟨.error e, by rw [hfed]; rfl, ⟨nofun, fun ⟨hnul, hmem⟩ => ?_⟩⟩
      rcases hbad with hzero | hdoomed
      · rw [hzero] at hnul
        cases hnul
      · rw [← readPieces_eq_nil_iff prefixCode_characters reads_carry unfinished_nil] at hmem
        cases hdoomed.symm.trans hmem
  · rw [exists_decodeWireString_iff, valid_iff_encode]
  · rintro fed rest rfl
    have hfedsize := fun chunk hchunk => hsize chunk (List.mem_append_left rest hchunk)
    rcases Utf8StreamArrays.feedAll_carry hnew hfedsize with
      ⟨v, hfed, htail, -, hread⟩ | ⟨e, hfed, -⟩
    · obtain ⟨front, hsplit⟩ := split_readPieces reads_carry hstart hread
      rw [List.nil_append] at hsplit
      refine ⟨.ok v, hfed, fun w hw => ?_⟩
      cases hw
      refine ⟨htail, fun tail => ⟨fun ⟨front', hsplit'⟩ => ?_, fun h => ⟨front, h ▸ hsplit⟩⟩⟩
      exact (prefixCode_characters.unique hsplit' hsplit).2
    · exact ⟨.error e, hfed, nofun⟩

theorem validate_chunks_emoji :
    Utf8StreamArrays.validate [[0x61, 0xf0, 0x9f], [], [0x98], [0x80, 0x62]] = some (.ok ()) := by
  obtain ⟨r, hr, haccepted⟩ :=
    (validate_chunks [[0x61, 0xf0, 0x9f], [], [0x98], [0x80, 0x62]] (by decide)).1
  rw [hr, haccepted.mpr ((exists_decodeWireString_iff _).mpr ⟨by decide, by decide⟩)]

end Qup.Embassy
