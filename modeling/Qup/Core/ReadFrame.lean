import Qup.Core.Frame
import Qup.Foundation.ByteReader
import Mathlib.Data.List.Forall2

/-!
# Reading frames from a byte source

`qup-core/src/io/sync.rs` and `io/asynch.rs`. The two `read_frame` functions
differ only in how their reads wait, so both are interpretations of one reader:
`Sync.readFrame` loops over the fragments inside each read and
`Asynch.readFrame` suspends between arrivals. A source that ends inside a read
is the transport's error.
-/

namespace Qup
open Foundation

/-- `ReadFrameError` and `AsyncReadFrameError`; the transport's own error value
is never inspected. -/
inductive ReadFrameError where
  | transport
  | bufferTooSmall (required available : ℕ)
  | frame (error : FrameError)
  deriving DecidableEq, Repr

def byteAt (buf : List UInt8) (i : ℕ) : UInt8 := buf.getD i 0

def readFrame (direction : WireDirection) (available : ℕ) :
    Reader UInt8 ReadFrameError FrameView := do
  let header ← Reader.readExact 3
  let opcode : Opcode := ⟨byteAt header 0⟩
  let length := ofBe16 (byteAt header 1) (byteAt header 2)
  let required := length.toNat
  if available < required then .fail (.bufferTooSmall required available)
  else do
    let payload ← Reader.readExact required
    let checksum ← Reader.readExact 1
    let expected := computeChecksum opcode payload
    if byteAt checksum 0 ≠ expected then
      let sum := opcode.byte + byteAt header 1 + byteAt header 2
      let sum := payload.foldl (fun acc byte => acc + byte) sum
      let sum := sum + byteAt checksum 0
      .fail (.frame (.checksumMismatch sum))
    else match opcode.validate direction with
      | .error e => .fail (.frame e)
      | .ok () => .ret ⟨⟨opcode, length, byteAt checksum 0⟩, payload⟩

def readResult {α : Type} : Outcome UInt8 ReadFrameError α → Except ReadFrameError α × List UInt8
  | .starved => (.error .transport, [])
  | .failed e rest => (.error e, rest)
  | .done a rest => (.ok a, rest)

namespace Sync

def readFrame (direction : WireDirection) (available : ℕ) (source : List (List UInt8)) :
    Except ReadFrameError FrameView × List UInt8 :=
  readResult (Reader.runFragments (Qup.readFrame direction available) source).1

def readFrames (direction : WireDirection) (available n : ℕ) (source : List (List UInt8)) :
    Except ReadFrameError (List FrameView) × List UInt8 :=
  readResult (Reader.runFragments ((Qup.readFrame direction available).times n) source).1

end Sync

namespace Asynch

def readFrame (direction : WireDirection) (available : ℕ) (source : List (List UInt8)) :
    Except ReadFrameError FrameView × List UInt8 :=
  readResult (Reader.drive (Qup.readFrame direction available) [] source)

def readFrames (direction : WireDirection) (available n : ℕ) (source : List (List UInt8)) :
    Except ReadFrameError (List FrameView) × List UInt8 :=
  readResult (Reader.drive ((Qup.readFrame direction available).times n) [] source)

end Asynch

theorem Sync.readFrame_eq (direction : WireDirection) (available : ℕ) (source : List (List UInt8)) :
    Sync.readFrame direction available source =
      readResult ((Qup.readFrame direction available).run source.flatten) := by
  rw [Sync.readFrame, Reader.runFragments_eq_run]

theorem Asynch.readFrame_eq (direction : WireDirection) (available : ℕ)
    (source : List (List UInt8)) :
    Asynch.readFrame direction available source =
      readResult ((Qup.readFrame direction available).run source.flatten) := by
  rw [Asynch.readFrame, Reader.drive_eq_run]
  rfl

theorem run_readFrame_rawFrame (direction : WireDirection) {available : ℕ} (opcode : Opcode)
    {payload : List UInt8} (hlen : payload.length ≤ 65535) (hav : payload.length ≤ available)
    (c : UInt8) (t : List UInt8) :
    (readFrame direction available).run (rawFrame opcode payload c ++ t) =
      match parseFrame direction (rawFrame opcode payload c) with
      | .ok view => .done view t
      | .error e => .failed (.frame e) t := by
  have hn := toNat_ofNat16 hlen
  rw [parseFrame_rawFrame direction opcode payload hlen c, rawFrame_eq]
  simp only [readFrame, Reader.readExact_bind, List.cons_append, List.nil_append,
    List.append_assoc, Reader.run_act_three, byteAt, List.getD_cons_zero, List.getD_cons_succ,
    ofBe16_be16, hn]
  rw [if_neg (by omega), Reader.run_act_append _ rfl, Reader.run_act_one]
  simp only [List.getD_cons_zero]
  by_cases hc : c = computeChecksum opcode payload
  · rw [if_neg (not_not.mpr hc), if_pos hc, hc]
    cases opcode.validate direction <;> rfl
  · rw [if_pos hc, if_neg hc, foldl_sum]
    simp only [frameSum_cons, frameSum_append, frameSum_nil, Reader.run_fail]
    congr 3
    grind

theorem run_readFrame_short (direction : WireDirection) {available : ℕ} {s : List UInt8}
    (hav : declaredLen s ≤ available) (hs : s.length < declaredLen s + 4) :
    (readFrame direction available).run s = .starved := by
  simp only [readFrame, Reader.readExact_bind]
  match s with
  | [] | [_] | [_, _] => exact Reader.run_act_of_lt _ (by simp)
  | op :: hi :: lo :: s =>
    simp only [declaredLen, List.length_cons] at hav hs
    rw [Reader.run_act_of_le _ (by simp)]
    simp only [List.take_succ_cons, List.take_zero, List.drop_succ_cons, List.drop_zero, byteAt,
      List.getD_cons_zero, List.getD_cons_succ]
    rw [if_neg (by omega), Reader.run_act]
    split_ifs with h
    · exact Reader.run_act_of_lt _ (by rw [List.length_drop]; omega)
    · rfl

theorem run_readFrame_of_parseFrame {direction : WireDirection} {available : ℕ} {b : List UInt8}
    {view : FrameView} (h : parseFrame direction b = .ok view)
    (hav : view.payload.length ≤ available) (t : List UInt8) :
    (readFrame direction available).run (b ++ t) = .done view t := by
  obtain ⟨opcode, payload, -, hlen, rfl, rfl⟩ := (parseFrame_ok_iff direction b view).mp h
  rw [frameBytes] at h ⊢
  rw [run_readFrame_rawFrame direction opcode hlen hav, h]

/-- The streaming readers and the slice parser agree on every stream, whatever
its fragmentation; so a list of valid frames is read back as that list. -/
theorem readFrame_agrees (direction : WireDirection) (available : ℕ) (source : List (List UInt8)) :
    (declaredLen source.flatten ≤ available →
      declaredLen source.flatten + 4 ≤ source.flatten.length →
        let first := source.flatten.take (declaredLen source.flatten + 4)
        let result := ((parseFrame direction first).mapError .frame,
          source.flatten.drop (declaredLen source.flatten + 4))
        Sync.readFrame direction available source = result ∧
          Asynch.readFrame direction available source = result) ∧
    (declaredLen source.flatten ≤ available →
      source.flatten.length < declaredLen source.flatten + 4 →
        (Sync.readFrame direction available source).1 = .error .transport ∧
          (Asynch.readFrame direction available source).1 = .error .transport) ∧
    (∀ (frames : List (List UInt8)) (views : List FrameView) (rest : List UInt8),
      List.Forall₂ (fun b view => parseFrame direction b = .ok view ∧
        view.payload.length ≤ available) frames views →
      source.flatten = frames.flatten ++ rest →
        Sync.readFrames direction available frames.length source = (.ok views, rest) ∧
          Asynch.readFrames direction available frames.length source = (.ok views, rest)) := by
  refine ⟨fun hav hlen => ?_, fun hav hlen => ?_, fun frames views rest hframes hsource => ?_⟩
  · rw [Sync.readFrame_eq, Asynch.readFrame_eq]
    obtain ⟨opcode, payload, c, t, hp, hs⟩ := stream_eq_rawFrame hlen
    have hl : declaredLen source.flatten + 4 = (rawFrame opcode payload c).length := by
      rw [hs, declaredLen_rawFrame opcode hp, length_rawFrame]
    rw [hs, declaredLen_rawFrame opcode hp] at hav
    have hrun : readResult ((Qup.readFrame direction available).run source.flatten) =
        ((parseFrame direction (rawFrame opcode payload c)).mapError .frame, t) := by
      rw [hs, run_readFrame_rawFrame direction opcode hp hav]
      cases parseFrame direction (rawFrame opcode payload c) <;> rfl
    rw [hl, hrun, hs, List.take_left, List.drop_left]
    exact ⟨rfl, rfl⟩
  · rw [Sync.readFrame_eq, Asynch.readFrame_eq, run_readFrame_short direction hav hlen]
    exact ⟨rfl, rfl⟩
  · have hread : List.Forall₂ (fun b view => ∀ t,
        (Qup.readFrame direction available).run (b ++ t) = .done view t) frames views :=
      hframes.imp fun b view h t => run_readFrame_of_parseFrame h.1 h.2 t
    have hrun := Reader.run_times rest hread
    constructor
    · rw [Sync.readFrames, Reader.runFragments_eq_run, hsource, hrun]
      rfl
    · rw [Asynch.readFrames, Reader.drive_eq_run, List.nil_append, hsource, hrun]
      rfl

theorem run_readFrame_tooSmall (direction : WireDirection) {available : ℕ} (opcode : Opcode)
    {payload : List UInt8} (hlen : payload.length ≤ 65535) (hav : available < payload.length)
    (c : UInt8) (t : List UInt8) :
    (readFrame direction available).run (rawFrame opcode payload c ++ t) =
      .failed (.bufferTooSmall payload.length available) (payload ++ [c] ++ t) := by
  have hn := toNat_ofNat16 hlen
  rw [rawFrame_eq]
  simp only [readFrame, Reader.readExact_bind, List.cons_append, List.nil_append,
    List.append_assoc, Reader.run_act_three, byteAt, List.getD_cons_zero, List.getD_cons_succ,
    ofBe16_be16, hn]
  rw [if_pos hav, Reader.run_fail]

/-- After a frame error the reader stands behind the frame. After `BufferTooSmall`
it stands behind the header: the payload and the checksum are still to be read,
as the error says how many bytes, and the opcode is gone. -/
theorem readFrame_leaves (direction : WireDirection) (available : ℕ) (opcode : Opcode)
    {payload : List UInt8} (hlen : payload.length ≤ 65535) (c : UInt8) (t : List UInt8)
    {source : List (List UInt8)} (hsource : source.flatten = rawFrame opcode payload c ++ t) :
    ∀ r ∈ [Sync.readFrame direction available source, Asynch.readFrame direction available source],
      r.1 ≠ .error .transport ∧
      (∀ e, r.1 = .error (.frame e) → r.2 = t) ∧
      ∀ required had, r.1 = .error (.bufferTooSmall required had) →
        required = payload.length ∧ had = available ∧ available < payload.length ∧
          r.2 = payload ++ [c] ++ t := by
  have hboth : ∀ r ∈ [Sync.readFrame direction available source,
      Asynch.readFrame direction available source],
      r = readResult ((Qup.readFrame direction available).run (rawFrame opcode payload c ++ t)) := by
    rw [Sync.readFrame_eq, Asynch.readFrame_eq, hsource]
    simp
  intro r hr
  rw [hboth r hr]
  by_cases hav : payload.length ≤ available
  · rw [run_readFrame_rawFrame direction opcode hlen hav]
    cases parseFrame direction (rawFrame opcode payload c) with
    | ok view => exact ⟨fun h => (by cases h), fun e h => (by cases h), fun n m h => (by cases h)⟩
    | error e => exact ⟨fun h => (by cases h), fun e h => rfl, fun n m h => (by cases h)⟩
  · have hsmall : available < payload.length := Nat.lt_of_not_le hav
    rw [run_readFrame_tooSmall direction opcode hlen hsmall]
    refine ⟨fun h => (by cases h), fun e h => (by cases h), fun required had h => ?_⟩
    cases h
    exact ⟨rfl, rfl, hsmall, rfl⟩

def LosesFrame (readFrame : WireDirection → ℕ → List (List UInt8) →
    Except ReadFrameError FrameView × List UInt8) : Prop :=
  readFrame .clientToNode 1 [[0x53, 0x00, 0x02, 0x00, 0x01, 0xaa]] =
      (.error (.bufferTooSmall 2 1), [0x00, 0x01, 0xaa]) ∧
    readFrame .clientToNode 2 [[0x00, 0x01, 0xaa]] = (.error (.bufferTooSmall 426 2), []) ∧
    readFrame .clientToNode 2 [[0x53, 0x00, 0x02, 0x00, 0x01, 0xaa]] =
      (.ok (frameView .getkey [0x00, 0x01]), [])

theorem readFrame_loses_frame : LosesFrame Sync.readFrame ∧ LosesFrame Asynch.readFrame := by
  constructor
  · exact ⟨by decide, by decide, by decide⟩
  · exact ⟨by decide, by decide, by decide⟩

theorem readFrame_leaves_getkey :
    (Sync.readFrame .clientToNode 1 [[0x53, 0x00, 0x02, 0x00, 0x01, 0xaa]]).2 =
      [0x00, 0x01, 0xaa] :=
  ((@readFrame_leaves .clientToNode 1 .getkey [0x00, 0x01] (by decide) 0xaa []
    [[0x53, 0x00, 0x02, 0x00, 0x01, 0xaa]] rfl _ List.mem_cons_self).2.2 2 1 (by decide)).2.2.2

end Qup
