import Qup.Embassy.Server
import Qup.Embassy.RequestRefinement

/-!
# Strings longer than the scratch buffer

A string that does not fit the scratch buffer reaches the key as
`OversizedStr`. For a buffer that covers every key's `MAX_STR_LEN` the key makes
the same of it as of the string itself, so the size of the buffer changes
neither where a request ends nor how it is handled.
-/

namespace Qup.Embassy
open Foundation Foundation.Utf8

variable {N : ℕ}

/-- A scratch buffer of `maxStr` bytes holds every string that some key stores. -/
def Covers (keys : Fin N → ErasedKey) (maxStr : ℕ) : Prop :=
  ∀ i, QupValue.maxStrLen (keys i).type.Value ≤ maxStr

theorem HString.decode_long {L : ℕ} {s : Str} (h : L < s.length) :
    (QupValue.decode (.str s) : Except WireValueError (HString L)) = .error .typeMismatch :=
  dif_neg (Nat.not_le_of_lt h)

theorem DerivedEnum.decode_long (e : DerivedEnum) {s : Str} (h : e.maxLen < s.length) :
    (QupValue.decode (.str s) : Except WireValueError e.Variant) = .error .typeMismatch := by
  have hnone : (List.finRange e.names.length).find? (fun v => e.name v == s) = none := by
    apply List.find?_eq_none.mpr
    intro v _ hv
    have hl := e.length_le_maxLen v
    rw [beq_iff_eq] at hv
    rw [hv] at hl
    omega
  simp only [QupValue.decode, hnone]

theorem KeyType.decode_long (t : KeyType) {s : Str} (h : QupValue.maxStrLen t.Value < s.length) :
    (QupValue.decode (.str s) : Except WireValueError t.Value) =
      QupValue.decode .oversizedStr := by
  cases t with
  | bool => rfl
  | i64 => rfl
  | string L => exact HString.decode_long h
  | derived e => exact e.decode_long h

theorem KeyType.decode_wireValue (t : KeyType) {maxStr : ℕ}
    (h : QupValue.maxStrLen t.Value ≤ maxStr) (v : ValueRef) :
    (QupValue.decode (wireValue maxStr v) : Except WireValueError t.Value) =
      QupValue.decode (.ofValue v) := by
  cases v with
  | bool b => rfl
  | i64 x => rfl
  | str s =>
    rw [wireValue]
    split_ifs with hs
    · rfl
    · exact (t.decode_long (by omega)).symm

def SameMessage (M M' : ℕ) (q q' : IncomingRequest) : Prop :=
  ∃ m, incoming M m = some q ∧ incoming M' m = some q'

namespace Server
variable (server : Server N) {M M' : ℕ}

theorem writeAndEncode_wireValue {maxStr : ℕ} (h : Covers server.keys maxStr) (i : Fin N)
    (v : ValueRef) (capacity : ℕ) :
    (Key.writeAndEncode i (wireValue maxStr v) capacity : server.Handler _) =
      Key.writeAndEncode i (.ofValue v) capacity := by
  rw [Key.writeAndEncode, Key.writeAndEncode, (server.keys i).type.decode_wireValue (h i)]

theorem handleRequest_wireValue {maxStr : ℕ} (h : Covers server.keys maxStr) (nodeId : Str)
    (keyref : UInt16) (v : ValueRef) (l : Locals N) :
    server.handleRequest nodeId (.write keyref (wireValue maxStr v)) l =
      server.handleRequest nodeId (.write keyref (.ofValue v)) l := by
  simp only [handleRequest, server.writeAndEncode_wireValue h]

theorem handleRequest_same (hM : Covers server.keys M) (hM' : Covers server.keys M') (nodeId : Str)
    {q q' : IncomingRequest} (h : SameMessage M M' q q') (l : Locals N) :
    server.handleRequest nodeId q l = server.handleRequest nodeId q' l := by
  obtain ⟨m, hq, hq'⟩ := h
  cases m with
  | request r =>
    cases r <;> cases hq <;> cases hq' <;> try rfl
    rw [server.handleRequest_wireValue hM, server.handleRequest_wireValue hM']
  | compatibilityRequest =>
    cases hq
    cases hq'
    rfl
  | _ => cases hq

end Server

/-- On any stream the readers with the two buffers stop in the same place: both
lack bytes, both report a protocol error, or both return the same message. -/
inductive SameEnd (M M' : ℕ) (s : List UInt8) : Prop where
  | starved (h : Reader.run (readRequest M) s = .starved)
      (h' : Reader.run (readRequest M') s = .starved)
  | failed (e e' : ProtocolError) (rest : List UInt8)
      (h : Reader.run (readRequest M) s = .failed (.error (.protocol e)) rest)
      (h' : Reader.run (readRequest M') s = .failed (.error (.protocol e')) rest)
  | done (q q' : IncomingRequest) (rest : List UInt8) (hsame : SameMessage M M' q q')
      (h : Reader.run (readRequest M) s = .done q rest)
      (h' : Reader.run (readRequest M') s = .done q' rest)

theorem sameEnd_rawFrame (M M' : ℕ) {opcode : Opcode} (hlegal : opcode.Legal .clientToNode)
    {payload : List UInt8} (hlen : payload.length ≤ 65535) (c : UInt8) (t : List UInt8) :
    SameEnd M M' (rawFrame opcode payload c ++ t) := by
  obtain ⟨r, hr, hrun⟩ := @run_readRequest_rawFrame M _ hlegal _ hlen c
  obtain ⟨r', hr', hrun'⟩ := @run_readRequest_rawFrame M' _ hlegal _ hlen c
  have h := hrun t
  have h' := hrun' t
  unfold settle at h h'
  by_cases hsum : frameSum (rawFrame opcode payload c) = 0
  · rw [if_pos hsum] at h h'
    cases r with
    | ok q =>
      obtain ⟨m, hm, hq⟩ := hr
      cases r' with
      | ok q' =>
        obtain ⟨m', hm', hq'⟩ := hr'
        rw [hm] at hm'
        cases hm'
        exact .done q q' t ⟨m, hq, hq'⟩ h h'
      | error e' => exact absurd hm (hr' m)
    | error e =>
      cases r' with
      | ok q' =>
        obtain ⟨m', hm', -⟩ := hr'
        exact absurd hm' (hr m')
      | error e' => exact .failed _ _ t h h'
  · rw [if_neg hsum] at h h'
    exact .failed _ _ t h h'

theorem sameEnd (M M' : ℕ) (s : List UInt8) : SameEnd M M' s := by
  rcases s with _ | ⟨op, _ | ⟨hi, _ | ⟨lo, s⟩⟩⟩
  · exact .starved (run_readRequest_headerless (by simp)) (run_readRequest_headerless (by simp))
  · exact .starved (run_readRequest_headerless (by simp)) (run_readRequest_headerless (by simp))
  · exact .starved (run_readRequest_headerless (by simp)) (run_readRequest_headerless (by simp))
  · by_cases hlegal : (⟨op⟩ : Opcode).Legal .clientToNode
    · rcases Nat.lt_or_ge s.length ((ofBe16 hi lo).toNat + 1) with hshort | hfull
      · exact .starved (run_readRequest_unfinished hlegal hshort)
          (run_readRequest_unfinished hlegal hshort)
      · have hdeclared : declaredLen (op :: hi :: lo :: s) + 4 ≤ (op :: hi :: lo :: s).length := by
          simp only [declaredLen, List.length_cons]
          omega
        obtain ⟨opcode, payload, c, t, hp, heq⟩ := stream_eq_rawFrame hdeclared
        have hop : opcode = ⟨op⟩ := by
          rw [rawFrame_eq] at heq
          exact congrArg Opcode.mk (List.cons.inj heq).1.symm
        subst hop
        rw [heq]
        exact sameEnd_rawFrame M M' hlegal hp c t
    · obtain ⟨e, he⟩ := run_readRequest_illegal hlegal hi lo s
      exact .failed _ _ s (he M) (he M')

end Qup.Embassy
