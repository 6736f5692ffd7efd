import Qup.Core.Message
import Qup.Core.Caps

/-!
# The payload grammar

What the protocol document says about payloads, against `MessageRef::decode`:
one layout for each message, strings and flags restricted, `CAPS` in its own
grammar. Layouts delimit themselves, so no valid payload extends another one of
the same opcode.
-/

namespace Qup
open Foundation Foundation.Utf8

namespace MessageRef

def strings : MessageRef → List Str
  | .request (.write _ (.str s)) => [s]
  | .ordinaryResponse (.identified nodeid) => [nodeid]
  | .ordinaryResponse (.key _ name) => [name]
  | .ordinaryResponse (.value (.str s)) => [s]
  | .ordinaryResponse (.written (.str s)) => [s]
  | .compatibilityResponse caps => [caps.raw]
  | _ => []

def keyflags : MessageRef → List KeyFlags
  | .ordinaryResponse (.key keyflags _) => [keyflags]
  | _ => []

structure InGrammar (m : MessageRef) : Prop where
  flags : ∀ f ∈ m.keyflags, f.bits &&& 0b11111000 = 0
  utf8 : ∀ s ∈ m.strings, Valid s.bytes
  noNul : ∀ s ∈ m.strings, 0x00 ∉ s.bytes
  fits : ∀ s ∈ m.strings, s.length ≤ 65535
  caps : ∀ c, m = .compatibilityResponse c →
    ∃ pairs, CapsRef.Grammar c.raw.bytes pairs c.supportsChanged

theorem wireStr_iff (s : Str) : WireStr s ↔ 0x00 ∉ s.bytes ∧ s.length ≤ 65535 := by
  constructor
  · intro h
    exact ⟨by simpa using h.noNul, h.fits⟩
  · rintro ⟨hnul, hfits⟩
    exact ⟨by simpa using hnul, hfits⟩

theorem wireStr_strings_iff (m : MessageRef) :
    (∀ s ∈ m.strings, WireStr s) ↔ (∀ s ∈ m.strings, 0x00 ∉ s.bytes) ∧
      ∀ s ∈ m.strings, s.length ≤ 65535 := by
  simp only [wireStr_iff]
  exact ⟨fun h => ⟨fun s hs => (h s hs).1, fun s hs => (h s hs).2⟩,
    fun h s hs => ⟨h.1 s hs, h.2 s hs⟩⟩

theorem onWire_strings_iff (m : MessageRef) : m.OnWire ↔ (∀ s ∈ m.strings, WireStr s) ∧
    ∀ c, m = .compatibilityResponse c → CapsRef.parse c.raw = .ok c := by
  cases m with
  | request r =>
    cases r with
    | write keyref value => cases value <;> simp [OnWire, strings, ValueRef.OnWire]
    | _ => simp [OnWire, strings]
  | ordinaryResponse r =>
    cases r with
    | value value => cases value <;> simp [OnWire, strings, ValueRef.OnWire]
    | written value => cases value <;> simp [OnWire, strings, ValueRef.OnWire]
    | _ => simp [OnWire, strings]
  | compatibilityResponse caps => simp [OnWire, strings]
  | _ => simp [OnWire, strings]

theorem onWire_iff (m : MessageRef) : m.OnWire ↔ m.InGrammar := by
  rw [onWire_strings_iff]
  have hcaps : (∀ s ∈ m.strings, WireStr s) →
      ∀ c, m = .compatibilityResponse c → (CapsRef.parse c.raw = .ok c ↔
        ∃ pairs, CapsRef.Grammar c.raw.bytes pairs c.supportsChanged) := by
    rintro hstrings c rfl
    have hfits := (hstrings c.raw (by simp [strings])).fits
    rw [CapsRef.parse_ok_iff (by omega)]
    simp
  constructor
  · rintro ⟨hstrings, hparse⟩
    obtain ⟨hnul, hfits⟩ := (wireStr_strings_iff m).mp hstrings
    exact ⟨fun f _ => f.valid, fun s _ => s.valid, hnul, hfits,
      fun c hc => (hcaps hstrings c hc).mp (hparse c hc)⟩
  · intro h
    have hstrings := (wireStr_strings_iff m).mpr ⟨h.noNul, h.fits⟩
    exact ⟨hstrings, fun c hc => (hcaps hstrings c hc).mpr (h.caps c hc)⟩

theorem be16_prefix {x y : UInt16} {extra : List UInt8} (h : be16 x ++ extra = be16 y) :
    extra = [] := by
  have hlen := congrArg List.length h
  rw [List.length_append, length_be16, length_be16] at hlen
  exact List.eq_nil_of_length_eq_zero (by omega)

theorem str16_prefix {s t : Str} {extra : List UInt8} (hs : WireStr s) (ht : WireStr t)
    (h : str16 s ++ extra = str16 t) : extra = [] := by
  have hread := PayloadCursor.readStr16_append hs extra
  rw [h, ← List.append_nil (str16 t), PayloadCursor.readStr16_append ht] at hread
  exact (Prod.mk.inj (Except.ok.inj hread)).2.symm

theorem value_prefix {v w : ValueRef} {extra : List UInt8} (hv : v.OnWire) (hw : w.OnWire)
    (h : v.bytes ++ extra = w.bytes) : extra = [] := by
  have hread := ValueRef.decode_bytes hv extra
  rw [h, ← List.append_nil w.bytes, ValueRef.decode_bytes hw] at hread
  exact (Prod.mk.inj (Except.ok.inj hread)).2.symm

theorem expectEmpty_prefix {op : Opcode} {p extra : List UInt8} {a m m' : MessageRef}
    (_ : ((expectEmpty op p).map fun _ => a) = .ok m)
    (h' : ((expectEmpty op (p ++ extra)).map fun _ => a) = .ok m') : extra = [] :=
  (List.append_eq_nil_iff.mp ((expectEmpty_ok_iff _ _ _ _).mp h').1).2

theorem decodeKeyref_prefix {op : Opcode} {p extra : List UInt8} {f : UInt16 → MessageRef}
    {m m' : MessageRef} (h : decodeKeyref op p f = .ok m)
    (h' : decodeKeyref op (p ++ extra) f = .ok m') : extra = [] := by
  obtain ⟨x, rfl, -⟩ := (decodeKeyref_ok_iff _ _ _ _).mp h
  obtain ⟨y, hy, -⟩ := (decodeKeyref_ok_iff _ _ _ _).mp h'
  exact be16_prefix hy

theorem decodeValueResponse_prefix {p extra : List UInt8} {written : Bool} {m m' : MessageRef}
    (h : decodeValueResponse p written = .ok m)
    (h' : decodeValueResponse (p ++ extra) written = .ok m') : extra = [] := by
  obtain ⟨v, rfl, hv, -⟩ := (decodeValueResponse_ok_iff _ _ _).mp h
  obtain ⟨w, hw, hw', -⟩ := (decodeValueResponse_ok_iff _ _ _).mp h'
  exact value_prefix hv hw' hw

theorem decodeWrite_prefix {p extra : List UInt8} {m m' : MessageRef} (h : decodeWrite p = .ok m)
    (h' : decodeWrite (p ++ extra) = .ok m') : extra = [] := by
  obtain ⟨x, v, rfl, hv, -⟩ := (decodeWrite_ok_iff _ _).mp h
  obtain ⟨y, w, heq, hw, -⟩ := (decodeWrite_ok_iff _ _).mp h'
  rw [List.append_assoc] at heq
  exact value_prefix hv hw (List.append_inj heq (by rw [length_be16, length_be16])).2

theorem decodeIdentified_prefix {p extra : List UInt8} {m m' : MessageRef}
    (h : decodeIdentified p = .ok m) (h' : decodeIdentified (p ++ extra) = .ok m') :
    extra = [] := by
  obtain ⟨s, rfl, hs, -⟩ := (decodeIdentified_ok_iff _ _).mp h
  obtain ⟨t, ht, hw, -⟩ := (decodeIdentified_ok_iff _ _).mp h'
  exact str16_prefix hs hw ht

theorem decodeKey_prefix {p extra : List UInt8} {m m' : MessageRef} (h : decodeKey p = .ok m)
    (h' : decodeKey (p ++ extra) = .ok m') : extra = [] := by
  obtain ⟨flags, s, rfl, hs, -⟩ := (decodeKey_ok_iff _ _).mp h
  obtain ⟨flags', t, ht, hw, -⟩ := (decodeKey_ok_iff _ _).mp h'
  exact str16_prefix hs hw (List.cons.inj ht).2

theorem decodeCaps_prefix {p extra : List UInt8} {m m' : MessageRef} (h : decodeCaps p = .ok m)
    (h' : decodeCaps (p ++ extra) = .ok m') : extra = [] := by
  obtain ⟨caps, rfl, hcaps, -⟩ := (decodeCaps_ok_iff _ _).mp h
  obtain ⟨caps', heq, hcaps', -⟩ := (decodeCaps_ok_iff _ _).mp h'
  exact str16_prefix hcaps.1 hcaps'.1 heq

theorem decodeError_prefix {op : Opcode} {p extra : List UInt8} {m m' : MessageRef}
    (h : decodeError op p = .ok m) (h' : decodeError op (p ++ extra) = .ok m') : extra = [] := by
  obtain ⟨code, rfl, -⟩ := (decodeError_ok_iff _ _ _).mp h
  obtain ⟨code', heq, -⟩ := (decodeError_ok_iff _ _ _).mp h'
  exact (List.cons.inj heq).2

theorem decode_prefix {op : Opcode} {p extra : List UInt8} {m m' : MessageRef}
    (h : decode op p = .ok m) (h' : decode op (p ++ extra) = .ok m') : extra = [] := by
  have hop : op ∈ Opcode.defined := by
    by_contra hn
    rw [decode_undefined hn] at h
    cases h
  simp only [Opcode.defined, List.mem_cons, List.not_mem_nil, or_false] at hop
  -- the opcodes in the order of `Opcode.defined`
  rcases hop with rfl | rfl | rfl | rfl | rfl | rfl | rfl | rfl | rfl |
    rfl | rfl | rfl | rfl | rfl | rfl | rfl | rfl | rfl
  · exact expectEmpty_prefix h h'
  · exact expectEmpty_prefix h h'
  · exact expectEmpty_prefix h h'
  · exact decodeKeyref_prefix (f := fun k => .request (.getKey k)) h h'
  · exact decodeKeyref_prefix (f := fun k => .request (.get k)) h h'
  · exact decodeWrite_prefix h h'
  · exact decodeKeyref_prefix (f := fun k => .request (.observe k)) h h'
  · exact decodeKeyref_prefix (f := fun k => .request (.unobserve k)) h h'
  · exact expectEmpty_prefix h h'
  · exact expectEmpty_prefix h h'
  · exact decodeIdentified_prefix h h'
  · exact decodeKeyref_prefix (f := fun k => .ordinaryResponse (.keytabLen k)) h h'
  · exact decodeKey_prefix h h'
  · exact decodeValueResponse_prefix h h'
  · exact decodeValueResponse_prefix h h'
  · exact decodeCaps_prefix h h'
  · exact decodeError_prefix h h'
  · exact decodeKeyref_prefix (f := .changed) h h'

/-- A payload decodes exactly to the messages of its opcode whose layout it is;
no other payload decodes to the same message, and neither a proper prefix nor an
extension of it decodes at all. -/
theorem decode_exact (op : Opcode) (p : List UInt8) :
    (∀ m, decode op p = .ok m ↔ op = m.opcode ∧ p = m.payload ∧ m.InGrammar) ∧
      ∀ m, decode op p = .ok m →
        (∀ other, decode op other = .ok m → other = p) ∧
        (∀ cut extra m', p = cut ++ extra → decode op cut = .ok m' → extra = []) ∧
        ∀ extra m', decode op (p ++ extra) = .ok m' → extra = [] := by
  refine ⟨fun m => by rw [decode_ok_iff, onWire_iff], fun m hm => ⟨fun other hother => ?_, ?_, ?_⟩⟩
  · rw [(decode_ok hm).2.1, (decode_ok hother).2.1]
  · rintro cut extra m' rfl hcut
    exact decode_prefix hcut hm
  · exact fun extra m' h' => decode_prefix hm h'

end MessageRef
end Qup
