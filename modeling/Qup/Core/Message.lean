import Qup.Core.Payload

/-!
# Typed messages

`qup-core/src/types/message.rs`. Decoding is one `match` on the opcode byte.
Every message has one opcode and one payload layout, and `decode_ok_iff` says
that decoding accepts exactly these.
-/

namespace Qup
open Foundation Foundation.Utf8

inductive RequestRef where
  | ping
  | identify
  | getKeytabLen
  | getKey (keyref : UInt16)
  | get (keyref : UInt16)
  | write (keyref : UInt16) (value : ValueRef)
  | observe (keyref : UInt16)
  | unobserve (keyref : UInt16)
  deriving DecidableEq

inductive OrdinaryResponseRef where
  | ok
  | identified (nodeid : Str)
  | keytabLen (count : UInt16)
  | key (keyflags : KeyFlags) (name : Str)
  | value (value : ValueRef)
  | written (value : ValueRef)
  deriving DecidableEq

structure ErrorResponse where
  code : UInt8
  deriving DecidableEq

inductive MessageRef where
  | request (request : RequestRef)
  | ordinaryResponse (response : OrdinaryResponseRef)
  | compatibilityRequest
  | compatibilityResponse (caps : CapsRef)
  | error (error : ErrorResponse)
  | changed (keyref : UInt16)
  deriving DecidableEq

def expectEmpty (opcode : Opcode) (payload : List UInt8) : Except PayloadError Unit :=
  if payload.isEmpty then .ok () else .error (.invalidLength opcode 0 payload.length)

def expectLen (opcode : Opcode) (payload : List UInt8) (expected : ℕ) : Except PayloadError Unit :=
  if payload.length = expected then .ok ()
  else .error (.invalidLength opcode expected payload.length)

def decodeKeyref (opcode : Opcode) (payload : List UInt8) (constructor : UInt16 → MessageRef) :
    Except PayloadError MessageRef := do
  expectLen opcode payload 2
  let (keyref, _) ← PayloadCursor.readU16 payload
  pure (constructor keyref)

def decodeKeyrefRequest (opcode : Opcode) (payload : List UInt8)
    (constructor : UInt16 → RequestRef) : Except PayloadError MessageRef :=
  decodeKeyref opcode payload (fun keyref => .request (constructor keyref))

def decodeWrite (payload : List UInt8) : Except PayloadError MessageRef := do
  let (keyref, cursor) ← PayloadCursor.readU16 payload
  let (value, cursor) ← ValueRef.decode cursor
  PayloadCursor.finish cursor
  pure (.request (.write keyref value))

def decodeIdentified (payload : List UInt8) : Except PayloadError MessageRef := do
  let (nodeid, cursor) ← PayloadCursor.readStr16 payload
  PayloadCursor.finish cursor
  pure (.ordinaryResponse (.identified nodeid))

def decodeKeytablen (opcode : Opcode) (payload : List UInt8) : Except PayloadError MessageRef :=
  decodeKeyref opcode payload (fun count => .ordinaryResponse (.keytabLen count))

def decodeKey (payload : List UInt8) : Except PayloadError MessageRef := do
  let (bits, cursor) ← PayloadCursor.readU8 payload
  let keyflags ← KeyFlags.new bits
  let (name, cursor) ← PayloadCursor.readStr16 cursor
  PayloadCursor.finish cursor
  pure (.ordinaryResponse (.key keyflags name))

def decodeValueResponse (payload : List UInt8) (written : Bool) :
    Except PayloadError MessageRef := do
  let (value, cursor) ← ValueRef.decode payload
  PayloadCursor.finish cursor
  pure (.ordinaryResponse (if written then .written value else .value value))

def decodeCaps (payload : List UInt8) : Except PayloadError MessageRef := do
  let (raw, cursor) ← PayloadCursor.readStr16 payload
  let caps ← CapsRef.parse raw
  PayloadCursor.finish cursor
  pure (.compatibilityResponse caps)

def decodeError (opcode : Opcode) (payload : List UInt8) : Except PayloadError MessageRef := do
  expectLen opcode payload 1
  match payload with
  | code :: _ => pure (.error ⟨code⟩)
  | [] => .error (.invalidLength opcode 1 payload.length)

def decodeChanged (opcode : Opcode) (payload : List UInt8) : Except PayloadError MessageRef :=
  decodeKeyref opcode payload .changed

namespace MessageRef

def decode (opcode : Opcode) (payload : List UInt8) : Except PayloadError MessageRef :=
  if opcode = .ping then (expectEmpty opcode payload).map fun _ => .request .ping
  else if opcode = .identify then (expectEmpty opcode payload).map fun _ => .request .identify
  else if opcode = .getkeytablen then
    (expectEmpty opcode payload).map fun _ => .request .getKeytabLen
  else if opcode = .getkey then decodeKeyrefRequest opcode payload .getKey
  else if opcode = .get then decodeKeyrefRequest opcode payload .get
  else if opcode = .observe then decodeKeyrefRequest opcode payload .observe
  else if opcode = .unobserve then decodeKeyrefRequest opcode payload .unobserve
  else if opcode = .write then decodeWrite payload
  else if opcode = .getcaps then (expectEmpty opcode payload).map fun _ => .compatibilityRequest
  else if opcode = .ok then (expectEmpty opcode payload).map fun _ => .ordinaryResponse .ok
  else if opcode = .identified then decodeIdentified payload
  else if opcode = .keytablen then decodeKeytablen opcode payload
  else if opcode = .key then decodeKey payload
  else if opcode = .value then decodeValueResponse payload false
  else if opcode = .written then decodeValueResponse payload true
  else if opcode = .caps then decodeCaps payload
  else if opcode = .error then decodeError opcode payload
  else if opcode = .changed then decodeChanged opcode payload
  else .error (.unknownOpcode opcode)

end MessageRef

def RequestRef.opcode : RequestRef → Opcode
  | .ping => .ping
  | .identify => .identify
  | .getKeytabLen => .getkeytablen
  | .getKey _ => .getkey
  | .get _ => .get
  | .write _ _ => .write
  | .observe _ => .observe
  | .unobserve _ => .unobserve

def RequestRef.payload : RequestRef → List UInt8
  | .ping | .identify | .getKeytabLen => []
  | .getKey keyref | .get keyref | .observe keyref | .unobserve keyref => be16 keyref
  | .write keyref value => be16 keyref ++ value.bytes

def OrdinaryResponseRef.opcode : OrdinaryResponseRef → Opcode
  | .ok => .ok
  | .identified _ => .identified
  | .keytabLen _ => .keytablen
  | .key _ _ => .key
  | .value _ => .value
  | .written _ => .written

def OrdinaryResponseRef.payload : OrdinaryResponseRef → List UInt8
  | .ok => []
  | .identified nodeid => str16 nodeid
  | .keytabLen count => be16 count
  | .key keyflags name => keyflags.bits :: str16 name
  | .value v | .written v => v.bytes

namespace MessageRef

def opcode : MessageRef → Opcode
  | .request r => r.opcode
  | .ordinaryResponse r => r.opcode
  | .compatibilityRequest => .getcaps
  | .compatibilityResponse _ => .caps
  | .error _ => .error
  | .changed _ => .changed

def payload : MessageRef → List UInt8
  | .request r => r.payload
  | .ordinaryResponse r => r.payload
  | .compatibilityRequest => []
  | .compatibilityResponse caps => str16 caps.raw
  | .error e => [e.code]
  | .changed keyref => be16 keyref

def OnWire : MessageRef → Prop
  | .request (.write _ value) => value.OnWire
  | .ordinaryResponse (.identified nodeid) => WireStr nodeid
  | .ordinaryResponse (.key _ name) => WireStr name
  | .ordinaryResponse (.value value) => value.OnWire
  | .ordinaryResponse (.written value) => value.OnWire
  | .compatibilityResponse caps => WireStr caps.raw ∧ CapsRef.parse caps.raw = .ok caps
  | _ => True

def WellFormed (direction : WireDirection) (m : MessageRef) : Prop :=
  m.opcode.Legal direction ∧ m.OnWire ∧ m.payload.length ≤ 65535

end MessageRef

theorem bind_ok_iff {ε α β : Type} {x : Except ε α} {f : α → Except ε β} {b : β} :
    (x >>= f) = .ok b ↔ ∃ a, x = .ok a ∧ f a = .ok b := by
  cases x with
  | error e => exact ⟨fun h => (by cases h), fun ⟨a, h, _⟩ => (by cases h)⟩
  | ok a => exact ⟨fun h => ⟨a, rfl, h⟩, fun ⟨a', h, hf⟩ => (by cases h; exact hf)⟩

theorem expectEmpty_ok_iff (opcode : Opcode) (payload : List UInt8) (m n : MessageRef) :
    ((expectEmpty opcode payload).map fun _ => m) = .ok n ↔ payload = [] ∧ n = m := by
  cases payload with
  | nil =>
    simp only [expectEmpty, List.isEmpty_nil, if_true, Except.map, Except.ok.injEq, true_and]
    exact eq_comm
  | cons b bs => simp [expectEmpty, Except.map]

theorem expectLen_ok_iff (opcode : Opcode) (payload : List UInt8) (n : ℕ) (u : Unit) :
    expectLen opcode payload n = .ok u ↔ payload.length = n := by
  unfold expectLen
  split_ifs with h <;> simp [h]

theorem decodeKeyref_ok_iff (opcode : Opcode) (payload : List UInt8)
    (constructor : UInt16 → MessageRef) (m : MessageRef) :
    decodeKeyref opcode payload constructor = .ok m ↔
      ∃ keyref, payload = be16 keyref ∧ m = constructor keyref := by
  unfold decodeKeyref
  simp only [bind_ok_iff, expectLen_ok_iff, Prod.exists]
  constructor
  · rintro ⟨-, hlen, keyref, rest, hr, hm⟩
    cases hm
    have hp := PayloadCursor.readU16_ok hr
    have hrest : rest = [] := by
      apply List.eq_nil_of_length_eq_zero
      rw [hp, List.length_append, length_be16] at hlen
      omega
    rw [hrest, List.append_nil] at hp
    exact ⟨keyref, hp, rfl⟩
  · rintro ⟨keyref, rfl, rfl⟩
    refine ⟨(), length_be16 keyref, keyref, [], ?_, rfl⟩
    simpa using PayloadCursor.readU16_append keyref []

theorem decodeKeyrefRequest_ok_iff (opcode : Opcode) (payload : List UInt8)
    (constructor : UInt16 → RequestRef) (m : MessageRef) :
    decodeKeyrefRequest opcode payload constructor = .ok m ↔
      ∃ keyref, payload = be16 keyref ∧ m = .request (constructor keyref) :=
  decodeKeyref_ok_iff opcode payload _ m

theorem decodeKeytablen_ok_iff (opcode : Opcode) (payload : List UInt8) (m : MessageRef) :
    decodeKeytablen opcode payload = .ok m ↔
      ∃ count, payload = be16 count ∧ m = .ordinaryResponse (.keytabLen count) :=
  decodeKeyref_ok_iff opcode payload _ m

theorem decodeChanged_ok_iff (opcode : Opcode) (payload : List UInt8) (m : MessageRef) :
    decodeChanged opcode payload = .ok m ↔ ∃ keyref, payload = be16 keyref ∧ m = .changed keyref :=
  decodeKeyref_ok_iff opcode payload _ m

theorem decodeWrite_ok_iff (payload : List UInt8) (m : MessageRef) :
    decodeWrite payload = .ok m ↔ ∃ keyref value, payload = be16 keyref ++ value.bytes ∧
      value.OnWire ∧ m = .request (.write keyref value) := by
  unfold decodeWrite
  simp only [bind_ok_iff, Prod.exists, PayloadCursor.finish_ok_iff]
  constructor
  · rintro ⟨keyref, c, hk, value, c', hv, -, rfl, hm⟩
    cases hm
    obtain ⟨rfl, hw⟩ := ValueRef.decode_ok hv
    rw [List.append_nil] at hk
    exact ⟨keyref, value, PayloadCursor.readU16_ok hk, hw, rfl⟩
  · rintro ⟨keyref, value, rfl, hw, rfl⟩
    refine ⟨keyref, value.bytes, PayloadCursor.readU16_append _ _, value, [], ?_, (), rfl, rfl⟩
    simpa using ValueRef.decode_bytes hw []

theorem decodeIdentified_ok_iff (payload : List UInt8) (m : MessageRef) :
    decodeIdentified payload = .ok m ↔ ∃ nodeid, payload = str16 nodeid ∧ WireStr nodeid ∧
      m = .ordinaryResponse (.identified nodeid) := by
  unfold decodeIdentified
  simp only [bind_ok_iff, Prod.exists, PayloadCursor.finish_ok_iff]
  constructor
  · rintro ⟨nodeid, c, hs, -, rfl, hm⟩
    cases hm
    obtain ⟨hp, hw⟩ := PayloadCursor.readStr16_ok hs
    rw [List.append_nil] at hp
    exact ⟨nodeid, hp, hw, rfl⟩
  · rintro ⟨nodeid, rfl, hw, rfl⟩
    refine ⟨nodeid, [], ?_, (), rfl, rfl⟩
    simpa using PayloadCursor.readStr16_append hw []

theorem decodeKey_ok_iff (payload : List UInt8) (m : MessageRef) :
    decodeKey payload = .ok m ↔ ∃ keyflags name, payload = keyflags.bits :: str16 name ∧
      WireStr name ∧ m = .ordinaryResponse (.key keyflags name) := by
  unfold decodeKey
  simp only [bind_ok_iff, Prod.exists, PayloadCursor.finish_ok_iff]
  constructor
  · rintro ⟨bits, c, hb, keyflags, hf, name, c', hs, -, rfl, hm⟩
    cases hm
    obtain ⟨rfl, hw⟩ := PayloadCursor.readStr16_ok hs
    rw [List.append_nil] at hb
    rw [PayloadCursor.readU8_ok hb, ← KeyFlags.new_ok hf]
    exact ⟨keyflags, name, rfl, hw, rfl⟩
  · rintro ⟨keyflags, name, rfl, hw, rfl⟩
    refine ⟨keyflags.bits, str16 name, PayloadCursor.readU8_cons _ _, keyflags,
      KeyFlags.new_bits keyflags, name, [], ?_, (), rfl, rfl⟩
    simpa using PayloadCursor.readStr16_append hw []

theorem decodeValueResponse_ok_iff (payload : List UInt8) (written : Bool) (m : MessageRef) :
    decodeValueResponse payload written = .ok m ↔ ∃ value, payload = ValueRef.bytes value ∧
      value.OnWire ∧
        m = .ordinaryResponse (if written then .written value else .value value) := by
  unfold decodeValueResponse
  simp only [bind_ok_iff, Prod.exists, PayloadCursor.finish_ok_iff]
  constructor
  · rintro ⟨value, c, hv, -, rfl, hm⟩
    cases hm
    obtain ⟨hp, hw⟩ := ValueRef.decode_ok hv
    rw [List.append_nil] at hp
    exact ⟨value, hp, hw, rfl⟩
  · rintro ⟨value, rfl, hw, rfl⟩
    refine ⟨value, [], ?_, (), rfl, rfl⟩
    simpa using ValueRef.decode_bytes hw []

theorem decodeCaps_ok_iff (payload : List UInt8) (m : MessageRef) :
    decodeCaps payload = .ok m ↔ ∃ caps, payload = str16 caps.raw ∧
      (WireStr caps.raw ∧ CapsRef.parse caps.raw = .ok caps) ∧
        m = .compatibilityResponse caps := by
  unfold decodeCaps
  simp only [bind_ok_iff, Prod.exists, PayloadCursor.finish_ok_iff]
  constructor
  · rintro ⟨raw, c, hs, caps, hc, -, rfl, hm⟩
    cases hm
    obtain ⟨hp, hw⟩ := PayloadCursor.readStr16_ok hs
    rw [List.append_nil] at hp
    have hraw := CapsRef.parse_raw hc
    subst hraw
    exact ⟨caps, hp, ⟨hw, hc⟩, rfl⟩
  · rintro ⟨caps, rfl, ⟨hw, hc⟩, rfl⟩
    refine ⟨caps.raw, [], ?_, caps, hc, (), rfl, rfl⟩
    simpa using PayloadCursor.readStr16_append hw []

theorem decodeError_ok_iff (opcode : Opcode) (payload : List UInt8) (m : MessageRef) :
    decodeError opcode payload = .ok m ↔ ∃ code, payload = [code] ∧ m = .error ⟨code⟩ := by
  unfold decodeError
  simp only [bind_ok_iff, expectLen_ok_iff]
  constructor
  · rintro ⟨-, hlen, hm⟩
    obtain ⟨code, rfl⟩ := List.length_eq_one_iff.mp hlen
    cases hm
    exact ⟨code, rfl, rfl⟩
  · rintro ⟨code, rfl, rfl⟩
    exact ⟨(), rfl, rfl⟩

namespace MessageRef

theorem decode_payload {m : MessageRef} (hm : m.OnWire) : decode m.opcode m.payload = .ok m := by
  cases m with
  | request r =>
    cases r with
    | ping => rfl
    | identify => rfl
    | getKeytabLen => rfl
    | getKey keyref => exact (decodeKeyrefRequest_ok_iff _ _ _ _).mpr ⟨keyref, rfl, rfl⟩
    | get keyref => exact (decodeKeyrefRequest_ok_iff _ _ _ _).mpr ⟨keyref, rfl, rfl⟩
    | write keyref value => exact (decodeWrite_ok_iff _ _).mpr ⟨keyref, value, rfl, hm, rfl⟩
    | observe keyref => exact (decodeKeyrefRequest_ok_iff _ _ _ _).mpr ⟨keyref, rfl, rfl⟩
    | unobserve keyref => exact (decodeKeyrefRequest_ok_iff _ _ _ _).mpr ⟨keyref, rfl, rfl⟩
  | ordinaryResponse r =>
    cases r with
    | ok => rfl
    | identified nodeid => exact (decodeIdentified_ok_iff _ _).mpr ⟨nodeid, rfl, hm, rfl⟩
    | keytabLen count => exact (decodeKeytablen_ok_iff _ _ _).mpr ⟨count, rfl, rfl⟩
    | key keyflags name => exact (decodeKey_ok_iff _ _).mpr ⟨keyflags, name, rfl, hm, rfl⟩
    | value value => exact (decodeValueResponse_ok_iff _ false _).mpr ⟨value, rfl, hm, rfl⟩
    | written value => exact (decodeValueResponse_ok_iff _ true _).mpr ⟨value, rfl, hm, rfl⟩
  | compatibilityRequest => rfl
  | compatibilityResponse caps => exact (decodeCaps_ok_iff _ _).mpr ⟨caps, rfl, hm, rfl⟩
  | error e => exact (decodeError_ok_iff _ _ _).mpr ⟨e.code, rfl, rfl⟩
  | changed keyref => exact (decodeChanged_ok_iff _ _ _).mpr ⟨keyref, rfl, rfl⟩

theorem decode_undefined {op : Opcode} (h : op ∉ Opcode.defined) (p : List UInt8) :
    decode op p = .error (.unknownOpcode op) := by
  simp only [Opcode.defined, List.mem_cons, List.not_mem_nil, or_false, not_or] at h
  simp [decode, h]

theorem decode_ok {op : Opcode} {p : List UInt8} {m : MessageRef} (h : decode op p = .ok m) :
    op = m.opcode ∧ p = m.payload ∧ m.OnWire := by
  have hop : op ∈ Opcode.defined := by
    by_contra hn
    rw [decode_undefined hn] at h
    cases h
  simp only [Opcode.defined, List.mem_cons, List.not_mem_nil, or_false] at hop
  -- the opcodes in the order of `Opcode.defined`
  rcases hop with rfl | rfl | rfl | rfl | rfl | rfl | rfl | rfl | rfl |
    rfl | rfl | rfl | rfl | rfl | rfl | rfl | rfl | rfl
  · obtain ⟨rfl, rfl⟩ := (expectEmpty_ok_iff _ _ _ _).mp h
    exact ⟨rfl, rfl, trivial⟩
  · obtain ⟨rfl, rfl⟩ := (expectEmpty_ok_iff _ _ _ _).mp h
    exact ⟨rfl, rfl, trivial⟩
  · obtain ⟨rfl, rfl⟩ := (expectEmpty_ok_iff _ _ _ _).mp h
    exact ⟨rfl, rfl, trivial⟩
  · obtain ⟨keyref, rfl, rfl⟩ := (decodeKeyrefRequest_ok_iff _ _ _ _).mp h
    exact ⟨rfl, rfl, trivial⟩
  · obtain ⟨keyref, rfl, rfl⟩ := (decodeKeyrefRequest_ok_iff _ _ _ _).mp h
    exact ⟨rfl, rfl, trivial⟩
  · obtain ⟨keyref, value, rfl, hw, rfl⟩ := (decodeWrite_ok_iff _ _).mp h
    exact ⟨rfl, rfl, hw⟩
  · obtain ⟨keyref, rfl, rfl⟩ := (decodeKeyrefRequest_ok_iff _ _ _ _).mp h
    exact ⟨rfl, rfl, trivial⟩
  · obtain ⟨keyref, rfl, rfl⟩ := (decodeKeyrefRequest_ok_iff _ _ _ _).mp h
    exact ⟨rfl, rfl, trivial⟩
  · obtain ⟨rfl, rfl⟩ := (expectEmpty_ok_iff _ _ _ _).mp h
    exact ⟨rfl, rfl, trivial⟩
  · obtain ⟨rfl, rfl⟩ := (expectEmpty_ok_iff _ _ _ _).mp h
    exact ⟨rfl, rfl, trivial⟩
  · obtain ⟨nodeid, rfl, hw, rfl⟩ := (decodeIdentified_ok_iff _ _).mp h
    exact ⟨rfl, rfl, hw⟩
  · obtain ⟨count, rfl, rfl⟩ := (decodeKeytablen_ok_iff _ _ _).mp h
    exact ⟨rfl, rfl, trivial⟩
  · obtain ⟨keyflags, name, rfl, hw, rfl⟩ := (decodeKey_ok_iff _ _).mp h
    exact ⟨rfl, rfl, hw⟩
  · obtain ⟨value, rfl, hw, rfl⟩ := (decodeValueResponse_ok_iff _ _ _).mp h
    exact ⟨rfl, rfl, hw⟩
  · obtain ⟨value, rfl, hw, rfl⟩ := (decodeValueResponse_ok_iff _ _ _).mp h
    exact ⟨rfl, rfl, hw⟩
  · obtain ⟨caps, rfl, hw, rfl⟩ := (decodeCaps_ok_iff _ _).mp h
    exact ⟨rfl, rfl, hw⟩
  · obtain ⟨code, rfl, rfl⟩ := (decodeError_ok_iff _ _ _).mp h
    exact ⟨rfl, rfl, trivial⟩
  · obtain ⟨keyref, rfl, rfl⟩ := (decodeChanged_ok_iff _ _ _).mp h
    exact ⟨rfl, rfl, trivial⟩

theorem decode_ok_iff (op : Opcode) (p : List UInt8) (m : MessageRef) :
    decode op p = .ok m ↔ op = m.opcode ∧ p = m.payload ∧ m.OnWire := by
  constructor
  · exact decode_ok
  · rintro ⟨rfl, rfl, hm⟩
    exact decode_payload hm

def frame (m : MessageRef) : List UInt8 := frameBytes m.opcode m.payload

end MessageRef

def streamOf (messages : List MessageRef) : List UInt8 := (messages.map MessageRef.frame).flatten

@[simp] theorem streamOf_nil : streamOf [] = [] := rfl

@[simp] theorem streamOf_cons (m : MessageRef) (ms : List MessageRef) :
    streamOf (m :: ms) = m.frame ++ streamOf ms := by
  rw [streamOf, List.map_cons, List.flatten_cons]
  rfl

@[simp] theorem streamOf_append (ms ms' : List MessageRef) :
    streamOf (ms ++ ms') = streamOf ms ++ streamOf ms' := by
  rw [streamOf, List.map_append, List.flatten_append]
  rfl

end Qup
