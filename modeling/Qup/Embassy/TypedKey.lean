import Qup.Embassy.Server

/-!
# One key of any type

`Key<T, PERM>` over an arbitrary implementation of `QupValue`: the three
functions of the trait are given by the user, so any of them may refuse. Here an
operation runs to its end; `Waiting` takes the same operation apart.
-/

namespace Qup.Embassy
open Foundation Foundation.Utf8

/-- An implementation of `QupValue` and `PartialEq`. `encode` writes into the
buffer it is given and returns the length written. -/
structure ValueImpl (T : Type) where
  eq : T → T → Bool
  validate : T → Except WireValueError Unit
  encode : T → List UInt8 → Except WireValueError ℕ × List UInt8
  decode : WireValueRef → Except WireValueError T

def ValueImpl.defaultValidate {T : Type} (_ : T) : Except WireValueError Unit := .ok ()

structure TypedKey (T : Type) where
  perm : Perm
  value : T
  generation : UInt32
  changeSignal : Bool
  notifier : Option Bool

namespace TypedKey
variable {T : Type} (impl : ValueImpl T)

def storeValue (k : TypedKey T) (value : T) : TypedKey T := { k with value := value }

def fetchAddGeneration (k : TypedKey T) : TypedKey T := { k with generation := k.generation + 1 }

def signalChange (k : TypedKey T) : TypedKey T := { k with changeSignal := true }

def signalNotifier (k : TypedKey T) : TypedKey T :=
  { k with notifier := k.notifier.map fun _ => true }

def notifyChanged (k : TypedKey T) : TypedKey T :=
  let k := k.fetchAddGeneration.signalChange
  if !k.perm.observable then k else k.signalNotifier

def trySet (k : TypedKey T) (value : T) : Except WireValueError Bool × TypedKey T :=
  match impl.validate value with
  | .error e => (.error e, k)
  | .ok () =>
    let changed := !impl.eq k.value value
    (.ok changed, (k.storeValue value).notifyChanged)

def writeAndEncode (k : TypedKey T) (value : WireValueRef) (buffer : List UInt8) :
    Except WireValueError ℕ × List UInt8 × TypedKey T :=
  match impl.decode value with
  | .error e => (.error e, buffer, k)
  | .ok decoded =>
    match impl.validate decoded with
    | .error e => (.error e, buffer, k)
    | .ok () =>
      let k := (k.storeValue decoded).notifyChanged
      let (result, buffer) := impl.encode decoded buffer
      (result, buffer, k)

def writeResponse (result : Except WireValueError ℕ) (buffer : List UInt8) : Frame :=
  match result with
  | .ok len => ⟨.written, buffer.take len⟩
  | .error _ => ⟨.error, [Server.errorTypeMismatch]⟩

@[simp] theorem notifyChanged_value (k : TypedKey T) : k.notifyChanged.value = k.value := by
  simp only [notifyChanged]
  split <;> rfl

@[simp] theorem notifyChanged_generation (k : TypedKey T) :
    k.notifyChanged.generation = k.generation + 1 := by
  simp only [notifyChanged]
  split <;> rfl

/-- A `WRITE` that is refused leaves the key alone; one that is accepted stores
the decoded value once and answers with its encoding. -/
def WriteLaw (k : TypedKey T) (value : WireValueRef) (buffer : List UInt8) : Prop :=
  match k.writeAndEncode impl value buffer with
  | (.error _, _, k') => k' = k
  | (.ok n, buffer', k') => ∃ decoded, impl.decode value = .ok decoded ∧ k'.value = decoded ∧
      k'.generation = k.generation + 1 ∧ impl.encode decoded buffer = (.ok n, buffer')

def SetLaw (k : TypedKey T) (value : T) : Prop :=
  ∀ e, (k.trySet impl value).1 = .error e → (k.trySet impl value).2 = k

theorem setLaw (k : TypedKey T) (value : T) : SetLaw impl k value := by
  intro e h
  unfold trySet at h ⊢
  cases hv : impl.validate value with
  | error e' => rfl
  | ok u =>
    rw [hv] at h
    cases h

theorem notifyChanged_storeValue_ne (k : TypedKey T) (value : T) :
    (k.storeValue value).notifyChanged ≠ k := by
  intro h
  have hgeneration := congrArg TypedKey.generation h
  rw [notifyChanged_generation] at hgeneration
  have hnat := congrArg UInt32.toNat hgeneration
  have hlt := k.generation.toNat_lt
  simp only [storeValue, UInt32.toNat_add, UInt32.reduceToNat] at hnat
  omega

/-- The laws hold exactly where a value that decodes and validates encodes. -/
theorem write_law_iff (k : TypedKey T) (value : WireValueRef) (buffer : List UInt8) :
    (WriteLaw impl k value buffer ∧ ∀ v, SetLaw impl k v) ↔
      ∀ decoded, impl.decode value = .ok decoded → impl.validate decoded = .ok () →
        ∃ n, (impl.encode decoded buffer).1 = .ok n := by
  rw [and_iff_left (setLaw impl k)]
  unfold WriteLaw writeAndEncode
  cases hd : impl.decode value with
  | error e => simp
  | ok decoded =>
    cases hv : impl.validate decoded with
    | error e => simp [hv]
    | ok u =>
      rcases he : impl.encode decoded buffer with ⟨e | n, buffer'⟩
      · simp [hv, he, notifyChanged_storeValue_ne]
      · simp [hv, he, storeValue]

/-- A percentage: any `i64` decodes, and values out of range do not encode. -/
def percent : ValueImpl Int64 where
  eq x y := decide (x = y)
  validate := ValueImpl.defaultValidate
  encode x buffer :=
    if 0 ≤ x ∧ x ≤ 100 then (.ok 9, ValueKind.i64.asByte :: be64 x ++ buffer.drop 9)
    else (.error .valueTooLarge, buffer)
  decode
    | .i64 x => .ok x
    | _ => .error .typeMismatch

def percentKey : TypedKey Int64 := ⟨.rwn, 0, 0, false, some false⟩

/-- The write of 200 is answered with `@` 0x03, and 200 is stored and announced. -/
theorem write_refused_but_stored :
    let (result, buffer, k) := percentKey.writeAndEncode percent (.i64 200) (List.replicate 9 0)
    writeResponse result buffer = ⟨.error, [0x03]⟩ ∧ k.value = 200 ∧ k.generation = 1 ∧
      k.changeSignal = true ∧ k.notifier = some true ∧
        ¬ WriteLaw percent percentKey (.i64 200) (List.replicate 9 0) := by
  refine ⟨by decide, by decide, by decide, by decide, by decide, ?_⟩
  exact notifyChanged_storeValue_ne percentKey 200

end TypedKey
end Qup.Embassy
