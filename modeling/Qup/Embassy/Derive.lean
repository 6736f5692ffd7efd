import Qup.Core.Message
import Qup.Embassy.Value
import Mathlib.Data.List.Forall2

/-!
# The enum derive

`qup-embassy-proc/src/lib.rs`: what `#[derive(Value)]` accepts and generates. The
input is what `syn` parses of an enum, and `heck`'s conversion of an identifier to
snake case is a parameter. An accepted enum is a `DerivedEnum`: the check for
duplicate names is made across all variants, before and after any override.
-/

namespace Qup.Embassy
open Foundation Foundation.Utf8

inductive Fields where
  | named
  | unnamed
  | unit
  deriving DecidableEq, Repr

/-- One item of a `#[qup(..)]` list. `malformed` is whatever `syn` itself refuses:
a `name` without a string literal, or tokens left over. -/
inductive NestedMeta where
  | name (value : Str)
  | default
  | defaultValue
  | malformed
  | other
  deriving DecidableEq

structure Attribute where
  qup : Bool
  metas : List NestedMeta
  deriving DecidableEq

structure EnumVariant where
  ident : Str
  fields : Fields
  attrs : List Attribute
  deriving DecidableEq

inductive DeriveInput where
  | enumData (variants : List EnumVariant)
  | structData
  | unionData
  deriving DecidableEq

inductive DeriveError where
  | notEnum
  | noVariant
  | notUnit
  | duplicateNameAttribute
  | defaultTakesNoValue
  | duplicateDefaultAttribute
  | malformedAttribute
  | unsupportedAttribute
  | emptyName
  | nulInName
  | nameTooLong
  | duplicateWireName (name : Str)
  | multipleDefaults
  deriving DecidableEq

structure ParsedAttributes where
  wireName : Str
  isDefault : Bool
  deriving DecidableEq

structure ParsedVariant where
  ident : Str
  wireName : Str
  isDefault : Bool
  deriving DecidableEq

structure EnumImpl where
  variants : List ParsedVariant
  defaultVariant : ℕ
  maxWireLen : ℕ
  deriving DecidableEq

def EnumVariant.metas (variant : EnumVariant) : List NestedMeta :=
  (variant.attrs.filter fun attr => attr.qup).flatMap fun attr => attr.metas

/-- `p` stands for `variant`, under its override or its identifier in snake case. -/
structure ParsedVariant.Of (toSnakeCase : Str → Str) (variant : EnumVariant)
    (p : ParsedVariant) : Prop where
  unit : variant.fields = .unit
  ident : p.ident = variant.ident
  overridden : ∀ value, .name value ∈ variant.metas → p.wireName = value
  converted : (∀ value, .name value ∉ variant.metas) → p.wireName = toSnakeCase variant.ident
  isDefault : p.isDefault = true ↔ .default ∈ variant.metas

/-- An entry for each variant, in order; the default is the marked variant, else the first. -/
structure EnumImpl.Of (toSnakeCase : Str → Str) (variants : List EnumVariant)
    (impl : EnumImpl) : Prop where
  variants : List.Forall₂ (ParsedVariant.Of toSnakeCase) variants impl.variants
  marked : ∀ i p, impl.variants[i]? = some p → p.isDefault = true → impl.defaultVariant = i
  unmarked : (∀ p ∈ impl.variants, p.isDefault = false) → impl.defaultVariant = 0

namespace Derive

def validateWireName (value : Str) : Except DeriveError Unit :=
  if value.bytes.isEmpty then .error .emptyName
  else if value.bytes.contains 0x00 then .error .nulInName
  else if value.length > 65535 then .error .nameTooLong
  else .ok ()

def parseNestedMeta (parsed : Option Str × Bool) :
    NestedMeta → Except DeriveError (Option Str × Bool)
  | .name value => if parsed.1.isSome then .error .duplicateNameAttribute
    else .ok (some value, parsed.2)
  | .default => if parsed.2 then .error .duplicateDefaultAttribute else .ok (parsed.1, true)
  | .defaultValue => .error .defaultTakesNoValue
  | .malformed => .error .malformedAttribute
  | .other => .error .unsupportedAttribute

def parseVariantAttributes (toSnakeCase : Str → Str) (variant : EnumVariant) :
    Except DeriveError ParsedAttributes := do
  let metas := (variant.attrs.filter fun attr => attr.qup).flatMap fun attr => attr.metas
  let (overrideName, isDefault) ← metas.foldlM parseNestedMeta (none, false)
  let wireName := overrideName.getD (toSnakeCase variant.ident)
  validateWireName wireName
  pure ⟨wireName, isDefault⟩

def parseVariant (toSnakeCase : Str → Str) (variant : EnumVariant) (seenWireNames : List Str) :
    Except DeriveError (ParsedVariant × List Str) :=
  if variant.fields ≠ .unit then .error .notUnit
  else do
    let attributes ← parseVariantAttributes toSnakeCase variant
    if attributes.wireName ∈ seenWireNames then .error (.duplicateWireName attributes.wireName)
    else pure (⟨variant.ident, attributes.wireName, attributes.isDefault⟩,
      attributes.wireName :: seenWireNames)

def parseVariants (toSnakeCase : Str → Str) :
    List EnumVariant → List Str → Except DeriveError (List ParsedVariant)
  | [], _ => .ok []
  | variant :: rest, seenWireNames => do
    let (parsed, seenWireNames) ← parseVariant toSnakeCase variant seenWireNames
    let others ← parseVariants toSnakeCase rest seenWireNames
    pure (parsed :: others)

def chooseDefault : List ParsedVariant → ℕ → ℕ → Bool → Except DeriveError ℕ
  | [], _, defaultVariant, _ => .ok defaultVariant
  | variant :: rest, index, defaultVariant, foundExplicitDefault =>
    if !variant.isDefault then chooseDefault rest (index + 1) defaultVariant foundExplicitDefault
    else if foundExplicitDefault then .error .multipleDefaults
    else chooseDefault rest (index + 1) index true

def buildEnumImpl (toSnakeCase : Str → Str) (variants : List EnumVariant) :
    Except DeriveError EnumImpl :=
  if variants.isEmpty then .error .noVariant
  else do
    let variants ← parseVariants toSnakeCase variants []
    let defaultVariant ← chooseDefault variants 0 0 false
    pure ⟨variants, defaultVariant, (variants.map fun v => v.wireName.length).foldr max 0⟩

def expandValueDerive (toSnakeCase : Str → Str) : DeriveInput → Except DeriveError EnumImpl
  | .enumData variants => buildEnumImpl toSnakeCase variants
  | .structData | .unionData => .error .notEnum

theorem validateWireName_ok {value : Str} (h : validateWireName value = .ok ()) :
    value ≠ Str.empty ∧ WireStr value := by
  unfold validateWireName at h
  split_ifs at h with hempty hnul hlen
  refine ⟨fun heq => hempty (heq ▸ rfl), by simpa using hnul, by omega⟩

variable {toSnakeCase : Str → Str}

theorem parseNestedMeta_foldlM_ok {parsed parsed' : Option Str × Bool} {metas : List NestedMeta}
    (h : metas.foldlM parseNestedMeta parsed = .ok parsed') :
    (∀ value, parsed'.1 = some value ↔ parsed.1 = some value ∨ .name value ∈ metas) ∧
      (parsed'.2 = true ↔ parsed.2 = true ∨ .default ∈ metas) := by
  induction metas generalizing parsed with
  | nil =>
    cases h
    simp
  | cons item rest ih =>
    rw [List.foldlM_cons] at h
    obtain ⟨next, hnext, h⟩ := bind_ok_iff.mp h
    obtain ⟨hname, hdefault⟩ := ih h
    cases item with
    | name value =>
      simp only [parseNestedMeta] at hnext
      split_ifs at hnext with hfirst
      cases hnext
      have hnone : parsed.1 = none := by simpa using hfirst
      refine ⟨fun s => (hname s).trans ?_, hdefault.trans ?_⟩
      · simp [hnone, eq_comm]
      · simp
    | default =>
      simp only [parseNestedMeta] at hnext
      split_ifs at hnext with hfirst
      cases hnext
      refine ⟨fun s => (hname s).trans ?_, hdefault.trans ?_⟩ <;> simp
    | defaultValue => cases hnext
    | malformed => cases hnext
    | other => cases hnext

theorem parseVariantAttributes_ok {variant : EnumVariant} {attributes : ParsedAttributes}
    (h : parseVariantAttributes toSnakeCase variant = .ok attributes) :
    (attributes.wireName ≠ Str.empty ∧ WireStr attributes.wireName) ∧
      (∀ value, .name value ∈ variant.metas → attributes.wireName = value) ∧
      ((∀ value, .name value ∉ variant.metas) →
        attributes.wireName = toSnakeCase variant.ident) ∧
      (attributes.isDefault = true ↔ .default ∈ variant.metas) := by
  unfold parseVariantAttributes at h
  obtain ⟨⟨overrideName, isDefault⟩, hmetas, h⟩ := bind_ok_iff.mp h
  obtain ⟨u, hvalid, h⟩ := bind_ok_iff.mp h
  cases h
  obtain ⟨hname, hdefault⟩ := parseNestedMeta_foldlM_ok hmetas
  refine ⟨validateWireName_ok hvalid, fun value hvalue => ?_, fun hnone => ?_, ?_⟩
  · have hover : overrideName = some value := (hname value).mpr (Or.inr hvalue)
    simp only [hover, Option.getD_some]
  · cases overrideName with
    | none => rfl
    | some value =>
      obtain hold | hvalue := (hname value).mp rfl
      · cases hold
      · exact absurd hvalue (hnone value)
  · exact hdefault.trans (by simp only [Bool.false_eq_true, false_or, EnumVariant.metas])

theorem parseVariant_ok {variant : EnumVariant} {seen seen' : List Str} {parsed : ParsedVariant}
    (h : parseVariant toSnakeCase variant seen = .ok (parsed, seen')) :
    parsed.Of toSnakeCase variant ∧ (parsed.wireName ≠ Str.empty ∧ WireStr parsed.wireName) ∧
      parsed.wireName ∉ seen ∧ seen' = parsed.wireName :: seen := by
  unfold parseVariant at h
  split_ifs at h with hunit
  obtain ⟨attributes, hattributes, h⟩ := bind_ok_iff.mp h
  split_ifs at h with hseen
  cases h
  obtain ⟨hvalid, hover, hconv, hdefault⟩ := parseVariantAttributes_ok hattributes
  exact ⟨⟨not_not.mp hunit, rfl, hover, hconv, hdefault⟩, hvalid, hseen, rfl⟩

theorem parseVariants_ok {variants : List EnumVariant} {seen : List Str}
    {parsed : List ParsedVariant} (h : parseVariants toSnakeCase variants seen = .ok parsed) :
    List.Forall₂ (ParsedVariant.Of toSnakeCase) variants parsed ∧
      (∀ s ∈ parsed.map (fun p => p.wireName), s ≠ Str.empty ∧ WireStr s) ∧
      (parsed.map fun p => p.wireName).Nodup ∧ ∀ s ∈ parsed.map (fun p => p.wireName), s ∉ seen := by
  induction variants generalizing seen parsed with
  | nil =>
    cases h
    simp
  | cons variant rest ih =>
    obtain ⟨⟨p, seen'⟩, hp, h⟩ := bind_ok_iff.mp h
    obtain ⟨others, hothers, h⟩ := bind_ok_iff.mp h
    cases h
    obtain ⟨hof, hvalid, hfresh, rfl⟩ := parseVariant_ok hp
    obtain ⟨hofs, hvalids, hnodup, hdisjoint⟩ := ih hothers
    rw [List.map_cons]
    refine ⟨.cons hof hofs, List.forall_mem_cons.mpr ⟨hvalid, hvalids⟩, ?_, ?_⟩
    · refine List.nodup_cons.mpr ⟨fun hmem => ?_, hnodup⟩
      exact hdisjoint _ hmem List.mem_cons_self
    · refine List.forall_mem_cons.mpr ⟨hfresh, fun s hs hseen => ?_⟩
      exact hdisjoint s hs (List.mem_cons_of_mem _ hseen)

theorem chooseDefault_ok {variants : List ParsedVariant} {index current chosen : ℕ} {found : Bool}
    (h : chooseDefault variants index current found = .ok chosen) :
    (∀ i p, variants[i]? = some p → p.isDefault = true → found = false ∧ chosen = index + i) ∧
      ((∀ p ∈ variants, p.isDefault = false) → chosen = current) := by
  induction variants generalizing index current found with
  | nil =>
    cases h
    simp
  | cons v rest ih =>
    simp only [chooseDefault] at h
    split_ifs at h with hplain hfound
    · obtain ⟨hmarked, hunmarked⟩ := ih h
      refine ⟨fun i p hp hdefault => ?_, fun hall =>
        hunmarked fun p hp => hall p (List.mem_cons_of_mem _ hp)⟩
      cases i with
      | zero =>
        cases hp
        simp [hdefault] at hplain
      | succ i =>
        obtain ⟨hfound, hchosen⟩ := hmarked i p hp hdefault
        exact ⟨hfound, by omega⟩
    · obtain ⟨hmarked, hunmarked⟩ := ih h
      have hfirst : found = false := by simpa using hfound
      have hrest : ∀ p ∈ rest, p.isDefault = false := by
        intro p hp
        obtain ⟨i, hi⟩ := List.getElem?_of_mem hp
        by_contra hdefault
        cases (hmarked i p hi (by simpa using hdefault)).1
      refine ⟨fun i p hp hdefault => ⟨hfirst, ?_⟩, fun hall => ?_⟩
      · cases i with
        | zero => exact hunmarked hrest
        | succ i =>
          have hnot := hrest p (List.mem_of_getElem? hp)
          rw [hnot] at hdefault
          cases hdefault
      · have hnot := hall v List.mem_cons_self
        simp [hnot] at hplain

theorem chooseDefault_lt {variants : List ParsedVariant} {index current chosen : ℕ} {found : Bool}
    (h : chooseDefault variants index current found = .ok chosen)
    (hcurrent : current < index + variants.length) : chosen < index + variants.length := by
  obtain ⟨hmarked, hunmarked⟩ := chooseDefault_ok h
  by_cases hall : ∀ p ∈ variants, p.isDefault = false
  · rw [hunmarked hall]
    exact hcurrent
  · push Not at hall
    obtain ⟨p, hp, hdefault⟩ := hall
    obtain ⟨i, hi⟩ := List.getElem?_of_mem hp
    obtain ⟨-, rfl⟩ := hmarked i p hi (by simpa using hdefault)
    obtain ⟨hlt, -⟩ := List.getElem?_eq_some_iff.mp hi
    omega

end Derive

structure EnumImpl.Generates (impl : EnumImpl) (e : DerivedEnum) : Prop where
  names : e.names = impl.variants.map fun p => p.wireName
  defaultVariant : e.defaultVariant.val = impl.defaultVariant
  maxWireLen : e.maxLen = impl.maxWireLen

theorem Derive.generates {toSnakeCase : Str → Str} {input : DeriveInput} {impl : EnumImpl}
    (h : Derive.expandValueDerive toSnakeCase input = .ok impl) :
    (∃ variants, input = .enumData variants ∧ impl.Of toSnakeCase variants) ∧
      ∃ e : DerivedEnum, impl.Generates e := by
  cases input with
  | structData => cases h
  | unionData => cases h
  | enumData variants =>
    simp only [expandValueDerive, buildEnumImpl] at h
    split_ifs at h with hempty
    obtain ⟨parsed, hparsed, h⟩ := bind_ok_iff.mp h
    obtain ⟨chosen, hchosen, h⟩ := bind_ok_iff.mp h
    cases h
    obtain ⟨hof, hvalid, hnodup, -⟩ := parseVariants_ok hparsed
    obtain ⟨hmarked, hunmarked⟩ := chooseDefault_ok hchosen
    have hpos : 0 < parsed.length := by
      rw [← hof.length_eq]
      exact List.length_pos_iff.mpr (by simpa using hempty)
    have hlt := chooseDefault_lt hchosen (by omega)
    refine ⟨⟨variants, rfl, hof, fun i p hp hdefault => ?_, hunmarked⟩,
      ⟨parsed.map fun p => p.wireName, hvalid, hnodup, ⟨chosen, ?_⟩⟩, rfl, rfl, ?_⟩
    · simpa using (hmarked i p hp hdefault).2
    · rw [List.length_map]
      omega
    · simp only [DerivedEnum.maxLen, List.map_map]
      rfl

end Qup.Embassy
