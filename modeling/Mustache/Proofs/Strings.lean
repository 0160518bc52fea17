import Mustache.Proofs.Substitution

/-!
This module contains the reading of configuration data that holds no surrogates, in an environment of strings. What is
read is the same whether texts may hold surrogates or not.
-/

namespace Mustache

open Alphabet Textual

namespace Text

theorem narrow_ofString (s : String) : (ofString s).narrow = s := by
  unfold narrow ofString
  rw [List.map_map]
  exact (congrArg String.ofList (List.map_id _)).trans String.ofList_toList

end Text

section Expanding

theorem cutAt?_map_char (sep : Char) (text : List Char)
    : cutAt? (CodePoint.char sep) (text.map .char)
        = (cutAt? sep text).map (Prod.map (List.map .char) (List.map .char)) := by
  induction text with
  | nil => rfl
  | cons c text ih =>
    rw [List.map_cons, cutAt?, cutAt?, ih, Option.map_map]
    simp only [beq_iff_eq, CodePoint.char.injEq]
    split
    . rfl
    . rw [Option.map_map]
      rfl

theorem reference?_map_char (text : List Char)
    : reference? (text.map CodePoint.char) = (reference? text).map (Prod.map (List.map .char) (List.map .char)) := by
  match text with
  | [] => rfl
  | [_] => rfl
  | dollar :: brace :: inner =>
    have hiff : CodePoint.char dollar = ofChar '$' ∧ CodePoint.char brace = ofChar '\x7b'
        ↔ dollar = ofChar '$' ∧ brace = ofChar '\x7b' := by
      change CodePoint.char dollar = .char '$' ∧ CodePoint.char brace = .char '\x7b' ↔ _
      rw [CodePoint.char.injEq, CodePoint.char.injEq]
      rfl
    unfold reference?
    simp only [List.map_cons, hiff]
    split
    . change (cutAt? (CodePoint.char '\x7d') (inner.map .char)).filter _ = _
      rw [cutAt?_map_char, Option.filter_map]
      congr 2
      funext cut
      simp
    . rfl

variable {ε ε' : Type} {find : List Char → Except ε (List Char)} {find' : Text → Except ε' Text} {f : ε → ε'}

theorem expand_map_char (h : ∀ name, find' (name.map .char) = ((find name).mapError f).map (List.map .char))
    (text : List Char)
    : expand find' (text.map .char) = ((expand find text).mapError f).map (List.map .char) := by
  fun_induction expand find text with
  | case1 =>
    rw [List.map_nil, expand]
    rfl
  | case2 c rest name after hreference ih =>
    have hreference' := reference?_map_char (c :: rest)
    rw [hreference] at hreference'
    rw [expand_of_reference?_eq_some find' hreference', h, ih]
    cases find name with
    | error => rfl
    | ok value =>
      cases expand find after with
      | error => rfl
      | ok expanded => exact congrArg Except.ok (List.map_append).symm
  | case3 c rest hreference ih =>
    have hreference' := reference?_map_char (c :: rest)
    rw [hreference] at hreference'
    rw [List.map_cons, expand_of_reference?_eq_none find' hreference', ih]
    cases expand find rest <;> rfl

end Expanding

namespace Environment

def bytes (env : Environment) : Variables :=
  env.map fun (name, value) => (Utf8.encode name, Utf8.encode value)

theorem lookup_bytes (env : Environment) (name : String)
    : env.bytes.lookup (Utf8.encode name) = (env.lookup name).map Utf8.encode := by
  induction env with
  | nil => rfl
  | cons head env ih =>
    rcases head with ⟨other, value⟩
    rw [bytes, List.map_cons, List.lookup_cons, List.lookup_cons, ← bytes, ih]
    have heq : (Utf8.encode name == Utf8.encode other) = (name == other) := by
      rw [Bool.eq_iff_iff, beq_iff_eq, beq_iff_eq]
      exact (Function.LeftInverse.injective Utf8.decode_encode).eq_iff
    rw [heq]
    cases name == other <;> rfl

theorem find_bytes (env : Environment) (name : List Char)
    : env.bytes.find (name.map .char) = ((env.find name).mapError .unset).map (List.map .char) := by
  have hname : Utf8.encodeAll name = Utf8.encode (String.ofList name) := by
    rw [Utf8.encode, String.toList_ofList, Utf8.encodeAll]
  unfold Variables.find find
  rw [Text.encode_map_char, hname]
  dsimp only
  rw [lookup_bytes]
  cases env.lookup (String.ofList name) with
  | none => rfl
  | some value => exact congrArg Except.ok (Text.ofBytes_encode value)

end Environment

namespace Value

/-- All texts in which references are replaced are strings. -/
inductive IsOfStrings : Value Text → Prop where
  | text (s : String) : IsOfStrings (.text (Text.ofString s))
  | list {items : List (Value Text)} (hitems : ∀ item ∈ items, IsOfStrings item) : IsOfStrings (.list items)
  | mapping {fields : List (Key Text × Value Text)} (hfields : ∀ field ∈ fields, IsOfStrings field.2)
      : IsOfStrings (.record .mapping fields)
  | other {value : Value Text} (htext : ∀ s, value ≠ .text s) (hlist : ∀ items, value ≠ .list items)
      (hmapping : ∀ fields, value ≠ .record .mapping fields)
      : IsOfStrings value

variable (env : Environment)

/-- Filling a value and then leaving out surrogates is the same as doing it the other way round. -/
def Commutes (env : Environment) (value : Value Text) : Prop :=
  (value.substitute env.bytes.find).map narrow = (value.narrow.substitute env.find).mapError .unset

theorem substituteItems_narrow {items : List (Value Text)} (h : ∀ item ∈ items, Commutes env item)
    : (substituteItems env.bytes.find items).map narrowItems
        = (substituteItems env.find (narrowItems items)).mapError .unset := by
  induction items with
  | nil => rfl
  | cons value rest ih =>
    rw [List.forall_mem_cons] at h
    rw [substituteItems, narrowItems, substituteItems]
    exact map_both_eq_mapError h.1 (ih h.2) fun _ _ => rfl

theorem substituteFields_narrow {fields : List (Key Text × Value Text)} (h : ∀ field ∈ fields, Commutes env field.2)
    : (substituteFields env.bytes.find fields).map narrowFields
        = (substituteFields env.find (narrowFields fields)).mapError .unset := by
  induction fields with
  | nil => rfl
  | cons field rest ih =>
    rcases field with ⟨key, value⟩
    rw [List.forall_mem_cons] at h
    rw [substituteFields, narrowFields, substituteFields]
    exact map_both_eq_mapError h.1 (ih h.2) fun _ _ => rfl

theorem IsOfStrings.commutes {value : Value Text} (h : value.IsOfStrings) : Commutes env value := by
  unfold Commutes
  induction h with
  | text s =>
    have hexpand : expand env.bytes.find (chars (Text.ofString s))
        = ((expand env.find (chars s)).mapError .unset).map (List.map .char) :=
      expand_map_char env.find_bytes s.toList
    rw [narrow, Text.narrow_ofString, substitute, substitute, hexpand]
    cases expand env.find (chars s) with
    | error => rfl
    | ok expanded =>
      have hnarrow : Text.narrow (expanded.map .char) = String.ofList expanded := by
        rw [← Text.narrow_ofString (String.ofList expanded), Text.ofString, String.toList_ofList]
      exact congrArg (fun s => Except.ok (Value.text s)) hnarrow
  | @list items _ ih =>
    have hitems := substituteItems_narrow env ih
    rw [narrow, substitute, substitute, mapError_map, ← hitems]
    cases substituteItems env.bytes.find items <;> rfl
  | @mapping fields _ ih =>
    have hfields := substituteFields_narrow env ih
    rw [narrow, substitute, substitute, mapError_map, ← hfields]
    cases substituteFields env.bytes.find fields <;> rfl
  | @other value htext hlist hmapping =>
    rw [substitute.eq_4 _ value htext hlist hmapping]
    cases value with
    | text s => exact absurd rfl (htext s)
    | list items => exact absurd rfl (hlist items)
    | record shape fields =>
      cases shape with
      | mapping => exact absurd rfl (hmapping fields)
      | _ => rfl
    | _ => rfl

end Value

namespace Config

/-- Data that holds no surrogates is read from a document as it is read from strings. -/
theorem ofDocument_eq_ofFields (env : Environment) {fields : List (Key Text × Value Text)}
    (h : ∀ field ∈ fields, field.2.IsOfStrings)
    : ofDocument env.bytes fields = ofFields env (Value.narrowFields fields) := by
  have hfields := Value.substituteFields_narrow env fun field hfield => (h field hfield).commutes env
  calc ofDocument env.bytes fields
    _ = ((Value.substituteFields env.bytes.find fields).map Value.narrowFields).mapError .ofReference >>= read := by
      unfold ofDocument
      cases Value.substituteFields env.bytes.find fields <;> rfl
    _ = (Value.substituteFields env.find (Value.narrowFields fields)).mapError .unset >>= read := by
      rw [hfields, mapError_mapError]
      rfl
    _ = ofFields env (Value.narrowFields fields) := by
      rfl

end Config

end Mustache
