import Mustache.Proofs.Alike
import Mustache.Proofs.Ascii

/-!
This module contains the way of a name with dots through records. Split at its dots the name is a list of names of
fields, and each is looked for in the value that the one before it leads to. A field that has dots in its own name
is found before that.
-/

namespace Mustache

namespace Value

/-- The fields of a value that has named ones. A binding that is used as data has a single field. -/
def fields? (value : Value) : Option (List (Key × Value)) :=
  match value with
  | .record _ fields => some fields
  | .bound (.variable value) => some [(.text "value", value)]
  | .bound (.list items) =>
    some [(.text "items", .tuple (items.map fun item => .function (Context.toCallout item)))]
  | .bound (.flag b) => some [(.text "flag", .bool b)]
  | .bound (.callout _ callout) => some [(.text "func", .function callout)]
  | _ => none

def get? (value : Value) (name : String) : Option Value :=
  value.fields?.bind fun fields => fields.lookup (.text name)

/-- The value that names lead to, each of them a field of the value before. -/
def follow? (value : Value) : List String → Option Value
  | [] => some value
  | name :: rest => (value.get? name).bind fun inner => inner.follow? rest

def dotted (names : List String) : String :=
  String.ofList (['.'].intercalate (names.map String.toList))

/--
The value that names lead to, if fields can have dots in their names: the field of all names together comes first,
and failing that the rest of the names is looked for in the field of the first.
-/
def find? (value : Value) : List String → Option Value
  | [] => none
  | name :: rest =>
    (value.get? (dotted (name :: rest))).or ((value.get? name).bind fun inner => inner.find? rest)

theorem ofData_singleton (name : String) (value : Value)
    : Context.ofData [(.text name, value)]
        =
      Context.ofFields (fun key => if key = name then some value.toBinding else none)
        (fun key => if key = name then value.context? else none) := by
  have hfield : field? [(.text name, value)] = fun key => if key = name then some value.toBinding else none := by
    funext key
    simp [field?, eq_comm]
  have hinner : inner? [(.text name, value)] = fun key => if key = name then value.context? else none := by
    funext key
    simp [inner?, eq_comm]
  unfold Context.ofData
  rw [hfield, hinner]

theorem context?_eq (value : Value) : value.context? = value.fields?.map Context.ofData := by
  cases value with
  | bound binding =>
    unfold context? fields?
    cases binding with
    | absent => rfl
    | «variable» value => simp [Binding.context?, ofData_singleton]
    | list items =>
      unfold Binding.context?
      rw [Option.map_some, ofData_singleton, toBinding, itemContexts_eq_map, List.map_map]
      simp only [context?, ite_self]
      rfl
    | flag b => simp [Binding.context?, ofData_singleton, toBinding, context?]
    | callout effectful callout => simp [Binding.context?, ofData_singleton, toBinding, context?]
  | _ => rfl

theorem get?_of_no_fields {value : Value} (h : value.fields? = none) (name : String)
    : value.get? name = none := by
  unfold get?
  rw [h, Option.bind_none]

theorem find?_of_no_fields {value : Value} (h : value.fields? = none) (names : List String)
    : value.find? names = none := by
  cases names with
  | nil => rfl
  | cons name rest => simp [find?, get?_of_no_fields h]

end Value

/-- The names between the dots of a name. -/
def segments (name : Bytes) : List String :=
  (name.splitOn Bytes.dot).map Utf8.decode

theorem segments_eq_of_text (name : Bytes)
    : segments name = ((Utf8.decode name).toList.splitOn '.').map String.ofList := by
  have hsplit : (Utf8.decode name).toList.splitOn '.'
      = (name.splitOn Bytes.dot).map fun piece => (Utf8.decode piece).toList :=
    @Utf8.splitOn_decode Bytes.dot (by decide) name
  rw [hsplit, List.map_map]
  unfold segments
  apply List.map_congr_left
  intro piece _
  simp

theorem dotted_segments (name : Bytes) : Value.dotted (segments name) = Utf8.decode name := by
  unfold Value.dotted
  rw [segments_eq_of_text, List.map_map]
  have hid : String.toList ∘ String.ofList = id := by
    funext chars
    simp
  rw [hid, List.map_id, List.intercalate_splitOn, String.ofList_toList]

theorem segments_of_cut {name : Bytes} {head rest : List Char}
    (h : cutAt? '.' (Utf8.decode name).toList = some (head, rest))
    : segments name = String.ofList head :: segments (Utf8.encode (String.ofList rest)) := by
  rw [segments_eq_of_text, segments_eq_of_text, Utf8.decode_encode, splitOn_of_cutAt?_eq_some h]
  simp

theorem segments_of_uncut {name : Bytes} (h : cutAt? '.' (Utf8.decode name).toList = none)
    : segments name = [Utf8.decode name] := by
  rw [segments_eq_of_text, splitOn_of_cutAt?_eq_none h]
  simp

namespace Context

theorem ofData_eq_find? {value : Value} {fields : List (Key × Value)} (hfields : value.fields? = some fields)
    (name : Bytes)
    : ofData fields name = ((value.find? (segments name)).map Value.toBinding).getD .absent := by
  have hget : ∀ key, value.get? key = fields.lookup (.text key) := by
    intro key
    unfold Value.get?
    rw [hfields, Option.bind_some]
  have hwhole := dotted_segments name
  unfold ofData ofFields
  dsimp only
  rw [Value.field?_eq]
  cases hcut : cutAt? '.' (Utf8.decode name).toList with
  | none =>
    have hsegments := segments_of_uncut hcut
    rw [hsegments] at hwhole ⊢
    cases hkey : fields.lookup (.text (Utf8.decode name)) with
    | some field => simp [Value.find?, hwhole, hget, hkey]
    | none => simp [Value.find?, hwhole, hget, hkey]
  | some cut =>
    rcases cut with ⟨head, rest⟩
    have hsegments := segments_of_cut hcut
    rw [hsegments] at hwhole ⊢
    cases hkey : fields.lookup (.text (Utf8.decode name)) with
    | some field => simp [Value.find?, hwhole, hget, hkey]
    | none =>
      dsimp only [Option.map_none]
      rw [Value.inner?_eq]
      have hfind : value.find? (String.ofList head :: segments (Utf8.encode (String.ofList rest)))
          = (fields.lookup (.text (String.ofList head))).bind
              fun inner => inner.find? (segments (Utf8.encode (String.ofList rest))) := by
        simp [Value.find?, hwhole, hget, hkey]
      rw [hfind]
      cases hhead : fields.lookup (.text (String.ofList head)) with
      | none => rfl
      | some inner =>
        rw [Option.bind_some, Option.bind_some, Value.context?_eq]
        cases hinner : inner.fields? with
        | none =>
          rw [Value.find?_of_no_fields hinner]
          rfl
        | some innerFields =>
          -- What is left is shorter as a text, though it may have more bytes than it had in the name.
          have hlength := length_of_cutAt? hcut
          exact ofData_eq_find? hinner (Utf8.encode (String.ofList rest))
termination_by (Utf8.decode name).toList.length
decreasing_by
  rw [Utf8.decode_encode, String.toList_ofList]
  omega

end Context

namespace Value

/-- No field that is reached through records has a dot in its name. -/
def IsUndotted (value : Value) : Prop :=
  ∀ names inner name field, value.follow? names = some inner → inner.get? name = some field →
    '.' ∉ name.toList

theorem IsUndotted.get? {value inner : Value} {name : String} (h : value.IsUndotted)
    (hinner : value.get? name = some inner)
    : inner.IsUndotted := by
  intro names last key field hlast hfield
  apply h (name :: names) last key field _ hfield
  unfold follow?
  rw [hinner, Option.bind_some, hlast]

theorem isUndotted_of_no_fields {value : Value} (h : value.fields? = none) : value.IsUndotted := by
  have hget : ∀ name, value.get? name = none := get?_of_no_fields h
  intro names inner name field hinner hfield
  cases names with
  | nil =>
    injection hinner with hinner
    rw [← hinner, hget] at hfield
    contradiction
  | cons first rest =>
    unfold follow? at hinner
    rw [hget] at hinner
    contradiction

theorem isUndotted_record {shape : Shape} {fields : List (Key × Value)}
    (h : ∀ name field, (Key.text name, field) ∈ fields → '.' ∉ name.toList ∧ field.IsUndotted)
    : (Value.record shape fields).IsUndotted := by
  have hget : ∀ name field, (Value.record shape fields).get? name = some field →
      '.' ∉ name.toList ∧ field.IsUndotted := by
    intro name field hfield
    have hlookup : fields.lookup (.text name) = some field := hfield
    rcases List.lookup_eq_some_iff.mp hlookup with ⟨before, after, rfl, _⟩
    apply h
    simp
  intro names inner name field hinner hfield
  cases names with
  | nil =>
    injection hinner with hinner
    rw [← hinner] at hfield
    exact (hget name field hfield).1
  | cons first rest =>
    unfold follow? at hinner
    rcases Option.bind_eq_some_iff.mp hinner with ⟨next, hnext, hlast⟩
    exact (hget first next hnext).2 rest inner name field hlast hfield

theorem mem_dotted (first second : String) (rest : List String)
    : '.' ∈ (dotted (first :: second :: rest)).toList := by
  simp [dotted]

theorem IsUndotted.find?_eq {value : Value} (h : value.IsUndotted) (name : String) (rest : List String)
    : value.find? (name :: rest) = value.follow? (name :: rest) := by
  induction rest generalizing value name with
  | nil =>
    have hname : dotted [name] = name := by simp [dotted]
    unfold find? follow?
    rw [hname]
    cases value.get? name <;> simp [find?, follow?]
  | cons second rest ih =>
    have hwhole : value.get? (dotted (name :: second :: rest)) = none := by
      rw [Option.eq_none_iff_forall_ne_some]
      intro field hfield
      exact h [] value _ field rfl hfield (mem_dotted name second rest)
    unfold find? follow?
    rw [hwhole, Option.none_or]
    cases hinner : value.get? name with
    | none => rfl
    | some inner => exact ih (h.get? hinner) second

end Value

namespace Context

/--
The context of a record gives for a name what its parts between dots lead to. If fields have no dots in their names
that is a walk from field to field; if they have, a field with the name of all that is left comes first.
-/
theorem ofRecord_walks {record : Value} {fields : List (Key × Value)} (hfields : record.fields? = some fields)
    : ∃ context, ofRecord record = .ok context
        ∧ ∀ name,
          (record.IsUndotted →
            context name = ((record.follow? (segments name)).map Value.toBinding).getD .absent)
            ∧ context name = ((record.find? (segments name)).map Value.toBinding).getD .absent := by
  refine ⟨ofData fields, ?_, ?_⟩
  . unfold ofRecord
    rw [Value.context?_eq, hfields]
    rfl
  . intro name
    have hfind := ofData_eq_find? hfields name
    refine ⟨?_, hfind⟩
    intro hundotted
    rw [hfind]
    cases hsegments : segments name with
    | nil => simp [segments] at hsegments
    | cons first rest => rw [hundotted.find?_eq]

/-- The two bytes before the second dot begin a character of three. -/
theorem ofRecord_walks_cut_character
    : let inner := Value.record .row [(.text "c", .int 3)]
      let middle := Value.record .object [(.text "\uFFFD", inner)]
      let record := Value.record .mapping [(.text "a", middle), (.int 1, .null)]
      let name := Bytes.ofAscii "a." ++ [0xE2, 0x82] ++ Bytes.ofAscii ".c"
      record.fields? = some [(.text "a", middle), (.int 1, .null)]
        ∧ record.IsUndotted
        ∧ ∃ context, ofRecord record = .ok context ∧ context name = .variable (.int 3) := by
  intro inner middle record name
  have hfields : record.fields? = some [(.text "a", middle), (.int 1, .null)] := rfl
  have hinner : inner.IsUndotted := by
    apply Value.isUndotted_record
    intro key field hmem
    simp only [List.mem_singleton, Prod.mk.injEq, Key.text.injEq] at hmem
    rcases hmem with ⟨rfl, rfl⟩
    exact ⟨by decide, Value.isUndotted_of_no_fields rfl⟩
  have hmiddle : middle.IsUndotted := by
    apply Value.isUndotted_record
    intro key field hmem
    simp only [List.mem_singleton, Prod.mk.injEq, Key.text.injEq] at hmem
    rcases hmem with ⟨rfl, rfl⟩
    exact ⟨by decide, hinner⟩
  have hrecord : record.IsUndotted := by
    apply Value.isUndotted_record
    intro key field hmem
    have hhead : key = "a" ∧ field = middle := by simpa using hmem
    rcases hhead with ⟨rfl, rfl⟩
    exact ⟨by decide, hmiddle⟩
  rcases ofRecord_walks hfields with ⟨context, hcontext, hwalks⟩
  refine ⟨hfields, hrecord, context, hcontext, ?_⟩
  rw [(hwalks name).1 hrecord]
  have hsegments : segments name = ["a", "\uFFFD", "c"] := by decide +kernel
  rw [hsegments]
  rfl

example
    : let record := [(Key.text "a", Value.record .mapping
        [(.text "b", .record .mapping [(.text "c", .int 1)]), (.text "b.c", .int 2)])]
      (Stack.read [Context.ofData record] (Bytes.ofAscii "a.b.c")).toOption = some (Bytes.ofAscii "2") := by
  decide +kernel

end Context

end Mustache
