import Mathlib.Data.List.Forall2
import Mathlib.Data.List.Nodup
import Mustache.Log.Record
import Mustache.Proofs.Dates
import Mustache.Proofs.JsonLine

/-!
This module contains what the JSON form of a record says. It is an object of the record's own members and of its
fields: a field with the name of one of these members stands in its place, and all others follow in order. Whatever
the message and the fields hold, the form is one line that is read back as this object.
-/

namespace Mustache

namespace Value

/-- Values that JSON has forms for. Integers have no more digits than they may be written with. -/
inductive IsPlain : Value Text → Prop where
  | null : IsPlain .null
  | bool (b : Bool) : IsPlain (.bool b)
  | int {n : Int} (hdigits : (Nat.toDigits 10 n.natAbs).length ≤ Digits.limit) : IsPlain (.int n)
  | text (s : Text) : IsPlain (.text s)
  | list {items : List (Value Text)} (hitems : ∀ item ∈ items, IsPlain item) : IsPlain (.list items)
  | tuple {items : List (Value Text)} (hitems : ∀ item ∈ items, IsPlain item) : IsPlain (.tuple items)
  | mapping {fields : List (Text × Value Text)} (hdistinct : (fields.map Prod.fst).Nodup)
      (hfields : ∀ field ∈ fields, IsPlain field.2)
      : IsPlain (mapping fields)

end Value

namespace Json

/--
The JSON value says what the value is, but for the difference between lists and tuples, and for surrogates that make up
a character, in whose place this character stands.
-/
inductive Represents : Json → Value Text → Prop where
  | null : Represents .null .null
  | bool (b : Bool) : Represents (.bool b) (.bool b)
  | int (n : Int) : Represents (.int n) (.int n)
  | text (s : Text) : Represents (.text s.joined) (.text s)
  | list {items : List Json} {values : List (Value Text)} (hitems : List.Forall₂ Represents items values)
      : Represents (.array items) (.list values)
  | tuple {items : List Json} {values : List (Value Text)} (hitems : List.Forall₂ Represents items values)
      : Represents (.array items) (.tuple values)
  | mapping {members : List (Text × Json)} {fields : List (Text × Value Text)}
      (hnames : members.map Prod.fst = fields.map fun field => field.1.joined)
      (hvalues : List.Forall₂ Represents (members.map Prod.snd) (fields.map Prod.snd))
      : Represents (.object members) (.mapping fields)

/-- The JSON form of a value, which is read back from its line. -/
structure IsFormOf (json : Json) (value : Value Text) : Prop where
  represents : json.joined.Represents value
  isPrintable : IsPrintable json.line
  isReadBack : json.IsReadBack

section

variable {items : List Json} {values : List (Value Text)}

theorem IsFormOf.forall_items {Q : Json → Prop} (h : List.Forall₂ IsFormOf items values)
    (hform : ∀ item value, IsFormOf item value → Q item)
    : ∀ item ∈ items, Q item := by
  induction h with
  | nil => exact List.forall_mem_nil _
  | cons hitem _ ih =>
    rw [List.forall_mem_cons]
    exact ⟨hform _ _ hitem, ih⟩

theorem forall₂_joinedItems (h : List.Forall₂ IsFormOf items values)
    : List.Forall₂ Represents (joinedItems items) values := by
  induction h with
  | nil => exact .nil
  | cons hitem _ ih => exact .cons hitem.represents ih

theorem isFormOf_array {value : Value Text} (h : List.Forall₂ IsFormOf items values)
    (hrepresents : Represents (.array (joinedItems items)) value)
    : IsFormOf (.array items) value where
  represents := hrepresents
  isPrintable := isPrintable_array (IsFormOf.forall_items h fun _ _ hitem => hitem.isPrintable)
  isReadBack := isReadBack_array (IsFormOf.forall_items h fun _ _ hitem => hitem.isReadBack)

end

theorem names_joinedMembers (members : List (Text × Json))
    : (joinedMembers members).map Prod.fst = (members.map Prod.fst).map Text.joined := by
  induction members with
  | nil => rfl
  | cons member members ih => exact congrArg (member.1.joined :: ·) ih

theorem values_joinedMembers (members : List (Text × Json))
    : (joinedMembers members).map Prod.snd = joinedItems (members.map Prod.snd) := by
  induction members with
  | nil => rfl
  | cons member members ih => exact congrArg (member.2.joined :: ·) ih

theorem isFormOf_object {members : List (Text × Json)} {fields : List (Text × Value Text)}
    (hnames : members.map Prod.fst = fields.map Prod.fst)
    (h : List.Forall₂ IsFormOf (members.map Prod.snd) (fields.map Prod.snd))
    : IsFormOf (.object members) (.mapping fields) where
  represents := by
    apply Represents.mapping
    . rw [names_joinedMembers, hnames, List.map_map]
      rfl
    . rw [values_joinedMembers]
      exact forall₂_joinedItems h
  isPrintable := by
    have hvalues : ∀ value ∈ members.map Prod.snd, IsPrintable value.line :=
      IsFormOf.forall_items h fun _ _ hmember => hmember.isPrintable
    rw [List.forall_mem_map] at hvalues
    exact isPrintable_object hvalues
  isReadBack := by
    have hvalues : ∀ value ∈ members.map Prod.snd, value.IsReadBack :=
      IsFormOf.forall_items h fun _ _ hmember => hmember.isReadBack
    rw [List.forall_mem_map] at hvalues
    exact isReadBack_object hvalues

end Json

namespace Value

open Json (IsFormOf)

variable {value : Value Text}

theorem itemsToJson_isOk {items : List (Value Text)}
    (h : ∀ item ∈ items, ∃ json, item.toJson = .ok json ∧ IsFormOf json item)
    : ∃ forms, itemsToJson items = .ok forms ∧ List.Forall₂ IsFormOf forms items := by
  induction items with
  | nil => exact ⟨[], rfl, .nil⟩
  | cons item items ih =>
    rw [List.forall_mem_cons] at h
    rcases h.1 with ⟨json, hjson, hform⟩
    rcases ih h.2 with ⟨forms, hforms, hrest⟩
    refine ⟨json :: forms, ?_, .cons hform hrest⟩
    rw [itemsToJson, hjson, hforms]
    rfl

theorem fieldsToJson_isOk {fields : List (Text × Value Text)}
    (h : ∀ field ∈ fields, ∃ json, field.2.toJson = .ok json ∧ IsFormOf json field.2)
    : ∃ members, fieldsToJson (fields.map fun field => (.text field.1, field.2)) = .ok members
        ∧ members.map Prod.fst = fields.map Prod.fst
        ∧ List.Forall₂ IsFormOf (members.map Prod.snd) (fields.map Prod.snd) := by
  induction fields with
  | nil => exact ⟨[], rfl, rfl, .nil⟩
  | cons field fields ih =>
    rw [List.forall_mem_cons] at h
    rcases h.1 with ⟨json, hjson, hform⟩
    rcases ih h.2 with ⟨members, hmembers, hnames, hrest⟩
    refine ⟨(field.1, json) :: members, ?_, ?_, .cons hform hrest⟩
    . rw [List.map_cons, fieldsToJson, hjson, hmembers]
      rfl
    . rw [List.map_cons, List.map_cons, hnames]

theorem not_exceedLimit {n : Nat} (h : (Nat.toDigits 10 n).length ≤ Digits.limit)
    : Digits.exceedLimit n = false := by
  -- The limit is kept away from the power, which is far too large to be evaluated.
  have hlt {limit : Nat} (hpos : 0 < limit) (h : (Nat.toDigits 10 n).length ≤ limit) : n < Nat.pow 10 limit :=
    (Nat.length_toDigits_le_iff (by decide) hpos).mp h
  unfold Digits.exceedLimit
  rw [Bool.and_eq_false_iff]
  right
  rw [decide_eq_false_iff_not, Nat.not_le]
  exact hlt (by decide) h

theorem IsPlain.exists_form (h : value.IsPlain) : ∃ json, value.toJson = .ok json ∧ IsFormOf json value := by
  induction h with
  | null => exact ⟨.null, rfl, .null, by simp [Json.line, Json.IsPrintable], Json.isReadBack_null⟩
  | bool b =>
    refine ⟨.bool b, rfl, .bool b, ?_, Json.isReadBack_bool b⟩
    cases b <;> simp [Json.line, Json.IsPrintable]
  | @int n hdigits =>
    refine ⟨.int n, ?_, .int n, Json.isPrintable_int n, Json.isReadBack_int n⟩
    rw [toJson, Json.ofInt, not_exceedLimit hdigits]
    rfl
  | text s => exact ⟨.text s, rfl, .text s, Json.isPrintable_quote s, Json.isReadBack_text s⟩
  | list _ ih =>
    rcases itemsToJson_isOk ih with ⟨forms, hforms, hrelated⟩
    refine ⟨.array forms, ?_, Json.isFormOf_array hrelated (.list (Json.forall₂_joinedItems hrelated))⟩
    rw [toJson, hforms]
    rfl
  | tuple _ ih =>
    rcases itemsToJson_isOk ih with ⟨forms, hforms, hrelated⟩
    refine ⟨.array forms, ?_, Json.isFormOf_array hrelated (.tuple (Json.forall₂_joinedItems hrelated))⟩
    rw [toJson, hforms]
    rfl
  | mapping _ _ ih =>
    rcases fieldsToJson_isOk ih with ⟨members, hmembers, hsame, hrelated⟩
    refine ⟨.object members, ?_, Json.isFormOf_object hsame hrelated⟩
    rw [Value.mapping, toJson, hmembers]
    rfl

end Value

namespace Log.Record

section

variable {α : Type} {own added : List (Text × α)}

/-- Members of an object and those that are added to it. An added one stands in the place of one of the same name. -/
def merged (own added : List (Text × α)) : List (Text × α) :=
  own.map (fun member => (member.1, (added.lookup member.1).getD member.2)) ++
    added.filter fun member => !(own.map Prod.fst).contains member.1

theorem lookup_of_notMem {name : Text} (h : name ∉ added.map Prod.fst) : added.lookup name = none := by
  rw [List.lookup_eq_none_iff]
  intro member hmember
  rw [bne_iff_ne]
  rintro rfl
  exact h (List.mem_map_of_mem hmember)

theorem lookup_cons_of_ne {name : Text} {member : Text × α} (h : name ≠ member.1)
    : (member :: added).lookup name = added.lookup name := by
  rcases member with ⟨other, value⟩
  rw [List.lookup_cons, beq_false_of_ne h]

theorem names_merged (own added : List (Text × α))
    : (merged own added).map Prod.fst
        = own.map Prod.fst ++ (added.map Prod.fst).filter fun name => !(own.map Prod.fst).contains name := by
  rw [merged, List.map_append, List.map_map, List.filter_map]
  rfl

theorem nodup_merged (hown : (own.map Prod.fst).Nodup) (hadded : (added.map Prod.fst).Nodup)
    : ((merged own added).map Prod.fst).Nodup := by
  rw [names_merged, List.nodup_append]
  refine ⟨hown, hadded.filter _, ?_⟩
  rintro name hname _ hother rfl
  have hnew := (List.mem_filter.mp hother).2
  rw [Bool.not_eq_true', ← Bool.not_eq_true, List.contains_iff_mem] at hnew
  exact hnew hname

theorem forall_merged {P : α → Prop} (hown : ∀ member ∈ own, P member.2) (hadded : ∀ member ∈ added, P member.2)
    : ∀ member ∈ merged own added, P member.2 := by
  unfold merged
  rw [List.forall_mem_append, List.forall_mem_map]
  constructor
  . intro member hmember
    dsimp only
    cases hlookup : added.lookup member.1 with
    | none => exact hown member hmember
    | some value =>
      rw [List.lookup_eq_some_iff] at hlookup
      rcases hlookup with ⟨before, after, hsplit, _⟩
      exact hadded (member.1, value) (by simp [hsplit])
  . intro member hmember
    exact hadded member (List.mem_of_mem_filter hmember)

variable {member : Text × α}

theorem merged_replace (hmember : member.1 ∈ own.map Prod.fst) (h : member.1 ∉ added.map Prod.fst)
    : merged (own.map fun other => if other.1 == member.1 then member else other) added
        = merged own (member :: added) := by
  have hnames : (own.map fun other => if other.1 == member.1 then member else other).map Prod.fst
      = own.map Prod.fst := by
    rw [List.map_map]
    apply List.map_congr_left
    intro other _
    dsimp only [Function.comp]
    split
    . next heq => exact (eq_of_beq heq).symm
    . rfl
  unfold merged
  rw [hnames, List.map_map, List.filter_cons_of_neg (by simpa using hmember)]
  congr 1
  apply List.map_congr_left
  intro other _
  dsimp only [Function.comp]
  split
  . next heq => rw [eq_of_beq heq, lookup_of_notMem h, List.lookup_cons_self, Option.getD_none, Option.getD_some]
  . next hne => rw [lookup_cons_of_ne (by simpa using hne)]

theorem merged_append (hmember : member.1 ∉ own.map Prod.fst) (h : member.1 ∉ added.map Prod.fst)
    : merged (own ++ [member]) added = merged own (member :: added) := by
  have hown : own.map (fun other => (other.1, (added.lookup other.1).getD other.2))
      = own.map fun other => (other.1, ((member :: added).lookup other.1).getD other.2) := by
    apply List.map_congr_left
    intro other hother
    rw [lookup_cons_of_ne]
    exact fun heq => hmember (heq ▸ List.mem_map_of_mem hother)
  have hadded : added.filter (fun other => !((own ++ [member]).map Prod.fst).contains other.1)
      = added.filter fun other => !(own.map Prod.fst).contains other.1 := by
    apply List.filter_congr
    intro other hother
    have hne : other.1 ≠ member.1 := fun heq => h (heq ▸ List.mem_map_of_mem hother)
    rw [Bool.not_inj_iff, Bool.eq_iff_iff, List.contains_iff_mem, List.contains_iff_mem, List.map_append,
      List.mem_append, List.map_singleton, List.mem_singleton, or_iff_left hne]
  unfold merged
  rw [hadded, List.map_append, hown, List.map_singleton, lookup_of_notMem h, Option.getD_none, List.append_assoc,
    List.singleton_append, List.filter_cons_of_pos (by simpa using hmember)]

theorem foldl_setMember (h : (added.map Prod.fst).Nodup) : added.foldl setMember own = merged own added := by
  induction added generalizing own with
  | nil => simp [merged]
  | cons member added ih =>
    rw [List.map_cons, List.nodup_cons] at h
    rw [List.foldl_cons, ih h.2]
    unfold setMember
    split
    . next hmember =>
      apply merged_replace _ h.1
      simpa [List.mem_map] using hmember
    . next hmember =>
      apply merged_append _ h.1
      simpa [List.mem_map] using hmember

end

def fields (record : Record) : List (Text × Value Text) :=
  merged record.own record.extra

variable {record : Record}

theorem toJson_eq (h : (record.extra.map Prod.fst).Nodup) : record.toJson = (Value.mapping record.fields).toJson := by
  rw [toJson, foldl_setMember h, fields]

theorem nodup_own : (record.own.map Prod.fst).Nodup := by
  change [Text.ofString "level", "ts", "logger", "msg"].Nodup
  decide

theorem nodup_fields (h : (record.extra.map Prod.fst).Nodup) : (record.fields.map Prod.fst).Nodup :=
  nodup_merged nodup_own h

theorem isPlain_fields (hdistinct : (record.extra.map Prod.fst).Nodup)
    (hvalues : ∀ field ∈ record.extra, field.2.IsPlain)
    : (Value.mapping record.fields).IsPlain := by
  apply Value.IsPlain.mapping (nodup_fields hdistinct)
  apply forall_merged _ hvalues
  unfold own
  simp only [List.forall_mem_cons]
  exact ⟨.text _, .text _, .text _, .text _, List.forall_mem_nil _⟩

theorem text?_json_iff {colours : Bool} {text : Text} {json : Json} (h : record.toJson = .ok json)
    : record.text? .json colours = .ok text
        ↔ record.time.instant.fault? = none ∧ Text.ofString (String.ofList json.line) = text := by
  unfold text?
  dsimp only
  rw [h]
  cases record.time.instant.fault? <;> simp [Except.mapError, Except.map]

end Log.Record

end Mustache
