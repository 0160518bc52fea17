import Mathlib.Data.List.Forall2
import Mustache.Config.File
import Mustache.Proofs.References
import Mustache.Proofs.Surrogates

/-!
This module contains what becomes of configuration data when its references to the environment are replaced. The
data keeps its shape, only the references that it comes with are looked up, and what fails is the first of them
that is not set.
-/

namespace Mustache

open Alphabet Textual
open Reference (atStart? first? division fill)

variable {κ ε : Type} [Alphabet κ]

section Expanding

variable [DecidableEq κ] {text after : List κ} {ref : Reference κ}

theorem expand_of_reference?_eq_some (find : List κ → Except ε (List κ)) {name : List κ}
    (h : reference? text = some (name, after))
    : expand find text
        =
      (do
        let value ← find name
        let expanded ← expand find after
        return value ++ expanded) := by
  cases text with
  | nil => contradiction
  | cons c rest =>
    rw [expand.eq_def]
    dsimp only
    split
    . next heq =>
      rw [h, Option.some.injEq, Prod.mk.injEq] at heq
      rw [heq.1, heq.2]
    . next heq =>
      rw [h] at heq
      contradiction

theorem expand_of_reference?_eq_none (find : List κ → Except ε (List κ)) {c : κ} {rest : List κ}
    (h : reference? (c :: rest) = none)
    : expand find (c :: rest) = (expand find rest).map (c :: ·) := by
  rw [expand.eq_def]
  dsimp only
  split
  . next heq =>
    rw [h] at heq
    contradiction
  . rfl

theorem expand_text_append (find : List κ → Except ε (List κ)) (h : ref.before = []) (after : List κ)
    : expand find (ref.text ++ after)
        =
      (do
        let value ← find ref.name
        let expanded ← expand find after
        return value ++ expanded) := by
  apply expand_of_reference?_eq_some
  rw [Reference.reference?_eq_some_iff]
  exact ⟨Reference.text_append_of_before_eq_nil h after, ref.isNonempty, ref.isClosed⟩

theorem expand_cons (find : List κ → Except ε (List κ)) {c : κ} {rest : List κ} (h : atStart? (c :: rest) = none)
    : expand find (c :: rest) = (expand find rest).map (c :: ·) := by
  apply expand_of_reference?_eq_none
  rw [Option.eq_none_iff_forall_ne_some]
  intro cut hreference
  rcases Reference.atStart?_of_reference?_eq_some hreference with ⟨ref, hstart, _⟩
  rw [h] at hstart
  contradiction

theorem expand_of_first?_eq_none (find : List κ → Except ε (List κ)) (h : first? text = none)
    : expand find text = .ok text := by
  induction text with
  | nil => rw [expand]
  | cons c rest ih =>
    rw [Reference.first?_cons_eq_none_iff] at h
    rw [expand_cons find h.1, ih h.2]
    rfl

theorem expand_of_first?_eq_some (find : List κ → Except ε (List κ)) (h : first? text = some (ref, after))
    : expand find text
        =
      (do
        let value ← find ref.name
        let expanded ← expand find after
        return ref.before ++ value ++ expanded) := by
  induction text generalizing ref with
  | nil => contradiction
  | cons c rest ih =>
    rcases Reference.first?_cons_eq_some h with hstart | ⟨hstart, inner, hinner, rfl⟩
    . rcases Reference.atStart?_eq_some hstart with ⟨hbefore, htext⟩
      rw [htext, expand_text_append find hbefore, hbefore]
      rfl
    . rw [expand_cons find hstart, ih hinner, Reference.push_name, Reference.push_before]
      cases find inner.name with
      | error => rfl
      | ok value => cases expand find after <;> rfl

end Expanding

section Resolving

variable {find : List κ → Except ε (List κ)} {names names' : List (List κ)} {outcome : Except ε α}
  {outcome' : Except ε β} {IsResult : α → Prop} {IsResult' : β → Prop}

def failure? : Except ε α → Option ε
  | .ok _ => none
  | .error error => some error

/--
The outcome of looking up names one after the other. It is an error if one of them is not found, that of the first
such name, and a result of the right kind otherwise.
-/
structure Resolves (find : List κ → Except ε (List κ)) (names : List (List κ)) (outcome : Except ε α)
    (IsResult : α → Prop) : Prop where
  ok_iff : ∀ result, outcome = .ok result ↔ IsResult result
  error_iff : ∀ error, outcome = .error error ↔ names.findSome? (fun name => failure? (find name)) = some error

omit [Alphabet κ]

theorem Resolves.findSome?_of_ok {result : α} (h : Resolves find names (.ok result) IsResult)
    : names.findSome? (fun name => failure? (find name)) = none := by
  rw [Option.eq_none_iff_forall_ne_some]
  intro error hfirst
  have herror := (h.error_iff error).mpr hfirst
  contradiction

theorem Resolves.pure (find : List κ → Except ε (List κ)) (result : α)
    : Resolves find [] (.ok result) (fun other => other = result) := by
  constructor
  . intro other
    rw [Except.ok.injEq, eq_comm]
  . simp

theorem Resolves.lookup (find : List κ → Except ε (List κ)) (name : List κ)
    : Resolves find [name] (find name) (fun value => find name = .ok value) := by
  constructor
  . intro value
    rfl
  . intro error
    cases hfind : find name <;> simp [failure?, hfind]

theorem Resolves.congr {Other : α → Prop} (h : Resolves find names outcome IsResult)
    (hiff : ∀ result, IsResult result ↔ Other result)
    : Resolves find names outcome Other := by
  constructor
  . intro result
    rw [h.ok_iff, hiff]
  . exact h.error_iff

theorem Resolves.map (f : α → β) (h : Resolves find names outcome IsResult)
    : Resolves find names (outcome.map f) (fun b => ∃ a, IsResult a ∧ f a = b) := by
  cases outcome with
  | error failure =>
    constructor
    . intro b
      simp [Except.map, ← h.ok_iff]
    . intro error
      rw [← h.error_iff]
      simp [Except.map]
  | ok result =>
    constructor
    . intro b
      simp [Except.map, ← h.ok_iff]
    . intro error
      rw [h.findSome?_of_ok]
      simp [Except.map]

/-- Names are looked up before others: if they fail, nothing is said of the others. -/
theorem Resolves.both (f : α → β → γ) (h : Resolves find names outcome IsResult)
    (h' : Resolves find names' outcome' IsResult')
    : Resolves find (names ++ names')
        (do
          let a ← outcome
          let b ← outcome'
          return f a b)
        (fun c => ∃ a b, IsResult a ∧ IsResult' b ∧ f a b = c) := by
  cases outcome with
  | error failure =>
    have hfailure := (h.error_iff failure).mp rfl
    constructor
    . intro c
      simp [bind, Except.bind, ← h.ok_iff]
    . intro error
      rw [List.findSome?_append, hfailure, Option.some_or, ← hfailure, ← h.error_iff]
      simp [bind, Except.bind]
  | ok a =>
    have hmap := h'.map (f a)
    have heq : outcome'.map (f a)
        =
      (do
        let a ← Except.ok a
        let b ← outcome'
        return f a b) := by
      cases outcome' <;> rfl
    rw [← heq]
    constructor
    . intro c
      rw [hmap.ok_iff]
      simp [← h.ok_iff]
    . intro error
      rw [hmap.error_iff, List.findSome?_append, h.findSome?_of_ok, Option.none_or]

end Resolving

section Texts

variable {Binds : List κ → List κ → Prop}

/-- A text in which the values of variables stand where the references were. -/
def IsExpansion (Binds : List κ → List κ → Prop) (refs : List (Reference κ)) (rest expanded : List κ) : Prop :=
  ∃ values, List.Forall₂ (fun ref value => Binds ref.name value) refs values ∧ fill refs values rest = expanded

theorem isExpansion_nil_iff (rest expanded : List κ) : IsExpansion Binds [] rest expanded ↔ expanded = rest := by
  simp [IsExpansion, Reference.fill_nil, eq_comm]

theorem isExpansion_cons_iff (ref : Reference κ) (refs : List (Reference κ)) (rest expanded : List κ)
    : IsExpansion Binds (ref :: refs) rest expanded
        ↔
      ∃ value tail, Binds ref.name value ∧ IsExpansion Binds refs rest tail
        ∧ ref.before ++ value ++ tail = expanded := by
  constructor
  . rintro ⟨_, hvalues, rfl⟩
    cases hvalues with
    | cons hvalue hvalues =>
      refine ⟨_, _, hvalue, ⟨_, hvalues, rfl⟩, ?_⟩
      rw [Reference.fill_cons]
  . rintro ⟨value, _, hvalue, ⟨values, hvalues, rfl⟩, rfl⟩
    refine ⟨value :: values, .cons hvalue hvalues, ?_⟩
    rw [Reference.fill_cons]

theorem expand_resolves [DecidableEq κ] (find : List κ → Except ε (List κ)) (text : List κ)
    : Resolves find ((division text).1.map Reference.name) (expand find text)
        (IsExpansion (fun name value => find name = .ok value) (division text).1 (division text).2) := by
  cases hfirst : first? text with
  | none =>
    rw [Reference.division_of_first?_eq_none hfirst, expand_of_first?_eq_none find hfirst]
    apply (Resolves.pure find text).congr
    intro expanded
    rw [isExpansion_nil_iff]
  | some cut =>
    rcases cut with ⟨ref, after⟩
    have hlength := Reference.length_of_first? hfirst
    rw [Reference.division_of_first?_eq_some hfirst, expand_of_first?_eq_some find hfirst]
    apply ((Resolves.lookup find ref.name).both _ (expand_resolves find after)).congr
    intro expanded
    rw [isExpansion_cons_iff]
termination_by text.length

end Texts

namespace Value

variable {τ : Type} [Textual τ κ]

section

variable [DecidableEq κ]

mutual

/-- The names of the references in all texts of a value, from the left. -/
def references : Value τ → List (List κ)
  | .text s => (division (chars s)).1.map Reference.name
  | .list items => itemReferences items
  | .record .mapping fields => fieldReferences fields
  | _ => []

def itemReferences : List (Value τ) → List (List κ)
  | [] => []
  | value :: rest => references value ++ itemReferences rest

def fieldReferences : List (Key τ × Value τ) → List (List κ)
  | [] => []
  | (_, value) :: rest => references value ++ fieldReferences rest

end

end

/--
A value and what it is with the values of all variables that it refers to. Lists and mappings are filled item by
item; any other value is left alone.
-/
inductive Filled (Binds : List κ → List κ → Prop) : Value τ → Value τ → Prop where
  | text {s : τ} {refs : List (Reference κ)} {values : List (List κ)} {rest : List κ}
      (hdivides : Reference.Divides (chars s) refs rest)
      (hvalues : List.Forall₂ (fun ref value => Binds ref.name value) refs values)
      : Filled Binds (.text s) (.text (ofChars (fill refs values rest)))
  | list {items filled : List (Value τ)} (hitems : List.Forall₂ (Filled Binds) items filled)
      : Filled Binds (.list items) (.list filled)
  | mapping {fields filled : List (Key τ × Value τ)}
      (hkeys : fields.map Prod.fst = filled.map Prod.fst)
      (hvalues : List.Forall₂ (Filled Binds) (fields.map Prod.snd) (filled.map Prod.snd))
      : Filled Binds (.record .mapping fields) (.record .mapping filled)
  | same {value : Value τ} (htext : ∀ s, value ≠ .text s) (hlist : ∀ items, value ≠ .list items)
      (hmapping : ∀ fields, value ≠ .record .mapping fields)
      : Filled Binds value value

variable {Binds : List κ → List κ → Prop}

theorem filled_text_iff [DecidableEq κ] (s : τ) (value : Value τ)
    : Filled Binds (.text s) value
        ↔
      ∃ expanded, IsExpansion Binds (division (chars s)).1 (division (chars s)).2 expanded
        ∧ .text (ofChars expanded) = value := by
  constructor
  . intro h
    cases h with
    | @text _ refs values rest hdivides hvalues =>
      have hdivision := (Reference.division_eq_iff _ _ _).mpr hdivides
      rw [hdivision]
      exact ⟨_, ⟨values, hvalues, rfl⟩, rfl⟩
    | same htext => exact absurd rfl (htext s)
  . rintro ⟨_, ⟨values, hvalues, rfl⟩, rfl⟩
    exact .text (Reference.divides_division (chars s)) hvalues

theorem filled_list_iff (items : List (Value τ)) (value : Value τ)
    : Filled Binds (.list items) value ↔ ∃ filled, List.Forall₂ (Filled Binds) items filled ∧ .list filled = value := by
  constructor
  . intro h
    cases h with
    | list hitems => exact ⟨_, hitems, rfl⟩
    | same _ hlist => exact absurd rfl (hlist items)
  . rintro ⟨filled, hitems, rfl⟩
    exact .list hitems

def FilledFields (Binds : List κ → List κ → Prop) (fields filled : List (Key τ × Value τ)) : Prop :=
  fields.map Prod.fst = filled.map Prod.fst
    ∧ List.Forall₂ (Filled Binds) (fields.map Prod.snd) (filled.map Prod.snd)

theorem filled_mapping_iff (fields : List (Key τ × Value τ)) (value : Value τ)
    : Filled Binds (.record .mapping fields) value
        ↔
      ∃ filled, FilledFields Binds fields filled ∧ .record .mapping filled = value := by
  constructor
  . intro h
    cases h with
    | mapping hkeys hvalues => exact ⟨_, ⟨hkeys, hvalues⟩, rfl⟩
    | same _ _ hmapping => exact absurd rfl (hmapping fields)
  . rintro ⟨filled, ⟨hkeys, hvalues⟩, rfl⟩
    exact .mapping hkeys hvalues

theorem filledFields_nil_iff (filled : List (Key τ × Value τ)) : FilledFields Binds [] filled ↔ filled = [] := by
  constructor
  . rintro ⟨hkeys, _⟩
    exact List.map_eq_nil_iff.mp hkeys.symm
  . rintro rfl
    exact ⟨rfl, .nil⟩

theorem filledFields_cons_iff (key : Key τ) (value : Value τ) (rest filled : List (Key τ × Value τ))
    : FilledFields Binds ((key, value) :: rest) filled
        ↔
      ∃ head tail, Filled Binds value head ∧ FilledFields Binds rest tail ∧ (key, head) :: tail = filled := by
  constructor
  . rintro ⟨hkeys, hvalues⟩
    cases filled with
    | nil => contradiction
    | cons field tail =>
      rcases field with ⟨key', head⟩
      rw [List.map_cons, List.map_cons, List.cons.injEq] at hkeys
      rw [List.map_cons, List.map_cons, List.forall₂_cons] at hvalues
      rcases hkeys with ⟨rfl, hkeys⟩
      exact ⟨head, tail, hvalues.1, ⟨hkeys, hvalues.2⟩, rfl⟩
  . rintro ⟨head, tail, hhead, ⟨hkeys, hvalues⟩, rfl⟩
    refine ⟨?_, .cons hhead hvalues⟩
    rw [List.map_cons, List.map_cons, hkeys]

theorem filled_iff_eq {value : Value τ} (htext : ∀ s, value = .text s → False)
    (hlist : ∀ items, value = .list items → False)
    (hmapping : ∀ fields, value = .record .mapping fields → False)
    (other : Value τ)
    : Filled Binds value other ↔ other = value := by
  constructor
  . intro h
    cases h with
    | text => exact absurd rfl (htext _)
    | list => exact absurd rfl (hlist _)
    | mapping => exact absurd rfl (hmapping _)
    | same => rfl
  . rintro rfl
    exact .same htext hlist hmapping

theorem substitute_resolves [DecidableEq κ] (find : List κ → Except ε (List κ)) (value : Value τ)
    : Resolves find value.references (substitute find value)
      (Filled (fun name value => find name = .ok value) value) := by
  -- Names are collected in the order in which values are visited, so each case adds its own names in front.
  apply substitute.induct
    (fun value => Resolves find value.references (substitute find value)
      (Filled (fun name value => find name = .ok value) value))
    (fun fields => Resolves find (fieldReferences fields) (substituteFields find fields)
      (FilledFields (fun name value => find name = .ok value) fields))
    (fun items => Resolves find (itemReferences items) (substituteItems find items)
      (List.Forall₂ (Filled fun name value => find name = .ok value) items))
  case case1 =>
    intro s
    rw [references, substitute]
    apply ((expand_resolves find (chars s)).map fun expanded => Value.text (ofChars expanded)).congr
    intro value
    rw [filled_text_iff]
  case case2 =>
    intro items h
    rw [references, substitute]
    apply (h.map Value.list).congr
    intro value
    rw [filled_list_iff]
  case case3 =>
    intro fields h
    rw [references, substitute]
    apply (h.map (Value.record .mapping)).congr
    intro value
    rw [filled_mapping_iff]
  case case4 =>
    intro value htext hlist hmapping
    rw [references.eq_4 value htext hlist hmapping, substitute.eq_4 find value htext hlist hmapping]
    apply (Resolves.pure find value).congr
    intro other
    rw [filled_iff_eq htext hlist hmapping]
  case case5 =>
    rw [itemReferences, substituteItems]
    apply (Resolves.pure find []).congr
    intro filled
    rw [List.forall₂_nil_left_iff]
  case case6 =>
    intro value rest hvalue hrest
    rw [itemReferences, substituteItems]
    apply (hvalue.both _ hrest).congr
    intro filled
    rw [List.forall₂_cons_left_iff]
    constructor
    . rintro ⟨head, tail, hhead, htail, rfl⟩
      exact ⟨head, tail, hhead, htail, rfl⟩
    . rintro ⟨head, tail, hhead, htail, rfl⟩
      exact ⟨head, tail, hhead, htail, rfl⟩
  case case7 =>
    rw [fieldReferences, substituteFields]
    apply (Resolves.pure find []).congr
    intro filled
    rw [filledFields_nil_iff]
  case case8 =>
    intro key value rest hvalue hrest
    rw [fieldReferences, substituteFields]
    apply (hvalue.both _ hrest).congr
    intro filled
    rw [filledFields_cons_iff]

end Value

namespace Variables

def isSet (vars : Variables) (name : Text) : Bool :=
  match name.encode with
  | .ok bytes => (vars.lookup bytes).isSome
  | .error _ => false

/-- The value is that of a variable of this name. -/
def Binds (vars : Variables) (name value : Text) : Prop :=
  ∃ bytes set, name.encode = .ok bytes ∧ vars.lookup bytes = some set ∧ .ofBytes set = value

theorem find_eq_ok_iff (vars : Variables) (name value : Text) : vars.find name = .ok value ↔ vars.Binds name value := by
  unfold find Binds
  cases name.encode with
  | error fault => simp
  | ok bytes => cases hlookup : vars.lookup bytes <;> simp [hlookup]

theorem isSet_iff (vars : Variables) (name : Text) : vars.isSet name ↔ ∃ value, vars.Binds name value := by
  unfold isSet Binds
  cases name.encode with
  | error fault => simp
  | ok bytes => simp [Option.isSome_iff_exists]

/-- Whatever bytes a name is made of, there is a text that refers to it. -/
theorem isSet_ofBytes (vars : Variables) (name : Bytes) : vars.isSet (.ofBytes name) = (vars.lookup name).isSome := by
  rw [isSet, Text.encode_ofBytes]

def refusal (name : Text) : ReferenceError :=
  match name.encode with
  | .ok _ => .unset ⟨name⟩
  | .error fault => .unencodable fault

theorem refusal_eq_unset_iff (name : Text) (error : UnsetVariable)
    : refusal name = .unset error ↔ name = error.name ∧ ∀ c ∈ error.name, c.HasBytes := by
  unfold refusal
  rw [← Text.encode_isOk_iff]
  constructor
  . intro h
    cases hencode : name.encode with
    | error fault =>
      rw [hencode] at h
      contradiction
    | ok bytes =>
      rw [hencode] at h
      injection h with h
      rw [← h]
      exact ⟨rfl, bytes, hencode⟩
  . rintro ⟨rfl, bytes, hencode⟩
    rw [hencode]

theorem refusal_eq_unencodable_iff (name : Text) (fault : Text.Fault)
    : refusal name = .unencodable fault ↔ fault.IsFirstOf 0 name := by
  unfold refusal
  rw [← Text.encode_eq_error_iff]
  cases name.encode <;> simp

theorem failure?_find (vars : Variables) (name : Text)
    : failure? (vars.find name) = if vars.isSet name then none else some (refusal name) := by
  unfold find isSet refusal
  cases name.encode with
  | error fault => rfl
  | ok bytes => cases hlookup : vars.lookup bytes <;> simp [failure?, hlookup]

theorem findSome?_failure? (vars : Variables) (names : List Text)
    : names.findSome? (fun name => failure? (vars.find name))
        = (names.find? fun name => !vars.isSet name).map refusal := by
  induction names with
  | nil => rfl
  | cons name names ih =>
    rw [List.findSome?_cons, List.find?_cons, failure?_find]
    cases vars.isSet name with
    | true => exact ih
    | false => rfl

theorem substitute_eq_error_iff (vars : Variables) (value : Value Text) (error : ReferenceError)
    : value.substitute vars.find = .error error
        ↔
      ∃ name, value.references.find? (fun name => !vars.isSet name) = some name ∧ refusal name = error := by
  rw [(Value.substitute_resolves vars.find value).error_iff, findSome?_failure?, Option.map_eq_some_iff]

theorem substitute_eq_unset_iff (vars : Variables) (value : Value Text) (error : UnsetVariable)
    : value.substitute vars.find = .error (.unset error)
        ↔
      value.references.find? (fun name => !vars.isSet name) = some error.name ∧ ∀ c ∈ error.name, c.HasBytes := by
  rw [substitute_eq_error_iff]
  simp only [refusal_eq_unset_iff]
  constructor
  . rintro ⟨name, hname, rfl, hbytes⟩
    exact ⟨hname, hbytes⟩
  . rintro ⟨hname, hbytes⟩
    exact ⟨error.name, hname, rfl, hbytes⟩

theorem substitute_isOk_iff (vars : Variables) (value : Value Text)
    : (∃ filled, value.substitute vars.find = .ok filled) ↔ ∀ name ∈ value.references, vars.isSet name := by
  have herror := substitute_eq_error_iff vars value
  cases hunset : value.references.find? fun name => !vars.isSet name with
  | none =>
    have hset : ∀ name ∈ value.references, vars.isSet name := by
      simpa using List.find?_eq_none.mp hunset
    refine iff_of_true ?_ hset
    cases houtcome : value.substitute vars.find with
    | ok filled => exact ⟨filled, rfl⟩
    | error error =>
      rcases (herror error).mp houtcome with ⟨name, hname, _⟩
      rw [hunset] at hname
      contradiction
  | some name =>
    have hrefused := (herror (refusal name)).mpr ⟨name, hunset, rfl⟩
    refine iff_of_false ?_ ?_
    . rw [hrefused]
      nofun
    . intro hset
      have hname := List.find?_some hunset
      rw [hset name (List.mem_of_find?_eq_some hunset)] at hname
      contradiction

/--
A value is filled if all variables that it refers to are set, and is refused for the first one that is not: by an
error that tells its name, unless the name holds a surrogate that stands for no byte. What is put in a text is not
looked at: the text is divided at its own references, and there is one way to do that.
-/
theorem substitute_single_pass (vars : Variables) (value : Value Text)
    : let outcome := value.substitute vars.find
      let unset? := value.references.find? fun name => !vars.isSet name
      ((∃ filled, outcome = .ok filled) ↔ ∀ name ∈ value.references, ∃ set, vars.Binds name set)
        ∧ (∀ filled, outcome = .ok filled ↔ value.Filled vars.Binds filled)
        ∧ (∀ error, outcome = .error (.unset error) ↔ unset? = some error.name ∧ ∀ c ∈ error.name, c.HasBytes)
        ∧ (∀ fault, outcome = .error (.unencodable fault) ↔ ∃ name, unset? = some name ∧ fault.IsFirstOf 0 name)
        ∧ (∀ error, (ConfigError.ofReference (.unset error)).message
          = Text.ofString "Environment variable not set: " ++ error.name)
        ∧ ∀ (text rest : Text) refs, division text = (refs, rest) ↔ Reference.Divides text refs rest := by
  intro outcome unset?
  have hbinds : (fun name value => vars.find name = .ok value) = vars.Binds := by
    funext name value
    exact propext (vars.find_eq_ok_iff name value)
  have hok := (Value.substitute_resolves vars.find value).ok_iff
  rw [hbinds] at hok
  refine ⟨?_, hok, substitute_eq_unset_iff vars value, ?_, fun _ => rfl,
    fun text rest refs => Reference.division_eq_iff text rest refs⟩
  . rw [substitute_isOk_iff]
    simp only [vars.isSet_iff]
  . intro fault
    rw [substitute_eq_error_iff]
    simp only [refusal_eq_unencodable_iff]
    rfl

/-- Two values side by side look like a reference, and stay. -/
example
    : let vars : Variables := [(Bytes.ofAscii "A", Bytes.ofAscii "$"), (Bytes.ofAscii "B", Bytes.ofAscii "\x7bA\x7d")]
      (expand vars.find (Text.ofString "a$\x7bA\x7d$\x7bB\x7d$\x7b\x7d$\x7bA")).toOption
        = some (Text.ofString "a$\x7bA\x7d$\x7b\x7d$\x7bA") := by
  decide +kernel

/-- A surrogate that stands for no byte cannot be part of the name of a variable. -/
example
    : let name : Text := [.surrogate 0]
      ((Value.text (Text.ofString "$\x7b" ++ name ++ Text.ofString "\x7d")).substitute (Variables.find [])
        matches .error (.unencodable ⟨0, 1, .surrogate 0⟩)) = true := by
  decide +kernel

end Variables

namespace Config

theorem ofDocument_of_unset {vars : Variables} {fields : List (Key Text × Value Text)} {error : UnsetVariable}
    (h : (Value.fieldReferences fields).find? (fun name => !vars.isSet name) = some error.name)
    (hbytes : ∀ c ∈ error.name, c.HasBytes)
    : ofDocument vars fields = .error (.unset error) := by
  have hvalue := (Variables.substitute_eq_unset_iff vars (.record .mapping fields) error).mpr ⟨h, hbytes⟩
  rw [Value.substitute, map_eq_error_iff] at hvalue
  unfold ofDocument
  rw [hvalue]
  rfl

end Config

end Mustache
