import Mathlib.Data.List.Induction
import Mathlib.Data.Nat.Digits.Defs
import Mustache.Proofs.Command
import Mustache.Proofs.Descent

/-!
This module contains how a name has to be written to address an item, and which item that is. A lookup that goes
on with the item asks it for a shorter name, and so it comes to an end.
-/

namespace Mustache

namespace ItemPath

/--
The parts of a name that addresses an item: a list without a dot in its name, a dot, the digits of an index, and
nothing behind them that does not begin with another dot.
-/
structure Parts (name list index tail : Bytes) : Prop where
  name_eq : name = list ++ Bytes.dot :: (index ++ tail)
  dot_not_mem_list : Bytes.dot ∉ list
  index_ne_nil : index ≠ []
  isDigit_index : ∀ b ∈ index, Bytes.isDigit b = true
  tail : tail = [] ∨ tail.head? = some Bytes.dot

def asked (tail : Bytes) : Bytes :=
  match tail with
  | [] => Context.self
  | _ :: inner => inner

def decimal (digits : Bytes) : Nat :=
  Nat.ofDigits 10 (digits.reverse.map fun b => b.toNat - 0x30)

theorem number_eq_decimal (digits : Bytes) : number digits = decimal digits := by
  induction digits using List.reverseRecOn with
  | nil => rfl
  | append_singleton digits b ih =>
    unfold number decimal at ih ⊢
    rw [List.foldl_append, ih, List.reverse_append]
    simp [Nat.ofDigits_cons]
    omega

theorem takeWhile_isDigit {index tail : Bytes} (hindex : ∀ b ∈ index, Bytes.isDigit b = true)
    (htail : tail = [] ∨ tail.head? = some Bytes.dot)
    : (index ++ tail).takeWhile Bytes.isDigit = index ∧ (index ++ tail).dropWhile Bytes.isDigit = tail := by
  rw [List.takeWhile_append_of_pos hindex, List.dropWhile_append_of_pos hindex]
  rcases htail with rfl | htail
  . simp
  . rcases List.head?_eq_some_iff.mp htail with ⟨inner, rfl⟩
    have hdot : Bytes.isDigit Bytes.dot = false := by decide
    simp [hdot]

theorem ofName?_of_parts {name list index tail : Bytes} (h : Parts name list index tail)
    : ofName? name = some ⟨list, index, asked tail⟩ := by
  have hdigits := takeWhile_isDigit h.isDigit_index h.tail
  unfold ofName?
  rw [h.name_eq, cutAt?_append h.dot_not_mem_list]
  dsimp only
  rw [hdigits.1, hdigits.2, if_neg h.index_ne_nil]
  cases htail : tail with
  | nil => rfl
  | cons b inner =>
    have hb := h.tail
    rw [htail] at hb
    have : b = Bytes.dot := by simpa using hb
    simp [this, asked]

theorem parts_of_ofName? {name : Bytes} {path : ItemPath} (h : ofName? name = some path)
    : ∃ tail, Parts name path.list path.index tail := by
  unfold ofName? at h
  split at h
  . contradiction
  . next list rest hcut =>
    rw [cutAt?_eq_some_iff] at hcut
    have hrest := @List.takeWhile_append_dropWhile _ Bytes.isDigit rest
    have hindex : ∀ b ∈ rest.takeWhile Bytes.isDigit, Bytes.isDigit b = true :=
      fun b hb => List.mem_takeWhile_imp hb
    dsimp only at h
    split at h
    . contradiction
    . next hne =>
      split at h
      . next htail =>
        rw [Option.some.injEq] at h
        subst h
        refine ⟨[], ⟨?_, hcut.2, hne, hindex, .inl rfl⟩⟩
        rw [← htail, hrest]
        exact hcut.1
      . next b inner htail =>
        split at h
        . next hdot =>
          rw [Option.some.injEq] at h
          subst h
          refine ⟨b :: inner, ⟨?_, hcut.2, hne, hindex, .inr (by rw [hdot]; rfl)⟩⟩
          rw [← htail, hrest]
          exact hcut.1
        . contradiction

end ItemPath

namespace Context

variable {context : Context} {name index tail : Bytes} {items : List Context}

/-- The item that a name addresses in a context, with the name that it is asked for. -/
def addressed? (context : Context) (name : Bytes) : Except Failure (Option (Context × Bytes)) :=
  match ItemPath.ofName? name with
  | none => .ok none
  | some path => (context.item? path).map fun item? => item?.map fun item => (item, path.inner)

/-- The name is written as the address of an item, in a list with the given items. -/
def PointsInto (context : Context) (name index tail : Bytes) (items : List Context) : Prop :=
  ∃ list, ItemPath.Parts name list index tail ∧ context list = .list items

theorem addressed?_of_pointsInto (h : context.PointsInto name index tail items)
    : context.addressed? name
        =
      if Digits.limit < index.length then
        .error (.longIndex index.length)
      else
        .ok (items[ItemPath.decimal index]?.map fun item => (item, ItemPath.asked tail)) := by
  rcases h with ⟨list, hparts, hitems⟩
  unfold addressed? item?
  rw [ItemPath.ofName?_of_parts hparts]
  dsimp only
  rw [hitems, ItemPath.number_eq_decimal]
  dsimp only
  split <;> rfl

theorem addressed?_of_not_pointsInto (h : ∀ index tail items, ¬ context.PointsInto name index tail items)
    : context.addressed? name = .ok none := by
  unfold addressed?
  cases hpath : ItemPath.ofName? name with
  | none => rfl
  | some path =>
    rcases ItemPath.parts_of_ofName? hpath with ⟨tail, hparts⟩
    have hitem : context.item? path = .ok none := by
      unfold item?
      cases hlist : context path.list with
      | list items => exact absurd ⟨path.list, hparts, hlist⟩ (h path.index tail items)
      | _ => rfl
    dsimp only
    rw [hitem]
    rfl

theorem addressed?_eq_some_iff (next : Context × Bytes)
    : context.addressed? name = .ok (some next)
        ↔
      ∃ path, ItemPath.ofName? name = some path ∧ context.item? path = .ok (some next.1)
        ∧ path.inner = next.2 := by
  unfold addressed?
  cases ItemPath.ofName? name with
  | none => simp
  | some path =>
    cases hitem : context.item? path with
    | error => simp [hitem, Except.map]
    | ok item? =>
      cases item? with
      | none => simp [hitem, Except.map]
      | some item => simp [hitem, Except.map, Prod.ext_iff]

theorem exists_pointsInto {result : Except Failure (Option (Context × Bytes))}
    (h : context.addressed? name = result) (hresult : result ≠ .ok none)
    : ∃ index tail items, context.PointsInto name index tail items := by
  by_contra hnone
  apply hresult
  rw [← h]
  apply addressed?_of_not_pointsInto
  intro index tail items hpoints
  exact hnone ⟨index, tail, items, hpoints⟩

theorem addressed?_eq_some_iff_pointsInto (item : Context) (rest : Bytes)
    : context.addressed? name = .ok (some (item, rest))
        ↔
      ∃ index tail items, context.PointsInto name index tail items
        ∧ index.length ≤ Digits.limit
        ∧ items[ItemPath.decimal index]? = some item
        ∧ rest = ItemPath.asked tail := by
  constructor
  . intro h
    rcases exists_pointsInto h (by simp) with ⟨index, tail, items, hpoints⟩
    rw [addressed?_of_pointsInto hpoints] at h
    split at h
    . contradiction
    . simp only [Except.ok.injEq, Option.map_eq_some_iff, Prod.mk.injEq] at h
      rcases h with ⟨found, hfound, rfl, rfl⟩
      exact ⟨index, tail, items, hpoints, by omega, hfound, rfl⟩
  . rintro ⟨index, tail, items, hpoints, hshort, hitem, rfl⟩
    rw [addressed?_of_pointsInto hpoints, if_neg (by omega), hitem]
    rfl

theorem addressed?_eq_error_iff (failure : Failure)
    : context.addressed? name = .error failure
        ↔
      ∃ index tail items, context.PointsInto name index tail items
        ∧ Digits.limit < index.length
        ∧ failure = .longIndex index.length := by
  constructor
  . intro h
    rcases exists_pointsInto h (by simp) with ⟨index, tail, items, hpoints⟩
    rw [addressed?_of_pointsInto hpoints] at h
    split at h
    . next hlong =>
      rw [Except.error.injEq] at h
      exact ⟨index, tail, items, hpoints, hlong, h.symm⟩
    . contradiction
  . rintro ⟨index, tail, items, hpoints, hlong, rfl⟩
    rw [addressed?_of_pointsInto hpoints, if_pos hlong]

theorem addressed?_eq_none_iff
    : context.addressed? name = .ok none
        ↔
      ∀ index tail items, context.PointsInto name index tail items →
        index.length ≤ Digits.limit ∧ items.length ≤ ItemPath.decimal index := by
  constructor
  . intro h index tail items hpoints
    rw [addressed?_of_pointsInto hpoints] at h
    split at h
    . contradiction
    . rw [Except.ok.injEq, Option.map_eq_none_iff, List.getElem?_eq_none_iff] at h
      omega
  . intro h
    by_cases hpoints : ∃ index tail items, context.PointsInto name index tail items
    . rcases hpoints with ⟨index, tail, items, hpoints⟩
      have hpast := h index tail items hpoints
      rw [addressed?_of_pointsInto hpoints, if_neg (by omega), List.getElem?_eq_none hpast.2]
      rfl
    . apply addressed?_of_not_pointsInto
      intro index tail items hpoints'
      exact hpoints ⟨index, tail, items, hpoints'⟩

/-- A lookup that does not find the name goes on with the item that the name addresses. -/
def GoesOn (next current : Context × Bytes) : Prop :=
  current.1 current.2 = .absent ∧ current.1.addressed? current.2 = .ok (some next)

theorem GoesOn.length_lt {next current : Context × Bytes} (h : GoesOn next current)
    : next.2.length < current.2.length := by
  rcases (addressed?_eq_some_iff next).mp h.2 with ⟨path, hpath, _, hinner⟩
  rw [← hinner]
  exact ItemPath.inner_length_lt hpath

theorem GoesOn.read_eq {next current : Context × Bytes} (h : GoesOn next current)
    : Stack.read [current.1] current.2 = Stack.read [next.1] next.2 := by
  rcases (addressed?_eq_some_iff next).mp h.2 with ⟨path, hpath, hitem, hinner⟩
  rw [← hinner]
  apply Stack.read_of_descends
  exact .item h.1 hpath hitem (.here next.1 path.inner)

theorem acc_goesOn (current : Context × Bytes) : Acc GoesOn current := by
  have hwf := InvImage.wf (fun pair : Context × Bytes => pair.2.length) Nat.lt_wfRel.wf
  exact Subrelation.accessible GoesOn.length_lt (hwf.apply current)

/--
A name addresses an item exactly if it is written as the address of a position in a list, with no more digits
than a number may have. With more digits it is an error, if there is such a list, and in all other cases nothing
is addressed. A lookup that goes on with what is addressed does so only a finite number of times.
-/
theorem addressed?_exact (context : Context) (name : Bytes)
    : (∀ item rest, context.addressed? name = .ok (some (item, rest))
          ↔
        ∃ index tail items, context.PointsInto name index tail items
          ∧ index.length ≤ Digits.limit
          ∧ items[ItemPath.decimal index]? = some item
          ∧ rest = ItemPath.asked tail)
        ∧ (∀ failure, context.addressed? name = .error failure
            ↔
          ∃ index tail items, context.PointsInto name index tail items
            ∧ Digits.limit < index.length
            ∧ failure = .longIndex index.length)
        ∧ (context.addressed? name = .ok none
            ↔
          ∀ index tail items, context.PointsInto name index tail items →
            index.length ≤ Digits.limit ∧ items.length ≤ ItemPath.decimal index)
        ∧ (∀ next, GoesOn next (context, name) →
            next.2.length < name.length ∧ Stack.read [context] name = Stack.read [next.1] next.2)
        ∧ Acc GoesOn (context, name) := by
  refine ⟨?_, ?_, ?_, ?_, ?_⟩
  . exact addressed?_eq_some_iff_pointsInto
  . exact addressed?_eq_error_iff
  . exact addressed?_eq_none_iff
  . intro next h
    exact ⟨h.length_lt, h.read_eq⟩
  . exact acc_goesOn (context, name)

theorem addressed?_exact_leading_zeros
    : let item : Context := fun name =>
        if name = Bytes.ofAscii "b" then .list [fun _ => .flag true] else .absent
      let context : Context := fun name =>
        if name = Bytes.ofAscii "a" then .list [Context.empty, item] else .absent
      let name := Bytes.ofAscii "a.001.b.0"
      context.PointsInto name (Bytes.ofAscii "001") (Bytes.ofAscii ".b.0") [Context.empty, item]
        ∧ context.addressed? name = .ok (some (item, Bytes.ofAscii "b.0"))
        ∧ GoesOn (item, Bytes.ofAscii "b.0") (context, name)
        ∧ Stack.read [context] name = Stack.read [item] (Bytes.ofAscii "b.0") := by
  intro item context name
  have hexact := addressed?_exact context name
  have hpoints : context.PointsInto name (Bytes.ofAscii "001") (Bytes.ofAscii ".b.0") [Context.empty, item] := by
    refine ⟨Bytes.ofAscii "a", ?_, rfl⟩
    constructor <;> decide +kernel
  have haddressed : context.addressed? name = .ok (some (item, Bytes.ofAscii "b.0")) :=
    (hexact.1 item _).mpr ⟨_, _, _, hpoints, by decide, rfl, rfl⟩
  have hgoes : GoesOn (item, Bytes.ofAscii "b.0") (context, name) := ⟨rfl, haddressed⟩
  exact ⟨hpoints, haddressed, hgoes, (hexact.2.2.2.1 _ hgoes).2⟩

end Context

end Mustache
