import Mustache.Command.Options

/-!
This module contains what the reading of options does with arguments that are put together, and with
settings that differ.
-/

namespace Mustache.Command

variable {α : Type} {R : α → α → Prop}

/-- Settings that are related stay so. -/
def Effect.Preserves (R : α → α → Prop) : Effect α → Prop
  | .flag set => ∀ settings settings', R settings settings' → R (set settings) (set settings')
  | .value set => ∀ text settings settings', R settings settings' →
      R (set text settings) (set text settings')

/-- The same is known after an argument, except that settings are related. -/
inductive Reading.Related (R : α → α → Prop) : Reading α → Reading α → Prop where
  | complete {settings settings' : α} (h : R settings settings')
    : Related R (.complete settings) (.complete settings')
  | pending {set : String → α → α} {settings settings' : α} (hset : (Effect.value set).Preserves R)
      (h : R settings settings')
    : Related R (.pending set settings) (.pending set settings')
  | refused : Related R .refused .refused

namespace Switch

variable {switches : List (Switch α)} {settings settings' last : α} {others : List String}
  {interspersed : Bool}

theorem readLetters_related (hswitches : ∀ switch ∈ switches, switch.effect.Preserves R)
    (h : R settings settings') (letters : List Char)
    : (readLetters switches settings letters).Related R (readLetters switches settings' letters) := by
  induction letters generalizing settings settings' with
  | nil => exact .complete h
  | cons letter rest ih =>
    unfold readLetters
    split
    . exact .refused
    . next switch hfind =>
      have hset := hswitches switch (List.mem_of_find?_eq_some hfind)
      cases heffect : switch.effect with
      | flag set =>
        rw [heffect] at hset
        exact ih (hset _ _ h)
      | value set =>
        rw [heffect] at hset
        dsimp only
        split
        . exact .pending hset h
        . exact .complete (hset _ _ _ h)

theorem readName_related (hswitches : ∀ switch ∈ switches, switch.effect.Preserves R)
    (h : R settings settings') (text : List Char)
    : (readName switches settings text).Related R (readName switches settings' text) := by
  unfold readName
  dsimp only
  split
  . exact .refused
  . next switch hfind =>
    have hset := hswitches switch (List.mem_of_find?_eq_some hfind)
    cases heffect : switch.effect with
    | flag set =>
      rw [heffect] at hset
      split
      . next heq _ =>
        injection heq with heq
        subst heq
        exact .complete (hset _ _ h)
      . exact .refused
      . next heq _ => injection heq
      . next heq _ => injection heq
    | value set =>
      rw [heffect] at hset
      split
      . next heq _ => injection heq
      . next heq _ => injection heq
      . next heq _ =>
        injection heq with heq
        subst heq
        exact .pending hset h
      . next heq _ =>
        injection heq with heq
        subst heq
        exact .complete (hset _ _ _ h)

theorem read?_related (hswitches : ∀ switch ∈ switches, switch.effect.Preserves R)
    (h : R settings settings') (arg : String)
    : Option.Rel (Reading.Related R) (read? switches settings arg) (read? switches settings' arg) := by
  unfold read?
  split
  . exact .some (readName_related hswitches h _)
  . exact .some (readLetters_related hswitches h _)
  . exact .none

/-- What is understood does not depend on the settings to begin with. -/
theorem readAll?_related (hswitches : ∀ switch ∈ switches, switch.effect.Preserves R)
    (h : R settings settings') {args : List String}
    (hread : readAll? switches interspersed settings args = some (last, others))
    : ∃ last', readAll? switches interspersed settings' args = some (last', others) ∧ R last last' := by
  fun_induction readAll? switches interspersed settings args generalizing settings' others with
  | case1 settings =>
    cases hread
    exact ⟨settings', rfl, h⟩
  | case2 settings rest =>
    cases hread
    refine ⟨settings', ?_, h⟩
    rw [readAll?, if_pos rfl]
  | case3 settings arg rest harg middle hmiddle ih =>
    have hrelated := read?_related hswitches h arg
    rw [hmiddle] at hrelated
    rw [readAll?, if_neg harg]
    generalize read? switches settings' arg = reading at hrelated
    cases hrelated with
    | some hrelated =>
      cases hrelated with
      | complete h' => exact ih h' hread
  | case4 => contradiction
  | case5 settings arg harg set middle hmiddle value rest ih =>
    have hrelated := read?_related hswitches h arg
    rw [hmiddle] at hrelated
    rw [readAll?, if_neg harg]
    generalize read? switches settings' arg = reading at hrelated
    cases hrelated with
    | some hrelated =>
      cases hrelated with
      | pending hset h' => exact ih (hset _ _ _ h') hread
  | case6 => contradiction
  | case7 settings arg rest harg hnone hinterspersed ih =>
    have hrelated := read?_related hswitches h arg
    rw [hnone] at hrelated
    rw [readAll?, if_neg harg]
    generalize read? switches settings' arg = reading at hrelated
    cases hrelated with
    | none =>
      rcases Option.map_eq_some_iff.mp hread with ⟨⟨last, others⟩, hrest, heq⟩
      cases heq
      rcases ih h hrest with ⟨last', hrest', hlast⟩
      refine ⟨last', ?_, hlast⟩
      dsimp only
      rw [if_pos hinterspersed, hrest']
      rfl
  | case8 settings arg rest harg hnone hinterspersed =>
    have hrelated := read?_related hswitches h arg
    rw [hnone] at hrelated
    rw [readAll?, if_neg harg]
    generalize read? switches settings' arg = reading at hrelated
    cases hrelated with
    | none =>
      cases hread
      dsimp only
      rw [if_neg hinterspersed]
      exact ⟨settings', rfl, h⟩

theorem readAll?_cons_name {front : List String} {name : String} (hends : name ≠ "--")
    (hname : ∀ settings, read? switches settings name = none)
    (h : readAll? switches false settings front = some (last, [])) (args : List String)
    : readAll? switches false settings (front ++ name :: args) = some (last, name :: args) := by
  fun_induction readAll? switches false settings front with
  | case1 settings =>
    cases h
    rw [List.nil_append, readAll?, if_neg hends, hname]
    rfl
  | case2 settings rest =>
    cases h
    rw [List.cons_append, readAll?, if_pos rfl]
    rfl
  | case3 settings arg rest harg middle hmiddle ih =>
    rw [List.cons_append, readAll?, if_neg harg, hmiddle]
    exact ih h
  | case4 => contradiction
  | case5 settings arg harg set middle hmiddle value rest ih =>
    rw [List.cons_append, readAll?, if_neg harg, hmiddle]
    exact ih h
  | case6 => contradiction
  | case7 => contradiction
  | case8 => cases h

/-- Where options are read up to a name, those in front of it are understood by themselves. -/
theorem readAll?_split {args : List String}
    (h : readAll? switches false settings args = some (last, others))
    : ∃ front, args = front ++ others ∧ readAll? switches false settings front = some (last, []) := by
  fun_induction readAll? switches false settings args with
  | case1 settings =>
    cases h
    exact ⟨[], rfl, by rw [readAll?]⟩
  | case2 settings rest =>
    cases h
    exact ⟨["--"], rfl, by rw [readAll?, if_pos rfl]⟩
  | case3 settings arg rest harg middle hmiddle ih =>
    rcases ih h with ⟨front, rfl, hfront⟩
    refine ⟨arg :: front, rfl, ?_⟩
    rw [readAll?, if_neg harg, hmiddle]
    exact hfront
  | case4 => contradiction
  | case5 settings arg harg set middle hmiddle value rest ih =>
    rcases ih h with ⟨front, rfl, hfront⟩
    refine ⟨arg :: value :: front, rfl, ?_⟩
    rw [readAll?, if_neg harg, hmiddle]
    exact hfront
  | case6 => contradiction
  | case7 => contradiction
  | case8 settings arg rest =>
    cases h
    exact ⟨[], rfl, by rw [readAll?]⟩

end Switch

end Mustache.Command
