import Mustache.Bytes

/-!
This module contains results that may be errors: what a computation of several steps comes to.
-/

namespace Mustache

variable {ε ε' ε'' α β : Type}

theorem bind_eq_ok {result : Except ε α} {next : α → Except ε β} {b : β} (h : result >>= next = .ok b)
    : ∃ a, result = .ok a ∧ next a = .ok b := by
  cases result with
  | error => contradiction
  | ok a => exact ⟨a, rfl, h⟩

theorem map_eq_ok {result : Except ε α} {f : α → β} {b : β} (h : result.map f = .ok b)
    : ∃ a, result = .ok a ∧ f a = b := by
  cases result with
  | error => contradiction
  | ok a =>
    injection h with h
    exact ⟨a, rfl, h⟩

theorem map_eq_error_iff {result : Except ε α} {f : α → β} {error : ε}
    : result.map f = .error error ↔ result = .error error := by
  cases result <;> simp [Except.map]

theorem map_isOk_iff {result : Except ε α} {f : α → β}
    : (∃ b, result.map f = .ok b) ↔ ∃ a, result = .ok a := by
  cases result <;> simp [Except.map]

theorem mapError_mapError (result : Except ε α) (f : ε → ε') (g : ε' → ε'')
    : (result.mapError f).mapError g = result.mapError (g ∘ f) := by
  cases result <;> rfl

theorem mapError_map (result : Except ε α) (f : ε → ε') (g : α → β)
    : (result.map g).mapError f = (result.mapError f).map g := by
  cases result <;> rfl

theorem bind_mapError_congr {result result' : Except ε α} {next next' : α → Except ε β} {f : ε → ε'}
    (h : result.mapError f = result'.mapError f) (hnext : ∀ a, (next a).mapError f = (next' a).mapError f)
    : (result >>= next).mapError f = (result' >>= next').mapError f := by
  cases result with
  | error error =>
    cases result' with
    | error error' =>
      injection h with h
      exact congrArg Except.error h
    | ok a => contradiction
  | ok a =>
    cases result' with
    | error error => contradiction
    | ok a' =>
      injection h with h
      rw [← h]
      exact hnext a

theorem map_both_eq_mapError {α' β' γ γ' : Type} {first : Except ε' α} {first' : Except ε α'} {second : Except ε' β}
    {second' : Except ε β'} {e : ε → ε'} {f : α → α'} {g : β → β'} {h : γ → γ'} {both : α → β → γ}
    {both' : α' → β' → γ'} (hfirst : first.map f = first'.mapError e) (hsecond : second.map g = second'.mapError e)
    (hboth : ∀ a b, h (both a b) = both' (f a) (g b))
    : (do
        let a ← first
        let b ← second
        return both a b).map h
        =
      (do
        let a ← first'
        let b ← second'
        return both' a b).mapError e := by
  cases first with
  | error error =>
    cases first' with
    | error error' =>
      injection hfirst with hfirst
      exact congrArg Except.error hfirst
    | ok a => contradiction
  | ok a =>
    cases first' with
    | error error' => contradiction
    | ok a' =>
      injection hfirst with hfirst
      subst hfirst
      cases second with
      | error error =>
        cases second' with
        | error error' =>
          injection hsecond with hsecond
          exact congrArg Except.error hsecond
        | ok b => contradiction
      | ok b =>
        cases second' with
        | error error' => contradiction
        | ok b' =>
          injection hsecond with hsecond
          subst hsecond
          exact congrArg Except.ok (hboth a b)

theorem forM_eq_ok_iff {f : α → Except ε Unit} {l : List α}
    : l.forM f = .ok () ↔ ∀ a ∈ l, f a = .ok () := by
  induction l with
  | nil => simp [List.forM, pure, Except.pure]
  | cons a rest ih =>
    have hstep : (a :: rest).forM f = (f a).bind fun _ => rest.forM f := rfl
    rw [hstep]
    cases ha : f a with
    | error e => simp [Except.bind, ha]
    | ok _ => simpa [Except.bind, ha] using ih

/-- Where one step fails and all others would succeed, its error is that of the whole. -/
theorem forM_eq_error {f : α → Except ε Unit} {l : List α} {a : α} {e : ε} (hmem : a ∈ l)
    (herror : f a = .error e) (hothers : ∀ b ∈ l, f b = .ok () ∨ b = a)
    : l.forM f = .error e := by
  induction l with
  | nil => contradiction
  | cons b rest ih =>
    have hstep : (b :: rest).forM f = (f b).bind fun _ => rest.forM f := rfl
    rw [hstep]
    rcases hothers b List.mem_cons_self with hok | rfl
    . rw [hok]
      apply ih
      . rcases List.mem_cons.mp hmem with rfl | hmem
        . rw [herror] at hok
          contradiction
        . exact hmem
      . intro c hc
        exact hothers c (List.mem_cons_of_mem _ hc)
    . rw [herror]
      rfl

end Mustache
