import Mustache.Render

/-!
This module contains the algebra of runs: one run after another is associative, and what a run shows
is read off its parts.
-/

namespace Mustache

namespace Run

@[simp]
theorem done_andThen (second : Unit → Run) : done.andThen second = second () := by
  simp [andThen, done]

@[simp]
theorem fail_andThen (failure : Failure) (second : Unit → Run)
    : (fail failure).andThen second = fail failure := by
  rfl

@[simp]
theorem andThen_done (run : Run) : (run.andThen fun _ => done) = run := by
  rcases run with ⟨events, failure⟩
  cases failure with
  | none => simp [andThen, done]
  | some => simp [andThen]

theorem andThen_assoc (first : Run) (second third : Unit → Run)
    : (first.andThen second).andThen third
        =
      first.andThen fun _ => (second ()).andThen third := by
  rcases first with ⟨events, failure⟩
  cases failure with
  | some => simp [andThen]
  | none =>
    cases hsecond : (second ()).failure with
    | some => simp [andThen, hsecond]
    | none => simp [andThen, hsecond]

theorem andThen_of_ok {first : Run} (second : Unit → Run) (h : first.failure = none)
    : first.andThen second = ⟨first.events ++ (second ()).events, (second ()).failure⟩ := by
  simp only [andThen, h]

theorem andThen_of_failed {first : Run} (second : Unit → Run) (h : first.failure ≠ none)
    : first.andThen second = first := by
  cases hfailure : first.failure with
  | none => exact absurd hfailure h
  | some => simp only [andThen, hfailure]

theorem andThen_alike {first first' : Run} (second second' : Unit → Run)
    (h : first.failure = first'.failure)
    : first.andThen second = first ∧ first'.andThen second' = first'
        ∨ first.andThen second = ⟨first.events ++ (second ()).events, (second ()).failure⟩
          ∧ first'.andThen second' = ⟨first'.events ++ (second' ()).events, (second' ()).failure⟩ := by
  cases hfailure : first.failure with
  | some failure =>
    left
    rw [andThen_of_failed second (by simp [hfailure]), andThen_of_failed second' (by simp [← h, hfailure])]
    exact ⟨rfl, rfl⟩
  | none =>
    right
    rw [andThen_of_ok second hfailure, andThen_of_ok second' (h.symm.trans hfailure)]
    exact ⟨rfl, rfl⟩

theorem failure_andThen_eq_none_iff (first : Run) (second : Unit → Run)
    : (first.andThen second).failure = none
        ↔
      first.failure = none ∧ (second ()).failure = none := by
  cases hfailure : first.failure with
  | none => simp [andThen, hfailure]
  | some => simp [andThen, hfailure]

theorem emit_andThen (event : Event) (second : Unit → Run)
    : (emit event).andThen second = ⟨event :: (second ()).events, (second ()).failure⟩ := by
  rw [andThen_of_ok]
  . rfl
  . rfl

@[simp]
theorem each_nil (run : α → Run) : each [] run = done := by
  rfl

@[simp]
theorem each_cons (item : α) (items : List α) (run : α → Run)
    : each (item :: items) run = (run item).andThen fun _ => each items run := by
  rfl

theorem each_map (f : α → β) (items : List α) (run : β → Run)
    : each (items.map f) run = each items fun item => run (f item) := by
  induction items with
  | nil => rfl
  | cons item items ih => rw [List.map_cons, each_cons, each_cons, ih]

theorem failure_each_eq_none_iff (items : List α) (run : α → Run)
    : (each items run).failure = none ↔ ∀ item ∈ items, (run item).failure = none := by
  induction items with
  | nil => simp [done]
  | cons item items ih => rw [each_cons, failure_andThen_eq_none_iff, ih]; simp

theorem events_each {items : List α} {run : α → Run}
    (h : ∀ item ∈ items, (run item).failure = none)
    : (each items run).events = items.flatMap fun item => (run item).events := by
  induction items with
  | nil => rfl
  | cons item items ih =>
    rw [each_cons, andThen_of_ok]
    . rw [ih]
      . simp
      . intro other hother
        apply h
        exact List.mem_cons_of_mem _ hother
    . apply h
      simp

end Run

end Mustache
