import Mustache.Config.Basic
import Mustache.Proofs.Results

/-!
This module contains what becomes of configuration data: it is rejected, or it gives a configuration
that can be used, unless it holds a value of a kind that no check looks at.
-/

namespace Mustache

/-- Whether the error says that the configuration is invalid. -/
def ConfigError.isRejection : ConfigError → Bool
  | unset _ => true
  | notMapping _ => true
  | invalidEscape _ => true
  | fileNotMapping _ => true
  | _ => false

/-- The result is as it should be, or a rejection stands in its place. -/
def RejectedOr (P : α → Prop) : Except ConfigError α → Prop
  | .ok a => P a
  | .error error => error.isRejection = true

section

variable {P : α → Prop} {Q : β → Prop} {result : Except ConfigError α}

theorem rejectedOr_iff : RejectedOr P result
    ↔ RejectedOr (fun _ => True) result ∧ ∀ a, result = .ok a → P a := by
  cases result with
  | error => simp [RejectedOr]
  | ok => simp [RejectedOr]

theorem rejectedOr_bind (next : α → Except ConfigError β)
    : RejectedOr Q (result >>= next) ↔ RejectedOr (fun a => RejectedOr Q (next a)) result := by
  cases result with
  | error => rfl
  | ok => rfl

theorem rejectedOr_map (f : α → β)
    : RejectedOr Q (result.map f) ↔ RejectedOr (fun a => Q (f a)) result := by
  cases result with
  | error => rfl
  | ok => rfl

end

namespace Value

/-- The value can be looked up among the names that may be chosen, and be shown if it is none of them. -/
structure IsJudged (value : Value) : Prop where
  lookup : value.lookupFault? = none
  text : value.hasText = true

/-- A text, or a value that counts as missing. -/
def IsOptionalText (value : Value) : Prop :=
  value.isTrue = true → ∃ s, value = .text s

theorem isJudged_text (s : String) : IsJudged (.text s) where
  lookup := by simp [lookupFault?]
  text := by simp [hasText]

theorem not_isOptionalText_iff {value : Value}
    : ¬ value.IsOptionalText ↔ value.isTrue = true ∧ ∀ s, value ≠ .text s := by
  simp [IsOptionalText]

end Value

namespace Config

variable {env : Environment} {fields render : Fields} {config : Config}

section Loading

theorem escapeOf_of_not_text {value : Value} (h : ∀ s, value ≠ .text s)
    : escapeOf value = match value.lookupFault? with
        | some fault => .error (.escapeNotName fault)
        | none => if value.hasText then .error (.invalidEscape value.display) else .error .longEscape := by
  unfold escapeOf
  split
  . exact absurd rfl (h _)
  . rfl

/-- What is judged is a choice or rejected; for anything else reading the setting fails in another way. -/
theorem rejectedOr_escapeOf (value : Value)
    : RejectedOr (fun _ => True) (escapeOf value) ↔ value.IsJudged := by
  by_cases htext : ∃ s, value = .text s
  . rcases htext with ⟨s, rfl⟩
    simp only [Value.isJudged_text, iff_true]
    unfold escapeOf
    dsimp only
    split
    . trivial
    . rfl
  . rw [escapeOf_of_not_text (not_exists.mp htext)]
    constructor
    . intro h
      split at h
      . contradiction
      . next hlookup =>
        split at h
        . next hshown => exact ⟨hlookup, hshown⟩
        . contradiction
    . rintro ⟨hlookup, hshown⟩
      rw [hlookup, hshown]
      rfl

theorem rejectedOr_section? (fields : Fields) (name : String)
    : RejectedOr (fun _ => True) (section? fields name) := by
  unfold section?
  split
  . trivial
  . split
    . split
      . trivial
      . rfl
    . trivial

/-- The escaping that a section on rendering chooses. -/
def chosenEscape (render : Fields) : Except ConfigError Escape :=
  match render.find? "escape" with
  | none => .ok .html
  | some value => escapeOf value

theorem rejectedOr_chosenEscape (render : Fields)
    : RejectedOr (fun _ => True) (chosenEscape render)
        ↔ ∀ value, render.find? "escape" = some value → value.IsJudged := by
  unfold chosenEscape
  cases render.find? "escape" with
  | none => simp [RejectedOr]
  | some value => simp [rejectedOr_escapeOf]

theorem withRender_eq (render : Fields)
    : standard.withRender render = (chosenEscape render).map fun escape =>
        ⟨escape, render.get "partials_dir", render.get "partials_ext", .null, none⟩ := by
  unfold withRender chosenEscape
  cases render.find? "escape" with
  | none => rfl
  | some value =>
    dsimp only
    cases escapeOf value <;> rfl

/-- The fields of a section in which references are replaced. A missing section has none. -/
def readSection (env : Environment) (fields : Fields) (name : String)
    : Except ConfigError Fields := do
  let fields ← (env.substituteFields fields).mapError .unset
  (section? fields name).map (·.getD [])

theorem rejectedOr_readSection (env : Environment) (fields : Fields) (name : String)
    : RejectedOr (fun _ => True) (readSection env fields name) := by
  unfold readSection
  cases env.substituteFields fields with
  | error => rfl
  | ok expanded => exact (rejectedOr_map _).mpr (rejectedOr_section? expanded name)

theorem ofFields_eq (env : Environment) (fields : Fields)
    : ofFields env fields = (do
        let render ← readSection env fields "render"
        let escape ← chosenEscape render
        (readSection env fields "output").map fun output =>
          ⟨escape, render.get "partials_dir", render.get "partials_ext", output.get "path", none⟩) := by
  unfold ofFields read readSection
  cases env.substituteFields fields with
  | error => rfl
  | ok expanded =>
    dsimp only [Except.mapError, bind, Except.bind]
    cases section? expanded "render" with
    | error => rfl
    | ok render? =>
      cases render? with
      -- An empty section chooses the standard escaping, so it stands for a missing one.
      | none => rcases section? expanded "output" with _ | (_ | output) <;> rfl
      | some render =>
        dsimp only [Except.map, Option.getD]
        rw [withRender_eq]
        cases chosenEscape render with
        | error => rfl
        | ok escape => rcases section? expanded "output" with _ | (_ | output) <;> rfl

/-- Of all settings only the escaping makes reading the data fail with anything but a rejection. -/
theorem rejectedOr_ofFields (env : Environment) (fields : Fields)
    : RejectedOr (fun _ => True) (ofFields env fields)
        ↔ ∀ render, readSection env fields "render" = .ok render →
            ∀ value, render.find? "escape" = some value → value.IsJudged := by
  have hrender := rejectedOr_readSection env fields "render"
  have houtput := rejectedOr_readSection env fields "output"
  rw [ofFields_eq, rejectedOr_bind]
  generalize readSection env fields "render" = render? at hrender ⊢
  cases render? with
  | error => simpa [RejectedOr] using hrender
  | ok render =>
    simp only [Except.ok.injEq, forall_eq', ← rejectedOr_chosenEscape]
    change RejectedOr _ (chosenEscape render >>= _) ↔ _
    rw [rejectedOr_bind]
    simp only [rejectedOr_map]
    cases chosenEscape render with
    | error => rfl
    | ok escape => exact iff_of_true houtput trivial

theorem ofFields_ok (h : ofFields env fields = .ok config)
    : ∃ render, readSection env fields "render" = .ok render
        ∧ config.directory = render.get "partials_dir"
        ∧ config.extension = render.get "partials_ext" := by
  rw [ofFields_eq] at h
  rcases bind_eq_ok h with ⟨render, hrender, h⟩
  rcases bind_eq_ok h with ⟨escape, _, h⟩
  refine ⟨render, hrender, ?_⟩
  cases houtput : readSection env fields "output" with
  | error =>
    rw [houtput] at h
    contradiction
  | ok output =>
    rw [houtput] at h
    injection h with h
    rw [← h]
    exact ⟨rfl, rfl⟩

end Loading

section Using

/-- Settings can be made of the configuration, and they have a path for every partial. -/
def IsUsable (config : Config) : Prop :=
  ∃ settings, config.settings = .ok settings ∧ ∀ name, ∃ path, settings.partialPath name = .ok path

theorem partialsDirectory_of_not_text (h : ¬ config.directory.IsOptionalText)
    : config.partialsDirectory = .error (.directoryNotText config.directory.typeName) := by
  rcases Value.not_isOptionalText_iff.mp h with ⟨htrue, htext⟩
  unfold partialsDirectory
  rw [if_pos htrue]
  split
  . exact absurd ‹_› (htext _)
  . exact absurd ‹_› (htext _)
  . rfl

theorem partialsDirectory_of_text (h : config.directory.IsOptionalText)
    : ∃ directory, config.partialsDirectory = .ok directory := by
  unfold partialsDirectory
  split
  . next htrue =>
    rcases h htrue with ⟨s, hs⟩
    rw [hs]
    cases config.path with
    | none => exact ⟨_, rfl⟩
    | some path => exact ⟨_, rfl⟩
  . exact ⟨_, rfl⟩

theorem partialPath_of_not_text {settings : Settings} (h : ¬ settings.extension.IsOptionalText)
    (name : String)
    : settings.partialPath name = .error (.badExtension settings.extension.qualifiedTypeName) := by
  rcases Value.not_isOptionalText_iff.mp h with ⟨htrue, htext⟩
  unfold Settings.partialPath
  split
  . exact absurd ‹_› (htext _)
  . rw [if_pos htrue]
    rfl

theorem partialPath_of_text {settings : Settings} (h : settings.extension.IsOptionalText) (name : String)
    : ∃ path, settings.partialPath name = .ok path := by
  unfold Settings.partialPath
  split
  . exact ⟨_, rfl⟩
  . next hne =>
    have hfalse : ¬ settings.extension.isTrue = true := by
      intro htrue
      rcases h htrue with ⟨s, hs⟩
      exact hne s hs
    rw [if_neg hfalse]
    exact ⟨_, rfl⟩

theorem isUsable_iff (config : Config)
    : config.IsUsable ↔ config.directory.IsOptionalText ∧ config.extension.IsOptionalText := by
  unfold IsUsable settings
  constructor
  . rintro ⟨settings, hsettings, hpath⟩
    have hdirectory : config.directory.IsOptionalText := by
      apply Classical.byContradiction
      intro h
      rw [partialsDirectory_of_not_text h] at hsettings
      contradiction
    rcases partialsDirectory_of_text hdirectory with ⟨directory, heq⟩
    rw [heq] at hsettings
    injection hsettings with hsettings
    refine ⟨hdirectory, ?_⟩
    apply Classical.byContradiction
    intro h
    rcases hpath "" with ⟨path, hpath⟩
    rw [← hsettings, partialPath_of_not_text h] at hpath
    contradiction
  . rintro ⟨hdirectory, hextension⟩
    rcases partialsDirectory_of_text hdirectory with ⟨directory, heq⟩
    rw [heq]
    exact ⟨_, rfl, fun name => partialPath_of_text hextension name⟩

end Using

/--
Configuration data is rejected or gives a configuration that can be used, unless its section on rendering
chooses the escaping by a value that cannot be judged, or sets the directory of partials or their
extension to a value that is neither a text nor false. These are not checked when the data is read.
-/
theorem rejectedOr_isUsable_iff (env : Environment) (fields : Fields)
    : RejectedOr IsUsable (ofFields env fields)
        ↔ ∀ render, readSection env fields "render" = .ok render →
            (∀ value, render.find? "escape" = some value → value.IsJudged)
              ∧ ∀ config, ofFields env fields = .ok config →
                  (render.get "partials_dir").IsOptionalText ∧ (render.get "partials_ext").IsOptionalText := by
  rw [rejectedOr_iff, rejectedOr_ofFields]
  constructor
  . rintro ⟨hescape, husable⟩ render hread
    refine ⟨hescape render hread, ?_⟩
    intro config hconfig
    -- The settings of `config` are those of `render`, as there is only one section on rendering.
    rcases ofFields_ok hconfig with ⟨_, hread', hdirectory, hextension⟩
    injection hread.symm.trans hread' with heq
    rw [heq, ← hdirectory, ← hextension, ← isUsable_iff]
    exact husable config hconfig
  . intro h
    refine ⟨fun render hread => (h render hread).1, ?_⟩
    intro config hconfig
    rcases ofFields_ok hconfig with ⟨render, hread, hdirectory, hextension⟩
    rw [isUsable_iff, hdirectory, hextension]
    exact (h render hread).2 config hconfig

example
    : ofFields [] [(.text "render", .record .mapping [(.text "escape", .list [])])]
        = .error (.escapeNotName (.changeable "list")) := by
  rfl

end Config

end Mustache
