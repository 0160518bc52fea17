import Mustache.Command.Line
import Mustache.Command.Reader
import Mustache.Proofs.Files

/-!
This module contains what command lines do to files. A run that fails leaves all files as they are, and
a run that succeeds changes at most one: the file that it is asked to write.
-/

namespace Mustache.Command

@[simp]
theorem Outcome.workspace_after (remarks : List Log.Remark) (outcome : Outcome)
    : (outcome.after remarks).workspace = outcome.workspace := by
  rfl

/-- The command fails and prints nothing. Its files are those of `w`. -/
structure Outcome.Fails (w : Workspace) (outcome : Outcome) : Prop where
  code : outcome.ending.code = 1
  output : outcome.output = []
  workspace : outcome.workspace = w

theorem fails_fault (w : Workspace) (fault : Fault) : (Outcome.ended w (.fault fault)).Fails w :=
  ⟨rfl, rfl, rfl⟩

theorem fails_failed (w : Workspace) (message : Text) : (Outcome.failed w message).Fails w :=
  ⟨rfl, rfl, rfl⟩

theorem Outcome.Fails.after {w : Workspace} {outcome : Outcome} (h : outcome.Fails w)
    (remarks : List Log.Remark)
    : (outcome.after remarks).Fails w :=
  ⟨h.code, h.output, h.workspace⟩

namespace RenderOptions

variable {options : RenderOptions} {loader : Loader} {w : Workspace} {config : Config}

/-- Settings and data can be had, and with them the template renders to `output`. -/
def Renders (options : RenderOptions) (loader : Loader) (w : Workspace) (config : Config) (output : Bytes) : Prop :=
  ∃ settings data, options.settings config = .ok settings
    ∧ options.loadData loader w = .ok data
    ∧ (settings.renderFile w options.template (.ofData data)).answer = .ok output

theorem withoutData_fails (w : Workspace) (error : DataError) : (withoutData w error).Fails w := by
  unfold withoutData
  split
  . split
    . apply fails_failed
    . apply fails_fault
  . apply fails_failed

theorem perform_of_renders {output : Bytes} (h : options.Renders loader w config output)
    : ∃ remarks, options.perform loader w config = (options.deliver w config output).after remarks := by
  rcases h with ⟨settings, data, hsettings, hdata, hanswer⟩
  unfold perform finish
  rw [hsettings, hdata]
  dsimp only
  rw [hanswer]
  exact ⟨_, rfl⟩

theorem perform_fails (h : ∀ output, ¬ options.Renders loader w config output)
    : (options.perform loader w config).Fails w := by
  unfold perform
  split
  . apply fails_fault
  . next settings hsettings =>
    split
    . apply withoutData_fails
    . next data hdata =>
      apply Outcome.Fails.after
      unfold finish
      split
      . next output hanswer => exact absurd ⟨settings, data, hsettings, hdata, hanswer⟩ (h output)
      . apply fails_failed
      . apply fails_fault

theorem writeOutput_cases (options : RenderOptions) (w : Workspace) (path : Path) (output : Bytes)
    : (∃ w', w.Grows w' ∧ (options.writeOutput w path output).Fails w')
        ∨ (options.writeOutput w path output).ending = .success
          ∧ (options.writeOutput w path output).output = []
          ∧ w.Replaces (options.writeOutput w path output).workspace path output := by
  have hgrows := w.grows_ensureDirectories path.parent
  unfold writeOutput
  split
  . next w' error heq =>
    rw [heq] at hgrows
    exact .inl ⟨w', hgrows, fails_fault _ _⟩
  . next w' heq =>
    rw [heq] at hgrows
    split
    . exact .inl ⟨w', hgrows, fails_fault _ _⟩
    . next hwrite => exact .inr ⟨rfl, rfl, hgrows.replaces hwrite⟩

theorem perform_of_no_path (h : ∀ path, options.outputPath config ≠ .ok (some path))
    : (options.perform loader w config).workspace = w := by
  by_cases hrenders : ∃ output, options.Renders loader w config output
  . rcases hrenders with ⟨output, hrenders⟩
    rcases perform_of_renders hrenders with ⟨remarks, heq⟩
    rw [heq, Outcome.workspace_after]
    unfold deliver
    split
    . rfl
    . rfl
    . next path hpath => exact absurd hpath (h path)
  . exact (perform_fails (not_exists.mp hrenders)).workspace

theorem perform_of_path {path : Path} (loader : Loader) (w : Workspace)
    (hpath : options.outputPath config = .ok (some path))
    : (∃ w', w.Grows w' ∧ (options.perform loader w config).Fails w')
        ∨ ∃ output, options.Renders loader w config output
          ∧ (options.perform loader w config).ending = .success
          ∧ (options.perform loader w config).output = []
          ∧ w.Replaces (options.perform loader w config).workspace path output := by
  by_cases hrenders : ∃ output, options.Renders loader w config output
  . rcases hrenders with ⟨output, hrenders⟩
    rcases perform_of_renders hrenders with ⟨remarks, heq⟩
    unfold deliver at heq
    rw [hpath] at heq
    rw [heq]
    rcases options.writeOutput_cases w path output with ⟨w', hgrows, hfails⟩ | hwritten
    . exact .inl ⟨w', hgrows, hfails.after remarks⟩
    . exact .inr ⟨output, hrenders, hwritten⟩
  . exact .inl ⟨w, .refl w, perform_fails (not_exists.mp hrenders)⟩

end RenderOptions

namespace InitOptions

variable {options : InitOptions} {w : Workspace}

theorem writeConfig_cases (options : InitOptions) (w : Workspace)
    : (options.writeConfig w).Fails w
        ∨ (options.writeConfig w).ending = .success
          ∧ w.Replaces (options.writeConfig w).workspace Config.hiddenFile (Utf8.encode Config.template)
          ∧ (options.force = true ∨ ∀ node, w.stat Config.hiddenFile.text ≠ .ok node) := by
  unfold writeConfig
  dsimp only
  split
  . exact .inl (fails_fault _ _)
  . next found hfound =>
    split
    . exact .inl (fails_failed _ _)
    . next hkept =>
      split
      . exact .inl (fails_fault _ _)
      . next hwrite =>
        refine .inr ⟨rfl, (Workspace.Grows.refl w).replaces hwrite, ?_⟩
        by_cases hforce : options.force = true
        . exact .inl hforce
        . right
          intro node hnode
          apply hkept
          unfold Workspace.find? at hfound
          rw [hnode] at hfound
          injection hfound with hfound
          simp [← hfound, hforce]

theorem perform_cases (options : InitOptions) (w : Workspace)
    : (∃ w', w.Grows w' ∧ (options.perform w).Fails w')
        ∨ (options.perform w).ending = .success
          ∧ w.Replaces (options.perform w).workspace Config.hiddenFile (Utf8.encode Config.template)
          ∧ (options.force = true ∨ ∀ node, w.stat Config.hiddenFile.text ≠ .ok node) := by
  unfold perform
  split
  . exact .inl ⟨w, .refl w, fails_fault _ _⟩
  . next w₁ hhidden =>
    have hgrows := Workspace.grows_of_ensureDirectory hhidden
    split
    . exact .inl ⟨w₁, hgrows, fails_fault _ _⟩
    . next w₂ hpartials =>
      have hgrows := hgrows.trans (Workspace.grows_of_ensureDirectory hpartials)
      rcases options.writeConfig_cases w₂ with hfails | ⟨hending, hreplaces, hkept⟩
      . exact .inl ⟨w₂, hgrows, hfails⟩
      . refine .inr ⟨hending, hgrows.then_replaces hreplaces, ?_⟩
        rcases hkept with hforce | hnone
        . exact .inl hforce
        . right
          intro node hnode
          exact hnone node (hgrows.stat_eq_ok hnode)

end InitOptions

theorem ValidateOptions.workspace_perform (options : ValidateOptions) (w : Workspace)
    : (options.perform w).workspace = w := by
  unfold perform
  dsimp only
  rw [Outcome.workspace_after]
  split <;> rfl

theorem workspace_withoutConfig (w : Workspace) (error : ConfigError)
    : (withoutConfig w error).workspace = w := by
  unfold withoutConfig
  split
  any_goals rfl
  split <;> rfl

/-- The command line is understood, and the configuration that it is run with can be read. -/
def Asks (lib : Libraries) (w : Workspace) (vars : Variables) (args : List String) (request : Request)
    (config : Config)
    : Prop :=
  ∃ call, lib.reader.invocation w args = .ok (.call call)
    ∧ Config.load lib.loader w vars call.config true = .ok config
    ∧ lib.reader.request w call.name call.args = .ok request

/-- The result is that of the outcome, whatever the log says. -/
structure Result.Shows (result : Result) (outcome : Outcome) : Prop where
  ending : result.ending = outcome.ending
  output : result.output = outcome.output
  workspace : result.workspace = outcome.workspace

section

variable {lib : Libraries} {w : Workspace} {vars : Variables} {args : List String} {request : Request} {config : Config}

theorem run_of_asks (h : Asks lib w vars args request config) (time : Time) (terminal : Bool)
    : (run lib w vars time terminal args).Shows (request.perform lib.loader w config) := by
  rcases h with ⟨call, hcall, hconfig, hrequest⟩
  unfold run
  rw [hcall]
  dsimp only [Invocation.perform, Call.perform]
  rw [hconfig, hrequest]
  exact ⟨rfl, rfl, rfl⟩

theorem workspace_run_of_not_asks (h : ∀ request config, ¬ Asks lib w vars args request config)
    (time : Time) (terminal : Bool)
    : (run lib w vars time terminal args).workspace = w := by
  unfold run
  split
  . rfl
  . next invocation hinvocation =>
    cases invocation with
    | version => rfl
    | help text => rfl
    | call call =>
      dsimp only [Invocation.perform, Call.perform]
      cases hconfig : Config.load lib.loader w vars call.config true with
      | error error => exact workspace_withoutConfig w error
      | ok config =>
        cases hrequest : lib.reader.request w call.name call.args with
        | error refusal => rfl
        | ok request => exact absurd ⟨call, hinvocation, hconfig, hrequest⟩ (h request config)

theorem Asks.unique {request' : Request} {config' : Config} (h : Asks lib w vars args request config)
    (h' : Asks lib w vars args request' config')
    : request = request' ∧ config = config' := by
  rcases h with ⟨call, hcall, hconfig, hrequest⟩
  rcases h' with ⟨call', hcall', hconfig', hrequest'⟩
  rw [hcall] at hcall'
  injection hcall' with hcall'
  injection hcall' with hcall'
  subst hcall'
  rw [hconfig] at hconfig'
  rw [hrequest] at hrequest'
  exact ⟨Except.ok.inj hrequest', Except.ok.inj hconfig'⟩

theorem grows_of_failed (request : Request) (loader : Loader) (w : Workspace) (config : Config)
    (h : (request.perform loader w config).ending.code ≠ 0)
    : w.Grows (request.perform loader w config).workspace := by
  have hsame : ∀ outcome : Outcome, outcome.workspace = w → w.Grows outcome.workspace := by
    intro outcome heq
    rw [heq]
    exact .refl w
  cases request with
  | render options =>
    by_cases hpath : ∃ path, options.outputPath config = .ok (some path)
    . rcases hpath with ⟨path, hpath⟩
      rcases options.perform_of_path loader w hpath with ⟨w', hgrows, hfails⟩ | ⟨_, _, hending, _⟩
      . change w.Grows (options.perform loader w config).workspace
        rw [hfails.workspace]
        exact hgrows
      . change (options.perform loader w config).ending.code ≠ 0 at h
        rw [hending] at h
        contradiction
    . exact hsame _ (options.perform_of_no_path (not_exists.mp hpath))
  | validate options => exact hsame _ (options.workspace_perform w)
  | init options =>
    rcases options.perform_cases w with ⟨w', hgrows, hfails⟩ | ⟨hending, _⟩
    . change w.Grows (options.perform w).workspace
      rw [hfails.workspace]
      exact hgrows
    . change (options.perform w).ending.code ≠ 0 at h
      rw [hending] at h
      contradiction
  | help text => exact .refl w

end

/-- What a run may do to the files that it is started with. -/
structure Footprint (lib : Libraries) (w : Workspace) (vars : Variables) (args : List String) (result : Result)
    : Prop where
  failed : result.ending.code ≠ 0 → w.Grows result.workspace
  written : ∀ options config path, Asks lib w vars args (.render options) config →
    options.outputPath config = .ok (some path) → result.ending.code = 0 →
      ∃ output, options.Renders lib.loader w config output
        ∧ result.output = []
        ∧ w.Replaces result.workspace path output
  unrendered : ∀ options config, Asks lib w vars args (.render options) config →
    (∀ output, ¬ options.Renders lib.loader w config output) → result.ending.code ≠ 0
  initialized : ∀ options config, Asks lib w vars args (.init options) config → result.ending.code = 0 →
    w.Replaces result.workspace Config.hiddenFile (Utf8.encode Config.template)
  kept : ∀ options config node, Asks lib w vars args (.init options) config → options.force = false →
    w.stat Config.hiddenFile.text = .ok node →
      result.ending.code ≠ 0 ∧ result.workspace.stat Config.hiddenFile.text = .ok node
  otherwise : (∀ options config path, Asks lib w vars args (.render options) config →
      options.outputPath config ≠ .ok (some path)) →
    (∀ options config, ¬ Asks lib w vars args (.init options) config) → result.workspace = w

theorem footprint_run (lib : Libraries) (w : Workspace) (vars : Variables) (time : Time) (terminal : Bool)
    (args : List String)
    : Footprint lib w vars args (run lib w vars time terminal args) where
  failed hcode := by
    by_cases hasks : ∃ request config, Asks lib w vars args request config
    . rcases hasks with ⟨request, config, hasks⟩
      have hshows := run_of_asks hasks time terminal
      rw [hshows.ending] at hcode
      rw [hshows.workspace]
      exact grows_of_failed request lib.loader w config hcode
    . rw [workspace_run_of_not_asks]
      . exact .refl w
      . intro request config h
        exact hasks ⟨request, config, h⟩
  written options config path hasks hpath hcode := by
    have hshows := run_of_asks hasks time terminal
    rw [hshows.ending] at hcode
    rw [hshows.output, hshows.workspace]
    rcases options.perform_of_path lib.loader w hpath with ⟨w', _, hfails⟩ | ⟨output, hrenders, _, hwritten⟩
    . change (options.perform lib.loader w config).ending.code = 0 at hcode
      rw [hfails.code] at hcode
      contradiction
    . exact ⟨output, hrenders, hwritten⟩
  unrendered options config hasks hrenders := by
    rw [(run_of_asks hasks time terminal).ending]
    change (options.perform lib.loader w config).ending.code ≠ 0
    rw [(options.perform_fails hrenders).code]
    simp
  initialized options config hasks hcode := by
    have hshows := run_of_asks hasks time terminal
    rw [hshows.ending] at hcode
    rw [hshows.workspace]
    rcases options.perform_cases w with ⟨w', _, hfails⟩ | ⟨_, hreplaces, _⟩
    . change (options.perform w).ending.code = 0 at hcode
      rw [hfails.code] at hcode
      contradiction
    . exact hreplaces
  kept options config node hasks hforce hnode := by
    have hshows := run_of_asks hasks time terminal
    rw [hshows.ending, hshows.workspace]
    rcases options.perform_cases w with ⟨w', hgrows, hfails⟩ | ⟨_, _, hforced | hnone⟩
    . change (options.perform w).ending.code ≠ 0 ∧ (options.perform w).workspace.stat _ = _
      rw [hfails.code, hfails.workspace]
      exact ⟨by simp, hgrows.stat_eq_ok hnode⟩
    . rw [hforce] at hforced
      contradiction
    . exact absurd hnode (hnone node)
  otherwise hwrites hinit := by
    by_cases hasks : ∃ request config, Asks lib w vars args request config
    . rcases hasks with ⟨request, config, hasks⟩
      rw [(run_of_asks hasks time terminal).workspace]
      cases request with
      | render options => exact options.perform_of_no_path fun path => hwrites options config path hasks
      | validate options => exact options.workspace_perform w
      | init options => exact absurd hasks (hinit options config)
      | help text => rfl
    . apply workspace_run_of_not_asks
      intro request config h
      exact hasks ⟨request, config, h⟩

/--
Of a sequence of command lines each is run on the files that those before it have left. A run that fails
leaves all of these as they are, and a run that succeeds changes at most the one that it is asked to write.
-/
theorem runAll_footprint (lib : Libraries) (w : Workspace) (vars : Variables) (time : Time) (terminal : Bool)
    (lines : List (List String))
    : let results := runAll lib w vars time terminal lines
      results.length = lines.length
        ∧ ∀ (i : Nat) args before result, lines[i]? = some args →
            (w :: results.map Result.workspace)[i]? = some before →
            results[i]? = some result →
              Footprint lib before vars args result := by
  induction lines generalizing w with
  | nil => simp [runAll]
  | cons line lines ih =>
    have ih := ih (run lib w vars time terminal line).workspace
    dsimp only [runAll] at ih ⊢
    refine ⟨by rw [List.length_cons, List.length_cons, ih.1], ?_⟩
    intro i args before result hargs hbefore hresult
    cases i with
    | zero =>
      injection hargs with hargs
      injection hbefore with hbefore
      injection hresult with hresult
      rw [← hargs, ← hbefore, ← hresult]
      apply footprint_run
    | succ i => exact ih.2 i args before result hargs hbefore hresult

example
    : let w : Workspace := ⟨[], [(["t"], .file (Bytes.ofAscii "x"))], []⟩
      let lines := [["render", "t", "-o", "a/b"], ["render", "a/b", "-o", "a"]]
      (runAll .own w [] (.universal ⟨0, 0⟩) false lines).map (·.ending.code) = [0, 1] := by
  decide +kernel

end Mustache.Command
