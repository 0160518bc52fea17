import Mustache.Proofs.Arguments
import Mustache.Proofs.Footprint

/-!
This module contains what it comes to when a render that prints its output is asked to write it to a
file. The file gets the bytes that were printed, and both are what the library answers.
-/

namespace Mustache.Command

section

variable {lib : Libraries} {w : Workspace} {vars : Variables} {args args' : List String} {target : String}
  {options : RenderOptions} {config : Config}

theorem LineReader.Redirects.exists_asked (h : lib.reader.Redirects w target args args')
    (hasks : Asks lib w vars args (.render options) config) (houtput : options.output = none)
    : ∃ call, lib.reader.invocation w args' = .ok (.call call)
        ∧ Config.load lib.loader w vars call.config true = .ok config
        ∧ lib.reader.request w call.name call.args =
            if '\x00' ∈ target.toList then .error (.file ⟨.nullCharacter, target⟩)
            else .ok (.render { options with output := some (Path.ofText target) }) := by
  rcases hasks with ⟨call, hcall, hconfig, hrequest⟩
  rcases h.exists_call call hcall with ⟨others, hcall', hothers⟩
  exact ⟨_, hcall', hconfig, hothers options hrequest houtput⟩

theorem LineReader.Redirects.asks (h : lib.reader.Redirects w target args args')
    (hasks : Asks lib w vars args (.render options) config) (houtput : options.output = none)
    (hnull : '\x00' ∉ target.toList)
    : Asks lib w vars args' (.render { options with output := some (Path.ofText target) }) config := by
  rcases h.exists_asked hasks houtput with ⟨call, hcall, hconfig, hrequest⟩
  rw [if_neg hnull] at hrequest
  exact ⟨call, hcall, hconfig, hrequest⟩

theorem LineReader.Redirects.fails_null (h : lib.reader.Redirects w target args args')
    (hasks : Asks lib w vars args (.render options) config) (houtput : options.output = none)
    (hnull : '\x00' ∈ target.toList) (time : Time) (terminal : Bool)
    : (run lib w vars time terminal args').ending.code = 1
        ∧ (run lib w vars time terminal args').output = [] := by
  rcases h.exists_asked hasks houtput with ⟨call, hcall, hconfig, hrequest⟩
  rw [if_pos hnull] at hrequest
  unfold run
  rw [hcall]
  dsimp only [Invocation.perform, Call.perform]
  rw [hconfig, hrequest]
  exact ⟨rfl, rfl⟩

end

namespace RenderOptions

variable {options : RenderOptions} {loader : Loader} {w : Workspace} {config : Config}

theorem code_writeOutput_iff (options : RenderOptions) (w : Workspace) {path : Path}
    (hnormal : path.IsNormal) (output : Bytes)
    : (options.writeOutput w path output).ending.code = 0 ↔ w.Takes path := by
  rw [Workspace.takes_iff hnormal]
  unfold writeOutput
  rcases w.ensureDirectories path.parent with ⟨w', _ | error⟩
  . dsimp only
    cases hwrite : w'.write path output with
    | error error =>
      apply iff_of_false
      . simp [(fails_fault w' (.file error)).code]
      . rintro ⟨_, place, hplace, hnode⟩
        unfold Workspace.write at hwrite
        rw [hplace] at hwrite
        dsimp only at hwrite
        split at hwrite
        . exact hnode (by assumption)
        . contradiction
    | ok w'' =>
      rcases Workspace.write_eq_ok hwrite with ⟨place, hplace, hnode, _⟩
      exact iff_of_true rfl ⟨rfl, place, hplace, hnode⟩
  . apply iff_of_false
    . simp [(fails_fault w' (.file error)).code]
    . rintro ⟨h, _⟩
      contradiction

/--
The answer of the library to the template and the data: the settings are those of the configuration, with
the given options in their place.
-/
def Answers (options : RenderOptions) (loader : Loader) (w : Workspace) (config : Config)
    (answer : Except Failure Bytes)
    : Prop :=
  ∃ settings data, config.settings = .ok settings ∧ options.loadData loader w = .ok data
    ∧ (Settings.renderFile
        { escape := if options.noEscape then .none else settings.escape
          directory := options.directory <|> settings.directory
          extension := (options.extension.map Value.text).getD settings.extension }
        w options.template (Context.ofData data)).answer = answer

theorem settings_eq_ok_iff {settings : Settings}
    : options.settings config = .ok settings
        ↔ ∃ base, config.settings = .ok base
          ∧ settings =
            { escape := if options.noEscape then .none else base.escape
              directory := options.directory <|> base.directory
              extension := (options.extension.map Value.text).getD base.extension } := by
  unfold RenderOptions.settings
  cases config.settings with
  | error error =>
    constructor
    . intro h
      contradiction
    . rintro ⟨base, h, _⟩
      contradiction
  | ok base =>
    constructor
    . intro h
      injection h with h
      exact ⟨base, rfl, h.symm⟩
    . rintro ⟨_, h, rfl⟩
      injection h with h
      rw [← h]
      rfl

theorem renders_iff_answers {output : Bytes}
    : options.Renders loader w config output ↔ options.Answers loader w config (.ok output) := by
  constructor
  . rintro ⟨settings, data, hsettings, hdata, hanswer⟩
    rcases settings_eq_ok_iff.mp hsettings with ⟨base, hbase, rfl⟩
    exact ⟨base, data, hbase, hdata, hanswer⟩
  . rintro ⟨base, data, hbase, hdata, hanswer⟩
    exact ⟨_, data, settings_eq_ok_iff.mpr ⟨base, hbase, rfl⟩, hdata, hanswer⟩

theorem Answers.unique {answer answer' : Except Failure Bytes} (h : options.Answers loader w config answer)
    (h' : options.Answers loader w config answer')
    : answer = answer' := by
  rcases h with ⟨settings, data, hsettings, hdata, hanswer⟩
  rcases h' with ⟨settings', data', hsettings', hdata', hanswer'⟩
  rw [hsettings] at hsettings'
  rw [hdata] at hdata'
  injection hsettings' with hsettings'
  injection hdata' with hdata'
  subst hsettings' hdata'
  exact hanswer.symm.trans hanswer'

theorem output_eq_none (h : options.outputPath config = .ok none) : options.output = none := by
  unfold outputPath at h
  split at h
  . injection h with h
    contradiction
  . assumption

theorem renders_of_printed (hpath : options.outputPath config = .ok none)
    (hcode : (options.perform loader w config).ending.code = 0)
    : options.Renders loader w config (options.perform loader w config).output := by
  by_cases hrenders : ∃ output, options.Renders loader w config output
  . rcases hrenders with ⟨output, hrenders⟩
    rcases perform_of_renders hrenders with ⟨remarks, heq⟩
    unfold deliver at heq
    rw [hpath] at heq
    rw [heq]
    exact hrenders
  . rw [(perform_fails (not_exists.mp hrenders)).code] at hcode
    contradiction

theorem written_of_renders {path : Path} {output : Bytes} (houtput : options.output = some path)
    (hnormal : path.IsNormal) (h : options.Renders loader w config output)
    : ((options.perform loader w config).ending.code = 0 ↔ w.Takes path)
        ∧ (w.Takes path →
          (options.perform loader w config).output = []
          ∧ (options.perform loader w config).workspace.content path = .ok output) := by
  rcases perform_of_renders h with ⟨remarks, heq⟩
  unfold deliver outputPath at heq
  rw [houtput] at heq
  have hcode := options.code_writeOutput_iff w hnormal output
  rw [heq]
  refine ⟨hcode, ?_⟩
  intro htakes
  rcases options.writeOutput_cases w path output with ⟨w', _, hfails⟩ | ⟨_, hempty, hreplaces⟩
  . rw [hfails.code] at hcode
    have := hcode.mpr htakes
    contradiction
  . exact ⟨hempty, hreplaces.content⟩

theorem not_renders_of_error {failure : Failure} (h : options.Answers loader w config (.error failure))
    (output : Bytes)
    : ¬ options.Renders loader w config output := by
  intro hrenders
  have := h.unique (renders_iff_answers.mp hrenders)
  contradiction

end RenderOptions

section

variable {lib : Libraries} {w : Workspace} {vars : Variables} {args args' : List String} {target : String}
  {options : RenderOptions} {config : Config}

theorem answers_of_printed (h : Asks lib w vars args (.render options) config)
    (hpath : options.outputPath config = .ok none) {time : Time} {terminal : Bool}
    (hcode : (run lib w vars time terminal args).ending.code = 0)
    : options.Answers lib.loader w config (.ok (run lib w vars time terminal args).output) := by
  have hprinted := run_of_asks h time terminal
  rw [hprinted.ending] at hcode
  rw [hprinted.output]
  exact RenderOptions.renders_iff_answers.mp (RenderOptions.renders_of_printed hpath hcode)

theorem fails_of_answers {error : RenderError} (h : Asks lib w vars args (.render options) config)
    (herror : options.Answers lib.loader w config (.error (.render error))) (time : Time) (terminal : Bool)
    : (run lib w vars time terminal args).ending.code = 1 ∧ (run lib w vars time terminal args).output = [] := by
  have hshows := run_of_asks h time terminal
  have hfails := RenderOptions.perform_fails (RenderOptions.not_renders_of_error herror)
  rw [hshows.ending, hshows.output]
  exact ⟨hfails.code, hfails.output⟩

theorem LineReader.Redirects.written (h : lib.reader.Redirects w target args args')
    (hasks : Asks lib w vars args (.render options) config) (hpath : options.outputPath config = .ok none)
    {time : Time} {terminal : Bool} {output : Bytes} (hanswers : options.Answers lib.loader w config (.ok output))
    : ((run lib w vars time terminal args').ending.code = 0 ↔ w.Takes (Path.ofText target))
        ∧ (w.Takes (Path.ofText target) →
          (run lib w vars time terminal args').output = []
          ∧ (run lib w vars time terminal args').workspace.content (Path.ofText target) = .ok output) := by
  have houtput := RenderOptions.output_eq_none hpath
  by_cases hnull : '\x00' ∈ target.toList
  . have hcode := (h.fails_null hasks houtput hnull time terminal).1
    have hrefused : ¬ w.Takes (Path.ofText target) :=
      fun htakes => htakes.no_null ((Path.null_mem_text_iff target).mpr hnull)
    simp [hcode, hrefused]
  . have hwritten := run_of_asks (h.asks hasks houtput hnull) time terminal
    rw [hwritten.ending, hwritten.output, hwritten.workspace]
    apply RenderOptions.written_of_renders rfl (Path.isNormal_ofText target)
    exact RenderOptions.renders_iff_answers.mpr hanswers

theorem LineReader.Redirects.fails {error : RenderError} (h : lib.reader.Redirects w target args args')
    (hasks : Asks lib w vars args (.render options) config) (hpath : options.outputPath config = .ok none)
    (herror : options.Answers lib.loader w config (.error (.render error))) (time : Time) (terminal : Bool)
    : (run lib w vars time terminal args').ending.code = 1 ∧ (run lib w vars time terminal args').output = [] := by
  have houtput := RenderOptions.output_eq_none hpath
  by_cases hnull : '\x00' ∈ target.toList
  . exact h.fails_null hasks houtput hnull time terminal
  . exact fails_of_answers (h.asks hasks houtput hnull) herror time terminal

end

end Mustache.Command
