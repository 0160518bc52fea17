import Mustache.Command.Line
import Mustache.Command.Reader
import Mustache.Proofs.Places
import Mustache.Proofs.Results
import Mustache.Proofs.Switches

/-!
This module contains what is relied on of the reader of a command line, when a render that prints its output is asked
to write it to a file, and that the program's own reader may be relied on.
-/

namespace Mustache.Command

/--
The reader takes two command lines for the same render, except that the second one has an output. There is nowhere to
write to at a null character.
-/
structure LineReader.Redirects (reader : LineReader) (w : Workspace) (target : String) (args args' : List String)
    : Prop where
  exists_call : ∀ call, reader.invocation w args = .ok (.call call) →
    ∃ others, reader.invocation w args' = .ok (.call { call with args := others })
      ∧ ∀ options, reader.request w call.name call.args = .ok (.render options) → options.output = none →
        reader.request w call.name others =
          if '\x00' ∈ target.toList then .error (.file ⟨.nullCharacter, target⟩)
          else .ok (.render { options with output := some (Path.ofText target) })

/--
What is behind the name of a command is left to the command, and there `-o` is an option that may come first. Other
options do not matter to it.
-/
structure LineReader.TakesOutput (reader : LineReader) : Prop where
  split : ∀ w args call, reader.invocation w args = .ok (.call call) →
    ∃ front word, args = front ++ word :: call.args
      ∧ ∀ others, reader.invocation w (front ++ word :: others) = .ok (.call { call with args := others })
  output : ∀ w name args options target, reader.request w name args = .ok (.render options) →
    options.output = none → '\x00' ∉ target.toList →
      reader.request w name ("-o" :: target :: args) =
        .ok (.render { options with output := some (Path.ofText target) })
  null : ∀ w name args options target, reader.request w name args = .ok (.render options) →
    options.output = none → '\x00' ∈ target.toList →
      reader.request w name ("-o" :: target :: args) = .error (.file ⟨.nullCharacter, target⟩)

namespace LineReader.TakesOutput

variable {reader : LineReader} {w : Workspace} {call : Call}

theorem redirects {front : List String} {word : String} (h : reader.TakesOutput)
    (hcall : ∀ others, reader.invocation w (front ++ word :: others) = .ok (.call { call with args := others }))
    (target : String)
    : reader.Redirects w target (front ++ word :: call.args) (front ++ word :: "-o" :: target :: call.args) where
  exists_call call' hcall' := by
    rw [hcall] at hcall'
    injection hcall' with hcall'
    injection hcall' with hcall'
    subst hcall'
    refine ⟨_, hcall _, ?_⟩
    intro options hrequest houtput
    split
    . next hnull => exact h.null w call.name call.args options target hrequest houtput hnull
    . next hnull => exact h.output w call.name call.args options target hrequest houtput hnull

theorem exists_redirects {args : List String} (h : reader.TakesOutput)
    (hcall : reader.invocation w args = .ok (.call call)) (target : String)
    : ∃ front word rest, args = front ++ word :: rest
        ∧ reader.Redirects w target args (front ++ word :: "-o" :: target :: rest) := by
  rcases h.split w args call hcall with ⟨front, word, rfl, hothers⟩
  exact ⟨front, word, call.args, rfl, h.redirects hothers target⟩

end LineReader.TakesOutput

namespace RenderTexts

variable {texts texts' : RenderTexts} {target : String}

def NamesOutput (texts : RenderTexts) : Prop :=
  ∃ named ∈ texts.paths, named.1 = .output

theorem namesOutput_setPath_output (path : String) (texts : RenderTexts)
    : (setPath .output path texts).NamesOutput := by
  unfold setPath
  dsimp only
  split
  . next hany =>
    rcases List.any_eq_true.mp hany with ⟨named, hmem, hnamed⟩
    refine ⟨(.output, path), List.mem_map.mpr ⟨named, hmem, ?_⟩, rfl⟩
    rw [if_pos (of_decide_eq_true hnamed)]
  . exact ⟨(.output, path), by simp, rfl⟩

theorem NamesOutput.setPath (h : texts.NamesOutput) (option : PathOption) (path : String)
    : (setPath option path texts).NamesOutput := by
  rcases h with ⟨named, hmem, hnamed⟩
  unfold RenderTexts.setPath
  dsimp only
  split
  . by_cases hoption : named.1 = option
    . refine ⟨(option, path), List.mem_map.mpr ⟨named, hmem, ?_⟩, ?_⟩
      . rw [if_pos hoption]
      . rw [← hoption, hnamed]
    . refine ⟨named, List.mem_map.mpr ⟨named, hmem, ?_⟩, hnamed⟩
      rw [if_neg hoption]
  . exact ⟨named, by simp [hmem], hnamed⟩

theorem not_namesOutput (h : texts.path? .output = none) : ¬ texts.NamesOutput := by
  rintro ⟨named, hmem, hnamed⟩
  unfold path? at h
  rw [Option.map_eq_none_iff, List.find?_eq_none] at h
  exact h named hmem (by simp [hnamed])

/-- The texts are the same, except that the second ones name the target as their output. -/
structure Redirected (target : String) (texts texts' : RenderTexts) : Prop where
  paths : texts.paths = texts'.paths.filter fun named => named.1 ≠ .output
  output : (.output, target) ∈ texts'.paths
  outputs : ∀ named ∈ texts'.paths, named.1 = .output → named = (.output, target)
  extension : texts'.extension = texts.extension
  noEscape : texts'.noEscape = texts.noEscape
  help : texts'.help = texts.help

theorem redirected_setPath_output (h : ¬ texts.NamesOutput) (target : String)
    : Redirected target texts (setPath .output target texts) := by
  have hnone : ∀ named ∈ texts.paths, named.1 ≠ .output := by
    intro named hmem hnamed
    exact h ⟨named, hmem, hnamed⟩
  have hpaths : (setPath .output target texts).paths = texts.paths ++ [(.output, target)] := by
    unfold setPath
    dsimp only
    rw [if_neg]
    rw [List.any_eq_true]
    rintro ⟨named, hmem, hnamed⟩
    exact hnone named hmem (of_decide_eq_true hnamed)
  constructor
  . rw [hpaths, List.filter_append, List.filter_eq_self.mpr (by simpa using hnone)]
    simp
  . rw [hpaths]
    simp
  . intro named hmem hnamed
    rw [hpaths, List.mem_append, List.mem_singleton] at hmem
    rcases hmem with hmem | heq
    . exact absurd hnamed (hnone named hmem)
    . exact heq
  . rfl
  . rfl
  . rfl

theorem any_eq (h : Redirected target texts texts') {option : PathOption} (hoption : option ≠ .output)
    : (texts.paths.any fun other => other.1 = option) = texts'.paths.any fun other => other.1 = option := by
  rw [h.paths, List.any_filter]
  congr 1
  funext other
  by_cases hother : other.1 = option
  . simp [hother, hoption]
  . simp [hother]

theorem Redirected.setPath (h : Redirected target texts texts') {option : PathOption}
    (hoption : option ≠ .output) (path : String)
    : Redirected target (setPath option path texts) (setPath option path texts') := by
  have hany := any_eq h hoption
  unfold RenderTexts.setPath
  rw [hany]
  dsimp only
  split
  . constructor
    . dsimp only
      rw [h.paths, List.filter_map]
      congr 2
      funext other
      by_cases hother : other.1 = option
      . simp [hother]
      . simp [hother]
    . exact List.mem_map.mpr ⟨(.output, target), h.output, by rw [if_neg hoption.symm]⟩
    . intro named hmem hnamed
      rcases List.mem_map.mp hmem with ⟨other, hother, heq⟩
      by_cases hchanged : other.1 = option
      . rw [if_pos hchanged] at heq
        rw [← heq] at hnamed
        exact absurd hnamed hoption
      . rw [if_neg hchanged] at heq
        rw [← heq] at hnamed ⊢
        exact h.outputs other hother hnamed
    . exact h.extension
    . exact h.noEscape
    . exact h.help
  . constructor
    . dsimp only
      rw [h.paths, List.filter_append]
      simp [hoption]
    . exact List.mem_append_left _ h.output
    . intro named hmem hnamed
      rw [List.mem_append, List.mem_singleton] at hmem
      rcases hmem with hmem | heq
      . exact h.outputs named hmem hnamed
      . rw [heq] at hnamed
        exact absurd hnamed hoption
    . exact h.extension
    . exact h.noEscape
    . exact h.help

/-- While it is read on, the first texts come to name an output, or the second ones differ only in it. -/
def MayRedirect (target : String) (texts texts' : RenderTexts) : Prop :=
  texts.NamesOutput ∨ Redirected target texts texts'

theorem preserves_setPath (target : String) (option : PathOption)
    : (Effect.value (setPath option)).Preserves (MayRedirect target) := by
  intro path texts texts' h
  rcases h with h | h
  . exact .inl (h.setPath option path)
  . by_cases hoption : option = .output
    . subst hoption
      exact .inl (namesOutput_setPath_output path texts)
    . exact .inr (h.setPath hoption path)

theorem preserves_of_switches (target : String)
    : ∀ switch ∈ switches, switch.effect.Preserves (MayRedirect target) := by
  intro switch hswitch
  simp only [switches, List.mem_cons, List.not_mem_nil, or_false] at hswitch
  rcases hswitch with rfl | rfl | rfl | rfl | rfl | rfl
  . exact preserves_setPath target .data
  . exact preserves_setPath target .output
  . exact preserves_setPath target .directory
  . intro text texts texts' h
    exact h.imp id fun h => ⟨h.paths, h.output, h.outputs, rfl, h.noEscape, h.help⟩
  . intro texts texts' h
    exact h.imp id fun h => ⟨h.paths, h.output, h.outputs, h.extension, rfl, h.help⟩
  . intro texts texts' h
    exact h.imp id fun h => ⟨h.paths, h.output, h.outputs, h.extension, h.noEscape, rfl⟩

theorem Redirected.path?_output (h : Redirected target texts texts') : texts'.path? .output = some target := by
  unfold path?
  cases hfind : texts'.paths.find? fun other => other.1 = .output with
  | none =>
    rw [List.find?_eq_none] at hfind
    exact absurd (by simp) (hfind _ h.output)
  | some named =>
    have hnamed := List.find?_some hfind
    rw [h.outputs named (List.mem_of_find?_eq_some hfind) (of_decide_eq_true hnamed)]
    rfl

theorem Redirected.path?_eq (h : Redirected target texts texts') {option : PathOption}
    (hoption : option ≠ .output)
    : texts'.path? option = texts.path? option := by
  unfold path?
  rw [h.paths, List.find?_filter]
  congr 2
  funext other
  by_cases hother : other.1 = option
  . simp [hother, hoption]
  . simp [hother]

theorem readAll?_output {args others : List String} {texts : RenderTexts}
    (hread : Switch.readAll? switches true .standard args = some (texts, others))
    (houtput : texts.path? .output = none) (target : String)
    : ∃ texts', Redirected target texts texts'
        ∧ Switch.readAll? switches true .standard ("-o" :: target :: args) = some (texts', others) := by
  -- The readings differ in nothing but the output, unless one is named later on.
  have hstart : MayRedirect target standard (setPath .output target standard) := by
    right
    apply redirected_setPath_output
    rintro ⟨named, hmem, _⟩
    contradiction
  rcases Switch.readAll?_related (preserves_of_switches target) hstart hread with ⟨texts', hread', hmay⟩
  refine ⟨texts', ?_, hread'⟩
  rcases hmay with hnames | hredirected
  . exact absurd hnames (not_namesOutput houtput)
  . exact hredirected

end RenderTexts

theorem understood_eq_ok {read? : Option α} {read : α} (h : understood read? = .ok read)
    : read? = some read := by
  cases read? with
  | none => contradiction
  | some _ =>
    injection h with h
    rw [h]

def RenderTexts.options (texts : RenderTexts) (template : Path) : RenderOptions where
  template
  data := (texts.path? .data).map Path.ofText
  output := (texts.path? .output).map Path.ofText
  directory := (texts.path? .directory).map Path.ofText
  extension := texts.extension
  noEscape := texts.noEscape

def admitted (w : Workspace) (named : PathOption × String) : Except Refusal Unit :=
  discard (named.1.admits w named.2)

section

variable {w : Workspace} {args : List String} {options : RenderOptions}

theorem preamble_eq {others : List String} {globals : GlobalOptions}
    (hread : Switch.readAll? GlobalOptions.switches false .standard args = some (globals, others))
    (w : Workspace)
    : Preamble.ofArguments w args =
        match globals.notice with
        | some shown => .ok (.notice shown)
        | none => (ifGiven (existing w) globals.config).map fun config =>
            .read globals.flags config others := by
  unfold Preamble.ofArguments understood
  rw [hread]
  change (match globals.notice with
    | some shown => Except.ok (Preamble.notice shown)
    | none => do return .read globals.flags (← ifGiven (existing w) globals.config) others) = _
  cases globals.notice with
  | some shown => rfl
  | none => cases ifGiven (existing w) globals.config <;> rfl

theorem read?_of_name {word : String} {name : Name} (h : Name.ofText? word = some name)
    : word ≠ "--" ∧ ∀ (switches : List (Switch α)) settings, Switch.read? switches settings word = none := by
  have hword : word = "render" ∨ word = "validate" ∨ word = "init" := by
    unfold Name.ofText? at h
    split at h
    . exact .inl (by assumption)
    split at h
    . exact .inr (.inl (by assumption))
    split at h
    . exact .inr (.inr (by assumption))
    . contradiction
  rcases hword with rfl | rfl | rfl
  all_goals exact ⟨by decide, fun _ _ => rfl⟩

theorem ofArguments_name {front : List String} {globals : GlobalOptions} {word : String} {name : Name}
    (hfront : Switch.readAll? GlobalOptions.switches false .standard front = some (globals, []))
    (hname : Name.ofText? word = some name) (w : Workspace) (args : List String)
    : Invocation.ofArguments w (front ++ word :: args) =
        match globals.notice with
        | some shown => .ok shown.invocation
        | none => (ifGiven (existing w) globals.config).map fun config =>
            .call ⟨globals.flags, config, name, args⟩ := by
  have hword := @read?_of_name GlobalOptions word name hname
  have hread := Switch.readAll?_cons_name hword.1 (hword.2 _) hfront args
  unfold Invocation.ofArguments
  rw [preamble_eq hread]
  cases globals.notice with
  | some shown => rfl
  | none =>
    cases ifGiven (existing w) globals.config with
    | error refusal => rfl
    | ok config =>
      dsimp only [Except.map, bind, Except.bind]
      rw [hname]
      rfl

theorem ofRender_eq {others : List String} {texts : RenderTexts}
    (hread : Switch.readAll? RenderTexts.switches true .standard args = some (texts, others))
    : Request.ofRender w args =
        if texts.help then .ok (.help usage)
        else do
          texts.paths.forM (admitted w)
          match others with
          | [] => throw .usage
          | template :: more =>
            let template ← existing w template
            if more ≠ [] then throw .usage
            return .render (texts.options template) := by
  unfold Request.ofRender understood
  rw [hread]
  cases others <;> rfl

theorem ofRender_eq_ok (h : Request.ofRender w args = .ok (.render options))
    : ∃ texts template path,
        Switch.readAll? RenderTexts.switches true .standard args = some (texts, [template])
          ∧ texts.help = false
          ∧ (∀ named ∈ texts.paths, admitted w named = .ok ())
          ∧ existing w template = .ok path
          ∧ options = texts.options path := by
  rcases bind_eq_ok h with ⟨⟨texts, others⟩, hread, h⟩
  have hread := understood_eq_ok hread
  dsimp only at h
  split at h
  . injection h with h
    contradiction
  . next hhelp =>
    rcases bind_eq_ok h with ⟨_, hadmitted, h⟩
    cases others with
    | nil => contradiction
    | cons template more =>
      rcases bind_eq_ok h with ⟨path, hpath, h⟩
      cases more with
      | cons _ _ => contradiction
      | nil =>
        injection h with h
        injection h with h
        refine ⟨texts, template, path, hread, Bool.eq_false_iff.mpr hhelp, ?_, hpath, h.symm⟩
        exact forM_eq_ok_iff.mp hadmitted

theorem ofRender_of_read {texts : RenderTexts} {template : String} {path : Path}
    (hread : Switch.readAll? RenderTexts.switches true .standard args = some (texts, [template]))
    (hhelp : texts.help = false) (hpath : existing w template = .ok path)
    : Request.ofRender w args =
        (texts.paths.forM (admitted w)).map fun _ => .render (texts.options path) := by
  rw [ofRender_eq hread, hhelp]
  cases texts.paths.forM (admitted w) with
  | error refusal => rfl
  | ok _ =>
    change (existing w template).bind _ = _
    rw [hpath]
    rfl

theorem admitted_output (w : Workspace) (target : String)
    : admitted w (.output, target) =
        if '\x00' ∈ target.toList then .error (.file ⟨.nullCharacter, target⟩) else .ok () := by
  unfold admitted PathOption.admits possible
  dsimp only
  split
  . next hstat =>
    rw [if_pos ((w.stat_eq_nullCharacter_iff target).mp hstat)]
    rfl
  . next hstat =>
    rw [if_neg]
    . rfl
    . intro hnull
      exact hstat ((w.stat_eq_nullCharacter_iff target).mpr hnull)

theorem preamble_eq_read {flags : Log.Flags} {source : Option Path} {others : List String}
    (h : Preamble.ofArguments w args = .ok (.read flags source others))
    : ∃ globals,
        Switch.readAll? GlobalOptions.switches false .standard args = some (globals, others) := by
  rcases bind_eq_ok h with ⟨⟨globals, rest⟩, hread, h⟩
  dsimp only at h
  split at h
  . injection h with h
    contradiction
  . rcases bind_eq_ok h with ⟨_, _, h⟩
    injection h with h
    injection h with _ _ h
    rw [← h]
    exact ⟨globals, understood_eq_ok hread⟩

theorem Notice.invocation_ne_call (shown : Notice) (call : Call) : shown.invocation ≠ .call call := by
  unfold Notice.invocation
  cases shown <;> simp

theorem ofArguments_eq_call {call : Call} (h : Invocation.ofArguments w args = .ok (.call call))
    : ∃ globals name, Switch.readAll? GlobalOptions.switches false .standard args =
        some (globals, name :: call.args) ∧ Name.ofText? name = some call.name := by
  rcases bind_eq_ok h with ⟨preamble, hpreamble, h⟩
  cases preamble with
  | notice shown =>
    injection h with h
    exact absurd h (shown.invocation_ne_call call)
  | read flags source others =>
    cases others with
    | nil => contradiction
    | cons name args =>
      dsimp only at h
      split at h
      . next command hname =>
        injection h with h
        injection h with h
        rcases preamble_eq_read hpreamble with ⟨globals, hread⟩
        rw [← h]
        exact ⟨globals, name, hread, hname⟩
      . -- No command has that name, so what is left is read once more, and at most a notice is shown.
        rcases bind_eq_ok h with ⟨preamble, _, h⟩
        cases preamble with
        | notice shown =>
          injection h with h
          exact absurd h (shown.invocation_ne_call call)
        | read _ _ _ => contradiction

theorem ofValidate_ne_render (w : Workspace) (args : List String) (options : RenderOptions)
    : Request.ofValidate w args ≠ .ok (.render options) := by
  intro h
  rcases bind_eq_ok h with ⟨⟨⟨json, help⟩, others⟩, _, h⟩
  cases help with
  | true =>
    injection h with h
    contradiction
  | false =>
    cases others with
    | nil => contradiction
    | cons template more =>
      rcases bind_eq_ok h with ⟨path, _, h⟩
      cases more with
      | nil =>
        injection h with h
        contradiction
      | cons _ _ => contradiction

theorem ofInit_ne_render (args : List String) (options : RenderOptions)
    : Request.ofInit args ≠ .ok (.render options) := by
  intro h
  rcases bind_eq_ok h with ⟨⟨⟨force, help⟩, others⟩, _, h⟩
  cases help with
  | true =>
    injection h with h
    contradiction
  | false =>
    cases others with
    | nil =>
      injection h with h
      contradiction
    | cons _ _ => contradiction

theorem name_eq_render {name : Name} (h : Request.ofArguments w name args = .ok (.render options))
    : name = .render := by
  unfold Request.ofArguments at h
  cases name with
  | render => rfl
  | validate => exact absurd h (ofValidate_ne_render w args options)
  | init => exact absurd h (ofInit_ne_render args options)

/-- With the output in front, a render is asked for as before, unless no file can be at it. -/
theorem ofArguments_output {name : Name} (h : Request.ofArguments w name args = .ok (.render options))
    (houtput : options.output = none) (target : String)
    : Request.ofArguments w name ("-o" :: target :: args) =
        if '\x00' ∈ target.toList then .error (.file ⟨.nullCharacter, target⟩)
        else .ok (.render { options with output := some (Path.ofText target) }) := by
  have hname := name_eq_render h
  subst hname
  rcases ofRender_eq_ok h with ⟨texts, template, path, hread, hhelp, hadmitted, hpath, rfl⟩
  have hnone : texts.path? .output = none := Option.map_eq_none_iff.mp houtput
  rcases RenderTexts.readAll?_output hread hnone target with ⟨texts', hredirected, hread'⟩
  -- All paths but the target were admitted before, so it is the target that decides.
  have hothers : ∀ named ∈ texts'.paths, admitted w named = .ok () ∨ named = (.output, target) := by
    intro named hmem
    by_cases hnamed : named.1 = .output
    . exact .inr (hredirected.outputs named hmem hnamed)
    . left
      apply hadmitted
      rw [hredirected.paths]
      simp [hmem, hnamed]
  have htarget := admitted_output w target
  change Request.ofRender w _ = _
  rw [ofRender_of_read hread' (by rw [hredirected.help, hhelp]) hpath]
  by_cases hnull : '\x00' ∈ target.toList
  . rw [if_pos hnull] at htarget ⊢
    rw [forM_eq_error hredirected.output htarget hothers]
    rfl
  . rw [if_neg hnull] at htarget ⊢
    have hall : texts'.paths.forM (admitted w) = .ok () := by
      rw [forM_eq_ok_iff]
      intro named hmem
      rcases hothers named hmem with hok | rfl
      . exact hok
      . exact htarget
    have hoptions : texts'.options path =
        { texts.options path with output := some (Path.ofText target) } := by
      unfold RenderTexts.options
      rw [hredirected.path?_output, hredirected.path?_eq (by decide : PathOption.data ≠ .output),
        hredirected.path?_eq (by decide : PathOption.directory ≠ .output), hredirected.extension,
        hredirected.noEscape]
      rfl
    rw [hall, ← hoptions]
    rfl

end

theorem ofArguments_split {w : Workspace} {args : List String} {call : Call}
    (h : Invocation.ofArguments w args = .ok (.call call))
    : ∃ front word, args = front ++ word :: call.args
        ∧ ∀ others, Invocation.ofArguments w (front ++ word :: others)
            = .ok (.call { call with args := others }) := by
  rcases ofArguments_eq_call h with ⟨globals, word, hread, hname⟩
  rcases Switch.readAll?_split hread with ⟨front, rfl, hfront⟩
  refine ⟨front, word, rfl, ?_⟩
  intro others
  rw [ofArguments_name hfront hname] at h ⊢
  cases hnotice : globals.notice with
  | some shown =>
    rw [hnotice] at h
    injection h with h
    exact absurd h (shown.invocation_ne_call call)
  | none =>
    rw [hnotice] at h
    cases hgiven : ifGiven (existing w) globals.config with
    | error refusal =>
      rw [hgiven] at h
      contradiction
    | ok source =>
      rw [hgiven] at h
      injection h with h
      injection h with h
      rw [← h]
      rfl

theorem LineReader.own_takesOutput : LineReader.own.TakesOutput where
  split _ _ _ h := ofArguments_split h
  output _ _ _ _ target h houtput hnull := by
    change Request.ofArguments _ _ _ = _
    rw [ofArguments_output h houtput, if_neg hnull]
  null _ _ _ _ target h houtput hnull := by
    change Request.ofArguments _ _ _ = _
    rw [ofArguments_output h houtput, if_pos hnull]

end Mustache.Command
