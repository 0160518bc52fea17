import Mustache.Proofs.Agree
import Mustache.Proofs.Places
import Mustache.Proofs.Utf8
import Mustache.Settings

/-!
This module contains partials that are the files of a directory, next to the same partials in memory.
They differ in the names that no file system can look for; where none of these is asked for, renders with
the ones and with the others agree.
-/

namespace Mustache

/-- The partial that a tag asks for, whether there is one or not. -/
def Event.insertion? (event : Event) : Option Bytes :=
  match event with
  | .step ⟨_, _, .insert name, _, _⟩ => some name
  | _ => none

namespace Run

variable {run : Run} {name : Bytes}

def insertions (run : Run) : List Bytes :=
  run.events.filterMap Event.insertion?

theorem mem_insertions_andThen_left (h : name ∈ run.insertions) (second : Unit → Run)
    : name ∈ (run.andThen second).insertions := by
  by_cases hfailure : run.failure = none
  . rw [andThen_of_ok second hfailure]
    unfold insertions at h ⊢
    rw [List.filterMap_append]
    exact List.mem_append_left _ h
  . rwa [andThen_of_failed second hfailure]

theorem mem_insertions_andThen_right {second : Unit → Run} (h : name ∈ (second ()).insertions)
    (hfailure : run.failure = none)
    : name ∈ (run.andThen second).insertions := by
  rw [andThen_of_ok second hfailure]
  unfold insertions at h ⊢
  rw [List.filterMap_append]
  exact List.mem_append_right _ h

/-- The runs agree if no tag of the second asks for other names. -/
def AgreesIf (P : Bytes → Prop) (run run' : Run) : Prop :=
  (∀ name ∈ run'.insertions, P name) → run.Agrees run'

theorem AgreesIf.congruence (P : Bytes → Prop) : Congruence (AgreesIf P) where
  done _ := .refl _
  fail _ _ := .refl _
  andThen {first first' second second'} hfirst hsecond hinserts := by
    have hfirst := hfirst fun name h => hinserts name (mem_insertions_andThen_left h second')
    by_cases hfailure : first'.failure = none
    . apply hfirst.andThen
      apply hsecond
      intro name h
      exact hinserts name (mem_insertions_andThen_right h hfailure)
    . rw [andThen_of_failed second' hfailure, andThen_of_failed second]
      . exact hfirst
      . rwa [hfirst.failure]

end Run

/-- Both resolvers find the same content, or fail alike. -/
def Resolver.AgreeAt (resolver resolver' : Resolver) (name : Bytes) : Prop :=
  (resolver name).map Loaded.content = (resolver' name).map Loaded.content

namespace Engine

variable {engine engine' : Engine} {P : Bytes → Prop}

theorem insert_agrees {content content' : Bytes → Run} {name : Bytes}
    (h : engine.resolver.AgreeAt engine'.resolver name)
    (hcontent : ∀ inserted, Run.AgreesIf P (content inserted) (content' inserted))
    : Run.AgreesIf P (engine.insert content name) (engine'.insert content' name) := by
  have cong := Run.AgreesIf.congruence P
  unfold Resolver.AgreeAt at h
  unfold insert
  cases hanswer : engine.resolver name with
  | error failure =>
    cases hanswer' : engine'.resolver name with
    | error failure' =>
      rw [hanswer, hanswer'] at h
      injection h with h
      rw [h]
      exact cong.fail failure'
    | ok answer' =>
      rw [hanswer, hanswer'] at h
      contradiction
  | ok answer =>
    cases hanswer' : engine'.resolver name with
    | error failure' =>
      rw [hanswer, hanswer'] at h
      contradiction
    | ok answer' =>
      rw [hanswer, hanswer'] at h
      injection h with h
      apply cong.andThen
      . intro _
        exact ⟨rfl, rfl, rfl⟩
      . rw [h]
        cases answer'.content with
        | none => exact cong.done
        | some inserted => exact hcontent inserted

theorem turn_agrees (hescape : engine.escape = engine'.escape)
    (hresolver : ∀ name, P name → engine.resolver.AgreeAt engine'.resolver name)
    {stack : Stack} {inside inside' : Stack → Bytes → Run} {content content' : Bytes → Run} {step : Step}
    (hinside : ∀ inner inverted name body, step.action = .enter inverted name body →
      Run.AgreesIf P (inside inner body) (inside' inner body))
    (hcontent : ∀ inserted, Run.AgreesIf P (content inserted) (content' inserted))
    : Run.AgreesIf P (engine.turn stack inside content step) (engine'.turn stack inside' content' step) := by
  have cong := Run.AgreesIf.congruence P
  intro hinserts
  refine cong.andThen (fun _ => .refl _) ?_ hinserts
  unfold perform
  cases haction : step.action with
  | «variable» escaped name =>
    intro _
    unfold printVariable
    rw [hescape]
    exact .refl _
  | enter inverted name body =>
    apply enter_related cong
    . intro effectful callout _
      exact .refl _
    . intro inner
      exact hinside inner inverted name body haction
  | insert name =>
    have hname : name ∈ (engine'.turn stack inside' content' step).insertions := by
      apply Run.mem_insertions_andThen_left
      rcases step with ⟨_, _, action, _, _⟩
      dsimp only at haction
      rw [haction]
      exact List.mem_singleton_self name
    exact insert_agrees (hresolver name (hinserts name hname)) hcontent
  | comment | unclosed | delimiters | badDelimiters => exact cong.done

theorem resolver_simulation (hescape : engine.escape = engine'.escape)
    (hresolver : ∀ name, P name → engine.resolver.AgreeAt engine'.resolver name)
    : Simulation engine engine' (fun _ _ _ => True) Eq (Run.AgreesIf P) where
  toCongruence := Run.AgreesIf.congruence P
  tail _ _ _ := .refl _
  literal _ _ _ := .refl _
  turn {text delims pos step stack stack' inside inside' content content'} _ _ hstack hinside hcontent := by
    subst hstack
    apply turn_agrees hescape hresolver
    . intro inner inverted name body haction
      exact hinside inner inner inverted name body haction rfl trivial
    . intro inserted
      exact hcontent inserted trivial
  resume _ _ := trivial

theorem process_agrees_of_resolvers {resolver resolver' : Resolver}
    (hresolver : ∀ name, P name → resolver.AgreeAt resolver' name) (escape : Bytes → Bytes)
    (depth : Nat) (stack : Stack) (delims : Delimiters) (text : Bytes)
    (hinserts : ∀ name ∈ (process ⟨escape, resolver'⟩ depth stack delims text).insertions, P name)
    : (process ⟨escape, resolver⟩ depth stack delims text).Agrees
        (process ⟨escape, resolver'⟩ depth stack delims text) := by
  have sim := @resolver_simulation ⟨escape, resolver⟩ ⟨escape, resolver'⟩ P (Eq.refl escape) hresolver
  exact sim.process depth rfl trivial hinserts

end Engine

namespace Resolver

/-- The name of the file that holds a partial. -/
def fileName (extension : String) (name : Bytes) : String :=
  Utf8.decode name ++ extension

def filePath (directory : Path) (extension : String) (name : Bytes) : Path :=
  directory.join (Path.ofText (fileName extension name))

/-- The name is text, and with the extension it is the name of a file in a directory. -/
structure IsLabel (extension : String) (name : Bytes) : Prop where
  valid : Utf8.Valid name
  ne_nil : name ≠ []
  no_slash : (0x2F : UInt8) ∉ name
  no_null : (0x00 : UInt8) ∉ name
  ne_dot : fileName extension name ≠ "."
  ne_up : fileName extension name ≠ ".."

/--
The directory holds the partials of the table, each in a file of its own that can be read, and it holds no
other files. No file has a name with a null character in it.
-/
structure Shelf (w : Workspace) (directory : Path) (extension : String) (table : List (Bytes × Bytes))
    : Prop where
  normal : directory.IsNormal
  isDirectory : w.isDirectory directory = true
  no_slash : '/' ∉ extension.toList
  files : ∀ place, w.locate directory.text = .ok place → ∀ file content,
    w.node? (place ++ [file]) = some (.file content)
      ↔ ∃ name, table.lookup name = some content ∧ file = fileName extension name
  labels : ∀ name content, table.lookup name = some content → IsLabel extension name
  no_null : ∀ name content, table.lookup name = some content → '\x00' ∉ extension.toList
  readable : ∀ name content, table.lookup name = some content →
    (filePath directory extension name).text ∉ w.unreadable

variable {w : Workspace} {directory : Path} {extension : String} {table : List (Bytes × Bytes)}
  {name : Bytes}

theorem not_mem_decode {c : Char} {b : UInt8} (hvalid : Utf8.Valid name) (hc : String.utf8EncodeChar c = [b])
    (hb : b ∉ name)
    : c ∉ (Utf8.decode name).toList := by
  intro hmem
  apply hb
  rw [← hvalid.encode_decode]
  exact List.mem_flatMap.mpr ⟨c, hmem, by simp [hc]⟩

theorem IsLabel.isPart (h : IsLabel extension name) (hextension : '/' ∉ extension.toList)
    : Path.IsPart (fileName extension name) := by
  constructor
  . intro hempty
    apply h.ne_nil
    have hdecode : Utf8.decode name = "" := by
      unfold fileName at hempty
      simpa using (String.append_eq_empty_iff.mp hempty).1
    rw [← h.valid.encode_decode, hdecode]
    rfl
  . exact h.ne_dot
  . unfold fileName
    rw [String.toList_append, List.mem_append, not_or]
    exact ⟨not_mem_decode h.valid (by decide) h.no_slash, hextension⟩

theorem IsLabel.filePath_eq (h : IsLabel extension name) (hextension : '/' ∉ extension.toList)
    (directory : Path)
    : filePath directory extension name =
        ⟨directory.anchor, directory.parts ++ [fileName extension name]⟩ := by
  unfold filePath
  rw [Path.ofText_of_isPart (h.isPart hextension)]
  rfl

theorem fileName_injective {name' : Bytes} (hvalid : Utf8.Valid name) (hvalid' : Utf8.Valid name')
    (h : fileName extension name = fileName extension name')
    : name = name' := by
  rw [← hvalid.encode_decode, ← hvalid'.encode_decode]
  unfold fileName at h
  rw [String.append_left_inj] at h
  rw [h]

/-- A null character can only come from the extension. -/
theorem Shelf.null_mem_extension (h : Shelf w directory extension table) (hname : IsLabel extension name)
    (hnull : '\x00' ∈ (filePath directory extension name).text.toList)
    : '\x00' ∈ extension.toList := by
  have hnone := Workspace.no_null_of_isDirectory h.isDirectory
  rcases Path.mem_of_mem_toList_text hnull with hdot | hslash | ⟨part, hpart, hc⟩
  . exact absurd hdot (by decide)
  . exact absurd hslash (by decide)
  . rw [hname.filePath_eq h.no_slash, List.mem_append, List.mem_singleton] at hpart
    rcases hpart with hpart | rfl
    . exact absurd (Path.mem_toList_text hpart hc) hnone
    . unfold fileName at hc
      rw [String.toList_append, List.mem_append] at hc
      rcases hc with hc | hc
      . exact absurd hc (not_mem_decode hname.valid (by decide) hname.no_null)
      . exact hc

theorem content_ofTable (table : List (Bytes × Bytes)) (name : Bytes)
    : (ofTable table name).map Loaded.content = .ok (table.lookup name) := by
  unfold ofTable
  cases table.lookup name <;> rfl

section

variable {settings : Settings} {path : Path}

theorem content_ofFiles_of_error {fault : FileFault} (hpath : settings.partialPath (Utf8.decode name) = .ok path)
    (hstat : w.stat path.text = .error fault) (hfault : fault ≠ .nameTooLong)
    : (ofFiles w settings name).map Loaded.content = .ok Option.none := by
  have hfind : w.find? path = .ok Option.none := by
    unfold Workspace.find?
    rw [hstat]
    cases fault <;> first | rfl | contradiction
  unfold ofFiles
  rw [hpath]
  dsimp only
  rw [hfind]
  rfl

theorem content_ofFiles_of_directory (hpath : settings.partialPath (Utf8.decode name) = .ok path)
    (hstat : w.stat path.text = .ok .directory)
    : (ofFiles w settings name).map Loaded.content = .ok Option.none := by
  unfold ofFiles Workspace.find?
  rw [hpath]
  dsimp only
  rw [hstat]
  rfl

theorem content_ofFiles_of_file {content : Bytes} (hpath : settings.partialPath (Utf8.decode name) = .ok path)
    (hstat : w.stat path.text = .ok (.file content)) (hreadable : path.text ∉ w.unreadable)
    : (ofFiles w settings name).map Loaded.content = .ok (some content) := by
  unfold ofFiles Workspace.find? Workspace.read Workspace.content
  rw [hpath]
  dsimp only
  rw [hstat]
  dsimp only
  rw [if_neg (by simpa using hreadable)]
  rfl

theorem ofFiles_of_long (hpath : settings.partialPath (Utf8.decode name) = .ok path)
    (hstat : w.stat path.text = .error .nameTooLong)
    : ofFiles w settings name = .error (.file ⟨.nameTooLong, path.text⟩) := by
  unfold ofFiles Workspace.find?
  rw [hpath]
  dsimp only
  rw [hstat]

end

theorem Shelf.lookup_eq_some_iff (h : Shelf w directory extension table) (hname : IsLabel extension name)
    {place : Location} (hplace : w.locate directory.text = .ok place) (content : Bytes)
    : table.lookup name = some content
        ↔ w.node? (place ++ [fileName extension name]) = some (.file content) := by
  rw [h.files place hplace]
  constructor
  . intro hlookup
    exact ⟨name, hlookup, rfl⟩
  . rintro ⟨name', hlookup, heq⟩
    rwa [fileName_injective hname.valid (h.labels name' content hlookup).valid heq]

theorem Shelf.lookup_eq_none (h : Shelf w directory extension table) (hname : IsLabel extension name)
    {place : Location} (hplace : w.locate directory.text = .ok place)
    (hfile : ∀ content, w.node? (place ++ [fileName extension name]) ≠ some (.file content))
    : table.lookup name = Option.none := by
  apply Option.eq_none_iff_forall_ne_some.mpr
  intro content hcontent
  exact hfile content ((h.lookup_eq_some_iff hname hplace content).mp hcontent)

theorem Shelf.locate_filePath (h : Shelf w directory extension table) (hname : IsLabel extension name)
    : ∃ place, w.locate directory.text = .ok place
        ∧ ('\x00' ∈ (filePath directory extension name).text.toList →
          w.locate (filePath directory extension name).text = .error .nullCharacter)
        ∧ ((filePath directory extension name).IsTooLong →
          w.locate (filePath directory extension name).text = .error .nameTooLong)
        ∧ ('\x00' ∉ (filePath directory extension name).text.toList →
          ¬ (filePath directory extension name).IsTooLong →
            w.locate (filePath directory extension name).text =
              .ok (place ++ [fileName extension name])) := by
  have hpath := hname.filePath_eq h.no_slash directory
  have hparent : (filePath directory extension name).parent = directory := by
    rw [hpath]
    simp [Path.parent]
  have hlast : (filePath directory extension name).name = fileName extension name := by
    rw [hpath]
    simp [Path.name]
  have hparts : (filePath directory extension name).parts ≠ [] := by
    rw [hpath]
    simp
  have hnormal : (filePath directory extension name).IsNormal := by
    intro part hpart
    rw [hpath, List.mem_append, List.mem_singleton] at hpart
    rcases hpart with hpart | rfl
    . exact h.normal part hpart
    . exact hname.isPart h.no_slash
  rcases Workspace.isDirectory_eq_true h.isDirectory with ⟨place, hplace, hnode⟩
  refine ⟨place, hplace, ?_⟩
  rw [← hlast]
  apply Workspace.locate_in_directory hnormal hparts
  . rw [hlast]
    exact hname.ne_up
  . rw [hparent]
    exact hplace
  . exact hnode

/-- Where the path is not too long, the file that it leads to holds what the table does. -/
theorem Shelf.agreeAt (h : Shelf w directory extension table) (hname : IsLabel extension name)
    (hshort : ¬ (filePath directory extension name).IsTooLong)
    : (ofFiles w ⟨.html, some directory, .text extension⟩).AgreeAt (ofTable table) name := by
  unfold AgreeAt
  rw [content_ofTable]
  have hsettings : Settings.partialPath ⟨.html, some directory, .text extension⟩ (Utf8.decode name) =
    .ok (filePath directory extension name) := rfl
  rcases h.locate_filePath hname with ⟨place, hplace, hrefused, _, hlocate⟩
  by_cases hnull : '\x00' ∈ (filePath directory extension name).text.toList
  . have hstat : w.stat (filePath directory extension name).text = .error .nullCharacter := by
      unfold Workspace.stat
      rw [hrefused hnull]
    rw [content_ofFiles_of_error hsettings hstat (by decide)]
    cases hfound : table.lookup name with
    | none => rfl
    | some content =>
      exact absurd (h.null_mem_extension hname hnull) (h.no_null name content hfound)
  . have hfile := hlocate hnull hshort
    cases hfound : w.node? (place ++ [fileName extension name]) with
    | none =>
      have hstat : w.stat (filePath directory extension name).text = .error .notFound := by
        unfold Workspace.stat
        rw [hfile]
        dsimp only
        rw [hfound]
      rw [content_ofFiles_of_error hsettings hstat (by decide), h.lookup_eq_none hname hplace]
      simp [hfound]
    | some node =>
      have hstat : w.stat (filePath directory extension name).text = .ok node := by
        unfold Workspace.stat
        rw [hfile]
        dsimp only
        rw [hfound]
      cases node with
      | file content =>
        have hcontent := (h.lookup_eq_some_iff hname hplace content).mpr hfound
        rw [content_ofFiles_of_file hsettings hstat (h.readable name content hcontent), hcontent]
      | directory =>
        rw [content_ofFiles_of_directory hsettings hstat, h.lookup_eq_none hname hplace]
        simp [hfound]

theorem Shelf.refuses (h : Shelf w directory extension table) (hname : IsLabel extension name)
    (hlong : (filePath directory extension name).IsTooLong)
    : ofFiles w ⟨.html, some directory, .text extension⟩ name =
        .error (.file ⟨.nameTooLong, (filePath directory extension name).text⟩) := by
  rcases h.locate_filePath hname with ⟨_, _, _, hrefused, _⟩
  apply ofFiles_of_long
  . rfl
  . unfold Workspace.stat
    rw [hrefused hlong]

end Resolver

namespace Engine

open Resolver

/--
Partials that are the files of a directory are found like those of the table, unless their path is too long:
then looking for the file fails. A render whose tags ask for no such names is the same with either.
-/
theorem files_agree_with_table {w : Workspace} {directory : Path} {extension : String}
    {table : List (Bytes × Bytes)} (h : Shelf w directory extension table)
    : (∀ name, IsLabel extension name →
        (¬ (filePath directory extension name).IsTooLong →
          (ofFiles w ⟨.html, some directory, .text extension⟩).AgreeAt (ofTable table) name)
        ∧ ((filePath directory extension name).IsTooLong →
          ofFiles w ⟨.html, some directory, .text extension⟩ name =
            .error (.file ⟨.nameTooLong, (filePath directory extension name).text⟩)))
      ∧ ∀ escape depth stack delims text,
          (∀ name ∈ (process ⟨escape, ofTable table⟩ depth stack delims text).insertions,
            IsLabel extension name ∧ ¬ (filePath directory extension name).IsTooLong) →
              (process ⟨escape, ofFiles w ⟨.html, some directory, .text extension⟩⟩ depth stack delims
                text).Agrees (process ⟨escape, ofTable table⟩ depth stack delims text) := by
  constructor
  . intro name hname
    exact ⟨h.agreeAt hname, h.refuses hname⟩
  . intro escape depth stack delims text hinserts
    apply process_agrees_of_resolvers _ escape depth stack delims text hinserts
    rintro name ⟨hname, hshort⟩
    exact h.agreeAt hname hshort

theorem files_agree_with_table_missing_partial
    : let w : Workspace := ⟨[], [(["d"], .directory), (["d", "a.m"], .file (Bytes.ofAscii "x{{>b}}"))], []⟩
      let table := [(Bytes.ofAscii "a", Bytes.ofAscii "x{{>b}}")]
      let files := ofFiles w ⟨.html, some (Path.ofText "d"), .text ".m"⟩
      let text := Bytes.ofAscii "[{{>a}}]"
      files.AgreeAt (ofTable table) (Bytes.ofAscii "a")
        ∧ (process ⟨id, files⟩ 3 [] .standard text).Agrees (process ⟨id, ofTable table⟩ 3 [] .standard text)
        ∧ (process ⟨id, ofTable table⟩ 3 [] .standard text).output = Bytes.ofAscii "[x]" := by
  have hlookup : ∀ name content,
      List.lookup name [(Bytes.ofAscii "a", Bytes.ofAscii "x{{>b}}")] = some content →
        name = Bytes.ofAscii "a" ∧ content = Bytes.ofAscii "x{{>b}}" := by
    intro name content h
    rw [List.lookup_cons] at h
    split at h
    . next heq =>
      injection h with h
      exact ⟨eq_of_beq heq, h.symm⟩
    . contradiction
  have ha : IsLabel ".m" (Bytes.ofAscii "a") :=
    ⟨(Utf8.isValid_iff _).mp (by decide +kernel), by decide, by decide, by decide, by decide +kernel,
      by decide +kernel⟩
  have hb : IsLabel ".m" (Bytes.ofAscii "b") :=
    ⟨(Utf8.isValid_iff _).mp (by decide +kernel), by decide, by decide, by decide, by decide +kernel,
      by decide +kernel⟩
  have hshort : ∀ name ∈ [Bytes.ofAscii "a", Bytes.ofAscii "b"],
      ¬ (filePath (Path.ofText "d") ".m" name).IsTooLong := by
    unfold Path.IsTooLong
    decide +kernel
  have hshelf : Shelf ⟨[], [(["d"], .directory), (["d", "a.m"], .file (Bytes.ofAscii "x{{>b}}"))], []⟩
      (Path.ofText "d") ".m" [(Bytes.ofAscii "a", Bytes.ofAscii "x{{>b}}")] := by
    constructor
    . exact Path.isNormal_ofText "d"
    . decide +kernel
    . decide
    . intro place hplace file content
      have hd : Workspace.locate
          ⟨[], [(["d"], .directory), (["d", "a.m"], .file (Bytes.ofAscii "x{{>b}}"))], []⟩
          (Path.ofText "d").text = .ok ["d"] := by
        rfl
      rw [hd] at hplace
      injection hplace with hplace
      subst hplace
      have hfile : fileName ".m" (Bytes.ofAscii "a") = "a.m" := by decide +kernel
      constructor
      . intro hnode
        by_cases heq : file = "a.m"
        . subst heq
          injection hnode with hnode
          injection hnode with hcontent
          exact ⟨Bytes.ofAscii "a", by rw [← hcontent]; rfl, hfile.symm⟩
        . have hne := beq_false_of_ne heq
          simp [Workspace.node?, List.lookup_cons, hne] at hnode
      . rintro ⟨name, hname, rfl⟩
        rcases hlookup name content hname with ⟨rfl, rfl⟩
        rw [hfile]
        rfl
    . intro name content h
      rw [(hlookup name content h).1]
      exact ha
    . intro _ _ _
      decide
    . intro _ _ _
      simp
  have hagree := files_agree_with_table hshelf
  refine ⟨(hagree.1 _ ha).1 (hshort _ (by simp)), ?_, by decide +kernel⟩
  apply hagree.2 id 3 [] .standard
  have hinsertions : (process ⟨id, ofTable [(Bytes.ofAscii "a", Bytes.ofAscii "x{{>b}}")]⟩ 3 [] .standard
      (Bytes.ofAscii "[{{>a}}]")).insertions = [Bytes.ofAscii "a", Bytes.ofAscii "b"] := by
    decide +kernel
  rw [hinsertions]
  intro name hname
  refine ⟨?_, hshort name hname⟩
  simp only [List.mem_cons, List.not_mem_nil, or_false] at hname
  rcases hname with rfl | rfl
  . exact ha
  . exact hb

end Engine

end Mustache
