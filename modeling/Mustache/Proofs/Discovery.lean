import Mustache.Config.File
import Mustache.Proofs.Places
import Mustache.Proofs.Usable
import Mustache.Yaml.Loader

/-!
This module contains configuration files that are found and those that are named. What is found has an absolute path
and what is named may have a relative one. Where both lead to one file, the same is read from it, and seen from the
directory that the program runs in they also have the same base.
-/

namespace Mustache

namespace Path

variable {path other last : Path} {parts : List String}

theorem join_assoc (path other last : Path) : path.join (other.join last) = (path.join other).join last := by
  unfold join
  cases hlast : last.isAbsolute with
  | true => simp [hlast]
  | false =>
    cases hother : other.isAbsolute with
    | true =>
      have hjoined : isAbsolute ⟨other.anchor, other.parts ++ last.parts⟩ = true := hother
      simp [hjoined]
    | false =>
      have hjoined : isAbsolute ⟨other.anchor, other.parts ++ last.parts⟩ = false := hother
      simp [hjoined]

theorem join_of_isAbsolute (h : other.isAbsolute = true) (path : Path) : path.join other = other := by
  unfold join
  rw [if_pos h]

theorem join_of_relative (h : other.anchor = .relative) (path : Path)
    : path.join other = ⟨path.anchor, path.parts ++ other.parts⟩ := by
  unfold join isAbsolute
  rw [h]
  rfl

theorem isNormal_join (h : path.IsNormal) (hother : other.IsNormal) : (path.join other).IsNormal := by
  unfold join
  split
  . exact hother
  . intro part hpart
    rcases List.mem_append.mp hpart with hpart | hpart
    . exact h part hpart
    . exact hother part hpart

theorem collapse_of_no_up (h : ".." ∉ parts) : collapse parts = parts := by
  have hfoldl (kept : List String)
      : parts.foldl (fun kept part => if part = ".." then kept.dropLast else kept ++ [part]) kept = kept ++ parts := by
    induction parts generalizing kept with
    | nil => simp
    | cons part parts ih =>
      rw [List.mem_cons, not_or] at h
      rw [List.foldl_cons, if_neg (Ne.symm h.1), ih h.2, List.append_assoc, List.singleton_append]
  exact hfoldl []

end Path

namespace Workspace

variable {w : Workspace} {path path' file : Path} {node : Node}

def directory (w : Workspace) : Path :=
  ⟨.root, w.home⟩

/-- A path as seen from the directory that the program runs in. -/
def absolute (w : Workspace) (path : Path) : Path :=
  w.directory.join path

theorem absolute_join (w : Workspace) (path other : Path)
    : w.absolute (path.join other) = (w.absolute path).join other :=
  Path.join_assoc ..

theorem absolute_of_relative (w : Workspace) (h : path.anchor = .relative)
    : w.absolute path = ⟨.root, w.home ++ path.parts⟩ :=
  Path.join_of_relative h w.directory

/--
The directory that the program runs in has names that lead to it, and the paths of configuration files in it are
short enough to be looked up.
-/
structure IsRooted (w : Workspace) : Prop where
  isPart : ∀ part ∈ w.home, Path.IsPart part
  no_up : ".." ∉ w.home
  no_null : ∀ part ∈ w.home, '\x00' ∉ part.toList
  name_length : ∀ part ∈ w.home, (Utf8.encode part).length ≤ maxNameLength
  text_length : ∀ file ∈ [Config.hiddenFile, Config.plainFile],
    (Utf8.encode (w.absolute file).text).length ≤ maxPathLength

/-- The configuration file of the directory that the program runs in. A hidden one hides a plain one. -/
inductive HasConfig (w : Workspace) : Path → Prop where
  | hidden {node : Node} (h : w.find? Config.hiddenFile = .ok (some node)) : HasConfig w Config.hiddenFile
  | plain {node : Node} (hhidden : w.find? Config.hiddenFile = .ok none)
    (h : w.find? Config.plainFile = .ok (some node)) : HasConfig w Config.plainFile

theorem HasConfig.exists_node (h : w.HasConfig file) : ∃ node, w.find? file = .ok (some node) := by
  cases h with
  | hidden hhidden => exact ⟨_, hhidden⟩
  | plain _ hplain => exact ⟨_, hplain⟩

theorem HasConfig.mem (h : w.HasConfig file) : file ∈ [Config.hiddenFile, Config.plainFile] := by
  cases h <;> simp

theorem IsRooted.isNormal_absolute (h : w.IsRooted) (hnormal : path.IsNormal) : (w.absolute path).IsNormal :=
  @Path.isNormal_join w.directory path h.isPart hnormal

theorem IsRooted.follow_home (h : w.IsRooted) : w.follow [] w.home = .ok w.home := by
  have hfollow (place rest : Location) (hplace : place ++ rest = w.home) : w.follow place rest = .ok w.home := by
    induction rest generalizing place with
    | nil => simpa [follow] using hplace
    | cons part rest ih =>
      have hpart : part ∈ w.home := by simp [← hplace]
      have hup : part ≠ ".." := by
        rintro rfl
        exact h.no_up hpart
      have hdirectory : w.node? place = some .directory := by
        unfold node?
        rw [if_pos]
        rw [List.isPrefixOf_iff_prefix, ← hplace]
        exact List.prefix_append ..
      have hstep := follow_part (h.isPart part hpart) hdirectory
      rw [if_neg hup, if_neg (Nat.not_lt.mpr (h.name_length part hpart))] at hstep
      rw [← List.singleton_append, follow_append, hstep]
      apply ih
      simp [hplace]
  exact hfollow [] w.home rfl

theorem IsRooted.null_mem_absolute_iff (h : w.IsRooted) (hrelative : path.anchor = .relative)
    : '\x00' ∈ (w.absolute path).text.toList ↔ '\x00' ∈ path.text.toList := by
  have hparts : (w.absolute path).parts = w.home ++ path.parts := by
    rw [w.absolute_of_relative hrelative]
  constructor
  . intro hnull
    rcases Path.mem_of_mem_toList_text hnull with hdot | hslash | ⟨part, hpart, hc⟩
    . contradiction
    . contradiction
    . rw [hparts, List.mem_append] at hpart
      rcases hpart with hpart | hpart
      . exact absurd hc (h.no_null part hpart)
      . exact Path.mem_toList_text hpart hc
  . intro hnull
    rcases Path.mem_of_mem_toList_text hnull with hdot | hslash | ⟨part, hpart, hc⟩
    . contradiction
    . contradiction
    . apply Path.mem_toList_text _ hc
      rw [hparts]
      exact List.mem_append_right w.home hpart

theorem IsRooted.locate_absolute (h : w.IsRooted) (hnormal : path.IsNormal) (hrelative : path.anchor = .relative)
    (hlength : (Utf8.encode path.text).length ≤ maxPathLength)
    (hlength' : (Utf8.encode (w.absolute path).text).length ≤ maxPathLength)
    : w.locate (w.absolute path).text = w.locate path.text := by
  have habsolute := w.absolute_of_relative hrelative
  have hstart : w.startOf (w.absolute path) = [] := by simp [startOf, habsolute]
  have hstart' : w.startOf path = w.home := by simp [startOf, hrelative]
  have hparts : (w.absolute path).parts = w.home ++ path.parts := by rw [habsolute]
  rw [w.locate_text (h.isNormal_absolute hnormal), w.locate_text hnormal,
    if_neg (Nat.not_lt.mpr hlength), if_neg (Nat.not_lt.mpr hlength'), hstart, hstart', hparts, follow_append,
    h.follow_home]
  simp only [h.null_mem_absolute_iff hrelative]
  rfl

theorem IsRooted.stat_absolute (h : w.IsRooted) (hfile : file ∈ [Config.hiddenFile, Config.plainFile])
    : w.stat (w.absolute file).text = w.stat file.text := by
  have hlocate : w.locate (w.absolute file).text = w.locate file.text := by
    have hlength := h.text_length file hfile
    rw [List.mem_cons, List.mem_singleton] at hfile
    rcases hfile with rfl | rfl
    . apply h.locate_absolute _ (by decide) (by decide) hlength
      exact Path.isNormal_join (Path.isNormal_ofText _) (Path.isNormal_ofText _)
    . exact h.locate_absolute (Path.isNormal_ofText _) (by decide) (by decide) hlength
  unfold stat
  rw [hlocate]

theorem find?_of_stat_eq (h : w.stat path.text = w.stat path'.text)
    : w.find? path' = (w.find? path).mapError fun error => ⟨error.fault, path'.text⟩ := by
  unfold find?
  rw [h]
  split <;> rfl

end Workspace

/-- The error without its message, which may tell what the file is called. -/
def LoadFault.unplaced (fault : LoadFault) : LoadFault :=
  { fault with message := "" }

def DocumentError.unplaced : DocumentError → DocumentError
  | file error => file { error with path := "" }
  | encoding fault => encoding fault
  | load fault => load fault.unplaced

def ConfigError.unplaced : ConfigError → ConfigError
  | fileNotMapping _ => fileNotMapping ""
  | document error => document error.unplaced
  | error => error

/-- What an open file is called matters for nothing but the messages. -/
structure Loader.IgnoresName (loader : Loader) : Prop where
  ofStream : ∀ name name' content,
    (loader.ofStream name content).mapError LoadFault.unplaced
        =
      (loader.ofStream name' content).mapError LoadFault.unplaced

theorem Yaml.loader_ignoresName : Yaml.loader.IgnoresName where
  ofStream name name' content := by
    unfold Yaml.loader
    dsimp only
    cases Utf8.fault? content with
    | some fault => rfl
    | none =>
      dsimp only
      cases Yaml.document (unifyBreaks (Utf8.decode content).toList) with
      | error fault => rfl
      | ok value => rfl

theorem Loader.IgnoresName.readStream {loader : Loader} {w : Workspace} {path path' : Path}
    (h : loader.IgnoresName) (hstat : w.stat path.text = w.stat path'.text)
    : (loader.readStream w path).mapError DocumentError.unplaced
        =
      (loader.readStream w path').mapError DocumentError.unplaced := by
  unfold Loader.readStream
  apply bind_mapError_congr
  . unfold Workspace.content
    rw [← hstat]
    split <;> rfl
  . intro content
    rw [mapError_mapError, mapError_mapError]
    change (loader.ofStream _ _).mapError (DocumentError.load ∘ LoadFault.unplaced)
      = (loader.ofStream _ _).mapError (DocumentError.load ∘ LoadFault.unplaced)
    rw [← mapError_mapError, h.ofStream path.text path'.text, mapError_mapError]

namespace Config

section Reading

variable {loader : Loader} {w : Workspace} {vars : Variables}

def withPath (config : Config) (path : Path) : Config :=
  { config with path := some path }

theorem fieldsOf_unplaced (path path' : Path) (value : Value Text)
    : (fieldsOf path value).mapError ConfigError.unplaced
        =
      (fieldsOf path' value).mapError ConfigError.unplaced := by
  unfold fieldsOf
  split
  . rfl
  . split <;> rfl

theorem ofFile_eq (loader : Loader) (w : Workspace) (vars : Variables) (path : Path)
    : ofFile loader w vars path
        =
      ((loader.readStream w path).mapError .document >>= fun value =>
        fieldsOf path value >>= ofDocument vars).map (·.withPath path) := by
  unfold ofFile
  cases loader.readStream w path with
  | error error => rfl
  | ok value =>
    dsimp only [Except.mapError, bind, Except.bind]
    cases fieldsOf path value <;> rfl

theorem withPath_of_ofFile {path : Path} {config : Config} (h : ofFile loader w vars path = .ok config)
    : config.withPath path = config := by
  rw [ofFile_eq] at h
  rcases map_eq_ok h with ⟨read, _, rfl⟩
  rfl

theorem ofFile_of_stat_eq {path path' : Path} (hloader : loader.IgnoresName)
    (h : w.stat path.text = w.stat path'.text)
    : (ofFile loader w vars path').mapError ConfigError.unplaced
        =
      ((ofFile loader w vars path).mapError ConfigError.unplaced).map (·.withPath path') := by
  have hread : ((loader.readStream w path').mapError ConfigError.document).mapError ConfigError.unplaced
      = ((loader.readStream w path).mapError ConfigError.document).mapError ConfigError.unplaced := by
    rw [mapError_mapError, mapError_mapError]
    change (loader.readStream w path').mapError (ConfigError.document ∘ DocumentError.unplaced)
      = (loader.readStream w path).mapError (ConfigError.document ∘ DocumentError.unplaced)
    rw [← mapError_mapError, ← hloader.readStream h, mapError_mapError]
  have hfields : ∀ value, (fieldsOf path' value >>= ofDocument vars).mapError ConfigError.unplaced
      = (fieldsOf path value >>= ofDocument vars).mapError ConfigError.unplaced := by
    intro value
    exact bind_mapError_congr (fieldsOf_unplaced path' path value) fun _ => rfl
  rw [ofFile_eq, ofFile_eq, mapError_map, mapError_map, bind_mapError_congr hread hfields]
  cases (((loader.readStream w path).mapError ConfigError.document) >>= _).mapError ConfigError.unplaced with
  | error error => rfl
  | ok config => rfl

end Reading

section Finding

variable {w : Workspace} {file : Path}

theorem resolve_dot (h : w.IsRooted) : w.resolve (.ofText ".") = w.directory := by
  have hdot : Path.ofText "." = ⟨.relative, []⟩ := by decide
  unfold Workspace.resolve
  rw [hdot]
  change (⟨.root, Path.collapse (w.home ++ [])⟩ : Path) = _
  rw [List.append_nil, Path.collapse_of_no_up h.no_up]
  rfl

theorem find?_absolute (h : w.IsRooted) (hfile : file ∈ [hiddenFile, plainFile]) {node? : Option Node}
    (hfind : w.find? file = .ok node?)
    : w.find? (w.absolute file) = .ok node? := by
  rw [Workspace.find?_of_stat_eq (h.stat_absolute hfile).symm, hfind]
  rfl

theorem find?_of_hasConfig (h : w.IsRooted) (hfile : w.HasConfig file)
    : find? w (.ofText ".") = .ok (some (w.absolute file)) := by
  have hnull : '\x00' ∉ (Path.ofText ".").text.toList := by decide
  unfold find?
  rw [if_neg hnull, resolve_dot h]
  cases hfile with
  | hidden hhidden =>
    have hfound := find?_absolute h (by simp) hhidden
    unfold Workspace.absolute at hfound
    dsimp only [bind, Except.bind]
    rw [hfound]
    rfl
  | plain hnone hplain =>
    have hmissed := find?_absolute h (by simp) hnone
    have hfound := find?_absolute h (by simp) hplain
    unfold Workspace.absolute at hmissed hfound
    dsimp only [bind, Except.bind]
    rw [hmissed]
    dsimp only [Option.isSome_none]
    rw [hfound]
    rfl

theorem load_found (loader : Loader) (h : w.IsRooted) (hfile : w.HasConfig file) (vars : Variables)
    : load loader w vars none true = ofFile loader w vars (w.absolute file) := by
  unfold load locate?
  rw [if_pos rfl, find?_of_hasConfig h hfile]
  rfl

theorem load_named (loader : Loader) (hfile : w.HasConfig file) (vars : Variables) (discover : Bool)
    : load loader w vars (some file) discover = ofFile loader w vars file := by
  rcases hfile.exists_node with ⟨node, hnode⟩
  unfold load locate?
  dsimp only
  rw [hnode]
  rfl

end Finding

section Using

variable {w : Workspace} {file : Path}

theorem base_absolute (hfile : w.HasConfig file) (hname : w.home.getLast? ≠ some ".stache")
    : base (w.absolute file) = w.directory := by
  cases hfile with
  | hidden =>
    have habsolute : w.absolute hiddenFile = ⟨.root, w.home ++ [".stache", "config.yaml"]⟩ :=
      w.absolute_of_relative (by decide)
    have hparent : (w.absolute hiddenFile).parent = ⟨.root, w.home ++ [".stache"]⟩ := by
      simp [habsolute, Path.parent]
    unfold base
    rw [hparent, if_pos (by simp [Path.name])]
    simp [Path.parent, Workspace.directory]
  | plain =>
    have habsolute : w.absolute plainFile = ⟨.root, w.home ++ ["stache.yaml"]⟩ :=
      w.absolute_of_relative (by decide)
    have hparent : (w.absolute plainFile).parent = w.directory := by
      simp [habsolute, Path.parent, Workspace.directory]
    have hother : w.directory.name ≠ ".stache" := by
      unfold Workspace.directory Path.name
      rw [List.getLastD_eq_getLast?]
      cases hlast : w.home.getLast? with
      | none => decide
      | some part =>
        rintro rfl
        exact hname hlast
    unfold base
    rw [hparent, if_neg hother]

theorem absolute_base (hfile : w.HasConfig file) (hname : w.home.getLast? ≠ some ".stache")
    : w.absolute (base (w.absolute file)) = w.absolute (base file) := by
  have hbase : base file = ⟨.relative, []⟩ := by
    cases hfile <;> decide
  have hhere : w.absolute ⟨.relative, []⟩ = w.directory := by simp [Workspace.absolute, Path.join, Path.isAbsolute]
  rw [base_absolute hfile hname, hbase, hhere]
  exact Path.join_of_isAbsolute (by rfl) w.directory

end Using

end Config

/-- What settings come to: the escaping, and for every name of a partial the absolute path of its file. -/
def Settings.view (w : Workspace) (settings : Settings) : Escape × (String → Except Failure Path) :=
  (settings.escape, fun name => (settings.partialPath name).map w.absolute)

theorem Settings.view_congr {w : Workspace} {settings settings' : Settings}
    (hescape : settings.escape = settings'.escape)
    (hdirectory : settings.directory.map w.absolute = settings'.directory.map w.absolute)
    (hextension : settings.extension = settings'.extension)
    : settings.view w = settings'.view w := by
  unfold view
  rw [hescape, Prod.mk.injEq]
  refine ⟨rfl, ?_⟩
  funext name
  unfold partialPath
  rw [hextension]
  cases hfound : settings.directory with
  | none =>
    rw [hfound, Option.map_none, eq_comm, Option.map_eq_none_iff] at hdirectory
    rw [hdirectory]
  | some directory =>
    rw [hfound, Option.map_some, eq_comm, Option.map_eq_some_iff] at hdirectory
    rcases hdirectory with ⟨directory', hnamed, hsame⟩
    rw [hnamed]
    split
    . simp [Except.map, Workspace.absolute_join, hsame]
    . split
      . rfl
      . simp [Except.map, Workspace.absolute_join, hsame]

namespace Config

theorem partialsDirectory_of_path {config : Config} {path : Path} {s : String} (hs : config.directory = .text s)
    (htrue : config.directory.isTrue = true)
    : (config.withPath path).partialsDirectory = .ok (some ((base path).join (.ofText s))) := by
  unfold partialsDirectory withPath
  dsimp only
  rw [if_pos htrue, hs]

theorem settings_view (w : Workspace) (config : Config) {path path' : Path}
    (hbase : w.absolute (base path) = w.absolute (base path'))
    : (config.withPath path).settings.map (·.view w) = (config.withPath path').settings.map (·.view w) := by
  by_cases htext : config.directory.IsOptionalText
  . by_cases htrue : config.directory.isTrue = true
    . rcases htext htrue with ⟨s, hs⟩
      unfold settings
      rw [partialsDirectory_of_path hs htrue, partialsDirectory_of_path hs htrue]
      exact congrArg Except.ok (Settings.view_congr rfl (by simp [Workspace.absolute_join, hbase]) rfl)
    . have hsettings (path : Path) : (config.withPath path).settings = .ok ⟨config.escape, none, config.extension⟩ := by
        unfold settings partialsDirectory withPath
        dsimp only
        rw [if_neg htrue]
        rfl
      rw [hsettings, hsettings]
  . have hsettings (path : Path)
        : (config.withPath path).settings = .error (.directoryNotText config.directory.typeName) := by
      unfold settings
      rw [@partialsDirectory_of_not_text (config.withPath path) htext]
      rfl
    rw [hsettings, hsettings]

end Config

end Mustache
