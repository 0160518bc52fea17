import Mustache.Workspace

/-!
This module contains what file operations do to the tree of files: no file is changed by making
directories, and none but the one that is written by writing.
-/

namespace Mustache

namespace Workspace

variable {w w' w'' : Workspace} {place : Location} {path : Path}

def file? (w : Workspace) (place : Location) : Option Bytes :=
  match w.node? place with
  | some (.file content) => some content
  | _ => none

theorem lookup_filter_ne {place other : Location} (h : other ≠ place) (nodes : List (Location × Node))
    : (nodes.filter fun entry => entry.1 ≠ place).lookup other = nodes.lookup other := by
  induction nodes with
  | nil => rfl
  | cons entry nodes ih =>
    by_cases hentry : entry.1 = place
    . have hne : (other == entry.1) = false := by simp [hentry, h]
      rw [List.filter_cons_of_neg (by simp [hentry]), List.lookup_cons, hne]
      exact ih
    . rw [List.filter_cons_of_pos (by simp [hentry]), List.lookup_cons, List.lookup_cons, ih]

theorem node?_put_of_ne {other : Location} (node : Node) (h : other ≠ place)
    : (w.put place node).node? other = w.node? other := by
  have hne : (other == place) = false := by simp [h]
  unfold node? put
  rw [List.lookup_cons, hne]
  dsimp only
  rw [lookup_filter_ne h]

theorem node?_put_self (node : Node) (h : w.node? place ≠ some .directory)
    : (w.put place node).node? place = some node := by
  unfold node? at h ⊢
  split at h
  . contradiction
  . next hprefix => simp [put, hprefix]

/-- Directories are added where nothing was. -/
structure Grows (w w' : Workspace) : Prop where
  home : w'.home = w.home
  unreadable : w'.unreadable = w.unreadable
  node? : ∀ place, w'.node? place = w.node? place
    ∨ w.node? place = none ∧ w'.node? place = some .directory

namespace Grows

theorem refl (w : Workspace) : w.Grows w where
  home := rfl
  unreadable := rfl
  node? _ := .inl rfl

theorem node?_of_some (h : w.Grows w') {node : Node} (hnode : w.node? place = some node)
    : w'.node? place = some node := by
  rcases h.node? place with heq | ⟨hnone, _⟩
  . rw [heq, hnode]
  . rw [hnone] at hnode
    contradiction

theorem trans (h : w.Grows w') (h' : w'.Grows w'') : w.Grows w'' where
  home := h'.home.trans h.home
  unreadable := h'.unreadable.trans h.unreadable
  node? place := by
    rcases h.node? place with heq | ⟨hnone, hmade⟩
    . rw [← heq]
      exact h'.node? place
    . exact .inr ⟨hnone, h'.node?_of_some hmade⟩

theorem file?_eq (h : w.Grows w') (place : Location) : w'.file? place = w.file? place := by
  unfold file?
  rcases h.node? place with heq | ⟨hnone, hmade⟩
  . rw [heq]
  . rw [hnone, hmade]

end Grows

theorem grows_of_makeDirectory (h : w.makeDirectory path = .ok w') : w.Grows w' := by
  unfold makeDirectory at h
  split at h
  . contradiction
  . next place _ =>
    split at h
    . contradiction
    . next hnone =>
      injection h with h
      subst h
      refine ⟨rfl, rfl, ?_⟩
      intro other
      by_cases hother : other = place
      . subst hother
        refine .inr ⟨hnone, node?_put_self _ ?_⟩
        simp [hnone]
      . exact .inl (node?_put_of_ne _ hother)

theorem grows_of_ensureDirectory (h : w.ensureDirectory path = .ok w') : w.Grows w' := by
  unfold ensureDirectory at h
  split at h
  . next hmade =>
    injection h with h
    subst h
    exact grows_of_makeDirectory hmade
  . split at h
    . injection h with h
      subst h
      exact .refl w
    . contradiction

/-- Whether all the directories can be made or not, there is nothing else that changes. -/
theorem grows_ensureDirectories (w : Workspace) (path : Path) : w.Grows (w.ensureDirectories path).1 := by
  rw [ensureDirectories]
  split
  . next hmade => exact grows_of_ensureDirectory hmade
  . split
    . next hparent =>
      have : path.parent.parts.length < path.parts.length := by
        have := List.length_pos_iff.mpr hparent.2
        simp only [Path.parent, List.length_dropLast]
        omega
      have hgrows := grows_ensureDirectories w path.parent
      split
      . next heq =>
        rw [heq] at hgrows
        exact hgrows
      . next heq =>
        rw [heq] at hgrows
        split
        . next hmade => exact hgrows.trans (grows_of_ensureDirectory hmade)
        . exact hgrows
    . exact .refl w
termination_by path.parts.length

theorem follow_eq_ok {start : Location} {parts : List String}
    (hdirectories : ∀ place, w.node? place = some .directory → w'.node? place = some .directory)
    (h : w.follow start parts = .ok place)
    : w'.follow start parts = .ok place := by
  induction parts generalizing start with
  | nil => exact h
  | cons part rest ih =>
    unfold follow at h ⊢
    split at h
    . contradiction
    . contradiction
    . next hdirectory =>
      rw [hdirectories start hdirectory]
      dsimp only
      split at h
      . next hdot =>
        rw [if_pos hdot]
        exact ih h
      . next hdot =>
        rw [if_neg hdot]
        split at h
        . next hup =>
          rw [if_pos hup]
          exact ih h
        . next hup =>
          rw [if_neg hup]
          split at h
          . contradiction
          . next hlong =>
            rw [if_neg hlong]
            exact ih h

theorem locate_eq_ok {text : String} (hhome : w'.home = w.home)
    (hdirectories : ∀ place, w.node? place = some .directory → w'.node? place = some .directory)
    (h : w.locate text = .ok place)
    : w'.locate text = .ok place := by
  unfold locate at h ⊢
  split at h
  . contradiction
  . next hnull =>
    rw [if_neg hnull]
    split at h
    . contradiction
    . next hempty =>
      rw [if_neg hempty]
      split at h
      . contradiction
      . next hlong =>
        rw [if_neg hlong, hhome]
        exact follow_eq_ok hdirectories h

theorem Grows.stat_eq_ok (h : w.Grows w') {text : String} {node : Node} (hstat : w.stat text = .ok node)
    : w'.stat text = .ok node := by
  unfold stat at hstat ⊢
  split at hstat
  . contradiction
  . next place hplace =>
    rw [locate_eq_ok h.home (fun _ => h.node?_of_some) hplace]
    split at hstat
    . contradiction
    . next hnode =>
      rw [← hstat]
      dsimp only
      rw [h.node?_of_some hnode]

theorem write_eq_ok {content : Bytes} (h : w.write path content = .ok w')
    : ∃ place, w.locate path.text = .ok place ∧ w.node? place ≠ some .directory
        ∧ w' = w.put place (.file content) := by
  unfold write at h
  split at h
  . contradiction
  . next place hplace =>
    split at h
    . contradiction
    . next hnode =>
      injection h with h
      exact ⟨place, hplace, hnode, h.symm⟩

/-- The file at the path gets a content, and no other file is changed, made or removed. -/
structure Replaces (w w' : Workspace) (path : Path) (content : Bytes) : Prop where
  content : w'.content path = .ok content
  others : ∀ place, w'.locate path.text ≠ .ok place → w'.file? place = w.file? place

theorem Grows.then_replaces (h : w.Grows w') {content : Bytes} (hreplaces : w'.Replaces w'' path content)
    : w.Replaces w'' path content where
  content := hreplaces.content
  others place hplace := (hreplaces.others place hplace).trans (h.file?_eq place)

theorem Grows.replaces (h : w.Grows w') {content : Bytes} (hwrite : w'.write path content = .ok w'')
    : w.Replaces w'' path content := by
  rcases write_eq_ok hwrite with ⟨place, hplace, hnode, rfl⟩
  have hlocate : (w'.put place (.file content)).locate path.text = .ok place := by
    have hhome : (w'.put place (.file content)).home = w'.home := rfl
    apply locate_eq_ok hhome _ hplace
    intro other hother
    have hne : other ≠ place := by
      rintro rfl
      exact hnode hother
    rw [node?_put_of_ne _ hne, hother]
  constructor
  . unfold Workspace.content stat
    rw [hlocate]
    dsimp only
    rw [node?_put_self _ hnode]
  . intro other hother
    have hne : other ≠ place := by
      rintro rfl
      exact hother hlocate
    rw [← h.file?_eq other]
    unfold file?
    rw [node?_put_of_ne _ hne]

end Workspace

end Mustache
