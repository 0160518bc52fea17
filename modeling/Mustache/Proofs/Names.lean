import Mustache.Partials
import Mustache.Proofs.Command
import Mustache.Proofs.Step

/-!
This module contains the names that are written in texts. The name that a tag asks for is a piece of the
text around it, so no tag asks for a name that is written nowhere.
-/

namespace Mustache

namespace Bytes

theorem trim_infix (text : Bytes) : trim text <:+: text := by
  rcases trim_split text with ⟨left, right, _, _, hsplit⟩
  exact ⟨left, right, hsplit.symm⟩

end Bytes

namespace Tag

theorem body_infix_of_find? {text : Bytes} {marks : Marks} {pos : Nat} {tag : Tag}
    (h : find? text marks pos = some tag)
    : tag.body <:+: text := by
  rw [find?_eq_some_iff] at h
  rcases h with ⟨bodyStop, _, _, _, _, hbody⟩
  rw [hbody]
  apply Bytes.slice_infix

end Tag

/-- The name that is looked up for a tag, in the data or among the partials. -/
def Action.name? (action : Action) : Option Bytes :=
  match action with
  | .variable _ name => some name
  | .enter _ name _ => some name
  | .insert name => some name
  | _ => none

namespace Step

theorem ofSection_name? {text name : Bytes} {delims : Delimiters} {tag : Tag} {inverted : Bool}
    (h : (ofSection text delims tag inverted).action.name? = some name)
    : name = tag.body.drop 1 := by
  unfold ofSection at h
  dsimp only at h
  split at h
  . contradiction
  . injection h with h
    exact h.symm

theorem ofTag_name? {text name : Bytes} {delims : Delimiters} {tag : Tag}
    (h : (ofTag text delims tag).action.name? = some name)
    : name <:+: tag.body := by
  have hdrop : tag.body.drop 1 <:+: tag.body := (List.drop_suffix 1 tag.body).isInfix
  have htrim := (Bytes.trim_infix (tag.body.drop 1)).trans hdrop
  unfold ofTag at h
  split at h
  . contradiction
  split at h
  . injection h with h
    rwa [← h]
  split at h
  . rwa [ofSection_name? h]
  split at h
  . rwa [ofSection_name? h]
  split at h
  . split at h <;> contradiction
  split at h
  . injection h with h
    rwa [← h]
  . injection h with h
    rw [← h]
    apply Bytes.trim_infix

theorem name_infix_of_next? {text name : Bytes} {delims : Delimiters} {pos : Nat} {step : Step}
    (h : next? text delims pos = some step) (hname : step.action.name? = some name)
    : name <:+: text := by
  rcases next?_eq_some h with ⟨htag, hstep⟩
  rw [hstep] at hname
  exact (ofTag_name? hname).trans (Tag.body_infix_of_find? htag)

end Step

namespace Resolver

/-- The partial called `name` can be loaded, and `content` is what it holds. -/
def Loads (resolver : Resolver) (name content : Bytes) : Prop :=
  ∃ answer, resolver name = .ok answer ∧ answer.content = some content

theorem mem_of_loads {table : List (Bytes × Bytes)} {name content : Bytes}
    (h : (ofTable table).Loads name content)
    : (name, content) ∈ table := by
  rcases h with ⟨answer, hanswer, hcontent⟩
  unfold ofTable at hanswer
  split at hanswer
  . next found hfound =>
    injection hanswer with hanswer
    rw [← hanswer] at hcontent
    injection hcontent with hcontent
    rw [← hcontent]
    rcases List.lookup_eq_some_iff.mp hfound with ⟨before, after, htable, _⟩
    simp [htable]
  . injection hanswer with hanswer
    rw [← hanswer] at hcontent
    contradiction

/-- The bytes stand in the template, or in a partial that can be loaded. -/
def Written (resolver : Resolver) (template bytes : Bytes) : Prop :=
  bytes <:+: template ∨ ∃ name content, resolver.Loads name content ∧ bytes <:+: content

theorem Written.of_part {resolver : Resolver} {template bytes part : Bytes}
    (h : resolver.Written template bytes) (hpart : part <:+: bytes)
    : resolver.Written template part := by
  rcases h with htemplate | ⟨name, content, hloads, hcontent⟩
  . exact .inl (hpart.trans htemplate)
  . exact .inr ⟨name, content, hloads, hpart.trans hcontent⟩

end Resolver

end Mustache
