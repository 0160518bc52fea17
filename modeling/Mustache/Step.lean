import Mustache.Tag

/-!
This module contains what a tag asks for, as far as the text around it tells: the data that the
template is rendered with has no say in it.
-/

namespace Mustache

inductive Action where
  | comment
  | variable (escaped : Bool) (name : Bytes)
  | enter (inverted : Bool) (name body : Bytes)
  | unclosed (inverted : Bool) (name : Bytes)
  | insert (name : Bytes)
  | delimiters (new : Delimiters)
  | badDelimiters (body : Bytes)
  deriving DecidableEq

/--
One tag of a text: the delimiters it was found with, its action, and the offset and the delimiters
with which the text continues.
-/
structure Step where
  delims : Delimiters
  tag : Tag
  action : Action
  resume : Nat
  next : Delimiters
  deriving DecidableEq

namespace Step

def bang : UInt8 := 0x21
def hash : UInt8 := 0x23
def ampersand : UInt8 := 0x26
def greater : UInt8 := 0x3E
def caret : UInt8 := 0x5E

/--
A section. The newline after the opening tag is not part of the body, and if the body holds one of its
own, the newline after the closing tag is dropped too.
-/
def ofSection (text : Bytes) (delims : Delimiters) (tag : Tag) (inverted : Bool) : Step :=
  let name := tag.body.drop 1
  match Tag.findClosing? text delims.toMarks name tag.stop with
  | none => ⟨delims, tag, .unclosed inverted name, tag.stop, delims⟩
  | some closing =>
    let body := Bytes.slice text (Bytes.skipNewline text tag.stop) closing.start
    let resume :=
      if Bytes.newline ∈ body then Bytes.skipNewline text closing.stop else closing.stop
    ⟨delims, tag, .enter inverted name body, resume, delims⟩

/--
What a tag asks for. A partial and a change of delimiters that stand at the end of their line take the
rest of it with them. A sigil that means nothing is part of the name of a variable.
-/
def ofTag (text : Bytes) (delims : Delimiters) (tag : Tag) : Step :=
  if tag.sigil = bang then
    ⟨delims, tag, .comment, tag.stop, delims⟩
  else if tag.sigil = ampersand ∨ Tag.isTriple delims.toMarks tag.sigil then
    ⟨delims, tag, .variable false (Bytes.trim (tag.body.drop 1)), tag.stop, delims⟩
  else if tag.sigil = hash then
    ofSection text delims tag false
  else if tag.sigil = caret then
    ofSection text delims tag true
  else if tag.sigil = Delimiters.equals then
    match Delimiters.ofCommand? tag.body with
    | none => ⟨delims, tag, .badDelimiters tag.body, tag.stop, delims⟩
    | some new => ⟨delims, tag, .delimiters new, Bytes.skipLine text tag.stop, new⟩
  else if tag.sigil = greater then
    ⟨delims, tag, .insert (Bytes.trim (tag.body.drop 1)), Bytes.skipLine text tag.stop, delims⟩
  else
    ⟨delims, tag, .variable true (Bytes.trim tag.body), tag.stop, delims⟩

def next? (text : Bytes) (delims : Delimiters) (pos : Nat) : Option Step :=
  (Tag.find? text delims.toMarks pos).map (ofTag text delims)

theorem ofSection_tag (text : Bytes) (delims : Delimiters) (tag : Tag) (inverted : Bool) :
    (ofSection text delims tag inverted).tag = tag := by
  simp only [ofSection]
  split <;> rfl

theorem ofTag_tag (text : Bytes) (delims : Delimiters) (tag : Tag) :
    (ofTag text delims tag).tag = tag := by
  simp only [ofTag]
  split
  . rfl
  split
  . rfl
  split
  . exact ofSection_tag ..
  split
  . exact ofSection_tag ..
  split
  . split <;> rfl
  split <;> rfl

theorem ofSection_resume {text : Bytes} {tag : Tag} (delims : Delimiters) (inverted : Bool)
    (h : tag.stop ≤ text.length) :
    tag.stop ≤ (ofSection text delims tag inverted).resume ∧
      (ofSection text delims tag inverted).resume ≤ text.length := by
  simp only [ofSection]
  split
  . simp [h]
  . next closing hclosing =>
    have bounds := Tag.findClosing?_bounds hclosing
    have := Bytes.le_skipNewline text closing.stop
    have := Bytes.skipNewline_le_length text bounds.2.2
    simp only
    split <;> omega

theorem ofTag_resume {text : Bytes} {tag : Tag} (delims : Delimiters)
    (h : tag.stop ≤ text.length) :
    tag.stop ≤ (ofTag text delims tag).resume ∧ (ofTag text delims tag).resume ≤ text.length := by
  have stay := And.intro (Nat.le_refl tag.stop) h
  have line := And.intro (Bytes.le_skipLine text tag.stop) (Bytes.skipLine_le_length text h)
  simp only [ofTag]
  split
  . exact stay
  split
  . exact stay
  split
  . exact ofSection_resume delims _ h
  split
  . exact ofSection_resume delims _ h
  split
  . split
    . exact stay
    . exact line
  split
  . exact line
  . exact stay

theorem ofSection_body {text body name : Bytes} {delims : Delimiters} {tag : Tag}
    {inverted inverted' : Bool}
    (h : (ofSection text delims tag inverted).action = .enter inverted' name body) :
    body.length + tag.stop ≤ text.length := by
  simp only [ofSection] at h
  split at h
  . simp at h
  . next closing hclosing =>
    have := Tag.findClosing?_bounds hclosing
    have := Bytes.le_skipNewline text tag.stop
    simp only [Action.enter.injEq] at h
    obtain ⟨_, _, rfl⟩ := h
    have := Bytes.length_slice_le text (Bytes.skipNewline text tag.stop) closing.start
    omega

theorem ofTag_body {text body name : Bytes} {delims : Delimiters} {tag : Tag} {inverted : Bool}
    (h : (ofTag text delims tag).action = .enter inverted name body) :
    body.length + tag.stop ≤ text.length := by
  simp only [ofTag] at h
  split at h
  . simp at h
  split at h
  . simp at h
  split at h
  . exact ofSection_body h
  split at h
  . exact ofSection_body h
  split at h
  . split at h <;> simp at h
  split at h <;> simp at h

theorem next?_resume {text : Bytes} {delims : Delimiters} {pos : Nat} {step : Step}
    (h : next? text delims pos = some step) : pos < step.resume ∧ step.resume ≤ text.length := by
  simp only [next?, Option.map_eq_some_iff] at h
  obtain ⟨tag, htag, rfl⟩ := h
  have bounds := Tag.find?_bounds htag
  have := ofTag_resume delims bounds.2.2
  omega

theorem next?_body {text body name : Bytes} {delims : Delimiters} {pos : Nat} {step : Step}
    {inverted : Bool} (h : next? text delims pos = some step)
    (haction : step.action = .enter inverted name body) : body.length < text.length - pos := by
  simp only [next?, Option.map_eq_some_iff] at h
  obtain ⟨tag, htag, rfl⟩ := h
  have := Tag.find?_bounds htag
  have := ofTag_body haction
  omega

end Step

end Mustache
