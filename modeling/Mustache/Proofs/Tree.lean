import Mustache.Proofs.Marks
import Mustache.Proofs.Walk

/-!
This module contains templates as trees, how they are printed and what they mean. The renderer has no
such trees. The meaning of a tree is put together from the meanings of its parts by what the stack
tells of their names. It does not look at the printed text, except that a callout is handed the printed
body of its section.
-/

namespace Mustache

namespace Bytes

/-- The first newline has only spaces and tabs before it. -/
def EndsLine (text : Bytes) : Prop :=
  (text.dropWhile isBlank).head? = some newline

instance (text : Bytes) : Decidable text.EndsLine :=
  inferInstanceAs (Decidable (_ = _))

def IsTrimmed (text : Bytes) : Prop :=
  (∀ b ∈ text.head?, isBlank b = false) ∧ ∀ b ∈ text.getLast?, isBlank b = false

instance (text : Bytes) : Decidable text.IsTrimmed :=
  @instDecidableAnd _ _ (Option.decidableForallMem _) (Option.decidableForallMem _)

end Bytes

/-- Marks that differ and have no byte with a meaning of its own. -/
structure Delimiters.Plain (delims : Delimiters) : Prop where
  differ : delims.opening ≠ delims.closing
  clear : delims.Clear [Bytes.space, Bytes.tab, Bytes.newline, Step.hash, Step.caret, Step.ampersand,
    Step.bang, Tag.slash]

inductive Tree where
  | nil
  | literal (text : Bytes) (rest : Tree)
  | variable (escaped : Bool) (name : Bytes) (rest : Tree)
  | comment (text : Bytes) (rest : Tree)
  | block (inverted : Bool) (name : Bytes) (body rest : Tree)
  -- Partials: one that is not there, and one with its content.
  | missing (name : Bytes) (rest : Tree)
  | insert (name : Bytes) (content rest : Tree)

namespace Tree

def blockSigil (inverted : Bool) : UInt8 :=
  if inverted then Step.caret else Step.hash

def variableBody (escaped : Bool) (name : Bytes) : Bytes :=
  if escaped then name else Step.ampersand :: name

def print (marks : Marks) (tree : Tree) : Bytes :=
  match tree with
  | .nil => []
  | .literal text rest => text ++ rest.print marks
  | .variable escaped name rest => marks.wrap (variableBody escaped name) ++ rest.print marks
  | .comment text rest => marks.wrap (Step.bang :: text) ++ rest.print marks
  | .block inverted name body rest =>
    marks.wrap (blockSigil inverted :: name)
      ++ (body.print marks ++ (marks.wrap (Tag.slash :: name) ++ rest.print marks))
  | .missing name rest => marks.wrap (Step.greater :: name) ++ rest.print marks
  | .insert name _ rest => marks.wrap (Step.greater :: name) ++ rest.print marks

def sectionNames (tree : Tree) : List Bytes :=
  match tree with
  | .nil => []
  | .literal _ rest => rest.sectionNames
  | .variable _ _ rest => rest.sectionNames
  | .comment _ rest => rest.sectionNames
  | .block _ name body rest => name :: body.sectionNames ++ rest.sectionNames
  | .missing _ rest => rest.sectionNames
  | .insert _ _ rest => rest.sectionNames

/-- How deep partials are nested. -/
def nesting (tree : Tree) : Nat :=
  match tree with
  | .nil => 0
  | .literal _ rest => rest.nesting
  | .variable _ _ rest => rest.nesting
  | .comment _ rest => rest.nesting
  | .block _ _ body rest => max body.nesting rest.nesting
  | .missing _ rest => rest.nesting
  | .insert _ content rest => max (content.nesting + 1) rest.nesting

def IsName (marks : Marks) (name : Bytes) : Prop :=
  name ≠ [] ∧ name.IsTrimmed ∧ marks.Clear name

instance (marks : Marks) (name : Bytes) : Decidable (IsName marks name) :=
  inferInstanceAs (Decidable (_ ∧ _))

def sigils : Bytes :=
  [Step.hash, Step.caret, Step.ampersand, Step.bang, Step.greater, Delimiters.equals, Tag.slash,
    Tag.openBrace]

def IsVariableName (marks : Marks) (name : Bytes) : Prop :=
  IsName marks name ∧ ∀ b ∈ name.head?, b ∉ sigils

instance (marks : Marks) (name : Bytes) : Decidable (IsVariableName marks name) :=
  @instDecidableAnd _ _ inferInstance (Option.decidableForallMem _)

/--
Nothing between the marks can be taken for a mark, and no text between the tags for the rest of a line
that a tag ends. A section has no other section of its name inside.
-/
def WellFormed (marks : Marks) (tree : Tree) : Prop :=
  match tree with
  | .nil => True
  | .literal text rest => marks.Clear text ∧ ¬ text.EndsLine ∧ rest.WellFormed marks
  | .variable _ name rest => IsVariableName marks name ∧ rest.WellFormed marks
  | .comment text rest => marks.Clear text ∧ rest.WellFormed marks
  | .block _ name body rest =>
    marks.Clear name ∧ name ∉ body.sectionNames ∧ body.WellFormed marks ∧ rest.WellFormed marks
  | .missing name rest => IsName marks name ∧ marks.Clear [Step.greater] ∧ rest.WellFormed marks
  | .insert name content rest =>
    IsName marks name ∧ marks.Clear [Step.greater] ∧ content.WellFormed marks ∧ rest.WellFormed marks

instance WellFormed.decidable (marks : Marks) (tree : Tree) : Decidable (tree.WellFormed marks) :=
  match tree with
  | .nil => inferInstanceAs (Decidable True)
  | .literal _ rest =>
    have := decidable marks rest
    inferInstanceAs (Decidable (_ ∧ _ ∧ _))
  | .variable _ _ rest =>
    have := decidable marks rest
    inferInstanceAs (Decidable (_ ∧ _))
  | .comment _ rest =>
    have := decidable marks rest
    inferInstanceAs (Decidable (_ ∧ _))
  | .block _ _ body rest =>
    have := decidable marks body
    have := decidable marks rest
    inferInstanceAs (Decidable (_ ∧ _ ∧ _ ∧ _))
  | .missing _ rest =>
    have := decidable marks rest
    inferInstanceAs (Decidable (_ ∧ _ ∧ _))
  | .insert _ content rest =>
    have := decidable marks content
    have := decidable marks rest
    inferInstanceAs (Decidable (_ ∧ _ ∧ _ ∧ _))

/-- The resolver finds no partial that is missing, and all others as they are printed. -/
def Resolved (resolver : Resolver) (marks : Marks) (tree : Tree) : Prop :=
  match tree with
  | .nil => True
  | .literal _ rest => rest.Resolved resolver marks
  | .variable _ _ rest => rest.Resolved resolver marks
  | .comment _ rest => rest.Resolved resolver marks
  | .block _ _ body rest => body.Resolved resolver marks ∧ rest.Resolved resolver marks
  | .missing name rest =>
    (∃ remark, resolver name = .ok ⟨none, remark⟩) ∧ rest.Resolved resolver marks
  | .insert name content rest =>
    (∃ remark, resolver name = .ok ⟨some (content.print marks), remark⟩)
      ∧ content.Resolved resolver marks ∧ rest.Resolved resolver marks

def runVariable (escape : Bytes → Bytes) (stack : Stack) (escaped : Bool) (name : Bytes) : Run :=
  match stack.read name with
  | .error failure => .fail failure
  | .ok bytes => .emit (.literal (if escaped then escape bytes else bytes))

/-- The result of a callout is not escaped. What rendering itself raises passes unchanged. -/
def runCallout (effectful : Bool) (callout : Callout) (name body : Bytes) : Run :=
  (Run.emit (.called effectful callout.label name body)).andThen fun _ =>
    match callout.run body with
    | .error (.render error) => .fail (.render error)
    | .error (.other reason) => .fail (.render (.callout name reason))
    | .ok value =>
      match value.render? with
      | .error failure => .fail failure
      | .ok bytes => .emit (.literal bytes)

def runBlock (stack : Stack) (inverted : Bool) (name body : Bytes) (inside : Stack → Run) : Run :=
  match stack.probe name with
  | .error failure => .fail failure
  | .ok none => if inverted then inside stack else .done
  -- An item was found, and it does not know the rest of the path.
  | .ok (some .absent) => .done
  | .ok (some (.flag b)) => if b = inverted then .done else inside stack
  | .ok (some (.variable value)) =>
    match value.isEmpty with
    | .error error => .fail (.magnitude error)
    | .ok empty => if empty = inverted then inside stack else .done
  | .ok (some (.list items)) =>
    if inverted then
      if items.isEmpty then inside stack else .done
    else
      Run.each items fun item => inside (item :: stack)
  | .ok (some (.callout effectful callout)) =>
    if inverted then .done else runCallout effectful callout name body

def run (escape : Bytes → Bytes) (marks : Marks) (stack : Stack) (tree : Tree) : Run :=
  match tree with
  | .nil => .done
  | .literal text rest =>
    (Run.emit (.literal text)).andThen fun _ => rest.run escape marks stack
  | .variable escaped name rest =>
    (runVariable escape stack escaped name).andThen fun _ => rest.run escape marks stack
  | .comment _ rest => rest.run escape marks stack
  | .block inverted name body rest =>
    (runBlock stack inverted name (body.print marks) fun inner =>
      body.run escape marks inner).andThen fun _ => rest.run escape marks stack
  | .missing _ rest => rest.run escape marks stack
  | .insert _ content rest =>
    (content.run escape marks stack).andThen fun _ => rest.run escape marks stack

end Tree

end Mustache
