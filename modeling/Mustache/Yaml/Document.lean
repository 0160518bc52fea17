import Mustache.Yaml.Content

/-!
This module contains the reading of documents: mappings and sequences that are laid out by
indentation, lists and mappings in brackets, and plain and quoted scalars. Every JSON document is
among them.
-/

namespace Mustache.Yaml

def isAllowed (c : Char) : Bool :=
  let n := c.toNat
  c == '\t' || c == '\n' || c == '\r' || (0x20 ≤ n && n < 0x7F) || n == 0x85 ||
    (0xA0 ≤ n && n ≤ 0xFFFD) || 0x10000 ≤ n

def firstUnprintable? (offset : Nat) : List Char → Option (Char × Nat)
  | [] => none
  | c :: rest => if isAllowed c then firstUnprintable? (offset + 1) rest else some (c, offset)

def document (text : List Char) : Except Fault (Value Text) := do
  match firstUnprintable? 0 text with
  | some (c, offset) => throw (.unprintable c offset)
  | none =>
    let tokens ← (Scan.start text).finish
    match Node.ofTokens? tokens with
    | none => throw .malformed
    | some none => return .null
    | some (some node) => node.value

end Mustache.Yaml
