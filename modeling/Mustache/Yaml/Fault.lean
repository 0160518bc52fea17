import Mustache.Text.Quoted
import Mustache.Yaml.Scalar

/-!
This module contains the ways in which a document has no value.
-/

namespace Mustache.Yaml

inductive Problem where
  | unhashableKey
  | notMappings
  | notMapping (found : String)
  | notValue (meaning : String)
  deriving DecidableEq

namespace Problem

def message : Problem → String
  | unhashableKey => "found unhashable key"
  | notMappings => "expected a mapping or list of mappings for merging, but found scalar"
  | notMapping found => "expected a mapping for merging, but found " ++ found
  | notValue meaning =>
    "could not determine a constructor for the tag " ++
      Quoted.text ("tag:yaml.org,2002:" ++ meaning)

end Problem

inductive Fault where
  | malformed
  | unprintable (c : Char) (offset : Nat)
  | scalar (fault : ScalarFault)
  | content (mapping : Option Place) (problem : Problem) (place : Place)
  deriving DecidableEq

namespace Fault

def contentMessage (source : Source) (mapping : Option Place) (problem : Problem) (place : Place) :
    String :=
  let context :=
    match mapping with
    | none => ""
    | some start =>
      "while constructing a mapping\n" ++
        (if start.line = place.line ∧ start.column = place.column then ""
          else start.describe source ++ "\n")
  context ++ problem.message ++ "\n" ++ place.describe source

def message (source : Source) : Fault → String
  | malformed => "Malformed document: " ++ source.name
  | unprintable c offset =>
    "unacceptable character #x" ++ String.ofList (Quoted.hexadecimal 4 c.toNat) ++
      ": special characters are not allowed\n  in \"" ++ source.name ++ "\", position " ++
      toString offset
  | scalar fault => fault.message
  | content mapping problem place => contentMessage source mapping problem place

end Fault

end Mustache.Yaml
