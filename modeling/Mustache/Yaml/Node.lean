import Mustache.Yaml.Token

/-!
This module contains the nodes that the tokens of a document make up. What is left out in it, such as
the value of a key at the end of its line, is an empty scalar.
-/

namespace Mustache.Yaml

inductive Node where
  | scalar (place : Place) (isPlain : Bool) (text : Text)
  | sequence (place : Place) (items : List Node)
  | mapping (place : Place) (entries : List (Node × Node))

namespace Node

def place : Node → Place
  | scalar place .. => place
  | sequence place _ => place
  | mapping place _ => place

def kind : Node → String
  | scalar .. => "scalar"
  | sequence .. => "sequence"
  | mapping .. => "mapping"

def missing (place : Place) : Node :=
  .scalar place true ""

end Node

def missingBefore (tokens : List Token) : Node :=
  .missing ((tokens.head?.map (·.place)).getD .start)

def startsWithLexeme (lexemes : List Lexeme) (tokens : List Token) : Bool :=
  tokens.head?.any fun token => lexemes.contains token.lexeme

mutual

/-- Reads a node. After a key, the items of a sequence may stand in the column of the key. -/
def node? (fuel : Nat) (afterKey : Bool) (tokens : List Token) : Option (Node × List Token) :=
  match fuel, tokens with
  | 0, _ => none
  | _, [] => none
  | fuel + 1, ⟨lexeme, place⟩ :: rest =>
    match lexeme with
    | .scalar isPlain text => some (.scalar place isPlain text, rest)
    | .item =>
      if afterKey then
        (bareItems? fuel (⟨lexeme, place⟩ :: rest)).map fun (items, rest) =>
          (.sequence place items, rest)
      else
        none
    | .blockSequence =>
      (blockItems? fuel rest).map fun (items, rest) => (.sequence place items, rest)
    | .blockMapping =>
      (blockEntries? fuel rest).map fun (entries, rest) => (.mapping place entries, rest)
    | .openBracket =>
      (flowItems? fuel rest).map fun (items, rest) => (.sequence place items, rest)
    | .openBrace =>
      (flowEntries? fuel rest).map fun (entries, rest) => (.mapping place entries, rest)
    | _ => none

def nodeUnless? (fuel : Nat) (ends : List Lexeme) (afterKey : Bool) (place : Place)
    (tokens : List Token) : Option (Node × List Token) :=
  match fuel with
  | 0 => none
  | fuel + 1 =>
    if startsWithLexeme ends tokens then
      some (.missing place, tokens)
    else
      node? fuel afterKey tokens

def blockItems? (fuel : Nat) (tokens : List Token) : Option (List Node × List Token) :=
  match fuel, tokens with
  | fuel + 1, ⟨.item, place⟩ :: rest => do
    let (item, rest) ← nodeUnless? fuel [.item, .blockEnd] false (place.after '-') rest
    let (items, rest) ← blockItems? fuel rest
    some (item :: items, rest)
  | _ + 1, ⟨.blockEnd, _⟩ :: rest => some ([], rest)
  | _, _ => none

def bareItems? (fuel : Nat) (tokens : List Token) : Option (List Node × List Token) :=
  match fuel, tokens with
  | fuel + 1, ⟨.item, place⟩ :: rest => do
    let ends := [.item, .key, .value, .blockEnd]
    let (item, rest) ← nodeUnless? fuel ends false (place.after '-') rest
    let (items, rest) ← bareItems? fuel rest
    some (item :: items, rest)
  | _ + 1, tokens => some ([], tokens)
  | 0, _ => none

def blockEntries? (fuel : Nat) (tokens : List Token) :
    Option (List (Node × Node) × List Token) :=
  match fuel, tokens with
  | fuel + 1, ⟨.key, place⟩ :: rest => do
    let ends := [.key, .value, .blockEnd]
    let (key, rest) ← nodeUnless? fuel ends true (place.after '?') rest
    let (value, rest) ← value? fuel ends true rest
    let (entries, rest) ← blockEntries? fuel rest
    some ((key, value) :: entries, rest)
  | _ + 1, ⟨.blockEnd, _⟩ :: rest => some ([], rest)
  | _, _ => none

def value? (fuel : Nat) (ends : List Lexeme) (afterKey : Bool) (tokens : List Token) :
    Option (Node × List Token) :=
  match fuel, tokens with
  | fuel + 1, ⟨.value, place⟩ :: rest => nodeUnless? fuel ends afterKey (place.after ':') rest
  | _ + 1, tokens => some (missingBefore tokens, tokens)
  | 0, _ => none

/-- Reads the items of a list in brackets. One with a colon is a mapping of one entry. -/
def flowItems? (fuel : Nat) (tokens : List Token) : Option (List Node × List Token) :=
  match fuel, tokens with
  | 0, _ => none
  | _ + 1, ⟨.closeBracket, _⟩ :: rest => some ([], rest)
  | fuel + 1, tokens => do
    let (item, rest) ←
      match tokens with
      | ⟨.key, place⟩ :: rest => do
        let ends := [.comma, .closeBracket]
        let (key, rest) ← nodeUnless? fuel (.value :: ends) false (place.after '?') rest
        let (value, rest) ← value? fuel ends false rest
        some (.mapping place [(key, value)], rest)
      | tokens => node? fuel false tokens
    match rest with
    | ⟨.comma, _⟩ :: rest => do
      let (items, rest) ← flowItems? fuel rest
      some (item :: items, rest)
    | ⟨.closeBracket, _⟩ :: rest => some ([item], rest)
    | _ => none

/-- Reads the entries of a mapping in braces. A key without a colon has an empty value. -/
def flowEntries? (fuel : Nat) (tokens : List Token) : Option (List (Node × Node) × List Token) :=
  match fuel, tokens with
  | 0, _ => none
  | _ + 1, ⟨.closeBrace, _⟩ :: rest => some ([], rest)
  | fuel + 1, tokens => do
    let (entry, rest) ←
      match tokens with
      | ⟨.key, place⟩ :: rest => do
        let ends := [.comma, .closeBrace]
        let (key, rest) ← nodeUnless? fuel (.value :: ends) false (place.after '?') rest
        let (value, rest) ← value? fuel ends false rest
        some ((key, value), rest)
      | tokens => do
        let (key, rest) ← node? fuel false tokens
        some ((key, missingBefore rest), rest)
    match rest with
    | ⟨.comma, _⟩ :: rest => do
      let (entries, rest) ← flowEntries? fuel rest
      some (entry :: entries, rest)
    | ⟨.closeBrace, _⟩ :: rest => some ([entry], rest)
    | _ => none

end

namespace Node

def root? (marked : Bool) (tokens : List Token) : Option (Node × List Token) :=
  if marked && (tokens.isEmpty || startsWithLexeme [.documentStart, .documentEnd] tokens) then
    some (.missing .start, tokens)
  else
    node? (2 * tokens.length + 2) false tokens

def ofTokens? (tokens : List Token) : Option (Option Node) :=
  let isEnd (token : Token) : Bool := token.lexeme == .documentEnd
  if tokens.isEmpty then
    some none
  else
    let (marked, rest) :=
      if startsWithLexeme [.documentStart] tokens then (true, tokens.drop 1) else (false, tokens)
    match root? marked rest with
    | none => none
    | some (node, rest) => if rest.all isEnd then some (some node) else none

end Node

end Mustache.Yaml
