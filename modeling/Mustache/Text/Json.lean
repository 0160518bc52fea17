import Mustache.Number.Shortest
import Mustache.Text.CodePoint

/-!
This module contains JSON values and their texts, which hold printable ASCII characters alone: on one
line, and with one entry a line.
-/

namespace Mustache

inductive Json where
  | null
  | bool (b : Bool)
  | int (n : Int)
  | float (x : Binary64)
  | text (s : Text)
  | array (items : List Json)
  | object (members : List (Text × Json))

namespace Json

open Quoted (unicodeEscape)

def escapeChar (c : Char) : List Char :=
  if c = '"' then ['\\', '"']
  else if c = '\\' then ['\\', '\\']
  else if c = '\n' then ['\\', 'n']
  else if c = '\r' then ['\\', 'r']
  else if c = '\t' then ['\\', 't']
  else if c.toNat = 0x08 then ['\\', 'b']
  else if c.toNat = 0x0C then ['\\', 'f']
  else if 0x20 ≤ c.toNat ∧ c.toNat < 0x7F then [c]
  else if c.toNat < 0x10000 then unicodeEscape c.toNat
  else
    -- An escape has 16 bits, so the character is written as two surrogates.
    unicodeEscape (0xD800 + (c.toNat - 0x10000) / 0x400) ++
      unicodeEscape (0xDC00 + (c.toNat - 0x10000) % 0x400)

def escapeCodePoint : CodePoint → List Char
  | .char c => escapeChar c
  | .surrogate offset => (CodePoint.surrogate offset).escape

def quote (s : Text) : List Char :=
  '"' :: s.flatMap escapeCodePoint ++ ['"']

def floatText (x : Binary64) : String :=
  match x with
  | .nan => "NaN"
  | .infinite negative => if negative then "-Infinity" else "Infinity"
  | .finite .. => x.text

mutual

def line : Json → List Char
  | null => "null".toList
  | bool b => (if b then "true" else "false").toList
  | int n => (toString n).toList
  | float x => (floatText x).toList
  | text s => quote s
  | array items => '[' :: lineItems items ++ [']']
  | object members => '\x7b' :: lineMembers members ++ ['\x7d']

def lineItems : List Json → List Char
  | [] => []
  | [item] => line item
  | item :: rest => line item ++ ',' :: ' ' :: lineItems rest

def lineMembers : List (Text × Json) → List Char
  | [] => []
  | [(key, value)] => quote key ++ ':' :: ' ' :: line value
  | (key, value) :: rest => quote key ++ ':' :: ' ' :: line value ++ ',' :: ' ' :: lineMembers rest

end

def newLine (depth : Nat) : List Char :=
  '\n' :: List.replicate (2 * depth) ' '

mutual

def block (depth : Nat) : Json → List Char
  | array [] => ['[', ']']
  | array items => '[' :: blockItems (depth + 1) items ++ newLine depth ++ [']']
  | object [] => ['\x7b', '\x7d']
  | object members => '\x7b' :: blockMembers (depth + 1) members ++ newLine depth ++ ['\x7d']
  | value => line value

def blockItems (depth : Nat) : List Json → List Char
  | [] => []
  | [item] => newLine depth ++ block depth item
  | item :: rest => newLine depth ++ block depth item ++ ',' :: blockItems depth rest

def blockMembers (depth : Nat) : List (Text × Json) → List Char
  | [] => []
  | [(key, value)] => newLine depth ++ quote key ++ ':' :: ' ' :: block depth value
  | (key, value) :: rest =>
    newLine depth ++ quote key ++ ':' :: ' ' :: block depth value ++ ',' :: blockMembers depth rest

end

end Json

end Mustache
