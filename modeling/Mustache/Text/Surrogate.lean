import Mustache.Text.CodePoint
import Mustache.Text.Utf8

/-!
This module contains the bytes of texts that may hold surrogates. The surrogates `U+DC80` to `U+DCFF` stand for bytes
that belong to no character; other surrogates have no bytes.
-/

namespace Mustache

namespace CodePoint

def ofByte (b : UInt8) : CodePoint :=
  surrogate ⟨0x400 + b.toNat, by have := b.toNat_lt; omega⟩

def byte? : CodePoint → Option UInt8
  | char _ => none
  | surrogate offset => if 0x480 ≤ offset.val ∧ offset.val < 0x500 then some (offset.val - 0x400).toUInt8 else none

end CodePoint

namespace Text

/-- Surrogates side by side, the first of which has no byte. -/
structure Fault where
  start : Nat
  length : Nat
  first : CodePoint
  deriving DecidableEq

def Fault.message (fault : Fault) : String :=
  let place :=
    if fault.length = 1 then
      "character '" ++ String.ofList fault.first.escape ++ "' in position " ++ toString fault.start
    else
      "characters in position " ++ toString fault.start ++ "-" ++ toString (fault.start + fault.length - 1)
  "'utf-8' codec can't encode " ++ place ++ ": surrogates not allowed"

def encodeFrom (offset : Nat) : Text → Except Fault Bytes
  | [] => .ok []
  | .char c :: rest => (encodeFrom (offset + 1) rest).map (String.utf8EncodeChar c ++ ·)
  | c :: rest =>
    match c.byte? with
    | some b => (encodeFrom (offset + 1) rest).map (b :: ·)
    | none => .error ⟨offset, 1 + (rest.takeWhile fun c => c.char?.isNone).length, c⟩

def encode (s : Text) : Except Fault Bytes :=
  encodeFrom 0 s

def ofBytes (bytes : Bytes) : Text :=
  match bytes with
  | [] => []
  | b :: rest =>
    match Utf8.Lead.ofByte? b with
    | none => .ofByte b :: ofBytes rest
    | some lead =>
      let read := Utf8.readFollowing lead.following lead.low lead.high lead.bits rest
      match read.1 with
      | some n => .char (Char.ofNat n) :: ofBytes read.2
      | none => ((b :: rest).take (1 + (rest.length - read.2.length))).map .ofByte ++ ofBytes read.2
termination_by bytes.length
decreasing_by
  . simp
  all_goals
    have := Utf8.readFollowing_length_le lead.following lead.low lead.high lead.bits rest
    simp only [List.length_cons]
    omega

end Text

end Mustache
