import Mustache.Bytes

/-!
This module contains the UTF-8 codec. Every byte string decodes: bytes that belong to no character
become U+FFFD, one for each maximal run that begins a character which the next byte cannot continue.
-/

namespace Mustache.Utf8

def encode (s : String) : Bytes :=
  s.toList.flatMap String.utf8EncodeChar

/--
What the first byte of a character says of the rest: the number of bytes that follow, the range of
the first of these, and the bits that the first byte contributes.
-/
structure Lead where
  following : Nat
  low : UInt8
  high : UInt8
  bits : Nat

def Lead.ofByte? (b : UInt8) : Option Lead :=
  if b < 0x80 then some ⟨0, 0x80, 0xBF, b.toNat⟩
  else if b < 0xC2 then none
  else if b < 0xE0 then some ⟨1, 0x80, 0xBF, b.toNat - 0xC0⟩
  else if b < 0xF0 then
    some ⟨2, if b = 0xE0 then 0xA0 else 0x80, if b = 0xED then 0x9F else 0xBF, b.toNat - 0xE0⟩
  else if b < 0xF5 then
    some ⟨3, if b = 0xF0 then 0x90 else 0x80, if b = 0xF4 then 0x8F else 0xBF, b.toNat - 0xF0⟩
  else none

/--
Reads the `n` bytes that follow, the next one in `low..high`. A byte out of its range is left unread:
it may begin the next character.
-/
def readFollowing (n : Nat) (low high : UInt8) (bits : Nat) (rest : Bytes) : Option Nat × Bytes :=
  match n, rest with
  | 0, rest => (some bits, rest)
  | _ + 1, [] => (none, [])
  | n + 1, b :: rest =>
    if low ≤ b ∧ b ≤ high then
      readFollowing n 0x80 0xBF (bits * 64 + (b.toNat - 0x80)) rest
    else
      (none, b :: rest)

theorem readFollowing_length_le (n : Nat) (low high : UInt8) (bits : Nat) (rest : Bytes) :
    (readFollowing n low high bits rest).2.length ≤ rest.length := by
  fun_induction readFollowing n low high bits rest with
  | case1 => simp
  | case2 => simp
  | case3 => simp only [List.length_cons]; omega
  | case4 => simp

def scalars? (bytes : Bytes) : List (Option Char) :=
  match bytes with
  | [] => []
  | b :: rest =>
    match Lead.ofByte? b with
    | none => none :: scalars? rest
    | some lead =>
      let read := readFollowing lead.following lead.low lead.high lead.bits rest
      read.1.map Char.ofNat :: scalars? read.2
termination_by bytes.length
decreasing_by
  . simp
  . have := readFollowing_length_le lead.following lead.low lead.high lead.bits rest
    simp only [List.length_cons]
    omega

def replacement : Char := '\uFFFD'

def decode (bytes : Bytes) : String :=
  String.ofList ((scalars? bytes).map (·.getD replacement))

def isValid (bytes : Bytes) : Bool :=
  (scalars? bytes).all Option.isSome

inductive Reason where
  | badStart
  | badContinuation
  | cutOff
  deriving DecidableEq

/-- A run of bytes that is no character: where it starts, its length and its first byte. -/
structure Fault where
  start : Nat
  length : Nat
  first : UInt8
  reason : Reason
  deriving DecidableEq

def faultFrom? (offset : Nat) (bytes : Bytes) : Option Fault :=
  match bytes with
  | [] => none
  | b :: rest =>
    match Lead.ofByte? b with
    | none => some ⟨offset, 1, b, .badStart⟩
    | some lead =>
      let read := readFollowing lead.following lead.low lead.high lead.bits rest
      match read.1 with
      | some _ => faultFrom? (offset + 1 + lead.following) read.2
      | none =>
        let length := 1 + (rest.length - read.2.length)
        some ⟨offset, length, b, if read.2 = [] then .cutOff else .badContinuation⟩
termination_by bytes.length
decreasing_by
  have := readFollowing_length_le lead.following lead.low lead.high lead.bits rest
  simp only [List.length_cons]
  omega

def fault? (bytes : Bytes) : Option Fault :=
  faultFrom? 0 bytes

end Mustache.Utf8
