import Mustache.Cut

/-!
This module contains byte strings, and the searches and cuts that templates are scanned with. All
offsets count bytes.
-/

namespace Mustache

abbrev Bytes := List UInt8

namespace Bytes

def space : UInt8 := 0x20
def tab : UInt8 := 0x09
def newline : UInt8 := 0x0A
def dot : UInt8 := 0x2E

def ofAscii (s : String) : Bytes :=
  s.toList.map Char.toUInt8

def isBlank (b : UInt8) : Bool :=
  b == space || b == tab

def isDigit (b : UInt8) : Bool :=
  0x30 ≤ b && b ≤ 0x39

def slice (text : Bytes) (start stop : Nat) : Bytes :=
  (text.drop start).take (stop - start)

theorem length_slice_le (text : Bytes) (start stop : Nat) :
    (slice text start stop).length ≤ stop - start := by
  simp only [slice, List.length_take]
  omega

def find? (text needle : Bytes) (start : Nat) : Option Nat :=
  if start ≤ text.length then go (text.drop start) start else none
where
  go : Bytes → Nat → Option Nat
    | [], offset => if needle.isEmpty then some offset else none
    | b :: rest, offset =>
      if needle.isPrefixOf (b :: rest) then some offset else go rest (offset + 1)

theorem find?.go_bounds {needle rest : Bytes} {offset found : Nat}
    (h : find?.go needle rest offset = some found) :
    offset ≤ found ∧ found + needle.length ≤ offset + rest.length := by
  induction rest generalizing offset with
  | nil =>
    simp only [find?.go] at h
    split at h
    . next hempty =>
      simp at h hempty
      simp [h, hempty]
    . simp at h
  | cons b rest ih =>
    simp only [find?.go] at h
    split at h
    . next hmatch =>
      have := (List.isPrefixOf_iff_prefix.mp hmatch).length_le
      simp at h
      omega
    . have := ih h
      simp only [List.length_cons]
      omega

theorem find?_bounds {text needle : Bytes} {start found : Nat}
    (h : find? text needle start = some found) :
    start ≤ found ∧ found + needle.length ≤ text.length := by
  simp only [find?] at h
  split at h
  . have := find?.go_bounds h
    simp only [List.length_drop] at this
    omega
  . simp at h

def trim (text : Bytes) : Bytes :=
  ((text.dropWhile isBlank).reverse.dropWhile isBlank).reverse

def skipNewline (text : Bytes) (pos : Nat) : Nat :=
  if text[pos]? = some newline then pos + 1 else pos

theorem le_skipNewline (text : Bytes) (pos : Nat) : pos ≤ skipNewline text pos := by
  simp only [skipNewline]
  split <;> omega

theorem skipNewline_le_length (text : Bytes) {pos : Nat} (h : pos ≤ text.length) :
    skipNewline text pos ≤ text.length := by
  simp only [skipNewline]
  split
  . next hsome =>
    have := (List.getElem?_eq_some_iff.mp hsome).1
    omega
  . exact h

/--
The offset of the next line, if only spaces and tabs stand between `pos` and the end of its line, and
`pos` otherwise. A line that the end of the text cuts off does not count.
-/
def skipLine (text : Bytes) (pos : Nat) : Nat :=
  let stop := pos + ((text.drop pos).takeWhile isBlank).length
  if text[stop]? = some newline then stop + 1 else pos

theorem le_skipLine (text : Bytes) (pos : Nat) : pos ≤ skipLine text pos := by
  simp only [skipLine]
  split <;> omega

theorem skipLine_le_length (text : Bytes) {pos : Nat} (h : pos ≤ text.length) :
    skipLine text pos ≤ text.length := by
  simp only [skipLine]
  split
  . next hsome =>
    have := (List.getElem?_eq_some_iff.mp hsome).1
    omega
  . exact h

end Bytes

end Mustache
