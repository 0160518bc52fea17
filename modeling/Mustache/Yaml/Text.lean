import Mustache.Yaml.Fault

/-!
This module contains the reading of scalars: quoted ones, and plain ones. Both may go over several
lines, and what they hold then does not depend on how the lines are laid out. What is left after a
scalar is shorter than what it was read from.
-/

namespace Mustache.Yaml

def endsWord (cs : List Placed) : Bool :=
  cs.head?.all fun c => isBlankOrBreak c.char

def startsWith (c : Char) (cs : List Placed) : Bool :=
  cs.head?.any fun d => d.char == c

def isMarker (mark : Char) (cs : List Placed) : Bool :=
  (cs.take 3).map (·.char) = List.replicate 3 mark && endsWord (cs.drop 3)

def atMarker (cs : List Placed) : Bool :=
  isMarker '-' cs || isMarker '.' cs

/-! ### Line breaks inside of scalars -/

structure Breaks where
  breaks : List Char
  atMarker : Bool
  rest : List Placed

def Breaks.read (skipped : Char → Bool) (lineStart : Bool) : List Placed → Breaks
  | [] => ⟨[], false, []⟩
  | c :: rest =>
    if lineStart && Yaml.atMarker (c :: rest) then
      ⟨[], true, c :: rest⟩
    else if isBreak c.char then
      let run := Breaks.read skipped true rest
      { run with breaks := breakText c.char :: run.breaks }
    else if skipped c.char then
      Breaks.read skipped false rest
    else
      ⟨[], false, c :: rest⟩

namespace Breaks

theorem length_rest_le (skipped : Char → Bool) (lineStart : Bool) (cs : List Placed) :
    (read skipped lineStart cs).rest.length ≤ cs.length := by
  fun_induction read skipped lineStart cs with
  | case1 => simp
  | case2 => simp
  | case3 _ _ _ _ _ _ ih => exact Nat.le_succ_of_le ih
  | case4 _ _ _ _ _ _ ih => exact Nat.le_succ_of_le ih
  | case5 => simp

theorem length_rest_lt {skipped : Char → Bool} {c : Placed} (h : isBreak c.char ∨ skipped c.char)
    (rest : List Placed) :
    (read skipped false (c :: rest)).rest.length < (c :: rest).length := by
  have hle := length_rest_le skipped
  simp only [read, List.length_cons, Nat.lt_succ_iff]
  split
  . contradiction
  . split
    . exact hle true rest
    . split
      . exact hle false rest
      . simp_all

end Breaks

/-- Folds a run of line breaks: one newline is a space, and of more breaks a first newline is dropped. -/
def fold (breaks : List Char) : List Char :=
  match breaks with
  | ['\n'] => [' ']
  | '\n' :: more => more
  | breaks => breaks

/-! ### Quoted scalars -/

inductive Piece (cs : List Placed) where
  | text (read : Text) (rest : List Placed) (length_lt : rest.length < cs.length)
  | closing (rest : List Placed) (length_lt : rest.length < cs.length)
  | fault (fault : Fault)

namespace Piece

def ofBlanks (c : Placed) (rest : List Placed) (h : isBlankOrBreak c.char) : Piece (c :: rest) :=
  let run := Breaks.read isBlank false (c :: rest)
  have length_lt := Breaks.length_rest_lt (by simpa [isBlankOrBreak, or_comm] using h) rest
  if run.atMarker then
    .fault .malformed
  else if run.breaks = [] then
    .text (((c :: rest).takeWhile fun c => isBlank c.char).map fun c => .char c.char) run.rest length_lt
  else
    .text ((fold run.breaks).map .char) run.rest length_lt

def simpleEscape? (c : Char) : Option Char :=
  match c with
  | '0' => some '\x00'
  | 'a' => some '\x07'
  | 'b' => some '\x08'
  | 't' => some '\t'
  | '\t' => some '\t'
  | 'n' => some '\n'
  | 'v' => some '\x0b'
  | 'f' => some '\x0c'
  | 'r' => some '\r'
  | 'e' => some '\x1b'
  | ' ' => some ' '
  | '"' => some '"'
  | '\\' => some '\\'
  | '/' => some '/'
  | 'N' => some '\u0085'
  | '_' => some '\u00a0'
  | 'L' => some '\u2028'
  | 'P' => some '\u2029'
  | _ => none

def escapeWidth? (c : Char) : Option Nat :=
  match c with
  | 'x' => some 2
  | 'u' => some 4
  | 'U' => some 8
  | _ => none

def character (n : Nat) : Except ScalarFault CodePoint :=
  if n ≤ 0x10FFFF then .ok (.ofNat n)
  else if n < 0x80000000 then .error .noCharacter
  else .error .hugeCharacter

def ofNumber (width : Nat) (c d : Placed) (rest : List Placed) : Piece (c :: d :: rest) :=
  let digits := (rest.take width).map (·.char)
  if digits.length = width ∧ digits.all fun c => c ≠ '_' && areDigits 16 [c] then
    match character (valueOf 16 digits) with
    | .ok c =>
      .text [c] (rest.drop width) (by simp only [List.length_drop, List.length_cons]; omega)
    | .error reason => .fault (.scalar reason)
  else
    .fault .malformed

/-- An escape that begins with `c`. An escaped line break is dropped, with the blanks after it. -/
def ofEscape (c : Placed) (rest : List Placed) : Piece (c :: rest) :=
  match rest with
  | [] => .fault .malformed
  | d :: rest =>
    match simpleEscape? d.char, escapeWidth? d.char with
    | some e, _ => .text [.char e] rest (by simp only [List.length_cons]; omega)
    | none, some width => ofNumber width c d rest
    | none, none =>
      if isBreak d.char then
        let run := Breaks.read isBlank true rest
        have := Breaks.length_rest_le isBlank true rest
        if run.atMarker then .fault .malformed
        else .text (run.breaks.map .char) run.rest (by simp only [run, List.length_cons]; omega)
      else
        .fault .malformed

def double (cs : List Placed) : Piece cs :=
  match cs with
  | [] => .fault .malformed
  | c :: rest =>
    if c.char = '"' then .closing rest (by simp)
    else if c.char = '\\' then ofEscape c rest
    else if h : isBlankOrBreak c.char then ofBlanks c rest h
    else .text [.char c.char] rest (by simp)

def single (cs : List Placed) : Piece cs :=
  match cs with
  | [] => .fault .malformed
  | c :: rest =>
    if c.char = '\'' then
      if startsWith '\'' rest then
        .text [.char c.char] (rest.drop 1) (by simp only [List.length_drop, List.length_cons]; omega)
      else .closing rest (by simp)
    else if h : isBlankOrBreak c.char then ofBlanks c rest h
    else .text [.char c.char] rest (by simp)

end Piece

def quoted (piece : (cs : List Placed) → Piece cs) (cs : List Placed) :
    Except Fault (Text × List Placed) :=
  match piece cs with
  | .closing rest _ => .ok ([], rest)
  | .fault fault => .error fault
  | .text read rest _ => (quoted piece rest).map fun (more, rest) => (read ++ more, rest)
termination_by cs.length

theorem quoted_length_lt {piece : (cs : List Placed) → Piece cs} {cs : List Placed}
    {text : Text} {rest : List Placed} (h : quoted piece cs = .ok (text, rest)) :
    rest.length < cs.length := by
  fun_induction quoted piece cs generalizing text with
  | case1 =>
    simp only [Except.ok.injEq, Prod.mk.injEq] at h
    rwa [← h.2]
  | case2 => simp at h
  | case3 cs read next hlt hpiece ih =>
    match hnext : quoted piece next with
    | .error _ => simp [hnext, Except.map] at h
    | .ok (more, after) =>
      simp only [hnext, Except.map, Except.ok.injEq, Prod.mk.injEq] at h
      have := ih (by simpa [h.2] using hnext)
      omega

/-! ### Plain scalars -/

def isBracket (c : Char) : Bool :=
  [',', '[', ']', '\x7b', '\x7d'].contains c

/-- The characters that no plain scalar begins with, unless it goes on after the last three. -/
def isIndicator (c : Char) : Bool :=
  isBracket c || "#&*!|>'\"%@\x60-?:".toList.contains c

def beginsPlain (inside : Bool) (cs : List Placed) : Bool :=
  match cs with
  | [] => false
  | c :: rest =>
    !(isBlankOrBreak c.char || isIndicator c.char) ||
      (!endsWord rest && (c.char == '-' || (!inside && (c.char == '?' || c.char == ':'))))

def endsPlainWord (inside : Bool) (c : Char) (rest : List Placed) : Bool :=
  isBlankOrBreak c ||
    (c == ':' && (endsWord rest || (inside && rest.head?.any fun d => isBracket d.char))) ||
    (inside && (c == '?' || isBracket c))

def plainWord (inside : Bool) : List Placed → List Char
  | [] => []
  | c :: rest => if endsPlainWord inside c.char rest then [] else c.char :: plainWord inside rest

theorem plainWord_ne_nil {inside : Bool} {c : Placed} {rest : List Placed}
    (h : beginsPlain inside (c :: rest)) : plainWord inside (c :: rest) ≠ [] := by
  have hends : endsPlainWord inside c.char rest = false := by
    simp only [beginsPlain, isIndicator] at h
    simp only [endsPlainWord]
    by_cases hc : c.char = '-' ∨ c.char = '?' ∨ c.char = ':'
    . have : isBlankOrBreak '-' = false ∧ isBracket '-' = false := by decide
      have : isBlankOrBreak '?' = false := by decide
      have : isBlankOrBreak ':' = false ∧ isBracket ':' = false := by decide
      rcases hc with hc | hc | hc <;> simp_all
    . simp_all
  simp [plainWord, hends]

theorem length_drop_plainWord_lt {inside : Bool} {cs : List Placed} (h : plainWord inside cs ≠ []) :
    (cs.drop (plainWord inside cs).length).length < cs.length := by
  have hcs : cs ≠ [] := fun hcs => h (by simp [hcs, plainWord])
  have := List.length_pos_iff.mpr h
  have := List.length_pos_iff.mpr hcs
  simp only [List.length_drop]
  omega

structure Plain where
  text : List Char
  rest : List Placed
  atLineStart : Bool

namespace Plain

def gap (cs : List Placed) : Plain :=
  let run := Breaks.read (· == ' ') false cs
  if run.breaks = [] then
    ⟨(cs.takeWhile fun c => c.char == ' ').map (·.char), run.rest, false⟩
  else
    ⟨if run.atMarker then [] else fold run.breaks, run.rest, true⟩

theorem length_rest_gap_le (cs : List Placed) : (gap cs).rest.length ≤ cs.length := by
  have := Breaks.length_rest_le (· == ' ') false cs
  simp only [gap]
  split <;> exact this

end Plain

def plain (inside : Bool) (column : Nat) (cs : List Placed) : Plain :=
  let word := plainWord inside cs
  if _h : word = [] then
    ⟨[], cs, false⟩
  else
    let gap := Plain.gap (cs.drop word.length)
    let isLeft := !inside && gap.rest.head?.any fun c => c.place.column < column
    if gap.text = [] || startsWith '#' gap.rest || isLeft then
      ⟨word, gap.rest, gap.atLineStart⟩
    else
      let more := plain inside column gap.rest
      if more.text = [] then
        ⟨word, gap.rest, gap.atLineStart⟩
      else
        ⟨word ++ gap.text ++ more.text, more.rest, more.atLineStart⟩
termination_by cs.length
decreasing_by
  exact Nat.lt_of_le_of_lt (Plain.length_rest_gap_le _) (length_drop_plainWord_lt _h)

theorem length_rest_plain_le (inside : Bool) (column : Nat) (cs : List Placed) :
    (plain inside column cs).rest.length ≤ (cs.drop (plainWord inside cs).length).length := by
  fun_induction plain inside column cs with
  | case1 cs word h => simp [show plainWord inside cs = [] from h]
  | case2 => exact Plain.length_rest_gap_le _
  | case3 => exact Plain.length_rest_gap_le _
  | case4 cs word _ gap _ _ more _ ih =>
    calc
      more.rest.length ≤ (gap.rest.drop (plainWord inside gap.rest).length).length := ih
      _ ≤ gap.rest.length := by simp
      _ ≤ (cs.drop word.length).length := Plain.length_rest_gap_le _

end Mustache.Yaml
