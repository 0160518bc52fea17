import Mustache.Yaml.Text

/-!
This module contains the tokens of a document. Brackets, commas and scalars are written; where a key
or a collection begins that is laid out by indentation, and where it ends, is found out from the
columns and from the colons.
-/

namespace Mustache.Yaml

inductive Lexeme where
  | scalar (isPlain : Bool) (text : Text)
  | key
  | value
  | item
  | comma
  | openBracket
  | closeBracket
  | openBrace
  | closeBrace
  | blockSequence
  | blockMapping
  | blockEnd
  | documentStart
  | documentEnd
  deriving DecidableEq

structure Token where
  lexeme : Lexeme
  place : Place

/--
A token that is a key if a colon comes after it, and how many tokens are before it. In the column of a
mapping nothing else than keys may stand.
-/
structure Candidate where
  index : Nat
  place : Place
  isRequired : Bool

structure Scan where
  tokens : Array Token
  rest : List Placed
  columns : List Nat
  candidate : Option Candidate
  outer : List (Option Candidate)
  allowed : Bool

namespace Scan

def start (text : List Char) : Scan :=
  let placed := Place.start.spread text
  ⟨#[], if startsWith byteOrderMark placed then placed.drop 1 else placed, [], none, [], true⟩

def isInside (scan : Scan) : Bool :=
  !scan.outer.isEmpty

def push (scan : Scan) (lexeme : Lexeme) (place : Place) : Scan :=
  { scan with tokens := scan.tokens.push ⟨lexeme, place⟩ }

def insert (scan : Scan) (index : Nat) (lexeme : Lexeme) (place : Place) : Scan :=
  { scan with tokens := scan.tokens.insertIdxIfInBounds index ⟨lexeme, place⟩ }

def nominate (scan : Scan) (place : Place) : Scan :=
  if scan.allowed then
    let isRequired := !scan.isInside && scan.columns.head? == some place.column
    { scan with candidate := some ⟨scan.tokens.size, place, isRequired⟩ }
  else
    scan

def skip (scan : Scan) : Scan :=
  let (rest, hasBreak) := go false scan.rest
  { scan with rest, allowed := scan.allowed || (hasBreak && !scan.isInside) }
where
  go (inComment : Bool) : List Placed → List Placed × Bool
    | [] => ([], false)
    | c :: rest =>
      if isBreak c.char then
        ((go false rest).1, true)
      else if inComment || c.char == '#' then
        go true rest
      else if c.char == ' ' then
        go false rest
      else
        (c :: rest, false)

theorem length_rest_skip_le (scan : Scan) : scan.skip.rest.length ≤ scan.rest.length :=
  go false scan.rest
where
  go (inComment : Bool) (cs : List Placed) : (skip.go inComment cs).1.length ≤ cs.length := by
    fun_induction skip.go inComment cs with
    | case1 => simp
    | case2 _ _ _ _ ih => exact Nat.le_succ_of_le ih
    | case3 _ _ _ _ _ ih => exact Nat.le_succ_of_le ih
    | case4 _ _ _ _ _ _ ih => exact Nat.le_succ_of_le ih
    | case5 => simp

def ends (scan : Scan) (count : Nat) (place : Place) : Scan :=
  { scan with
    tokens := scan.tokens ++ Array.replicate count ⟨.blockEnd, place⟩
    columns := scan.columns.drop count }

def leave (scan : Scan) (column : Nat) (place : Place) : Scan :=
  if scan.isInside then scan
  else scan.ends (scan.columns.takeWhile (column < ·)).length place

def leaveAll (scan : Scan) (place : Place) : Scan :=
  if scan.isInside then scan else scan.ends scan.columns.length place

def enter (scan : Scan) (index : Nat) (lexeme : Lexeme) (place : Place) : Scan :=
  if scan.isInside || scan.columns.head?.any (place.column ≤ ·) then
    scan
  else
    { scan.insert index lexeme place with columns := place.column :: scan.columns }

def maxKeyLength : Nat := 1024

/-- Whether a candidate may be followed by a colon here: in the same line, and not too far away. -/
def reaches (candidate : Candidate) (place : Place) : Bool :=
  candidate.place.line = place.line && place.offset - candidate.place.offset ≤ maxKeyLength

def key? (scan : Scan) (place : Place) : Option Candidate :=
  scan.candidate.filter fun candidate => reaches candidate place

def lacksKey (scan : Scan) (place? : Option Place) : Bool :=
  scan.candidate.any fun candidate =>
    candidate.isRequired && !place?.any fun place => reaches candidate place

def mark (scan : Scan) (lexeme : Lexeme) (place : Place) (allowed : Bool) : Scan :=
  { scan.push lexeme place with candidate := none, allowed }

def openCollection (scan : Scan) (lexeme : Lexeme) (place : Place) : Scan :=
  let scan := scan.nominate place
  { scan.mark lexeme place true with outer := scan.candidate :: scan.outer }

def closeCollection (scan : Scan) (lexeme : Lexeme) (place : Place) : Scan :=
  { scan.mark lexeme place false with
    candidate := scan.outer.head?.join
    outer := scan.outer.drop 1 }

/-- A mark that begins a collection unless one of its column is there; `allowed` is for a key after. -/
def blockMark (scan : Scan) (collection lexeme : Lexeme) (place : Place) (allowed : Bool) :
    Except Fault Scan :=
  if scan.isInside || scan.allowed then
    .ok ((scan.enter scan.tokens.size collection place).mark lexeme place allowed)
  else
    .error .malformed

/-- A colon. If a key stands before it, its token is put in front of that. -/
def colon (scan : Scan) (place : Place) : Except Fault Scan :=
  match scan.key? place with
  | some key =>
    let scan := (scan.insert key.index .key key.place).enter key.index .blockMapping key.place
    .ok (scan.mark .value place false)
  | none => scan.blockMark .blockMapping .value place (!scan.isInside)

def marker (scan : Scan) (lexeme : Lexeme) (place : Place) : Scan :=
  let scan := (scan.leaveAll place).mark lexeme place false
  { scan with rest := scan.rest.drop 2 }

def quotedScalar (scan : Scan) (piece : (cs : List Placed) → Piece cs) (place : Place) :
    Except Fault Scan :=
  (quoted piece scan.rest).map fun (text, rest) =>
    let scan := (scan.nominate place).push (.scalar false text) place
    { scan with rest, allowed := false }

def plainScalar (scan : Scan) (c : Placed) : Scan :=
  let column := (scan.columns.head?.map (· + 1)).getD 0
  let read := plain scan.isInside column (c :: scan.rest)
  let scan := (scan.nominate c.place).push (.scalar true (read.text.map .char)) c.place
  { scan with rest := read.rest, allowed := read.atLineStart }

def token (scan : Scan) (c : Placed) : Except Fault Scan :=
  let place := c.place
  let endsMark := endsWord scan.rest
  if place.column = 0 ∧ isMarker '-' (c :: scan.rest) then
    .ok (scan.marker .documentStart place)
  else if place.column = 0 ∧ isMarker '.' (c :: scan.rest) then
    .ok (scan.marker .documentEnd place)
  else if c.char = '[' then .ok (scan.openCollection .openBracket place)
  else if c.char = '\x7b' then .ok (scan.openCollection .openBrace place)
  else if c.char = ']' then .ok (scan.closeCollection .closeBracket place)
  else if c.char = '\x7d' then .ok (scan.closeCollection .closeBrace place)
  else if c.char = ',' then .ok (scan.mark .comma place true)
  else if c.char = '-' ∧ endsMark then scan.blockMark .blockSequence .item place true
  else if c.char = '?' ∧ (scan.isInside || endsMark) then
    scan.blockMark .blockMapping .key place (!scan.isInside)
  else if c.char = ':' ∧ (scan.isInside || endsMark) then scan.colon place
  else if c.char = '"' then scan.quotedScalar Piece.double place
  else if c.char = '\'' then scan.quotedScalar Piece.single place
  else if beginsPlain scan.isInside (c :: scan.rest) then .ok (scan.plainScalar c)
  else .error .malformed

@[simp]
theorem rest_nominate (scan : Scan) (place : Place) : (scan.nominate place).rest = scan.rest := by
  simp only [nominate]
  split <;> rfl

@[simp]
theorem rest_leave (scan : Scan) (column : Nat) (place : Place) :
    (scan.leave column place).rest = scan.rest := by
  simp only [leave]
  split <;> rfl

@[simp]
theorem rest_leaveAll (scan : Scan) (place : Place) : (scan.leaveAll place).rest = scan.rest := by
  simp only [leaveAll]
  split <;> rfl

@[simp]
theorem rest_enter (scan : Scan) (index : Nat) (lexeme : Lexeme) (place : Place) :
    (scan.enter index lexeme place).rest = scan.rest := by
  simp only [enter]
  split <;> rfl

theorem rest_blockMark {scan next : Scan} {collection lexeme : Lexeme} {place : Place}
    {allowed : Bool} (h : scan.blockMark collection lexeme place allowed = .ok next) :
    next.rest = scan.rest := by
  simp only [blockMark] at h
  split at h <;> simp only [Except.ok.injEq, reduceCtorEq] at h
  simp [← h, mark, push]

theorem rest_colon {scan next : Scan} {place : Place} (h : scan.colon place = .ok next) :
    next.rest = scan.rest := by
  simp only [colon] at h
  split at h
  . simp only [Except.ok.injEq] at h
    simp [← h, mark, push, insert]
  . exact rest_blockMark h

theorem length_rest_quotedScalar_le {scan next : Scan} {piece : (cs : List Placed) → Piece cs}
    {place : Place} (h : scan.quotedScalar piece place = .ok next) :
    next.rest.length ≤ scan.rest.length := by
  simp only [quotedScalar] at h
  match hread : quoted piece scan.rest with
  | .error _ => simp [hread, Except.map] at h
  | .ok (_, rest) =>
    simp only [hread, Except.map, Except.ok.injEq] at h
    simpa [← h] using Nat.le_of_lt (quoted_length_lt hread)

theorem length_rest_plainScalar_le {scan : Scan} {c : Placed}
    (h : beginsPlain scan.isInside (c :: scan.rest)) :
    (scan.plainScalar c).rest.length ≤ scan.rest.length := by
  have := length_drop_plainWord_lt (plainWord_ne_nil h)
  exact Nat.le_of_lt_succ (Nat.lt_of_le_of_lt (length_rest_plain_le _ _ _) this)

theorem length_rest_token_le {scan next : Scan} {c : Placed} (h : scan.token c = .ok next) :
    next.rest.length ≤ scan.rest.length := by
  revert h
  fun_cases token scan c with
  | case1 | case2 =>
    rintro ⟨⟩
    simp [marker, mark, push]
  | case3 | case4 | case5 | case6 | case7 =>
    rintro ⟨⟩
    simp [openCollection, closeCollection, mark, push]
  | case8 | case9 => exact fun h => Nat.le_of_eq (congrArg _ (rest_blockMark h))
  | case10 => exact fun h => Nat.le_of_eq (congrArg _ (rest_colon h))
  | case11 | case12 => exact length_rest_quotedScalar_le
  | case13 =>
    rintro ⟨⟩
    exact length_rest_plainScalar_le (by assumption)
  | case14 => nofun

def finish (scan : Scan) : Except Fault (List Token) :=
  let ahead := scan.skip
  match _h : ahead.rest with
  | [] =>
    if ahead.lacksKey none then .error .malformed else .ok (ahead.leaveAll .start).tokens.toList
  | c :: rest =>
    if ahead.lacksKey (some c.place) then
      .error .malformed
    else
      match _hnext : ({ ahead with rest }.leave c.place.column c.place).token c with
      | .error fault => .error fault
      | .ok next => next.finish
termination_by scan.rest.length
decreasing_by
  calc
    next.rest.length ≤ rest.length := by simpa using length_rest_token_le _hnext
    _ < ahead.rest.length := by simp [_h]
    _ ≤ scan.rest.length := length_rest_skip_le scan

end Scan

end Mustache.Yaml
