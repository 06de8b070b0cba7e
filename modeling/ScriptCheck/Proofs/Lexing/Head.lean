import ScriptCheck.Proofs.Lexing.Printed
import ScriptCheck.Proofs.Scanning.Lookahead
import ScriptCheck.Text.Cursor
import Mathlib.Logic.Function.Iterate

/-!
# Reading a text as it is

A source folds the breaks of its text before anything is read. A reading head goes over the text as
it is. It folds a break when it comes to it, and where it has to look ahead it sees the next
character unfolded. Both read the same in the same places, however often they are asked and
whatever is wrong with the text.
-/

namespace ScriptCheck

/-- The head stands on a character, or behind the last one. The cursor stands behind the head, and
the place is that of the character. -/
structure Head where
  char : Option Char
  behind : Cursor
  place : Location

namespace Head

/-! ### Characters -/

/-- Moves the head on by one character. A CR with the LF behind it, or without one, comes under the
head as LF. -/
def bump (h : Head) : Head :=
  match h.behind.read with
  | (none, behind) => ⟨none, behind, h.place⟩
  | (some c, behind) =>
    if isBreak c then
      ⟨some '\n', if c = '\r' ∧ behind.peek = some '\n' then behind.read.2 else behind,
        ⟨h.place.line + 1, 0⟩⟩
    else ⟨some c, behind, ⟨h.place.line, h.place.column + 1⟩⟩

/-- A head on the first character of a text. -/
def ofText (text : String) : Head :=
  bump ⟨none, .ofText text, ⟨1, 0⟩⟩

def onDigit (h : Head) : Bool :=
  h.char.any Char.isDigit

/-- How many characters there can be from the head on. -/
def size (h : Head) : Nat :=
  h.behind.rest.length + if h.char.isSome then 1 else 0

theorem bump_of_nil {h : Head} (hr : h.behind.rest = []) : h.bump = ⟨none, h.behind, h.place⟩ := by
  have hread : h.behind.read = (none, h.behind) := Cursor.read_atEnd (by simp [Cursor.atEnd, hr])
  rw [bump, hread]

theorem bump_of_cons {h : Head} {c : Char} {rest : List Char} (hr : h.behind.rest = c :: rest) :
    ∃ behind, behind.rest = (if c = '\r' ∧ rest.head? = some '\n' then rest.tail else rest) ∧
      h.bump = ⟨some (if isBreak c then '\n' else c), behind,
        if isBreak c then ⟨h.place.line + 1, 0⟩ else ⟨h.place.line, h.place.column + 1⟩⟩ := by
  have hread : h.behind.read = (some c, ⟨h.behind.position + 1, rest⟩) := by
    rw [Cursor.read, hr]
  rw [bump, hread]
  by_cases hc : isBreak c
  · refine ⟨if c = '\r' ∧ rest.head? = some '\n' then Cursor.read ⟨h.behind.position + 1, rest⟩ |>.2
      else ⟨h.behind.position + 1, rest⟩, ?_, ?_⟩
    · split
      · rw [Cursor.read_rest]
      · rfl
    · simp only [if_pos hc]
      rfl
  · refine ⟨⟨h.behind.position + 1, rest⟩, ?_, ?_⟩
    · have hcr : c ≠ '\r' := by rintro rfl; exact hc rfl
      rw [if_neg fun h => hcr h.1]
    · simp only [if_neg hc]

theorem size_bump_le (h : Head) : h.bump.size ≤ h.behind.rest.length := by
  cases hr : h.behind.rest with
  | nil =>
    rw [bump_of_nil hr]
    simp [size, hr]
  | cons c rest =>
    obtain ⟨behind, hb, hbump⟩ := bump_of_cons hr
    rw [hbump, size, hb, List.length_cons]
    refine Nat.succ_le_succ ?_
    split
    · rw [List.length_tail]
      exact Nat.sub_le ..
    · exact Nat.le_refl _

theorem size_bump_lt (c : Char) (behind : Cursor) (place : Location) :
    (bump ⟨some c, behind, place⟩).size < size ⟨some c, behind, place⟩ :=
  Nat.lt_succ_of_le (size_bump_le _)

theorem size_bump_bump_lt (c : Char) (behind : Cursor) (place : Location) :
    (bump (bump ⟨some c, behind, place⟩)).size < size ⟨some c, behind, place⟩ := by
  have := size_bump_le (bump ⟨some c, behind, place⟩)
  have := size_bump_lt c behind place
  unfold size at *
  omega

/-- Takes characters for as long as they satisfy `p`. -/
def takeWhile (p : Char → Bool) : Head → List Char × Head
  | ⟨none, behind, place⟩ => ([], ⟨none, behind, place⟩)
  | ⟨some c, behind, place⟩ =>
    if p c then
      let x := takeWhile p (bump ⟨some c, behind, place⟩)
      (c :: x.1, x.2)
    else ([], ⟨some c, behind, place⟩)
termination_by h => h.size
decreasing_by exact size_bump_lt c behind place

/-! ### Gaps -/

/-- Tells whether a block comment ends, and goes on behind its end. -/
def closeComment : Head → Bool × Head
  | ⟨none, behind, place⟩ => (false, ⟨none, behind, place⟩)
  | ⟨some c, behind, place⟩ =>
    if c = '*' ∧ behind.peek = some '/' then (true, bump (bump ⟨some c, behind, place⟩))
    else closeComment (bump ⟨some c, behind, place⟩)
termination_by h => h.size
decreasing_by exact size_bump_lt c behind place

theorem size_takeWhile_le (p : Char → Bool) (h : Head) : (h.takeWhile p).2.size ≤ h.size := by
  fun_induction takeWhile p h with
  | case1 => exact Nat.le_refl _
  | case2 c behind place _ _ ih =>
    exact Nat.le_trans ih (Nat.le_of_lt (size_bump_lt c behind place))
  | case3 => exact Nat.le_refl _

theorem size_closeComment_le (h : Head) : h.closeComment.2.size ≤ h.size := by
  fun_induction closeComment h with
  | case1 => exact Nat.le_refl _
  | case2 c behind place _ => exact Nat.le_of_lt (size_bump_bump_lt c behind place)
  | case3 c behind place _ ih => exact Nat.le_trans ih (Nat.le_of_lt (size_bump_lt c behind place))

/-- Goes on behind blanks and comments. A block comment without an end is a fault. -/
def skipGap : Head → Except LexError Unit × Head
  | ⟨none, behind, place⟩ => (.ok (), ⟨none, behind, place⟩)
  | ⟨some c, behind, place⟩ =>
    if isBlank c then skipGap (bump ⟨some c, behind, place⟩)
    else if c = '/' ∧ behind.peek = some '/' then
      skipGap ((bump ⟨some c, behind, place⟩).takeWhile (· ≠ '\n')).2
    else if c = '/' ∧ behind.peek = some '*' then
      let x := (bump (bump ⟨some c, behind, place⟩)).closeComment
      if x.1 then skipGap x.2 else (.error ⟨.unterminatedComment, place⟩, x.2)
    else (.ok (), ⟨some c, behind, place⟩)
termination_by h => h.size
decreasing_by
  · exact size_bump_lt c behind place
  · exact Nat.lt_of_le_of_lt (size_takeWhile_le ..) (size_bump_lt c behind place)
  · exact Nat.lt_of_le_of_lt (size_closeComment_le _) (size_bump_bump_lt c behind place)

/-! ### Lexemes -/

/-- Digits behind a run with the given value, for as long as the value stays within the limit. -/
def digitsOnto (limit value : Nat) (taken : List Char) : Head → Nat × List Char × Head
  | ⟨none, behind, place⟩ => (value, taken.reverse, ⟨none, behind, place⟩)
  | ⟨some c, behind, place⟩ =>
    if c.isDigit ∧ 10 * value + digitValue c ≤ limit then
      digitsOnto limit (10 * value + digitValue c) (c :: taken) (bump ⟨some c, behind, place⟩)
    else (value, taken.reverse, ⟨some c, behind, place⟩)
termination_by h => h.size
decreasing_by exact size_bump_lt c behind place

def digits (limit : Nat) (h : Head) : Nat × List Char × Head :=
  digitsOnto limit 0 [] h

def sign (h : Head) : List Char × Head :=
  if h.char = some '+' then (['+'], h.bump)
  else if h.char = some '-' then (['-'], h.bump)
  else ([], h)

/-- A number that began at `start`, behind its `e`. -/
def scientific (mantissa : Float) (start : Location) (h : Head) :
    Except LexError (TokenKind × Payload) × Head :=
  let (sign, h) := h.sign
  if h.onDigit then
    let (exponent, _, h) := h.digits maxExponent
    let value := mantissa * powerOfTen (if sign = ['-'] then -exponent else exponent)
    if h.onDigit ∨ !value.isFinite then (.error ⟨.exponentOverflow, start⟩, h)
    else (.ok (.real, .real (.ofFloat value)), h)
  else (.error ⟨.missingExponentDigits, h.place⟩, h)

def scaled (plain : TokenKind × Payload) (mantissa : Float) (start : Location) (h : Head) :
    Except LexError (TokenKind × Payload) × Head :=
  if h.char = some 'e' ∨ h.char = some 'E' then scientific mantissa start h.bump
  else (.ok plain, h)

def number (h : Head) : Except LexError (TokenKind × Payload) × Head :=
  let start := h.place
  let (whole, taken, h) := h.digits maxInteger
  if h.onDigit then (.error ⟨.integerOverflow, start⟩, h)
  else if h.char = some '.' then
    let (places, h) := h.bump.takeWhile Char.isDigit
    if taken = [] ∧ places = [] then (.error ⟨.malformedNumber, start⟩, h)
    else
      let value := Lexeme.addPlaces whole places
      scaled (.real, .real (.ofFloat value)) value start h
  else if taken = [] then (.error ⟨.malformedNumber, start⟩, h)
  else scaled (.integer, .integer whole) (Float.ofNat whole) start h

/-- Goes on behind the closing mark of a string, with its text so far in reverse. -/
def closeStringOnto (mark : Char) (text : List Char) : Head → Option (List Char) × Head
  | ⟨none, behind, place⟩ => (none, ⟨none, behind, place⟩)
  | ⟨some c, behind, place⟩ =>
    if c = '\\' then
      match (bump ⟨some c, behind, place⟩).char with
      | none => (none, bump ⟨some c, behind, place⟩)
      | some d =>
        closeStringOnto mark ((Lexeme.unescape d).reverseAux text)
          (bump (bump ⟨some c, behind, place⟩))
    else if c = mark then (some text.reverse, bump ⟨some c, behind, place⟩)
    else closeStringOnto mark (c :: text) (bump ⟨some c, behind, place⟩)
termination_by h => h.size
decreasing_by
  · exact size_bump_bump_lt c behind place
  · exact size_bump_lt c behind place

def quoted (mark : Char) (h : Head) : Except LexError (TokenKind × Payload) × Head :=
  let x := closeStringOnto mark [] h.bump
  match x.1 with
  | some text => (.ok (.string, .text (String.ofList text)), x.2)
  | none => (.error ⟨.unterminatedString, h.place⟩, x.2)

def word (h : Head) : Except LexError (TokenKind × Payload) × Head :=
  let (letters, h) := h.takeWhile Lexeme.isWordChar
  let name := String.ofList letters
  match TokenKind.ofWord name with
  | .identifier => (.ok (.identifier, .text name), h)
  | k => (.ok (k, .none), h)

/-- A symbol is known by the character under the head and the one that is seen ahead. -/
def symbol (c : Char) (h : Head) : Except LexError (TokenKind × Payload) × Head :=
  match Symbol.read? (c :: h.behind.peek.toList) with
  | some (s, n) => (.ok (.symbol s, .none), Nat.iterate bump n h)
  | none => (.error ⟨if c = '!' then .loneBang else .unrecognized c, h.place⟩, h)

def readFrom (c : Char) (h : Head) : Except LexError (TokenKind × Payload) × Head :=
  if Lexeme.isWordStart c then h.word
  else if c.isDigit ∨ c = '.' then h.number
  else if c = '"' ∨ c = '\'' then h.quoted c
  else h.symbol c

/-! ### Tokens -/

/-- The token at a head without a gap. -/
def readToken (h : Head) : Except LexError Token × Head :=
  match h.char with
  | none => (.ok (.eof ⟨h.place.line, h.place.column + 1⟩), h)
  | some c =>
    let x := h.readFrom c
    (x.1.map fun content => ⟨content.1, content.2, h.place⟩, x.2)

/-- The next token. -/
def lex (h : Head) : Except LexError Token × Head :=
  let x := h.skipGap
  match x.1 with
  | .error e => (.error e, x.2)
  | .ok () => x.2.readToken

/-- What the `k + 1`st token is, or the error in its place. -/
def outcome (h : Head) : Nat → Except LexError Token
  | 0 => h.lex.1
  | k + 1 => h.lex.2.outcome k

end Head

end ScriptCheck
