import ScriptCheck.Location

/-!
# Lexical errors

A fault is the reason why no token can be read; a lexical error is a fault at a place.
-/

namespace ScriptCheck

/-- The greatest integer constant. -/
def maxInteger : Nat := 2147483647

/-- The greatest number behind the `e` of a constant. -/
def maxExponent : Nat := 308

inductive Fault
  | integerOverflow
  | exponentOverflow
  | missingExponentDigits
  | malformedNumber
  | unterminatedString
  | unterminatedComment
  | loneBang
  | unrecognized (c : Char)
deriving DecidableEq, Repr

namespace Fault

def message : Fault → String
  | integerOverflow => "integer overflow, constant value too large to read"
  | exponentOverflow =>
    "exponent overflow, maximum value for exponent is " ++ toString maxExponent
  | missingExponentDigits => "number expected in exponent"
  | malformedNumber => "single period on its own is not a valid number"
  | unterminatedString => "string without terminating quotation mark"
  | unterminatedComment => "unterminated comment, expecting \"*/\""
  | loneBang => "expecting '=' after '!'"
  | unrecognized c => "unrecognized character in source code: '" ++ c.toString ++ "'"

/-- The place of a fault in a lexeme that begins at `start`, breaks off at `stop` and leaves `rest`.

A missing exponent is reported where its first digit should stand. A line that ends there counts as
read up to its end: the column is the last one at the end of the text, and column zero of the next
line at a line break. -/
def place (f : Fault) (start stop : Location) (rest : List Char) : Location :=
  match f with
  | missingExponentDigits =>
    match rest with
    | [] => ⟨stop.line, stop.column - 1⟩
    | '\n' :: _ => ⟨stop.line + 1, 0⟩
    | _ => stop
  | _ => start

end Fault

structure LexError where
  fault : Fault
  location : Location
deriving DecidableEq, Repr

def LexError.message (e : LexError) : String :=
  e.fault.message

def LexError.describe (e : LexError) : String :=
  "lexical error at " ++ e.location.describe ++ ": " ++ e.message

end ScriptCheck
