import ScriptCheck.Lexeme.Fault
import ScriptCheck.Token.Basic

/-!
# Why a program is rejected

A program is rejected at its first lexical error or at the first token that cannot stand where it
does, whichever the recognizer meets first.
-/

namespace ScriptCheck

/-- What would have been accepted in place of a token. -/
inductive Expectation
  | kind (k : TokenKind)
  | statement
  | expression
  | direction
  | endOfProgram
deriving DecidableEq, Repr

def Expectation.text : Expectation → String
  | kind k => k.describe
  | statement => "a statement"
  | expression => "an expression"
  | direction => "'to' or 'downto'"
  | endOfProgram => "';' or end of program"

structure SyntaxError where
  expected : String
  found : String
  location : Location
deriving DecidableEq, Repr

namespace SyntaxError

/-- The error at a token where something else was expected. -/
def atToken (e : Expectation) (t : Token) : SyntaxError :=
  ⟨e.text, t.describe, t.location⟩

def message (e : SyntaxError) : String :=
  "expected " ++ e.expected ++ ", found " ++ e.found

end SyntaxError

inductive ParseError
  | lexical (e : LexError)
  | grammatical (e : SyntaxError)
deriving DecidableEq, Repr

namespace ParseError

def location : ParseError → Location
  | lexical e => e.location
  | grammatical e => e.location

/-- The message without the place. -/
def message : ParseError → String
  | lexical e => e.message
  | grammatical e => e.message

/-- The message with the place in front. -/
def describe : ParseError → String
  | lexical e => e.describe
  | grammatical e => "syntax error at " ++ e.location.describe ++ ": " ++ e.message

end ParseError

end ScriptCheck
