import ScriptCheck.Decimal.Fixed
import ScriptCheck.Location
import ScriptCheck.Token.Keyword
import ScriptCheck.Token.Symbol

/-!
# Tokens

A token has a kind, what it carries besides, and the place of its first character. The scanner
lets a text, an integer or a double travel with the kinds that need one; the readers `text`,
`integer` and `real` give an empty value for any other token.
-/

namespace ScriptCheck

inductive TokenKind
  | eof
  | string
  | identifier
  | integer
  | real
  | symbol (s : Symbol)
  | keyword (k : Keyword)
deriving DecidableEq, Repr

namespace TokenKind

/-- The kind as messages write it. -/
def describe : TokenKind → String
  | eof => "end of file"
  | string => "string"
  | identifier => "identifier"
  | integer => "integer"
  | real => "float"
  | symbol s => "'" ++ s.text ++ "'"
  | keyword k => "'" ++ k.text ++ "'"

def keywordText? : TokenKind → Option String
  | keyword k => some k.text
  | _ => none

def symbolText? : TokenKind → Option String
  | symbol s => some s.text
  | _ => none

def isKeyword (k : TokenKind) : Bool :=
  k.keywordText?.isSome

/-- The kind of a word: a keyword when it is one, and otherwise an identifier. -/
def ofWord (word : String) : TokenKind :=
  match Keyword.ofText? word with
  | some k => keyword k
  | none => identifier

end TokenKind

/-- What a token carries besides its kind. -/
inductive Payload
  | none
  | text (s : String)
  | integer (n : Int)
  | real (x : Binary64)
deriving DecidableEq, Repr

structure Token where
  kind : TokenKind
  payload : Payload
  location : Location
deriving DecidableEq, Repr

namespace Token

/-- The end of a text at `l`. -/
def eof (l : Location) : Token :=
  ⟨.eof, .none, l⟩

/-! ### Reading the payload -/

def text (t : Token) : String :=
  match t.payload with
  | .text s => s
  | _ => ""

def integer (t : Token) : Int :=
  match t.payload with
  | .integer n => n
  | _ => 0

def real (t : Token) : Binary64 :=
  match t.payload with
  | .real x => x
  | _ => .zero

/-! ### Writing a token -/

/-- The token as an error message names it. -/
def describe (t : Token) : String :=
  match t.kind with
  | .identifier => "identifier '" ++ t.text ++ "'"
  | .integer => "integer " ++ toString t.integer
  | .real => "float " ++ t.real.shortest
  | .string => "string \"" ++ t.text ++ "\""
  | k => k.describe

/-- The token as a token listing shows it. -/
def display (t : Token) : String :=
  match t.kind with
  | .eof => "end of stream <EOF>"
  | .identifier => "identifier <" ++ t.text ++ ">"
  | .integer => "integer <" ++ toString t.integer ++ ">"
  | .real => "float <" ++ t.real.fixed 6 ++ ">"
  | .string => "string <\"" ++ t.text ++ "\">"
  | .keyword _ => "keyword <" ++ t.kind.describe ++ ">"
  | .symbol _ => "special <" ++ t.kind.describe ++ ">"

end Token

end ScriptCheck
