/-!
# Symbols

Operators and punctuation, with the spelling that messages use. The inequality may also be written
`<>` in a program.
-/

namespace ScriptCheck

inductive Symbol
  | plus | minus | times | divide | power
  | less | lessEq | greater | greaterEq | equal | notEqual | assign
  | colon | semicolon | comma
  | leftParen | rightParen | leftBracket | rightBracket | leftBrace | rightBrace
deriving DecidableEq, Repr

namespace Symbol

def text : Symbol → String
  | plus => "+"
  | minus => "-"
  | times => "*"
  | divide => "/"
  | power => "^"
  | less => "<"
  | lessEq => "<="
  | greater => ">"
  | greaterEq => ">="
  | equal => "=="
  | notEqual => "!="
  | assign => "="
  | colon => ":"
  | semicolon => ";"
  | comma => ","
  | leftParen => "("
  | rightParen => ")"
  | leftBracket => "["
  | rightBracket => "]"
  | leftBrace => "\x7b"
  | rightBrace => "\x7d"

/-- The symbol at the head of a text, the longer of two, with the number of its characters. -/
def read? : List Char → Option (Symbol × Nat)
  | '<' :: '=' :: _ => some (lessEq, 2)
  | '<' :: '>' :: _ => some (notEqual, 2)
  | '<' :: _ => some (less, 1)
  | '>' :: '=' :: _ => some (greaterEq, 2)
  | '>' :: _ => some (greater, 1)
  | '=' :: '=' :: _ => some (equal, 2)
  | '=' :: _ => some (assign, 1)
  | '!' :: '=' :: _ => some (notEqual, 2)
  | '+' :: _ => some (plus, 1)
  | '-' :: _ => some (minus, 1)
  | '*' :: _ => some (times, 1)
  | '/' :: _ => some (divide, 1)
  | '^' :: _ => some (power, 1)
  | '(' :: _ => some (leftParen, 1)
  | ')' :: _ => some (rightParen, 1)
  | '[' :: _ => some (leftBracket, 1)
  | ']' :: _ => some (rightBracket, 1)
  | '\x7b' :: _ => some (leftBrace, 1)
  | '\x7d' :: _ => some (rightBrace, 1)
  | ',' :: _ => some (comma, 1)
  | ';' :: _ => some (semicolon, 1)
  | ':' :: _ => some (colon, 1)
  | _ => none

theorem read?_pos {text : List Char} {s : Symbol} {n : Nat} (h : read? text = some (s, n)) :
    0 < n ∧ n ≤ text.length := by
  unfold read? at h
  split at h <;> simp only [Option.some.injEq, Prod.mk.injEq, reduceCtorEq] at h <;>
  obtain ⟨-, rfl⟩ := h <;> simp

end Symbol

end ScriptCheck
