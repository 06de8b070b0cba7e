import ScriptCheck.Lexeme.Fault
import ScriptCheck.Token.Basic

/-!
# Lexemes

Reading at the head of a text gives a kind and its payload, or a fault. In either case a part of
the text is used up, which may be empty or all of it after a fault.
-/

namespace ScriptCheck

structure Lexeme where
  content : Except Fault (TokenKind × Payload)
  taken : List Char
  rest : List Char

namespace Lexeme

/-- The lexeme divides `text`, and a token other than the end uses up a part of it. -/
structure Divides (x : Lexeme) (text : List Char) : Prop where
  append : x.taken ++ x.rest = text
  ne_nil : ∀ k p, x.content = .ok (k, p) → k ≠ .eof → x.taken ≠ []

theorem Divides.length_le {x : Lexeme} {text : List Char} (h : x.Divides text) :
    x.rest.length ≤ text.length := by
  simp [← h.append]

theorem Divides.length_lt {x : Lexeme} {text : List Char} (h : x.Divides text)
    {k : TokenKind} {p : Payload} (hx : x.content = .ok (k, p)) (hk : k ≠ .eof) :
    x.rest.length < text.length := by
  have := List.length_pos_iff.2 (h.ne_nil k p hx hk)
  simp [← h.append]
  omega

end Lexeme

end ScriptCheck
