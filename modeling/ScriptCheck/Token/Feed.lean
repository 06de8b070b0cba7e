import ScriptCheck.Lexeme.Fault
import ScriptCheck.Token.Basic

/-!
# Feeds of tokens

A feed has a current token, makes the next one current, and tells the token behind the current one
in advance. A text feeds its tokens one by one as they are asked for; a list feeds what it holds.
-/

namespace ScriptCheck

class TokenFeed (σ : Type) where
  current : σ → Token
  next : σ → Except LexError Unit × σ
  /-- Tells what `next` would make current. -/
  peek : σ → Except LexError Token × σ
  /-- Bounds how many tokens are to come before the end of the text. -/
  size : σ → Nat
  size_next_lt {s s' : σ} : (current s).kind ≠ .eof → next s = (.ok (), s') → size s' < size s
  size_peek_le {s s' : σ} {t : Token} : peek s = (.ok t, s') → size s' ≤ size s
  next_of_peek {s s' : σ} {t : Token} : peek s = (.ok t, s') →
    current s' = current s ∧ next s' = next s ∧ ∃ s'', next s = (.ok (), s'') ∧ current s'' = t
  next_of_peek_error {s s' : σ} {e : LexError} : peek s = (.error e, s') → next s = (.error e, s')

end ScriptCheck
