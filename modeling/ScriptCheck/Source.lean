import ScriptCheck.Lexeme.Gap
import ScriptCheck.Lexeme.Read
import ScriptCheck.Text.LineBreak

/-!
# Source texts

A source is what is left of a text, with its breaks folded, and the place where that begins.
`Source.lex` takes the next token off it. After a lexical error the source stands wherever reading
broke off, and can be read on from there.
-/

namespace ScriptCheck

structure Source where
  rest : List Char
  location : Location
deriving DecidableEq, Repr

namespace Source

def ofText (text : String) : Source :=
  ⟨foldBreaks text.toList, .start⟩

/-- The source behind the characters `taken` at its head. -/
def advance (s : Source) (taken rest : List Char) : Source :=
  ⟨rest, s.location.after taken⟩

/-- The source behind the gap at its head. -/
def skipGap (s : Source) : Source :=
  let (gap, rest) := splitGap s.rest
  s.advance gap rest

/-- Reads a token at the head of a source without a gap. -/
def readToken (s : Source) : Except LexError Token × Source :=
  let x := Lexeme.read s.rest
  let behind := s.advance x.taken x.rest
  match x.content with
  | .ok (kind, payload) => (.ok ⟨kind, payload, s.location⟩, behind)
  | .error fault => (.error ⟨fault, fault.place s.location behind.location x.rest⟩, behind)

/-- The next token, which is the end of the text once nothing else is left. -/
def lex (s : Source) : Except LexError Token × Source :=
  s.skipGap.readToken

/-! ### Progress -/

theorem length_skipGap_le (s : Source) : s.skipGap.rest.length ≤ s.rest.length :=
  length_splitGap_le s.rest

@[simp] theorem readToken_rest (s : Source) : s.readToken.2.rest = (Lexeme.read s.rest).rest := by
  unfold readToken; dsimp only; split <;> rfl

theorem length_lex_le (s : Source) : s.lex.2.rest.length ≤ s.rest.length := by
  have := (Lexeme.read_divides s.skipGap.rest).length_le
  have := s.length_skipGap_le
  simp only [lex, readToken_rest]
  omega

theorem length_lex_lt {s s' : Source} {t : Token} (h : s.lex = (.ok t, s')) (ht : t.kind ≠ .eof) :
    s'.rest.length < s.rest.length := by
  have hd := Lexeme.read_divides s.skipGap.rest
  have hs := s.length_skipGap_le
  have hr := s.skipGap.readToken_rest
  unfold lex at h
  rw [h] at hr
  unfold readToken at h
  dsimp only at h
  split at h
  · rename_i k p hx
    simp only [Prod.mk.injEq, Except.ok.injEq] at h
    have := hd.length_lt hx (by simpa [← h.1] using ht)
    simp only at hr
    rw [hr]
    omega
  · simp at h

/-! ### All tokens -/

/-- The tokens of a source behind those read already, kept in reverse. -/
def tokensOnto (before : List Token) (s : Source) : Except LexError (List Token) :=
  match _ : s.lex with
  | (.error e, _) => .error e
  | (.ok t, s') =>
    if _ : t.kind = .eof then .ok (t :: before).reverse else tokensOnto (t :: before) s'
termination_by s.rest.length
decreasing_by exact length_lex_lt ‹_› ‹_›

theorem tokensOnto_of_error {before : List Token} {s s' : Source} {e : LexError}
    (h : s.lex = (.error e, s')) : tokensOnto before s = .error e := by
  rw [tokensOnto]
  split <;> simp_all

theorem tokensOnto_of_eof {before : List Token} {s s' : Source} {t : Token}
    (h : s.lex = (.ok t, s')) (ht : t.kind = .eof) :
    tokensOnto before s = .ok (t :: before).reverse := by
  rw [tokensOnto]
  split <;> simp_all

theorem tokensOnto_of_token {before : List Token} {s s' : Source} {t : Token}
    (h : s.lex = (.ok t, s')) (ht : t.kind ≠ .eof) :
    tokensOnto before s = tokensOnto (t :: before) s' := by
  rw [tokensOnto]
  split <;> simp_all

/-- The tokens of a source up to the end of the text, which is the last of them. -/
def tokens (s : Source) : Except LexError (List Token) :=
  tokensOnto [] s

end Source

/-- The tokens of a text, or its first lexical error. -/
def tokenize (text : String) : Except LexError (List Token) :=
  (Source.ofText text).tokens

end ScriptCheck
