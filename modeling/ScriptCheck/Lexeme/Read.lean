import ScriptCheck.Lexeme.Number
import ScriptCheck.Lexeme.Quoted

/-!
# Reading one lexeme

`Lexeme.read` reads at the head of a text from which the gap is gone already, so a block comment
that still stands there has no end. Letters and digits are those of ASCII.
-/

namespace ScriptCheck.Lexeme

def isWordStart (c : Char) : Bool :=
  c.isAlpha || c = '_'

def isWordChar (c : Char) : Bool :=
  c.isAlphanum || c = '_'

theorem isWordChar_of_isWordStart {c : Char} (h : isWordStart c) : isWordChar c := by
  simp only [isWordStart, isWordChar, Char.isAlphanum, Bool.or_eq_true] at *
  rcases h with h | h <;> simp [h]

/-- The word at the head of a text, as a keyword or as an identifier. -/
def word (text : List Char) : Lexeme :=
  let letters := text.takeWhile isWordChar
  let name := String.ofList letters
  let content := match TokenKind.ofWord name with
    | .identifier => (TokenKind.identifier, Payload.text name)
    | k => (k, .none)
  ⟨.ok content, letters, text.dropWhile isWordChar⟩

/-- The symbol at the head of a text that begins with `c`. -/
def symbol (c : Char) (text : List Char) : Lexeme :=
  match Symbol.read? text with
  | some (s, n) => ⟨.ok (.symbol s, .none), text.take n, text.drop n⟩
  | none => ⟨.error (if c = '!' then .loneBang else .unrecognized c), [], text⟩

def read (text : List Char) : Lexeme :=
  match text with
  | [] => ⟨.ok (.eof, .none), [], []⟩
  | '/' :: '*' :: _ => ⟨.error .unterminatedComment, text, []⟩
  | c :: rest =>
    if isWordStart c then word text
    else if c.isDigit ∨ c = '.' then number text
    else if c = '"' ∨ c = '\'' then quoted c rest
    else symbol c text

/-! ### What a lexeme uses up -/

theorem word_divides {c : Char} (h : isWordStart c) (rest : List Char) :
    (word (c :: rest)).Divides (c :: rest) where
  append := by simp [word]
  ne_nil _ _ _ _ := by simp [word, isWordChar_of_isWordStart h]

theorem symbol_divides (c : Char) (text : List Char) : (symbol c text).Divides text where
  append := by unfold symbol; split <;> simp
  ne_nil k p hx _ := by
    unfold symbol at hx ⊢
    split at hx
    · rename_i s n h
      have := Symbol.read?_pos h
      simp only [ne_eq, List.take_eq_nil_iff]
      rintro (rfl | rfl)
      · omega
      · simp only [List.length_nil] at this
        omega
    · simp at hx

theorem read_divides (text : List Char) : (read text).Divides text := by
  unfold read
  split
  · exact ⟨rfl, by simp⟩
  · exact ⟨by simp, by simp⟩
  · split
    · exact word_divides ‹_› _
    · split
      · exact number_divides _
      · split
        · exact quoted_divides _ _
        · exact symbol_divides _ _

end ScriptCheck.Lexeme
