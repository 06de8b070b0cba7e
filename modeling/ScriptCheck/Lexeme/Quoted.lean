import ScriptCheck.Lexeme.Basic

/-!
# String lexemes

A string stands between two quotation marks of one kind and may hold line breaks. A backslash
spells a backslash, a line feed, a carriage return or a tab together with the character behind it.
Before any other character, the quotation mark included, it stays, and the character with it.
-/

namespace ScriptCheck.Lexeme

/-- What a backslash in front of a character stands for. -/
def unescape : Char → List Char
  | '\\' => ['\\']
  | 'n' => ['\n']
  | 'r' => ['\r']
  | 't' => ['\t']
  | c => ['\\', c]

/-- Looks for the closing mark, with the decoded text and its spelling so far in reverse. -/
def closeStringOnto (mark : Char) (text body : List Char) :
    List Char → Option (List Char × List Char × List Char)
  | [] => none
  | ['\\'] => none
  | '\\' :: c :: rest =>
    closeStringOnto mark ((unescape c).reverseAux text) (c :: '\\' :: body) rest
  | c :: rest =>
    if c = mark then some (text.reverse, body.reverse, rest)
    else closeStringOnto mark (c :: text) (c :: body) rest

/-- The text of a string, its spelling, and what follows the closing mark. -/
def closeString? (mark : Char) (rest : List Char) : Option (List Char × List Char × List Char) :=
  closeStringOnto mark [] [] rest

theorem closeStringOnto_append {mark : Char} {before after input text body rest : List Char}
    (h : closeStringOnto mark before after input = some (text, body, rest)) :
    body ++ mark :: rest = after.reverse ++ input := by
  fun_induction closeStringOnto mark before after input with
  | case1 => simp at h
  | case2 => simp at h
  | case3 _ _ c rest' ih => simpa using ih h
  | case4 _ after rest' =>
    simp only [Option.some.injEq, Prod.mk.injEq] at h
    simp [← h.2.1, ← h.2.2]
  | case5 _ _ c rest' _ _ _ ih => simpa using ih h

theorem closeString?_append {mark : Char} {input text body rest : List Char}
    (h : closeString? mark input = some (text, body, rest)) : body ++ mark :: rest = input := by
  simpa using closeStringOnto_append h

/-- The string at the head of a text that begins with a quotation mark. -/
def quoted (mark : Char) (input : List Char) : Lexeme :=
  match closeString? mark input with
  | some (text, body, rest) =>
    ⟨.ok (.string, .text (String.ofList text)), mark :: (body ++ [mark]), rest⟩
  | none => ⟨.error .unterminatedString, mark :: input, []⟩

theorem quoted_divides (mark : Char) (input : List Char) :
    (quoted mark input).Divides (mark :: input) where
  append := by
    unfold quoted
    split
    · simp [← closeString?_append ‹_›]
    · simp
  ne_nil k p hx _ := by
    unfold quoted
    split <;> simp

end ScriptCheck.Lexeme
