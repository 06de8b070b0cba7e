import ScriptCheck.Lexeme.Quoted

/-!
# Strings and what they are spelled with

`Decodes` relates what stands between two quotation marks to the text of the string. A string is
closed behind what decodes, and nowhere else; what follows makes no difference.
-/

namespace ScriptCheck

/-- How the text of a string is spelled between two quotation marks. -/
inductive Decodes (mark : Char) : List Char → List Char → Prop
  | nil : Decodes mark [] []
  | escape {body text : List Char} (c : Char) (h : Decodes mark body text) :
      Decodes mark ('\\' :: c :: body) (Lexeme.unescape c ++ text)
  | plain {c : Char} {body text : List Char} (hc : c ≠ '\\') (hm : c ≠ mark)
      (h : Decodes mark body text) : Decodes mark (c :: body) (c :: text)

namespace Lexeme

variable {mark c : Char} {input text body rest : List Char} {content : TokenKind × Payload}

theorem ne_backslash (h : c = '\\' → input = [] → False)
    (h' : ∀ d r, c = '\\' → input = d :: r → False) : c ≠ '\\' := by
  intro hc
  cases input with
  | nil => exact h hc rfl
  | cons d r => exact h' d r hc rfl

theorem decodes_of_closeStringOnto {before after : List Char}
    (h : closeStringOnto mark before after input = some (text, body, rest)) :
    mark ≠ '\\' ∧ ∃ spelled decoded, body = after.reverse ++ spelled ∧
      text = before.reverse ++ decoded ∧ Decodes mark spelled decoded := by
  fun_induction closeStringOnto mark before after input with
  | case1 => simp at h
  | case2 => simp at h
  | case3 before after c input ih =>
    obtain ⟨hm, spelled, decoded, rfl, rfl, hd⟩ := ih h
    exact ⟨hm, _, _, by simp, by simp [List.reverseAux_eq], hd.escape c⟩
  | case4 before after input hn hn' =>
    obtain ⟨rfl, rfl, -⟩ : before.reverse = text ∧ after.reverse = body ∧ _ := by simpa using h
    exact ⟨ne_backslash hn hn', [], [], by simp, by simp, .nil⟩
  | case5 before after c input hn hn' hc ih =>
    obtain ⟨hm, spelled, decoded, rfl, rfl, hd⟩ := ih h
    exact ⟨hm, _, _, by simp, by simp, hd.plain (ne_backslash hn hn') hc⟩

theorem closeStringOnto_of_decodes (h : Decodes mark body text) (hm : mark ≠ '\\')
    (before after rest : List Char) :
    closeStringOnto mark before after (body ++ mark :: rest) =
      some (before.reverse ++ text, after.reverse ++ body, rest) := by
  induction h generalizing before after with
  | nil =>
    rw [List.nil_append, closeStringOnto]
    · simp
    · exact fun h => absurd h hm
    · exact fun _ _ h => absurd h hm
  | escape c _ ih =>
    rw [List.cons_append, List.cons_append, closeStringOnto, ih]
    simp [List.reverseAux_eq]
  | plain hc hne _ ih =>
    rw [List.cons_append, closeStringOnto, if_neg hne, ih]
    · simp
    · exact fun h => absurd h hc
    · exact fun _ _ h => absurd h hc

/-- A string is closed where its spelling ends. -/
theorem closeString?_eq_some :
    closeString? mark input = some (text, body, rest) ↔
      mark ≠ '\\' ∧ Decodes mark body text ∧ input = body ++ mark :: rest := by
  constructor
  · intro h
    obtain ⟨hm, spelled, decoded, rfl, rfl, hd⟩ := decodes_of_closeStringOnto h
    exact ⟨hm, hd, (closeString?_append h).symm⟩
  · rintro ⟨hm, hd, rfl⟩
    exact closeStringOnto_of_decodes hd hm [] [] rest

theorem quoted_of_decodes (h : Decodes mark body text) (hm : mark ≠ '\\') (rest : List Char) :
    quoted mark (body ++ mark :: rest) =
      ⟨.ok (.string, .text (String.ofList text)), mark :: (body ++ [mark]), rest⟩ := by
  rw [quoted, closeString?_eq_some.2 ⟨hm, h, rfl⟩]

/-- What is read as a string decodes to its text. -/
theorem exists_decodes_of_quoted (h : (quoted mark input).content = .ok content) :
    ∃ body text rest, mark ≠ '\\' ∧ Decodes mark body text ∧ input = body ++ mark :: rest ∧
      content = (.string, .text (String.ofList text)) := by
  unfold quoted at h
  match hc : closeString? mark input with
  | none => simp [hc] at h
  | some (text, body, rest) =>
    obtain ⟨hm, hd, rfl⟩ := closeString?_eq_some.1 hc
    obtain rfl : (.string, .text (String.ofList text)) = content := by simpa [hc] using h
    exact ⟨body, text, rest, hm, hd, rfl, rfl⟩

end Lexeme

end ScriptCheck
