import ScriptCheck.Proofs.Lexing.Join
import ScriptCheck.Proofs.Lexing.Munch

/-!
# Which strings can be written

A backslash in front of the closing mark keeps the string open, and both characters stay in its
text. So a text that holds the mark can be written only if a backslash stands in front of each mark
in the text itself, and then it can: `spell` doubles every other backslash.
-/

namespace ScriptCheck

/-- Directly in front of each mark in the text stands a backslash. -/
def MarksEscaped (mark : Char) (text : List Char) : Prop :=
  ∀ front rest, text = front ++ mark :: rest → front.getLast? = some '\\'

/-- What stands for a text between two marks. A backslash is doubled, unless a mark follows. -/
def spell (mark : Char) : List Char → List Char
  | [] => []
  | c :: text =>
    (if c = '\\' ∧ text.head? = some mark then ['\\'] else escapeChar c) ++ spell mark text

/-- Between two marks the characters are one string with the text, and nothing else. -/
def IsLiteral (mark : Char) (body text : List Char) : Prop :=
  ∃ l, tokenize (String.ofList (mark :: (body ++ [mark]))) =
    .ok [⟨.string, .text (String.ofList text), .start⟩, .eof l]

variable {mark c : Char} {text body rest : List Char}

/-! ### Marks behind a backslash -/

namespace MarksEscaped

theorem nil : MarksEscaped mark [] := by
  intro front rest h
  simp at h

theorem cons (hc : c ≠ mark) (h : MarksEscaped mark text) : MarksEscaped mark (c :: text) := by
  intro front rest htext
  cases front with
  | nil => exact absurd (List.cons.inj htext).1 hc
  | cons d front => simp [List.getLast?_cons, h front rest (List.cons.inj htext).2]

theorem escape (hm : mark ≠ '\\') (h : MarksEscaped mark text) :
    MarksEscaped mark ('\\' :: mark :: text) := by
  rintro (_ | ⟨d, _ | ⟨e, front⟩⟩) rest htext
  · exact absurd (List.cons.inj htext).1.symm hm
  · obtain ⟨rfl, -⟩ := List.cons.inj htext
    rfl
  · obtain ⟨-, htext⟩ := List.cons.inj htext
    simp [List.getLast?_cons, h front rest (List.cons.inj htext).2]

theorem ne (h : MarksEscaped mark (c :: text)) : c ≠ mark := by
  rintro rfl
  simpa using h [] text rfl

theorem tail (h : MarksEscaped mark (c :: text)) (hh : text.head? ≠ some mark) :
    MarksEscaped mark text := by
  rintro front rest rfl
  have hf := h (c :: front) rest rfl
  cases front with
  | nil => exact absurd rfl hh
  | cons d front => simpa [List.getLast?_cons] using hf

theorem eq_backslash (h : MarksEscaped mark (c :: text)) (hh : text.head? = some mark) :
    c = '\\' := by
  obtain ⟨rest, rfl⟩ := List.head?_eq_some_iff.1 hh
  simpa using h [c] rest rfl

theorem behind (hm : mark ≠ '\\') (h : MarksEscaped mark ('\\' :: mark :: text)) :
    MarksEscaped mark text := by
  rintro front rest rfl
  have hf := h ('\\' :: mark :: front) rest rfl
  cases front with
  | nil => exact absurd (by simpa using hf) hm
  | cons d front => simpa [List.getLast?_cons] using hf

end MarksEscaped

theorem ne_escape (hm : mark = '"' ∨ mark = '\'') :
    mark ≠ '\\' ∧ mark ≠ '\n' ∧ mark ≠ '\r' ∧ mark ≠ '\t' := by
  rcases hm with rfl | rfl <;> decide

/-- A backslash spells one of four characters, or stays with the one behind it. -/
theorem unescape_cases (c : Char) :
    (∃ d, Lexeme.unescape c = [d] ∧ (d = '\\' ∨ d = '\n' ∨ d = '\r' ∨ d = '\t')) ∨
      Lexeme.unescape c = ['\\', c] := by
  unfold Lexeme.unescape
  split
  · exact .inl ⟨_, rfl, .inl rfl⟩
  · exact .inl ⟨_, rfl, .inr (.inl rfl)⟩
  · exact .inl ⟨_, rfl, .inr (.inr (.inl rfl))⟩
  · exact .inl ⟨_, rfl, .inr (.inr (.inr rfl))⟩
  · exact .inr rfl

/-- The text of a string has its marks escaped. -/
theorem Decodes.marksEscaped (hm : mark = '"' ∨ mark = '\'') (h : Decodes mark body text) :
    MarksEscaped mark text := by
  obtain ⟨hb, hn, hr, ht⟩ := ne_escape hm
  induction h with
  | nil => exact .nil
  | plain _ hc _ ih => exact ih.cons hc
  | escape c _ ih =>
    rcases unescape_cases c with ⟨d, hc, rfl | rfl | rfl | rfl⟩ | hc <;> rw [hc]
    · exact ih.cons hb.symm
    · exact ih.cons hn.symm
    · exact ih.cons hr.symm
    · exact ih.cons ht.symm
    · by_cases hmark : c = mark
      · rw [hmark]
        exact ih.escape hb
      · exact (ih.cons hmark).cons hb.symm

/-! ### Spelling -/

theorem decodes_spell (hm : mark = '"' ∨ mark = '\'') (h : MarksEscaped mark text) :
    Decodes mark (spell mark text) text := by
  obtain ⟨hb, hn, hr, ht⟩ := ne_escape hm
  induction hlen : text.length using Nat.strongRecOn generalizing text with
  | ind n ih =>
    cases text with
    | nil => exact .nil
    | cons c text =>
      by_cases hh : text.head? = some mark
      · -- a backslash and the mark behind it are taken together
        obtain rfl := h.eq_backslash hh
        obtain ⟨rest, rfl⟩ := List.head?_eq_some_iff.1 hh
        have hlt : rest.length < n := by
          simp only [← hlen, List.length_cons]
          omega
        have hrest := ih _ hlt (h.behind hb) rfl
        have hspell : spell mark ('\\' :: mark :: rest) = '\\' :: mark :: spell mark rest := by
          simp [spell, hb, escapeChar_of_ne hb hn hr ht]
        have hmark : Lexeme.unescape mark = ['\\', mark] := by
          rcases hm with rfl | rfl <;> rfl
        have hd := hrest.escape mark
        rwa [hmark, ← hspell] at hd
      · have hrest := ih _ (by simp [← hlen]) (h.tail hh) rfl
        have hspell : spell mark (c :: text) = escapeChar c ++ spell mark text := by
          simp [spell, hh]
        rw [hspell]
        exact hrest.escapeChar h.ne

theorem not_mem_spell (mark : Char) (text : List Char) : '\r' ∉ spell mark text := by
  induction text with
  | nil => simp [spell]
  | cons c text ih =>
    rw [spell, List.mem_append, not_or]
    refine ⟨?_, ih⟩
    split
    · simp
    · exact not_mem_escapeChar c

/-! ### Literals -/

theorem Source.lex_of_decodes (hm : mark = '"' ∨ mark = '\'') (h : Decodes mark body text)
    (rest : List Char) (l : Location) :
    lex ⟨mark :: (body ++ mark :: rest), l⟩ =
      (.ok ⟨.string, .text (String.ofList text), l⟩,
        ⟨rest, l.after (mark :: (body ++ [mark]))⟩) := by
  have hgap : gapPiece? (mark :: (body ++ mark :: rest)) = none := by
    rcases hm with rfl | rfl <;> rfl
  rw [lex, skipGap_of_none hgap]
  unfold readToken
  dsimp only
  rw [Lexeme.read_eq_quoted hm, Lexeme.quoted_of_decodes h (ne_escape hm).1]
  rfl

/-- A literal is read where it stands as the string that it spells, and reading goes on behind the
closing mark, whatever follows. -/
theorem Source.lex_of_spell (hm : mark = '"' ∨ mark = '\'') (h : MarksEscaped mark text)
    (rest : List Char) (l : Location) :
    lex ⟨foldBreaks (mark :: (spell mark text ++ mark :: rest)), l⟩ =
      (.ok ⟨.string, .text (String.ofList text), l⟩,
        ⟨foldBreaks rest, l.after (mark :: (spell mark text ++ [mark]))⟩) := by
  have hr : mark ≠ '\r' := (ne_escape hm).2.2.1
  rw [foldBreaks_cons hr, foldBreaks_append_of_not_mem (not_mem_spell mark text),
    foldBreaks_cons hr]
  exact lex_of_decodes hm (decodes_spell hm h) _ l

theorem isLiteral_spell (hm : mark = '"' ∨ mark = '\'') (h : MarksEscaped mark text) :
    IsLiteral mark (spell mark text) text := by
  have hlex := Source.lex_of_spell hm h [] .start
  refine ⟨Location.start.after (mark :: (spell mark text ++ [mark])), ?_⟩
  rw [tokenize, Source.ofText, String.toList_ofList, Source.tokens_of_lex hlex (by simp),
    foldBreaks_nil, Source.tokens_of_lex_eof (Source.lex_of_nil _) rfl]
  rfl

/-- Whatever stands between the marks, the text of the string has its marks escaped. -/
theorem IsLiteral.marksEscaped (hm : mark = '"' ∨ mark = '\'') (h : IsLiteral mark body text) :
    MarksEscaped mark text := by
  obtain ⟨l, h⟩ := h
  have htokens : (Source.ofText (String.ofList (mark :: (body ++ [mark])))).tokens =
      .ok ([] ++ ⟨.string, .text (String.ofList text), .start⟩ :: [.eof l]) := h
  obtain ⟨s, s', hs, hlex⟩ := Source.exists_lex_of_tokens htokens
  cases hs
  have hrest : (Source.ofText (String.ofList (mark :: (body ++ [mark])))).rest =
      mark :: foldBreaks (body ++ [mark]) := by
    rw [Source.ofText, String.toList_ofList, foldBreaks_cons (ne_escape hm).2.2.1]
  have hgap : gapPiece? (Source.ofText (String.ofList (mark :: (body ++ [mark])))).rest = none := by
    rw [hrest]
    rcases hm with rfl | rfl <;> rfl
  obtain ⟨-, -, hc⟩ := Source.lex_eq_ok hlex
  rw [Source.skipGap_of_none hgap, hrest, Lexeme.read_eq_quoted hm] at hc
  obtain ⟨body', text', rest, -, hd, -, htext⟩ := Lexeme.exists_decodes_of_quoted hc
  obtain rfl : text = text' := String.ofList_inj.1 (by simpa using htext)
  exact hd.marksEscaped hm

/-- The texts that can be written between two marks of a kind are those in which a backslash stands
in front of each such mark. `spell` writes them, and what follows the literal makes no difference to
the string, nor to where reading goes on. -/
theorem string_writable_iff (hm : mark = '"' ∨ mark = '\'') (text : List Char) :
    ((∃ body, IsLiteral mark body text) ↔ MarksEscaped mark text) ∧
      (MarksEscaped mark text → IsLiteral mark (spell mark text) text ∧
        ∀ (rest : List Char) (l : Location),
          Source.lex ⟨foldBreaks (mark :: (spell mark text ++ mark :: rest)), l⟩ =
            (.ok ⟨.string, .text (String.ofList text), l⟩,
              ⟨foldBreaks rest, l.after (mark :: (spell mark text ++ [mark]))⟩)) := by
  refine ⟨⟨?_, ?_⟩, ?_⟩
  · rintro ⟨body, h⟩
    exact h.marksEscaped hm
  · intro h
    exact ⟨spell mark text, isLiteral_spell hm h⟩
  · intro h
    exact ⟨isLiteral_spell hm h, Source.lex_of_spell hm h⟩

theorem string_writable_quotation :
    (¬ ∃ body, IsLiteral '"' body ['"']) ∧ MarksEscaped '"' ['\\', '"', '\n'] ∧
      IsLiteral '"' ['\\', '"', '\\', 'n'] ['\\', '"', '\n'] := by
  have h : MarksEscaped '"' ['\\', '"', '\n'] :=
    (MarksEscaped.nil.cons (by decide)).escape (by decide)
  refine ⟨?_, h, ((string_writable_iff (.inl rfl) _).2 h).1⟩
  rw [(string_writable_iff (.inl rfl) ['"']).1]
  intro hbare
  exact hbare.ne rfl

end ScriptCheck
