import ScriptCheck.Proofs.Lexing.Cover
import ScriptCheck.Proofs.Lexing.Join

/-!
# Printed tokens are read back

Whoever prints tokens has to put something between them: a blank or a line break, and behind it as
many blanks, line breaks and comments as he likes. What is printed in this way is read back token
by token, whatever stands next to what.
-/

namespace ScriptCheck

variable {c : Char} {text inner gap rest lexeme sep : List Char} {content : TokenKind × Payload}
  {contents : List (TokenKind × Payload)}

/-! ### Gaps in front of a text -/

theorem gapPiece?_lineComment (hi : '\n' ∉ inner) (he : ∀ c ∈ rest.head?, c = '\n') :
    gapPiece? ('/' :: '/' :: (inner ++ rest)) = some ('/' :: '/' :: inner, rest) := by
  have hline : ∀ d ∈ inner, decide (d ≠ '\n') := by
    rintro d hd
    rw [decide_eq_true_eq]
    rintro rfl
    exact hi hd
  have hstop : inner.dropWhile (fun d => decide (d ≠ '\n')) = [] →
      ∀ d ∈ rest.head?, decide (d ≠ '\n') = false := fun _ d hd => by simp [he d hd]
  obtain ⟨htake, hdrop⟩ := takeWhile_append_of_imp hstop
  show some ('/' :: '/' :: (inner ++ rest).takeWhile _, (inner ++ rest).dropWhile _) = _
  rw [htake, hdrop, List.takeWhile_eq_self_iff.2 hline, List.dropWhile_eq_nil_iff.2 hline,
    List.nil_append]

/-- A comment without `*/` inside is closed where it ends. -/
theorem closeCommentOnto_of_unclosed (hi : ¬ ['*', '/'] <:+: inner) (before rest : List Char) :
    closeCommentOnto before (inner ++ '*' :: '/' :: rest) =
      some (before.reverse ++ inner, rest) := by
  induction inner generalizing before with
  | nil => simp [closeCommentOnto]
  | cons c inner ih =>
    rw [List.infix_cons_iff, not_or] at hi
    rw [List.cons_append, closeCommentOnto, ih hi.2]
    · simp
    · rintro r rfl hr
      -- the comment would be closed here already
      cases inner with
      | nil => simp at hr
      | cons d inner =>
        obtain ⟨rfl, -⟩ := List.cons.inj hr
        exact hi.1 (by simp)

/-- A gap that stands in front of a text is skipped as a whole. -/
theorem splitGap_append_of_isGap (h : IsGap rest gap) :
    splitGap (gap ++ rest) = (gap ++ (splitGap rest).1, (splitGap rest).2) := by
  induction h with
  | nil => rfl
  | blank hc _ ih => rw [List.cons_append, splitGap_blank hc, ih, List.cons_append]
  | lineComment hi he _ ih =>
    have hp := gapPiece?_lineComment hi he
    rw [← List.append_assoc] at hp
    rw [List.cons_append, List.cons_append, splitGap_of_some hp, ih]
    simp
  | @blockComment inner gap hi _ ih =>
    have hp := gapPiece?_comment (closeCommentOnto_of_unclosed hi [] (gap ++ rest))
    rw [List.reverse_nil, List.nil_append] at hp
    have happ : '/' :: '*' :: (inner ++ '*' :: '/' :: gap) ++ rest =
        '/' :: '*' :: (inner ++ '*' :: '/' :: (gap ++ rest)) := by simp
    rw [happ, splitGap_of_some hp, ih]
    simp

namespace Source

/-- Behind a gap the same is read as in front of it. -/
theorem lex_of_isGap (h : IsGap rest gap) (l : Location) :
    lex ⟨gap ++ rest, l⟩ = lex ⟨rest, l.after gap⟩ := by
  have hskip : skipGap ⟨gap ++ rest, l⟩ = skipGap ⟨rest, l.after gap⟩ := by
    simp only [skipGap, advance, splitGap_append_of_isGap h, Location.after_append]
  rw [lex, lex, hskip]

theorem tokens_of_isGap (h : IsGap rest gap) (l : Location) :
    tokens ⟨gap ++ rest, l⟩ = tokens ⟨rest, l.after gap⟩ :=
  tokens_congr (lex_of_isGap h l)

theorem tokens_of_isLexeme (hl : IsLexeme content lexeme) (hr : AtBlank rest) (l : Location) :
    tokens ⟨lexeme ++ rest, l⟩ =
      (tokens ⟨rest, l.after lexeme⟩).map (⟨content.1, content.2, l⟩ :: ·) :=
  tokens_of_lex (lex_of_blanks (List.nil_append _).symm (List.forall_mem_nil _) hl hr) hl.kind

end Source

/-! ### Separators -/

/-- Blanks, line breaks of any kind, line comments with the break that ends them, and block
comments, in any order. -/
inductive IsTrivia : List Char → Prop
  | nil : IsTrivia []
  | blank {c : Char} {text : List Char} (hc : isBlank c ∨ isBreak c) (h : IsTrivia text) :
      IsTrivia (c :: text)
  | lineComment {inner text : List Char} {c : Char} (hi : ∀ d ∈ inner, ¬ isBreak d)
      (hc : isBreak c) (h : IsTrivia text) : IsTrivia ('/' :: '/' :: (inner ++ c :: text))
  | blockComment {inner text : List Char} (hi : ¬ ['*', '/'] <:+: inner) (h : IsTrivia text) :
      IsTrivia ('/' :: '*' :: (inner ++ '*' :: '/' :: text))

/-- What may be printed between two tokens: it begins with a blank or a line break. -/
def IsSeparator (sep : List Char) : Prop :=
  ∃ c text, sep = c :: text ∧ (isBlank c ∨ isBreak c) ∧ IsTrivia text

theorem IsSeparator.isTrivia (h : IsSeparator sep) : IsTrivia sep := by
  obtain ⟨c, text, rfl, hc, ht⟩ := h
  exact ht.blank hc

/-- A blank or a line break in front of a gap belongs to it. -/
theorem IsGap.foldBreaks_cons (h : IsGap rest (foldBreaks text)) (hc : isBlank c ∨ isBreak c) :
    IsGap rest (foldBreaks (c :: text)) := by
  by_cases hn : ∃ r, c = '\r' ∧ text = '\n' :: r
  · obtain ⟨r, rfl, rfl⟩ := hn
    rwa [foldBreaks_crlf, ← ScriptCheck.foldBreaks_cons (by decide)]
  · rw [foldBreaks_cons_of_not_crlf fun r hr ht => hn ⟨r, hr, ht⟩]
    refine h.blank ?_
    by_cases hb : isBreak c
    · rw [if_pos hb]
      rfl
    · rw [if_neg hb]
      exact hc.resolve_right hb

/-- Folding does not close a comment. -/
theorem not_infix_foldBreaks (h : ¬ ['*', '/'] <:+: inner) :
    ¬ ['*', '/'] <:+: foldBreaks inner := by
  rintro ⟨a, b, hab⟩
  obtain ⟨u, v, rfl, hu, -⟩ := exists_split_of_foldBreaks hab.symm
  obtain ⟨u, w, rfl, -, hw⟩ := exists_split_of_foldBreaks hu
  have hone : ∀ c ∈ w, ¬ isBreak c := not_isBreak_of_foldBreaks (by simp [hw])
  rw [foldBreaks_of_not_isBreak hone] at hw
  exact h ⟨u, v, by rw [hw]⟩

/-- Folded, it is a gap in front of anything. -/
theorem IsTrivia.isGap (h : IsTrivia text) (rest : List Char) : IsGap rest (foldBreaks text) := by
  induction h with
  | nil => exact .nil
  | blank hc _ ih => exact ih.foldBreaks_cons hc
  | @lineComment inner text c hi hc _ ih =>
    have hcr : '\r' ∉ inner := fun hm => hi _ hm rfl
    have hlf : '\n' ∉ inner := fun hm => hi _ hm rfl
    have hgap := ih.foldBreaks_cons (.inr hc)
    obtain ⟨more, hm⟩ := foldBreaks_cons_cases c text
    rw [if_pos hc] at hm
    rw [foldBreaks_cons (by decide), foldBreaks_cons (by decide), foldBreaks_append_of_not_mem hcr]
    exact hgap.lineComment hlf (by simp [hm])
  | blockComment hi _ ih =>
    rw [foldBreaks_cons (by decide), foldBreaks_cons (by decide), foldBreaks_append (by simp),
      foldBreaks_cons (by decide), foldBreaks_cons (by decide)]
    exact ih.blockComment (not_infix_foldBreaks hi)

theorem IsSeparator.atBlank (h : IsSeparator sep) (rest : List Char) :
    AtBlank (foldBreaks sep ++ rest) := by
  obtain ⟨c, text, rfl, hc, -⟩ := h
  obtain ⟨more, hm⟩ := foldBreaks_cons_cases c text
  rw [hm, List.cons_append, atBlank_cons]
  by_cases hb : isBreak c
  · rw [if_pos hb]
    rfl
  · rw [if_neg hb]
    exact hc.resolve_right hb

/-! ### Printed texts -/

/-- The text is lexemes of the contents with a separator behind each; behind the last one it may be
missing. -/
inductive Printed : List (TokenKind × Payload) → List Char → Prop
  | nil : Printed [] []
  | last {content : TokenKind × Payload} {lexeme : List Char} (hl : Spells content lexeme) :
      Printed [content] lexeme
  | cons {content : TokenKind × Payload} {contents : List (TokenKind × Payload)}
      {lexeme sep text : List Char} (hl : Spells content lexeme) (hs : IsSeparator sep)
      (h : Printed contents text) : Printed (content :: contents) (lexeme ++ (sep ++ text))

theorem IsLexeme.head?_ne (h : IsLexeme content lexeme) (rest : List Char) :
    (lexeme ++ rest).head? ≠ some '\n' := by
  have hread := h.read [] atBlank_nil
  have hgap := h.gapPiece [] atBlank_nil
  rw [List.append_nil] at hread hgap
  cases lexeme with
  | nil =>
    obtain rfl : _ = content := Except.ok.inj (congrArg Lexeme.content hread)
    exact absurd rfl h.kind
  | cons c lexeme =>
    intro hc
    obtain rfl : c = '\n' := Option.some.inj hc
    exact isBlank_false_of_gapPiece? hgap rfl

theorem Printed.head?_ne (h : Printed contents text) : text.head? ≠ some '\n' := by
  cases h with
  | nil => simp
  | last hl =>
    rw [← List.append_nil text]
    exact hl.isLexeme.head?_ne []
  | cons hl => exact hl.isLexeme.head?_ne _

theorem Printed.tokens (h : Printed contents text) (l : Location) :
    ∃ (ts : List Token) (l' : Location),
      Source.tokens ⟨foldBreaks text, l⟩ = .ok (ts ++ [.eof l']) ∧
        ts.map Token.content = contents := by
  induction h generalizing l with
  | nil => exact ⟨[], l, Source.tokens_of_lex_eof (Source.lex_of_nil l) rfl, rfl⟩
  | @last content lexeme hl =>
    have hlex := Source.tokens_of_isLexeme hl.isLexeme atBlank_nil l
    rw [List.append_nil, Source.tokens_of_lex_eof (Source.lex_of_nil _) rfl] at hlex
    rw [foldBreaks_of_not_mem hl.not_mem, hlex]
    exact ⟨[⟨content.1, content.2, l⟩], _, rfl, rfl⟩
  | @cons content contents lexeme sep text hl hs h ih =>
    have hfold : foldBreaks (lexeme ++ (sep ++ text)) =
        lexeme ++ (foldBreaks sep ++ foldBreaks text) := by
      rw [foldBreaks_append_of_not_mem hl.not_mem, foldBreaks_append h.head?_ne]
    obtain ⟨ts, l', ht, hc⟩ := ih ((l.after lexeme).after (foldBreaks sep))
    refine ⟨⟨content.1, content.2, l⟩ :: ts, l', ?_, ?_⟩
    · rw [hfold, Source.tokens_of_isLexeme hl.isLexeme (hs.atBlank _),
        Source.tokens_of_isGap (hs.isTrivia.isGap _), ht]
      rfl
    · rw [List.map_cons, hc]
      rfl

/-- A printed text is read back as the tokens that were printed, and the end of the text behind
them. In front of the first one there may be anything that may stand between them. -/
theorem tokenize_printed {lead : List Char} (hs : IsTrivia lead) (h : Printed contents text) :
    ∃ (ts : List Token) (l : Location),
      tokenize (String.ofList (lead ++ text)) = .ok (ts ++ [.eof l]) ∧
        ts.map Token.content = contents := by
  rw [tokenize, Source.ofText, String.toList_ofList, foldBreaks_append h.head?_ne,
    Source.tokens_of_isGap (hs.isGap _)]
  exact h.tokens _

theorem tokenize_printed_comments :
    IsTrivia "/**/".toList ∧
      Printed [(.identifier, .text "x"), (.symbol .divide, .none), (.string, .text "a\n"),
        (.integer, .integer 7)] "x\t//c\r\n/ /***/'a\\n'\r007".toList ∧
      ∃ (ts : List Token) (l : Location),
        tokenize (String.ofList ("/**/".toList ++ "x\t//c\r\n/ /***/'a\\n'\r007".toList)) =
            .ok (ts ++ [.eof l]) ∧
          ts.map Token.content = [(.identifier, .text "x"), (.symbol .divide, .none),
            (.string, .text "a\n"), (.integer, .integer 7)] := by
  have hlead : IsTrivia ('/' :: '*' :: ([] ++ '*' :: '/' :: [])) := .blockComment (by simp) .nil
  have hcomment : IsTrivia ('/' :: '/' :: (['c'] ++ '\r' :: ['\n'])) :=
    .lineComment (by simp [isBreak]) rfl (.blank (.inr rfl) .nil)
  have hline : IsSeparator ['\t', '/', '/', 'c', '\r', '\n'] := ⟨'\t', _, rfl, .inl rfl, hcomment⟩
  have hstar : IsTrivia ('/' :: '*' :: (['*'] ++ '*' :: '/' :: [])) :=
    .blockComment (by simp [List.infix_cons_iff]) .nil
  have hblock : IsSeparator [' ', '/', '*', '*', '*', '/'] := ⟨' ', _, rfl, .inl rfl, hstar⟩
  have hbreak : IsSeparator ['\r'] := ⟨'\r', _, rfl, .inr rfl, .nil⟩
  have hx : Spells (.identifier, .text "x") ['x'] := .name isName_x
  have hstring : Spells (.string, .text (String.ofList ['a', '\n']))
      ('\'' :: (escape ['a', '\n'] ++ ['\''])) := .string (.inr rfl) (by simp)
  have hinteger : Spells (.integer, .integer (decimalValue ['0', '0', '7'])) ['0', '0', '7'] :=
    .integer (by simp) (List.all_eq_true.1 rfl) (by decide)
  have htext := Printed.cons hx hline <| .cons (.symbol .divide) hblock <|
    .cons hstring hbreak <| .last hinteger
  refine ⟨hlead, ?printed, tokenize_printed hlead ?printed⟩
  simpa [Symbol.text, escape, escapeChar, decimalValue, digitValue] using htext

end ScriptCheck
