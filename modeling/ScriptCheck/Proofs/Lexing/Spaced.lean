import ScriptCheck.Proofs.Lexing.Extend
import ScriptCheck.Proofs.Lexing.Spelling
import ScriptCheck.Proofs.Recognizer.Tokens
import ScriptCheck.Proofs.Text.Lines

/-!
# Texts of lexemes with blanks between them

A text that consists of lexemes with blanks between them has these lexemes for its tokens, and no
others. Programs can so be written down by their tokens.
-/

namespace ScriptCheck

/-- What a token is, wherever it stands. -/
def Token.content (t : Token) : TokenKind × Payload :=
  (t.kind, t.payload)

/-- The text consists of lexemes that stand for `contents`, with blanks between and around them.
What stands for a content is left open. -/
inductive Spaced (Stands : TokenKind × Payload → List Char → Prop) :
    List (TokenKind × Payload) → List Char → Prop
  | nil {blanks : List Char} (hb : ∀ c ∈ blanks, isBlank c) : Spaced Stands [] blanks
  | cons {content : TokenKind × Payload} {contents : List (TokenKind × Payload)}
      {blanks lexeme rest : List Char} (hb : ∀ c ∈ blanks, isBlank c)
      (hl : Stands content lexeme) (hr : AtBlank rest) (h : Spaced Stands contents rest) :
      Spaced Stands (content :: contents) (blanks ++ (lexeme ++ rest))

variable {blanks text : List Char} {contents : List (TokenKind × Payload)} {s : Source}

theorem Spaced.mono {Stands Stands' : TokenKind × Payload → List Char → Prop}
    (h : Spaced Stands contents text) (hs : ∀ content lexeme, Stands content lexeme →
      Stands' content lexeme) : Spaced Stands' contents text := by
  induction h with
  | nil hb => exact .nil hb
  | cons hb hl hr _ ih => exact .cons hb (hs _ _ hl) hr ih

/-- More blanks may stand in front. -/
theorem Spaced.blank {Stands : TokenKind × Payload → List Char → Prop}
    (h : Spaced Stands contents text) (hb : ∀ c ∈ blanks, isBlank c) :
    Spaced Stands contents (blanks ++ text) := by
  have happ {more : List Char} (hm : ∀ c ∈ more, isBlank c) : ∀ c ∈ blanks ++ more, isBlank c := by
    intro c hc
    exact (List.mem_append.1 hc).elim (hb c) (hm c)
  cases h with
  | nil hm => exact .nil (happ hm)
  | cons hm hl hr h =>
    rw [← List.append_assoc]
    exact .cons (happ hm) hl hr h

theorem splitGap_of_blanks (hb : ∀ c ∈ blanks, isBlank c) (ht : gapPiece? text = none) :
    splitGap (blanks ++ text) = (blanks, text) := by
  induction blanks with
  | nil => exact splitGap_of_none ht
  | cons c blanks ih =>
    obtain ⟨hc, hb⟩ := List.forall_mem_cons.1 hb
    rw [List.cons_append, splitGap_blank hc, ih hb]

theorem Source.lex_of_blanks {content : TokenKind × Payload} {lexeme rest : List Char}
    (hs : s.rest = blanks ++ (lexeme ++ rest)) (hb : ∀ c ∈ blanks, isBlank c)
    (hl : IsLexeme content lexeme) (hr : AtBlank rest) :
    s.lex = (.ok ⟨content.1, content.2, s.location.after blanks⟩,
      ⟨rest, (s.location.after blanks).after lexeme⟩) := by
  have hg : s.skipGap = ⟨lexeme ++ rest, s.location.after blanks⟩ := by
    unfold skipGap
    rw [hs, splitGap_of_blanks hb (hl.gapPiece rest hr)]
    rfl
  unfold lex readToken
  rw [hg]
  simp only [hl.read rest hr]
  rfl

theorem Source.lex_of_only_blanks (hs : ∀ c ∈ s.rest, isBlank c) :
    s.lex = (.ok (.eof (s.location.after s.rest)), ⟨[], s.location.after s.rest⟩) := by
  have hg : s.skipGap = ⟨[], s.location.after s.rest⟩ := by
    have h : splitGap (s.rest ++ []) = (s.rest, []) := splitGap_of_blanks hs rfl
    rw [List.append_nil] at h
    unfold skipGap
    rw [h]
    rfl
  unfold lex readToken
  rw [hg]
  rfl

/-- The tokens of such a text are its lexemes, and the end of the text behind them. -/
theorem Spaced.tokens (h : Spaced IsLexeme contents s.rest) :
    ∃ ts l, s.tokens = .ok (ts ++ [.eof l]) ∧ ts.map Token.content = contents := by
  generalize hs : s.rest = text at h
  induction h generalizing s with
  | nil hb =>
    subst hs
    exact ⟨[], _, Source.tokens_of_lex_eof (Source.lex_of_only_blanks hb) rfl, rfl⟩
  | @cons content contents blanks lexeme rest hb hl hr h ih =>
    have hlex := Source.lex_of_blanks hs hb hl hr
    obtain ⟨ts, l, ht, hc⟩ := @ih ⟨rest, (s.location.after blanks).after lexeme⟩ rfl
    refine ⟨⟨content.1, content.2, s.location.after blanks⟩ :: ts, l, ?_, ?_⟩
    · rw [Source.tokens_of_lex hlex hl.kind, ht]
      rfl
    · rw [List.map_cons, hc]
      rfl

theorem tokenize_of_spaced {text : String} (h : Spaced IsLexeme contents (foldBreaks text.toList)) :
    ∃ ts l, tokenize text = .ok (ts ++ [.eof l]) ∧ ts.map Token.content = contents :=
  @Spaced.tokens contents (Source.ofText text) h

/-! ### Spelling -/

/-- The content can be written into a program. -/
def Spellable (content : TokenKind × Payload) : Prop :=
  ∃ lexeme, IsLexeme content lexeme ∧ '\r' ∉ lexeme

theorem Spells.spellable {content : TokenKind × Payload} {lexeme : List Char}
    (h : Spells content lexeme) : Spellable content :=
  ⟨lexeme, h.isLexeme, h.not_mem⟩

/-- There is a text for given contents if each of them can be written. -/
theorem exists_spaced {Stands : TokenKind × Payload → List Char → Prop}
    (h : ∀ content ∈ contents, ∃ lexeme, Stands content lexeme ∧ '\r' ∉ lexeme) :
    ∃ text : String, Spaced Stands contents (foldBreaks text.toList) := by
  suffices hs : ∃ text, Spaced Stands contents text ∧ AtBlank text ∧ '\r' ∉ text by
    obtain ⟨text, hs, -, hr⟩ := hs
    refine ⟨String.ofList text, ?_⟩
    rwa [String.toList_ofList, foldBreaks_of_not_mem hr]
  induction contents with
  | nil => exact ⟨[], .nil (by simp), atBlank_nil, by simp⟩
  | cons content contents ih =>
    obtain ⟨rest, hs, ha, hr⟩ := ih fun c hc => h c (List.mem_cons_of_mem content hc)
    obtain ⟨lexeme, hl, hr'⟩ := h content (List.mem_cons_self ..)
    refine ⟨[' '] ++ (lexeme ++ rest), .cons (by simp [isBlank]) hl ha hs, ?_, ?_⟩
    · simp [isBlank]
    · simp [hr, hr']

theorem exists_tokenize_of_spellable (h : ∀ content ∈ contents, Spellable content) :
    ∃ text ts l, tokenize text = .ok (ts ++ [.eof l]) ∧ ts.map Token.content = contents := by
  obtain ⟨text, hs⟩ := exists_spaced h
  exact ⟨text, tokenize_of_spaced hs⟩

/-- Behind a gap no gap follows. -/
theorem gapPiece?_splitGap (text : List Char) : gapPiece? (splitGap text).2 = none := by
  have h (gap text : List Char) : gapPiece? (splitGapOnto gap text).2 = none := by
    fun_induction splitGapOnto gap text with
    | case1 gap text piece rest _ ih => exact ih
    | case2 gap text ht => exact ht
  exact h [] text

/-- What is read off a text can be written into a program. -/
theorem Source.spellable_of_lex {s' : Source} {t : Token} (h : s.lex = (.ok t, s'))
    (hr : '\r' ∉ s.rest) (ht : t.kind ≠ .eof) : Spellable t.content ∧ '\r' ∉ s'.rest := by
  have hc := (lex_eq_ok h).2.2
  have hs := rest_of_lex h
  have hgap : s.skipGap.rest = (splitGap s.rest).2 := rfl
  have hskip : '\r' ∉ s.skipGap.rest := by
    intro hm
    rw [← splitGap_append s.rest, List.mem_append] at hr
    exact hr (.inr (hgap ▸ hm))
  rw [← (Lexeme.read_divides s.skipGap.rest).append, List.mem_append, not_or] at hskip
  rw [hs]
  exact ⟨⟨_, isLexeme_of_read (hgap ▸ gapPiece?_splitGap s.rest) hc ht, hskip.1⟩, hskip.2⟩

end ScriptCheck
