import ScriptCheck.Proofs.Lexing.Extend
import ScriptCheck.Proofs.Lexing.Munch
import ScriptCheck.Proofs.Lexing.Spaced

/-!
# Nothing of a text is lost

The folded text is gap, lexeme, gap, lexeme and so on up to a last gap: every character of it is in
a lexeme of one of its tokens, or in a gap, and in one of them only.
-/

namespace ScriptCheck

/-! ### Gaps -/

/-- The characters are blanks and comments in front of `rest`. A line comment goes on up to the end
of its line, and a block comment up to the first `*/`. -/
inductive IsGap (rest : List Char) : List Char → Prop
  | nil : IsGap rest []
  | blank {c : Char} {gap : List Char} (hc : isBlank c) (h : IsGap rest gap) :
      IsGap rest (c :: gap)
  | lineComment {inner gap : List Char} (hi : '\n' ∉ inner)
      (he : ∀ c ∈ (gap ++ rest).head?, c = '\n') (h : IsGap rest gap) :
      IsGap rest ('/' :: '/' :: (inner ++ gap))
  | blockComment {inner gap : List Char} (hi : ¬ ['*', '/'] <:+: inner) (h : IsGap rest gap) :
      IsGap rest ('/' :: '*' :: (inner ++ '*' :: '/' :: gap))

section

variable {text inner rest gap piece : List Char}

theorem IsGap.blanks {blanks : List Char} (hb : ∀ c ∈ blanks, isBlank c) (h : IsGap rest gap) :
    IsGap rest (blanks ++ gap) := by
  induction blanks with
  | nil => exact h
  | cons c blanks ih =>
    obtain ⟨hc, hb⟩ := List.forall_mem_cons.1 hb
    exact .blank hc (ih hb)

/-- A block comment is closed as soon as it can be. -/
theorem not_infix_of_closeCommentOnto {before : List Char}
    (h : closeCommentOnto before text = some (inner, rest)) :
    ∃ body, inner = before.reverse ++ body ∧ ¬ ['*', '/'] <:+: body := by
  fun_induction closeCommentOnto before text with
  | case1 => simp at h
  | case2 before r =>
    obtain ⟨rfl, -⟩ : before.reverse = inner ∧ r = rest := by simpa using h
    exact ⟨[], by simp, by simp⟩
  | case3 before c text hc ih =>
    obtain ⟨body, rfl, hbody⟩ := ih h
    refine ⟨c :: body, by simp, ?_⟩
    rw [List.infix_cons_iff, not_or]
    refine ⟨?_, hbody⟩
    intro hprefix
    obtain ⟨rfl, more, rfl⟩ := List.cons_prefix_cons.1 hprefix
    have happ := closeCommentOnto_append h
    rw [List.append_assoc] at happ
    -- the end of the comment would stand here already
    exact hc _ rfl (List.append_cancel_left happ).symm

/-- What is skipped in front of a lexeme is a gap. -/
theorem isGap_splitGap (text : List Char) : IsGap (splitGap text).2 (splitGap text).1 := by
  induction hn : text.length using Nat.strongRecOn generalizing text with
  | ind n ih =>
    cases hp : gapPiece? text with
    | none =>
      rw [splitGap_of_none hp]
      exact .nil
    | some x =>
      obtain ⟨piece, rest⟩ := x
      have hrest := ih _ (hn ▸ length_lt_of_gapPiece? hp) rest rfl
      have happ := splitGap_append rest
      rw [splitGap_of_some hp]
      rcases gapPiece?_cases hp with ⟨r, rfl, rfl, rfl⟩ | ⟨r, inner, rfl, hc, rfl⟩ |
        ⟨c, r, rfl, hc, rfl, rfl⟩
      · refine .lineComment ?_ ?_ hrest
        · intro hm
          simpa using List.mem_takeWhile_imp hm
        · rw [happ]
          intro c hc
          simpa using not_of_mem_head?_dropWhile hc
      · obtain ⟨body, rfl, hbody⟩ := not_infix_of_closeCommentOnto hc
        simpa using IsGap.blockComment hbody hrest
      · refine hrest.blanks ?_
        intro d hd
        rcases List.mem_cons.1 hd with rfl | hd
        · exact hc
        · exact List.mem_takeWhile_imp hd

end

/-! ### The whole text -/

/-- The text is lexemes of the contents with gaps between and around them. -/
inductive Covers : List (TokenKind × Payload) → List Char → Prop
  | done {gap : List Char} (hg : IsGap [] gap) : Covers [] gap
  | lexeme {content : TokenKind × Payload} {contents : List (TokenKind × Payload)}
      {gap lexeme rest : List Char} (hg : IsGap (lexeme ++ rest) gap)
      (hm : Munched content lexeme rest) (h : Covers contents rest) :
      Covers (content :: contents) (gap ++ (lexeme ++ rest))

namespace Source

variable {s s' : Source} {t : Token} {ts : List Token}

theorem munched_of_lex (h : s.lex = (.ok t, s')) (ht : t.kind ≠ .eof) :
    ∃ gap lexeme, s.rest = gap ++ (lexeme ++ s'.rest) ∧ IsGap (lexeme ++ s'.rest) gap ∧
      Munched t.content lexeme s'.rest := by
  have hc : (Lexeme.read s.skipGap.rest).content = .ok t.content := (lex_eq_ok h).2.2
  have hgap : gapPiece? s.skipGap.rest = none := gapPiece?_splitGap s.rest
  have hread := (Lexeme.read_divides s.skipGap.rest).append
  obtain ⟨hdenotes, hends⟩ := Lexeme.read_denotes hgap hc ht
  rw [← rest_of_lex h] at hread hends
  refine ⟨(splitGap s.rest).1, (Lexeme.read s.skipGap.rest).taken, ?_, ?_, hdenotes, ?_, hends⟩
  · rw [hread]
    exact (splitGap_append s.rest).symm
  · rw [hread]
    exact isGap_splitGap s.rest
  · intro other longer ho hlonger
    rw [hread] at hlonger
    obtain ⟨rest, hrest⟩ := hlonger
    rw [← hrest] at hc ⊢
    exact Lexeme.length_le_read ho hc

theorem Lexes.covers (h : s.Lexes ts s') (ht : Endless ts) (hs : IsGap [] s'.rest) :
    Covers (ts.map Token.content) s.rest := by
  induction h with
  | nil => exact .done hs
  | cons hl _ ih =>
    obtain ⟨hk, ht⟩ := endless_cons.1 ht
    obtain ⟨gap, lexeme, hrest, hg, hm⟩ := munched_of_lex hl hk
    rw [hrest]
    exact .lexeme hg hm (ih ht hs)

end Source

/-- A text that can be read consists of the lexemes of its tokens, each the longest that could be
read in its place, and of gaps. -/
theorem tokenize_covers {text : String} {ts : List Token} (h : tokenize text = .ok ts) :
    ∃ us n, ts = us ++ [n] ∧ n.kind = .eof ∧
      Covers (us.map Token.content) (foldBreaks text.toList) := by
  obtain ⟨us, n, s, s', rfl, hs, hu, hn, hk⟩ := Source.exists_lexes_of_tokens h
  refine ⟨us, n, rfl, hk, hs.covers hu ?_⟩
  have hnil : s.skipGap.rest = [] := by
    have hc := (Source.lex_eq_ok hn).2.2
    rw [hk] at hc
    exact Lexeme.eq_nil_of_read_eof hc
  have hgap := isGap_splitGap s.rest
  have happ := splitGap_append s.rest
  rw [show (splitGap s.rest).2 = [] from hnil] at hgap happ
  rw [List.append_nil] at happ
  rwa [happ] at hgap

theorem tokenize_covers_comment :
    ∃ ts, tokenize "a<>'\\n'/* * */=" = .ok ts ∧
      Covers [(.identifier, .text "a"), (.symbol .notEqual, .none), (.string, .text "\n"),
        (.symbol .assign, .none)] (foldBreaks "a<>'\\n'/* * */=".toList) := by
  let t₁ : Token := ⟨.identifier, .text "a", ⟨1, 1⟩⟩
  let t₂ : Token := ⟨.symbol .notEqual, .none, ⟨1, 2⟩⟩
  let t₃ : Token := ⟨.string, .text "\n", ⟨1, 4⟩⟩
  let t₄ : Token := ⟨.symbol .assign, .none, ⟨1, 15⟩⟩
  have h : tokenize "a<>'\\n'/* * */=" = .ok ([t₁, t₂, t₃, t₄] ++ [.eof ⟨1, 16⟩]) :=
    tokenize_of_firstTokens (by with_unfolding_all rfl) (by simp [Endless, t₁, t₂, t₃, t₄]) rfl
  obtain ⟨us, n, hts, -, hc⟩ := tokenize_covers h
  obtain ⟨rfl, -⟩ := List.append_inj' hts rfl
  exact ⟨_, h, hc⟩

end ScriptCheck
