import ScriptCheck.Proofs.Lexing.Sequence
import ScriptCheck.Proofs.Lexing.Spaced
import ScriptCheck.Proofs.Text.Lines

/-!
# Where lexemes begin

A lexeme begins at a character of the text itself, which may have any line breaks in front. There
the text is cut in two, and the place that the reader has counted step by step is the place behind
the first part.
-/

namespace ScriptCheck

open Location

/-! ### What has been used up -/

namespace Source

variable {s s' s'' : Source} {a b : List Char} {t : Token} {ts : List Token}

/-- The source `s'` is what is left of `s` behind the characters `a`. -/
structure Behind (s : Source) (a : List Char) (s' : Source) : Prop where
  rest : s.rest = a ++ s'.rest
  location : s'.location = s.location.after a

theorem Behind.trans (h : s.Behind a s') (h' : s'.Behind b s'') : s.Behind (a ++ b) s'' where
  rest := by rw [h.rest, h'.rest, List.append_assoc]
  location := by rw [h'.location, h.location, after_append]

theorem behind_skipGap (s : Source) : s.Behind (splitGap s.rest).1 s.skipGap where
  rest := (splitGap_append s.rest).symm
  location := rfl

theorem behind_readToken (s : Source) : s.Behind (Lexeme.read s.rest).taken s.readToken.2 where
  rest := by rw [readToken_rest, (Lexeme.read_divides s.rest).append]
  location := by
    unfold readToken
    dsimp only
    split <;> rfl

theorem behind_lex (s : Source) :
    s.Behind ((splitGap s.rest).1 ++ (Lexeme.read s.skipGap.rest).taken) s.lex.2 :=
  s.behind_skipGap.trans s.skipGap.behind_readToken

theorem Lexes.exists_behind (h : Lexes s ts s') : ∃ a, s.Behind a s' := by
  induction h with
  | nil => exact ⟨[], by simp, by simp⟩
  | @cons s s₁ s' t ts hl h ih =>
    obtain ⟨a, ha⟩ := ih
    have hs := s.behind_lex
    rw [hl] at hs
    exact ⟨_, hs.trans ha⟩

/-- A gap takes all blanks with it. -/
theorem head?_skipGap_ne (s : Source) : s.skipGap.rest.head? ≠ some '\n' := by
  intro h
  have hg : gapPiece? s.skipGap.rest = none := gapPiece?_splitGap s.rest
  obtain ⟨rest, hr⟩ := List.head?_eq_some_iff.1 h
  rw [hr] at hg
  exact isBlank_false_of_gapPiece? hg rfl

end Source

/-! ### Cutting the text -/

/-- The text is `front` and `rest`, and at the head of `rest` begins what is read behind the tokens
`before`: the next lexeme, or nothing if the text ends there. -/
structure Begins (text : String) (before : List Token) (front rest : List Char) : Prop where
  split : text.toList = front ++ rest
  reads : ∃ s, (Source.ofText text).Lexes before s ∧ s.skipGap.rest = foldBreaks rest

/-- The token is what is read at the head of `rest`, which is empty for the end of the text only. -/
def Token.StandsAt (t : Token) (rest : List Char) : Prop :=
  (Lexeme.read (foldBreaks rest)).content = .ok (t.kind, t.payload) ∧ (t.kind = .eof ↔ rest = [])

section

variable {text : String} {before : List Token} {front rest front' rest' : List Char} {s s' : Source}
  {t : Token} {ts : List Token}

theorem exists_begins (h : (Source.ofText text).Lexes before s) :
    ∃ front rest, Begins text before front rest ∧ s.skipGap = ⟨foldBreaks rest, behind front⟩ := by
  obtain ⟨a, ha⟩ := h.exists_behind
  have hs := ha.trans s.behind_skipGap
  have hsplit : foldBreaks text.toList = (a ++ (splitGap s.rest).1) ++ s.skipGap.rest := hs.rest
  obtain ⟨front, rest, htext, hfront, hrest⟩ := exists_split_of_foldBreaks hsplit
  have hplace : s.skipGap.location = behind front := by
    rw [← start_after_foldBreaks, hfront]
    exact hs.location
  refine ⟨front, rest, ⟨htext, s, h, hrest.symm⟩, ?_⟩
  rw [hrest, ← hplace]

namespace Begins

/-- A lexeme does not begin with a line break. -/
theorem not_isBreak (h : Begins text before front rest) : ∀ c ∈ rest.head?, ¬ isBreak c := by
  intro c hc hb
  obtain ⟨s, -, hs⟩ := h.reads
  apply s.head?_skipGap_ne
  rw [hs, head?_foldBreaks, Option.mem_def.1 hc, Option.map_some, if_pos hb]

theorem head?_ne (h : Begins text before front rest) : rest.head? ≠ some '\n' := by
  intro hn
  exact h.not_isBreak '\n' hn rfl

/-- There is one place only where the next lexeme begins. -/
theorem unique (h : Begins text before front rest) (h' : Begins text before front' rest') :
    front = front' ∧ rest = rest' := by
  obtain ⟨s, hs, hrest⟩ := h.reads
  obtain ⟨s', hs', hrest'⟩ := h'.reads
  obtain rfl := hs.unique hs'
  apply eq_of_foldBreaks_eq _ (hrest.symm.trans hrest') h.head?_ne h'.head?_ne
  rw [← h.split, h'.split]

/-- The character that a lexeme begins with stands on its line behind the characters in front. -/
theorem getElem?_line (h : Begins text before front rest) :
    (lastLine front ++ headLine rest)[(lastLine front).length]? = rest.head? := by
  rw [List.getElem?_append_right (Nat.le_refl _), Nat.sub_self, ← List.head?_eq_getElem?, headLine,
    List.head?_takeWhile]
  cases rest with
  | nil => rfl
  | cons c rest =>
    have hc : ¬ isBreak c := h.not_isBreak c rfl
    simp [hc]

theorem lineAt_eq (h : Begins text before front rest) :
    lineAt text.toList (behind front).line = lastLine front ++ headLine rest := by
  rw [h.split, lineAt_behind h.head?_ne]

end Begins

/-! ### Tokens -/

theorem standsAt_of_read
    (h : (Lexeme.read (foldBreaks rest)).content = .ok (t.kind, t.payload)) : t.StandsAt rest := by
  refine ⟨h, ?_, ?_⟩
  · intro ht
    rw [ht] at h
    exact foldBreaks_eq_nil.1 (Lexeme.eq_nil_of_read_eof h)
  · rintro rfl
    have hc : Except.ok (TokenKind.eof, Payload.none) = .ok (t.kind, t.payload) := h
    simp_all

/-- A token that is read next stands where it begins in the text. -/
theorem exists_begins_of_lex (h : (Source.ofText text).Lexes before s) (hl : s.lex = (.ok t, s')) :
    ∃ front rest, Begins text before front rest ∧ t.StandsAt rest ∧ t.location = behind front := by
  obtain ⟨front, rest, hb, hs⟩ := exists_begins h
  obtain ⟨hplace, -, hc⟩ := Source.lex_eq_ok hl
  rw [hs] at hplace hc
  exact ⟨front, rest, hb, standsAt_of_read hc, hplace⟩

/-- An error that is met next stands where its lexeme begins in the text. -/
theorem exists_begins_of_lex_error {e : LexError} (h : (Source.ofText text).Lexes before s)
    (hl : s.lex = (.error e, s')) (he : e.fault ≠ .missingExponentDigits) :
    ∃ front rest, Begins text before front rest ∧
      (Lexeme.read (foldBreaks rest)).content = .error e.fault ∧ e.location = behind front := by
  obtain ⟨front, rest, hb, hs⟩ := exists_begins h
  obtain ⟨hplace, hc⟩ := Source.lex_eq_error hl he
  rw [hs] at hplace hc
  exact ⟨front, rest, hb, hc, hplace⟩

/-- Tokens stand behind what was read before and in front of what is read after. -/
theorem Source.Lexes.pairwise_lt (h : Lexes s ts s') (ht : Endless ts) :
    ts.Pairwise (·.location < ·.location) ∧
      ∀ t ∈ ts, s.location ≤ t.location ∧ t.location < s'.location := by
  induction h with
  | nil => simp
  | @cons s s₁ s' t ts hl h ih =>
    obtain ⟨hk, ht⟩ := endless_cons.1 ht
    obtain ⟨hpair, hts⟩ := ih ht
    have hlt : t.location < s₁.location := lt_of_lex hl hk
    have hle : s₁.location ≤ s'.location := by
      obtain ⟨a, ha⟩ := h.exists_behind
      rw [ha.location]
      exact le_after _ _
    constructor
    · refine List.pairwise_cons.2 ⟨?_, hpair⟩
      intro u hu
      exact lt_of_lt_of_le hlt (hts u hu).1
    · intro u hu
      rcases List.mem_cons.1 hu with rfl | hu
      · exact ⟨le_of_lex hl, lt_of_lt_of_le hlt hle⟩
      · obtain ⟨hle₁, hlt₁⟩ := hts u hu
        exact ⟨Location.le_trans (le_of_lex hl) (Location.le_trans (le_of_lt hlt) hle₁), hlt₁⟩

theorem pairwise_lt_of_tokenize (h : tokenize text = .ok ts) :
    ts.Pairwise (·.location < ·.location) := by
  obtain ⟨us, t, s', s'', rfl, hs, hu, hl, -⟩ := Source.exists_lexes_of_tokens h
  obtain ⟨hpair, hus⟩ := hs.pairwise_lt hu
  refine List.pairwise_append.2 ⟨hpair, List.pairwise_singleton _ _, ?_⟩
  intro u hu v hv
  obtain rfl := List.mem_singleton.1 hv
  exact lt_of_lt_of_le (hus u hu).2 (Source.le_of_lex hl)

end

end ScriptCheck
