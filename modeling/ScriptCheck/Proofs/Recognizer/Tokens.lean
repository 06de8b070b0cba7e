import ScriptCheck.Proofs.Lexing.Sequence
import ScriptCheck.Proofs.Recognizer.Path

/-!
# The tokens of a text and the path of its scanner

The tokens of a text are those that its scanner makes current one after the other, up to the first
end of the text or the first lexical error. Their places strictly increase.
-/

namespace ScriptCheck

open TokenFeed

/-! ### Paths up to the end -/

section

variable {σ : Type} [TokenFeed σ] {s s' s'' : σ} {t : Token} {ts us : List Token}

/-- Every feed comes to the end of its text or to a lexical error. -/
theorem exists_feeds (s : σ) :
    ∃ ts s', Feeds s ts s' ∧ Endless ts ∧
      ((current s').kind = .eof ∨
        (current s').kind ≠ .eof ∧ ∃ e s'', next s' = (.error e, s'')) := by
  induction hm : size s using Nat.strongRecOn generalizing s with
  | ind m ih =>
    by_cases hs : (current s).kind = .eof
    · exact ⟨[], s, .refl s, by simp [Endless], .inl hs⟩
    · rcases hn : next s with ⟨e | ⟨⟩, s₁⟩
      · exact ⟨[], s, .refl s, by simp [Endless], .inr ⟨hs, e, s₁, hn⟩⟩
      · obtain ⟨ts, s', hf, ht, h⟩ := ih _ (hm ▸ size_next_lt hs hn) s₁ rfl
        exact ⟨_, s', .next hn hf, endless_cons.2 ⟨hs, ht⟩, h⟩

/-- Behind the end of a text nothing is used up, so paths do not lead there. -/
theorem Feeds.eq_append (h : Feeds s ts s') (ht : Endless ts) (h' : Feeds s us s'')
    (hs : (current s'').kind = .eof) : ∃ vs, us = ts ++ vs ∧ Feeds s' vs s'' := by
  rcases Nat.le_total ts.length us.length with hl | hl
  · exact h.split h' hl
  · obtain ⟨vs, rfl, hv⟩ := h'.split h hl
    cases hv with
    | refl => exact ⟨[], by simp, .refl _⟩
    | next hn hv => exact absurd hs (ht _ (by simp))

/-- Behind a lexical error no path leads on. -/
theorem Feeds.eq_append_of_error {e : LexError} {s₁ : σ} (h : Feeds s ts s')
    (h' : Feeds s us s'') (hs : TokenFeed.next s'' = (.error e, s₁)) :
    ∃ vs, us = ts ++ vs ∧ Feeds s' vs s'' := by
  rcases Nat.le_total ts.length us.length with hl | hl
  · exact h.split h' hl
  · obtain ⟨vs, rfl, hv⟩ := h'.split h hl
    cases hv with
    | refl => exact ⟨[], by simp, .refl _⟩
    | next hn hv => simp [hs] at hn

end

/-! ### The scanner of a text -/

namespace Scanner

variable {s s' : Scanner} {source : Source} {us : List Token} {e : LexError}

/-- The scanner has just taken its current token off `source`, and no others are pending. -/
structure ReadFrom (s : Scanner) (source : Source) : Prop where
  lex : source.lex = (.ok s.current, s.source)
  pending : s.pending = []

theorem readFrom_of_next (hp : s.pending = []) (hn : s.next = (.ok (), s')) :
    s'.ReadFrom s.source := by
  match hl : s.source.lex with
  | (.ok t, source) =>
    rw [next_of_lex hp hl] at hn
    simp only [Prod.mk.injEq, true_and] at hn
    subst hn
    exact ⟨hl, hp⟩
  | (.error e, source) =>
    rw [next_of_error hp hl] at hn
    simp at hn

theorem lex_of_next_error (hp : s.pending = []) (hn : s.next = (.error e, s')) :
    s.source.lex = (.error e, s'.source) := by
  match hl : s.source.lex with
  | (.ok t, source) =>
    rw [next_of_lex hp hl] at hn
    simp at hn
  | (.error e', source) =>
    rw [next_of_error hp hl] at hn
    simp only [Prod.mk.injEq, Except.error.injEq] at hn
    rw [← hn.1, ← hn.2]

/-- A scanner takes the tokens on its path off its text. -/
theorem lexes_of_feeds (h : Feeds s us s') (hs : s.ReadFrom source) :
    ∃ source', source.Lexes us source' ∧ s'.ReadFrom source' := by
  induction h generalizing source with
  | refl => exact ⟨source, .nil source, hs⟩
  | next hn _ ih =>
    obtain ⟨source', hl, hs'⟩ := ih (readFrom_of_next hs.pending hn)
    exact ⟨source', .cons hs.lex hl, hs'⟩

/-- The tokens of a source are those on the scanner's path and then those of the source that the
path leads to. -/
theorem tokens_of_feeds (h : Feeds s us s') (hs : s.ReadFrom source) (hu : Endless us) :
    ∃ source', s'.ReadFrom source' ∧ source.tokens = source'.tokens.map (us ++ ·) := by
  obtain ⟨source', hl, hs'⟩ := lexes_of_feeds h hs
  exact ⟨source', hs', hl.tokens_eq hu⟩

theorem tokens_of_feeds_eof (h : Feeds s us s') (hs : s.ReadFrom source) (hu : Endless us)
    (hc : s'.current.kind = .eof) : source.tokens = .ok (us ++ [s'.current]) := by
  obtain ⟨source', hs', ht⟩ := tokens_of_feeds h hs hu
  rw [ht, Source.tokens_of_lex_eof hs'.lex hc]
  rfl

theorem tokens_of_feeds_error {s'' : Scanner} (h : Feeds s us s') (hs : s.ReadFrom source)
    (hu : Endless us) (hc : s'.current.kind ≠ .eof) (hn : s'.next = (.error e, s'')) :
    source.tokens = .error e := by
  obtain ⟨source', hs', ht⟩ := tokens_of_feeds h hs hu
  rw [ht, Source.tokens_of_lex hs'.lex hc,
    Source.tokens_of_lex_error (lex_of_next_error hs'.pending hn)]
  rfl

/-- A lexical error lies behind every token that was current before. -/
theorem location_lt_of_feeds {s'' : Scanner} (h : Feeds s us s') (hs : s.ReadFrom source)
    (hc : s'.current.kind ≠ .eof) (hn : s'.next = (.error e, s'')) :
    s.current.location < e.location := by
  induction h generalizing source with
  | refl =>
    have he := Source.le_of_lex_error (lex_of_next_error hs.pending hn)
    exact Location.lt_of_lt_of_le (Source.lt_of_lex hs.lex hc) he
  | @next s₁ s₂ s₃ us hn' _ ih =>
    have hs₂ := readFrom_of_next hs.pending hn'
    have h₁ := Source.location_le_of_lex hs.lex
    have h₂ := Source.le_of_lex hs₂.lex
    exact Location.lt_of_le_of_lt (Location.le_trans h₁ h₂) (ih hs₂ hc hn)

end Scanner

/-! ### The tokens of a text -/

section

variable {text : String} {ts : List Token} {e : LexError}

/-- Every text has a path from its first token to its end or to its first lexical error. -/
theorem exists_feeds_ofText (text : String) :
    (∃ e s, (Scanner.ofText text).next = (.error e, s) ∧ tokenize text = .error e) ∨
      ∃ s us s', (Scanner.ofText text).next = (.ok (), s) ∧ Feeds s us s' ∧ Endless us ∧
        (s'.current.kind = .eof ∧ tokenize text = .ok (us ++ [s'.current]) ∨
          s'.current.kind ≠ .eof ∧
            ∃ e s'', s'.next = (.error e, s'') ∧ tokenize text = .error e) := by
  have hp : (Scanner.ofText text).pending = [] := rfl
  match hn : (Scanner.ofText text).next with
  | (.error e, s) =>
    exact .inl ⟨e, s, rfl, Source.tokens_of_lex_error (Scanner.lex_of_next_error hp hn)⟩
  | (.ok (), s) =>
    have hs := Scanner.readFrom_of_next hp hn
    obtain ⟨us, s', hf, hu, hc | ⟨hc, e, s'', hn'⟩⟩ := exists_feeds s
    · exact .inr ⟨s, us, s', rfl, hf, hu, .inl ⟨hc, Scanner.tokens_of_feeds_eof hf hs hu hc⟩⟩
    · exact .inr ⟨s, us, s', rfl, hf, hu,
        .inr ⟨hc, e, s'', hn', Scanner.tokens_of_feeds_error hf hs hu hc hn'⟩⟩

theorem exists_feeds_of_tokenize (h : tokenize text = .ok ts) :
    ∃ s us s', (Scanner.ofText text).next = (.ok (), s) ∧ Feeds s us s' ∧ Endless us ∧
      s'.current.kind = .eof ∧ ts = us ++ [s'.current] := by
  obtain ⟨e, s, -, ht⟩ | ⟨s, us, s', hn, hf, hu, ⟨hc, ht⟩ | ⟨hc, e, s'', -, ht⟩⟩ :=
    exists_feeds_ofText text
  · simp [h] at ht
  · exact ⟨s, us, s', hn, hf, hu, hc, by simpa [h] using ht⟩
  · simp [h] at ht

end

end ScriptCheck
