import ScriptCheck.Proofs.Lexing.Place

/-!
# Tokens in sequence

`Source.Lexes s ts s'` takes the tokens `ts` off a source one after the other. Up to the end of the
text these are the tokens of the text, and behind it the end comes again and again. A lexical error
that is met on the way is the first one of the text.
-/

namespace ScriptCheck

/-! ### The end of a text -/

namespace Lexeme

theorem ofWord_ne_eof (word : String) : TokenKind.ofWord word ≠ .eof := by
  unfold TokenKind.ofWord
  split <;> simp

theorem word_ne_eof {text : List Char} {p : Payload} : (word text).content ≠ .ok (.eof, p) := by
  intro h
  unfold word at h
  dsimp only at h
  split at h
  · cases h
  · rename_i k hk
    simp only [Except.ok.injEq, Prod.mk.injEq] at h
    exact ofWord_ne_eof _ h.1

theorem number_ne_eof {text : List Char} {p : Payload} :
    (number text).content ≠ .ok (.eof, p) := by
  rcases number_cases text with ⟨f, hf, -⟩ | ⟨whole, fraction, rest, -, -, -, -, ⟨-, hn⟩ |
    ⟨_, _, _, _, -, -, -, -, -, -, -, ⟨hc, -⟩ | ⟨hc, -⟩ | ⟨hc, -⟩⟩⟩
  · simp [hf]
  · cases fraction <;> simp [hn, plain]
  · simp [hc]
  · simp [hc]
  · simp [hc]

/-- Only behind the last character the end of the text is read. -/
theorem eq_nil_of_read_eof {text : List Char} {p : Payload}
    (h : (read text).content = .ok (.eof, p)) : text = [] := by
  rcases read_cases text with ⟨ht, -⟩ | ⟨-, hr⟩ |
    ⟨c, r, rfl, -, ⟨-, hr⟩ | ⟨-, hr⟩ | ⟨-, hr⟩ | hr⟩
  · exact ht
  · rw [hr] at h
    cases h
  · exact absurd (hr ▸ h) word_ne_eof
  · exact absurd (hr ▸ h) number_ne_eof
  · rw [hr] at h
    unfold quoted at h
    split at h <;> simp at h
  · rw [hr] at h
    unfold symbol at h
    split at h <;> simp at h

end Lexeme

/-- None of the tokens is the end of the text. -/
def Endless (ts : List Token) : Prop :=
  ∀ t ∈ ts, t.kind ≠ .eof

section

variable {t : Token} {ts us : List Token}

theorem endless_cons : Endless (t :: ts) ↔ t.kind ≠ .eof ∧ Endless ts := by
  simp [Endless]

theorem endless_append : Endless (ts ++ us) ↔ Endless ts ∧ Endless us := by
  simp [Endless, or_imp, forall_and]

end

namespace Source

variable {s s' s'' : Source} {t : Token} {ts us : List Token} {e : LexError}

theorem skipGap_of_none (h : gapPiece? s.rest = none) : s.skipGap = s := by
  rw [skipGap, splitGap, splitGapOnto_of_none h]
  rfl

theorem lex_of_nil (l : Location) : lex ⟨[], l⟩ = (.ok (.eof l), ⟨[], l⟩) := by
  rw [lex, skipGap_of_none rfl]
  rfl

/-- Behind the end of a text the same end comes again. -/
theorem lex_of_lex_eof (h : s.lex = (.ok t, s')) (ht : t.kind = .eof) : s'.lex = (.ok t, s') := by
  obtain ⟨hl, hs, hc⟩ := lex_eq_ok h
  have hn : s.skipGap.rest = [] := Lexeme.eq_nil_of_read_eof (ht ▸ hc)
  have hr : s'.rest = [] := by
    rw [rest_of_lex h, hn]
    rfl
  rw [hn] at hs hc
  obtain ⟨rest, location⟩ := s'
  obtain ⟨kind, payload, place⟩ := t
  obtain ⟨rfl, rfl⟩ : .eof = kind ∧ .none = payload := by simpa [Lexeme.read] using hc
  obtain rfl : rest = [] := hr
  obtain rfl : location = place := hs
  exact lex_of_nil location

/-! ### All tokens, one lexeme at a time -/

theorem tokensOnto_eq (before : List Token) (s : Source) :
    s.tokensOnto before = s.tokens.map (before.reverse ++ ·) := by
  have h (before' : List Token) :
      s.tokensOnto (before' ++ before) = (s.tokensOnto before').map (before.reverse ++ ·) := by
    induction before', s using tokensOnto.induct with
    | case1 before' s e s' h =>
      rw [tokensOnto_of_error h, tokensOnto_of_error h]
      rfl
    | case2 before' s t s' h ht =>
      rw [tokensOnto_of_eof h ht, tokensOnto_of_eof h ht]
      simp [Except.map]
    | case3 before' s t s' h ht ih =>
      rw [tokensOnto_of_token h ht, tokensOnto_of_token h ht]
      exact ih
  exact h []

theorem tokens_of_lex_error (h : s.lex = (.error e, s')) : s.tokens = .error e :=
  tokensOnto_of_error h

theorem tokens_of_lex_eof (h : s.lex = (.ok t, s')) (ht : t.kind = .eof) : s.tokens = .ok [t] :=
  tokensOnto_of_eof h ht

theorem tokens_of_lex (h : s.lex = (.ok t, s')) (ht : t.kind ≠ .eof) :
    s.tokens = s'.tokens.map (t :: ·) := by
  rw [tokens, tokensOnto_of_token h ht, tokensOnto_eq]
  rfl

/-! ### Some tokens -/

/-- The tokens `ts` are taken off `s` one after the other, and `s'` is left. -/
inductive Lexes : Source → List Token → Source → Prop
  | nil (s : Source) : Lexes s [] s
  | cons {s s' s'' : Source} {t : Token} {ts : List Token} (hl : s.lex = (.ok t, s'))
      (h : Lexes s' ts s'') : Lexes s (t :: ts) s''

namespace Lexes

theorem one (h : s.lex = (.ok t, s')) : Lexes s [t] s' :=
  .cons h (.nil s')

theorem trans (h : Lexes s ts s') (h' : Lexes s' us s'') : Lexes s (ts ++ us) s'' := by
  induction h with
  | nil => exact h'
  | cons hl _ ih => exact .cons hl (ih h')

/-- Reading goes one way only. -/
theorem split (h : Lexes s ts s') (h' : Lexes s us s'') (hl : ts.length ≤ us.length) :
    ∃ vs, us = ts ++ vs ∧ Lexes s' vs s'' := by
  induction h generalizing us with
  | nil => exact ⟨us, rfl, h'⟩
  | cons hs _ ih =>
    cases h' with
    | nil => simp at hl
    | cons hs' h' =>
      obtain ⟨rfl, rfl⟩ : _ = _ ∧ _ = _ := by simpa [hs] using hs'
      obtain ⟨vs, rfl, hv⟩ := ih h' (by simpa using hl)
      exact ⟨vs, rfl, hv⟩

theorem unique (h : Lexes s ts s') (h' : Lexes s ts s'') : s' = s'' := by
  obtain ⟨vs, hv, h''⟩ := h.split h' (Nat.le_refl _)
  obtain rfl : vs = [] := by simpa using hv
  cases h''
  rfl

theorem exists_of_append (h : Lexes s (ts ++ us) s'') : ∃ s', Lexes s ts s' ∧ Lexes s' us s'' := by
  induction ts generalizing s with
  | nil => exact ⟨s, .nil s, h⟩
  | cons t ts ih =>
    cases h with
    | cons hl h =>
      obtain ⟨s', ht, hu⟩ := ih h
      exact ⟨s', .cons hl ht, hu⟩

theorem eq_replicate (h : Lexes s ts s') (hl : s.lex = (.ok t, s)) :
    ts = List.replicate ts.length t ∧ s' = s := by
  induction h with
  | nil => simp
  | cons hl' _ ih =>
    obtain ⟨rfl, rfl⟩ : t = _ ∧ _ = _ := by simpa [hl] using hl'
    obtain ⟨hts, rfl⟩ := ih hl
    exact ⟨by rw [List.length_cons, List.replicate_succ, ← hts], rfl⟩

/-- The tokens of a source are those taken off it and those of what is left. -/
theorem tokens_eq (h : Lexes s ts s') (ht : Endless ts) :
    s.tokens = s'.tokens.map (ts ++ ·) := by
  induction h with
  | nil s => cases s.tokens <;> rfl
  | @cons s s₁ s' t ts hl _ ih =>
    obtain ⟨hk, ht⟩ := endless_cons.1 ht
    rw [tokens_of_lex hl hk, ih ht]
    cases s'.tokens <;> rfl

/-- A lexical error that is met somewhere is the first one. -/
theorem tokens_eq_error (h : Lexes s ts s') (he : s'.lex = (.error e, s'')) :
    s.tokens = .error e := by
  induction h with
  | nil => exact tokens_of_lex_error he
  | @cons s s₁ s' t ts hl h ih =>
    by_cases ht : t.kind = .eof
    · -- behind the end of a text there is no error
      have hend := lex_of_lex_eof hl ht
      obtain ⟨-, rfl⟩ := h.eq_replicate hend
      simp [hend] at he
    · rw [tokens_of_lex hl ht, ih he]
      rfl

end Lexes

/-- Reading comes to the end of the text or to its first lexical error. -/
theorem exists_lexes (s : Source) :
    ∃ ts s' s'', Lexes s ts s' ∧ Endless ts ∧
      ((∃ t, s'.lex = (.ok t, s'') ∧ t.kind = .eof ∧ s.tokens = .ok (ts ++ [t])) ∨
        ∃ e, s'.lex = (.error e, s'') ∧ s.tokens = .error e) := by
  induction hm : s.rest.length using Nat.strongRecOn generalizing s with
  | ind m ih =>
    match hl : s.lex with
    | (.error e, s') =>
      exact ⟨[], s, s', .nil s, by simp [Endless], .inr ⟨e, hl, tokens_of_lex_error hl⟩⟩
    | (.ok t, s₁) =>
      by_cases ht : t.kind = .eof
      · exact ⟨[], s, s₁, .nil s, by simp [Endless], .inl ⟨t, hl, ht, tokens_of_lex_eof hl ht⟩⟩
      · obtain ⟨ts, s', s'', hs, hts, hend⟩ := ih _ (hm ▸ length_lex_lt hl ht) s₁ rfl
        refine ⟨t :: ts, s', s'', .cons hl hs, endless_cons.2 ⟨ht, hts⟩, ?_⟩
        rw [tokens_of_lex hl ht]
        rcases hend with ⟨u, hu, hk, htok⟩ | ⟨e, he, htok⟩
        · exact .inl ⟨u, hu, hk, by rw [htok]; rfl⟩
        · exact .inr ⟨e, he, by rw [htok]; rfl⟩

theorem exists_lexes_of_tokens (h : s.tokens = .ok ts) :
    ∃ us t s' s'', ts = us ++ [t] ∧ Lexes s us s' ∧ Endless us ∧ s'.lex = (.ok t, s'') ∧
      t.kind = .eof := by
  obtain ⟨us, s', s'', hs, hu, ⟨t, ht, hk, htok⟩ | ⟨e, -, htok⟩⟩ := s.exists_lexes
  · obtain rfl : ts = us ++ [t] := by simpa [h] using htok
    exact ⟨us, t, s', s'', rfl, hs, hu, ht, hk⟩
  · simp [h] at htok

/-- A token among those of a source is read behind those before it. -/
theorem exists_lex_of_tokens (h : s.tokens = .ok (ts ++ t :: us)) :
    ∃ s' s'', Lexes s ts s' ∧ s'.lex = (.ok t, s'') := by
  obtain ⟨vs, e, s₁, s₂, hts, hv, -, he, -⟩ := exists_lexes_of_tokens h
  obtain ⟨s', ht, hr⟩ := (hts ▸ hv.trans (.one he)).exists_of_append
  cases hr with
  | cons hl _ => exact ⟨s', _, ht, hl⟩

theorem exists_lexes_of_tokens_error (h : s.tokens = .error e) :
    ∃ us s' s'', Lexes s us s' ∧ s'.lex = (.error e, s'') := by
  obtain ⟨us, s', s'', hs, hu, ⟨t, -, -, htok⟩ | ⟨e', he, htok⟩⟩ := s.exists_lexes
  · simp [h] at htok
  · obtain rfl : e = e' := by simpa [h] using htok
    exact ⟨us, s', s'', hs, he⟩

/-- Tokens that are taken off a text are its tokens in order, and then its end as often as asked
for. -/
theorem Lexes.isPrefix (h : Lexes s ts s') (hs : s.tokens = .ok us) :
    ∃ t, us.getLast? = some t ∧ t.kind = .eof ∧ ts <+: us ++ List.replicate ts.length t := by
  obtain ⟨vs, t, s₁, s₂, rfl, hv, -, ht, hk⟩ := exists_lexes_of_tokens hs
  refine ⟨t, by simp, hk, ?_⟩
  rcases Nat.le_total ts.length vs.length with hl | hl
  · obtain ⟨ws, rfl, -⟩ := h.split hv hl
    simp
  · obtain ⟨ws, rfl, hw⟩ := hv.split h hl
    cases hw with
    | nil => simp
    | cons hl' hw =>
      obtain ⟨rfl, rfl⟩ : t = _ ∧ s₂ = _ := by simpa [ht] using hl'
      obtain ⟨hws, -⟩ := hw.eq_replicate (lex_of_lex_eof ht hk)
      rw [hws, List.append_assoc, List.prefix_append_right_inj, List.singleton_append,
        List.prefix_cons_inj]
      exact List.prefix_replicate_iff.2 ⟨by simp; omega, by simp⟩

/-! ### The first tokens -/

/-- The first `k` tokens of a source, behind which more may follow, or something that is none. -/
def first : Nat → Source → Except LexError (List Token)
  | 0, _ => .ok []
  | k + 1, s =>
    match s.lex with
    | (.ok t, s') => (first k s').map (t :: ·)
    | (.error e, _) => .error e

theorem first_of_lex (h : s.lex = (.ok t, s')) (k : Nat) :
    s.first (k + 1) = (s'.first k).map (t :: ·) := by
  rw [first, h]

theorem exists_lex_of_first {k : Nat} (h : s.first (k + 1) = .ok ts) :
    ∃ t s' us, s.lex = (.ok t, s') ∧ s'.first k = .ok us ∧ ts = t :: us := by
  match hl : s.lex with
  | (.error e, s') =>
    rw [first, hl] at h
    cases h
  | (.ok t, s') =>
    rw [first_of_lex hl] at h
    match hf : s'.first k with
    | .error e =>
      rw [hf] at h
      cases h
    | .ok us =>
      rw [hf] at h
      cases h
      exact ⟨t, s', us, rfl, hf, rfl⟩

theorem Lexes.first_eq (h : Lexes s ts s') : s.first ts.length = .ok ts := by
  induction h with
  | nil => rfl
  | cons hl _ ih =>
    rw [List.length_cons, first_of_lex hl, ih]
    rfl

/-- The first tokens are all of them if the last one is the end of the text. -/
theorem tokens_of_first (h : s.first (ts.length + 1) = .ok (ts ++ [t])) (hu : Endless ts)
    (ht : t.kind = .eof) : s.tokens = .ok (ts ++ [t]) := by
  induction ts generalizing s with
  | nil =>
    obtain ⟨u, s', us, hl, -, hts⟩ := exists_lex_of_first h
    obtain ⟨rfl, -⟩ := List.cons.inj hts
    exact tokens_of_lex_eof hl ht
  | cons v ts ih =>
    obtain ⟨hv, hu⟩ := endless_cons.1 hu
    obtain ⟨u, s', us, hl, hf, hts⟩ := exists_lex_of_first h
    obtain ⟨rfl, rfl⟩ := List.cons.inj hts
    rw [tokens_of_lex hl hv, ih hf hu]
    rfl

end Source

/-- The first `k` tokens of a text. -/
def firstTokens (k : Nat) (text : String) : Except LexError (List Token) :=
  (Source.ofText text).first k

theorem tokenize_of_firstTokens {text : String} {ts : List Token} {t : Token}
    (h : firstTokens (ts.length + 1) text = .ok (ts ++ [t])) (hu : Endless ts)
    (ht : t.kind = .eof) : tokenize text = .ok (ts ++ [t]) :=
  Source.tokens_of_first h hu ht

end ScriptCheck
