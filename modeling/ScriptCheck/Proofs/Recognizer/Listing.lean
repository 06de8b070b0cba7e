import ScriptCheck.Proofs.Recognizer.Verdict

/-!
# Recognizing on demand and recognizing a list

The recognizer asks its scanner for one token after the other, and once for the token behind the
current one. Here the same goals run over a list of tokens that was finished before. Both runs end
in the same way and report the same: neither the order in which a text is read nor the look ahead
shows. A lexical error competes with a syntax error by its place alone.
-/

namespace ScriptCheck

open TokenFeed

/-! ### Listings -/

/-- The tokens of a list, behind which the end of the text comes again and again. -/
structure Listing where
  current : Token
  ahead : List Token
  finish : Location

namespace Listing

/-- The listing in front of the first of some tokens, the last of which is the end of the text. -/
def ofTokens (ts : List Token) : Listing :=
  ⟨.eof .start, ts, (ts.getLast?.elim .start Token.location)⟩

/-- The token behind the current one. -/
def following (l : Listing) : Token :=
  l.ahead.headD (.eof l.finish)

def next (l : Listing) : Except LexError Unit × Listing :=
  (.ok (), { l with current := l.following, ahead := l.ahead.tail })

def peek (l : Listing) : Except LexError Token × Listing :=
  (.ok l.following, l)

def size (l : Listing) : Nat :=
  l.ahead.length + if l.current.kind = .eof then 0 else 1

theorem size_next_lt {l l' : Listing} (hl : l.current.kind ≠ .eof) (h : l.next = (.ok (), l')) :
    l'.size < l.size := by
  obtain ⟨current, ahead, finish⟩ := l
  simp only [next, Prod.mk.injEq, true_and] at h
  subst h
  cases ahead with
  | nil => simp [size, following, Token.eof, hl]
  | cons t ahead =>
    have hs : (if t.kind = .eof then 0 else 1) ≤ 1 := by split <;> simp
    simp only [size, following, List.headD_cons, List.tail_cons, List.length_cons, if_neg hl]
    exact Nat.lt_of_le_of_lt (Nat.add_le_add_left hs _) (Nat.lt_succ_self _)

instance : TokenFeed Listing where
  current := current
  next := next
  peek := peek
  size := size
  size_next_lt := size_next_lt
  size_peek_le {l l' t} h := by
    simp only [peek, Prod.mk.injEq] at h
    exact h.2 ▸ Nat.le_refl _
  next_of_peek {l l' t} h := by
    simp only [peek, Prod.mk.injEq, Except.ok.injEq] at h
    obtain ⟨rfl, rfl⟩ := h
    exact ⟨rfl, rfl, _, rfl, rfl⟩
  next_of_peek_error {l l' e} h := by simp [peek] at h

/-- A listing feeds what it lists. -/
theorem feeds (t : Token) (us ts : List Token) (n : Token) (finish : Location)
    (h : us.headD n = t) :
    Feeds (⟨t, (us ++ n :: ts).tail, finish⟩ : Listing) us ⟨n, ts, finish⟩ := by
  induction us generalizing t with
  | nil =>
    obtain rfl : n = t := h
    exact .refl _
  | cons u us ih =>
    obtain rfl : u = t := h
    have hn : TokenFeed.next (⟨u, (u :: us ++ n :: ts).tail, finish⟩ : Listing) =
        (.ok (), ⟨us.headD n, (us ++ n :: ts).tail, finish⟩) := by cases us <;> rfl
    exact .next hn (ih _ rfl)

end Listing

/-! ### Feeds of the same tokens -/

section

variable {σ τ : Type} [TokenFeed σ] [TokenFeed τ] {s s' : σ} {l l' : τ} {us : List Token}
  {goals : List Goal}

/-- In front of the end of a text, or behind a lexical error that is to come, a run does not stop
for want of a token. -/
theorem Final.done_or_refused (h : Final s goals) (hf : Feeds s us s')
    (hs : (current s').kind = .eof) :
    goals = [] ∨ ∃ g gs e, goals = g :: gs ∧ g.step (current s) = .refuse e := by
  have hn (hc : (current s).kind ≠ .eof) : ∃ s₁, next s = (.ok (), s₁) := by
    cases hf with
    | refl => exact absurd hs hc
    | next hn => exact ⟨_, hn⟩
  cases h with
  | done => exact .inl rfl
  | refused hg => exact .inr ⟨_, _, _, rfl, hg⟩
  | cut hg hn' =>
    obtain ⟨s₁, hn⟩ := hn (Goal.kind_ne_eof_of_shift hg)
    simp [hn] at hn'
  | blind hg hp =>
    obtain ⟨s₁, hn⟩ := hn (Goal.kind_ne_eof_of_look hg)
    have hn' := next_of_peek_error hp
    simp [hn] at hn'

/-- Runs over the same tokens end in the same way and report the same. -/
theorem run_eq_of_feeds (hs : Feeds s us s') (hl : Feeds l us l') (hc : current s' = current l')
    (he : (current s').kind = .eof) (events : List Event) (goals : List Goal) :
    (run s events goals).result = (run l events goals).result ∧
      (run s events goals).events = (run l events goals).events := by
  obtain ⟨ts, es, s₁, goals', hf, hr, hfin, hrun⟩ := exists_reaches s events goals
  obtain ⟨vs, rfl, hv⟩ := hf.eq_append hr.kind_ne_eof hs he
  obtain ⟨l₁, hfl, hvl⟩ := hl.of_append
  have hc₁ : current l₁ = current s₁ := by rw [← hvl.headD, ← hv.headD, hc]
  rw [hrun, run_of_reaches hr hfl hc₁]
  rcases hfin.done_or_refused hv he with rfl | ⟨g, gs, e, rfl, hg⟩
  · simp
  · rw [run_of_refuse hg, run_of_refuse (hc₁ ▸ hg), hc₁]
    exact ⟨rfl, rfl⟩

end

/-! ### The recognizer of a text -/

section

variable {text : String}

/-- A text of which all tokens can be read is recognized like the list of them. -/
theorem recognize_eq_of_tokenize {ts : List Token} (h : tokenize text = .ok ts) :
    (recognize text).result = (TokenFeed.recognize (Listing.ofTokens ts)).result ∧
      (recognize text).events = (TokenFeed.recognize (Listing.ofTokens ts)).events := by
  obtain ⟨s, us, s', hn, hf, hu, hc, rfl⟩ := exists_feeds_of_tokenize h
  have hl := Listing.feeds (us.headD s'.current) us [] s'.current
    ((us ++ [s'.current]).getLast?.elim .start Token.location) rfl
  have hr : TokenFeed.recognize (Listing.ofTokens (us ++ [s'.current])) = run
      (⟨us.headD s'.current, (us ++ [s'.current]).tail,
        (us ++ [s'.current]).getLast?.elim .start Token.location⟩ : Listing) [] program := by
    cases us <;> rfl
  rw [recognize_of_next hn, hr]
  exact run_eq_of_feeds hf hl rfl hc [] program

theorem exists_tokenize_of_check (h : check text = .ok ()) : ∃ ts, tokenize text = .ok ts := by
  obtain ⟨ts, es, s, s', hn, hf, hc, hr, -⟩ := exists_path_of_check h
  have hs := Scanner.readFrom_of_next rfl hn
  exact ⟨_, Scanner.tokens_of_feeds_eof hf hs hr.kind_ne_eof hc⟩

theorem tokenize_of_check_lexical {e : LexError} (h : check text = .error (.lexical e)) :
    tokenize text = .error e := by
  rcases exists_path_of_check_lexical h with ⟨s, hn⟩ | ⟨ts, s, s', s'', hn, hf, ht, hc, hn'⟩
  · exact Source.tokens_of_lex_error (Scanner.lex_of_next_error rfl hn)
  · exact Scanner.tokens_of_feeds_error hf (Scanner.readFrom_of_next rfl hn) ht hc hn'

/-- A syntax error is reported only if it comes before every lexical error. -/
theorem location_lt_of_tokenize {e : LexError} {err : SyntaxError}
    (h : check text = .error (.grammatical err)) (he : tokenize text = .error e) :
    err.location < e.location := by
  obtain ⟨ts, es, s, s₁, g, goals, x, hn, hf, hr, hg, rfl, -⟩ := exists_path_of_check_grammatical h
  rcases exists_feeds_ofText text with
    ⟨e', s, hn', -⟩ | ⟨s, us, s', hn', hf', hu, ⟨-, ht⟩ | ⟨hc, e', s'', hn'', ht⟩⟩
  · simp [hn] at hn'
  · simp [he] at ht
  · simp only [hn, Prod.mk.injEq, true_and] at hn'
    subst hn'
    obtain rfl : e = e' := by simpa [he] using ht
    -- the error lies on the path behind the refused token
    obtain ⟨vs, rfl, hv⟩ := hf.eq_append_of_error hf' hn''
    obtain ⟨source, hs, -⟩ :=
      Scanner.tokens_of_feeds hf (Scanner.readFrom_of_next rfl hn) (endless_append.1 hu).1
    exact Scanner.location_lt_of_feeds hv hs hc hn''

/-- Recognizing a text on demand agrees with reading all of its tokens first. -/
theorem recognize_agrees_with_tokenize (text : String) :
    (check text = .ok () → ∃ ts, tokenize text = .ok ts) ∧
    (∀ e, check text = .error (.lexical e) → tokenize text = .error e) ∧
    (∀ e, tokenize text = .error e →
      check text = .error (.lexical e) ∨
        ∃ err, check text = .error (.grammatical err) ∧ err.location < e.location) ∧
    (∀ ts, tokenize text = .ok ts →
      (recognize text).result = (TokenFeed.recognize (Listing.ofTokens ts)).result ∧
        (recognize text).events = (TokenFeed.recognize (Listing.ofTokens ts)).events) := by
  refine ⟨exists_tokenize_of_check, fun e => tokenize_of_check_lexical, fun e he => ?_,
    fun ts => recognize_eq_of_tokenize⟩
  match hc : check text with
  | .ok () =>
    obtain ⟨ts, ht⟩ := exists_tokenize_of_check hc
    simp [he] at ht
  | .error (.lexical e') =>
    have ht := tokenize_of_check_lexical hc
    obtain rfl : e = e' := by simpa [he] using ht
    exact .inl rfl
  | .error (.grammatical err) => exact .inr ⟨err, rfl, location_lt_of_tokenize hc he⟩

end

end ScriptCheck
