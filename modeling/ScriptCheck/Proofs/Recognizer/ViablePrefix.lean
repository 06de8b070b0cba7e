import ScriptCheck.Proofs.Recognizer.Completion
import Mathlib.Data.List.Basic

/-!
# Where syntax errors are reported

A syntax error is reported at the first token that no program goes on with. Up to there the tokens
begin some accepted program, for which the same is reported; and nothing that is reported, the error
included, depends on what stands behind the refused token.
-/

namespace ScriptCheck

open TokenFeed

section

variable {s s' : Scanner} {source : Source} {t : Token} {ts us : List Token} {text other : String}
  {err : SyntaxError}

namespace Scanner

/-- A path over the tokens of a text shows its first tokens. -/
theorem first_of_feeds (h : Feeds s ts s') (hs : s.ReadFrom source) :
    source.first (ts.length + 1) = .ok (ts ++ [s'.current]) := by
  obtain ⟨source', hl, hs'⟩ := lexes_of_feeds h hs
  have hfirst := (hl.trans (.one hs'.lex)).first_eq
  rwa [List.length_append] at hfirst

/-- The first tokens of a text show a path. -/
theorem exists_feeds_of_first (h : s.source.first (ts.length + 1) = .ok (ts ++ [t]))
    (hp : s.pending = []) : ∃ s₁ s', s.next = (.ok (), s₁) ∧ Feeds s₁ ts s' ∧ s'.current = t := by
  induction ts generalizing s with
  | nil =>
    obtain ⟨u, source, us, hl, -, hu⟩ := Source.exists_lex_of_first h
    obtain ⟨rfl, -⟩ := List.cons.inj hu
    exact ⟨_, _, next_of_lex hp hl, .refl _, rfl⟩
  | cons u ts ih =>
    obtain ⟨v, source, us, hl, hf, hu⟩ := Source.exists_lex_of_first h
    obtain ⟨rfl, rfl⟩ := List.cons.inj hu
    obtain ⟨s₂, s', hn, hfeeds, hc⟩ := ih (s := { s with current := u, source := source }) hf hp
    exact ⟨_, s', next_of_lex hp hl, .next hn hfeeds, hc⟩

/-- What a path leads over can be written into a program. -/
theorem spellable_of_feeds (h : Feeds s ts s') (hs : s.ReadFrom source)
    (hr : '\r' ∉ source.rest) (ht : Endless ts) : ∀ t ∈ ts, Spellable t.content := by
  induction h generalizing source with
  | refl => simp
  | @next s s₁ s' ts hn h ih =>
    obtain ⟨hc, ht⟩ := endless_cons.1 ht
    obtain ⟨hsp, hr⟩ := Source.spellable_of_lex hs.lex hr hc
    intro t hm
    rcases List.mem_cons.1 hm with rfl | hm
    · exact hsp
    · exact ih (readFrom_of_next hs.pending hn) hr ht t hm

end Scanner

/-! ### Syntax errors -/

/-- A text is refused in the same way as another if its tokens are the same up to the refused
one. -/
theorem recognize_of_firstTokens {n : Token} {g : Goal} {goals : List Goal}
    {es : List Event} {e : Expectation} (hr : Reaches n program ts es (g :: goals))
    (hg : g.step n = .refuse e) (ho : firstTokens (ts.length + 1) other = .ok (ts ++ [n])) :
    check other = .error (.grammatical (.atToken e n)) ∧ (recognize other).events = es := by
  obtain ⟨s₁, s', hn, hf, rfl⟩ := Scanner.exists_feeds_of_first (s := Scanner.ofText other) ho rfl
  have hrun : run s₁ [] program = run s' (es.reverse ++ []) (g :: goals) :=
    run_of_reaches hr hf rfl
  have hrefuse : run s' (es.reverse ++ []) (g :: goals) = _ := run_of_refuse hg
  unfold check
  rw [recognize_of_next hn, hrun, hrefuse]
  exact ⟨rfl, by simp⟩

/-- Where a program is refused an accepted one goes on with given kinds of tokens, if these satisfy
the goals and do not begin with an operator. -/
theorem exists_accepted_with {n : Token} {g : Goal} {goals : List Goal} {es : List Event}
    {e : Expectation} {w : List TokenKind} (hr : Reaches n program ts es (g :: goals))
    (hg : g.step n = .refuse e) (ht : ∀ t ∈ ts, Spellable t.content)
    (hw : Generates (g :: goals) w) (hp : ∀ k ∈ w, ∃ p, Spellable (k, p))
    (ho : (w.headD .eof).operand? = none) :
    ∃ accepted us vs l, check accepted = .ok () ∧ tokenize accepted = .ok (us ++ [Token.eof l]) ∧
      us.map Token.content = ts.map Token.content ++ vs ∧ vs.map Prod.fst = w ∧
      es.map Event.unplaced <+: (recognize accepted).events.map Event.unplaced := by
  obtain ⟨vs, es', hc, rfl, hv⟩ := exists_completion hr hg hw hp ho
  have hspell : ∀ t ∈ ts ++ vs, Spellable t.content := by
    intro t htv
    rcases List.mem_append.1 htv with htv | htv
    · exact ht t htv
    · exact hv t htv
  obtain ⟨accepted, us, l, hck, htok, hus, he⟩ := exists_accepted_of_reaches hc hspell
  refine ⟨accepted, us, vs.map Token.content, l, hck, htok, ?_, ?_, ?_⟩
  · rw [hus, List.map_append]
  · simp [Token.content]
  · rw [he, List.map_append]
    exact List.prefix_append ..

/-- A program that is refused at a token agrees up to there with an accepted one. -/
theorem exists_accepted {n : Token} {g : Goal} {goals : List Goal} {es : List Event}
    {e : Expectation} (hr : Reaches n program ts es (g :: goals)) (hg : g.step n = .refuse e)
    (ht : ∀ t ∈ ts, Spellable t.content) :
    ∃ accepted us, check accepted = .ok () ∧ tokenize accepted = .ok us ∧
      ts.map Token.content <+: us.map Token.content ∧
      es.map Event.unplaced <+: (recognize accepted).events.map Event.unplaced := by
  have ho := operand?_of_refuse hg (hr.wellFormed wellFormed_program)
  obtain ⟨accepted, us, vs, l, hck, htok, hus, -, he⟩ :=
    exists_accepted_with hr hg ht (generates_fillers _) exists_spellable_of_mem_fillers ho
  refine ⟨accepted, us ++ [Token.eof l], hck, htok, ?_, he⟩
  rw [List.map_append, hus, List.append_assoc]
  exact List.prefix_append ..

/-- A syntax error is reported at the earliest token that no program goes on with. -/
theorem syntax_error_at_earliest_token (h : check text = .error (.grammatical err)) :
    ∃ ts t, firstTokens (ts.length + 1) text = .ok (ts ++ [t]) ∧
      err.location = t.location ∧ err.found = t.describe ∧
      (∀ other, firstTokens (ts.length + 1) other = .ok (ts ++ [t]) →
        check other = .error (.grammatical err) ∧
          (recognize other).events = (recognize text).events) ∧
      ∃ accepted us, check accepted = .ok () ∧ tokenize accepted = .ok us ∧
        ts.map Token.content <+: us.map Token.content ∧
        (recognize text).events.map Event.unplaced <+:
          (recognize accepted).events.map Event.unplaced := by
  obtain ⟨ts, es, s, s', g, goals, e, hn, hf, hr, hg, rfl, he⟩ :=
    exists_path_of_check_grammatical h
  have hs := Scanner.readFrom_of_next rfl hn
  have hsp := Scanner.spellable_of_feeds hf hs (not_mem_foldBreaks text.toList) hr.kind_ne_eof
  rw [he]
  refine ⟨ts, s'.current, Scanner.first_of_feeds hf hs, rfl, rfl, fun other ho => ?_, ?_⟩
  · exact recognize_of_firstTokens hr hg ho
  · exact exists_accepted hr hg hsp

/-- Where an operand is missing, the path ends behind the assignment sign. -/
theorem check_missing_operand :
    check "x = )" = .error (.grammatical ⟨"an expression", "')'", ⟨1, 5⟩⟩) := by
  have hr : ∃ es gs, Reaches ⟨.symbol .rightParen, .none, ⟨1, 5⟩⟩ program
      [⟨.identifier, .text "x", ⟨1, 1⟩⟩, ⟨.symbol .assign, .none, ⟨1, 3⟩⟩] es (.factor :: gs) :=
    ⟨_, _, .reduce rfl <| .look rfl <| .reduce rfl <| .shift rfl <| .reduce rfl <| .shift rfl <|
      .reduce rfl <| .reduce rfl <| .reduce rfl <| .reduce rfl <| .reduce rfl <| .refl _⟩
  obtain ⟨es, gs, hr⟩ := hr
  exact (recognize_of_firstTokens hr rfl (by with_unfolding_all rfl)).1

theorem syntax_error_at_missing_operand :
    check "x = )" = .error (.grammatical ⟨"an expression", "')'", ⟨1, 5⟩⟩) ∧
      ∃ ts t, firstTokens (ts.length + 1) "x = )" = .ok (ts ++ [t]) ∧ t.location = ⟨1, 5⟩ := by
  obtain ⟨ts, t, ht, hl, -⟩ := syntax_error_at_earliest_token check_missing_operand
  exact ⟨check_missing_operand, ts, t, ht, hl.symm⟩

end

end ScriptCheck
