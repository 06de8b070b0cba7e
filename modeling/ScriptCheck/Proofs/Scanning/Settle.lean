import ScriptCheck.Proofs.Scanning.Lookahead

/-!
# Going on after errors

Who ignores lexical errors and asks for the next token again and again comes to rest. Each call
takes a token off the queue or characters off the text, until one of two things happens for ever:
the end of the text is delivered, or the same error is met in front of a character that nothing can
begin with.
-/

namespace ScriptCheck

/-- What may come for ever: the end of the text at one place, or an error that reading stands still
in front of. -/
inductive Settled : Except LexError Token → Prop
  | atEnd (l : Location) : Settled (.ok (.eof l))
  | loneBang (l : Location) : Settled (.error ⟨.loneBang, l⟩)
  | unrecognized (c : Char) (l : Location) : Settled (.error ⟨.unrecognized c, l⟩)

theorem settled_error_iff {e : LexError} : Settled (.error e) ↔ e.fault.stalls := by
  obtain ⟨fault, l⟩ := e
  constructor
  · rintro (_ | _)
    · rfl
    · rfl
  · cases fault with
    | loneBang => exact fun _ => .loneBang l
    | unrecognized c => exact fun _ => .unrecognized c l
    | _ => nofun

namespace Source

variable {s s' : Source} {t : Token} {e : LexError}

/-! ### What one token does -/

theorem eq_eof_of_lex (h : s.lex = (.ok t, s')) (ht : t.kind = .eof) : ∃ l, t = .eof l := by
  obtain ⟨-, -, hc⟩ := lex_eq_ok h
  have hn : s.skipGap.rest = [] := Lexeme.eq_nil_of_read_eof (ht ▸ hc)
  obtain ⟨kind, payload, l⟩ := t
  obtain ⟨rfl, rfl⟩ : .eof = kind ∧ .none = payload := by simpa [hn, Lexeme.read] using hc
  exact ⟨l, rfl⟩

/-- Reading that breaks off uses something up, unless it stands still. -/
theorem exists_taken_of_lex_error (h : s.lex = (.error e, s')) (he : ¬ e.fault.stalls) :
    ∃ taken, taken ≠ [] ∧ s.rest = taken ++ s'.rest := by
  obtain ⟨hc, -, -⟩ := lex_eq_fault h
  have hbehind := s.behind_lex
  rw [h] at hbehind
  refine ⟨_, ?_, hbehind.rest⟩
  exact List.append_ne_nil_of_right_ne_nil _ (mt (Lexeme.taken_eq_nil_iff hc).1 he)

theorem length_lt_of_lex_error (h : s.lex = (.error e, s')) (he : ¬ e.fault.stalls) :
    s'.rest.length < s.rest.length := by
  obtain ⟨taken, htaken, hrest⟩ := exists_taken_of_lex_error h he
  have := List.length_pos_iff.2 htaken
  rw [hrest, List.length_append]
  omega

/-- A token at which reading stands still is what comes ever after. -/
theorem outcome_eq_of_lex_self {r : Except LexError Token} (h : s.lex = (r, s)) (k : Nat) :
    s.outcome k = r := by
  induction k with
  | zero => rw [outcome, h]
  | succ k ih => rw [outcome_of_lex h, ih]

theorem outcome_eq_of_lex_again {r : Except LexError Token} (h : s.lex = (r, s'))
    (h' : s'.lex = (r, s')) (k : Nat) : s.outcome k = r := by
  cases k with
  | zero => rw [outcome, h]
  | succ k => rw [outcome_of_lex h, outcome_eq_of_lex_self h']

/-- Either nothing new will come any more, or there is less to read than before. -/
theorem settled_or_length_lt (s : Source) :
    (Settled s.lex.1 ∧ ∀ k, s.outcome k = s.lex.1) ∨ s.lex.2.rest.length < s.rest.length := by
  match h : s.lex with
  | (.ok t, s') =>
    by_cases ht : t.kind = .eof
    · obtain ⟨l, rfl⟩ := eq_eof_of_lex h ht
      exact .inl ⟨.atEnd l, outcome_eq_of_lex_again h (lex_of_lex_eof h rfl)⟩
    · exact .inr (length_lex_lt h ht)
  | (.error e, s') =>
    by_cases he : e.fault.stalls
    · exact .inl ⟨settled_error_iff.2 he, outcome_eq_of_lex_again h (lex_of_stalls h he)⟩
    · exact .inr (length_lt_of_lex_error h he)

/-! ### All tokens -/

/-- A text has settled at the latest when as many tokens were asked for as it has characters. -/
theorem exists_settled (s : Source) :
    ∃ k ≤ s.rest.length, ∃ r, Settled r ∧ ∀ j, k ≤ j → s.outcome j = r := by
  generalize hn : s.rest.length = n
  induction n using Nat.strong_induction_on generalizing s with
  | _ n ih =>
    obtain ⟨hs, hall⟩ | hlt := s.settled_or_length_lt
    · exact ⟨0, Nat.zero_le n, _, hs, fun j _ => hall j⟩
    · obtain ⟨k, hk, r, hr, hall⟩ := ih _ (hn ▸ hlt) s.lex.2 rfl
      refine ⟨k + 1, by omega, r, hr, ?_⟩
      intro j hj
      obtain ⟨j, rfl⟩ := Nat.exists_eq_add_of_le' (Nat.le_of_add_left_le hj)
      exact hall j (by omega)

end Source

namespace Scanner

/-- A scanner delivers what is queued, and then what its text delivers. -/
theorem exists_settled (s : Scanner) :
    ∃ k ≤ s.pending.length + s.source.rest.length, ∃ r, Settled r ∧
      ∀ j, k ≤ j → s.outcome j = r := by
  obtain ⟨k, hk, r, hr, hall⟩ := s.source.exists_settled
  refine ⟨s.pending.length + k, by omega, r, hr, ?_⟩
  intro j hj
  obtain ⟨i, rfl⟩ := Nat.exists_eq_add_of_le hj
  rw [Nat.add_assoc, outcome_length_add s.pending s.source s.current]
  exact hall (k + i) (by omega)

/-- Whatever state a scanner is in, who goes on after errors meets in the end nothing but the end
of the text or one and the same error. A call that fails leaves the current token and the queue as
they were, and uses up some of the text, unless it fails in this way for ever. -/
theorem next_settles (s : Scanner) :
    (∃ k ≤ s.pending.length + s.source.rest.length, ∃ r, Settled r ∧
      ∀ j, k ≤ j → s.outcome j = r) ∧
    ∀ e s', s.next = (.error e, s') →
      s'.current = s.current ∧ s'.pending = s.pending ∧
        if e.fault.stalls then Settled (.error e) ∧ ∀ j, s.outcome j = .error e
        else ∃ taken, taken ≠ [] ∧ s.source.rest = taken ++ s'.source.rest := by
  refine ⟨s.exists_settled, ?_⟩
  intro e s' h
  obtain ⟨hl, hc, hp, hp'⟩ := next_error_cases h
  refine ⟨hc, hp'.trans hp.symm, ?_⟩
  split
  · rename_i he
    refine ⟨settled_error_iff.2 he, fun j => ?_⟩
    obtain ⟨source, current, pending⟩ := s
    obtain rfl : pending = [] := hp
    rw [outcome_of_nil]
    exact Source.outcome_eq_of_lex_again hl (Source.lex_of_stalls hl he) j
  · exact Source.exists_taken_of_lex_error hl ‹_›

/-- Behind a period that is no number the scanner comes to rest in front of the `!`. -/
theorem next_settles_at_lone_bang :
    (ofText ". !").next.1 = .error ⟨.malformedNumber, ⟨1, 1⟩⟩ ∧
      ∀ k, (ofText ". !").next.2.outcome k = .error ⟨.loneBang, ⟨1, 3⟩⟩ := by
  have hnext : (ofText ". !").next.2.next = (.error ⟨.loneBang, ⟨1, 3⟩⟩,
      ⟨⟨['!'], ⟨1, 3⟩⟩, .eof .start, []⟩) := by
    with_unfolding_all rfl
  obtain ⟨-, -, hsettled⟩ := (next_settles (ofText ". !").next.2).2 _ _ hnext
  refine ⟨by with_unfolding_all rfl, ?_⟩
  exact (hsettled : _ ∧ _).2

end Scanner

end ScriptCheck
