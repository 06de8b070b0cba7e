import ScriptCheck.Proofs.Diagnostic.Range
import ScriptCheck.Proofs.Scanning.Queue

/-!
# Looking ahead at an error

A look ahead that fails keeps all tokens in front of the error, but what was used up in reading the
faulty lexeme is gone. So the error is not met again when the scanner comes to its place, unless
reading stood still there: the scanner goes on with whatever stands behind.
-/

namespace ScriptCheck

open Location

/-! ### Reading on behind an error -/

/-- The place where digits are missed is behind the beginning of their number. -/
theorem Fault.lt_place {l : Location} {taken : List Char} (h : 2 ≤ taken.length)
    (rest : List Char) : l < missingExponentDigits.place l (l.after taken) rest := by
  have := l.after_cases taken
  unfold place
  dsimp only
  split <;> simp only [lt_iff] <;> omega

namespace Source

variable {s s' s'' : Source} {e : LexError}

theorem skipGap_skipGap (s : Source) : s.skipGap.skipGap = s.skipGap :=
  skipGap_of_none (gapPiece?_splitGap s.rest)

/-- Where reading stands still it fails in the same way again. -/
theorem lex_of_stalls (h : s.lex = (.error e, s')) (he : e.fault.stalls) :
    s'.lex = (.error e, s') := by
  obtain ⟨hc, hs', -⟩ := lex_eq_fault h
  have htaken := (Lexeme.taken_eq_nil_iff hc).2 he
  have hrest : (Lexeme.read s.skipGap.rest).rest = s.skipGap.rest := by
    have happ := (Lexeme.read_divides s.skipGap.rest).append
    rwa [htaken] at happ
  rw [htaken, hrest] at hs'
  obtain rfl : s' = s.skipGap := hs'
  rw [lex, skipGap_skipGap]
  exact h

theorem lt_of_lex_missing (h : s.lex = (.error e, s')) (he : e.fault = .missingExponentDigits) :
    s.skipGap.location < e.location := by
  obtain ⟨hc, rfl, hplace⟩ := lex_eq_fault h
  rw [he] at hc hplace
  rw [hplace]
  exact Fault.lt_place (Lexeme.read_missing hc).1.two_le_length _

/-- In front of a line break a gap begins that leads to the next line. -/
theorem lt_skipGap_of_break {more : List Char} (h : s.rest = '\n' :: more) :
    ⟨s.location.line + 1, 0⟩ < s.skipGap.location := by
  obtain ⟨hrest, hplace⟩ := s.behind_skipGap
  cases hg : (splitGap s.rest).1 with
  | nil =>
    rw [hg, h] at hrest
    exact absurd (congrArg List.head? hrest.symm) s.head?_skipGap_ne
  | cons c gap =>
    rw [hg, h] at hrest
    obtain ⟨rfl, -⟩ := List.cons.inj hrest
    rw [hplace, hg, after_cons]
    have hnext : (⟨s.location.line + 1, 0⟩ : Location) < s.location.next '\n' :=
      Or.inr ⟨rfl, Nat.zero_lt_one⟩
    exact lt_of_lt_of_le hnext (le_after _ gap)

/-- Where digits were missed there is nothing left, or reading goes on there or further on. -/
theorem le_skipGap_of_lex_missing (h : s.lex = (.error e, s'))
    (he : e.fault = .missingExponentDigits) (hs : s'.rest ≠ []) :
    e.location ≤ s'.skipGap.location := by
  obtain ⟨-, -, hplace⟩ := lex_eq_fault h
  obtain ⟨c, more, hrest⟩ := List.exists_cons_of_ne_nil hs
  rw [he, hrest] at hplace
  by_cases hc : c = '\n'
  · rw [hc] at hrest hplace
    rw [hplace]
    exact le_of_lt (lt_skipGap_of_break hrest)
  · rw [Fault.place_of_ne hc] at hplace
    rw [hplace]
    exact s'.le_skipGap

/-- An error does not come again, unless reading stands still. -/
theorem lex_ne_of_not_stalls (h : s.lex = (.error e, s')) (he : ¬ e.fault.stalls) :
    s'.lex.1 ≠ .error e := by
  intro hl
  have hl' : s'.lex = (.error e, s'.lex.2) := Prod.ext hl rfl
  by_cases hm : e.fault = .missingExponentDigits
  · have hs : s'.rest ≠ [] := by
      intro hn
      have hnil := lex_of_nil s'.location
      rw [← hn, hl'] at hnil
      cases congrArg Prod.fst hnil
    have hle := le_skipGap_of_lex_missing h hm hs
    exact lt_irrefl _ (lt_of_le_of_lt hle (lt_of_lex_missing hl' hm))
  · obtain ⟨hc, rfl, -⟩ := lex_eq_fault h
    have htaken : (Lexeme.read s.skipGap.rest).taken ≠ [] := mt (Lexeme.taken_eq_nil_iff hc).1 he
    have hlt := Location.lt_of_lt_of_le (lt_after s.skipGap.location htaken)
      (le_skipGap (s.skipGap.advance _ (Lexeme.read s.skipGap.rest).rest))
    rw [← (lex_eq_error h hm).1, ← (lex_eq_error hl' hm).1] at hlt
    exact lt_irrefl _ hlt

/-- What the `k + 1`st token is that is taken off the source, or the error in its place. Reading
goes on behind every error before. -/
def outcome (s : Source) : Nat → Except LexError Token
  | 0 => s.lex.1
  | k + 1 => s.lex.2.outcome k

theorem outcome_of_lex {r : Except LexError Token} (h : s.lex = (r, s')) (k : Nat) :
    s.outcome (k + 1) = s'.outcome k := by
  rw [outcome, h]

/-- Where reading stands still the same error comes again and again. -/
theorem outcome_of_stalls (h : s.lex = (.error e, s')) (he : e.fault.stalls) (k : Nat) :
    s.outcome k = s'.outcome k := by
  have hagain := lex_of_stalls h he
  cases k with
  | zero => rw [outcome, outcome, h, hagain]
  | succ k => rw [outcome_of_lex h, outcome_of_lex hagain]

end Source

/-! ### What `next` delivers -/

namespace Scanner

/-- The token that the `k + 1`st `next` makes current, or the error in its place. The scanner goes
on behind every error before. -/
def outcome (s : Scanner) : Nat → Except LexError Token
  | 0 => s.next.1.map fun _ => s.next.2.current
  | k + 1 => s.next.2.outcome k

variable {s s' : Scanner} {source source' : Source} {c : Token} {p fresh : List Token}
  {e : LexError} {n : Nat}

theorem outcome_of_nil (source : Source) (c : Token) (k : Nat) :
    outcome ⟨source, c, []⟩ k = source.outcome k := by
  induction k generalizing source c with
  | zero =>
    match hl : source.lex with
    | (.ok t, source') => simp [outcome, Source.outcome, next, hl, Except.map]
    | (.error e, source') => simp [outcome, Source.outcome, next, hl, Except.map]
  | succ k ih =>
    match hl : source.lex with
    | (.ok t, source') => rw [outcome, Source.outcome_of_lex hl, next_of_lex rfl hl, ih]
    | (.error e, source') => rw [outcome, Source.outcome_of_lex hl, next_of_error rfl hl, ih]

/-- What is pending is delivered first. -/
theorem outcome_of_lt {k : Nat} (h : k < p.length) (source : Source) (c : Token) :
    outcome ⟨source, c, p⟩ k = .ok p[k] := by
  induction p generalizing c k with
  | nil => simp at h
  | cons t p ih =>
    cases k with
    | zero => rfl
    | succ k =>
      rw [outcome, next_of_pending rfl]
      exact ih (by simpa using h) t

theorem outcome_length_add (p : List Token) (source : Source) (c : Token) (k : Nat) :
    outcome ⟨source, c, p⟩ (p.length + k) = source.outcome k := by
  induction p generalizing c with
  | nil => rw [List.length_nil, Nat.zero_add, outcome_of_nil]
  | cons t p ih =>
    rw [List.length_cons, Nat.add_right_comm, outcome, next_of_pending rfl]
    exact ih t

theorem outcome_of_lex {t : Token} (h : source.lex = (.ok t, source')) (c : Token)
    (p : List Token) (k : Nat) :
    outcome ⟨source', c, p ++ [t]⟩ k = outcome ⟨source, c, p⟩ k := by
  rcases Nat.lt_or_ge k p.length with hk | hk
  · rw [outcome_of_lt hk, outcome_of_lt (by simp; omega), List.getElem_append_left hk]
  · obtain ⟨k, rfl⟩ := Nat.exists_eq_add_of_le hk
    rw [outcome_length_add]
    cases k with
    | zero => simp [outcome_of_lt, Source.outcome, h]
    | succ k =>
      have hlen : p.length + (k + 1) = (p ++ [t]).length + k := by simp; omega
      rw [hlen, outcome_length_add, Source.outcome_of_lex h]

/-- Whether a token is queued or still to be read makes no difference to what is delivered. -/
theorem outcome_of_lexes (h : source.Lexes fresh source') (c : Token) (p : List Token) (k : Nat) :
    outcome ⟨source', c, p ++ fresh⟩ k = outcome ⟨source, c, p⟩ k := by
  induction h generalizing p with
  | nil => rw [List.append_nil]
  | cons hl _ ih => rw [List.append_cons, ih, outcome_of_lex hl]

/-- A look ahead that fails loses the error that it is about, and nothing else: all before and
behind it is delivered as before. If reading stands still in front of the error, nothing at all is
lost. -/
theorem peek_error_loses_the_error (h : s.peek n = (.error e, s')) :
    s'.current = s.current ∧
      (∀ k < s'.pending.length, ∃ t, s.outcome k = .ok t ∧ s'.outcome k = .ok t) ∧
      s.outcome s'.pending.length = .error e ∧
      (∀ k, s'.pending.length ≤ k → s'.outcome k = s.outcome (k + 1)) ∧
      ((∀ k, s'.outcome k = s.outcome k) ↔ e.fault.stalls) := by
  obtain ⟨fresh, source, source', hl, he, rfl, -⟩ := exists_fresh_of_peek_error h
  have hs (k : Nat) : s.outcome k = outcome ⟨source, s.current, s.pending ++ fresh⟩ k :=
    (outcome_of_lexes hl s.current s.pending k).symm
  generalize s.pending ++ fresh = p at hs ⊢
  have hbefore (k : Nat) (hk : k < p.length) :
      s.outcome k = .ok p[k] ∧ outcome ⟨source', s.current, p⟩ k = .ok p[k] :=
    ⟨(hs k).trans (outcome_of_lt hk _ _), outcome_of_lt hk _ _⟩
  have hlost : s.outcome p.length = .error e := by
    have hk := outcome_length_add p source s.current 0
    rw [Nat.add_zero, ← hs, Source.outcome, he] at hk
    exact hk
  have hbehind (k : Nat) (hk : p.length ≤ k) :
      outcome ⟨source', s.current, p⟩ k = s.outcome (k + 1) := by
    obtain ⟨k, rfl⟩ := Nat.exists_eq_add_of_le hk
    rw [hs, Nat.add_assoc, outcome_length_add, outcome_length_add, Source.outcome_of_lex he]
  refine ⟨rfl, fun k hk => ⟨p[k], hbefore k hk⟩, hlost, hbehind, ?_, ?_⟩
  · intro hsame
    by_contra hstalls
    have hk := outcome_length_add p source' s.current 0
    rw [Nat.add_zero, hsame, hlost] at hk
    exact Source.lex_ne_of_not_stalls he hstalls hk.symm
  · intro hstalls k
    rcases Nat.lt_or_ge k p.length with hk | hk
    · rw [(hbefore k hk).1, (hbefore k hk).2]
    · obtain ⟨k, rfl⟩ := Nat.exists_eq_add_of_le hk
      rw [hs, outcome_length_add, outcome_length_add, Source.outcome_of_stalls he hstalls]

theorem peek_error_at_lone_bang :
    ∃ s', (ofText "a ! b").peek 1 = (.error ⟨.loneBang, ⟨1, 3⟩⟩, s') ∧
      s'.pending = [⟨.identifier, .text "a", ⟨1, 1⟩⟩] ∧
      ∀ k, s'.outcome k = (ofText "a ! b").outcome k := by
  have hpeek : (ofText "a ! b").peek 1 = (.error ⟨.loneBang, ⟨1, 3⟩⟩,
      ⟨⟨['!', ' ', 'b'], ⟨1, 3⟩⟩, .eof .start, [⟨.identifier, .text "a", ⟨1, 1⟩⟩]⟩) := by
    with_unfolding_all rfl
  obtain ⟨-, -, -, -, hiff⟩ := peek_error_loses_the_error hpeek
  exact ⟨_, hpeek, rfl, hiff.2 rfl⟩

/-- A string that is never closed is reported to whoever looks ahead, and not again by `next`. -/
theorem unterminated_string_reported_once :
    ∃ s', (ofText "'open").peek 0 = (.error ⟨.unterminatedString, ⟨1, 1⟩⟩, s') ∧
      (ofText "'open").outcome 0 = .error ⟨.unterminatedString, ⟨1, 1⟩⟩ ∧
      s'.outcome 0 = .ok (.eof ⟨1, 6⟩) := by
  refine ⟨⟨⟨[], ⟨1, 6⟩⟩, .eof .start, []⟩, ?_, ?_, ?_⟩ <;> with_unfolding_all rfl

end Scanner

end ScriptCheck
