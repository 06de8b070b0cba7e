import ScriptCheck.Proofs.Lexing.Number

/-!
# The places of tokens

A token stands where reading went on or behind that, in front of everything that is read after it.
A lexical error is never reported in front of the lexeme that it is in, so it lies behind all
tokens before it.
-/

namespace ScriptCheck

open Location

/-! ### Lexemes that break off -/

/-- The faults in front of which reading stands still. -/
def Fault.stalls : Fault → Bool
  | loneBang => true
  | unrecognized _ => true
  | _ => false

namespace Lexeme

variable {text : List Char} {f : Fault}

theorem number_error (h : (number text).content = .error f) : f.stalls = false := by
  rcases number_cases text with ⟨g, hg, hf⟩ | ⟨whole, fraction, rest, -, -, -, -, ⟨-, hn⟩ |
    ⟨_, _, _, _, -, -, -, -, -, -, -, ⟨hc, -⟩ | ⟨hc, -⟩ | ⟨hc, -⟩⟩⟩
  · obtain rfl := Except.error.inj (hg.symm.trans h)
    rcases hf with rfl | rfl <;> rfl
  · simp [hn] at h
  · obtain rfl := Except.error.inj (hc.symm.trans h)
    rfl
  · obtain rfl := Except.error.inj (hc.symm.trans h)
    rfl
  · cases hc.symm.trans h

/-- Reading that breaks off has used something up, unless it stands still. -/
theorem taken_eq_nil_iff (h : (read text).content = .error f) :
    (read text).taken = [] ↔ f.stalls := by
  rcases read_cases text with
    ⟨-, hr⟩ | ⟨⟨r, rfl⟩, hr⟩ | ⟨c, r, rfl, -, ⟨-, hr⟩ | ⟨hd, hr⟩ | ⟨-, hr⟩ | hr⟩ <;> rw [hr] at h ⊢
  · cases h
  · cases h
    simp [Fault.stalls]
  · simp [word] at h
  · have hn : (number (c :: r)).taken ≠ [] := number_ne_nil (by simpa [startsWithDigit] using hd)
    simp [hn, number_error h]
  · unfold quoted at h ⊢
    split at h
    · cases h
    · cases h
      simp [Fault.stalls]
  · unfold symbol at h ⊢
    split at h
    · cases h
    · cases h
      split <;> simp [Fault.stalls]

/-- An exponent that is missing has at least an `e` in front of it. -/
theorem read_ne_nil_of_missing (h : (read text).content = .error .missingExponentDigits) :
    (read text).taken ≠ [] := by
  simp [taken_eq_nil_iff h, Fault.stalls]

end Lexeme

theorem Fault.le_place {f : Fault} {l : Location} {taken rest : List Char}
    (h : f = .missingExponentDigits → taken ≠ []) : l ≤ f.place l (l.after taken) rest := by
  unfold place
  split
  · have := l.after_cases taken
    have := List.length_pos_iff.2 (h rfl)
    split <;> simp only [le_iff] <;> omega
  · exact le_refl l

theorem Fault.place_of_ne {c : Char} (h : c ≠ '\n') (start stop : Location) (rest : List Char) :
    missingExponentDigits.place start stop (c :: rest) = stop := by
  unfold place
  dsimp only
  split
  · cases ‹c :: rest = []›
  · exact absurd (List.cons.inj ‹c :: rest = _›).1 h
  · rfl

/-! ### Reading -/

namespace Source

variable {s s' : Source} {t : Token} {e : LexError}

theorem le_skipGap (s : Source) : s.location ≤ s.skipGap.location :=
  le_after _ _

theorem lex_eq_ok (h : s.lex = (.ok t, s')) :
    t.location = s.skipGap.location ∧
      s'.location = t.location.after (Lexeme.read s.skipGap.rest).taken ∧
      (Lexeme.read s.skipGap.rest).content = .ok (t.kind, t.payload) := by
  unfold lex readToken at h
  dsimp only at h
  split at h
  · simp only [Prod.mk.injEq, Except.ok.injEq] at h
    obtain ⟨rfl, rfl⟩ := h
    exact ⟨rfl, rfl, by assumption⟩
  · simp at h

theorem rest_of_lex {r : Except LexError Token} (h : s.lex = (r, s')) :
    s'.rest = (Lexeme.read s.skipGap.rest).rest := by
  rw [← readToken_rest]
  exact (congrArg (·.2.rest) h).symm

theorem le_of_lex (h : s.lex = (.ok t, s')) : s.location ≤ t.location :=
  (lex_eq_ok h).1 ▸ s.le_skipGap

theorem location_le_of_lex (h : s.lex = (.ok t, s')) : t.location ≤ s'.location :=
  (lex_eq_ok h).2.1 ▸ le_after _ _

theorem lt_of_lex (h : s.lex = (.ok t, s')) (ht : t.kind ≠ .eof) : t.location < s'.location := by
  obtain ⟨-, hs, hc⟩ := lex_eq_ok h
  rw [hs]
  exact lt_after _ ((Lexeme.read_divides _).ne_nil _ _ hc ht)

theorem lex_eq_fault (h : s.lex = (.error e, s')) :
    (Lexeme.read s.skipGap.rest).content = .error e.fault ∧
      s' = s.skipGap.advance (Lexeme.read s.skipGap.rest).taken (Lexeme.read s.skipGap.rest).rest ∧
      e.location = e.fault.place s.skipGap.location s'.location s'.rest := by
  unfold lex readToken at h
  dsimp only at h
  split at h
  · simp at h
  · simp only [Prod.mk.injEq, Except.error.injEq] at h
    obtain ⟨rfl, rfl⟩ := h
    exact ⟨by assumption, rfl, rfl⟩

/-- An error stands where its lexeme begins, unless it is about the digits of an exponent. -/
theorem lex_eq_error (h : s.lex = (.error e, s')) (he : e.fault ≠ .missingExponentDigits) :
    e.location = s.skipGap.location ∧
      (Lexeme.read s.skipGap.rest).content = .error e.fault := by
  obtain ⟨hc, -, hplace⟩ := lex_eq_fault h
  refine ⟨?_, hc⟩
  rw [hplace]
  unfold Fault.place
  split
  · exact absurd ‹e.fault = _› he
  · rfl

theorem le_of_lex_error (h : s.lex = (.error e, s')) : s.location ≤ e.location := by
  obtain ⟨hc, rfl, hplace⟩ := lex_eq_fault h
  rw [hplace]
  apply le_trans s.le_skipGap
  exact Fault.le_place fun hm => Lexeme.read_ne_nil_of_missing (hm ▸ hc)

end Source

end ScriptCheck
