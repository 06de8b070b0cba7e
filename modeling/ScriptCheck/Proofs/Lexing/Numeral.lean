import ScriptCheck.Proofs.Lexing.Munch
import ScriptCheck.Proofs.Lexing.Width

/-!
# Numbers by their longest parts

A number is read from left to right, and reading stops as soon as a digit would take a value beyond
its limit. `Numeral.split` knows no limits: it takes the longest run of digits, of places behind a
point and of digits in an exponent. What becomes of a number is decided by these runs as a whole.
-/

namespace ScriptCheck

/-- What stands behind a mantissa: `e` or `E`, a sign or none, and digits, which may be missing. -/
structure Exponent where
  mark : Char
  sign : List Char
  digits : List Char

/-- The parts of what begins with a digit or a point. A fraction is a point and what digits follow
it. -/
structure Numeral where
  whole : List Char
  fraction : List Char
  exponent : Option Exponent

namespace Exponent

def spelling (e : Exponent) : List Char :=
  e.mark :: (e.sign ++ e.digits)

/-- The exponent at the head of a text, and what follows it. -/
def split? : List Char → Option (Exponent × List Char)
  | [] => none
  | c :: rest =>
    if c = 'e' ∨ c = 'E' then
      let (sign, rest) := Lexeme.splitSign rest
      some (⟨c, sign, rest.takeWhile Char.isDigit⟩, rest.dropWhile Char.isDigit)
    else none

/-- The mantissa with the exponent applied to it. -/
def scale (e : Exponent) (mantissa : Float) : Float :=
  mantissa * powerOfTen (Lexeme.exponentValue e.sign e.digits)

/-- What is wrong with a number that has the exponent. -/
def fault? (e : Exponent) (mantissa : Float) : Option Fault :=
  if e.digits = [] then some .missingExponentDigits
  else if maxExponent < decimalValue e.digits ∨ ¬ (e.scale mantissa).isFinite then
    some .exponentOverflow
  else none

end Exponent

namespace Numeral

def spelling (n : Numeral) : List Char :=
  n.whole ++ n.fraction ++ (n.exponent.map Exponent.spelling).getD []

/-- A point with the digits behind it, and what follows them. -/
def splitFraction : List Char → List Char × List Char
  | '.' :: rest => ('.' :: rest.takeWhile Char.isDigit, rest.dropWhile Char.isDigit)
  | rest => ([], rest)

/-- The parts of the number at the head of a text, and what follows it. -/
def split (text : List Char) : Numeral × List Char :=
  let whole := text.takeWhile Char.isDigit
  let (fraction, rest) := splitFraction (text.dropWhile Char.isDigit)
  match Exponent.split? rest with
  | some (e, rest) => (⟨whole, fraction, some e⟩, rest)
  | none => (⟨whole, fraction, none⟩, rest)

def mantissa (n : Numeral) : Float :=
  Lexeme.mantissaValue n.whole n.fraction

/-- The double that the number writes. -/
def value (n : Numeral) : Float :=
  match n.exponent with
  | some e => e.scale n.mantissa
  | none => n.mantissa

/-- What is wrong with the number, in the order in which it is looked for. -/
def fault? (n : Numeral) : Option Fault :=
  if maxInteger < decimalValue n.whole then some .integerOverflow
  else if n.whole = [] ∧ n.fraction.tail = [] then some .malformedNumber
  else n.exponent.bind (·.fault? n.mantissa)

/-- The token that the number is if nothing is wrong with it. -/
def content (n : Numeral) : TokenKind × Payload :=
  if n.fraction = [] ∧ n.exponent.isNone then (.integer, .integer (decimalValue n.whole))
  else (.real, .real (.ofFloat n.value))

end Numeral

variable {text rest taken : List Char} {limit value : Nat}

/-! ### Runs of digits -/

theorem decimalValue_zeros (k : Nat) (digits : List Char) :
    decimalValue (List.replicate k '0' ++ digits) = decimalValue digits := by
  induction k with
  | zero => rfl
  | succ k ih =>
    rw [← ih, List.replicate_succ, List.cons_append]
    rfl

/-- A run beyond the limit is left behind a digit. -/
theorem Digits.startsWithDigit_readOnto_of_lt (hv : value ≤ limit)
    (h : limit < (text.takeWhile Char.isDigit).foldl (fun n c => 10 * n + digitValue c) value) :
    startsWithDigit (readOnto limit value taken text).rest := by
  induction text generalizing value taken with
  | nil => exact absurd hv (Nat.not_le.2 h)
  | cons c text ih =>
    by_cases hc : c.isDigit
    · rw [List.takeWhile_cons, if_pos hc, List.foldl_cons] at h
      rw [readOnto]
      split
      · exact ih (by omega) h
      · exact hc
    · rw [List.takeWhile_cons, if_neg hc] at h
      exact absurd hv (Nat.not_le.2 h)

theorem Digits.startsWithDigit_read_of_lt
    (h : limit < decimalValue (text.takeWhile Char.isDigit)) :
    startsWithDigit (read limit text).rest :=
  startsWithDigit_readOnto_of_lt (Nat.zero_le limit) h

/-! ### Exponents -/

namespace Lexeme

variable {plain : TokenKind × Payload} {mantissa : Float} {e : Exponent}

theorem split?_eq_some (h : Exponent.split? text = some (e, rest)) :
    ∃ behind, text = e.mark :: behind ∧ (e.mark = 'e' ∨ e.mark = 'E') ∧
      e.sign = (splitSign behind).1 ∧ e.digits = (splitSign behind).2.takeWhile Char.isDigit ∧
      rest = (splitSign behind).2.dropWhile Char.isDigit := by
  cases text with
  | nil => cases h
  | cons c behind =>
    rw [Exponent.split?] at h
    split at h
    · rename_i hc
      obtain ⟨rfl, rfl⟩ := Prod.mk.inj (Option.some.inj h)
      exact ⟨behind, rfl, hc, rfl, rfl, rfl⟩
    · cases h

theorem scaled_of_split? (plain : TokenKind × Payload) (mantissa : Float) (taken : List Char)
    (h : Exponent.split? text = some (e, rest)) :
    ∃ behind, e.sign = (splitSign behind).1 ∧
      e.digits = (splitSign behind).2.takeWhile Char.isDigit ∧
      rest = (splitSign behind).2.dropWhile Char.isDigit ∧
      scaled plain mantissa taken text = scientific mantissa (taken ++ [e.mark]) behind := by
  obtain ⟨behind, rfl, hm, hs, hd, hr⟩ := split?_eq_some h
  refine ⟨behind, hs, hd, hr, ?_⟩
  rcases hm with hm | hm <;> rw [hm] <;> rfl

theorem scaled_of_split?_none (h : Exponent.split? text = none) :
    scaled plain mantissa taken text = ⟨.ok plain, taken, text⟩ := by
  rcases scaled_cases plain mantissa taken text with ⟨mark, rest, hm, rfl, -⟩ | ⟨-, hs⟩
  · rw [Exponent.split?, if_pos hm] at h
    cases h
  · exact hs

/-- Digits beyond the limit are too large whatever their value is. -/
theorem scientificContent_of_lt (mantissa : Float) (sign : List Char) {digits : List Char}
    (h : maxExponent < decimalValue (digits.takeWhile Char.isDigit)) :
    scientificContent mantissa sign (Digits.read maxExponent digits) =
      .error .exponentOverflow := by
  have hrest := Digits.startsWithDigit_read_of_lt h
  have hstart : startsWithDigit digits := by
    by_contra hd
    rw [(takeWhile_of_not_startsWithDigit (by simpa using hd)).1] at h
    cases h
  have hn : (Digits.read maxExponent digits).taken ≠ [] := Digits.taken_ne_nil (by decide) hstart
  rw [scientificContent, if_neg hn, if_pos (.inl hrest)]

/-- Within the limit all digits are read, and their value decides. -/
theorem scientificContent_of_le (mantissa : Float) {sign digits : List Char}
    (h : decimalValue (digits.takeWhile Char.isDigit) ≤ maxExponent)
    (hs : e.sign = sign) (hd : e.digits = digits.takeWhile Char.isDigit) :
    (∀ f, e.fault? mantissa = some f →
        scientificContent mantissa sign (Digits.read maxExponent digits) = .error f) ∧
      (e.fault? mantissa = none →
        scientificContent mantissa sign (Digits.read maxExponent digits) =
          .ok (.real, .real (.ofFloat (e.scale mantissa)))) := by
  have hvalue : scientificValue mantissa sign (Digits.read maxExponent digits) =
      e.scale mantissa := by
    rw [Digits.read_of_le h, Exponent.scale, hs, hd]
    rfl
  have htaken : (Digits.read maxExponent digits).taken = e.digits := by
    rw [Digits.read_of_le h, hd]
  have hrest : startsWithDigit (Digits.read maxExponent digits).rest = false := by
    rw [Digits.read_of_le h]
    exact startsWithDigit_dropWhile digits
  rw [← hd] at h
  simp only [scientificContent, Exponent.fault?, hvalue, htaken, hrest, Nat.not_lt.2 h]
  by_cases hn : e.digits = []
  · simp [hn]
  · by_cases hf : (e.scale mantissa).isFinite <;> simp [hn, hf]

/-- A number with an exponent is decided by all of the digits in it. -/
theorem scaled_exponent (h : Exponent.split? text = some (e, rest)) :
    (∀ f, e.fault? mantissa = some f → (scaled plain mantissa taken text).content = .error f) ∧
      (e.fault? mantissa = none → scaled plain mantissa taken text =
        ⟨.ok (.real, .real (.ofFloat (e.scale mantissa))), taken ++ e.spelling, rest⟩) := by
  obtain ⟨behind, hs, hd, rfl, hscaled⟩ := scaled_of_split? plain mantissa taken h
  rw [hscaled]
  rcases Nat.lt_or_ge maxExponent
    (decimalValue ((splitSign behind).2.takeWhile Char.isDigit)) with hv | hv
  · have hfault : e.fault? mantissa = some .exponentOverflow := by
      have hn : e.digits ≠ [] := by
        intro hn
        rw [← hd, hn] at hv
        cases hv
      rw [Exponent.fault?, if_neg hn, if_pos (.inl (hd ▸ hv))]
    have hc := scientificContent_of_lt mantissa (splitSign behind).1 hv
    simp [hfault, scientific, hc]
  · obtain ⟨herror, hok⟩ := scientificContent_of_le mantissa hv hs hd
    refine ⟨herror, fun hf => ?_⟩
    rw [scientific, hok hf, Digits.read_of_le hv, Exponent.spelling, hs, hd]
    simp

end Lexeme

/-! ### Numbers -/

namespace Numeral

variable {fraction : List Char} {f : Fault} {n : Numeral}

theorem splitFraction_cases (text : List Char) :
    (∃ r, text = '.' :: r ∧
        splitFraction text = ('.' :: r.takeWhile Char.isDigit, r.dropWhile Char.isDigit)) ∨
      (∀ r, text ≠ '.' :: r) ∧ splitFraction text = ([], text) := by
  unfold splitFraction
  split
  · exact .inl ⟨_, rfl, rfl⟩
  · exact .inr ⟨by assumption, rfl⟩

theorem number_of_lt (h : maxInteger < decimalValue (text.takeWhile Char.isDigit)) :
    (Lexeme.number text).content = .error .integerOverflow := by
  rw [Lexeme.number_of_overflow rfl (Digits.startsWithDigit_read_of_lt h)]

theorem number_of_empty (hv : decimalValue (text.takeWhile Char.isDigit) ≤ maxInteger)
    (hf : splitFraction (text.dropWhile Char.isDigit) = (fraction, rest))
    (hn : text.takeWhile Char.isDigit = [] ∧ fraction.tail = []) :
    (Lexeme.number text).content = .error .malformedNumber := by
  have hread := Digits.read_of_le hv
  rcases splitFraction_cases (text.dropWhile Char.isDigit) with ⟨r, hr, hs⟩ | ⟨hr, hs⟩
  · obtain ⟨rfl, rfl⟩ := Prod.mk.inj (hs.symm.trans hf)
    rw [Lexeme.number_of_lone_point hread hr hn]
  · rw [Lexeme.number_of_nothing hread (startsWithDigit_dropWhile text) hr hn.1]

theorem number_of_mantissa (hv : decimalValue (text.takeWhile Char.isDigit) ≤ maxInteger)
    (hf : splitFraction (text.dropWhile Char.isDigit) = (fraction, rest))
    (hn : ¬ (text.takeWhile Char.isDigit = [] ∧ fraction.tail = [])) :
    Lexeme.number text = Lexeme.scaled (Lexeme.plain (text.takeWhile Char.isDigit) fraction)
      (Lexeme.mantissaValue (text.takeWhile Char.isDigit) fraction)
      (text.takeWhile Char.isDigit ++ fraction) rest := by
  have hread := Digits.read_of_le hv
  rcases splitFraction_cases (text.dropWhile Char.isDigit) with ⟨r, hr, hs⟩ | ⟨hr, hs⟩
  · obtain ⟨rfl, rfl⟩ := Prod.mk.inj (hs.symm.trans hf)
    rw [Lexeme.number_of_point hread hr hn]
    rfl
  · obtain ⟨rfl, rfl⟩ := Prod.mk.inj (hs.symm.trans hf)
    have hwhole : text.takeWhile Char.isDigit ≠ [] := fun hw => hn ⟨hw, rfl⟩
    rw [Lexeme.number_of_not_point hread (startsWithDigit_dropWhile text) hr hwhole,
      List.append_nil]
    rfl

theorem split_cases (h : split text = (n, rest)) :
    n.whole = text.takeWhile Char.isDigit ∧ ∃ behind,
      splitFraction (text.dropWhile Char.isDigit) = (n.fraction, behind) ∧
      (n.exponent = none ∧ Exponent.split? behind = none ∧ rest = behind ∨
        ∃ e, n.exponent = some e ∧ Exponent.split? behind = some (e, rest)) := by
  rcases hf : splitFraction (text.dropWhile Char.isDigit) with ⟨fraction, behind⟩
  unfold split at h
  simp only [hf] at h
  split at h
  · rename_i e r he
    obtain ⟨rfl, rfl⟩ := Prod.mk.inj h
    exact ⟨rfl, behind, rfl, .inr ⟨e, rfl, he⟩⟩
  · rename_i he
    obtain ⟨rfl, rfl⟩ := Prod.mk.inj h
    exact ⟨rfl, behind, rfl, .inl ⟨rfl, he, rfl⟩⟩

theorem content_of_none (h : n.exponent = none) :
    n.content = Lexeme.plain n.whole n.fraction ∧ n.spelling = n.whole ++ n.fraction := by
  unfold content value mantissa spelling
  cases hf : n.fraction with
  | nil => simp [h, Lexeme.plain]
  | cons c places => simp [h, Lexeme.plain, Lexeme.mantissaValue]

theorem content_of_some {e : Exponent} (h : n.exponent = some e) :
    n.content = (.real, .real (.ofFloat (e.scale n.mantissa))) ∧
      n.spelling = n.whole ++ n.fraction ++ e.spelling := by
  simp [content, value, spelling, h]

/-- What becomes of a number is decided by its longest parts. -/
theorem number_of_split (h : split text = (n, rest)) :
    (∀ f, n.fault? = some f → (Lexeme.number text).content = .error f) ∧
      (n.fault? = none → Lexeme.number text = ⟨.ok n.content, n.spelling, rest⟩) := by
  obtain ⟨hw, behind, hf, he⟩ := split_cases h
  by_cases hv : maxInteger < decimalValue n.whole
  · simp [fault?, hv, number_of_lt (hw ▸ hv)]
  have hle : decimalValue (text.takeWhile Char.isDigit) ≤ maxInteger := hw ▸ Nat.not_lt.1 hv
  by_cases hn : n.whole = [] ∧ n.fraction.tail = []
  · simp [fault?, hn, number_of_empty hle hf (hw ▸ hn), decimalValue]
  have hnumber := number_of_mantissa hle hf (hw ▸ hn)
  rw [← hw] at hnumber
  have hfault : n.fault? = n.exponent.bind (·.fault? n.mantissa) := by
    rw [fault?, if_neg hv, if_neg hn]
  rw [hfault, hnumber]
  rcases he with ⟨hnone, he, rfl⟩ | ⟨e, hsome, he⟩
  · obtain ⟨hc, hs⟩ := content_of_none hnone
    rw [hnone, hc, hs, Lexeme.scaled_of_split?_none he]
    simp
  · obtain ⟨hc, hs⟩ := content_of_some hsome
    rw [hsome, hc, hs]
    exact Lexeme.scaled_exponent he

theorem split_append (h : split text = (n, rest)) : n.spelling ++ rest = text := by
  obtain ⟨hw, behind, hf, he⟩ := split_cases h
  have hfraction : n.fraction ++ behind = text.dropWhile Char.isDigit := by
    rcases splitFraction_cases (text.dropWhile Char.isDigit) with ⟨r, hr, hs⟩ | ⟨-, hs⟩
    · obtain ⟨hfr, rfl⟩ := Prod.mk.inj (hf.symm.trans hs)
      rw [hr, hfr, List.cons_append, List.takeWhile_append_dropWhile]
    · obtain ⟨hfr, rfl⟩ := Prod.mk.inj (hf.symm.trans hs)
      rw [hfr, List.nil_append]
  have hsplit : n.whole ++ n.fraction ++ behind = text := by
    rw [hw, List.append_assoc, hfraction, List.takeWhile_append_dropWhile]
  rcases he with ⟨hnone, -, rfl⟩ | ⟨e, hsome, he⟩
  · rw [(content_of_none hnone).2, hsplit]
  · obtain ⟨more, rfl, -, hs, hd, rfl⟩ := Lexeme.split?_eq_some he
    have hmore :
        e.sign ++ (e.digits ++ (Lexeme.splitSign more).2.dropWhile Char.isDigit) = more := by
      rw [hs, hd, List.takeWhile_append_dropWhile, Lexeme.splitSign_append]
    rw [(content_of_some hsome).2, ← hsplit, Exponent.spelling]
    simp [hmore]

end Numeral

/-! ### Reading a number -/

namespace Source

variable {s s' : Source} {n : Numeral} {f : Fault}

/-- Reading on is answered with the fault. -/
def Reports (s : Source) (f : Fault) : Prop :=
  ∃ e s', s.lex = (.error e, s') ∧ e.fault = f

theorem reports_iff : s.Reports f ↔ (Lexeme.read s.skipGap.rest).content = .error f := by
  constructor
  · rintro ⟨e, s', hl, rfl⟩
    exact (lex_eq_fault hl).1
  · intro h
    unfold Reports lex readToken
    simp only [h]
    exact ⟨_, _, rfl, rfl⟩

theorem read_skipGap (h : startsWithDigit s.skipGap.rest ∨ s.skipGap.rest.head? = some '.') :
    Lexeme.read s.skipGap.rest = Lexeme.number s.skipGap.rest := by
  cases hr : s.skipGap.rest with
  | nil =>
    rw [hr] at h
    simp [startsWithDigit] at h
  | cons c r =>
    rw [hr] at h
    exact Lexeme.read_eq_number (by simpa [startsWithDigit] using h) r

theorem reports_iff_fault?
    (h : startsWithDigit s.skipGap.rest ∨ s.skipGap.rest.head? = some '.')
    (hn : Numeral.split s.skipGap.rest = (n, rest)) : s.Reports f ↔ n.fault? = some f := by
  obtain ⟨herror, hok⟩ := Numeral.number_of_split hn
  rw [reports_iff, read_skipGap h]
  constructor
  · intro hf
    cases hfault : n.fault? with
    | none =>
      rw [hok hfault] at hf
      cases hf
    | some g => exact congrArg some (Except.error.inj ((herror g hfault).symm.trans hf))
  · exact herror f

theorem lex_of_split (h : startsWithDigit s.skipGap.rest ∨ s.skipGap.rest.head? = some '.')
    (hn : Numeral.split s.skipGap.rest = (n, rest)) (hf : n.fault? = none) :
    s.lex = (.ok ⟨n.content.1, n.content.2, s.skipGap.location⟩,
      s.skipGap.advance n.spelling rest) := by
  unfold lex readToken
  rw [read_skipGap h, (Numeral.number_of_split hn).2 hf]

end Source

namespace Numeral

variable {n : Numeral}

/-- The digits in front of the point write too large an integer. -/
def IntegerTooLarge (n : Numeral) : Prop :=
  maxInteger < decimalValue n.whole

/-- There are no digits on either side of the point. -/
def LacksDigits (n : Numeral) : Prop :=
  n.whole = [] ∧ n.fraction.tail = []

/-- There is an exponent without digits. -/
def LacksExponent (n : Numeral) : Prop :=
  ∃ e, n.exponent = some e ∧ e.digits = []

/-- There is an exponent that is too large itself, or makes the number too large. -/
def ExponentTooLarge (n : Numeral) : Prop :=
  ∃ e, n.exponent = some e ∧
    (maxExponent < decimalValue e.digits ∨ ¬ (e.scale n.mantissa).isFinite)

theorem fault?_of_exponent (hv : ¬ n.IntegerTooLarge) (hn : ¬ n.LacksDigits) :
    n.fault? = n.exponent.bind (·.fault? n.mantissa) := by
  unfold IntegerTooLarge at hv
  unfold LacksDigits at hn
  rw [fault?, if_neg hv, if_neg hn]

/-- Of several faults the one furthest to the left is found. -/
theorem fault?_cases (n : Numeral) :
    n.IntegerTooLarge ∧ n.fault? = some .integerOverflow ∨
      ¬ n.IntegerTooLarge ∧ n.LacksDigits ∧ n.fault? = some .malformedNumber ∨
      ¬ n.IntegerTooLarge ∧ ¬ n.LacksDigits ∧ n.LacksExponent ∧
        n.fault? = some .missingExponentDigits ∨
      ¬ n.IntegerTooLarge ∧ ¬ n.LacksDigits ∧ ¬ n.LacksExponent ∧ n.ExponentTooLarge ∧
        n.fault? = some .exponentOverflow ∨
      ¬ n.IntegerTooLarge ∧ ¬ n.LacksDigits ∧ ¬ n.LacksExponent ∧ ¬ n.ExponentTooLarge ∧
        n.fault? = none := by
  by_cases hv : n.IntegerTooLarge
  · exact .inl ⟨hv, if_pos hv⟩
  by_cases hn : n.LacksDigits
  · exact .inr (.inl ⟨hv, hn, (if_neg hv).trans (if_pos hn)⟩)
  have hfault := fault?_of_exponent hv hn
  by_cases hd : n.LacksExponent
  · obtain ⟨e, he, hdigits⟩ := id hd
    rw [he, Option.bind_some, Exponent.fault?, if_pos hdigits] at hfault
    exact .inr (.inr (.inl ⟨hv, hn, hd, hfault⟩))
  have hdigits {e : Exponent} (he : n.exponent = some e) : e.digits ≠ [] := fun h => hd ⟨e, he, h⟩
  by_cases hx : n.ExponentTooLarge
  · obtain ⟨e, he, hlarge⟩ := id hx
    rw [he, Option.bind_some, Exponent.fault?, if_neg (hdigits he), if_pos hlarge] at hfault
    exact .inr (.inr (.inr (.inl ⟨hv, hn, hd, hx, hfault⟩)))
  · refine .inr (.inr (.inr (.inr ⟨hv, hn, hd, hx, ?_⟩)))
    rw [hfault]
    cases he : n.exponent with
    | none => rfl
    | some e =>
      rw [Option.bind_some, Exponent.fault?, if_neg (hdigits he),
        if_neg fun hlarge => hx ⟨e, he, hlarge⟩]

theorem fault?_eq_none (hv : ¬ n.IntegerTooLarge) (hn : ¬ n.LacksDigits) (hd : ¬ n.LacksExponent)
    (hx : ¬ n.ExponentTooLarge) : n.fault? = none := by
  rcases n.fault?_cases with h | h | h | h | h
  · exact absurd h.1 hv
  · exact absurd h.2.1 hn
  · exact absurd h.2.2.1 hd
  · exact absurd h.2.2.2.1 hx
  · exact h.2.2.2.2

end Numeral

/-- Where a token begins with a digit or a point, the longest parts of a number decide what is read.
An integer that is too large is reported first, then a point without digits, an exponent without
digits, and an exponent that is too large or makes the number so. A number without these faults is
used up as a whole and is an integer if it has neither a point nor an exponent. Zeros in front make
no difference to a value, and 32 bits are enough for all of it. -/
theorem Source.number_exact {s : Source} {n : Numeral}
    (h : startsWithDigit s.skipGap.rest ∨ s.skipGap.rest.head? = some '.')
    (hn : Numeral.split s.skipGap.rest = (n, rest)) :
    n.spelling ++ rest = s.skipGap.rest ∧
      (s.Reports .integerOverflow ↔ n.IntegerTooLarge) ∧
      (s.Reports .malformedNumber ↔ ¬ n.IntegerTooLarge ∧ n.LacksDigits) ∧
      (s.Reports .missingExponentDigits ↔
        ¬ n.IntegerTooLarge ∧ ¬ n.LacksDigits ∧ n.LacksExponent) ∧
      (s.Reports .exponentOverflow ↔
        ¬ n.IntegerTooLarge ∧ ¬ n.LacksDigits ∧ ¬ n.LacksExponent ∧ n.ExponentTooLarge) ∧
      (∀ e s', s.lex = (.error e, s') → e.fault ≠ .missingExponentDigits →
        e.location = s.skipGap.location) ∧
      (¬ n.IntegerTooLarge → ¬ n.LacksDigits → ¬ n.LacksExponent → ¬ n.ExponentTooLarge →
        s.lex = (.ok ⟨n.content.1, n.content.2, s.skipGap.location⟩,
          s.skipGap.advance n.spelling rest)) ∧
      (∀ k digits, decimalValue (List.replicate k '0' ++ digits) = decimalValue digits) ∧
      Digits32.Agrees Digits32.integerStep maxInteger ∧
      Digits32.Agrees Digits32.exponentStep maxExponent ∧
      ∀ sign digits, decimalValue digits ≤ maxExponent →
        in32 (Lexeme.exponentValue sign digits) = some (Lexeme.exponentValue sign digits) := by
  have hreports {f : Fault} : s.Reports f ↔ n.fault? = some f := reports_iff_fault? h hn
  refine ⟨Numeral.split_append hn, ?_, ?_, ?_, ?_, fun e s' hl he => (lex_eq_error hl he).1,
    fun hv hd hx hl => lex_of_split h hn (Numeral.fault?_eq_none hv hd hx hl), decimalValue_zeros,
    Digits32.isLimit_integerStep.agrees, Digits32.isLimit_exponentStep.agrees,
    fun _ _ => Digits32.in32_exponentValue⟩
  all_goals
    rw [hreports]
    rcases n.fault?_cases with ⟨hv, hf⟩ | ⟨hv, hd, hf⟩ | ⟨hv, hd, hx, hf⟩ | ⟨hv, hd, hx, hl, hf⟩ |
      ⟨hv, hd, hx, hl, hf⟩ <;> simp [*]

theorem Source.number_exact_zeros :
    let s : Source := ⟨"002147483648.5e".toList, .start⟩
    let n : Numeral := ⟨"002147483648".toList, ".5".toList, some ⟨'e', [], []⟩⟩
    startsWithDigit s.skipGap.rest ∧ Numeral.split s.skipGap.rest = (n, []) ∧
      n.IntegerTooLarge ∧ s.Reports .integerOverflow := by
  intro s n
  have hskip : s.skipGap = s := skipGap_of_none rfl
  have hstart : startsWithDigit s.skipGap.rest := by
    rw [hskip]
    rfl
  have hsplit : Numeral.split s.skipGap.rest = (n, []) := by
    rw [hskip]
    rfl
  have hlarge : n.IntegerTooLarge := by
    unfold Numeral.IntegerTooLarge
    decide
  exact ⟨hstart, hsplit, hlarge, (number_exact (.inl hstart) hsplit).2.1.2 hlarge⟩

end ScriptCheck
