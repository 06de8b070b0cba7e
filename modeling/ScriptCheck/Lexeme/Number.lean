import ScriptCheck.Decimal.PowerOfTen
import ScriptCheck.Lexeme.Basic
import ScriptCheck.Lexeme.Digits

/-!
# Number lexemes

A number has digits, a point and digits, or both, and then perhaps an exponent: `e` or `E`, a sign
and digits. Without point and exponent it is an integer. The faults are looked for from left to
right, so an integer part beyond the limit is reported even in front of a point.
-/

namespace ScriptCheck.Lexeme

/-- Adds the digits behind a point to a whole number, each a tenth of the place before. -/
def addPlaces (whole : Nat) (places : List Char) : Float :=
  (places.foldl (fun (value, scale) c =>
    let scale := scale * 0.1
    (value + Float.ofNat (digitValue c) * scale, scale)) (Float.ofNat whole, (1.0 : Float))).1

/-- A sign, which may be missing, and what follows it. -/
def splitSign : List Char → List Char × List Char
  | '+' :: rest => (['+'], rest)
  | '-' :: rest => (['-'], rest)
  | text => ([], text)

@[simp] theorem splitSign_append (text : List Char) :
    (splitSign text).1 ++ (splitSign text).2 = text := by
  unfold splitSign; split <;> rfl

/-- The double `mantissa * 10 ^ n`, where `n` is given by a sign and a run of digits. -/
def scientificValue (mantissa : Float) (sign : List Char) (digits : Digits) : Float :=
  mantissa * powerOfTen (if sign = ['-'] then -digits.value else digits.value)

/-- What the digits of an exponent make of a number. -/
def scientificContent (mantissa : Float) (sign : List Char) (digits : Digits) :
    Except Fault (TokenKind × Payload) :=
  let value := scientificValue mantissa sign digits
  if digits.taken = [] then .error .missingExponentDigits
  else if startsWithDigit digits.rest ∨ !value.isFinite then .error .exponentOverflow
  else .ok (.real, .real (.ofFloat value))

/-- A number behind its `e`, with what is used up so far. -/
def scientific (mantissa : Float) (taken text : List Char) : Lexeme :=
  let sign := splitSign text
  let digits := Digits.read maxExponent sign.2
  ⟨scientificContent mantissa sign.1 digits, taken ++ sign.1 ++ digits.taken, digits.rest⟩

/-- A number that may go on with an exponent; `plain` is what it is without one. -/
def scaled (plain : TokenKind × Payload) (mantissa : Float) (taken : List Char) :
    List Char → Lexeme
  | 'e' :: rest => scientific mantissa (taken ++ ['e']) rest
  | 'E' :: rest => scientific mantissa (taken ++ ['E']) rest
  | rest => ⟨.ok plain, taken, rest⟩

/-- The number at the head of a text that begins with a digit or a point. -/
def number (text : List Char) : Lexeme :=
  let whole := Digits.read maxInteger text
  if startsWithDigit whole.rest then ⟨.error .integerOverflow, whole.taken, whole.rest⟩
  else
    match whole.rest with
    | '.' :: rest =>
      let places := rest.takeWhile Char.isDigit
      if whole.taken = [] ∧ places = [] then ⟨.error .malformedNumber, ['.'], rest⟩
      else
        let value := addPlaces whole.value places
        scaled (.real, .real (.ofFloat value)) value (whole.taken ++ '.' :: places)
          (rest.dropWhile Char.isDigit)
    | rest =>
      if whole.taken = [] then ⟨.error .malformedNumber, [], rest⟩
      else scaled (.integer, .integer whole.value) (Float.ofNat whole.value) whole.taken rest

/-! ### What a number uses up -/

@[simp] theorem scientific_append (mantissa : Float) (taken text : List Char) :
    (scientific mantissa taken text).taken ++ (scientific mantissa taken text).rest =
      taken ++ text := by
  simp only [scientific, List.append_assoc, Digits.read_append, splitSign_append]

@[simp] theorem scaled_append (plain : TokenKind × Payload) (mantissa : Float)
    (taken text : List Char) :
    (scaled plain mantissa taken text).taken ++ (scaled plain mantissa taken text).rest =
      taken ++ text := by
  unfold scaled
  split <;> simp

theorem number_append (text : List Char) :
    (number text).taken ++ (number text).rest = text := by
  have h := Digits.read_append maxInteger text
  unfold number
  dsimp only
  split
  · exact h
  · split
    · rename_i rest hr
      split
      · rename_i hn
        rw [hr, hn.1] at h
        exact h
      · rw [scaled_append, List.append_assoc, List.cons_append, List.takeWhile_append_dropWhile,
          ← hr, h]
    · split
      · rename_i hn
        rw [hn] at h
        exact h
      · rw [scaled_append, h]

theorem scientific_ne_nil {mantissa : Float} {taken text : List Char} (h : taken ≠ []) :
    (scientific mantissa taken text).taken ≠ [] := by
  simp [scientific, h]

theorem scaled_ne_nil {plain : TokenKind × Payload} {mantissa : Float} {taken text : List Char}
    (h : taken ≠ []) : (scaled plain mantissa taken text).taken ≠ [] := by
  unfold scaled
  split
  · exact scientific_ne_nil (by simp)
  · exact scientific_ne_nil (by simp)
  · exact h

theorem number_divides (text : List Char) : (number text).Divides text where
  append := number_append text
  ne_nil k p hx _ := by
    unfold number at hx ⊢
    dsimp only at hx ⊢
    split at hx
    · simp at hx
    · rename_i h₁
      rw [if_neg h₁]
      split at hx
      · split at hx
        · simp at hx
        · rename_i h₂
          simp only [if_neg h₂]
          exact scaled_ne_nil (by simp)
      · split at hx
        · simp at hx
        · rename_i h₂
          simp only [if_neg h₂]
          exact scaled_ne_nil h₂

end ScriptCheck.Lexeme
