import ScriptCheck.Proofs.Lexing.Lexemes

/-!
# The parts of a number

A number has a mantissa, which is digits with a point among them or not, and perhaps an exponent:
`e` or `E`, a sign that may be missing, and digits. Whatever is read as a number, or breaks off
inside one, is taken apart here into these parts.
-/

namespace ScriptCheck

variable {text digits rest : List Char} {c : Char}

/-! ### Runs of digits -/

theorem decimalValue_concat (digits : List Char) (c : Char) :
    decimalValue (digits ++ [c]) = 10 * decimalValue digits + digitValue c := by
  simp [decimalValue]

theorem digitValue_le (h : c.isDigit) : digitValue c ≤ 9 := by
  have hc := isDigit_iff.1 h
  have h0 : '0'.toNat = 48 := rfl
  unfold digitValue
  omega

theorem startsWithDigit_dropWhile (text : List Char) :
    startsWithDigit (text.dropWhile Char.isDigit) = false := by
  have h := List.head?_dropWhile_not Char.isDigit text
  unfold startsWithDigit
  cases hc : (text.dropWhile Char.isDigit).head? with
  | none => rfl
  | some c =>
    rw [hc] at h
    exact h

namespace Digits

variable {limit value : Nat} {taken : List Char}

theorem value_readOnto (hv : decimalValue taken.reverse = value) (hl : value ≤ limit) :
    (readOnto limit value taken text).value =
        decimalValue (readOnto limit value taken text).taken ∧
      (readOnto limit value taken text).value ≤ limit := by
  fun_induction readOnto limit value taken text with
  | case1 => exact ⟨hv.symm, hl⟩
  | case2 value taken c text hc ih =>
    refine ih ?_ hc.2
    rw [List.reverse_cons, decimalValue_concat, hv]
  | case3 => exact ⟨hv.symm, hl⟩

/-- The value of a run is that of the digits taken, and it stays within the limit. -/
theorem value_read (limit : Nat) (text : List Char) :
    (read limit text).value = decimalValue (read limit text).taken ∧
      (read limit text).value ≤ limit :=
  value_readOnto rfl (Nat.zero_le limit)

/-- A first digit is taken. -/
theorem taken_ne_nil (hl : 9 ≤ limit) (h : startsWithDigit text) :
    (read limit text).taken ≠ [] := by
  cases text with
  | nil => simp [startsWithDigit] at h
  | cons c text =>
    have hc : c.isDigit := h
    have hv : 10 * 0 + digitValue c ≤ limit := by
      have := digitValue_le hc
      omega
    have hr : read limit (c :: text) = readOnto limit (10 * 0 + digitValue c) [c] text := by
      rw [read, readOnto, if_pos ⟨hc, hv⟩]
    have happ := readOnto_append limit (10 * 0 + digitValue c) [c] text
    obtain ⟨digits, -, ht, -⟩ :=
      readOnto_append_of_not_startsWithDigit limit (10 * 0 + digitValue c) [c] text
    rw [hr]
    intro hn
    rw [hn] at happ
    have hlen := congrArg List.length happ
    have hlen' := congrArg List.length ht
    simp at hlen hlen'
    omega

end Digits

/-! ### Mantissas -/

/-- The digits in front of a point, and the point with the digits behind it, if there is one. -/
inductive IsMantissa : List Char → List Char → Prop
  | whole {whole : List Char} (hn : whole ≠ []) (hd : ∀ c ∈ whole, c.isDigit)
      (hv : decimalValue whole ≤ maxInteger) : IsMantissa whole []
  | point {whole places : List Char} (hn : whole ++ places ≠ []) (hd : ∀ c ∈ whole, c.isDigit)
      (hv : decimalValue whole ≤ maxInteger) (hp : ∀ c ∈ places, c.isDigit) :
      IsMantissa whole ('.' :: places)

/-- The exponent of a number may have a sign. -/
def IsSign (sign : List Char) : Prop :=
  sign = [] ∨ sign = ['+'] ∨ sign = ['-']

namespace Lexeme

/-- What a number without an exponent is. -/
def plain (whole : List Char) : List Char → TokenKind × Payload
  | [] => (.integer, .integer (decimalValue whole))
  | _ :: places => (.real, .real (.ofFloat (addPlaces (decimalValue whole) places)))

/-- The double that a mantissa writes. -/
def mantissaValue (whole fraction : List Char) : Float :=
  addPlaces (decimalValue whole) fraction.tail

/-- A number is a mantissa that may go on with an exponent. -/
theorem number_eq_scaled (text : List Char) :
    (∃ f, (number text).content = .error f ∧ (f = .integerOverflow ∨ f = .malformedNumber)) ∨
      ∃ whole fraction rest, IsMantissa whole fraction ∧ text = whole ++ fraction ++ rest ∧
        startsWithDigit rest = false ∧ (fraction = [] → rest.head? ≠ some '.') ∧
        number text = scaled (plain whole fraction) (mantissaValue whole fraction)
          (whole ++ fraction) rest := by
  have happ := Digits.read_append maxInteger text
  obtain ⟨hd, -⟩ := Digits.read_append_of_not_startsWithDigit maxInteger text
  obtain ⟨hv, hl⟩ := Digits.value_read maxInteger text
  generalize hw : Digits.read maxInteger text = whole at happ hd hv hl
  by_cases hs : startsWithDigit whole.rest
  · exact .inl ⟨.integerOverflow, by rw [number_of_overflow hw hs], .inl rfl⟩
  have hstop : startsWithDigit whole.rest = false := by simpa using hs
  by_cases hp : ∃ r, whole.rest = '.' :: r
  · obtain ⟨r, hp⟩ := hp
    by_cases hn : whole.taken = [] ∧ r.takeWhile Char.isDigit = []
    · exact .inl ⟨.malformedNumber, by rw [number_of_lone_point hw hp hn], .inr rfl⟩
    · right
      refine ⟨whole.taken, '.' :: r.takeWhile Char.isDigit, r.dropWhile Char.isDigit,
        .point ?_ hd (hv ▸ hl) fun c hc => List.mem_takeWhile_imp hc, ?_, ?_, by simp, ?_⟩
      · simpa using hn
      · simp [← happ, hp]
      · exact startsWithDigit_dropWhile r
      · rw [number_of_point hw hp hn, hv]
        rfl
  · have hp (r : List Char) : whole.rest ≠ '.' :: r := fun hr => hp ⟨r, hr⟩
    by_cases hn : whole.taken = []
    · exact .inl ⟨.malformedNumber, by rw [number_of_nothing hw hstop hp hn], .inr rfl⟩
    · right
      refine ⟨whole.taken, [], whole.rest, .whole hn hd (hv ▸ hl), ?_, hstop, ?_, ?_⟩
      · simp [happ]
      · rintro - hr
        obtain ⟨r, hr⟩ := List.head?_eq_some_iff.1 hr
        exact hp r hr
      · rw [number_of_not_point hw hstop hp hn, hv]
        simp [plain, mantissaValue, addPlaces]

/-- Something of a number is used up in any case. -/
theorem number_ne_nil (h : startsWithDigit text ∨ text.head? = some '.') :
    (number text).taken ≠ [] := by
  have happ := Digits.read_append maxInteger text
  have hne (hs : startsWithDigit text) : (Digits.read maxInteger text).taken ≠ [] :=
    Digits.taken_ne_nil (by decide) hs
  unfold number
  dsimp only
  split
  · rename_i hs
    refine hne (h.resolve_right fun hp => ?_)
    obtain ⟨r, rfl⟩ := List.head?_eq_some_iff.1 hp
    simp [Digits.read, Digits.readOnto, startsWithDigit] at hs
  · split
    · split
      · simp
      · exact scaled_ne_nil (by simp)
    · rename_i hp
      have hn : (Digits.read maxInteger text).taken ≠ [] := by
        refine hne (h.resolve_right fun hp' => ?_)
        obtain ⟨r, rfl⟩ := List.head?_eq_some_iff.1 hp'
        exact hp r rfl
      rw [if_neg hn]
      exact scaled_ne_nil hn

/-- A mantissa goes on behind an `e`, or is all of the number. -/
theorem scaled_cases (content : TokenKind × Payload) (mantissa : Float) (taken text : List Char) :
    (∃ mark rest, (mark = 'e' ∨ mark = 'E') ∧ text = mark :: rest ∧
        scaled content mantissa taken text = scientific mantissa (taken ++ [mark]) rest) ∨
      (∀ c ∈ text.head?, c ≠ 'e' ∧ c ≠ 'E') ∧
        scaled content mantissa taken text = ⟨.ok content, taken, text⟩ := by
  unfold scaled
  split
  · rename_i rest
    exact .inl ⟨'e', rest, .inl rfl, rfl, rfl⟩
  · rename_i rest
    exact .inl ⟨'E', rest, .inr rfl, rfl, rfl⟩
  · rename_i he hE
    refine .inr ⟨?_, rfl⟩
    intro c hc
    obtain ⟨rest, rfl⟩ := List.head?_eq_some_iff.1 hc
    constructor
    · rintro rfl
      exact he rest rfl
    · rintro rfl
      exact hE rest rfl

theorem isSign_splitSign (text : List Char) : IsSign (splitSign text).1 := by
  unfold splitSign IsSign
  split <;> simp

/-- The number that the sign and the digits of an exponent write. -/
def exponentValue (sign digits : List Char) : Int :=
  if sign = ['-'] then -decimalValue digits else decimalValue digits

/-- An exponent lacks its digits, is too large, or ends the number. -/
theorem scientific_cases (mantissa : Float) (taken text : List Char) :
    ∃ sign digits rest, IsSign sign ∧ text = sign ++ digits ++ rest ∧
      (∀ c ∈ digits, c.isDigit) ∧ decimalValue digits ≤ maxExponent ∧
      (scientific mantissa taken text).taken = taken ++ sign ++ digits ∧
      (scientific mantissa taken text).rest = rest ∧
      ((scientific mantissa taken text).content = .error .missingExponentDigits ∧ digits = [] ∧
          startsWithDigit rest = false ∨
        (scientific mantissa taken text).content = .error .exponentOverflow ∧ digits ≠ [] ∨
        (scientific mantissa taken text).content =
            .ok (.real, .real (.ofFloat (mantissa * powerOfTen (exponentValue sign digits)))) ∧
          digits ≠ [] ∧ startsWithDigit rest = false ∧
          (mantissa * powerOfTen (exponentValue sign digits)).isFinite) := by
  have happ := Digits.read_append maxExponent (splitSign text).2
  obtain ⟨hd, -⟩ := Digits.read_append_of_not_startsWithDigit maxExponent (splitSign text).2
  obtain ⟨hv, hl⟩ := Digits.value_read maxExponent (splitSign text).2
  refine ⟨(splitSign text).1, (Digits.read maxExponent (splitSign text).2).taken,
    (Digits.read maxExponent (splitSign text).2).rest, isSign_splitSign text, ?_, hd, hv ▸ hl,
    rfl, rfl, ?_⟩
  · rw [List.append_assoc, happ, splitSign_append]
  · have hvalue (sign : List Char) :
        scientificValue mantissa sign (Digits.read maxExponent (splitSign text).2) =
          mantissa * powerOfTen (exponentValue sign
            (Digits.read maxExponent (splitSign text).2).taken) := by
      rw [scientificValue, exponentValue, hv]
    unfold scientific scientificContent
    dsimp only
    rw [hvalue]
    by_cases hn : (Digits.read maxExponent (splitSign text).2).taken = []
    · left
      rw [if_pos hn]
      refine ⟨rfl, hn, ?_⟩
      rw [hn, List.nil_append] at happ
      rw [happ]
      by_contra hs
      exact Digits.taken_ne_nil (by decide) (by simpa using hs) hn
    · right
      rw [if_neg hn]
      split
      · exact .inl ⟨rfl, hn⟩
      · rename_i hf
        obtain ⟨hs, hf⟩ := not_or.1 hf
        exact .inr ⟨rfl, hn, by simpa using hs, by simpa using hf⟩

/-- All that can become of a number: it breaks off in its mantissa, is a mantissa alone, or has an
exponent that lacks its digits, is too large, or ends the number. -/
theorem number_cases (text : List Char) :
    (∃ f, (number text).content = .error f ∧ (f = .integerOverflow ∨ f = .malformedNumber)) ∨
      ∃ whole fraction rest, IsMantissa whole fraction ∧ text = whole ++ fraction ++ rest ∧
        startsWithDigit rest = false ∧ (fraction = [] → rest.head? ≠ some '.') ∧
        ((∀ c ∈ rest.head?, c ≠ 'e' ∧ c ≠ 'E') ∧
            number text = ⟨.ok (plain whole fraction), whole ++ fraction, rest⟩ ∨
          ∃ mark sign digits rest', (mark = 'e' ∨ mark = 'E') ∧ IsSign sign ∧
            rest = mark :: (sign ++ (digits ++ rest')) ∧ (∀ c ∈ digits, c.isDigit) ∧
            decimalValue digits ≤ maxExponent ∧
            (number text).taken = whole ++ fraction ++ [mark] ++ sign ++ digits ∧
            (number text).rest = rest' ∧
            ((number text).content = .error .missingExponentDigits ∧ digits = [] ∧
                startsWithDigit rest' = false ∨
              (number text).content = .error .exponentOverflow ∧ digits ≠ [] ∨
              (number text).content = .ok (.real, .real (.ofFloat
                  (mantissaValue whole fraction * powerOfTen (exponentValue sign digits)))) ∧
                digits ≠ [] ∧ startsWithDigit rest' = false ∧
                (mantissaValue whole fraction *
                  powerOfTen (exponentValue sign digits)).isFinite)) := by
  rcases number_eq_scaled text with hf | ⟨whole, fraction, rest, hm, htext, hd, hp, hn⟩
  · exact .inl hf
  refine .inr ⟨whole, fraction, rest, hm, htext, hd, hp, ?_⟩
  rw [hn]
  rcases scaled_cases (plain whole fraction) (mantissaValue whole fraction) (whole ++ fraction)
    rest with ⟨mark, rest', he, rfl, hs⟩ | ⟨he, hs⟩
  · rw [hs]
    obtain ⟨sign, digits, rest'', hsign, rfl, hdigits, hv, htaken, hrest, hc⟩ :=
      scientific_cases (mantissaValue whole fraction) (whole ++ fraction ++ [mark]) rest'
    exact .inr ⟨mark, sign, digits, rest'', he, hsign, by rw [List.append_assoc], hdigits, hv,
      htaken, hrest, hc⟩
  · exact .inl ⟨he, hs⟩

end Lexeme

end ScriptCheck
