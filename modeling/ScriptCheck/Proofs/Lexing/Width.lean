import ScriptCheck.Proofs.Lexing.Number

/-!
# Runs of digits in 32 bits

A run of digits may be summed up in integers of 32 bits. The digits of a whole number are added with
a check of both operations, and the digits of an exponent without one: before each of them a
division tells whether there is room for it. Both ways stop in front of the digit that takes the
value beyond its limit, and nothing overflows that is not checked.
-/

namespace ScriptCheck

/-- The result of an operation in 32 bits, unless it overflows. -/
def in32 (n : Int) : Option Int :=
  if -2147483648 ≤ n ∧ n ≤ 2147483647 then some n else none

theorem in32_of_le {n : Int} (h : -2147483648 ≤ n) (h' : n ≤ 2147483647) : in32 n = some n :=
  if_pos ⟨h, h'⟩

theorem in32_of_lt {n : Int} (h : 2147483647 < n) : in32 n = none :=
  if_neg (by omega)

namespace Digits32

/-- What a digit behind a value leads to. -/
inductive Step
  | next (value : Int)
  | refuse
  | overflow

/-- The value with a digit behind it. -/
def push (value digit : Int) : Option Int :=
  (in32 (value * 10)).bind fun product => in32 (product + digit)

/-- A digit of a whole number, which is refused if it does not fit. -/
def integerStep (value digit : Int) : Step :=
  match push value digit with
  | some value => .next value
  | none => .refuse

/-- A digit of an exponent, for which there has to be room. -/
def exponentStep (value digit : Int) : Step :=
  match in32 (maxExponent - digit) with
  | none => .overflow
  | some room =>
    if room.tdiv 10 < value then .refuse
    else
      match push value digit with
      | some value => .next value
      | none => .overflow

/-- Reads digits behind a run with the given value, unless an operation overflows. -/
def readOnto (step : Int → Int → Step) (value : Int) (taken : List Char) :
    List Char → Option (Int × List Char × List Char)
  | [] => some (value, taken.reverse, [])
  | c :: rest =>
    if c.isDigit then
      match step value (digitValue c) with
      | .next value => readOnto step value (c :: taken) rest
      | .refuse => some (value, taken.reverse, c :: rest)
      | .overflow => none
    else some (value, taken.reverse, c :: rest)

def read (step : Int → Int → Step) (text : List Char) : Option (Int × List Char × List Char) :=
  readOnto step 0 [] text

/-- The step goes on as long as the value stays within a limit. -/
def IsLimit (step : Int → Int → Step) (limit : Nat) : Prop :=
  ∀ value digit : Nat, value ≤ limit → digit ≤ 9 →
    step value digit = if 10 * value + digit ≤ limit then .next (10 * value + digit) else .refuse

theorem push_eq {value digit : Nat} (h : 10 * value + digit ≤ maxInteger) :
    push value digit = some (10 * (value : Int) + digit) := by
  unfold maxInteger at h
  have hproduct : in32 ((value : Int) * 10) = some ((value : Int) * 10) :=
    in32_of_le (by omega) (by omega)
  rw [push, hproduct, Option.bind_some, in32_of_le (by omega) (by omega), Int.mul_comm]

theorem push_eq_none {value digit : Nat} (h : maxInteger < 10 * value + digit) :
    push value digit = none := by
  unfold maxInteger at h
  rw [push]
  by_cases hv : (value : Int) * 10 ≤ 2147483647
  · rw [in32_of_le (by omega) hv, Option.bind_some, in32_of_lt (by omega)]
  · rw [in32_of_lt (by omega), Option.bind_none]

theorem isLimit_integerStep : IsLimit integerStep maxInteger := by
  intro value digit _ _
  unfold integerStep
  split
  · rename_i v hv
    split
    · rw [push_eq ‹_›] at hv
      rw [Option.some.inj hv]
    · rw [push_eq_none (by omega)] at hv
      cases hv
  · rename_i hv
    split
    · rw [push_eq ‹_›] at hv
      cases hv
    · rfl

/-- There is room for a digit if and only if the value with it is within the limit. -/
theorem isLimit_exponentStep : IsLimit exponentStep maxExponent := by
  intro value digit hv hd
  have hroom : in32 ((maxExponent : Int) - digit) = some ((maxExponent : Int) - digit) :=
    in32_of_le (by simp only [maxExponent]; omega) (by simp only [maxExponent]; omega)
  have htdiv : ((maxExponent : Int) - digit).tdiv 10 = ((maxExponent : Int) - digit) / 10 :=
    Int.tdiv_eq_ediv_of_nonneg (by simp only [maxExponent]; omega)
  have hfits : ((maxExponent : Int) - digit) / 10 < value ↔ ¬ 10 * value + digit ≤ maxExponent := by
    simp only [maxExponent]
    omega
  simp only [exponentStep, hroom, htdiv]
  by_cases h : 10 * value + digit ≤ maxExponent
  · rw [if_neg (by rw [hfits]; omega), if_pos h,
      push_eq (Nat.le_trans h (by decide))]
  · rw [if_pos (hfits.2 h), if_neg h]

variable {step : Int → Int → Step} {limit value : Nat} {taken text : List Char}

theorem readOnto_eq (hs : IsLimit step limit) (hv : value ≤ limit) :
    readOnto step value taken text =
      some (((Digits.readOnto limit value taken text).value : Int),
        (Digits.readOnto limit value taken text).taken,
        (Digits.readOnto limit value taken text).rest) := by
  fun_induction Digits.readOnto limit value taken text with
  | case1 => rfl
  | case2 value taken c text hc ih =>
    have hstep := hs value (digitValue c) hv (digitValue_le hc.1)
    rw [if_pos hc.2] at hstep
    rw [readOnto, if_pos hc.1, hstep]
    exact_mod_cast ih hc.2
  | case3 value taken c text hc =>
    rw [readOnto]
    split
    · rename_i hd
      have hstep := hs value (digitValue c) hv (digitValue_le hd)
      rw [if_neg fun hl => hc ⟨hd, hl⟩] at hstep
      rw [hstep]
    · rfl

/-- In 32 bits nothing overflows, and the same digits are read with the same value. -/
def Agrees (step : Int → Int → Step) (limit : Nat) : Prop :=
  ∀ text, read step text = some (((Digits.read limit text).value : Int),
    (Digits.read limit text).taken, (Digits.read limit text).rest)

theorem IsLimit.agrees (hs : IsLimit step limit) : Agrees step limit :=
  fun _ => readOnto_eq hs (Nat.zero_le limit)

/-- The sign of an exponent does not take it out of range. -/
theorem in32_exponentValue {sign digits : List Char} (h : decimalValue digits ≤ maxExponent) :
    in32 (Lexeme.exponentValue sign digits) = some (Lexeme.exponentValue sign digits) := by
  unfold maxExponent at h
  unfold Lexeme.exponentValue
  split
  · exact in32_of_le (by omega) (by omega)
  · exact in32_of_le (by omega) (by omega)

end Digits32

end ScriptCheck
