/-!
# Runs of digits

A run of decimal digits is read for as long as its value stays within a limit. If a digit is left
behind, the value of the whole run lies beyond the limit.
-/

namespace ScriptCheck

def digitValue (c : Char) : Nat :=
  c.toNat - '0'.toNat

/-- The number that a run of digits writes in base ten. -/
def decimalValue (digits : List Char) : Nat :=
  digits.foldl (fun n c => 10 * n + digitValue c) 0

def startsWithDigit (text : List Char) : Bool :=
  text.head?.any Char.isDigit

structure Digits where
  value : Nat
  taken : List Char
  rest : List Char

namespace Digits

/-- Reads digits behind a run with the given value, kept in reverse. -/
def readOnto (limit value : Nat) (taken : List Char) : List Char → Digits
  | [] => ⟨value, taken.reverse, []⟩
  | c :: rest =>
    if c.isDigit ∧ 10 * value + digitValue c ≤ limit then
      readOnto limit (10 * value + digitValue c) (c :: taken) rest
    else ⟨value, taken.reverse, c :: rest⟩

def read (limit : Nat) (text : List Char) : Digits :=
  readOnto limit 0 [] text

theorem readOnto_append (limit value : Nat) (taken text : List Char) :
    (readOnto limit value taken text).taken ++ (readOnto limit value taken text).rest =
      taken.reverse ++ text := by
  fun_induction readOnto limit value taken text with
  | case1 => rfl
  | case2 value taken c rest h ih => simpa using ih
  | case3 => rfl

theorem read_append (limit : Nat) (text : List Char) :
    (read limit text).taken ++ (read limit text).rest = text := by
  simpa [read] using readOnto_append limit 0 [] text

end Digits

end ScriptCheck
