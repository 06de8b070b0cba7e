/-!
# Binary floating-point numbers

A double is kept as its 64 bits, so that two of them are equal exactly when they are the same
datum. `Binary64.value` reads the bits: a finite double is a whole number of some power of two.
-/

namespace ScriptCheck

structure Binary64 where
  bits : UInt64
deriving DecidableEq, Repr, Inhabited

namespace Binary64

def ofFloat (x : Float) : Binary64 :=
  ⟨x.toBits⟩

def zero : Binary64 := ⟨0⟩

/-- What the bits of a double stand for; `finite s m e` is `m * 2 ^ e`, negated if `s`. -/
inductive Value
  | nan
  | infinite (negative : Bool)
  | finite (negative : Bool) (significand : Nat) (exponent : Int)
deriving DecidableEq, Repr

def isNegative (x : Binary64) : Bool :=
  Nat.pow 2 63 ≤ x.bits.toNat

/-- The eleven bits of the exponent. -/
def biasedExponent (x : Binary64) : Nat :=
  x.bits.toNat / Nat.pow 2 52 % Nat.pow 2 11

/-- The fifty-two bits of the fraction. -/
def fraction (x : Binary64) : Nat :=
  x.bits.toNat % Nat.pow 2 52

def value (x : Binary64) : Value :=
  if x.biasedExponent = 2047 then
    if x.fraction = 0 then .infinite x.isNegative else .nan
  else if x.biasedExponent = 0 then .finite x.isNegative x.fraction (-1074)
  else .finite x.isNegative (Nat.pow 2 52 + x.fraction) (x.biasedExponent - 1075)

end Binary64

end ScriptCheck
