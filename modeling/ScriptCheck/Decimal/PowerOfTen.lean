/-!
# Powers of ten in floating point

`powerOfTen n` squares its way to `10 ^ |n|` and takes the reciprocal for a negative `n`; each
product rounds, so the order of the products decides the last bits.
-/

namespace ScriptCheck

/-- `acc * base ^ n`, where `base` is squared once for each binary digit of `n`. -/
def raise (acc base : Float) (n : Nat) : Float :=
  let acc := if n % 2 = 1 then acc * base else acc
  if h : n / 2 = 0 then acc else raise acc (base * base) (n / 2)
termination_by n
decreasing_by omega

def powerOfTen (n : Int) : Float :=
  let power := raise 1 10 n.natAbs
  if n < 0 then 1 / power else power

end ScriptCheck
