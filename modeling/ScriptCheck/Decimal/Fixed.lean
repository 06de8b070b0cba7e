import ScriptCheck.Decimal.Shortest

/-!
# Doubles with a fixed number of places

`Binary64.fixed` rounds the exact value of a double to so many places behind the point. A half goes
to the even neighbour, and a number that rounds to zero keeps its sign.
-/

namespace ScriptCheck

/-- The whole number nearest to `n / d`, the even one of two. -/
def roundDiv (n d : Nat) : Nat :=
  let q := n / d
  let r := n % d
  if 2 * r < d then q else if d < 2 * r then q + 1 else q + q % 2

/-- `n` units of the last of `places` places. -/
def pointed (n places : Nat) : String :=
  let fraction := toString (n % Nat.pow 10 places)
  let zeros := String.ofList (List.replicate (places - fraction.length) '0')
  toString (n / Nat.pow 10 places) ++ "." ++ zeros ++ fraction

def Binary64.fixed (places : Nat) (x : Binary64) : String :=
  match x.value with
  | .nan => "NaN"
  | .infinite negative => signed negative "inf"
  | .finite negative m e =>
    let units := roundDiv (m * Nat.pow 10 places * Nat.pow 2 e.toNat) (Nat.pow 2 (-e).toNat)
    signed negative (pointed units places)

end ScriptCheck
