import ScriptCheck.Decimal.Binary64

/-!
# The shortest decimal of a double

Among the decimals that read back as a given double, `Binary64.shortest` takes one with the fewest
digits, and of these the nearest to the double; of two at the same distance it takes the one away
from zero. It is written in positional notation, whatever its size.

The reals that round to `m * 2 ^ e` are those between the midpoints to the neighbouring doubles,
with the midpoints themselves exactly when `m` is even. The double below is half as far away when
`m` is a power of two and not the least one. In quarters of `2 ^ e` the three numbers are whole.
-/

namespace ScriptCheck

/-- An interval of reals around `middle`, all in units of `unit.1 / unit.2`. -/
structure Interval where
  low : Nat
  middle : Nat
  high : Nat
  closed : Bool
  unit : Nat × Nat

namespace Interval

/-- The reals that round to `m * 2 ^ e`. -/
def ofFinite (m : Nat) (e : Int) : Interval where
  low := if m = Nat.pow 2 52 ∧ e ≠ -1074 then 4 * m - 1 else 4 * m - 2
  middle := 4 * m
  high := 4 * m + 2
  closed := m % 2 = 0
  unit := (Nat.pow 2 (e - 2).toNat, Nat.pow 2 (2 - e).toNat)

/-- The number `n` of grid steps `10 ^ k`, compared with `x` units. -/
def compare (i : Interval) (n : Nat) (k : Int) (x : Nat) : Ordering :=
  Ord.compare (n * Nat.pow 10 k.toNat * i.unit.2) (x * i.unit.1 * Nat.pow 10 (-k).toNat)

def contains (i : Interval) (n : Nat) (k : Int) : Bool :=
  match i.compare n k i.low, i.compare n k i.high with
  | .gt, .lt => true
  | .eq, _ => i.closed
  | _, .eq => i.closed
  | _, _ => false

/-- The greatest number of grid steps `10 ^ k` up to the middle. -/
def below (i : Interval) (k : Int) : Nat :=
  (i.middle * i.unit.1 * Nat.pow 10 (-k).toNat) / (Nat.pow 10 k.toNat * i.unit.2)

/-- The point of the grid `10 ^ k` in the interval that is nearest to the middle. -/
def nearest? (i : Interval) (k : Int) : Option Nat :=
  let n := i.below k
  match i.contains n k, i.contains (n + 1) k with
  | false, false => none
  | true, false => some n
  | false, true => some (n + 1)
  | true, true =>
    -- twice the middle lies below the sum of the two neighbours
    if i.compare (2 * n + 1) k (2 * i.middle) = .gt then some n else some (n + 1)

end Interval

/-- A power of ten that is at least the tenth part of `m * 2 ^ e`. -/
def gridStart (m : Nat) (e : Int) : Int :=
  (m.log2 + e) * 30103 / 100000 + 1

/-- The shortest digits `n` and their grid `10 ^ k` for `m * 2 ^ e`. -/
def shortestDigits (m : Nat) (e : Int) : Nat × Int :=
  let i := Interval.ofFinite m e
  let top := gridStart m e
  let hit := (List.range 20).findSome? fun (j : Nat) =>
    let k := top - j
    (i.nearest? k).map (·, k)
  hit.getD (i.below (top - 19), top - 19)

/-! ### Positional notation -/

/-- `n * 10 ^ k` with a point where it is needed, and no zero behind the last digit after it. -/
def positional (n : Nat) (k : Int) : String :=
  if 0 ≤ k then
    if n = 0 then "0" else toString n ++ String.ofList (List.replicate k.toNat '0')
  else
    let places := (-k).toNat
    let digits := (toString n).toList
    let padded := List.replicate (places + 1 - digits.length) '0' ++ digits
    let whole := padded.take (padded.length - places)
    let fraction := ((padded.drop (padded.length - places)).reverse.dropWhile (· = '0')).reverse
    String.ofList (if fraction.isEmpty then whole else whole ++ '.' :: fraction)

/-- The sign of a number in front of its digits. -/
def signed (negative : Bool) (digits : String) : String :=
  if negative then "-" ++ digits else digits

/-- A double in as few digits as read back. -/
def Binary64.shortest (x : Binary64) : String :=
  match x.value with
  | .nan => "NaN"
  | .infinite negative => signed negative "inf"
  | .finite negative 0 _ => signed negative "0"
  | .finite negative m e =>
    let (n, k) := shortestDigits m e
    signed negative (positional n k)

end ScriptCheck
