/-
  FlowDocs/Numeric/Shortest.lean
  ==============================
  **The fewest decimal digits that read back.**

  Every finite positive double is surrounded by an interval of reals that round
  to it; the ends belong to the interval when the mantissa is even, because ties
  go to even.  `shortest` looks at grids of 1, 2, … 17 significant digits.  On
  each grid only the two neighbours of the value can lie in the interval if any
  point does, so the first grid with a hit gives the fewest digits.  Of two hits
  the nearer wins, and of two equally near ones the even.
-/
import FlowDocs.Numeric.Double

namespace FlowDocs.Numeric

/-- The number `digits · 10 ^ exponent`. -/
structure Decimal where
  digits : Nat
  exponent : Int
deriving DecidableEq, Repr

/-- How often `num` has to be multiplied by ten before it reaches `den`. -/
def leadingZeros : Nat → Nat → Nat → Nat
  | 0, _, _ => 0
  | fuel + 1, num, den => if den ≤ num then 0 else leadingZeros fuel (num * 10) den + 1

/-- The power of ten at or below the positive fraction `num / den`. -/
def decimalExponent (num den : Nat) : Int :=
  if den ≤ num then ((Nat.toDigits 10 (num / den)).length : Int) - 1
  else -(leadingZeros (den.log2 + 1) num den : Int)

/-- The reals that round to a double, as numerators over a common denominator:
    the value itself, the two ends, and whether the ends belong. -/
structure Neighbourhood where
  low : Nat
  value : Nat
  high : Nat
  denominator : Nat
  closed : Bool
deriving DecidableEq, Repr

/-- The neighbourhood of `m · 2 ^ e` in the format with 53-bit mantissas.  Below a
    power of two the doubles are twice as dense, except at the very bottom. -/
def Neighbourhood.around (m : Nat) (e : Int) : Neighbourhood :=
  let low := if m = 1 <<< 52 ∧ -1074 < e then 4 * m - 1 else 4 * m - 2
  let up := (e - 2).toNat
  ⟨low <<< up, (4 * m) <<< up, (4 * m + 2) <<< up, 1 <<< (2 - e).toNat, m % 2 == 0⟩

/-- Whether the fraction `num / denominator` rounds to the double. -/
def Neighbourhood.contains (n : Neighbourhood) (num : Nat) : Bool :=
  if n.closed then n.low ≤ num && num ≤ n.high else n.low < num && num < n.high

def Neighbourhood.scale (n : Neighbourhood) (k : Nat) : Neighbourhood :=
  { n with low := n.low * k, value := n.value * k, high := n.high * k }

/-- The point of the grid of multiples of `10 ^ g` that reads back, if there is
    one: the nearer neighbour of the value, the even one on a tie. -/
def Neighbourhood.onGrid (n : Neighbourhood) (g : Int) : Option Decimal :=
  let n := n.scale (Nat.pow 10 (-g).toNat)
  let unit := n.denominator * Nat.pow 10 g.toNat
  let below := n.value / unit
  let remainder := n.value % unit
  let preferAbove := unit < 2 * remainder || (unit == 2 * remainder && below % 2 == 1)
  let candidates := if preferAbove then [below + 1, below] else [below, below + 1]
  (candidates.find? fun c => n.contains (c * unit)).map fun c => ⟨c, g⟩

/-- Remove the zeros at the end of the digits. -/
def Decimal.strip : Nat → Decimal → Decimal
  | 0, d => d
  | fuel + 1, d =>
    if d.digits ≠ 0 ∧ d.digits % 10 = 0 then Decimal.strip fuel ⟨d.digits / 10, d.exponent + 1⟩
    else d

/-- The shortest decimal that reads back as the positive double `m · 2 ^ e`. -/
def shortest (m : Nat) (e : Int) : Decimal :=
  let n := Neighbourhood.around m e
  let top := decimalExponent n.value n.denominator
  let hit? := (List.range 17).findSome? fun (i : Nat) => n.onGrid (top - i)
  (hit?.getD ⟨0, 0⟩).strip 20

example : shortest (1 <<< 52) (-52) = ⟨1, 0⟩ := by decide
example : shortest 1 (-1074) = ⟨5, -324⟩ := by decide +kernel
example : shortest 7205759403792794 (-56) = ⟨1, -1⟩ := by decide

end FlowDocs.Numeric
