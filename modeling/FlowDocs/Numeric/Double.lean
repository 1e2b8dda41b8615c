/-
  FlowDocs/Numeric/Double.lean
  ============================
  **Doubles as exact numbers.**

  A finite double is plus or minus a natural number times a power of two.
  `Dyadic` is that number, `dyadic?` reads it off a double and `Dyadic.toFloat`
  packs it again, rounding to nearest when it does not fit.  The two questions
  the expression language puts to a double that arithmetic alone does not answer
  — which integer is it, and what remains after dividing by another — are
  answered on the exact number, so nothing in them rounds.
-/

namespace FlowDocs.Numeric

open Float.Model (UnpackedFloat Format)

/-- The number `± mantissa · 2 ^ exponent`. -/
structure Dyadic where
  negative : Bool
  mantissa : Nat
  exponent : Int
deriving DecidableEq, Repr

/-- The exact value of a finite double; `none` for the infinities and for a
    result that is not a number. -/
def dyadic? (x : Float) : Option Dyadic :=
  match x.toModel.unpack with
  | .finite sign mantissa exponent _ => some ⟨sign == .negative, mantissa, exponent⟩
  | .zero sign => some ⟨sign == .negative, 0, 0⟩
  | .infinity _ => none
  | .notANumber => none

namespace Dyadic

/-- The double nearest to the number; a tie goes to the even mantissa. -/
def toFloat (d : Dyadic) : Float :=
  let sign : UnpackedFloat.Sign := if d.negative then .negative else .positive
  if d.mantissa = 0 then .ofModel (.pack (.zero sign))
  else .ofModel (.pack (UnpackedFloat.round .binary64 sign d.mantissa d.exponent))

/-- The mantissa once the exponent has been lowered to `e`. -/
def mantissaAt (d : Dyadic) (e : Int) : Nat := d.mantissa <<< (d.exponent - e).toNat

def integer? (d : Dyadic) : Option Int :=
  let magnitude? : Option Nat :=
    if 0 ≤ d.exponent then some (d.mantissa <<< d.exponent.toNat)
    else
      let scale := 1 <<< (-d.exponent).toNat
      if d.mantissa % scale = 0 then some (d.mantissa / scale) else none
  magnitude?.map fun (n : Nat) => if d.negative then -(n : Int) else (n : Int)

/-- What remains of `a` after taking away whole multiples of `b`: it has the sign
    of `a` and a magnitude below that of `b`. -/
def remainder (a b : Dyadic) : Dyadic :=
  let e := min a.exponent b.exponent
  ⟨a.negative, a.mantissaAt e % b.mantissaAt e, e⟩

end Dyadic

def integer? (x : Float) : Option Int := (dyadic? x).bind Dyadic.integer?

/-- The remainder of a division truncated toward zero.  It is exact; dividing by
    an infinity leaves a finite `x` as it is, and dividing by zero or dividing an
    infinity leaves nothing that is a number. -/
def remainder (x y : Float) : Float :=
  match dyadic? x, dyadic? y with
  | some a, some b => if b.mantissa = 0 then 0.0 / 0.0 else (a.remainder b).toFloat
  | some _, none => if y.isNaN then y else x
  | none, _ => 0.0 / 0.0

example : integer? 3.0 = some 3 ∧ integer? 2.5 = none ∧ integer? (-0.0) = some 0 := by decide
example : remainder (-7.5) 2.0 = -1.5 ∧ remainder 5.5 0.5 = 0.0 := by decide

end FlowDocs.Numeric
