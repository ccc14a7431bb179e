import VerilogExpr.Real.Binary

/-!
# Decimal text of reals

A real is written with the fewest decimal digits that identify it, always positionally: no
exponent, and no point unless digits follow it.

The reals that are nearer to a given one than to its neighbours form an interval.  The digits are
those of the coarsest decimal grid with a point in that interval; of two such points next to the
real the nearer one is taken, and of two equally near ones the one further from zero.
-/

namespace VerilogExpr.Real

/-- The magnitude `digits * 10 ^ exponent`. -/
structure Decimal where
  digits : Nat
  exponent : Int
deriving DecidableEq, Repr

namespace Binary

/-- A quarter of the unit of the significand, the measure in which the ends of the interval of a
real are integers. -/
def quarterExponent (b : Binary) : Int := b.exponent - 2

/-- The lower end of the interval of reals that identify `b`, in quarters. -/
def lowerEnd (b : Binary) : Nat :=
  if b.narrowBelow then 4 * b.significand - 1 else 4 * b.significand - 2

/-- The upper end of the interval of reals that identify `b`, in quarters. -/
def upperEnd (b : Binary) : Nat := 4 * b.significand + 2

/-- A number of quarters, in the unit that it shares with the steps of a decimal grid. -/
def scaled (b : Binary) (k : Int) (quarters : Nat) : Nat :=
  (quarters <<< b.quarterExponent.toNat) * Nat.pow 10 (-k).toNat

/-- A step of the grid of multiples of `10 ^ k`, in the unit that it shares with the quarters. -/
def gridStep (b : Binary) (k : Int) : Nat :=
  Nat.pow 10 k.toNat <<< (-b.quarterExponent).toNat

/-- Whether `digits * 10 ^ k` identifies `b`.  The ends belong to the interval of an even
significand. -/
def identifiedBy (b : Binary) (k : Int) (digits : Nat) : Bool :=
  let point := digits * b.gridStep k
  let lower := b.scaled k b.lowerEnd
  let upper := b.scaled k b.upperEnd
  if b.significand % 2 = 0 then lower ≤ point && point ≤ upper
  else lower < point && point < upper

/-- The point of the grid of multiples of `10 ^ k` that identifies `b`, if there is one. -/
def onGrid? (b : Binary) (k : Int) : Option Decimal :=
  let exact := b.scaled k (4 * b.significand)
  let below := exact / b.gridStep k
  let rest := exact % b.gridStep k
  let belowFits := b.identifiedBy k below
  let aboveFits := b.identifiedBy k (below + 1)
  if belowFits && (!aboveFits || decide (2 * rest < b.gridStep k)) then some ⟨below, k⟩
  else if aboveFits then some ⟨below + 1, k⟩
  else none

/-- The exact decimal value. -/
def exactDecimal (b : Binary) : Decimal :=
  if 0 ≤ b.exponent then ⟨b.significand <<< b.exponent.toNat, 0⟩
  else ⟨b.significand * Nat.pow 5 (-b.exponent).toNat, b.exponent⟩

/-- The first hit among the given number of grids, each ten times finer than the one before.  The
exact value is always at hand. -/
def searchGrids (b : Binary) : Nat → Int → Decimal
  | 0, _ => b.exactDecimal
  | grids + 1, k =>
    match b.onGrid? k with
    | some d => d
    | none => b.searchGrids grids (k - 1)

/-- A grid coarser than the real itself: three tenths bound the logarithm of two from below on
one side of zero and a third bounds it from above on the other. -/
def coarsestGrid (b : Binary) : Int :=
  let top := b.exponent + bitLength b.significand
  if 0 ≤ top then top / 3 + 1 else top * 3 / 10 + 1

/-- The shortest decimal that identifies a magnitude other than zero. -/
def shortest (b : Binary) : Decimal :=
  let finest := min b.exponent 0
  b.searchGrids (b.coarsestGrid - finest + 1).toNat b.coarsestGrid

end Binary

/-- The digits of a number, padded with leading zeros to the given length. -/
def padded (n length : Nat) : String :=
  let digits := toString n
  String.ofList (List.replicate (length - digits.length) '0') ++ digits

/-- Moves trailing zeros of the digits into the exponent, as far as the exponent is negative. -/
def Decimal.trimmed (digits : Nat) : Nat → Nat × Nat
  | 0 => (digits, 0)
  | places + 1 => if digits % 10 = 0 then trimmed (digits / 10) places else (digits, places + 1)

/-- A decimal without an exponent. -/
def Decimal.text (d : Decimal) : String :=
  if 0 ≤ d.exponent then toString (d.digits * Nat.pow 10 d.exponent.toNat)
  else
    match Decimal.trimmed d.digits (-d.exponent).toNat with
    | (digits, 0) => toString digits
    | (digits, places) =>
      toString (digits / Nat.pow 10 places) ++ "." ++ padded (digits % Nat.pow 10 places) places

/-- The text of a real.  Zero keeps its sign, and what is not a number has none. -/
def text (x : Float) : String :=
  if x.isNaN then "NaN"
  else
    (if isNegative x then "-" else "") ++
      match binary? x with
      | none => "inf"
      | some b => if b.significand = 0 then "0" else b.shortest.text

end VerilogExpr.Real
