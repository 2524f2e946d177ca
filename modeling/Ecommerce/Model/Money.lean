import Mathlib.Algebra.Order.Floor.Ring
import Mathlib.Data.Rat.Floor

/-!
# Money

Amounts are stored as decimal currency units and computed with as integer cents. Amounts are
exact rationals here, so only the rounding the code asks for takes place.
-/

namespace Ecommerce

/-- An amount of money in cents. -/
abbrev Cents := ℤ

/-- `Math.round`: to the nearest integer, halves upwards. -/
def mathRound (x : ℚ) : ℤ := ⌊x + 1 / 2⌋

/-- `Number(x.toFixed(6))` for a non-negative `x`. -/
def toFixed6 (x : ℚ) : ℚ := mathRound (x * 1000000) / 1000000

/-- `Math.sign`. -/
def mathSign (x : ℚ) : ℤ := if x < 0 then -1 else if x = 0 then 0 else 1

/-- Converts a decimal amount to integer cents, rounding half away from zero. -/
def toCents (amount : ℚ) : Cents :=
  let scaled := toFixed6 (|amount| * 100)
  mathSign amount * mathRound scaled

def fromCents (cents : Cents) : ℚ := cents / 100

/-- Applies a percentage to an amount in cents, rounding to the nearest cent. -/
def percentOf (cents : Cents) (percent : ℚ) : Cents := mathRound (cents * percent / 100)

end Ecommerce
