import Ecommerce.Model.Coupons
import Ecommerce.Numbers.Binary64

/-!
# Money in double precision

The arithmetic on cents as the language does it: `utils/money.ts`, the pricing of a checkout and
`calculateDiscountCents`, with every operation rounded. What the schemas admit is a field of the lines and of
the coupons.
-/

namespace Ecommerce

namespace Doubles

open Numbers (Number Representable)

/-- `Math.round` -/
def mathRound : Number → Number
  | .finite q _ => .ofRat ⌊q + 1 / 2⌋
  | x => x

/-- `Math.abs` -/
def mathAbs : Number → Number
  | .finite q _ => .ofRat |q|
  | .infinity _ => .infinity false
  | .nan => .nan

/-- `Math.sign` -/
def mathSign : Number → Number
  | .finite q _ => .ofRat (Ecommerce.mathSign q)
  | .infinity negative => .ofRat (if negative then -1 else 1)
  | .nan => .nan

/-- `Number(x.toFixed(6))` for a non-negative `x`. From `10 ^ 21` on, `toFixed` writes the number itself. -/
def toFixed6 : Number → Number
  | .finite q h => if q < 10 ^ 21 then .ofRat (Ecommerce.toFixed6 q) else .finite q h
  | x => x

/-- Converts a decimal amount to integer cents, rounding half away from zero. -/
def toCents (amount : Number) : Number :=
  let scaled := toFixed6 ((mathAbs amount).mul (.ofRat 100))
  (mathSign amount).mul (mathRound scaled)

def fromCents (cents : Number) : Number := cents.div (.ofRat 100)

/-- Applies a percentage to an amount in cents, rounding to the nearest cent. -/
def percentOf (cents percent : Number) : Number := mathRound ((cents.mul percent).div (.ofRat 100))

/-- A money amount: non-negative, rounded to 2 decimals. -/
def money (value : Number) : Number := (mathRound (value.mul (.ofRat 100))).div (.ofRat 100)

/-- A line of a cart with its product's price, as `productSchema` and `cartItemSchema` admit them. -/
structure PricedLine where
  price : Number
  quantity : ℕ
  price_admitted : ∃ (value : ℚ) (h : Representable value), 0 ≤ value ∧ price = money (.finite value h)
  quantity_admitted : 1 ≤ quantity ∧ quantity ≤ 999

/-- What a coupon takes off, as `couponSchema` admits it. -/
structure CouponTerms where
  type : CouponType
  value : Number
  maxDiscount : Option Number
  value_admitted : ∃ q, value.value? = some q ∧ 0 ≤ q
  maxDiscount_admitted : ∀ m ∈ maxDiscount, ∃ q, m.value? = some q ∧ 0 ≤ q

/-! ## Pricing -/

/-- The subtotal with one more line. -/
def priceLine (subtotalCents : Number) (line : PricedLine) : Number :=
  let unitCents := toCents line.price
  subtotalCents.add (unitCents.mul (.ofRat line.quantity))

def subtotalCents (lines : List PricedLine) : Number := lines.foldl priceLine (.ofRat 0)

/-- The unit cents, line cents and subtotals that are computed on the way. -/
def lineAmounts (subtotalCents : Number) : List PricedLine → List Number
  | [] => []
  | line :: rest =>
    toCents line.price :: (toCents line.price).mul (.ofRat line.quantity) :: priceLine subtotalCents line ::
      lineAmounts (priceLine subtotalCents line) rest

/-! ## Discounts -/

def rawDiscountCents (coupon : CouponTerms) (subtotalCents : Number) : Number :=
  match coupon.type with
  | .percentage => percentOf subtotalCents coupon.value
  | .fixed => toCents coupon.value

/-- A maxDiscount of 0 is treated as "no cap". -/
def capCents (coupon : CouponTerms) (raw : Number) : Number :=
  ((coupon.maxDiscount.filter Number.truthy).map toCents).getD raw

/-- Discount in cents, never more than the subtotal or the coupon's cap. -/
def calculateDiscountCents (coupon : Option CouponTerms) (subtotalCents : Number) : Number :=
  match coupon with
  | none => .ofRat 0
  | some coupon =>
    let raw := rawDiscountCents coupon subtotalCents
    let cap := capCents coupon raw
    (Number.ofRat 0).max ((raw.min cap).min subtotalCents)

/-- A tenth off, up to five. -/
def tenthOff : CouponTerms where
  type := .percentage
  value := .ofRat 10
  maxDiscount := some (.ofRat 5)
  value_admitted := ⟨10, by decide +kernel, by norm_num⟩
  maxDiscount_admitted := by
    rintro m ⟨⟩
    exact ⟨5, by decide +kernel, by norm_num⟩

example : (calculateDiscountCents (some tenthOff) (.ofRat 1999)).value? = some 200 := by decide +kernel

/-- The amounts that `calculateDiscountCents` computes, and the product that a percentage is taken from. -/
def discountAmounts (subtotalCents : Number) : Option CouponTerms → List Number
  | none => [calculateDiscountCents none subtotalCents]
  | some coupon =>
    let raw := rawDiscountCents coupon subtotalCents
    (match coupon.type with
      | .percentage => [subtotalCents.mul coupon.value]
      | .fixed => []) ++
      [raw, capCents coupon raw, calculateDiscountCents (some coupon) subtotalCents]

/-- Every amount that the pricing of a checkout computes. -/
def amounts (lines : List PricedLine) (coupon : Option CouponTerms) : List Number :=
  lineAmounts (.ofRat 0) lines ++ discountAmounts (subtotalCents lines) coupon

end Doubles

end Ecommerce
