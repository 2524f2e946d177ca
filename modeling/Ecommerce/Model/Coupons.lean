import Ecommerce.Model.Inventory

/-!
# Coupons

`services/couponService.ts`: the discount of a coupon and the checks a checkout makes before it
claims one.
-/

namespace Ecommerce

open Effect

/-- Discount in cents, never more than the subtotal or the coupon's cap. -/
def calculateDiscountCents (coupon : Option Coupon) (subtotalCents : Cents) : Cents :=
  match coupon with
  | none => 0
  | some coupon =>
    let raw := match coupon.type with
      | .percentage => percentOf subtotalCents coupon.value
      | .fixed => toCents coupon.value
    -- A maxDiscount of 0 is treated as "no cap".
    let cap := match coupon.maxDiscount with
      | some maxDiscount => if maxDiscount = 0 then raw else toCents maxDiscount
      | none => raw
    max 0 (min (min raw cap) subtotalCents)

/-- The coupon to apply, if any, and its discount. -/
structure CouponOutcome where
  coupon : Option Coupon
  discountCents : Cents
  deriving DecidableEq, Repr

/-- The checks on a coupon that need no further database call. -/
def checkCoupon (coupon : Coupon) (subtotalCents : Cents) (now : Time) : Except ApiError Unit :=
  if coupon.startsAt.any (now < ·) then
    .error (CustomeErrorHandler.badRequest "Coupon is not active yet")
  else if coupon.expiresAt.any (· < now) then
    .error (CustomeErrorHandler.badRequest "Coupon has expired")
  else if subtotalCents < toCents coupon.minOrderTotal then
    .error (CustomeErrorHandler.badRequest "Order total is too low for this coupon")
  else if coupon.usageLimit ≤ coupon.usedCount then
    .error (CustomeErrorHandler.badRequest "Coupon usage limit reached")
  else .ok ()

def validateCouponForUser (code : Option String) (userId : ObjectId) (subtotalCents : Cents)
    (tenant : String) (now : Time) : MongoM CouponOutcome :=
  match code.filter (· ≠ "") with
  | none => return ⟨none, 0⟩
  | some code => do
    match (← db (.couponFindOne code tenant) : Option Coupon) with
    | none => throw (CustomeErrorHandler.badRequest "Invalid coupon")
    | some coupon =>
      match checkCoupon coupon subtotalCents now with
      | .error e => throw e
      | .ok () =>
        let userUses : Nat ← db (.redemptionCount coupon.id userId)
        if coupon.perUserLimit ≤ userUses then
          throw (CustomeErrorHandler.badRequest "Coupon already used by this account")
        return ⟨some coupon, calculateDiscountCents (some coupon) subtotalCents⟩

end Ecommerce
