import Ecommerce.Effect.Collection
import Ecommerce.Model.Money
import Mathlib.Data.PNat.Basic

/-!
# Documents

The persisted shapes of `types/domain.ts` and `models/`, with the fields that the modelled
functions read or write. A quantity is positive by type, as the schemas demand of it.
-/

namespace Ecommerce

open Effect

/-- A document's `_id`. -/
abbrev ObjectId := Nat

/-- A `Date`, in milliseconds since the epoch. -/
abbrev Time := ℤ

inductive Role where
  | user | admin | seller
  deriving DecidableEq, Repr

inductive OrderStatus where
  | pending | confirmed | processing | shipped | delivered | cancelled
  | refundRequested | refunded
  deriving DecidableEq, Repr

inductive PaymentStatus where
  | unpaid | authorized | paid | failed | refunded
  deriving DecidableEq, Repr

inductive RefundStatus where
  | none | requested | approved | rejected | processed
  deriving DecidableEq, Repr

inductive ReservationStatus where
  | reserved | committed | released | expired
  deriving DecidableEq, Repr

inductive ShipmentStatus where
  | pending | labelCreated | inTransit | delivered | failed
  deriving DecidableEq, Repr

inductive CouponType where
  | percentage | fixed
  deriving DecidableEq, Repr

/-- The `type` of a payment webhook. -/
inductive WebhookType where
  | paymentSucceeded | paymentFailed | paymentRefunded
  deriving DecidableEq, Repr

/-- The domain events that carry an order's story. -/
inductive EventType where
  | orderCancelled | refundRequested
  | paymentCompleted | paymentFailed | paymentRefunded
  | shipmentUpdated
  deriving DecidableEq, Repr

structure Address where
  line1 : String
  line2 : Option String
  city : String
  state : String
  postalCode : String
  country : String
  deriving DecidableEq, Repr

structure Product where
  id : ObjectId
  tenant : String
  seller : Option ObjectId
  name : String
  price : ℚ
  stock : ℤ
  isActive : Bool
  deletedAt : Option Time
  deriving DecidableEq, Repr

-- Named, so that the numeral of a quantity carries no proof of its own.
instance neZero_one : NeZero (1 : ℕ) := ⟨one_ne_zero⟩
instance neZero_two : NeZero (2 : ℕ) := ⟨two_ne_zero⟩
instance neZero_three : NeZero (3 : ℕ) := ⟨three_ne_zero⟩
instance neZero_maxQuantity : NeZero (999 : ℕ) := ⟨by decide⟩

structure CartItem where
  product : ObjectId
  quantity : ℕ+
  deriving DecidableEq, Repr

/-- `version` is Mongoose's `__v`. -/
structure Cart where
  id : ObjectId
  user : ObjectId
  tenant : String
  items : List CartItem
  version : Nat
  deriving DecidableEq, Repr

structure OrderItem where
  product : ObjectId
  name : String
  price : ℚ
  quantity : ℕ+
  deriving DecidableEq, Repr

/-- An entry of `paymentStateHistory`. -/
structure PaymentTransition where
  fromStatus : PaymentStatus
  toStatus : PaymentStatus
  time : Time
  reason : WebhookType
  deriving DecidableEq, Repr

structure Order where
  id : ObjectId
  user : ObjectId
  tenant : String
  items : List OrderItem
  total : ℚ
  subtotal : ℚ
  discountTotal : ℚ
  coupon : Option ObjectId
  status : OrderStatus
  paymentStatus : PaymentStatus
  refundStatus : RefundStatus
  paymentProvider : String
  paymentReference : String
  paymentStateHistory : List PaymentTransition
  shippingAddress : Address
  deliveredAt : Option Time
  refundRequestedAt : Option Time
  refundReason : Option String
  cancelledAt : Option Time
  cancellationReason : Option String
  updatedAt : Time
  deriving DecidableEq, Repr

structure InventoryReservation where
  id : ObjectId
  user : ObjectId
  tenant : String
  order : Option ObjectId
  product : ObjectId
  quantity : ℕ+
  status : ReservationStatus
  expiresAt : Time
  deriving DecidableEq, Repr

structure Coupon where
  id : ObjectId
  tenant : String
  code : String
  type : CouponType
  value : ℚ
  maxDiscount : Option ℚ
  minOrderTotal : ℚ
  usageLimit : Nat
  perUserLimit : Nat
  usedCount : Nat
  startsAt : Option Time
  expiresAt : Option Time
  isActive : Bool
  deletedAt : Option Time
  deriving DecidableEq, Repr

structure CouponRedemption where
  coupon : ObjectId
  tenant : String
  user : ObjectId
  order : ObjectId
  deriving DecidableEq, Repr

/-- A provider webhook event; `signedDigest` is absent on rows older than the field. -/
structure PaymentEvent where
  provider : String
  eventId : String
  order : ObjectId
  type : WebhookType
  payloadHash : String
  signedDigest : Option String
  deriving DecidableEq, Repr

structure Tenant where
  key : String
  paymentProvider : Option String
  deriving DecidableEq, Repr

/-- `seller` is absent for an admin shipment of the whole order. -/
structure Shipment where
  order : ObjectId
  seller : Option ObjectId
  tenant : String
  status : ShipmentStatus
  updatedBy : ObjectId
  deriving DecidableEq, Repr

structure DomainEvent where
  type : EventType
  aggregateId : ObjectId
  tenant : String
  deriving DecidableEq, Repr

/-! ## Texts -/

/-- The text of an order status. -/
def OrderStatus.text : OrderStatus → String
  | .pending => "pending"
  | .confirmed => "confirmed"
  | .processing => "processing"
  | .shipped => "shipped"
  | .delivered => "delivered"
  | .cancelled => "cancelled"
  | .refundRequested => "refund_requested"
  | .refunded => "refunded"

/-- The text of a shipment status. -/
def ShipmentStatus.text : ShipmentStatus → String
  | .pending => "pending"
  | .labelCreated => "label_created"
  | .inTransit => "in_transit"
  | .delivered => "delivered"
  | .failed => "failed"

/-- The text of a payment status. -/
def PaymentStatus.text : PaymentStatus → String
  | .unpaid => "unpaid"
  | .authorized => "authorized"
  | .paid => "paid"
  | .failed => "failed"
  | .refunded => "refunded"

/-! ## Keys -/

instance : Keyed Product := ⟨Product.id⟩
instance : Keyed Cart := ⟨Cart.id⟩
instance : Keyed Order := ⟨Order.id⟩
instance : Keyed InventoryReservation := ⟨InventoryReservation.id⟩
instance : Keyed Coupon := ⟨Coupon.id⟩

/-- Units of the product are held for the customer. -/
def ReservationStatus.Active (s : ReservationStatus) : Prop := s = .reserved ∨ s = .committed

instance (s : ReservationStatus) : Decidable s.Active :=
  inferInstanceAs (Decidable (s = .reserved ∨ s = .committed))

def InventoryReservation.Active (r : InventoryReservation) : Prop := r.status.Active

instance (r : InventoryReservation) : Decidable r.Active := inferInstanceAs (Decidable r.status.Active)

end Ecommerce
