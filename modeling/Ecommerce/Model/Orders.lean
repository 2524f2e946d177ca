import Ecommerce.Model.Coupons

/-!
# Orders

`services/OrderService.ts` and `infrastructure/database/transaction.ts`: checkout with its
compensation, cancellation and refund requests, each as the calls it makes in order. Work handed
to `runInTransaction` is one step on a replica set and a sequence of calls on a standalone server.
-/

namespace Ecommerce

open Effect

/-- How MongoDB is deployed. Standalone servers reject transactions. -/
inductive Deployment where
  | replicaSet | standalone
  deriving DecidableEq, Repr

/-- A request handler: database calls and transactions. -/
abbrev Handler := Prog (Mongo.tx ApiError) ApiError

/-- Runs `work` inside a transaction when the deployment supports it, otherwise with no session.
The argument of `work` says whether there is a session. -/
def runInTransaction {α : Type} (deployment : Deployment) (work : Bool → MongoM α) : Handler α :=
  match deployment with
  | .replicaSet => Prog.perform (S := Mongo.tx ApiError) (.txn (work true))
  | .standalone => (work false).embed

/-- An authenticated request, with the user and the tenant the `auth` middleware attached. -/
structure AuthedRequest where
  user : ObjectId
  role : Role
  tenant : String
  deriving DecidableEq, Repr

/-! ## Checkout -/

structure CheckoutInput where
  shippingAddress : Address
  paymentProvider : String
  couponCode : Option String
  deriving DecidableEq, Repr

/-- The time limits of the configuration. -/
structure Limits where
  INVENTORY_RESERVATION_MINUTES : Nat
  REFUND_WINDOW_DAYS : Nat
  deriving DecidableEq, Repr

/-- Checkout steps. The list of undo calls, newest first, outlives an exception. -/
abbrev CheckoutM := ExceptT ApiError (StateT (List DbOp) (Prog Mongo ApiError))

/-- Steps that need no undo. -/
def attempt {α : Type} (p : MongoM α) : CheckoutM α := ExceptT.mk (StateT.lift p.attempt)

/-- `undo.push`. -/
def pushUndo (o : DbOp) : CheckoutM Unit := ExceptT.lift (modify (o :: ·))

/-- What the loop over the cart has collected. -/
structure CheckoutLines where
  orderItems : List OrderItem
  reservations : List InventoryReservation
  subtotalCents : Cents
  deriving DecidableEq, Repr

/-- Reserves the stock of one cart line. -/
def reserveItem (req : AuthedRequest) (expiresAt : Time) (item : CartItem) (acc : CheckoutLines) :
    CheckoutM CheckoutLines := do
  match (← attempt (db (.productReserve item.product req.tenant item.quantity)) : Option Product) with
  | none => throw (CustomeErrorHandler.badRequest "One or more products are unavailable or out of stock")
  | some product =>
    pushUndo (.productUnreserve product.id item.quantity)
    let reservation : InventoryReservation ← attempt (db (.reservationCreate
      ⟨req.user, req.tenant, product.id, item.quantity, expiresAt⟩))
    -- Stock is restored by the product undo above; the reservation just stops being active.
    pushUndo (.reservationUndo reservation.id)
    let unitCents := toCents product.price
    return {
      orderItems := acc.orderItems ++ [⟨product.id, product.name, fromCents unitCents, item.quantity⟩]
      reservations := acc.reservations ++ [reservation]
      subtotalCents := acc.subtotalCents + unitCents * (item.quantity : ℤ) }

/-- The loop over `cart.items`. -/
def reserveItems (req : AuthedRequest) (expiresAt : Time) :
    List CartItem → CheckoutLines → CheckoutM CheckoutLines
  | [], acc => return acc
  | item :: rest, acc => do
    let acc ← reserveItem req expiresAt item acc
    reserveItems req expiresAt rest acc

structure CheckoutResult where
  order : Order
  total : ℚ
  reservations : List InventoryReservation
  deriving DecidableEq, Repr

/-- Claims a use of the coupon, atomically with the check of its limit. -/
def claimCoupon (coupon : Coupon) : CheckoutM Unit := do
  let claimed : Bool ← attempt (db (.couponClaim coupon.id coupon.usageLimit))
  if claimed then pushUndo (.couponUnclaim coupon.id)
  else throw (CustomeErrorHandler.badRequest "Coupon usage limit reached")

/-- The `try` block of `executeCheckout`, once the cart has been read. -/
def placeOrder (limits : Limits) (req : AuthedRequest) (value : CheckoutInput) (now : Time)
    (cart : Cart) : CheckoutM CheckoutResult := do
  let expiresAt := now + limits.INVENTORY_RESERVATION_MINUTES * 60 * 1000
  let lines ← reserveItems req expiresAt cart.items ⟨[], [], 0⟩
  let outcome ← attempt
    (validateCouponForUser value.couponCode req.user lines.subtotalCents req.tenant now)
  let total := fromCents (max (lines.subtotalCents - outcome.discountCents) 0)
  outcome.coupon.forM claimCoupon
  let order : Order ← attempt (db (.orderCreate {
    user := req.user
    tenant := req.tenant
    items := lines.orderItems
    subtotal := fromCents lines.subtotalCents
    discountTotal := fromCents outcome.discountCents
    total := total
    coupon := outcome.coupon.map (·.id)
    shippingAddress := value.shippingAddress
    paymentProvider := value.paymentProvider } now))
  pushUndo (.orderDelete order.id)
  attempt (db (.reservationLink (lines.reservations.map (·.id)) order.id))
  outcome.coupon.forM fun coupon =>
    attempt (db (.redemptionCreate ⟨coupon.id, req.tenant, req.user, order.id⟩))
  attempt (db (.cartClear cart.id cart.version))
  return ⟨order, total, lines.reservations⟩

/-- The `try` block of `executeCheckout`. -/
def checkoutSteps (limits : Limits) (req : AuthedRequest) (value : CheckoutInput) (now : Time) :
    CheckoutM CheckoutResult := do
  match (← attempt (db (.cartFindOne req.user req.tenant)) : Option Cart) with
  | none => throw (CustomeErrorHandler.badRequest "Cart is empty")
  | some cart =>
    if cart.items.isEmpty then throw (CustomeErrorHandler.badRequest "Cart is empty")
    else placeOrder limits req value now cart

/-- Runs the undo calls, newest first. One that fails raises an alert and is skipped. -/
def compensate : List DbOp → MongoM Unit
  | [] => return ()
  | step :: rest => do
    (db step >>= fun _ => return ()).catching fun _ => return ()
    compensate rest

/-- Reserves stock, applies the coupon and writes the order. Without a session each completed step
has registered an undo call that runs if a later step fails. -/
def executeCheckout (limits : Limits) (req : AuthedRequest) (value : CheckoutInput) (now : Time)
    (session : Bool) : MongoM CheckoutResult := do
  match ← (checkoutSteps limits req value now).run.run [] with
  | (.ok result, _) => return result
  | (.error err, undo) =>
    if !session then compensate undo
    throw err

/-! ## Cancellation and refund requests -/

/-- Ownership: an admin reaches every order of its tenant, others their own. -/
def ownedOrderFilter (req : AuthedRequest) (id : ObjectId) : OrderFilter where
  id := id
  tenant := req.tenant
  user := if req.role = .admin then none else some req.user

structure CancelResult where
  order : Order
  refundOpened : Bool
  deriving DecidableEq, Repr

/-- The writes that follow the cancelling update. -/
def finishCancel (tenant : String) (cancelled : Order) (refundOpened : Bool) :
    MongoM CancelResult := do
  let _released ← releaseOrderReservations cancelled.id .released
  db (.eventCreate ⟨.orderCancelled, cancelled.id, tenant⟩)
  if refundOpened then db (.eventCreate ⟨.refundRequested, cancelled.id, tenant⟩)
  return ⟨cancelled, refundOpened⟩

/-- The transaction callback of `OrderService.cancel`. -/
def cancelWork (req : AuthedRequest) (id : ObjectId) (reason : String) (now : Time) :
    MongoM CancelResult := do
  let owned := ownedOrderFilter req id
  -- Each update is a compare-and-set, so concurrent cancels, payments and expiry cannot all win.
  match (← db (.orderUpdate (.cancelUnpaid owned reason) now) : Option Order) with
  | some cancelled => finishCancel req.tenant cancelled false
  | none =>
    match (← db (.orderUpdate (.cancelPaid owned reason) now) : Option Order) with
    | some cancelled => finishCancel req.tenant cancelled true
    | none =>
      match (← db (.orderFindOne owned) : Option Order) with
      | none => throw (CustomeErrorHandler.notFound "Order not found")
      | some _ =>
        throw (CustomeErrorHandler.badRequest "Order cannot be cancelled in its current state")

/-- Explains why a refund request did not match, using the same ownership filter. -/
def refundRejection (limits : Limits) (req : AuthedRequest) (id : ObjectId) (windowStart : Time) :
    MongoM ApiError := do
  match (← db (.orderFindOne (ownedOrderFilter req id)) : Option Order) with
  | none => return CustomeErrorHandler.notFound "Order not found"
  | some order =>
    if order.refundStatus ≠ .none then
      return CustomeErrorHandler.conflict "A refund has already been requested for this order"
    else if order.paymentStatus ≠ .paid then
      return CustomeErrorHandler.badRequest "Only paid orders can be refunded"
    else if ¬ REFUNDABLE_STATUSES.contains order.status then
      return CustomeErrorHandler.badRequest
        "Refunds can be requested once the order is delivered; cancel it instead if it has not shipped"
    else if order.deliveredAt.getD order.updatedAt < windowStart then
      return CustomeErrorHandler.badRequest
        ("The refund window of " ++ toString limits.REFUND_WINDOW_DAYS ++ " days has passed")
    else return CustomeErrorHandler.conflict "The order changed while processing the refund; retry"

/-- `REFUND_WINDOW_DAYS` before now. -/
def refundWindowStart (limits : Limits) (now : Time) : Time :=
  now - limits.REFUND_WINDOW_DAYS * 24 * 60 * 60 * 1000

/-- The transaction callback of `OrderService.requestRefund`. -/
def requestRefundWork (limits : Limits) (req : AuthedRequest) (id : ObjectId) (reason : String)
    (now : Time) : MongoM Order := do
  let windowStart := refundWindowStart limits now
  match (← db (.orderUpdate
    (.requestRefund (ownedOrderFilter req id) windowStart reason) now) : Option Order) with
  | none => throw (← refundRejection limits req id windowStart)
  | some order =>
    db (.eventCreate ⟨.refundRequested, order.id, req.tenant⟩)
    return order

/-- `OrderService.cancel`. The audit entry and the queueing of the events come after the commit. -/
def cancel (deployment : Deployment) (req : AuthedRequest) (id : ObjectId) (reason : String)
    (now : Time) : Handler Order := do
  let result ← runInTransaction deployment fun _ => cancelWork req id reason now
  return result.order

/-- `OrderService.requestRefund`. -/
def requestRefund (deployment : Deployment) (limits : Limits) (req : AuthedRequest) (id : ObjectId)
    (reason : String) (now : Time) : Handler Order :=
  runInTransaction deployment fun _ => requestRefundWork limits req id reason now

/-- `OrderService.checkout`, up to the notifications sent for the committed order. -/
def checkout (deployment : Deployment) (limits : Limits) (req : AuthedRequest)
    (value : CheckoutInput) (now : Time) : Handler CheckoutResult :=
  runInTransaction deployment (executeCheckout limits req value now)

end Ecommerce
