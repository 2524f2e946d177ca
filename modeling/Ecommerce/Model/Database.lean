import Ecommerce.Effect.Machine
import Ecommerce.Model.Documents
import Mathlib.Data.List.Sort

/-!
# The database

The collections behind checkout, payment, inventory and fulfilment, and the individual database
calls the services make on them. Each call is atomic. Unique indexes and Mongoose's version check
reject a call with an exception and leave the collections as they are.

Two history variables, which no call reads, record what the documents forget: whose units have
been added back to stock, and the orders that have been deleted.
-/

namespace Ecommerce

open Effect

/-- What a handler may throw. -/
inductive ApiError where
  /-- `CustomeErrorHandler`, with its HTTP status. -/
  | app (status : Nat) (message : String)
  /-- `RequestValidationError`. -/
  | validation
  /-- A write rejected by a unique index (`code` 11000). -/
  | duplicateKey
  /-- Mongoose's `VersionError`. -/
  | version
  /-- Any other failure of a database call. -/
  | database
  deriving DecidableEq, Repr

namespace CustomeErrorHandler

def unAuthorized (message : String) : ApiError := .app 401 message
def forbidden (message : String) : ApiError := .app 403 message
def notFound (message : String) : ApiError := .app 404 message
def conflict (message : String) : ApiError := .app 409 message
def badRequest (message : String) : ApiError := .app 400 message

end CustomeErrorHandler

structure Db where
  products : Collection Product
  carts : Collection Cart
  coupons : Collection Coupon
  redemptions : List CouponRedemption
  reservations : Collection InventoryReservation
  orders : Collection Order
  paymentEvents : List PaymentEvent
  tenants : List Tenant
  shipments : List Shipment
  domainEvents : List DomainEvent
  /-- History: the reservations whose units were added back to stock, oldest first. -/
  restocks : List ObjectId
  /-- History: the orders that were deleted, as they last were. -/
  deletedOrders : List Order
  deriving DecidableEq

instance : EmptyCollection Db := ⟨⟨∅, ∅, ∅, [], ∅, ∅, [], [], [], [], [], []⟩⟩

/-! ## Updates of an order -/

/-- `ownedOrderFilter`: the order by id and tenant, and by owner unless the caller is an admin. -/
structure OrderFilter where
  id : ObjectId
  tenant : String
  user : Option ObjectId
  deriving DecidableEq, Repr

def OrderFilter.accepts (f : OrderFilter) (o : Order) : Bool :=
  o.id == f.id && o.tenant == f.tenant && f.user.all (· == o.user)

/-- The argument of `PaymentRepository.transitionOrder`. -/
structure OrderTransition where
  orderId : ObjectId
  fromPayment : PaymentStatus
  fromStatus : OrderStatus
  toPayment : PaymentStatus
  toStatus : OrderStatus
  toRefund : Option RefundStatus
  reason : WebhookType
  provider : String
  paymentReference : Option String
  deriving DecidableEq, Repr

/-- Statuses a customer may still cancel. -/
def CANCELLABLE_STATUSES : List OrderStatus := [.pending, .confirmed]

/-- Refund requests are accepted for delivered orders only. -/
def REFUNDABLE_STATUSES : List OrderStatus := [.delivered]

/-- The reason `releaseExpiredReservations` cancels with. -/
def EXPIRED_ORDER_REASON : String := "Payment window expired"

/-- The compare-and-set updates of an order: who issues it, with the filter it must still match. -/
inductive OrderUpdate where
  /-- `OrderService.cancel`, no money captured. -/
  | cancelUnpaid (owned : OrderFilter) (reason : String)
  /-- `OrderService.cancel`, opening a refund. -/
  | cancelPaid (owned : OrderFilter) (reason : String)
  /-- `OrderService.requestRefund`. -/
  | requestRefund (owned : OrderFilter) (windowStart : Time) (reason : String)
  /-- `releaseExpiredReservations`. -/
  | expire (id : ObjectId)
  /-- `PaymentRepository.transitionOrder`. -/
  | transition (t : OrderTransition)
  /-- `ShipmentController.upsert`, forward only. -/
  | advance (id : ObjectId) (behind : List OrderStatus) (status : OrderStatus)
  deriving DecidableEq, Repr

namespace OrderUpdate

/-- The `_id` of the filter. -/
def id : OrderUpdate → ObjectId
  | cancelUnpaid owned _ => owned.id
  | cancelPaid owned _ => owned.id
  | requestRefund owned _ _ => owned.id
  | expire id => id
  | transition t => t.orderId
  | advance id _ _ => id

/-- The rest of the filter. -/
def guard : OrderUpdate → Order → Bool
  | cancelUnpaid owned _, o =>
    owned.accepts o && CANCELLABLE_STATUSES.contains o.status &&
      [PaymentStatus.unpaid, .failed].contains o.paymentStatus
  | cancelPaid owned _, o =>
    owned.accepts o && CANCELLABLE_STATUSES.contains o.status &&
      [PaymentStatus.paid, .authorized].contains o.paymentStatus && o.refundStatus == .none
  | requestRefund owned windowStart _, o =>
    owned.accepts o && o.paymentStatus == .paid && o.refundStatus == .none &&
      REFUNDABLE_STATUSES.contains o.status &&
      match o.deliveredAt with
      | some at' => windowStart ≤ at'
      -- Orders delivered before deliveredAt existed fall back to their last update.
      | none => windowStart ≤ o.updatedAt
  | expire _, o => o.status == .pending && o.paymentStatus == .unpaid
  | transition t, o => o.paymentStatus == t.fromPayment && o.status == t.fromStatus
  | advance _ behind _, o => behind.contains o.status

/-- The `$set` and `$push` of the update, at a given time. -/
def apply (now : Time) : OrderUpdate → Order → Order
  | cancelUnpaid _ reason, o =>
    { o with
      status := .cancelled, cancelledAt := some now, cancellationReason := some reason
      updatedAt := now }
  | cancelPaid _ reason, o =>
    { o with
      status := .cancelled, cancelledAt := some now, cancellationReason := some reason
      refundStatus := .requested, refundRequestedAt := some now, refundReason := some reason
      updatedAt := now }
  | requestRefund _ _ reason, o =>
    { o with
      refundStatus := .requested, refundRequestedAt := some now, refundReason := some reason
      updatedAt := now }
  | expire _, o =>
    { o with
      status := .cancelled, cancelledAt := some now
      cancellationReason := some EXPIRED_ORDER_REASON, updatedAt := now }
  | transition t, o =>
    { o with
      paymentStatus := t.toPayment, status := t.toStatus
      refundStatus := t.toRefund.getD o.refundStatus
      paymentProvider := t.provider
      paymentReference := (t.paymentReference.filter (· ≠ "")).getD o.paymentReference
      paymentStateHistory :=
        o.paymentStateHistory ++ [⟨t.fromPayment, t.toPayment, now, t.reason⟩]
      updatedAt := now }
  | advance _ _ status, o =>
    { o with
      status := status
      deliveredAt := if status = .delivered then some now else o.deliveredAt
      updatedAt := now }

@[simp] theorem apply_id (u : OrderUpdate) (now : Time) (o : Order) : (u.apply now o).id = o.id := by
  cases u <;> rfl

/-- The update as a patch. -/
def patch (u : OrderUpdate) (now : Time) : Patch Order := ⟨u.apply now, u.apply_id now⟩

end OrderUpdate

/-! ## Calls -/

/-- What `executeCheckout` passes to `Order.create`; the schema's defaults fill in the rest. -/
structure OrderDraft where
  user : ObjectId
  tenant : String
  items : List OrderItem
  subtotal : ℚ
  discountTotal : ℚ
  total : ℚ
  coupon : Option ObjectId
  shippingAddress : Address
  paymentProvider : String
  deriving DecidableEq, Repr

def OrderDraft.order (d : OrderDraft) (id : ObjectId) (now : Time) : Order where
  id := id
  user := d.user
  tenant := d.tenant
  items := d.items
  total := d.total
  subtotal := d.subtotal
  discountTotal := d.discountTotal
  coupon := d.coupon
  status := .pending
  paymentStatus := .unpaid
  refundStatus := .none
  paymentProvider := d.paymentProvider
  paymentReference := ""
  paymentStateHistory := []
  shippingAddress := d.shippingAddress
  deliveredAt := none
  refundRequestedAt := none
  refundReason := none
  cancelledAt := none
  cancellationReason := none
  updatedAt := now

theorem OrderDraft.key_order (d : OrderDraft) (id : ObjectId) (now : Time) :
    Keyed.key (d.order id now) = id := rfl

/-- What `executeCheckout` passes to `InventoryReservation.create`. -/
structure ReservationDraft where
  user : ObjectId
  tenant : String
  product : ObjectId
  quantity : ℕ+
  expiresAt : Time
  deriving DecidableEq, Repr

def ReservationDraft.reservation (d : ReservationDraft) (id : ObjectId) : InventoryReservation where
  id := id
  user := d.user
  tenant := d.tenant
  order := none
  product := d.product
  quantity := d.quantity
  status := .reserved
  expiresAt := d.expiresAt

theorem ReservationDraft.key_reservation (d : ReservationDraft) (id : ObjectId) :
    Keyed.key (d.reservation id) = id := rfl

/-- The two security signals a webhook may raise. -/
inductive SignalType where
  | paymentProviderMismatch | paymentOnCancelledOrder
  deriving DecidableEq, Repr

/-- The individual database calls, with their arguments. -/
inductive DbOp where
  /-- `Cart.findOne({ user, tenant })` -/
  | cartFindOne (user : ObjectId) (tenant : String)
  /-- `cart.items = []; cart.save()`, for a cart read at this version -/
  | cartClear (id : ObjectId) (version : Nat)
  /-- `Product.findOneAndUpdate(sellable with enough stock, { $inc: { stock: -quantity } })` -/
  | productReserve (id : ObjectId) (tenant : String) (quantity : ℕ+)
  /-- the undo of it, `Product.updateOne({ _id }, { $inc: { stock: quantity } })` -/
  | productUnreserve (id : ObjectId) (quantity : ℕ+)
  /-- `Product.updateOne({ _id: reservation.product }, { $inc: { stock: reservation.quantity } })` -/
  | productRestock (reservation : InventoryReservation)
  /-- `Product.exists({ _id: { $in: ids }, seller, tenant })` -/
  | productOwned (ids : List ObjectId) (seller : ObjectId) (tenant : String)
  /-- `Product.find({ _id: { $in: ids } }).select("_id seller")` -/
  | productSellers (ids : List ObjectId)
  /-- `InventoryReservation.create` -/
  | reservationCreate (draft : ReservationDraft)
  /-- the undo of it, `InventoryReservation.updateOne({ _id }, { $set: { status: "released" } })` -/
  | reservationUndo (id : ObjectId)
  /-- `InventoryReservation.updateMany({ _id: { $in: ids } }, { $set: { order } })` -/
  | reservationLink (ids : List ObjectId) (order : ObjectId)
  /-- `InventoryReservation.findOneAndUpdate({ _id, status: { $in: from } }, { $set: { status } })` -/
  | reservationRelease (id : ObjectId) (status : ReservationStatus)
      (fromStatuses : List ReservationStatus)
  /-- `InventoryReservation.find({ order, status: { $in: ["reserved", "committed"] } })` -/
  | reservationsActive (order : ObjectId)
  /-- `InventoryReservation.find({ status: "reserved", expiresAt: { $lte: now } })`, sorted, limited -/
  | reservationsExpired (now : Time) (batchSize : Nat)
  /-- `InventoryReservation.updateMany({ order, status: "reserved" }, { status: "committed" })` -/
  | reservationsCommit (order : ObjectId)
  /-- `Coupon.findOne({ code, isActive: true, tenant, deletedAt: null })` -/
  | couponFindOne (code : String) (tenant : String)
  /-- `Coupon.updateOne({ _id, usedCount: { $lt: usageLimit } }, { $inc: { usedCount: 1 } })` -/
  | couponClaim (id : ObjectId) (usageLimit : Nat)
  /-- the undo of it, `Coupon.updateOne({ _id, usedCount: { $gt: 0 } }, { $inc: { usedCount: -1 } })` -/
  | couponUnclaim (id : ObjectId)
  /-- `CouponRedemption.countDocuments({ coupon, user })` -/
  | redemptionCount (coupon : ObjectId) (user : ObjectId)
  /-- `CouponRedemption.create` -/
  | redemptionCreate (redemption : CouponRedemption)
  /-- `Order.create` -/
  | orderCreate (draft : OrderDraft) (now : Time)
  /-- the undo of it, `Order.deleteOne({ _id })` -/
  | orderDelete (id : ObjectId)
  /-- `Order.findOneAndUpdate` or `Order.updateOne` -/
  | orderUpdate (update : OrderUpdate) (now : Time)
  /-- `Order.findById(id)` -/
  | orderFindById (id : ObjectId)
  /-- `Order.findOne` or `Order.exists` by `ownedOrderFilter` or by id and tenant -/
  | orderFindOne (filter : OrderFilter)
  /-- `PaymentEvent.findOne({ $or: [{ provider, eventId }, { signedDigest }] })` -/
  | paymentFindEvent (provider eventId signedDigest : String)
  /-- `PaymentEvent.create` -/
  | paymentCreateEvent (event : PaymentEvent)
  /-- `Tenant.findOne({ key })` -/
  | tenantFindOne (key : String)
  /-- `SecuritySignal.create`; nothing modelled reads the collection -/
  | securitySignal (type : SignalType) (order : ObjectId)
  /-- `DomainEvent.create` -/
  | eventCreate (event : DomainEvent)
  /-- `Shipment.findOne({ order, seller }).select("status")` -/
  | shipmentFindOne (order : ObjectId) (seller : Option ObjectId)
  /-- `Shipment.findOneAndUpdate`, inserting only when no shipment was read before -/
  | shipmentUpsert (shipment : Shipment) (existing : Option ShipmentStatus)
  /-- `Shipment.find({ order }).select("seller status")` -/
  | shipmentsOf (order : ObjectId)
  deriving DecidableEq

namespace DbOp

/-- What each call replies. -/
def Reply : DbOp → Type
  | cartFindOne _ _ => Option Cart
  | cartClear _ _ => Unit
  | productReserve _ _ _ => Option Product
  | productUnreserve _ _ => Unit
  | productRestock _ => Unit
  | productOwned _ _ _ => Bool
  | productSellers _ => List Product
  | reservationCreate _ => InventoryReservation
  | reservationUndo _ => Unit
  | reservationLink _ _ => Unit
  | reservationRelease _ _ _ => Option InventoryReservation
  | reservationsActive _ => List ObjectId
  | reservationsExpired _ _ => List InventoryReservation
  | reservationsCommit _ => Unit
  | couponFindOne _ _ => Option Coupon
  | couponClaim _ _ => Bool
  | couponUnclaim _ => Unit
  | redemptionCount _ _ => Nat
  | redemptionCreate _ => Unit
  | orderCreate _ _ => Order
  | orderDelete _ => Unit
  | orderUpdate _ _ => Option Order
  | orderFindById _ => Option Order
  | orderFindOne _ => Option Order
  | paymentFindEvent _ _ _ => Option PaymentEvent
  | paymentCreateEvent _ => Unit
  | tenantFindOne _ => Option Tenant
  | securitySignal _ _ => Unit
  | eventCreate _ => Unit
  | shipmentFindOne _ _ => Option ShipmentStatus
  | shipmentUpsert _ _ => Option Shipment
  | shipmentsOf _ => List Shipment

end DbOp

/-- The calls as a signature. -/
def Mongo : Signature := ⟨DbOp, DbOp.Reply⟩

instance : DecidableEq Mongo.Op := inferInstanceAs (DecidableEq DbOp)

/-! ## Patches -/

namespace Product

/-- `{ $inc: { stock: delta } }` -/
def incStock (delta : ℤ) : Patch Product := ⟨fun p => { p with stock := p.stock + delta }, fun _ => rfl⟩

/-- The filter of the reserving update. -/
def sellable (p : Product) (tenant : String) (quantity : ℕ+) : Bool :=
  p.tenant == tenant && p.isActive && p.deletedAt.isNone && decide ((quantity : ℤ) ≤ p.stock)

end Product

namespace InventoryReservation

def setStatus (status : ReservationStatus) : Patch InventoryReservation :=
  ⟨fun r => { r with status := status }, fun _ => rfl⟩

def setOrder (order : ObjectId) : Patch InventoryReservation :=
  ⟨fun r => { r with order := some order }, fun _ => rfl⟩

section SetStatus

variable (status : ReservationStatus) (r : InventoryReservation)

@[simp] theorem setStatus_id : ((setStatus status).run r).id = r.id := rfl

@[simp] theorem setStatus_order : ((setStatus status).run r).order = r.order := rfl

@[simp] theorem setStatus_product : ((setStatus status).run r).product = r.product := rfl

@[simp] theorem setStatus_quantity : ((setStatus status).run r).quantity = r.quantity := rfl

@[simp] theorem setStatus_status : ((setStatus status).run r).status = status := rfl

@[simp] theorem setStatus_active : ((setStatus status).run r).Active ↔ status.Active := Iff.rfl

end SetStatus

end InventoryReservation

def Coupon.setUsedCount (f : Nat → Nat) : Patch Coupon :=
  ⟨fun c => { c with usedCount := f c.usedCount }, fun _ => rfl⟩

def Cart.clear : Patch Cart := ⟨fun c => { c with items := [], version := c.version + 1 }, fun _ => rfl⟩

/-! ## Effects -/

namespace Db

/-- Expired reservations in the order the sweep takes them; a limit of 0 is no limit. -/
def expired (db : Db) (now : Time) (batchSize : Nat) : List InventoryReservation :=
  let due := db.reservations.docs.filter fun r => r.status == .reserved && decide (r.expiresAt ≤ now)
  let sorted := due.insertionSort fun a b => a.expiresAt ≤ b.expiresAt
  if batchSize = 0 then sorted else sorted.take batchSize

/-- The active reservations of an order. -/
def activeOf (db : Db) (order : ObjectId) : List InventoryReservation :=
  db.reservations.docs.filter fun r => r.order == some order && decide r.Active

/-- The effect and the reply of each call. -/
def exec : (o : DbOp) → Db → Except ApiError o.Reply × Db
  | .cartFindOne user tenant, db =>
    (.ok (db.carts.docs.find? fun c => c.user == user && c.tenant == tenant), db)
  | .cartClear id version, db =>
    match db.carts.get? id with
    | some c =>
      if c.version = version then (.ok (), { db with carts := db.carts.update id Cart.clear })
      else (.error .version, db)
    | none => (.error .version, db)
  | .productReserve id tenant quantity, db =>
    match db.products.get? id with
    | some p =>
      if p.sellable tenant quantity then
        (.ok (some ((Product.incStock (-quantity)).run p)),
          { db with products := db.products.update id (Product.incStock (-quantity)) })
      else (.ok none, db)
    | none => (.ok none, db)
  | .productUnreserve id quantity, db =>
    (.ok (), { db with products := db.products.update id (Product.incStock quantity) })
  | .productRestock r, db =>
    (.ok (), { db with
      products := db.products.update r.product (Product.incStock r.quantity)
      restocks := db.restocks ++ [r.id] })
  | .productOwned ids seller tenant, db =>
    (.ok (db.products.docs.any fun p =>
      ids.contains p.id && p.seller == some seller && p.tenant == tenant), db)
  | .productSellers ids, db => (.ok (db.products.docs.filter fun p => ids.contains p.id), db)
  | .reservationCreate draft, db =>
    (.ok (draft.reservation db.reservations.next),
      { db with reservations :=
        db.reservations.insert (draft.reservation db.reservations.next) (draft.key_reservation _) })
  | .reservationUndo id, db =>
    -- The units themselves are added back by the product undo that runs right after.
    (.ok (), { db with
      reservations := db.reservations.update id (InventoryReservation.setStatus .released)
      restocks := db.restocks ++ [id] })
  | .reservationLink ids order, db =>
    (.ok (), { db with
      reservations := db.reservations.modify (fun r => ids.contains r.id)
        (InventoryReservation.setOrder order) })
  | .reservationRelease id status fromStatuses, db =>
    match db.reservations.get? id with
    | some r =>
      if fromStatuses.contains r.status then
        (.ok (some ((InventoryReservation.setStatus status).run r)),
          { db with reservations := db.reservations.update id (InventoryReservation.setStatus status) })
      else (.ok none, db)
    | none => (.ok none, db)
  | .reservationsActive order, db => (.ok ((db.activeOf order).map (·.id)), db)
  | .reservationsExpired now batchSize, db => (.ok (db.expired now batchSize), db)
  | .reservationsCommit order, db =>
    (.ok (), { db with
      reservations := db.reservations.modify (fun r => r.order == some order && r.status == .reserved)
        (InventoryReservation.setStatus .committed) })
  | .couponFindOne code tenant, db =>
    (.ok (db.coupons.docs.find? fun c =>
      c.code == code && c.isActive && c.tenant == tenant && c.deletedAt.isNone), db)
  | .couponClaim id usageLimit, db =>
    match db.coupons.get? id with
    | some c =>
      if c.usedCount < usageLimit then
        (.ok true, { db with coupons := db.coupons.update id (Coupon.setUsedCount (· + 1)) })
      else (.ok false, db)
    | none => (.ok false, db)
  | .couponUnclaim id, db =>
    match db.coupons.get? id with
    | some c =>
      if 0 < c.usedCount then
        (.ok (), { db with coupons := db.coupons.update id (Coupon.setUsedCount (· - 1)) })
      else (.ok (), db)
    | none => (.ok (), db)
  | .redemptionCount coupon user, db =>
    (.ok (db.redemptions.countP fun r => r.coupon == coupon && r.user == user), db)
  | .redemptionCreate redemption, db =>
    if redemption ∈ db.redemptions then (.error .duplicateKey, db)
    else (.ok (), { db with redemptions := db.redemptions ++ [redemption] })
  | .orderCreate draft now, db =>
    (.ok (draft.order db.orders.next now),
      { db with orders :=
        db.orders.insert (draft.order db.orders.next now) (draft.key_order _ now) })
  | .orderDelete id, db =>
    (.ok (), { db with
      orders := db.orders.erase id
      deletedOrders := db.deletedOrders ++ (db.orders.get? id).toList })
  | .orderUpdate u now, db =>
    match db.orders.get? u.id with
    | some o =>
      if u.guard o then
        (.ok (some (u.apply now o)), { db with orders := db.orders.update u.id (u.patch now) })
      else (.ok none, db)
    | none => (.ok none, db)
  | .orderFindById id, db => (.ok (db.orders.get? id), db)
  | .orderFindOne filter, db => (.ok ((db.orders.get? filter.id).filter filter.accepts), db)
  | .paymentFindEvent provider eventId signedDigest, db =>
    (.ok (db.paymentEvents.find? fun e =>
      (e.provider == provider && e.eventId == eventId) || e.signedDigest == some signedDigest), db)
  | .paymentCreateEvent event, db =>
    if db.paymentEvents.any fun e =>
        (e.provider == event.provider && e.eventId == event.eventId) ||
          (e.signedDigest.isSome && e.signedDigest == event.signedDigest) then
      (.error .duplicateKey, db)
    else (.ok (), { db with paymentEvents := db.paymentEvents ++ [event] })
  | .tenantFindOne key, db => (.ok (db.tenants.find? (·.key == key)), db)
  | .securitySignal _ _, db => (.ok (), db)
  | .eventCreate event, db => (.ok (), { db with domainEvents := db.domainEvents ++ [event] })
  | .shipmentFindOne order seller, db =>
    (.ok ((db.shipments.find? fun s => s.order == order && s.seller == seller).map (·.status)), db)
  | .shipmentUpsert shipment existing, db =>
    let hit := fun s : Shipment =>
      s.order == shipment.order && s.seller == shipment.seller && existing.all (· == s.status)
    if db.shipments.any hit then
      (.ok (some shipment), { db with
        shipments := db.shipments.map fun s => if hit s then shipment else s })
    else if existing.isNone then
      (.ok (some shipment), { db with shipments := db.shipments ++ [shipment] })
    else (.ok none, db)
  | .shipmentsOf order, db => (.ok (db.shipments.filter (·.order == order)), db)

end Db

/-- The database as a machine. -/
def mongo : Machine Mongo ApiError Db where
  exec := Db.exec
  fault := .database

/-- An update of an order either matches, and patches the order it matched, or changes nothing. -/
theorem exec_orderUpdate (u : OrderUpdate) (now : Time) (db : Db) :
    (∃ o, db.orders.get? u.id = some o ∧ u.guard o ∧
      mongo.exec (.orderUpdate u now) db =
        (.ok (some (u.apply now o)), { db with orders := db.orders.update u.id (u.patch now) })) ∨
    ((∀ o, db.orders.get? u.id = some o → u.guard o = false) ∧
      mongo.exec (.orderUpdate u now) db = (.ok none, db)) := by
  simp only [mongo, Db.exec]
  split
  · next o ho =>
    split
    · next hguard => exact .inl ⟨o, ho, hguard, rfl⟩
    · next hguard =>
      refine .inr ⟨fun x hx => ?_, rfl⟩
      obtain rfl : o = x := Option.some_inj.1 (ho.symm.trans hx)
      simpa using hguard
  · next hnone => exact .inr ⟨fun x hx => by simp [hnone] at hx, rfl⟩

end Ecommerce
