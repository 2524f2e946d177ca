import Ecommerce.Model.Orders

/-!
# Shipments

`controllers/shipmentController.ts`: a seller's or an admin's shipment moves forward, and drags the
order's fulfilment status along.
-/

namespace Ecommerce

open Effect

def SHIPPABLE_STATUSES : List OrderStatus := [.confirmed, .processing, .shipped]

/-- Order progress implied by one shipment. -/
def ORDER_RANK_FOR_SHIPMENT : ShipmentStatus → Nat
  | .pending => 1
  | .labelCreated => 1
  | .inTransit => 2
  | .delivered => 3
  | .failed => 0

def STATUS_FOR_RANK : List OrderStatus := [.confirmed, .processing, .shipped, .delivered]

def FULFILMENT_RANK : OrderStatus → Option Nat
  | .confirmed => some 0
  | .processing => some 1
  | .shipped => some 2
  | .delivered => some 3
  | _ => none

def SHIPMENT_RANK : ShipmentStatus → ℤ
  | .pending => 0
  | .labelCreated => 1
  | .inTransit => 2
  | .delivered => 3
  | .failed => -1

/-- A shipment only moves forward, except that a failed one may be retried. -/
def canTransitionShipment (src dst : ShipmentStatus) : Bool :=
  if src = dst then true
  else if src = .delivered then false
  else if src = .failed ∨ dst = .failed then true
  else SHIPMENT_RANK src < SHIPMENT_RANK dst

/-- `fulfilmentTransitions` of `orderStateMachine.ts`. -/
def fulfilmentTransitions : OrderStatus → List OrderStatus
  | .pending => [.confirmed, .cancelled]
  | .confirmed => [.processing, .shipped, .delivered, .cancelled]
  | .processing => [.shipped, .delivered]
  | .shipped => [.delivered]
  | .delivered => []
  | .cancelled => []
  | .refundRequested => []
  | .refunded => []

def canTransitionOrder (src dst : OrderStatus) : Bool :=
  src == dst || (fulfilmentTransitions src).contains dst

/-- The rank of the shipment under a seller, or under no seller. -/
def rankFor (shipments : List Shipment) (seller : Option ObjectId) : Nat :=
  match shipments.find? (·.seller == seller) with
  | some shipment => ORDER_RANK_FOR_SHIPMENT shipment.status
  | none => 0

/-- The rank of one line: its seller's shipment or the admin shipment, whichever is further.
A product that is gone has no seller, and no shipment is filed under one. -/
def lineRank (products : List Product) (shipments : List Shipment) (item : OrderItem) : Nat :=
  let sellerRank := match products.find? (·.id == item.product) with
    | some product => match product.seller with
      | some seller => rankFor shipments (some seller)
      | none => 0
    | none => 0
  max (rankFor shipments none) sellerRank

/-- The least advanced line. Without lines `Math.min()` is infinite, which names no status. -/
def leastRank : List Nat → Option Nat
  | [] => none
  | r :: rs => some (rs.foldl min r)

def derivedOrderRank (order : Order) : MongoM (Option Nat) := do
  let products : List Product ← db (.productSellers (order.items.map (·.product)))
  let shipments : List Shipment ← db (.shipmentsOf order.id)
  return leastRank (order.items.map (lineRank products shipments))

/-- The statuses a forward-only update may leave. -/
def behindStatuses (rank : Nat) : List OrderStatus :=
  STATUS_FOR_RANK.filter fun status => (FULFILMENT_RANK status).getD 0 < rank

/-- The order update that follows a stored shipment. -/
def advanceOrder (order : Order) (now : Time) : MongoM Unit := do
  let rank : Option Nat ← derivedOrderRank order
  match rank.bind (STATUS_FOR_RANK[·]?) with
  | none => return ()
  | some nextStatus =>
    let nextRank := (FULFILMENT_RANK nextStatus).getD 0
    if ((FULFILMENT_RANK order.status).map (fun r : Nat => (r : ℤ))).getD (-1) < nextRank ∧
        canTransitionOrder order.status nextStatus then
      -- Forward-only: never overwrite a status a concurrent update already moved past.
      let _updated : Option Order ←
        db (.orderUpdate (.advance order.id (behindStatuses nextRank) nextStatus) now)
      return ()
    else return ()

/-- Whose shipment the caller writes: an admin the whole order's, a seller its own. -/
def shipmentSeller (req : AuthedRequest) (order : Order) : MongoM (Option ObjectId) :=
  if req.role = .seller then do
    let ownItem : Bool ← db (.productOwned (order.items.map (·.product)) req.user req.tenant)
    if ownItem then return some req.user
    else throw (CustomeErrorHandler.forbidden "Cannot update shipment for another seller's order")
  else return none

/-- What `shipmentSchema` accepts, without the carrier's data, which is only stored. -/
structure ShipmentInput where
  status : ShipmentStatus
  deriving DecidableEq, Repr

/-- `ShipmentController.upsert`, from its first database call on. -/
def upsertShipment (req : AuthedRequest) (orderId : ObjectId) (value : ShipmentInput)
    (now : Time) : MongoM Shipment := do
  match (← db (.orderFindOne ⟨orderId, req.tenant, none⟩) : Option Order) with
  | none => throw (CustomeErrorHandler.notFound "Order not found")
  | some order =>
    if order.paymentStatus ≠ .paid ∨ ¬ SHIPPABLE_STATUSES.contains order.status then
      throw (CustomeErrorHandler.conflict
        ("Order cannot be shipped while " ++ order.status.text ++ "/" ++ order.paymentStatus.text))
    else
      let seller ← shipmentSeller req order
      let existing : Option ShipmentStatus ← db (.shipmentFindOne order.id seller)
      match existing.filter (fun status => !canTransitionShipment status value.status) with
      | some status => throw (CustomeErrorHandler.conflict
          ("Shipment cannot move from " ++ status.text ++ " to " ++ value.status.text))
      | none =>
        -- Compare-and-set on the status read above.
        match (← db (.shipmentUpsert ⟨order.id, seller, req.tenant, value.status, req.user⟩
          existing) : Option Shipment) with
        | none => throw (CustomeErrorHandler.conflict "The shipment changed while updating; retry")
        | some shipment =>
          advanceOrder order now
          publishEvent ⟨.shipmentUpdated, order.id, req.tenant⟩
          return shipment

end Ecommerce
