import Ecommerce.Model.Database

/-!
# Inventory

`services/inventoryService.ts`, with the parts of `infra/events` and of the transaction helper it
uses. Reservations leave their active states here, and only here does their stock come back.
-/

namespace Ecommerce

open Effect

/-- A function that issues database calls one at a time. -/
abbrev MongoM := Prog Mongo ApiError

/-- A single database call. -/
def db (o : DbOp) : MongoM o.Reply := Prog.perform (S := Mongo) o

/-- `publishEvent`: the event record. Queueing it for delivery touches no document. -/
def publishEvent (event : DomainEvent) : MongoM Unit := db (.eventCreate event)

/-- Moves a reservation out of an active state and returns its stock. -/
def releaseReservation (id : ObjectId) (status : ReservationStatus)
    (fromStatuses : List ReservationStatus) : MongoM Bool := do
  match (← db (.reservationRelease id status fromStatuses) : Option InventoryReservation) with
  | none => return false
  | some reservation =>
    db (.productRestock reservation)
    return true

/-- The loop of `releaseOrderReservations`. -/
def releaseEach (status : ReservationStatus) : List ObjectId → Nat → MongoM Nat
  | [], released => return released
  | id :: rest, released => do
    let freed ← releaseReservation id status [.reserved, .committed]
    releaseEach status rest (released + freed.toNat)

def releaseOrderReservations (orderId : ObjectId) (status : ReservationStatus) : MongoM Nat := do
  let reservations : List ObjectId ← db (.reservationsActive orderId)
  releaseEach status reservations 0

/-- What a sweep reports. -/
structure SweepResult where
  released : Nat
  cancelled : Nat
  deriving DecidableEq, Repr

def SweepResult.add (a b : SweepResult) : SweepResult :=
  ⟨a.released + b.released, a.cancelled + b.cancelled⟩

/-- One order of the batch, met for the first time. -/
def expireOrder (now : Time) (orderKey : ObjectId) : MongoM SweepResult := do
  match (← db (.orderUpdate (.expire orderKey) now) : Option Order) with
  | some cancelledOrder =>
    let released ← releaseOrderReservations cancelledOrder.id .expired
    -- The cancellation is already durable; a failed notification must not abort the batch.
    (publishEvent ⟨.orderCancelled, cancelledOrder.id, cancelledOrder.tenant⟩).catching
      fun _ => return ()
    return ⟨released, 1⟩
  | none =>
    match (← db (.orderFindById orderKey) : Option Order) with
    | none =>
      let released ← releaseOrderReservations orderKey .expired
      return ⟨released, 0⟩
    | some order =>
      if order.paymentStatus = .paid ∨ order.paymentStatus = .authorized then
        db (.reservationsCommit order.id)
        return ⟨0, 0⟩
      -- Any other state is taken to have released its reservations when it got there.
      else return ⟨0, 0⟩

/-- The loop of `releaseExpiredReservations`, with `handledOrders` and the counts so far. -/
def expireEach (now : Time) :
    List InventoryReservation → List ObjectId → SweepResult → MongoM SweepResult
  | [], _, acc => return acc
  | reservation :: rest, handledOrders, acc =>
    match reservation.order with
    | none => do
      -- Orphaned by a checkout that failed before the order was written.
      let freed ← releaseReservation reservation.id .expired [.reserved]
      expireEach now rest handledOrders (acc.add ⟨freed.toNat, 0⟩)
    | some orderKey =>
      if handledOrders.contains orderKey then expireEach now rest handledOrders acc
      else do
        let result ← expireOrder now orderKey
        expireEach now rest (orderKey :: handledOrders) (acc.add result)

/-- Handles reservations whose payment window has passed. -/
def releaseExpiredReservations (now : Time) (batchSize : Nat) : MongoM SweepResult := do
  let expired : List InventoryReservation ← db (.reservationsExpired now batchSize)
  expireEach now expired [] ⟨0, 0⟩

end Ecommerce
