import Ecommerce.Effect.Snapshot
import Ecommerce.Model.Server

/-!
# Checkouts in transactions

Checkouts on a replica set, call by call: `runInTransaction` runs `executeCheckout` on a snapshot of
the database, and `withTransaction` of the driver runs it again when a document that it wrote has
changed meanwhile. There is no lock: the checkouts may come from any number of API instances.
-/

namespace Ecommerce

open Effect Effect.Collection

namespace Db

/-- What the transactions of checkouts share. They write products, carts, coupons, reservations,
orders and redemptions. Document ids are unique across transactions, and the unique index on
redemptions holds across them. -/
def sharing : Sharing Db where
  share v db :=
    { v with
      products := v.products.raise db.products.next
      carts := v.carts.raise db.carts.next
      coupons := v.coupons.raise db.coupons.next
      reservations := v.reservations.raise db.reservations.next
      orders := v.orders.raise db.orders.next }
  conflicts s v db :=
    s.products.clashes v.products db.products || s.carts.clashes v.carts db.carts ||
      s.coupons.clashes v.coupons db.coupons || s.reservations.clashes v.reservations db.reservations ||
      s.orders.clashes v.orders db.orders ||
      (v.redemptions.drop s.redemptions.length).any (db.redemptions.contains ·)
  merge s v db :=
    { db with
      products := overlay (s.products.differs v.products) v.products db.products
      carts := overlay (s.carts.differs v.carts) v.carts db.carts
      coupons := overlay (s.coupons.differs v.coupons) v.coupons db.coupons
      reservations := overlay (s.reservations.differs v.reservations) v.reservations db.reservations
      orders := overlay (s.orders.differs v.orders) v.orders db.orders
      redemptions := db.redemptions ++ v.redemptions.drop s.redemptions.length }

end Db

/-- A checkout, with how often the driver will run it again. -/
structure CheckoutRequest where
  req : AuthedRequest
  value : CheckoutInput
  now : Time
  attempts : Nat
  deriving DecidableEq

/-- A write conflict, or another failure of the database, is transient. -/
def transient (err : ApiError) : Bool := err == .database

/-- `OrderService.checkout` on a replica set. -/
def CheckoutRequest.code (limits : Limits) (c : CheckoutRequest) :
    Prog Mongo.snap ApiError CheckoutResult :=
  withTransaction transient .database (executeCheckout limits c.req c.value c.now true) c.attempts

/-- Checkouts as a system of interleaved transactions. -/
def checkoutServer (limits : Limits) :
    System Mongo.snap ApiError CheckoutResult (Snapshots Db) CheckoutRequest where
  machine := mongo.snap Db.sharing
  code := CheckoutRequest.code limits

/-- Checkouts at work. -/
abbrev CheckoutPool := Pool Mongo.snap ApiError CheckoutResult (Snapshots Db) CheckoutRequest

end Ecommerce
