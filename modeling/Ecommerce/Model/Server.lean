import Ecommerce.Effect.Pool
import Ecommerce.Model.Payments
import Ecommerce.Model.Shipments

/-!
# The server

The requests that write orders, reservations and stock, each with the handler that serves it, as
one system over the database. The process-local checkout lock is left out: it only removes
interleavings, and gives no protection across API instances.
-/

namespace Ecommerce

open Effect

/-- How the server is configured and deployed. -/
structure ServerConfig where
  deployment : Deployment
  limits : Limits
  webhook : WebhookConfig

/-- A request, or a sweep started by the timer, with the time it takes as now. -/
inductive Request where
  | checkout (req : AuthedRequest) (value : CheckoutInput) (now : Time)
  | cancel (req : AuthedRequest) (id : ObjectId) (reason : String) (now : Time)
  | requestRefund (req : AuthedRequest) (id : ObjectId) (reason : String) (now : Time)
  | webhook (delivery : Delivery) (now : Time)
  | sweep (now : Time) (batchSize : Nat)
  | shipment (req : AuthedRequest) (orderId : ObjectId) (value : ShipmentInput) (now : Time)
  deriving DecidableEq

inductive Response where
  | checkout (result : CheckoutResult)
  | order (order : Order)
  | webhook (result : WebhookResult)
  | sweep (result : SweepResult)
  | shipment (shipment : Shipment)

/-- The handler of each request. -/
def Request.handler (cfg : ServerConfig) : Request → Handler Response
  | .checkout req value now =>
    Response.checkout <$> Ecommerce.checkout cfg.deployment cfg.limits req value now
  | .cancel req id reason now => Response.order <$> Ecommerce.cancel cfg.deployment req id reason now
  | .requestRefund req id reason now =>
    Response.order <$> Ecommerce.requestRefund cfg.deployment cfg.limits req id reason now
  | .webhook delivery now =>
    Response.webhook <$> processWebhook cfg.deployment cfg.webhook delivery now
  | .sweep now batchSize => (Response.sweep <$> releaseExpiredReservations now batchSize).embed
  | .shipment req orderId value now =>
    (Response.shipment <$> upsertShipment req orderId value now).embed

def Request.isSweep : Request → Bool
  | .sweep _ _ => true
  | _ => false

def Request.isCheckout : Request → Bool
  | .checkout _ _ _ => true
  | _ => false

/-- The server as a system of interleaved handlers. -/
def server (cfg : ServerConfig) : System (Mongo.tx ApiError) ApiError Response Db Request where
  machine := mongo.transactional
  code := Request.handler cfg

/-- The server at work: the database and the requests in flight. -/
abbrev ServerPool := Pool (Mongo.tx ApiError) ApiError Response Db Request

/-- The database call a handler makes next, outside of a transaction. -/
def nextCall (t : Thread (Mongo.tx ApiError) ApiError Response Request) : Option DbOp :=
  match t.prog.head? with
  | some (.op o) => some o
  | _ => none

/-! ## A small shop -/

/-- A configuration to try handlers on. Its hash functions keep the text they hash. -/
def sampleConfig (deployment : Deployment) : ServerConfig where
  deployment := deployment
  limits := ⟨15, 30⟩
  webhook := {
    WEBHOOK_PROVIDERS := "manual"
    WEBHOOK_SECRET := "s"
    hmac := fun secret text => (secret ++ text).toList.map Char.toNat
    sha256 := id
    parseBody := fun
      | "P" => some ⟨0, .paymentSucceeded, none⟩
      | "F" => some ⟨0, .paymentFailed, none⟩
      | "R" => some ⟨0, .paymentRefunded, none⟩
      | _ => none }

/-- Five units of one product, two of them in the cart of user 1. -/
def sampleDb : Db :=
  { (∅ : Db) with
    products := (∅ : Collection Product).insert ⟨0, "t", none, "mug", 10, 5, true, none⟩ rfl
    carts := (∅ : Collection Cart).insert ⟨0, 1, "t", [⟨0, 2⟩], 0⟩ rfl }

/-- The small shop with a cart of a second customer. -/
def twoCarts : Db :=
  { sampleDb with carts := sampleDb.carts.insert ⟨1, 2, "t", [⟨0, 1⟩], 0⟩ rfl }

def sampleUser : AuthedRequest := ⟨1, .user, "t"⟩

/-- The checkout of that cart. -/
def sampleCheckout (now : Time) : Request :=
  .checkout sampleUser ⟨⟨"a", none, "c", "s", "p", "x"⟩, "manual", none⟩ now

/-- A signed delivery that reports its payment. -/
def sampleDelivery (eventId : String) : Delivery :=
  ⟨some "73302e50", some "0", none, some eventId, "P"⟩

end Ecommerce
