import Ecommerce.Model.JavaScript
import Ecommerce.Model.Orders

/-!
# Payment webhooks

`services/PaymentService.ts`, `services/paymentStateMachine.ts` and `utils/webhook.ts`. The hash
functions and the parsing of a request body come from packages; they are functions of the
configuration, as are the secret and the trusted providers.
-/

namespace Ecommerce

open Effect

/-! ## The payment state machine -/

/-- `allowedTransitions` of `paymentStateMachine.ts`. -/
def allowedTransitions : PaymentStatus → List PaymentStatus
  | .unpaid => [.authorized, .paid, .failed]
  | .authorized => [.paid, .failed, .refunded]
  | .paid => [.refunded]
  | .failed => []
  | .refunded => []

def assertPaymentTransition (src dst : PaymentStatus) : Except ApiError Unit :=
  if src = dst then .ok ()
  else if (allowedTransitions src).contains dst then .ok ()
  else .error (CustomeErrorHandler.badRequest
    ("Invalid payment transition from " ++ src.text ++ " to " ++ dst.text))

/-- `TARGET_STATE`. -/
def TARGET_STATE : WebhookType → PaymentStatus
  | .paymentSucceeded => .paid
  | .paymentFailed => .failed
  | .paymentRefunded => .refunded

def nextOrderStatus (order : Order) (target : PaymentStatus) : OrderStatus :=
  if target = .paid ∧ order.status = .pending then .confirmed else order.status

/-! ## Deliveries -/

/-- The body `webhookBodySchema` accepts. -/
structure WebhookBody where
  orderId : ObjectId
  type : WebhookType
  paymentReference : Option String
  deriving DecidableEq, Repr

/-- Configuration and packages a webhook depends on. -/
structure WebhookConfig where
  WEBHOOK_PROVIDERS : String
  WEBHOOK_SECRET : String
  /-- The bytes of `crypto.createHmac("sha256", secret).update(text).digest()`. -/
  hmac : String → String → List Nat
  /-- `crypto.createHash("sha256").update(text).digest("hex")`. -/
  sha256 : String → String
  /-- `express.json`, the sanitisers and `webhookBodySchema` on the text of a request body. -/
  parseBody : String → Option WebhookBody

/-- A webhook request: the headers the service reads and the body as it was sent. -/
structure Delivery where
  signature : Option String
  timestamp : Option String
  provider : Option String
  eventId : Option String
  rawPayload : String
  deriving DecidableEq, Repr

/-- The text that the signature covers. -/
def signedText (timestamp rawPayload : String) : String := timestamp ++ "." ++ rawPayload

/-- `verifyWebhookSignature`, at a given time. -/
def verifyWebhookSignature (cfg : WebhookConfig) (now : Time) (rawPayload : String)
    (signature timestamp : Option String) : Except ApiError Unit :=
  match signature.filter (· ≠ ""), timestamp.filter (· ≠ "") with
  | some signature, some timestamp =>
    if rawPayload = "" then .error (CustomeErrorHandler.unAuthorized "Missing webhook signature")
    else
      match jsNumber timestamp with
      | none => .error (CustomeErrorHandler.unAuthorized "Stale webhook")
      | some ts =>
        if 300 < |(now : ℚ) / 1000 - ts| then
          .error (CustomeErrorHandler.unAuthorized "Stale webhook")
        else if bufferFromHex signature.toList =
            cfg.hmac cfg.WEBHOOK_SECRET (signedText timestamp rawPayload) then .ok ()
        else .error (CustomeErrorHandler.unAuthorized "Invalid webhook signature")
  | _, _ => .error (CustomeErrorHandler.unAuthorized "Missing webhook signature")

def trustedProviders (cfg : WebhookConfig) : List String :=
  ((cfg.WEBHOOK_PROVIDERS.toList.splitOn ',').map fun name => jsTrim (String.ofList name)).filter
    (· ≠ "")

/-- The provider header as it is compared. -/
def Delivery.providerName (d : Delivery) : String :=
  jsToLowerCase (jsTrim (orElseText d.provider "manual"))

/-- The dedupe key that a replay under new headers cannot change. -/
def Delivery.signedDigest (cfg : WebhookConfig) (d : Delivery) : String :=
  cfg.sha256 (signedText (d.timestamp.getD "undefined") d.rawPayload)

/-- The checks before the first database call; they yield the event id. -/
def acceptDelivery (cfg : WebhookConfig) (now : Time) (d : Delivery) : Except ApiError String :=
  match d.eventId.filter (· ≠ "") with
  | none => .error (CustomeErrorHandler.badRequest "Webhook event id is required")
  | some eventId =>
    match verifyWebhookSignature cfg now d.rawPayload d.signature d.timestamp with
    | .error e => .error e
    | .ok () =>
      if (trustedProviders cfg).contains d.providerName then .ok eventId
      else .error (CustomeErrorHandler.unAuthorized "Unknown payment provider")

/-- The provider of the order's tenant. -/
def tenantProvider (tenant : Option Tenant) : String :=
  jsToLowerCase (orElseText (tenant.bind (·.paymentProvider)) "manual")

/-! ## Processing -/

/-- The compare-and-set that an order's payment status moves by. -/
def webhookTransition (order : Order) (provider : String) (body : WebhookBody) : OrderTransition where
  orderId := order.id
  fromPayment := order.paymentStatus
  fromStatus := order.status
  toPayment := TARGET_STATE body.type
  toStatus := nextOrderStatus order (TARGET_STATE body.type)
  -- A provider refund completes any open refund request, or records one done provider-side.
  toRefund := if TARGET_STATE body.type = .refunded then some .processed else none
  reason := body.type
  provider := provider
  paymentReference := body.paymentReference

/-- The row recorded for a processed delivery. -/
def webhookEvent (cfg : WebhookConfig) (d : Delivery) (eventId : String) (order : ObjectId)
    (type : WebhookType) : PaymentEvent where
  provider := d.providerName
  eventId := eventId
  order := order
  type := type
  payloadHash := cfg.sha256 d.rawPayload
  signedDigest := some (d.signedDigest cfg)

/-- The reservations and the event row, once the order is in its target state. -/
def settleWebhook (cfg : WebhookConfig) (d : Delivery) (eventId : String) (order : ObjectId)
    (type : WebhookType) (current : Order) : MongoM Order := do
  if TARGET_STATE type = .paid then
    db (.reservationsCommit order)
  else
    let _released ← releaseOrderReservations order .released
  db (.paymentCreateEvent (webhookEvent cfg d eventId order type))
  return current

/-- The transaction callback of `processWebhook`, for the order as it was read before. -/
def webhookWork (cfg : WebhookConfig) (d : Delivery) (eventId : String) (order : Order)
    (body : WebhookBody) (now : Time) : MongoM Order :=
  if order.paymentStatus ≠ TARGET_STATE body.type then do
    match (← db (.orderUpdate
      (.transition (webhookTransition order d.providerName body)) now) : Option Order) with
    | none => throw (CustomeErrorHandler.conflict "Order changed while processing the payment; retry")
    | some transitioned => settleWebhook cfg d eventId order.id body.type transitioned
  else settleWebhook cfg d eventId order.id body.type order

/-- The event published once a payment state is durable. -/
def paymentEventType : PaymentStatus → EventType
  | .paid => .paymentCompleted
  | .failed => .paymentFailed
  | _ => .paymentRefunded

/-- Notifications after the commit; failures are logged, not surfaced. -/
def afterWebhook (order : Order) (target : PaymentStatus) : MongoM Unit :=
  (publishEvent ⟨paymentEventType target, order.id, order.tenant⟩).catching fun _ => return ()

/-- What a webhook answers. -/
inductive WebhookResult where
  | replay
  | order (order : Order)
  deriving DecidableEq, Repr

/-- The part of `processWebhook` that reads before the transaction starts: a replay is answered,
anything else yields the order and the body to apply. -/
def readWebhook (cfg : WebhookConfig) (d : Delivery) (eventId : String) :
    MongoM (Option (Order × WebhookBody)) := do
  match (← db (.paymentFindEvent d.providerName eventId (d.signedDigest cfg)) :
    Option PaymentEvent) with
  | some _ => return none
  | none =>
    match cfg.parseBody d.rawPayload with
    | none => throw .validation
    | some body =>
      match (← db (.orderFindById body.orderId) : Option Order) with
      | none => throw (CustomeErrorHandler.notFound "Order not found")
      | some order =>
        let tenant : Option Tenant ← db (.tenantFindOne order.tenant)
        if tenantProvider tenant ≠ d.providerName then
          db (.securitySignal .paymentProviderMismatch order.id)
          throw (CustomeErrorHandler.notFound "Order not found")
        else
          let targetState := TARGET_STATE body.type
          if order.status = .cancelled ∧ (targetState = .paid ∨ targetState = .authorized) then
            -- Its stock has been returned; confirming it would oversell.
            db (.securitySignal .paymentOnCancelledOrder order.id)
            throw (CustomeErrorHandler.conflict "Order is cancelled; payment must be refunded")
          else
            match assertPaymentTransition order.paymentStatus targetState with
            | .ok () => return some (order, body)
            | .error e => throw e

/-- `PaymentService.processWebhook`. -/
def processWebhook (deployment : Deployment) (cfg : WebhookConfig) (d : Delivery) (now : Time) :
    Handler WebhookResult :=
  match acceptDelivery cfg now d with
  | .error e => throw e
  | .ok eventId => do
    match ← (readWebhook cfg d eventId).embed with
    | none => return .replay
    | some (order, body) =>
      let updated ← runInTransaction deployment fun _ => webhookWork cfg d eventId order body now
      (afterWebhook updated (TARGET_STATE body.type)).embed
      return .order updated

end Ecommerce
