import Ecommerce.Effect.Calls
import Ecommerce.Model.Server

/-!
# The calls of each handler

Which database calls a handler can come to, whatever it reads. Updates of an order are legal: the
payment status moves along the payment state machine and the order status along with it.
-/

namespace Ecommerce

open Effect

/-- A single call, in a program of calls. -/
theorem issues_db {φ : DbOp → Prop} {o : DbOp} (h : φ o) : (db o).Issues φ :=
  Prog.issues_perform (S := Mongo) h

/-- Calls that leave all but the signals and the events alone. -/
def DbOp.Quiet : DbOp → Prop
  | .cartFindOne .. | .productOwned .. | .productSellers _ | .reservationsActive _
  | .reservationsExpired .. | .couponFindOne .. | .redemptionCount .. | .orderFindById _
  | .orderFindOne _ | .paymentFindEvent .. | .tenantFindOne _ | .securitySignal ..
  | .eventCreate _ | .shipmentFindOne .. | .shipmentsOf _ => True
  | _ => False

/-- Calls that leave the whole database alone. -/
def DbOp.Reads : DbOp → Prop
  | .cartFindOne .. | .productOwned .. | .productSellers _ | .reservationsActive _
  | .reservationsExpired .. | .couponFindOne .. | .redemptionCount .. | .orderFindById _
  | .orderFindOne _ | .paymentFindEvent .. | .tenantFindOne _ | .securitySignal ..
  | .shipmentFindOne .. | .shipmentsOf _ => True
  | _ => False

theorem DbOp.Reads.quiet {o : DbOp} (h : o.Reads) : o.Quiet := by
  cases o <;> trivial

theorem exec_reads {o : DbOp} (h : o.Reads) (s : Db) : (mongo.exec o s).2 = s := by
  cases o <;> first | rfl | exact h.elim

/-! ## Legal updates of an order -/

/-- A transition that `processWebhook` may ask for. -/
structure OrderTransition.Legal (t : OrderTransition) : Prop where
  edge : t.toPayment ∈ allowedTransitions t.fromPayment
  target : t.toPayment ≠ .authorized
  not_cancelled : t.toPayment = .paid → t.fromStatus ≠ .cancelled
  status : t.toStatus =
    if t.toPayment = .paid ∧ t.fromStatus = .pending then .confirmed else t.fromStatus
  refund : t.toRefund = if t.toPayment = .refunded then some .processed else none

/-- The updates that leave the payment alone. -/
def OrderUpdate.Plain : OrderUpdate → Prop
  | .transition _ => False
  | .advance _ behind status =>
    status ∈ STATUS_FOR_RANK ∧ behind = behindStatuses ((FULFILMENT_RANK status).getD 0)
  | _ => True

/-- Those of them that do not follow a shipment. -/
def OrderUpdate.Settles : OrderUpdate → Prop
  | .transition _ => False
  | .advance .. => False
  | _ => True

theorem OrderUpdate.Settles.plain {u : OrderUpdate} (h : u.Settles) : u.Plain := by
  cases u <;> trivial

/-- The updates that the handlers make. -/
def OrderUpdate.Legal : OrderUpdate → Prop
  | .transition t => t.Legal
  | u => u.Plain

theorem OrderUpdate.Plain.legal {u : OrderUpdate} (h : u.Plain) : u.Legal := by
  cases u <;> first | exact h | exact h.elim

/-- A call whose update of an order, if it is one, is legal. -/
def DbOp.Legal : DbOp → Prop
  | .orderUpdate u _ => u.Legal
  | _ => True

theorem DbOp.Quiet.legal {o : DbOp} (h : o.Quiet) : o.Legal := by
  cases o <;> trivial

theorem behindStatuses_subset (rank : Nat) : behindStatuses rank ⊆ STATUS_FOR_RANK :=
  List.filter_subset_self _

theorem webhookTransition_legal {order : Order} {body : WebhookBody} (provider : String)
    (hne : order.paymentStatus ≠ TARGET_STATE body.type)
    (hassert : assertPaymentTransition order.paymentStatus (TARGET_STATE body.type) = .ok ())
    (hcancelled : TARGET_STATE body.type = .paid → order.status ≠ .cancelled) :
    (webhookTransition order provider body).Legal where
  edge := by
    by_contra h
    have h' : TARGET_STATE body.type ∉ allowedTransitions order.paymentStatus := h
    simp [assertPaymentTransition, hne, h'] at hassert
  target := by
    simp only [webhookTransition]
    cases body.type <;> simp [TARGET_STATE]
  not_cancelled := hcancelled
  status := rfl
  refund := rfl

/-! ## Reading and checking -/

theorem readWebhook_issues (cfg : WebhookConfig) (d : Delivery) (eventId : String) :
    (readWebhook cfg d eventId).Issues DbOp.Reads := by
  refine (issues_db trivial).bind fun event => ?_
  cases event with
  | some _ => trivial
  | none =>
    dsimp only
    split
    · trivial
    · refine (issues_db trivial).bind fun found => ?_
      cases found with
      | none => trivial
      | some order =>
        refine (issues_db trivial).bind fun tenant => ?_
        split
        · exact (issues_db trivial).bind fun _ => trivial
        · split
          · exact (issues_db trivial).bind fun _ => trivial
          · split <;> trivial

/-- What `readWebhook` has checked of the order it passes on. -/
def Payable (read : Option (Order × WebhookBody)) : Prop :=
  ∀ order body, read = some (order, body) →
    assertPaymentTransition order.paymentStatus (TARGET_STATE body.type) = .ok () ∧
      (TARGET_STATE body.type = .paid → order.status ≠ .cancelled)

theorem readWebhook_yields (cfg : WebhookConfig) (d : Delivery) (eventId : String) :
    (readWebhook cfg d eventId).Yields Payable := by
  refine (Prog.yields_true _).bind fun event _ => ?_
  cases event with
  | some _ => exact fun _ _ h => by cases h
  | none =>
    dsimp only
    split
    · trivial
    · next body _ =>
      refine (Prog.yields_true _).bind fun found _ => ?_
      cases found with
      | none => trivial
      | some order =>
        refine (Prog.yields_true _).bind fun tenant _ => ?_
        split
        · exact (Prog.yields_true _).bind fun _ _ => trivial
        · split
          · exact (Prog.yields_true _).bind fun _ _ => trivial
          · next hcancelled =>
            split
            · next hassert =>
              rintro _ _ ⟨⟩
              exact ⟨hassert, fun hpaid hst => hcancelled ⟨hst, .inl hpaid⟩⟩
            · trivial

/-- Validating a coupon looks up the coupon and counts its redemptions. -/
theorem validateCouponForUser_asks {φ : DbOp → Prop}
    (hfind : ∀ code tenant, φ (.couponFindOne code tenant))
    (hcount : ∀ coupon user, φ (.redemptionCount coupon user)) (code : Option String)
    (userId : ObjectId) (subtotalCents : Cents) (tenant : String) (now : Time) :
    (validateCouponForUser code userId subtotalCents tenant now).Issues φ := by
  rw [validateCouponForUser]
  split
  · trivial
  · refine (issues_db (hfind _ _)).bind fun found => ?_
    cases found with
    | none => trivial
    | some coupon =>
      dsimp only
      split
      · trivial
      · refine (issues_db (hcount _ _)).bind fun userUses => ?_
        split <;> trivial

theorem validateCouponForUser_issues (code : Option String) (userId : ObjectId)
    (subtotalCents : Cents) (tenant : String) (now : Time) :
    (validateCouponForUser code userId subtotalCents tenant now).Issues DbOp.Reads :=
  validateCouponForUser_asks (fun _ _ => trivial) (fun _ _ => trivial) _ _ _ _ _

theorem refundRejection_issues (limits : Limits) (req : AuthedRequest) (id : ObjectId)
    (windowStart : Time) : (refundRejection limits req id windowStart).Issues DbOp.Quiet := by
  refine (issues_db trivial).bind fun found => ?_
  cases found with
  | none => trivial
  | some order =>
    dsimp only
    repeat' split
    all_goals trivial

theorem publishEvent_issues (event : DomainEvent) : (publishEvent event).Issues DbOp.Quiet :=
  issues_db trivial

theorem shipmentSeller_issues (req : AuthedRequest) (order : Order) :
    (shipmentSeller req order).Issues DbOp.Quiet := by
  rw [shipmentSeller]
  split
  · refine (issues_db trivial).bind fun ownItem => ?_
    split <;> trivial
  · trivial

/-! ## Releasing, cancelling, refunding -/

/-- Calls that release reservations. -/
def DbOp.OfRelease : DbOp → Prop
  | .reservationsActive _ | .productRestock _ => True
  | .reservationRelease _ status fromStatuses =>
    ¬ status.Active ∧ ∀ s ∈ fromStatuses, s.Active
  | _ => False

theorem releaseReservation_issues (id : ObjectId) {status : ReservationStatus}
    {fromStatuses : List ReservationStatus} (hs : ¬ status.Active)
    (hfrom : ∀ s ∈ fromStatuses, s.Active) :
    (releaseReservation id status fromStatuses).Issues DbOp.OfRelease := by
  refine (issues_db ⟨hs, hfrom⟩).bind fun released => ?_
  cases released with
  | none => trivial
  | some reservation => exact (issues_db trivial).bind fun _ => trivial

theorem releaseEach_issues {status : ReservationStatus} (hs : ¬ status.Active)
    (ids : List ObjectId) (released : Nat) :
    (releaseEach status ids released).Issues DbOp.OfRelease := by
  induction ids generalizing released with
  | nil => trivial
  | cons id rest ih =>
    exact (releaseReservation_issues id hs (by simp [ReservationStatus.Active])).bind fun _ => ih _

theorem releaseOrderReservations_issues (orderId : ObjectId) {status : ReservationStatus}
    (hs : ¬ status.Active) :
    (releaseOrderReservations orderId status).Issues DbOp.OfRelease :=
  (issues_db trivial).bind fun ids => releaseEach_issues hs ids 0

/-- Quiet calls, updates of an order that leave the payment alone, and writes of a shipment that has
not been read before or that may move on. -/
def DbOp.OfFulfilment (o : DbOp) : Prop :=
  o.Quiet ∨ match o with
    | .orderUpdate u _ => u.Plain
    | .shipmentUpsert shipment existing =>
      ∀ status, existing = some status → canTransitionShipment status shipment.status
    | _ => False

/-- The calls of the work that handlers other than a checkout do, payment transitions apart: quiet
ones, releases, commits, updates of an order, and the row of a payment event. -/
def DbOp.OfSettlement (o : DbOp) : Prop :=
  o.Quiet ∨ o.OfRelease ∨ match o with
    | .reservationsCommit _ | .paymentCreateEvent _ => True
    | .orderUpdate u _ => u.Settles
    | _ => False

/-- The calls of a webhook's work. -/
def DbOp.OfPayment (o : DbOp) : Prop :=
  o.OfSettlement ∨ match o with
    | .orderUpdate (.transition t) _ => t.Legal
    | _ => False

theorem DbOp.Quiet.ofSettlement {o : DbOp} (h : o.Quiet) : o.OfSettlement := .inl h

theorem DbOp.OfFulfilment.legal {o : DbOp} (h : o.OfFulfilment) : o.Legal := by
  rcases h with h | h
  · exact h.legal
  · cases o <;> first | exact OrderUpdate.Plain.legal h | trivial

theorem DbOp.OfRelease.ofSettlement {o : DbOp} (h : o.OfRelease) : o.OfSettlement := .inr (.inl h)

theorem DbOp.OfSettlement.legal {o : DbOp} (h : o.OfSettlement) : o.Legal := by
  rcases h with h | h | h
  · exact h.legal
  · cases o <;> trivial
  · cases o <;> first | exact (OrderUpdate.Settles.plain h).legal | trivial

theorem DbOp.OfPayment.legal {o : DbOp} (h : o.OfPayment) : o.Legal := by
  rcases h with h | h
  · exact h.legal
  · cases o with
    | orderUpdate u now => cases u <;> first | exact h | exact h.elim
    | _ => exact h.elim

theorem finishCancel_issues (tenant : String) (cancelled : Order) (refundOpened : Bool) :
    (finishCancel tenant cancelled refundOpened).Issues DbOp.OfSettlement := by
  refine ((releaseOrderReservations_issues _ (by decide)).mono fun _ h => h.ofSettlement).bind
    fun _ => ?_
  refine (issues_db (.inl trivial)).bind fun _ => ?_
  cases refundOpened with
  | false => trivial
  | true => exact (issues_db (.inl trivial)).bind fun _ => trivial

theorem cancelWork_issues (req : AuthedRequest) (id : ObjectId) (reason : String) (now : Time) :
    (cancelWork req id reason now).Issues DbOp.OfSettlement := by
  refine (issues_db (.inr (.inr trivial))).bind fun unpaid => ?_
  cases unpaid with
  | some cancelled => exact finishCancel_issues _ _ _
  | none =>
    refine (issues_db (.inr (.inr trivial))).bind fun paid => ?_
    cases paid with
    | some cancelled => exact finishCancel_issues _ _ _
    | none =>
      refine (issues_db (.inl trivial)).bind fun found => ?_
      cases found <;> trivial

theorem requestRefundWork_issues (limits : Limits) (req : AuthedRequest) (id : ObjectId)
    (reason : String) (now : Time) :
    (requestRefundWork limits req id reason now).Issues DbOp.OfSettlement := by
  refine (issues_db (.inr (.inr trivial))).bind fun updated => ?_
  cases updated with
  | none =>
    exact ((refundRejection_issues _ _ _ _).mono fun _ h => h.ofSettlement).bind fun _ => trivial
  | some order => exact (issues_db (.inl trivial)).bind fun _ => trivial

/-! ## Webhooks -/

theorem settleWebhook_issues (cfg : WebhookConfig) (d : Delivery) (eventId : String)
    (order : ObjectId) (type : WebhookType) (current : Order) :
    (settleWebhook cfg d eventId order type current).Issues DbOp.OfSettlement := by
  rw [settleWebhook]
  split
  · refine (issues_db (.inr (.inr trivial))).bind fun _ => ?_
    exact (issues_db (.inr (.inr trivial))).bind fun _ => trivial
  · refine ((releaseOrderReservations_issues _ (by decide)).mono fun _ h => h.ofSettlement).bind
      fun _ => ?_
    exact (issues_db (.inr (.inr trivial))).bind fun _ => trivial

theorem webhookWork_issues (cfg : WebhookConfig) (d : Delivery) (eventId : String) {order : Order}
    {body : WebhookBody} (now : Time)
    (hassert : assertPaymentTransition order.paymentStatus (TARGET_STATE body.type) = .ok ())
    (hcancelled : TARGET_STATE body.type = .paid → order.status ≠ .cancelled) :
    (webhookWork cfg d eventId order body now).Issues DbOp.OfPayment := by
  rw [webhookWork]
  split
  · next hne =>
    have hlegal := webhookTransition_legal d.providerName hne hassert hcancelled
    refine (issues_db (.inr hlegal)).bind fun moved => ?_
    cases moved with
    | none => trivial
    | some transitioned => exact (settleWebhook_issues _ _ _ _ _ _).mono fun _ => .inl
  · exact (settleWebhook_issues _ _ _ _ _ _).mono fun _ => .inl

theorem afterWebhook_issues (order : Order) (target : PaymentStatus) :
    (afterWebhook order target).Issues DbOp.Quiet :=
  (publishEvent_issues _).catching fun _ => trivial

/-! ## Sweeps and shipments -/

theorem expireOrder_issues (now : Time) (orderKey : ObjectId) :
    (expireOrder now orderKey).Issues DbOp.OfSettlement := by
  have hrelease := fun orderId => (releaseOrderReservations_issues orderId
    (by decide : ¬ ReservationStatus.expired.Active)).mono fun _ h => h.ofSettlement
  refine (issues_db (.inr (.inr trivial))).bind fun cancelled => ?_
  cases cancelled with
  | some cancelledOrder =>
    refine (hrelease _).bind fun _ => Prog.Issues.bind (Prog.Issues.catching ?_ fun _ => trivial)
      fun _ => trivial
    exact (publishEvent_issues _).mono fun _ h => h.ofSettlement
  | none =>
    refine (issues_db (.inl trivial)).bind fun found => ?_
    cases found with
    | none => exact (hrelease _).bind fun _ => trivial
    | some order =>
      dsimp only
      split
      · exact (issues_db (.inr (.inr trivial))).bind fun _ => trivial
      · trivial

theorem expireEach_issues (now : Time) (batch : List InventoryReservation)
    (handledOrders : List ObjectId) (acc : SweepResult) :
    (expireEach now batch handledOrders acc).Issues DbOp.OfSettlement := by
  induction batch generalizing handledOrders acc with
  | nil => trivial
  | cons reservation rest ih =>
    rw [expireEach]
    split
    · refine Prog.Issues.bind ((releaseReservation_issues _ (by decide) ?_).mono
        fun _ h => h.ofSettlement) fun _ => ih _ _
      simp [ReservationStatus.Active]
    · split
      · exact ih _ _
      · exact (expireOrder_issues _ _).bind fun _ => ih _ _

theorem releaseExpiredReservations_issues (now : Time) (batchSize : Nat) :
    (releaseExpiredReservations now batchSize).Issues DbOp.OfSettlement :=
  (issues_db (.inl trivial)).bind fun _ => expireEach_issues _ _ _ _

/-- What follows a stored shipment reads products and shipments, and moves the order on. -/
theorem advanceOrder_issues_of {φ : DbOp → Prop} (order : Order) (now : Time)
    (hproducts : ∀ ids, φ (.productSellers ids))
    (hshipments : φ (.shipmentsOf order.id))
    (hadvance : ∀ status ∈ STATUS_FOR_RANK,
      φ (.orderUpdate (.advance order.id (behindStatuses ((FULFILMENT_RANK status).getD 0)) status) now)) :
    (advanceOrder order now).Issues φ := by
  refine Prog.Issues.bind ?_ fun rank => ?_
  · refine (issues_db (hproducts _)).bind fun _ => ?_
    exact (issues_db hshipments).bind fun _ => trivial
  · dsimp only
    split
    · trivial
    · next nextStatus hnext =>
      obtain ⟨n, -, hn⟩ := Option.bind_eq_some_iff.1 hnext
      split
      · exact (issues_db (hadvance nextStatus (List.mem_of_getElem? hn))).bind fun _ => trivial
      · trivial

theorem advanceOrder_issues (order : Order) (now : Time) :
    (advanceOrder order now).Issues DbOp.OfFulfilment :=
  advanceOrder_issues_of order now (fun _ => .inl trivial) (.inl trivial) fun _ hstatus => .inr ⟨hstatus, rfl⟩

theorem upsertShipment_issues (req : AuthedRequest) (orderId : ObjectId) (value : ShipmentInput)
    (now : Time) : (upsertShipment req orderId value now).Issues DbOp.OfFulfilment := by
  refine (issues_db (.inl trivial)).bind fun found => ?_
  cases found with
  | none => trivial
  | some order =>
    dsimp only
    split
    · trivial
    · refine ((shipmentSeller_issues req order).mono fun _ h => .inl h).bind fun seller => ?_
      refine (issues_db (.inl trivial)).bind fun existing => ?_
      split
      · trivial
      · next hfilter =>
        have hmay : ∀ status, existing = some status → canTransitionShipment status value.status := by
          rintro status rfl
          simpa [Option.filter_some] using hfilter
        refine (issues_db (.inr hmay)).bind fun stored => ?_
        cases stored with
        | none => trivial
        | some shipment =>
          exact (advanceOrder_issues order now).bind fun _ =>
            ((publishEvent_issues _).mono fun _ h => .inl h).bind fun _ => trivial

/-! ## Checkouts -/

section Checkout

variable {α β : Type} {φ ψ : DbOp → Prop}

theorem checkoutM_bind (m : CheckoutM α) (f : α → CheckoutM β) (undo : List DbOp) :
    (m >>= f).run.run undo = (m.run.run undo).bind fun r =>
      match r with
      | (.ok a, undo') => (f a).run.run undo'
      | (.error e, undo') => .done (.ok (.error e, undo')) := by
  show Prog.bind _ _ = _
  congr 1
  funext r
  obtain ⟨r, undo'⟩ := r
  cases r <;> rfl

/-- The steps make calls within `φ` and keep the undo list within `ψ`. -/
def CheckoutM.Within (φ ψ : DbOp → Prop) (m : CheckoutM α) : Prop :=
  ∀ undo : List DbOp, (∀ o ∈ undo, ψ o) →
    (m.run.run undo).Issues φ ∧ (m.run.run undo).Yields fun r => ∀ o ∈ r.2, ψ o

namespace CheckoutM.Within

theorem bind {m : CheckoutM α} {f : α → CheckoutM β} (h : m.Within φ ψ)
    (hf : ∀ a, (f a).Within φ ψ) : (m >>= f).Within φ ψ := by
  intro undo hundo
  obtain ⟨hissues, hyields⟩ := h undo hundo
  rw [checkoutM_bind]
  refine ⟨hissues.bind_of_yields hyields fun r hr => ?_, hyields.bind fun r hr => ?_⟩
  all_goals
    obtain ⟨r | r, undo'⟩ := r
    · trivial
  · exact (hf r undo' hr).1
  · exact (hf r undo' hr).2

theorem pure (a : α) : (Pure.pure a : CheckoutM α).Within φ ψ := fun _ h => ⟨trivial, h⟩

theorem throw (e : ApiError) : (MonadExcept.throw e : CheckoutM α).Within φ ψ :=
  fun _ h => ⟨trivial, h⟩

theorem attempt {p : MongoM α} (h : p.Issues φ) : (Ecommerce.attempt p).Within φ ψ :=
  fun _ hundo => ⟨h.attempt.bind fun _ => trivial, (Prog.yields_true _).bind fun _ _ => hundo⟩

theorem pushUndo {o : DbOp} (h : ψ o) : (Ecommerce.pushUndo o).Within φ ψ :=
  fun _ hundo => ⟨trivial, fun o' ho' => by
    rcases List.mem_cons.1 ho' with rfl | ho'
    · exact h
    · exact hundo o' ho'⟩

theorem forM {x : Option α} {f : α → CheckoutM PUnit} (hf : ∀ a, (f a).Within φ ψ) :
    (x.forM f).Within φ ψ := by
  cases x with
  | none => exact CheckoutM.Within.pure PUnit.unit
  | some a => exact hf a

end CheckoutM.Within

/-- The calls that undo a step of a checkout. -/
def DbOp.IsUndo : DbOp → Prop
  | .productUnreserve .. | .reservationUndo _ | .couponUnclaim _ | .orderDelete _ => True
  | _ => False

/-- The calls of the steps of a checkout. -/
def DbOp.OfCheckout (o : DbOp) : Prop :=
  o.Reads ∨ match o with
    | .cartClear .. | .productReserve .. | .reservationCreate _ | .reservationLink ..
    | .couponClaim .. | .redemptionCreate _ | .orderCreate .. => True
    | _ => False

theorem DbOp.OfCheckout.legal {o : DbOp} (h : o.OfCheckout) : o.Legal := by
  rcases h with h | h
  · exact h.quiet.legal
  · cases o <;> trivial

theorem DbOp.IsUndo.legal {o : DbOp} (h : o.IsUndo) : o.Legal := by
  cases o <;> trivial

theorem reserveItem_within (req : AuthedRequest) (expiresAt : Time) (item : CartItem)
    (acc : CheckoutLines) :
    (reserveItem req expiresAt item acc).Within DbOp.OfCheckout DbOp.IsUndo := by
  refine (CheckoutM.Within.attempt (issues_db (.inr trivial))).bind fun product => ?_
  cases product with
  | none => exact .throw _
  | some product =>
    refine (CheckoutM.Within.pushUndo trivial).bind fun _ => ?_
    refine (CheckoutM.Within.attempt (issues_db (.inr trivial))).bind fun reservation => ?_
    exact (CheckoutM.Within.pushUndo trivial).bind fun _ => .pure _

theorem reserveItems_within (req : AuthedRequest) (expiresAt : Time) (items : List CartItem)
    (acc : CheckoutLines) :
    (reserveItems req expiresAt items acc).Within DbOp.OfCheckout DbOp.IsUndo := by
  induction items generalizing acc with
  | nil => exact .pure _
  | cons item rest ih => exact (reserveItem_within req expiresAt item acc).bind fun _ => ih _

theorem claimCoupon_within (coupon : Coupon) :
    (claimCoupon coupon).Within DbOp.OfCheckout DbOp.IsUndo := by
  refine (CheckoutM.Within.attempt (issues_db (.inr trivial))).bind fun claimed => ?_
  cases claimed with
  | true => exact .pushUndo trivial
  | false => exact .throw _

theorem placeOrder_within (limits : Limits) (req : AuthedRequest) (value : CheckoutInput)
    (now : Time) (cart : Cart) :
    (placeOrder limits req value now cart).Within DbOp.OfCheckout DbOp.IsUndo := by
  refine (reserveItems_within req _ cart.items _).bind fun lines => ?_
  refine (CheckoutM.Within.attempt ((validateCouponForUser_issues _ _ _ _ _).mono
    fun _ h => .inl h)).bind fun outcome => ?_
  refine (CheckoutM.Within.forM claimCoupon_within).bind fun _ => ?_
  refine (CheckoutM.Within.attempt (issues_db (.inr trivial))).bind fun order => ?_
  refine (CheckoutM.Within.pushUndo trivial).bind fun _ => ?_
  refine (CheckoutM.Within.attempt (issues_db (.inr trivial))).bind fun _ => ?_
  refine (CheckoutM.Within.forM fun coupon =>
    .attempt (issues_db (.inr trivial))).bind fun _ => ?_
  exact (CheckoutM.Within.attempt (issues_db (.inr trivial))).bind fun _ => .pure _

theorem checkoutSteps_within (limits : Limits) (req : AuthedRequest) (value : CheckoutInput)
    (now : Time) :
    (checkoutSteps limits req value now).Within DbOp.OfCheckout DbOp.IsUndo := by
  refine (CheckoutM.Within.attempt (issues_db (.inl trivial))).bind fun cart => ?_
  cases cart with
  | none => exact .throw _
  | some cart =>
    dsimp only
    split
    · exact .throw _
    · exact placeOrder_within limits req value now cart

theorem compensate_cons (o : DbOp) (rest : List DbOp) :
    compensate (o :: rest) = .call o fun _ => compensate rest := by
  show Prog.call (S := Mongo) o _ = _
  congr 1
  funext out
  cases out <;> rfl

theorem compensate_issues {undo : List DbOp} (h : ∀ o ∈ undo, φ o) :
    (compensate undo).Issues φ := by
  induction undo with
  | nil => trivial
  | cons o rest ih =>
    have ho : φ o := h o (by simp)
    refine Prog.Issues.bind (Prog.Issues.catching ?_ fun _ => trivial) fun _ => ih ?_
    · exact (issues_db ho).bind fun _ => trivial
    · exact fun o' ho' => h o' (by simp [ho'])

/-- With a session a checkout only makes the calls of its steps. -/
theorem executeCheckout_issues (limits : Limits) (req : AuthedRequest) (value : CheckoutInput)
    (now : Time) : (executeCheckout limits req value now true).Issues DbOp.OfCheckout := by
  refine (checkoutSteps_within limits req value now [] (by simp)).1.bind fun r => ?_
  obtain ⟨r | r, undo⟩ := r <;> trivial

theorem executeCheckout_standalone_issues (limits : Limits) (req : AuthedRequest)
    (value : CheckoutInput) (now : Time) :
    (executeCheckout limits req value now false).Issues fun o : DbOp => o.OfCheckout ∨ o.IsUndo := by
  obtain ⟨hissues, hyields⟩ := checkoutSteps_within limits req value now [] (by simp)
  refine (hissues.mono fun _ => .inl).bind_of_yields hyields fun r hr => ?_
  obtain ⟨r | r, undo⟩ := r
  · exact (compensate_issues fun o ho => .inr (hr o ho)).bind fun _ => trivial
  · trivial

end Checkout

/-! ## Handlers -/

section Handlers

variable {W : TxOp Mongo ApiError → Prop} {φ : DbOp → Prop}

theorem issues_embed {α : Type} (hop : ∀ o, φ o → W (.op o)) {p : MongoM α} (h : p.Issues φ) :
    p.embed.Issues W :=
  h.embed_single.mono fun o ho => by
    cases o with
    | op o => exact hop o ho
    | txn work => exact ho.elim

theorem runInTransaction_issues {α : Type} {deployment : Deployment}
    (hop : ∀ o, φ o → W (.op o))
    (htxn : deployment = .replicaSet → ∀ {β : Type} (p : MongoM β), p.Issues φ → W (.txn p))
    {work : Bool → MongoM α} (h : ∀ session, (work session).Issues φ) :
    (runInTransaction deployment work).Issues W := by
  cases deployment with
  | replicaSet => exact Prog.issues_perform (S := Mongo.tx ApiError) (htxn rfl _ (h true))
  | standalone => exact issues_embed hop (h false)

/-- The calls of the work that a handler does in a transaction, where it has one. -/
def DbOp.OfTransaction (o : DbOp) : Prop := o.OfCheckout ∨ o.IsUndo ∨ o.OfPayment

/-- The calls of all handlers. -/
def DbOp.OfHandler (o : DbOp) : Prop := o.OfTransaction ∨ o.OfFulfilment

theorem DbOp.OfTransaction.legal {o : DbOp} (h : o.OfTransaction) : o.Legal := by
  rcases h with h | h | h
  · exact h.legal
  · exact h.legal
  · exact h.legal

theorem DbOp.OfHandler.legal {o : DbOp} (h : o.OfHandler) : o.Legal := by
  rcases h with h | h
  · exact h.legal
  · exact h.legal

theorem DbOp.OfPayment.ofTransaction {o : DbOp} (h : o.OfPayment) : o.OfTransaction := .inr (.inr h)

/-- What a handler may issue that neither checks out nor upserts a shipment. -/
theorem handler_issues_payment {cfg : ServerConfig} {request : Request} (hcheckout : request.isCheckout = false)
    (hship : ∀ req id value now, request ≠ .shipment req id value now)
    (hwork : ∀ o : DbOp, o.OfPayment → W (.op o))
    (htxn : cfg.deployment = .replicaSet →
      ∀ {β : Type} (p : MongoM β), p.Issues DbOp.OfPayment → W (.txn p)) :
    (request.handler cfg).Issues W := by
  cases request with
  | checkout req value now => cases hcheckout
  | cancel req id reason now =>
    refine Prog.Issues.map (Prog.Issues.bind (runInTransaction_issues hwork htxn fun _ => ?_)
      fun _ => trivial)
    exact (cancelWork_issues _ _ _ _).mono fun _ => .inl
  | requestRefund req id reason now =>
    refine Prog.Issues.map (runInTransaction_issues hwork htxn fun _ => ?_)
    exact (requestRefundWork_issues _ _ _ _ _).mono fun _ => .inl
  | webhook delivery now =>
    refine Prog.Issues.map ?_
    rw [processWebhook]
    split
    · trivial
    · next eventId _ =>
      refine Prog.Issues.bind_of_yields
        (issues_embed hwork ((readWebhook_issues _ _ _).mono fun _ h => .inl h.quiet.ofSettlement))
        (readWebhook_yields cfg.webhook delivery eventId).embed fun read hread => ?_
      match read, hread with
      | none, _ => trivial
      | some (order, body), hread =>
        obtain ⟨hassert, hcancelled⟩ := hread order body rfl
        refine Prog.Issues.bind (runInTransaction_issues hwork htxn fun _ => ?_) fun updated => ?_
        · exact webhookWork_issues _ _ _ _ hassert hcancelled
        · exact (issues_embed hwork ((afterWebhook_issues _ _).mono fun _ h => .inl h.ofSettlement)).bind
            fun _ => trivial
  | sweep now batchSize =>
    exact issues_embed hwork
      (Prog.Issues.map ((releaseExpiredReservations_issues _ _).mono fun _ => .inl))
  | shipment req orderId value now => exact absurd rfl (hship req orderId value now)

/-- What a handler may issue that upserts no shipment. -/
theorem handler_issues_unshipped {cfg : ServerConfig} {request : Request}
    (hship : ∀ req id value now, request ≠ .shipment req id value now)
    (hwork : ∀ o : DbOp, o.OfTransaction → W (.op o))
    (htxn : cfg.deployment = .replicaSet →
      ∀ {β : Type} (p : MongoM β), p.Issues DbOp.OfTransaction → W (.txn p)) :
    (request.handler cfg).Issues W := by
  by_cases hcheckout : ∃ req value now, request = .checkout req value now
  · obtain ⟨req, value, now, rfl⟩ := hcheckout
    refine Prog.Issues.map (runInTransaction_issues hwork htxn fun session => ?_)
    cases session with
    | true => exact (executeCheckout_issues _ _ _ _).mono fun _ h => .inl h
    | false =>
      exact (executeCheckout_standalone_issues _ _ _ _).mono fun _ h =>
        h.elim .inl fun h => .inr (.inl h)
  · refine handler_issues_payment ?_ hship (fun o h => hwork o h.ofTransaction)
      fun hreplica _ p h => htxn hreplica p (h.mono fun _ h => h.ofTransaction)
    cases request with
    | checkout req value now => exact absurd ⟨req, value, now, rfl⟩ hcheckout
    | _ => rfl

/-- What a handler may issue, in and out of transactions. -/
theorem handler_issues {cfg : ServerConfig} (hop : ∀ o : DbOp, o.OfHandler → W (.op o))
    (htxn : cfg.deployment = .replicaSet →
      ∀ {β : Type} (p : MongoM β), p.Issues DbOp.OfTransaction → W (.txn p)) (request : Request) :
    (request.handler cfg).Issues W := by
  by_cases hship : ∃ req id value now, request = .shipment req id value now
  · obtain ⟨req, orderId, value, now, rfl⟩ := hship
    exact issues_embed hop
      (Prog.Issues.map ((upsertShipment_issues _ _ _ _).mono fun _ h => .inr h))
  · exact handler_issues_unshipped (fun _ _ _ _ h => hship ⟨_, _, _, _, h⟩)
      (fun o h => hop o (.inl h)) htxn

/-- Every update of an order that a handler makes is legal. -/
theorem handler_issues_legal (cfg : ServerConfig) (request : Request) :
    (request.handler cfg).Issues (TxOp.Within DbOp.Legal) :=
  handler_issues (fun _ h => h.legal) (fun _ _ _ h => h.mono fun _ h => h.legal) request

/-- A standalone server has no transactions. -/
theorem handler_issues_standalone {cfg : ServerConfig} (hstandalone : cfg.deployment = .standalone)
    (request : Request) : (request.handler cfg).Issues (TxOp.Single DbOp.Legal) :=
  handler_issues (fun _ h => h.legal) (fun h => by simp [hstandalone] at h) request

end Handlers

/-- Outside of transactions, every call is one of these. -/
def TxOp.Outside (φ : DbOp → Prop) : TxOp Mongo ApiError → Prop
  | .op o => φ o
  | .txn _ => True

/-- On a replica set, requests other than a sweep and a shipment make quiet calls, and transactions of
the four kinds of work. -/
theorem handler_issues_transacted {cfg : ServerConfig} {W : TxOp Mongo ApiError → Prop}
    (hreplica : cfg.deployment = .replicaSet) (hop : ∀ o : DbOp, o.Quiet → W (.op o))
    (hcheckout : ∀ limits req value now, W (.txn (executeCheckout limits req value now true)))
    (hcancel : ∀ req id reason now, W (.txn (cancelWork req id reason now)))
    (hrefund : ∀ limits req id reason now, W (.txn (requestRefundWork limits req id reason now)))
    (hwebhook : ∀ d eventId order body now, Payable (some (order, body)) →
      W (.txn (webhookWork cfg.webhook d eventId order body now)))
    {request : Request} (hsweep : request.isSweep = false)
    (hship : ∀ req id value now, request ≠ .shipment req id value now) :
    (request.handler cfg).Issues W := by
  have hwork : ∀ {α : Type} (work : Bool → MongoM α), W (.txn (work true)) →
      (runInTransaction cfg.deployment work).Issues W := by
    intro α work h
    rw [hreplica]
    exact Prog.issues_perform (S := Mongo.tx ApiError) h
  cases request with
  | checkout req value now => exact (hwork _ (hcheckout _ _ _ _)).map
  | cancel req id reason now =>
    exact Prog.Issues.map ((hwork _ (hcancel _ _ _ _)).bind fun _ => trivial)
  | requestRefund req id reason now => exact (hwork _ (hrefund _ _ _ _ _)).map
  | webhook delivery now =>
    refine Prog.Issues.map ?_
    rw [processWebhook]
    split
    · trivial
    · next eventId _ =>
      refine Prog.Issues.bind_of_yields
        (issues_embed hop ((readWebhook_issues _ _ _).mono fun _ h => h.quiet))
        (readWebhook_yields cfg.webhook delivery eventId).embed fun read hread => ?_
      match read, hread with
      | none, _ => trivial
      | some (order, body), hread =>
        refine (hwork _ (hwebhook delivery eventId order body now hread)).bind fun updated => ?_
        exact (issues_embed hop (afterWebhook_issues _ _)).bind fun _ => trivial
  | sweep now batchSize => cases hsweep
  | shipment req orderId value now => exact absurd rfl (hship req orderId value now)

/-- On a replica set, requests other than a sweep make quiet calls, updates of an order that leave
the payment alone, and transactions of the four kinds of work. -/
theorem handler_issues_replicaSet {cfg : ServerConfig} {W : TxOp Mongo ApiError → Prop}
    (hreplica : cfg.deployment = .replicaSet) (hop : ∀ o : DbOp, o.OfFulfilment → W (.op o))
    (hcheckout : ∀ limits req value now, W (.txn (executeCheckout limits req value now true)))
    (hcancel : ∀ req id reason now, W (.txn (cancelWork req id reason now)))
    (hrefund : ∀ limits req id reason now, W (.txn (requestRefundWork limits req id reason now)))
    (hwebhook : ∀ d eventId order body now, Payable (some (order, body)) →
      W (.txn (webhookWork cfg.webhook d eventId order body now)))
    {request : Request} (hsweep : request.isSweep = false) : (request.handler cfg).Issues W := by
  by_cases hship : ∃ req id value now, request = .shipment req id value now
  · obtain ⟨req, orderId, value, now, rfl⟩ := hship
    exact issues_embed hop (Prog.Issues.map (upsertShipment_issues _ _ _ _))
  · exact handler_issues_transacted hreplica (fun o h => hop o (.inl h)) hcheckout hcancel hrefund
      hwebhook hsweep fun _ _ _ _ h => hship ⟨_, _, _, _, h⟩

end Ecommerce
