import Ecommerce.Orders.Fulfilment

/-!
# Cancellations and refunds in the outbox

`OrderService.cancel` and `requestRefund` record their events in the transaction that changes the
order. A refund opens once, since its status never returns to `none`, and an order is cancelled once,
so the events count what has happened.
-/

namespace Ecommerce

open Effect Effect.Collection

/-! ## Events -/

/-- How many events of a type an order has. -/
def Db.eventsOf (s : Db) (type : EventType) (k : ObjectId) : Nat :=
  s.domainEvents.countP fun e => e.type == type && e.aggregateId == k

/-- The events that each kind of request may record. -/
def Request.tells : Request → List EventType
  | .checkout .. => []
  | .cancel .. => [.orderCancelled, .refundRequested]
  | .requestRefund .. => [.refundRequested]
  | .webhook .. => [.paymentCompleted, .paymentFailed, .paymentRefunded]
  | .sweep .. => [.orderCancelled]
  | .shipment .. => [.shipmentUpdated]

/-- A call whose event, if it records one, is of one of these types. -/
def DbOp.Tells (types : List EventType) (o : DbOp) : Prop := ∀ e, o = .eventCreate e → e.type ∈ types

variable {types : List EventType}

theorem DbOp.Reads.tells {o : DbOp} (h : o.Reads) : o.Tells types := by
  rintro e rfl
  exact h.elim

theorem DbOp.OfRelease.tells {o : DbOp} (h : o.OfRelease) : o.Tells types := by
  rintro e rfl
  exact h.elim

theorem DbOp.OfCheckout.tells {o : DbOp} (h : o.OfCheckout) : o.Tells types := by
  rintro e rfl
  exact (h.elim id id).elim

theorem DbOp.IsUndo.tells {o : DbOp} (h : o.IsUndo) : o.Tells types := by
  rintro e rfl
  exact h.elim

theorem publishEvent_tells {e : DomainEvent} (h : e.type ∈ types) :
    (publishEvent e).Issues (DbOp.Tells types) := by
  refine issues_db ?_
  rintro e' ⟨⟩
  exact h

theorem releaseOrderReservations_tells (orderId : ObjectId) {status : ReservationStatus}
    (hs : ¬ status.Active) :
    (releaseOrderReservations orderId status).Issues (DbOp.Tells types) :=
  (releaseOrderReservations_issues orderId hs).mono fun _ h => h.tells

theorem finishCancel_tells (tenant : String) (cancelled : Order) (refundOpened : Bool) :
    (finishCancel tenant cancelled refundOpened).Issues
      (DbOp.Tells [.orderCancelled, .refundRequested]) := by
  refine (releaseOrderReservations_tells _ (by decide)).bind fun _ => ?_
  refine Prog.Issues.bind (publishEvent_tells (e := ⟨.orderCancelled, cancelled.id, tenant⟩) (by simp))
    fun _ => ?_
  cases refundOpened with
  | false => trivial
  | true =>
    exact Prog.Issues.bind
      (publishEvent_tells (e := ⟨.refundRequested, cancelled.id, tenant⟩) (by simp)) fun _ => trivial

theorem cancelWork_tells (req : AuthedRequest) (id : ObjectId) (reason : String) (now : Time) :
    (cancelWork req id reason now).Issues (DbOp.Tells [.orderCancelled, .refundRequested]) := by
  refine (issues_db (by simp [DbOp.Tells])).bind fun unpaid => ?_
  cases unpaid with
  | some cancelled => exact finishCancel_tells _ _ _
  | none =>
    refine (issues_db (by simp [DbOp.Tells])).bind fun paid => ?_
    cases paid with
    | some cancelled => exact finishCancel_tells _ _ _
    | none =>
      refine (issues_db (by simp [DbOp.Tells])).bind fun found => ?_
      cases found <;> trivial

theorem requestRefundWork_tells (limits : Limits) (req : AuthedRequest) (id : ObjectId)
    (reason : String) (now : Time) :
    (requestRefundWork limits req id reason now).Issues (DbOp.Tells [.refundRequested]) := by
  refine (issues_db (by simp [DbOp.Tells])).bind fun updated => ?_
  cases updated with
  | none =>
    refine Prog.Issues.bind (f := fun e => throw e) ?_ fun _ => trivial
    refine (issues_db (by simp [DbOp.Tells])).bind fun found => ?_
    cases found with
    | none => trivial
    | some order =>
      dsimp only
      repeat' split
      all_goals trivial
  | some order =>
    exact Prog.Issues.bind
      (publishEvent_tells (e := ⟨.refundRequested, order.id, req.tenant⟩) (by simp)) fun _ => trivial

theorem webhookWork_tells (cfg : WebhookConfig) (d : Delivery) (eventId : String) (order : Order)
    (body : WebhookBody) (now : Time) :
    (webhookWork cfg d eventId order body now).Issues (DbOp.Tells types) := by
  have hsettle : ∀ current, (settleWebhook cfg d eventId order.id body.type current).Issues
      (DbOp.Tells types) := by
    intro current
    rw [settleWebhook]
    split
    · exact (issues_db (by simp [DbOp.Tells])).bind fun _ => (issues_db (by simp [DbOp.Tells])).bind fun _ => trivial
    · refine (releaseOrderReservations_tells _ (by decide)).bind fun _ => ?_
      exact (issues_db (by simp [DbOp.Tells])).bind fun _ => trivial
  rw [webhookWork]
  split
  · refine (issues_db (by simp [DbOp.Tells])).bind fun moved => ?_
    cases moved with
    | none => trivial
    | some transitioned => exact hsettle _
  · exact hsettle _

theorem expireOrder_tells (now : Time) (orderKey : ObjectId) :
    (expireOrder now orderKey).Issues (DbOp.Tells [.orderCancelled]) := by
  refine (issues_db (by simp [DbOp.Tells])).bind fun cancelled => ?_
  cases cancelled with
  | some cancelledOrder =>
    refine (releaseOrderReservations_tells _ (by decide)).bind fun _ => Prog.Issues.bind ?_
      fun _ => trivial
    exact (publishEvent_tells (by simp)).catching fun _ => trivial
  | none =>
    refine (issues_db (by simp [DbOp.Tells])).bind fun found => ?_
    cases found with
    | none => exact (releaseOrderReservations_tells _ (by decide)).bind fun _ => trivial
    | some order =>
      dsimp only
      split
      · exact (issues_db (by simp [DbOp.Tells])).bind fun _ => trivial
      · trivial

theorem releaseReservation_tells (id : ObjectId) (status : ReservationStatus)
    (fromStatuses : List ReservationStatus) :
    (releaseReservation id status fromStatuses).Issues (DbOp.Tells types) := by
  refine (issues_db (by simp [DbOp.Tells])).bind fun released => ?_
  cases released with
  | none => trivial
  | some reservation => exact (issues_db (by simp [DbOp.Tells])).bind fun _ => trivial

theorem releaseExpiredReservations_tells (now : Time) (batchSize : Nat) :
    (releaseExpiredReservations now batchSize).Issues (DbOp.Tells [.orderCancelled]) := by
  refine (issues_db (by simp [DbOp.Tells])).bind fun expired => ?_
  have heach : ∀ (batch : List InventoryReservation) (handledOrders : List ObjectId)
      (acc : SweepResult),
      (expireEach now batch handledOrders acc).Issues (DbOp.Tells [.orderCancelled]) := by
    intro batch
    induction batch with
    | nil => exact fun _ _ => trivial
    | cons reservation rest ih =>
      intro handledOrders acc
      rw [expireEach]
      split
      · exact (releaseReservation_tells _ _ _).bind fun _ => ih _ _
      · split
        · exact ih _ _
        · exact (expireOrder_tells _ _).bind fun _ => ih _ _
  exact heach _ _ _

theorem upsertShipment_tells (req : AuthedRequest) (orderId : ObjectId) (value : ShipmentInput)
    (now : Time) : (upsertShipment req orderId value now).Issues (DbOp.Tells [.shipmentUpdated]) := by
  refine (issues_db (by simp [DbOp.Tells])).bind fun found => ?_
  cases found with
  | none => trivial
  | some order =>
    dsimp only
    split
    · trivial
    · refine Prog.Issues.bind ?_ fun seller => ?_
      · rw [shipmentSeller]
        split
        · refine (issues_db (by simp [DbOp.Tells])).bind fun ownItem => ?_
          split <;> trivial
        · trivial
      · refine (issues_db (by simp [DbOp.Tells])).bind fun existing => ?_
        split
        · trivial
        · refine (issues_db (by simp [DbOp.Tells])).bind fun stored => ?_
          cases stored with
          | none => trivial
          | some shipment =>
            have hadvance := advanceOrder_issues_of (φ := DbOp.Tells [.shipmentUpdated]) order now
              (by simp [DbOp.Tells]) (by simp [DbOp.Tells]) (by simp [DbOp.Tells])
            exact hadvance.bind fun _ => (publishEvent_tells (by simp)).bind fun _ => trivial

/-- A handler records events of its own types only. -/
theorem handler_tells (cfg : ServerConfig) (request : Request) :
    (request.handler cfg).Issues (TxOp.Within (DbOp.Tells request.tells)) := by
  have hop : ∀ o : DbOp, o.Tells request.tells →
      TxOp.Within (DbOp.Tells request.tells) (.op o : TxOp Mongo ApiError) := fun _ h => h
  have htxn : cfg.deployment = .replicaSet → ∀ {β : Type} (p : MongoM β),
      p.Issues (DbOp.Tells request.tells) →
        TxOp.Within (DbOp.Tells request.tells) (.txn p : TxOp Mongo ApiError) := fun _ _ _ h => h
  cases request with
  | checkout req value now =>
    refine Prog.Issues.map (runInTransaction_issues hop htxn fun session => ?_)
    cases session with
    | true => exact (executeCheckout_issues _ _ _ _).mono fun _ h => h.tells
    | false =>
      exact (executeCheckout_standalone_issues _ _ _ _).mono fun _ h => h.elim (·.tells) (·.tells)
  | cancel req id reason now =>
    exact Prog.Issues.map (Prog.Issues.bind
      (runInTransaction_issues hop htxn fun _ => cancelWork_tells _ _ _ _) fun _ => trivial)
  | requestRefund req id reason now =>
    exact Prog.Issues.map
      (runInTransaction_issues hop htxn fun _ => requestRefundWork_tells _ _ _ _ _)
  | webhook delivery now =>
    refine Prog.Issues.map ?_
    rw [processWebhook]
    split
    · trivial
    · refine Prog.Issues.bind
        (issues_embed hop ((readWebhook_issues _ _ _).mono fun _ h => h.tells)) fun read => ?_
      obtain _ | ⟨order, body⟩ := read
      · trivial
      · refine Prog.Issues.bind (runInTransaction_issues hop htxn
          fun _ => webhookWork_tells _ _ _ _ _ _) fun updated => ?_
        refine (issues_embed hop ?_).bind fun _ => trivial
        refine (publishEvent_tells ?_).catching fun _ => trivial
        cases body.type <;> simp [TARGET_STATE, paymentEventType, Request.tells]
  | sweep now batchSize =>
    exact issues_embed hop (Prog.Issues.map (releaseExpiredReservations_tells _ _))
  | shipment req orderId value now =>
    exact issues_embed hop (Prog.Issues.map (upsertShipment_tells _ _ _ _))

theorem exec_domainEvents {o : DbOp} (h : ∀ e, o ≠ .eventCreate e) (s : Db) :
    (mongo.exec o s).2.domainEvents = s.domainEvents := by
  cases o <;> first
    | exact absurd rfl (h _)
    | rfl
    | (simp only [mongo, Db.exec]; split <;> first | rfl | (split <;> rfl))

theorem exec_eventsOf {o : DbOp} (h : o.Tells types) {type : EventType} (htype : type ∉ types)
    (k : ObjectId) (s : Db) : (mongo.exec o s).2.eventsOf type k = s.eventsOf type k := by
  by_cases hevent : ∃ e, o = .eventCreate e
  · obtain ⟨e, rfl⟩ := hevent
    have hne : e.type ≠ type := fun heq => htype (heq ▸ h e rfl)
    show (s.domainEvents ++ [e]).countP _ = _
    rw [List.countP_append, List.countP_singleton, if_neg (by simp [hne]), Nat.add_zero]
    rfl
  · rw [Db.eventsOf, exec_domainEvents (fun e he => hevent ⟨e, he⟩), Db.eventsOf]

theorem transactional_eventsOf {o : TxOp Mongo ApiError} (h : o.Within (DbOp.Tells types))
    {type : EventType} (htype : type ∉ types) (k : ObjectId) (s : Db) :
    (mongo.transactional.exec o s).2.eventsOf type k = s.eventsOf type k :=
  Machine.transactional_keeps (I := fun x => x.eventsOf type k = s.eventsOf type k)
    (fun _ ho x hx => (exec_eventsOf ho htype k x).trans hx) o h s rfl

/-! ## What the two transactions do -/

/-- The refund of the order opens between the two. -/
def Db.refundOpened (k : ObjectId) (s t : Db) : Bool :=
  (s.orders.get? k).any (·.refundStatus == .none) && (t.orders.get? k).any (·.refundStatus == .requested)

/-- The order is cancelled between the two. -/
def Db.cancelled (k : ObjectId) (s t : Db) : Bool :=
  (s.orders.get? k).any (·.status != .cancelled) && (t.orders.get? k).any (·.status == .cancelled)

theorem refundOpened_of_get? {k : ObjectId} {s t : Db} (h : t.orders.get? k = s.orders.get? k) :
    Db.refundOpened k s t = false := by
  unfold Db.refundOpened
  rw [h]
  cases s.orders.get? k with
  | none => rfl
  | some o => cases ho : o.refundStatus <;> simp [ho]

theorem cancelled_of_get? {k : ObjectId} {s t : Db} (h : t.orders.get? k = s.orders.get? k) :
    Db.cancelled k s t = false := by
  unfold Db.cancelled
  rw [h]
  cases s.orders.get? k with
  | none => rfl
  | some o => cases ho : o.status <;> simp [ho]

theorem finishCancel_eval {tenant : String} {cancelled : Order} {refundOpened : Bool} {s t : Db}
    {r : CancelResult} (h : (finishCancel tenant cancelled refundOpened).eval mongo s = (.ok r, t)) :
    t.orders = s.orders ∧ t.domainEvents = s.domainEvents ++ (⟨.orderCancelled, cancelled.id, tenant⟩ ::
      if refundOpened then [⟨.refundRequested, cancelled.id, tenant⟩] else []) := by
  obtain ⟨_, u, hrelease, hrest⟩ := Prog.eval_bind_ok.1 h
  have hkeep : u.orders = s.orders ∧ u.domainEvents = s.domainEvents := by
    have hissues := releaseOrderReservations_issues cancelled.id
      (by decide : ¬ ReservationStatus.released.Active)
    have hkept := Prog.Issues.eval (M := mongo)
      (I := fun x : Db => x.orders = s.orders ∧ x.domainEvents = s.domainEvents) hissues
      (fun o ho x hx => ⟨(exec_orders ho.not_writesOrders x).1.trans hx.1,
        (exec_domainEvents (by rintro e rfl; exact ho) x).trans hx.2⟩) ⟨rfl, rfl⟩
    rwa [hrelease] at hkept
  cases refundOpened with
  | false =>
    obtain ⟨-, rfl⟩ := Prod.mk.inj hrest
    exact ⟨hkeep.1, congrArg (· ++ _) hkeep.2⟩
  | true =>
    obtain ⟨-, rfl⟩ := Prod.mk.inj hrest
    exact ⟨hkeep.1, (List.append_assoc _ _ _).trans (congrArg (· ++ _) hkeep.2)⟩

/-- A committed cancel has cancelled its order, with the events that say so. -/
theorem cancelWork_eval {req : AuthedRequest} {id : ObjectId} {reason : String} {now : Time} {s t : Db}
    {r : CancelResult} (h : (cancelWork req id reason now).eval mongo s = (.ok r, t)) :
    ∃ (u : OrderUpdate) (o : Order), s.orders.get? id = some o ∧ u.guard o ∧ t.orders = s.orders.update id (u.patch now) ∧
      (u = .cancelUnpaid (ownedOrderFilter req id) reason ∧
          t.domainEvents = s.domainEvents ++ [⟨.orderCancelled, id, req.tenant⟩] ∨
        u = .cancelPaid (ownedOrderFilter req id) reason ∧ t.domainEvents = s.domainEvents ++
          [⟨.orderCancelled, id, req.tenant⟩, ⟨.refundRequested, id, req.tenant⟩]) := by
  obtain ⟨o, ho, hguard, heq⟩ | ⟨-, heq⟩ :=
    exec_orderUpdate (.cancelUnpaid (ownedOrderFilter req id) reason) now s
  · have hfinish := (Prog.eval_perform_bind (S := Mongo) heq).symm.trans h
    obtain ⟨horders, hevents⟩ := finishCancel_eval hfinish
    refine ⟨_, o, ho, hguard, horders, .inl ⟨rfl, ?_⟩⟩
    have hid : o.id = id := get?_key ho
    simpa [hid] using hevents
  · have hnext := (Prog.eval_perform_bind (S := Mongo) heq).symm.trans h
    obtain ⟨o, ho, hguard, heq⟩ | ⟨-, heq⟩ :=
      exec_orderUpdate (.cancelPaid (ownedOrderFilter req id) reason) now s
    · have hfinish := (Prog.eval_perform_bind (S := Mongo) heq).symm.trans hnext
      obtain ⟨horders, hevents⟩ := finishCancel_eval hfinish
      refine ⟨_, o, ho, hguard, horders, .inr ⟨rfl, ?_⟩⟩
      have hid : o.id = id := get?_key ho
      simpa [hid] using hevents
    · have hfind := (Prog.eval_perform_bind (S := Mongo) heq).symm.trans hnext
      obtain ⟨found, u, -, hrest⟩ := Prog.eval_bind_ok.1 hfind
      cases found <;> cases hrest

/-- A committed refund request has opened the refund of its order, with the event that says so. -/
theorem requestRefundWork_eval {limits : Limits} {req : AuthedRequest} {id : ObjectId} {reason : String}
    {now : Time} {s t : Db} {r : Order}
    (h : (requestRefundWork limits req id reason now).eval mongo s = (.ok r, t)) :
    ∃ (u : OrderUpdate) (o : Order), u = .requestRefund (ownedOrderFilter req id) (refundWindowStart limits now) reason ∧
      s.orders.get? id = some o ∧ u.guard o ∧ t.orders = s.orders.update id (u.patch now) ∧
      t.domainEvents = s.domainEvents ++ [⟨.refundRequested, id, req.tenant⟩] := by
  obtain ⟨o, ho, hguard, heq⟩ | ⟨-, heq⟩ := exec_orderUpdate
    (.requestRefund (ownedOrderFilter req id) (refundWindowStart limits now) reason) now s
  · have hrest := (Prog.eval_perform_bind (S := Mongo) heq).symm.trans h
    obtain ⟨-, rfl⟩ := Prod.mk.inj hrest
    refine ⟨_, o, rfl, ho, hguard, rfl, ?_⟩
    show s.domainEvents ++ [⟨.refundRequested, o.id, req.tenant⟩] = _
    rw [show o.id = id from get?_key ho]
  · have hreject := (Prog.eval_perform_bind (S := Mongo) heq).symm.trans h
    obtain ⟨e, u, -, hrest⟩ := Prog.eval_bind_ok.1 hreject
    cases hrest

/-- Between the two stores the events count what has happened to the order. -/
structure Told (k : ObjectId) (s t : Db) : Prop where
  refunds : t.eventsOf .refundRequested k = s.eventsOf .refundRequested k + (Db.refundOpened k s t).toNat
  cancels : t.eventsOf .orderCancelled k = s.eventsOf .orderCancelled k + (Db.cancelled k s t).toNat

theorem Told.refl (k : ObjectId) (s : Db) : Told k s s where
  refunds := by rw [refundOpened_of_get? rfl]; rfl
  cancels := by rw [cancelled_of_get? rfl]; rfl

theorem eventsOf_append {s t : Db} {events : List DomainEvent}
    (h : t.domainEvents = s.domainEvents ++ events) (type : EventType) (k : ObjectId) :
    t.eventsOf type k =
      s.eventsOf type k + events.countP fun e => e.type == type && e.aggregateId == k := by
  rw [Db.eventsOf, h, List.countP_append, Db.eventsOf]

theorem get?_update_same {s t : Db} {id k : ObjectId} {f : Patch Order}
    (h : t.orders = s.orders.update id f) (hk : k ≠ id) : t.orders.get? k = s.orders.get? k := by
  rw [h, get?_update, if_neg hk]

theorem cancelWork_told {req : AuthedRequest} {id : ObjectId} {reason : String} {now : Time} {s t : Db}
    {r : CancelResult} (h : (cancelWork req id reason now).eval mongo s = (.ok r, t)) (k : ObjectId) :
    Told k s t := by
  obtain ⟨u, o, ho, hguard, horders, hcases⟩ := cancelWork_eval h
  by_cases hk : k = id
  · subst hk
    have hafter : t.orders.get? k = some (u.apply now o) := by
      rw [horders, get?_update_self, ho]
      rfl
    have hstatus : (o.status != .cancelled) = true := by
      rw [bne_iff_ne]
      intro hcancelled
      rcases hcases with ⟨rfl, -⟩ | ⟨rfl, -⟩ <;>
        simp [OrderUpdate.guard, hcancelled, CANCELLABLE_STATUSES] at hguard
    rcases hcases with ⟨rfl, hevents⟩ | ⟨rfl, hevents⟩
    · constructor
      · rw [eventsOf_append hevents, Db.refundOpened, ho, hafter]
        cases hrefund : o.refundStatus <;> simp [OrderUpdate.apply, hrefund]
      · rw [eventsOf_append hevents, Db.cancelled, ho, hafter]
        simp [OrderUpdate.apply, hstatus]
    · have hrefund : o.refundStatus = .none := by
        simp only [OrderUpdate.guard, Bool.and_eq_true, beq_iff_eq] at hguard
        exact hguard.2
      constructor
      · rw [eventsOf_append hevents, Db.refundOpened, ho, hafter]
        simp [OrderUpdate.apply, hrefund]
      · rw [eventsOf_append hevents, Db.cancelled, ho, hafter]
        simp [OrderUpdate.apply, hstatus]
  · have hsame := get?_update_same horders hk
    have hnone : ∀ type, t.eventsOf type k = s.eventsOf type k := by
      intro type
      rcases hcases with ⟨-, hevents⟩ | ⟨-, hevents⟩ <;>
        simp [eventsOf_append hevents, Ne.symm hk]
    exact ⟨by rw [hnone, refundOpened_of_get? hsame]; rfl, by rw [hnone, cancelled_of_get? hsame]; rfl⟩

theorem requestRefundWork_told {limits : Limits} {req : AuthedRequest} {id : ObjectId} {reason : String}
    {now : Time} {s t : Db} {r : Order}
    (h : (requestRefundWork limits req id reason now).eval mongo s = (.ok r, t)) (k : ObjectId) :
    Told k s t := by
  obtain ⟨u, o, rfl, ho, hguard, horders, hevents⟩ := requestRefundWork_eval h
  by_cases hk : k = id
  · subst hk
    have hafter : t.orders.get? k = some ((OrderUpdate.requestRefund (ownedOrderFilter req k)
        (refundWindowStart limits now) reason).apply now o) := by
      rw [horders, get?_update_self, ho]
      rfl
    have hrefund : o.refundStatus = .none := by
      simp only [OrderUpdate.guard, Bool.and_eq_true, beq_iff_eq] at hguard
      exact hguard.1.1.2
    constructor
    · rw [eventsOf_append hevents, Db.refundOpened, ho, hafter]
      simp [OrderUpdate.apply, hrefund]
    · rw [eventsOf_append hevents, Db.cancelled, ho, hafter]
      cases hstatus : o.status <;> simp [OrderUpdate.apply, hstatus]
  · have hsame := get?_update_same horders hk
    have hnone : ∀ type, t.eventsOf type k = s.eventsOf type k := by
      intro type
      simp [eventsOf_append hevents, Ne.symm hk]
    exact ⟨by rw [hnone, refundOpened_of_get? hsame]; rfl, by rw [hnone, cancelled_of_get? hsame]; rfl⟩

/-! ## Handlers -/

def Request.isCancel : Request → Bool
  | .cancel .. => true
  | _ => false

/-- The requests that open refunds. -/
def Request.opensRefunds : Request → Bool
  | .cancel .. | .requestRefund .. => true
  | _ => false

theorem Request.tells_no_refund {request : Request} (h : request.opensRefunds = false) :
    .refundRequested ∉ request.tells := by
  cases request <;> simp_all [Request.tells, Request.opensRefunds]

theorem Request.tells_no_cancellation {request : Request} (hcancel : request.isCancel = false)
    (hsweep : request.isSweep = false) : .orderCancelled ∉ request.tells := by
  cases request <;> simp_all [Request.tells, Request.isCancel, Request.isSweep]

theorem Request.opensRefunds_of_isCancel {request : Request} (h : request.isCancel) :
    request.opensRefunds := by
  cases request <;> first | rfl | cases h

theorem txn_told {α : Type} {work : MongoM α} {k : ObjectId}
    (h : ∀ s t r, work.eval mongo s = (.ok r, t) → Told k s t) (s : Db) :
    Told k s (mongo.transactional.exec (.txn work) s).2 := by
  simp only [Machine.transactional]
  split
  · next r t heq => exact h s t r heq
  · exact .refl k s

/-- On a replica set these requests are a single transaction, after which they end. -/
theorem handler_once {cfg : ServerConfig} (hreplica : cfg.deployment = .replicaSet) {request : Request}
    (hopens : request.opensRefunds) : ∃ (α : Type) (work : MongoM α) (f : α → Response),
      request.handler cfg = .call (S := Mongo.tx ApiError) (.txn work) (fun r => .done (r.map f)) ∧
      ∀ k s t r, work.eval mongo s = (.ok r, t) → Told k s t := by
  have hdone : ∀ {α : Type} (work : MongoM α) (f : α → Response),
      (do let a ← (Prog.perform (S := Mongo.tx ApiError) (.txn work) : Handler α); return f a) =
        (.call (S := Mongo.tx ApiError) (.txn work) fun r => .done (r.map f) : Handler Response) := by
    intro α work f
    show Prog.call (S := Mongo.tx ApiError) _ _ = _
    congr 1
    funext r
    cases r <;> rfl
  cases request with
  | cancel req id reason now =>
    refine ⟨_, cancelWork req id reason now, fun r => .order r.order, ?_,
      fun k s t r h => cancelWork_told h k⟩
    rw [← hdone]
    show Response.order <$> cancel cfg.deployment req id reason now = _
    rw [hreplica]
    show Prog.call (S := Mongo.tx ApiError) _ _ = Prog.call (S := Mongo.tx ApiError) _ _
    congr 1
    funext r
    cases r <;> rfl
  | requestRefund req id reason now =>
    refine ⟨_, requestRefundWork cfg.limits req id reason now, .order, ?_,
      fun k s t r h => requestRefundWork_told h k⟩
    rw [← hdone]
    show Response.order <$> requestRefund cfg.deployment cfg.limits req id reason now = _
    rw [hreplica]
    rfl
  | _ => cases hopens

/-- What an operation of a request tells of an order. -/
structure Request.Telling (request : Request) (o : TxOp Mongo ApiError) : Prop where
  types : o.Within (DbOp.Tells request.tells)
  told : request.opensRefunds → ∀ k s, Told k s (mongo.transactional.exec o s).2

theorem handler_telling {cfg : ServerConfig} (hreplica : cfg.deployment = .replicaSet)
    (request : Request) : (request.handler cfg).Issues request.Telling := by
  cases hopens : request.opensRefunds with
  | false =>
    exact (handler_tells cfg request).mono fun _ h => ⟨h, fun h => by rw [hopens] at h; cases h⟩
  | true =>
    obtain ⟨α, work, f, hcode, htold⟩ := handler_once hreplica hopens
    have htypes := handler_tells cfg request
    rw [hcode] at htypes ⊢
    exact ⟨⟨htypes.1, fun _ k s => txn_told (fun s t r h => htold k s t r h) s⟩, fun _ => trivial⟩

/-! ## Refunds along a run -/

/-- A cancel or a refund request opens the refund of the order. -/
def opensRefund (k : ObjectId) (c : ServerPool) (a : Action Request) (d : ServerPool) : Bool :=
  (c.mover a).any Request.opensRefunds && Db.refundOpened k c.state d.state

/-- A cancel cancels the order. -/
def cancelsOrder (k : ObjectId) (c : ServerPool) (a : Action Request) (d : ServerPool) : Bool :=
  (c.mover a).any Request.isCancel && Db.cancelled k c.state d.state

/-- Once asked for, a refund does not return to `none`. -/
def RefundStays (a b : Order) : Prop := a.refundStatus ≠ .none → b.refundStatus ≠ .none

theorem RefundStays.refl (o : Order) : RefundStays o o := id

theorem OrderUpdate.Legal.refundStays {u : OrderUpdate} (hu : u.Legal) : u.Respects RefundStays := by
  intro now o hguard hrefund
  cases u with
  | transition t =>
    have ht := OrderTransition.Legal.refund hu
    simp only [OrderUpdate.apply, ht]
    split
    · rintro ⟨⟩
    · exact hrefund
  | cancelPaid owned reason => rintro ⟨⟩
  | requestRefund owned windowStart reason => rintro ⟨⟩
  | _ => exact hrefund

/-- What is known of the requests in flight. -/
structure InFlight (c : ServerPool) : Prop where
  telling : ∀ t ∈ c.threads, t.prog.Issues t.label.Telling
  refunds : ∀ t ∈ c.threads,
    t.prog.Issues fun o => ∀ s, OrdersMove RefundStays s (mongo.transactional.exec o s).2
  statuses : ∀ t ∈ c.threads, t.prog.Issues TxOp.MovesAlong

section Steps

variable {cfg : ServerConfig} {c d : ServerPool} {a : Action Request} {k : ObjectId}

theorem InFlight.step (hreplica : cfg.deployment = .replicaSet) (h : InFlight c)
    (hstep : (server cfg).step c a = some d) : InFlight d where
  telling := System.step_issues (handler_telling hreplica) hstep h.telling
  refunds := System.step_issues (φ := fun _ o => ∀ s, OrdersMove RefundStays s
      (mongo.transactional.exec o s).2)
    (handler_ordersMove RefundStays.refl (fun _ hu => hu.refundStays) cfg) hstep h.refunds
  statuses := System.step_issues (φ := fun _ => TxOp.MovesAlong) (handler_movesAlong cfg) hstep
    h.statuses

/-- A step records as many refund requests of the order as it opens. -/
theorem InFlight.refundEvents (h : InFlight c) (hstep : (server cfg).step c a = some d) :
    d.state.eventsOf .refundRequested k =
      c.state.eventsOf .refundRequested k + (opensRefund k c a d).toNat := by
  obtain ⟨l, rfl, rfl⟩ | ⟨i, l, o, kont, ht, ⟨rfl, rfl⟩ | ⟨rfl, rfl⟩ | ⟨rfl, rfl⟩⟩ :=
    (server cfg).step_cases hstep
  · rfl
  · have hmover : c.mover (.act i) = some l := by simp [Pool.mover, ht]
    obtain ⟨htypes, htold⟩ := (h.telling _ (List.mem_of_getElem? ht)).1
    rw [opensRefund, hmover, Option.any_some]
    cases hopens : l.opensRefunds with
    | true => exact (htold hopens k c.state).refunds
    | false => exact transactional_eventsOf htypes (Request.tells_no_refund hopens) k c.state
  · rw [opensRefund, refundOpened_of_get? rfl, Bool.and_false]
    rfl
  · rw [opensRefund, refundOpened_of_get? rfl, Bool.and_false]
    rfl

end Steps

/-- Along a run the refund of an order opens once at most, and every time its event is recorded. -/
theorem refunds_counted {cfg : ServerConfig} (hreplica : cfg.deployment = .replicaSet)
    {admits : ServerPool → Action Request → Prop} {start c : ServerPool} {as : List (Action Request)}
    (hstart : InFlight start) (hrun : (server cfg).Run admits start as c) (k : ObjectId) :
    c.state.eventsOf .refundRequested k = start.state.eventsOf .refundRequested k +
        (server cfg).tally (opensRefund k) start as ∧
      (server cfg).tally (opensRefund k) start as ≤ 1 := by
  have hflight := hrun.with (P := InFlight) (fun _ _ _ _ hs h => h.step hreplica hs) hstart
  constructor
  · refine hflight.induct (P := fun as c => c.state.eventsOf .refundRequested k =
      start.state.eventsOf .refundRequested k + (server cfg).tally (opensRefund k) start as) rfl ?_
    intro as d a e hrun ha hs ih
    rw [hrun.tally_snoc hs, ha.2.refundEvents hs, ih, Nat.add_assoc]
  · have honce := hflight.tally_once (P := opensRefund k)
      (Q := fun c => OrderHas (fun o => o.refundStatus ≠ .none) k c.state) ?_ ?_
    · omega
    · intro c a d _ hs hopens
      simp only [opensRefund, Db.refundOpened, Bool.and_eq_true, Option.any_eq_true, beq_iff_eq] at hopens
      obtain ⟨-, ⟨o, ho, hnone⟩, o', ho', hrequested⟩ := hopens
      refine ⟨fun h => h.2 o ho hnone, get?_lt ho', fun x hx => ?_⟩
      obtain rfl := Option.some_inj.1 (ho'.symm.trans hx)
      rw [hrequested]
      rintro ⟨⟩
    · intro c a d ha hs hhas
      exact hhas.move (fun _ _ hstays => hstays) (step_keepsNumbers hs)
        (step_ordersMove hs RefundStays.refl ha.2.refunds)

/-! ## Cancellations along a run -/

/-- A reply, unless it says that the order has expired. -/
def NotExpired (k : ObjectId) : (o : DbOp) → Except ApiError o.Reply → Prop
  | .orderUpdate (.expire _) _, .ok (some x) => x.id ≠ k
  | _, _ => True

def TxOp.NotExpired (k : ObjectId) : (o : TxOp Mongo ApiError) → Except ApiError o.Reply → Prop
  | .op o, r => Ecommerce.NotExpired k o r
  | .txn _, _ => True

/-- The call does not record that the order is cancelled. -/
def DbOp.Spares (k : ObjectId) (o : DbOp) : Prop :=
  ∀ e, o = .eventCreate e → e.type = .orderCancelled → e.aggregateId ≠ k

theorem DbOp.Tells.spares {o : DbOp} {k : ObjectId} (h : o.Tells []) : o.Spares k :=
  fun e he _ => absurd (h e he) List.not_mem_nil

theorem exec_spares {o : DbOp} {k : ObjectId} (h : o.Spares k) (s : Db) :
    (mongo.exec o s).2.eventsOf .orderCancelled k = s.eventsOf .orderCancelled k := by
  by_cases hevent : ∃ e, o = .eventCreate e
  · obtain ⟨e, rfl⟩ := hevent
    show (s.domainEvents ++ [e]).countP _ = _
    rw [List.countP_append, List.countP_singleton, if_neg, Nat.add_zero]
    · rfl
    · simpa using h e rfl
  · rw [Db.eventsOf, exec_domainEvents (fun e he => hevent ⟨e, he⟩), Db.eventsOf]

/-- Unless a sweep has let the order expire, it records no cancellation of it. -/
theorem expireOrder_spares (now : Time) (orderKey k : ObjectId) :
    (expireOrder now orderKey).IssuesIf (NotExpired k) (DbOp.Spares k) := by
  have hquiet : ∀ {α : Type} {p : MongoM α}, p.Issues (DbOp.Tells []) →
      p.IssuesIf (NotExpired k) (DbOp.Spares k) := fun h => (h.mono fun _ ho => ho.spares).issuesIf
  refine Prog.issuesIf_perform_bind (S := Mongo) (by simp [DbOp.Spares]) fun cancelled hcancelled => ?_
  cases cancelled with
  | some cancelledOrder =>
    refine (hquiet (releaseOrderReservations_tells _ (by decide))).bind fun _ => ?_
    refine Prog.IssuesIf.bind (Prog.Issues.issuesIf ?_) fun _ => trivial
    refine (issues_db ?_).catching fun _ => trivial
    rintro e ⟨⟩ -
    exact hcancelled
  | none =>
    refine Prog.issuesIf_perform_bind (S := Mongo) (by simp [DbOp.Spares]) fun found _ => ?_
    cases found with
    | none => exact (hquiet (releaseOrderReservations_tells _ (by decide))).bind fun _ => trivial
    | some order =>
      dsimp only
      split
      · exact Prog.issuesIf_perform_bind (S := Mongo) (by simp [DbOp.Spares]) fun _ _ => trivial
      · trivial

theorem handler_spares (cfg : ServerConfig) (k : ObjectId) {request : Request}
    (hsweep : request.isSweep) : (request.handler cfg).IssuesIf (TxOp.NotExpired k)
      (TxOp.Within (DbOp.Spares k)) := by
  cases request with
  | sweep now batchSize =>
    refine Prog.IssuesIf.embed (A := NotExpired k) (fun _ _ h => h) ?_
    refine Prog.IssuesIf.bind ?_ fun _ => trivial
    refine Prog.issuesIf_perform_bind (S := Mongo) (by simp [DbOp.Spares]) fun expired _ => ?_
    have heach : ∀ (batch : List InventoryReservation) (handledOrders : List ObjectId)
        (acc : SweepResult),
        (expireEach now batch handledOrders acc).IssuesIf (NotExpired k) (DbOp.Spares k) := by
      intro batch
      induction batch with
      | nil => exact fun _ _ => trivial
      | cons reservation rest ih =>
        intro handledOrders acc
        rw [expireEach]
        split
        · have hrelease : (releaseReservation reservation.id .expired [.reserved]).Issues
              (DbOp.Tells []) := releaseReservation_tells _ _ _
          exact Prog.IssuesIf.bind (hrelease.mono fun _ h => h.spares).issuesIf fun _ => ih _ _
        · split
          · exact ih _ _
          · exact (expireOrder_spares _ _ _).bind fun _ => ih _ _
    exact heach _ _ _
  | _ => cases hsweep

/-- Only the sweep's own update replies that the order has expired, and then it is cancelled. -/
theorem expired_of_reply {k : ObjectId} {o : TxOp Mongo ApiError} {s : Db}
    (h : ¬ TxOp.NotExpired k o (mongo.transactional.exec o s).1) :
    (∃ x, s.orders.get? k = some x ∧ x.status ≠ .cancelled) ∧
      StatusFrom .cancelled k (mongo.transactional.exec o s).2 := by
  cases o with
  | txn work => exact absurd trivial h
  | op o =>
    cases o with
    | orderUpdate u now =>
      cases u with
      | expire id =>
        obtain ⟨x, hx, hguard, heq⟩ | ⟨-, heq⟩ := exec_orderUpdate (.expire id) now s
        · have heq' : mongo.transactional.exec (.op (.orderUpdate (.expire id) now)) s = _ := heq
          rw [heq'] at h ⊢
          have hk : x.id = k := not_not.1 h
          have hid : x.id = id := get?_key hx
          obtain rfl : id = k := hid.symm.trans hk
          refine ⟨⟨x, hx, ?_⟩, (get?_lt hx : id < s.orders.next), fun y hy => ?_⟩
          · simp only [OrderUpdate.guard, Bool.and_eq_true, beq_iff_eq] at hguard
            rw [hguard.1]
            rintro ⟨⟩
          · have hafter := (get?_update_self s.orders id ((OrderUpdate.expire id).patch now)).symm.trans hy
            have hx' : s.orders.get? id = some x := hx
            rw [hx'] at hafter
            obtain rfl := Option.some_inj.1 hafter
            exact Relation.ReflTransGen.refl
        · have heq' : mongo.transactional.exec (.op (.orderUpdate (.expire id) now)) s = _ := heq
          rw [heq'] at h
          exact absurd trivial h
      | _ => exact absurd trivial h
    | _ => exact absurd trivial h

/-- The sweeps in flight have not let the order expire. -/
def SweepsSpare (k : ObjectId) (c : ServerPool) : Prop :=
  ∀ t ∈ c.threads, t.label.isSweep → t.prog.IssuesIf (TxOp.NotExpired k) (TxOp.Within (DbOp.Spares k))

section Steps

variable {cfg : ServerConfig} {c d : ServerPool} {a : Action Request} {k : ObjectId}

/-- A step records as many cancellations of the order as a cancel makes, until a sweep lets the order
expire. -/
theorem SweepsSpare.step (h : SweepsSpare k c) (hflight : InFlight c)
    (hstep : (server cfg).step c a = some d) :
    d.state.eventsOf .orderCancelled k =
        c.state.eventsOf .orderCancelled k + (cancelsOrder k c a d).toNat ∧
      (SweepsSpare k d ∨ (∃ x, c.state.orders.get? k = some x ∧ x.status ≠ .cancelled) ∧
        cancelsOrder k c a d = false ∧ StatusFrom .cancelled k d.state) := by
  obtain ⟨l, rfl, rfl⟩ | ⟨i, l, o, kont, ht, hmove⟩ := (server cfg).step_cases hstep
  · refine ⟨rfl, .inl fun t ht hsweep => ?_⟩
    rcases List.mem_append.1 ht with ht | ht
    · exact h t ht hsweep
    · obtain rfl := List.mem_singleton.1 ht
      exact handler_spares cfg k hsweep
  have hmem := List.mem_of_getElem? ht
  -- What the thread goes on with is again such a program, if the reply is one that is allowed.
  have hset : ∀ (s : Db) r, TxOp.NotExpired k o r →
      SweepsSpare k ⟨s, c.threads.set i ⟨l, kont r⟩⟩ := by
    intro s r hr t ht' hsweep
    rcases List.mem_or_eq_of_mem_set ht' with ht' | rfl
    · exact h t ht' hsweep
    · exact (h _ hmem hsweep).2 r hr
  have hfault : TxOp.NotExpired k o (.error ApiError.database) := by
    cases o with
    | op o =>
      cases o with
      | orderUpdate u now => cases u <;> trivial
      | _ => trivial
    | txn work => trivial
  obtain ⟨rfl, rfl⟩ | ⟨rfl, rfl⟩ | ⟨rfl, rfl⟩ := hmove
  · have hmover : c.mover (.act i) = some l := by simp [Pool.mover, ht]
    obtain ⟨htypes, htold⟩ := (hflight.telling _ hmem).1
    constructor
    · rw [cancelsOrder, hmover, Option.any_some]
      cases hcancel : l.isCancel with
      | true => exact (htold (Request.opensRefunds_of_isCancel hcancel) k c.state).cancels
      | false =>
        cases hsweep : l.isSweep with
        | true =>
          have hspares := (h _ hmem hsweep).1
          exact Machine.transactional_keeps (M := mongo)
            (I := fun x => x.eventsOf .orderCancelled k = c.state.eventsOf .orderCancelled k)
            (fun _ ho x hx => (exec_spares ho x).trans hx) o hspares c.state rfl
        | false => exact transactional_eventsOf htypes (Request.tells_no_cancellation hcancel hsweep) k _
    · by_cases hr : TxOp.NotExpired k o (mongo.transactional.exec o c.state).1
      · exact .inl (hset _ _ hr)
      · obtain ⟨hbefore, hafter⟩ := expired_of_reply hr
        by_cases hsweep : l.isSweep
        · refine .inr ⟨hbefore, ?_, hafter⟩
          rw [cancelsOrder, hmover, Option.any_some]
          cases l <;> first | rfl | cases hsweep
        · refine .inl fun t ht' hsweep' => ?_
          rcases List.mem_or_eq_of_mem_set ht' with ht' | rfl
          · exact h t ht' hsweep'
          · exact absurd hsweep' hsweep
  · refine ⟨?_, .inl (hset _ _ hfault)⟩
    rw [cancelsOrder, cancelled_of_get? rfl, Bool.and_false]
    rfl
  · refine ⟨?_, .inl fun t ht' hsweep => ?_⟩
    · rw [cancelsOrder, cancelled_of_get? rfl, Bool.and_false]
      rfl
    · rcases List.mem_or_eq_of_mem_set ht' with ht' | rfl
      · exact h t ht' hsweep
      · trivial

theorem StatusFrom.step {src : OrderStatus} (h : StatusFrom src k c.state) (hflight : InFlight c)
    (hstep : (server cfg).step c a = some d) : StatusFrom src k d.state := by
  refine OrderHas.move h (fun a b hmoves hpath => ?_) (step_keepsNumbers hstep)
    (step_ordersMove hstep (fun _ => .inl rfl) hflight.statuses)
  rcases hmoves with hsame | hedge
  · exact hsame ▸ hpath
  · exact hpath.tail hedge

/-- A cancel finds an order that is not cancelled, and leaves it cancelled. -/
theorem cancelsOrder_moves (hcancel : cancelsOrder k c a d) :
    ¬ StatusFrom .cancelled k c.state ∧ StatusFrom .cancelled k d.state := by
  simp only [cancelsOrder, Db.cancelled, Bool.and_eq_true, Option.any_eq_true, bne_iff_ne, beq_iff_eq]
    at hcancel
  obtain ⟨-, ⟨o, ho, hopen⟩, o', ho', hcancelled⟩ := hcancel
  refine ⟨fun h => hopen ((h.2 o ho).eq_of_final rfl), get?_lt ho', fun x hx => ?_⟩
  obtain rfl := Option.some_inj.1 (ho'.symm.trans hx)
  exact hcancelled ▸ Relation.ReflTransGen.refl

end Steps

/-- Along a run an order is cancelled through cancel once at most, and then has one event that says
so. -/
theorem cancels_counted {cfg : ServerConfig} (hreplica : cfg.deployment = .replicaSet)
    {admits : ServerPool → Action Request → Prop} {start c : ServerPool} {as : List (Action Request)}
    (hstart : InFlight start) (hrun : (server cfg).Run admits start as c) {k : ObjectId}
    (hspare : SweepsSpare k start) (hnone : start.state.eventsOf .orderCancelled k = 0) :
    (server cfg).tally (cancelsOrder k) start as ≤ 1 ∧
      ((server cfg).tally (cancelsOrder k) start as = 1 → c.state.eventsOf .orderCancelled k = 1) := by
  have hflight := hrun.with (P := InFlight) (fun _ _ _ _ hs h => h.step hreplica hs) hstart
  have honce : ∀ {as c}, (server cfg).Run (fun c a => admits c a ∧ InFlight c) start as c →
      (server cfg).tally (cancelsOrder k) start as = 0 ∨
        (server cfg).tally (cancelsOrder k) start as = 1 ∧ StatusFrom .cancelled k c.state :=
    fun hrun => hrun.tally_once (fun _ _ _ _ _ hcancel => cancelsOrder_moves hcancel)
      fun _ _ _ ha hs h => h.step ha.2 hs
  have hcounted := hflight.induct (P := fun as c =>
    (c.state.eventsOf .orderCancelled k = (server cfg).tally (cancelsOrder k) start as ∧
      SweepsSpare k c) ∨
    ((server cfg).tally (cancelsOrder k) start as = 0 ∧ StatusFrom .cancelled k c.state))
    (.inl ⟨hnone, hspare⟩) ?_
  · refine ⟨by have := honce hflight; omega, fun hone => ?_⟩
    rcases hcounted with ⟨hevents, -⟩ | ⟨hzero, -⟩
    · exact hevents.trans hone
    · omega
  · intro as d a e hrun ha hs ih
    rw [hrun.tally_snoc hs]
    rcases ih with ⟨hevents, hspare⟩ | ⟨hzero, hcancelled⟩
    · obtain ⟨hmore, hnext | ⟨⟨x, hx, hopen⟩, hnot, hcancelled⟩⟩ := hspare.step ha.2 hs
      · exact .inl ⟨by rw [hmore, hevents], hnext⟩
      · -- The order was open before it expired, so no cancel has cancelled it.
        refine .inr ⟨?_, hcancelled⟩
        rcases honce hrun with hzero | ⟨-, hfrom⟩
        · rw [hzero, hnot]
          rfl
        · exact absurd ((hfrom.2 x hx).eq_of_final rfl) hopen
    · refine .inr ⟨?_, hcancelled.step ha.2 hs⟩
      cases hcancels : cancelsOrder k d a e with
      | false => exact hzero
      | true => exact absurd hcancelled (cancelsOrder_moves hcancels).1

/-! ## Requests that fail -/

/-- A cancel or a refund request that ends in an error has changed nothing, at none of its steps. -/
theorem unchanged_of_error {cfg : ServerConfig} (hreplica : cfg.deployment = .replicaSet)
    {admits : ServerPool → Action Request → Prop} {start b d c : ServerPool}
    {before after : List (Action Request)} {a : Action Request} (hstart : start.threads = [])
    (hbefore : (server cfg).Run admits start before b) (hstep : (server cfg).step b a = some d)
    (hafter : (server cfg).Run admits d after c) {i : Nat} (ha : a = .act i ∨ a = .fault i ∨ a = .kill i)
    {request : Request} (hopens : request.opensRefunds) {e : ApiError}
    (herror : c.threads[i]? = some ⟨request, .done (.error e)⟩) : d.state = b.state := by
  obtain ⟨α, work, f, hcode, -⟩ := handler_once hreplica hopens
  -- The first step of the request is its last.
  have hended : ∀ {x y : ServerPool} {a' : Action Request}, (server cfg).step x a' = some y →
      (a' = .act i ∨ a' = .fault i ∨ a' = .kill i) →
      x.threads[i]? = some ⟨request, request.handler cfg⟩ →
      ∃ r, y.threads[i]? = some ⟨request, .done r⟩ ∧ (y.state = x.state ∨ ∃ v, r = .ok v) := by
    intro x y a' hs ha' hx
    rw [hcode] at hx
    obtain ⟨hact, hfault, hkill, -⟩ | ⟨o, k, hprog, ⟨-, hstate, hy⟩ | ⟨-, hstate, hy⟩ | ⟨-, hstate, hy⟩⟩ :=
      (server cfg).step_thread hs hx
    · rcases ha' with rfl | rfl | rfl
      · exact absurd rfl hact
      · exact absurd rfl hfault
      · exact absurd rfl hkill
    · cases hprog
      refine ⟨_, hy, ?_⟩
      rw [hstate]
      show (mongo.transactional.exec (.txn work) x.state).2 = x.state ∨
        ∃ v, (mongo.transactional.exec (.txn work) x.state).1.map f = .ok v
      simp only [Machine.transactional]
      split
      · exact .inr ⟨_, rfl⟩
      · exact .inl rfl
    · cases hprog
      exact ⟨_, hy, .inl hstate⟩
    · exact ⟨_, hy, .inl hstate⟩
  obtain ⟨⟨l, p⟩, hp⟩ : ∃ t, b.threads[i]? = some t := by
    cases ht : b.threads[i]? with
    | none => rcases ha with rfl | rfl | rfl <;> simp [System.step, ht] at hstep
    | some t => exact ⟨t, rfl⟩
  obtain rfl : l = request := by
    obtain ⟨p', hp', -⟩ := (server cfg).step_stays hstep hp
    obtain ⟨p'', hp''⟩ := hafter.thread hp'
    exact (Thread.mk.inj (Option.some_inj.1 (hp''.symm.trans herror))).1
  rcases hbefore.begun hstart hp with rfl | ⟨_, a', _, x, y, p', _, _, hx, ha', hs, hp', hrest⟩
  · obtain ⟨r, hd, hstate | ⟨v, rfl⟩⟩ := hended hstep ha hp
    · exact hstate
    · have hdone := hafter.stays_done hd
      cases herror.symm.trans hdone
  · obtain ⟨r, hy, -⟩ := hended hs ha' hx
    have hdone := hrest.stays_done hy
    obtain ⟨hact, hfault, hkill, -⟩ | ⟨o, k, hprog, -⟩ := (server cfg).step_thread hstep hdone
    · rcases ha with rfl | rfl | rfl
      · exact absurd rfl hact
      · exact absurd rfl hfault
      · exact absurd rfl hkill
    · cases hprog

/-- Along every run on a replica set the events match the states: an order has as many requested
refunds as cancels and refund requests have opened, one at most; an order that was cancelled through
cancel has one event that says so; and a cancel or a refund request that fails leaves the database as
it is. -/
theorem events_match_states {cfg : ServerConfig} (hreplica : cfg.deployment = .replicaSet)
    {admits : ServerPool → Action Request → Prop} {start c : ServerPool} {as : List (Action Request)}
    (hstart : start.threads = []) (hevents : start.state.domainEvents = [])
    (hrun : (server cfg).Run admits start as c) (k : ObjectId) :
    (c.state.eventsOf .refundRequested k = (server cfg).tally (opensRefund k) start as ∧
      (server cfg).tally (opensRefund k) start as ≤ 1) ∧
    ((server cfg).tally (cancelsOrder k) start as ≤ 1 ∧
      ((server cfg).tally (cancelsOrder k) start as = 1 → c.state.eventsOf .orderCancelled k = 1)) ∧
    ∀ before a after b d i request e, as = before ++ a :: after →
      (server cfg).Run admits start before b → (server cfg).step b a = some d →
      (server cfg).Run admits d after c → (a = .act i ∨ a = .fault i ∨ a = .kill i) →
      request.opensRefunds → c.threads[i]? = some ⟨request, .done (.error e)⟩ → d.state = b.state := by
  have hflight : InFlight start := by constructor <;> simp [hstart]
  have hnone : ∀ type, start.state.eventsOf type k = 0 := by
    intro type
    rw [Db.eventsOf, hevents]
    rfl
  refine ⟨?_, cancels_counted hreplica hflight hrun (by simp [SweepsSpare, hstart]) (hnone _), ?_⟩
  · have hcounted := refunds_counted hreplica hflight hrun k
    rwa [hnone, Nat.zero_add] at hcounted
  · intro before a after b d i request e _ hbefore hstep hafter ha hopens herror
    exact unchanged_of_error hreplica hstart hbefore hstep hafter ha hopens herror

/-- A paid order is cancelled: its refund opens, and both events are there. -/
theorem events_match_states_paidCancel :
    ∃ c : ServerPool, (server (sampleConfig .replicaSet)).Run (fun _ _ => true) ⟨sampleDb, []⟩
        [.spawn (sampleCheckout 0), .act 0, .spawn (.webhook (sampleDelivery "e") 0), .act 1, .act 1,
          .act 1, .act 1, .act 1, .spawn (.cancel sampleUser 0 "r" 1), .act 2] c ∧
      c.state.eventsOf .refundRequested 0 = 1 ∧ c.state.eventsOf .orderCancelled 0 = 1 := by
  obtain ⟨c, hc, h⟩ := (Option.any_eq_true _ _).1 (by decide +kernel :
    ((server (sampleConfig .replicaSet)).play (fun _ _ => true) ⟨sampleDb, []⟩
        [.spawn (sampleCheckout 0), .act 0, .spawn (.webhook (sampleDelivery "e") 0), .act 1, .act 1,
          .act 1, .act 1, .act 1, .spawn (.cancel sampleUser 0 "r" 1), .act 2]).any fun _ =>
      decide ((server (sampleConfig .replicaSet)).tally (opensRefund 0) ⟨sampleDb, []⟩
          [.spawn (sampleCheckout 0), .act 0, .spawn (.webhook (sampleDelivery "e") 0), .act 1, .act 1,
            .act 1, .act 1, .act 1, .spawn (.cancel sampleUser 0 "r" 1), .act 2] = 1 ∧
        (server (sampleConfig .replicaSet)).tally (cancelsOrder 0) ⟨sampleDb, []⟩
          [.spawn (sampleCheckout 0), .act 0, .spawn (.webhook (sampleDelivery "e") 0), .act 1, .act 1,
            .act 1, .act 1, .act 1, .spawn (.cancel sampleUser 0 "r" 1), .act 2] = 1))
  obtain ⟨hopened, hcancelled⟩ := of_decide_eq_true h
  have hrun := System.Run.of_play hc
  obtain ⟨⟨hrefunds, -⟩, ⟨-, hcancels⟩, -⟩ := events_match_states rfl rfl rfl hrun 0
  exact ⟨c, hrun, hrefunds.trans hopened, hcancels hcancelled⟩

end Ecommerce
