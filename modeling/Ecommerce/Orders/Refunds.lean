import Ecommerce.Model.Orders

/-!
# Refund requests

The filter of a refund request and the reasons for refusing one are the same five conditions: the update
matches no order just when one of the reasons applies.
-/

namespace Ecommerce

open Effect

variable {limits : Limits} {req : AuthedRequest} {id : ObjectId} {windowStart now : Time} {reason : String}
variable {o : Order} {s : Db}

/-- The reasons for refusing a refund request. -/
def refundReasons (limits : Limits) : List ApiError :=
  [CustomeErrorHandler.notFound "Order not found",
    CustomeErrorHandler.conflict "A refund has already been requested for this order",
    CustomeErrorHandler.badRequest "Only paid orders can be refunded",
    CustomeErrorHandler.badRequest
      "Refunds can be requested once the order is delivered; cancel it instead if it has not shipped",
    CustomeErrorHandler.badRequest
      ("The refund window of " ++ toString limits.REFUND_WINDOW_DAYS ++ " days has passed")]

/-- The answer when none of the reasons applies. -/
def refundRetry : ApiError :=
  CustomeErrorHandler.conflict "The order changed while processing the refund; retry"

theorem refundRetry_notMem (limits : Limits) : refundRetry ∉ refundReasons limits := by
  simp [refundRetry, refundReasons, CustomeErrorHandler.notFound, CustomeErrorHandler.conflict,
    CustomeErrorHandler.badRequest]

/-- The caller reaches the order: it is the owner, or an admin of the order's tenant. -/
def ReachedBy (req : AuthedRequest) (o : Order) : Prop :=
  o.tenant = req.tenant ∧ (req.role = .admin ∨ o.user = req.user)

/-- A refund can be requested: the order is paid, delivered since the start of the window, and has no
refund. -/
structure Refundable (windowStart : Time) (o : Order) : Prop where
  open' : o.refundStatus = .none
  paid : o.paymentStatus = .paid
  delivered : o.status = .delivered
  inWindow : windowStart ≤ o.deliveredAt.getD o.updatedAt

theorem accepts_ownedOrderFilter (hid : o.id = id) :
    (ownedOrderFilter req id).accepts o = true ↔ ReachedBy req o := by
  rw [OrderFilter.accepts, ownedOrderFilter, ReachedBy, hid]
  by_cases hadmin : req.role = .admin
  · simp [hadmin]
  · simp only [hadmin, if_false, false_or, beq_self_eq_true, Bool.true_and, Bool.and_eq_true, beq_iff_eq,
      Option.all_some]
    exact and_congr_right fun _ => eq_comm

theorem guard_requestRefund (hid : o.id = id) :
    (OrderUpdate.requestRefund (ownedOrderFilter req id) windowStart reason).guard o = true ↔
      ReachedBy req o ∧ Refundable windowStart o := by
  have hguard : (OrderUpdate.requestRefund (ownedOrderFilter req id) windowStart reason).guard o =
      ((ownedOrderFilter req id).accepts o && o.paymentStatus == .paid && o.refundStatus == .none &&
        REFUNDABLE_STATUSES.contains o.status && decide (windowStart ≤ o.deliveredAt.getD o.updatedAt)) := by
    rw [OrderUpdate.guard]
    cases o.deliveredAt <;> rfl
  rw [← accepts_ownedOrderFilter hid, hguard]
  simp only [Bool.and_eq_true, beq_iff_eq, decide_eq_true_eq]
  constructor
  · rintro ⟨⟨⟨⟨howned, hpaid⟩, hopen⟩, hdelivered⟩, hinWindow⟩
    exact ⟨howned, hopen, hpaid, by simpa [REFUNDABLE_STATUSES] using hdelivered, hinWindow⟩
  · rintro ⟨howned, hopen, hpaid, hdelivered, hinWindow⟩
    exact ⟨⟨⟨⟨howned, hpaid⟩, hopen⟩, by simp [REFUNDABLE_STATUSES, hdelivered]⟩, hinWindow⟩

/-- The order that the ownership filter finds. -/
def ownedOrder (req : AuthedRequest) (id : ObjectId) (s : Db) : Option Order :=
  (s.orders.get? id).filter (ownedOrderFilter req id).accepts

theorem ownedOrder_eq_some : ownedOrder req id s = some o ↔ s.orders.get? id = some o ∧ ReachedBy req o := by
  rw [ownedOrder, Option.filter_eq_some_iff]
  refine and_congr_right fun hget => accepts_ownedOrderFilter ?_
  exact (Collection.get?_eq_some.1 hget).2

/-- The update matches the order that the filter finds, if it is refundable. -/
theorem exec_requestRefund (req : AuthedRequest) (id : ObjectId) (windowStart now : Time) (reason : String)
    (s : Db) :
    (∃ o, ownedOrder req id s = some o ∧ Refundable windowStart o ∧
      (mongo.exec (.orderUpdate (.requestRefund (ownedOrderFilter req id) windowStart reason) now) s).1 =
        .ok (some ((OrderUpdate.requestRefund (ownedOrderFilter req id) windowStart reason).apply now o))) ∨
    ((∀ o, ownedOrder req id s = some o → ¬ Refundable windowStart o) ∧
      mongo.exec (.orderUpdate (.requestRefund (ownedOrderFilter req id) windowStart reason) now) s =
        (.ok none, s)) := by
  obtain ⟨o, hget, hguard, hexec⟩ | ⟨hnone, hexec⟩ :=
    exec_orderUpdate (.requestRefund (ownedOrderFilter req id) windowStart reason) now s
  · obtain ⟨hreached, hrefundable⟩ := (guard_requestRefund (Collection.get?_eq_some.1 hget).2).1 hguard
    exact .inl ⟨o, ownedOrder_eq_some.2 ⟨hget, hreached⟩, hrefundable, by rw [hexec]⟩
  · refine .inr ⟨fun o ho hrefundable => ?_, hexec⟩
    obtain ⟨hget, hreached⟩ := ownedOrder_eq_some.1 ho
    have hguard : (OrderUpdate.requestRefund (ownedOrderFilter req id) windowStart reason).guard o = true :=
      (guard_requestRefund (Collection.get?_eq_some.1 hget).2).2 ⟨hreached, hrefundable⟩
    rw [hnone o hget] at hguard
    cases hguard

/-- What the rejection answers about the order that it finds. -/
def refusal (limits : Limits) (windowStart : Time) : Option Order → ApiError
  | none => CustomeErrorHandler.notFound "Order not found"
  | some order =>
    if order.refundStatus ≠ .none then
      CustomeErrorHandler.conflict "A refund has already been requested for this order"
    else if order.paymentStatus ≠ .paid then CustomeErrorHandler.badRequest "Only paid orders can be refunded"
    else if ¬ REFUNDABLE_STATUSES.contains order.status then
      CustomeErrorHandler.badRequest
        "Refunds can be requested once the order is delivered; cancel it instead if it has not shipped"
    else if order.deliveredAt.getD order.updatedAt < windowStart then
      CustomeErrorHandler.badRequest
        ("The refund window of " ++ toString limits.REFUND_WINDOW_DAYS ++ " days has passed")
    else refundRetry

theorem eval_refundRejection (limits : Limits) (req : AuthedRequest) (id : ObjectId) (windowStart : Time)
    (s : Db) :
    (refundRejection limits req id windowStart).eval mongo s =
      (.ok (refusal limits windowStart (ownedOrder req id s)), s) := by
  have hfound : mongo.exec (.orderFindOne (ownedOrderFilter req id)) s = (.ok (ownedOrder req id s), s) := rfl
  have hrejection : refundRejection limits req id windowStart =
      db (.orderFindOne (ownedOrderFilter req id)) >>= fun found => pure (refusal limits windowStart found) := by
    rw [refundRejection]
    congr 1
    funext found
    cases found with
    | none => rfl
    | some order =>
      simp only [refusal]
      split_ifs <;> rfl
  rw [hrejection]
  exact Prog.eval_perform_bind (S := Mongo) hfound

/-- The rejection names one of the reasons, unless the filter finds an order that is refundable. -/
theorem refusal_cases (limits : Limits) (windowStart : Time) (found : Option Order) :
    ((∀ o, found = some o → ¬ Refundable windowStart o) ∧
        refusal limits windowStart found ∈ refundReasons limits) ∨
      (∃ o, found = some o ∧ Refundable windowStart o) ∧ refusal limits windowStart found = refundRetry := by
  cases found with
  | none => exact .inl ⟨by simp, .head _⟩
  | some o =>
    have hother (h : ¬ Refundable windowStart o) : ∀ x, some o = some x → ¬ Refundable windowStart x :=
      fun x hx => Option.some.inj hx ▸ h
    simp only [refusal]
    split_ifs with hopen hpaid hdelivered hlate
    · exact .inl ⟨hother fun h => hopen h.open', .tail _ (.head _)⟩
    · exact .inl ⟨hother fun h => hpaid h.paid, .tail _ (.tail _ (.head _))⟩
    · exact .inl ⟨hother fun h => not_le_of_gt hlate h.inWindow, .tail _ (.tail _ (.tail _ (.tail _ (.head _))))⟩
    · refine .inr ⟨⟨o, rfl, ?_, ?_, ?_, not_lt.1 hlate⟩, rfl⟩
      · simpa using hopen
      · simpa using hpaid
      · simpa [REFUNDABLE_STATUSES] using hdelivered
    · refine .inl ⟨hother fun h => hdelivered ?_, .tail _ (.tail _ (.tail _ (.head _)))⟩
      simp [REFUNDABLE_STATUSES, h.delivered]

/-- A request is answered by the order that was updated, or by what the rejection says. -/
theorem eval_requestRefundWork (limits : Limits) (req : AuthedRequest) (id : ObjectId) (reason : String)
    (now : Time) (s : Db) :
    (∃ o t, (requestRefundWork limits req id reason now).eval mongo s = (.ok o, t)) ∨
      (∀ o, ownedOrder req id s = some o → ¬ Refundable (refundWindowStart limits now) o) ∧
        (requestRefundWork limits req id reason now).eval mongo s =
          (.error (refusal limits (refundWindowStart limits now) (ownedOrder req id s)), s) := by
  obtain ⟨o, -, -, hexec⟩ | ⟨hnone, hexec⟩ :=
    exec_requestRefund req id (refundWindowStart limits now) now reason s
  · have hmatch := Prod.ext (y := (_, _)) hexec rfl
    exact .inl ⟨_, _, (Prog.eval_perform_bind (S := Mongo) hmatch).trans rfl⟩
  · refine .inr ⟨hnone, ?_⟩
    have hrejected := eval_refundRejection limits req id (refundWindowStart limits now) s
    refine (Prog.eval_perform_bind (S := Mongo) hexec).trans ?_
    show ((refundRejection limits req id (refundWindowStart limits now)).bind fun e => throw e).eval mongo s = _
    rw [Prog.eval_bind, hrejected]
    rfl

/-- A refund request is accepted just when the rejection would name none of its reasons. The update matches
no order if and only if one of the reasons is returned, so a refused request is always answered by one of
them, and the rejection asks to retry only when the order is not the one that the update saw; and a match
is of an order of the caller, or of an admin's tenant, that is paid, delivered within the window and has no
refund. -/
theorem refund_acceptance (limits : Limits) (req : AuthedRequest) (id : ObjectId) (reason : String) (now : Time)
    (s : Db) :
    ((mongo.exec (.orderUpdate (.requestRefund (ownedOrderFilter req id) (refundWindowStart limits now) reason)
        now) s).1 = .ok none ↔
      ∃ e ∈ refundReasons limits,
        (refundRejection limits req id (refundWindowStart limits now)).eval mongo s = (.ok e, s)) ∧
    refundRetry ∉ refundReasons limits ∧
    (∀ e t, (requestRefundWork limits req id reason now).eval mongo s = (.error e, t) →
      e ∈ refundReasons limits) ∧
    (∀ s' t, (mongo.exec (.orderUpdate
          (.requestRefund (ownedOrderFilter req id) (refundWindowStart limits now) reason) now) s).1 = .ok none →
      (refundRejection limits req id (refundWindowStart limits now)).eval mongo s' = (.ok refundRetry, t) →
      s'.orders.get? id ≠ s.orders.get? id) ∧
    ∀ o, (mongo.exec (.orderUpdate
        (.requestRefund (ownedOrderFilter req id) (refundWindowStart limits now) reason) now) s).1 = .ok (some o) →
      ∃ before, s.orders.get? id = some before ∧ before.tenant = req.tenant ∧
        (req.role = .admin ∨ before.user = req.user) ∧ before.paymentStatus = .paid ∧
        before.status = .delivered ∧ before.refundStatus = .none ∧
        now - before.deliveredAt.getD before.updatedAt ≤ limits.REFUND_WINDOW_DAYS * 24 * 60 * 60 * 1000 := by
  have hexec := exec_requestRefund req id (refundWindowStart limits now) now reason s
  have hcases := refusal_cases limits (refundWindowStart limits now) (ownedOrder req id s)
  refine ⟨?_, refundRetry_notMem limits, fun e t hrun => ?_, fun s' t hnone hretry hsame => ?_, fun o ho => ?_⟩
  · rw [eval_refundRejection]
    obtain ⟨o, howned, hrefundable, hmatch⟩ | ⟨hnone, hmiss⟩ := hexec
    · obtain ⟨hnot, -⟩ | ⟨-, hretry⟩ := hcases
      · exact absurd hrefundable (hnot o howned)
      · rw [hmatch, hretry]
        constructor
        · exact nofun
        · rintro ⟨e, he, ⟨⟩⟩
          exact absurd he (refundRetry_notMem limits)
    · obtain ⟨-, hreason⟩ | ⟨⟨o, howned, hrefundable⟩, -⟩ := hcases
      · rw [hmiss]
        exact ⟨fun _ => ⟨_, hreason, rfl⟩, fun _ => rfl⟩
      · exact absurd hrefundable (hnone o howned)
  · obtain ⟨o, t', hok⟩ | ⟨hnot, herror⟩ := eval_requestRefundWork limits req id reason now s
    · rw [hok] at hrun
      cases hrun
    · obtain ⟨-, hreason⟩ | ⟨⟨o, howned, hrefundable⟩, -⟩ := hcases
      · rw [herror] at hrun
        obtain rfl : refusal limits (refundWindowStart limits now) (ownedOrder req id s) = e := by
          simpa using congrArg Prod.fst hrun
        exact hreason
      · exact absurd hrefundable (hnot o howned)
  · obtain ⟨o, howned, hrefundable, hmatch⟩ | ⟨hnot, -⟩ := hexec
    · rw [hmatch] at hnone
      cases hnone
    · rw [eval_refundRejection] at hretry
      obtain ⟨-, hreason⟩ | ⟨⟨o, howned, hrefundable⟩, -⟩ :=
        refusal_cases limits (refundWindowStart limits now) (ownedOrder req id s')
      · have hreply : refusal limits (refundWindowStart limits now) (ownedOrder req id s') = refundRetry := by
          simpa using congrArg Prod.fst hretry
        exact refundRetry_notMem limits (hreply ▸ hreason)
      · refine hnot o ?_ hrefundable
        rw [ownedOrder_eq_some] at howned ⊢
        exact ⟨hsame ▸ howned.1, howned.2⟩
  · obtain ⟨before, howned, hrefundable, -⟩ | ⟨-, hmiss⟩ := hexec
    · obtain ⟨hget, htenant, hcaller⟩ := ownedOrder_eq_some.1 howned
      have hwindow := hrefundable.inWindow
      refine ⟨before, hget, htenant, hcaller, hrefundable.paid, hrefundable.delivered, hrefundable.open', ?_⟩
      rw [refundWindowStart] at hwindow
      exact sub_le_comm.1 hwindow
    · rw [hmiss] at ho
      cases ho

end Ecommerce
