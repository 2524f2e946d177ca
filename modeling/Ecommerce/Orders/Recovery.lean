import Ecommerce.Inventory.Release
import Ecommerce.Orders.Lifecycle

/-!
# Interrupted cancellations and refund requests

On a standalone server the first write of a cancellation or of a refund request moves the order out
of the states that the request accepts. What fails before that write leaves the order as it was;
what fails after it cannot be made up for by repeating the request.
-/

namespace Ecommerce

open Effect Effect.Collection

/-! ## What the requests leave behind -/

/-- The calls a cancellation or a refund request makes after the update of its order. -/
def DbOp.afterUpdate : DbOp → Bool
  | .reservationsActive _ | .reservationRelease .. | .productRestock _ | .eventCreate _ => true
  | _ => false

theorem DbOp.OfRelease.afterUpdate {o : DbOp} (h : o.OfRelease) : o.afterUpdate := by
  cases o <;> first | rfl | exact h.elim

theorem exec_afterUpdate_orders (o : DbOp) (h : o.afterUpdate) (s : Db) :
    (mongo.exec o s).2.orders = s.orders :=
  (exec_orders (by cases o <;> simp_all [DbOp.afterUpdate, DbOp.WritesOrders]) s).1

theorem finishCancel_afterUpdate (tenant : String) (cancelled : Order) (refundOpened : Bool) :
    (finishCancel tenant cancelled refundOpened).Issues fun o : DbOp => o.afterUpdate := by
  refine ((releaseOrderReservations_issues _ (by decide)).mono fun _ h => h.afterUpdate).bind
    fun _ => ?_
  refine (issues_db (φ := fun o : DbOp => o.afterUpdate) rfl).bind fun _ => ?_
  cases refundOpened with
  | false => trivial
  | true => exact (issues_db (φ := fun o : DbOp => o.afterUpdate) rfl).bind fun _ => trivial

/-- The order is there and satisfies this. -/
def OrderIs (P : Order → Prop) (id : ObjectId) (s : Db) : Prop :=
  ∃ o, s.orders.get? id = some o ∧ P o

/-- The request was interrupted before the update of its order, in the store it started from, or
after it, in one where the order has come to satisfy `P`. -/
def Interrupted (P : Order → Prop) (id : ObjectId) (s : Db) (o : DbOp) (t : Db) : Prop :=
  (o.afterUpdate = false ∧ t = s) ∨
    (o.afterUpdate = true ∧ OrderIs (fun x => ¬ P x) id s ∧ OrderIs P id t)

section Cancel

variable {req : AuthedRequest} {id : ObjectId} {reason : String} {now : Time} {s t : Db}

theorem finishCancel_halts (tenant : String) (cancelled : Order) (refundOpened : Bool) :
    (finishCancel tenant cancelled refundOpened).Halts mongo := by
  refine (releaseOrderReservations_halts _ _).bind fun _ => (halts_db _).bind fun _ => ?_
  cases refundOpened with
  | false => trivial
  | true => exact (halts_db _).bind fun _ => trivial

theorem cancelWork_halts (req : AuthedRequest) (id : ObjectId) (reason : String) (now : Time) :
    (cancelWork req id reason now).Halts mongo := by
  refine (halts_db _).bind fun unpaid => ?_
  cases unpaid with
  | some cancelled => exact finishCancel_halts _ _ _
  | none =>
    refine (halts_db _).bind fun paid => ?_
    cases paid with
    | some cancelled => exact finishCancel_halts _ _ _
    | none =>
      refine (halts_db _).bind fun found => ?_
      cases found <;> trivial

def Order.Cancelled (o : Order) : Prop := o.status = .cancelled

/-- The writes after a cancelling update leave the order cancelled. -/
theorem finishCancel_reaches {tenant : String} {x : Order} {u : OrderUpdate}
    (hx : s.orders.get? id = some x) (hcancelled : ¬ x.Cancelled)
    (happly : (u.apply now x).Cancelled) {refundOpened : Bool} {o : DbOp}
    (h : (finishCancel tenant (u.apply now x) refundOpened).Reaches mongo
      { s with orders := s.orders.update id (u.patch now) } o t) :
    Interrupted Order.Cancelled id s o t := by
  obtain ⟨hafter, horders⟩ := (finishCancel_afterUpdate tenant _ refundOpened).reaches
    (I := fun v : Db => v.orders = s.orders.update id (u.patch now))
    (fun o ho v hv => (exec_afterUpdate_orders o ho v).trans hv) rfl h
  refine .inr ⟨hafter, ⟨x, hx, hcancelled⟩, u.apply now x, ?_, happly⟩
  rw [horders, get?_update_self, hx]
  rfl

theorem cancelWork_reaches {o : DbOp} (h : (cancelWork req id reason now).Reaches mongo s o t) :
    Interrupted Order.Cancelled id s o t := by
  have hopen : ∀ {x : Order}, x.status ∈ CANCELLABLE_STATUSES → ¬ x.Cancelled := by
    intro x hx hc
    rw [Order.Cancelled] at hc
    simp [hc, CANCELLABLE_STATUSES] at hx
  obtain ⟨x, hx, hguard, hexec⟩ | ⟨-, hexec⟩ :=
    exec_orderUpdate (.cancelUnpaid (ownedOrderFilter req id) reason) now s
  · rcases (Prog.reaches_perform_bind (S := Mongo) hexec).1 h with ⟨rfl, rfl⟩ | h
    · exact .inl ⟨rfl, rfl⟩
    · have hcancelled : ((OrderUpdate.cancelUnpaid (ownedOrderFilter req id) reason).apply now
        x).Cancelled := rfl
      refine finishCancel_reaches hx (hopen ?_) hcancelled h
      simp [OrderUpdate.guard] at hguard
      exact hguard.1.2
  rcases (Prog.reaches_perform_bind (S := Mongo) hexec).1 h with ⟨rfl, rfl⟩ | h
  · exact .inl ⟨rfl, rfl⟩
  obtain ⟨x, hx, hguard, hexec⟩ | ⟨-, hexec⟩ :=
    exec_orderUpdate (.cancelPaid (ownedOrderFilter req id) reason) now s
  · rcases (Prog.reaches_perform_bind (S := Mongo) hexec).1 h with ⟨rfl, rfl⟩ | h
    · exact .inl ⟨rfl, rfl⟩
    · have hcancelled : ((OrderUpdate.cancelPaid (ownedOrderFilter req id) reason).apply now
        x).Cancelled := rfl
      refine finishCancel_reaches hx (hopen ?_) hcancelled h
      simp [OrderUpdate.guard] at hguard
      exact hguard.1.1.2
  rcases (Prog.reaches_perform_bind (S := Mongo) hexec).1 h with ⟨rfl, rfl⟩ | h
  · exact .inl ⟨rfl, rfl⟩
  rcases Prog.reaches_bind.1 h with h | ⟨found, u, -, h⟩
  · obtain ⟨rfl, rfl⟩ := Prog.reaches_perform.1 h
    exact .inl ⟨rfl, rfl⟩
  · cases found <;> exact h.elim

/-- The request is refused, and it changes nothing on the way. -/
def Refused {α : Type} (p : MongoM α) (s : Db) : Prop :=
  (∃ e, p.eval mongo s = (.error e, s)) ∧ ∀ o t, p.Reaches mongo s o t → t = s

/-- An update that does not match is only passed over. -/
theorem Refused.orderUpdate {α : Type} {f : Option Order → MongoM α} {u : OrderUpdate} {x : Order}
    (hx : s.orders.get? u.id = some x) (hguard : u.guard x = false) (h : Refused (f none) s) :
    Refused (db (.orderUpdate u now) >>= f) s := by
  obtain ⟨y, hy, hmatch, -⟩ | ⟨-, hexec⟩ := exec_orderUpdate u now s
  · obtain rfl : x = y := Option.some_inj.1 (hx.symm.trans hy)
    simp [hguard] at hmatch
  obtain ⟨⟨e, heval⟩, hreaches⟩ := h
  refine ⟨⟨e, (Prog.eval_perform_bind (S := Mongo) hexec).trans heval⟩, fun o t h => ?_⟩
  rcases (Prog.reaches_perform_bind (S := Mongo) hexec).1 h with ⟨-, rfl⟩ | h
  · rfl
  · exact hreaches o t h

/-- Reading the order and throwing whatever has been found. -/
theorem Refused.orderFindOne {α : Type} {f : Option Order → MongoM α} {filter : OrderFilter}
    (h : ∀ found, ∃ e, f found = throw e) : Refused (db (.orderFindOne filter) >>= f) s := by
  obtain ⟨e, he⟩ := h ((s.orders.get? filter.id).filter filter.accepts)
  have hexec : mongo.exec (.orderFindOne filter) s =
      (.ok ((s.orders.get? filter.id).filter filter.accepts), s) := rfl
  refine ⟨⟨e, ?_⟩, fun o t h => ?_⟩
  · refine (Prog.eval_perform_bind (S := Mongo) hexec).trans ?_
    rw [he]
    rfl
  · rcases (Prog.reaches_perform_bind (S := Mongo) hexec).1 h with ⟨-, rfl⟩ | h
    · rfl
    · rw [he] at h
      exact h.elim

/-- An order that can no longer be cancelled is left alone. -/
theorem cancelWork_refused {x : Order} (hx : s.orders.get? id = some x)
    (hstatus : x.status ∉ CANCELLABLE_STATUSES) : Refused (cancelWork req id reason now) s := by
  refine Refused.orderUpdate hx (by simp [OrderUpdate.guard, hstatus]) ?_
  refine Refused.orderUpdate hx (by simp [OrderUpdate.guard, hstatus]) ?_
  refine Refused.orderFindOne fun found => ?_
  cases found with
  | none => exact ⟨_, rfl⟩
  | some _ => exact ⟨_, rfl⟩

/-- A cancelled order is not cancelled again. -/
theorem cancelWork_refused_cancelled (h : OrderIs Order.Cancelled id s) :
    Refused (cancelWork req id reason now) s := by
  obtain ⟨x, hx, hcancelled⟩ := h
  refine cancelWork_refused hx ?_
  rw [show x.status = .cancelled from hcancelled]
  decide

end Cancel

/-! ## Refund requests -/

section Refund

variable {limits : Limits} {req : AuthedRequest} {id : ObjectId} {reason : String} {now : Time}
variable {s t : Db}

def Order.RefundOpened (o : Order) : Prop := o.refundStatus ≠ .none

theorem refundRejection_halts (limits : Limits) (req : AuthedRequest) (id : ObjectId)
    (windowStart : Time) : (refundRejection limits req id windowStart).Halts mongo := by
  refine (halts_db _).bind fun found => ?_
  cases found with
  | none => trivial
  | some order =>
    dsimp only
    repeat' split
    all_goals trivial

theorem requestRefundWork_halts (limits : Limits) (req : AuthedRequest) (id : ObjectId)
    (reason : String) (now : Time) :
    (requestRefundWork limits req id reason now).Halts mongo := by
  refine (halts_db _).bind fun updated => ?_
  cases updated with
  | none => exact (refundRejection_halts _ _ _ _).bind fun _ => trivial
  | some order => exact (halts_db _).bind fun _ => trivial

theorem requestRefundWork_reaches {o : DbOp}
    (h : (requestRefundWork limits req id reason now).Reaches mongo s o t) :
    Interrupted Order.RefundOpened id s o t := by
  obtain ⟨x, hx, hguard, hexec⟩ | ⟨-, hexec⟩ := exec_orderUpdate
    (.requestRefund (ownedOrderFilter req id) (refundWindowStart limits now) reason) now s
  · rcases (Prog.reaches_perform_bind (S := Mongo) hexec).1 h with ⟨rfl, rfl⟩ | h
    · exact .inl ⟨rfl, rfl⟩
    rcases Prog.reaches_bind.1 h with h | ⟨_, _, _, h⟩
    · obtain ⟨rfl, rfl⟩ := Prog.reaches_perform.1 h
      have hnone : ¬ x.RefundOpened := by
        simp [OrderUpdate.guard] at hguard
        simpa [Order.RefundOpened] using hguard.1.1.2
      have hmoved := get?_update_self s.orders id ((OrderUpdate.requestRefund
        (ownedOrderFilter req id) (refundWindowStart limits now) reason).patch now)
      rw [show s.orders.get? id = some x from hx] at hmoved
      exact .inr ⟨rfl, ⟨x, hx, hnone⟩, _, hmoved, by simp [Order.RefundOpened, OrderUpdate.patch,
        OrderUpdate.apply]⟩
    · exact h.elim
  rcases (Prog.reaches_perform_bind (S := Mongo) hexec).1 h with ⟨rfl, rfl⟩ | h
  · exact .inl ⟨rfl, rfl⟩
  rcases Prog.reaches_bind.1 h with h | ⟨_, _, _, h⟩
  · rcases Prog.reaches_bind.1 h with h | ⟨found, u, -, h⟩
    · obtain ⟨rfl, rfl⟩ := Prog.reaches_perform.1 h
      exact .inl ⟨rfl, rfl⟩
    · cases found with
      | none => exact h.elim
      | some order =>
        dsimp only at h
        repeat' split at h
        all_goals exact h.elim
  · exact h.elim

/-- A refund is not requested again. -/
theorem requestRefundWork_refused (h : OrderIs Order.RefundOpened id s) :
    Refused (requestRefundWork limits req id reason now) s := by
  obtain ⟨x, hx, hopened⟩ := h
  have hstatus : (x.refundStatus == .none) = false := by simpa [Order.RefundOpened] using hopened
  refine Refused.orderUpdate hx (by simp [OrderUpdate.guard, hstatus]) ?_
  show Refused (Prog.bind (Prog.bind _ _) _) s
  rw [Prog.bind_assoc]
  refine Refused.orderFindOne fun found => ?_
  cases found with
  | none => exact ⟨_, rfl⟩
  | some order =>
    dsimp only
    repeat' split
    all_goals exact ⟨_, rfl⟩

end Refund

/-! ## Repeating a request -/

/-- The interrupted call has left the order as it was, or the same request, repeated with its calls
failing or not, is at last answered with success and leaves what an uninterrupted call leaves. -/
def Recoverable (call : Time → Handler Order) (id : ObjectId) (now : Time)
    (φ : Faults (Mongo.tx ApiError)) (s : Db) : Prop :=
  let t := ((call now).run mongo.transactional φ s).2
  let full := ((call now).eval mongo.transactional s).2
  t.orders.get? id = s.orders.get? id ∨
    ∃ retries now' φ' result u,
      (call now').run mongo.transactional φ' (Prog.attempts mongo.transactional call retries t) =
        (.ok result, u) ∧ SameOutcome full u ∧ u.domainEvents = full.domainEvents

/-- A request that moves its order to `P` with its first write and accepts no order in `P`. -/
structure OneShot (P : Order → Prop) (id : ObjectId) (call : Time → Handler Order) : Prop where
  halts : ∀ now, (call now).Halts mongo.transactional
  reaches : ∀ now s o t, (call now).Reaches mongo.transactional s (.op o) t →
    Interrupted P id s o t
  refused : ∀ now φ s, OrderIs P id s →
    ∃ e, (call now).run mongo.transactional φ s = (.error e, s)

/-- What is refused alone is refused under every schedule of failures. -/
theorem Refused.run {α β : Type} {p : MongoM α} {s : Db} (h : Refused p s) (hp : p.Halts mongo)
    (f : α → β) (φ : Faults (Mongo.tx ApiError)) :
    ∃ e, (f <$> p.embed).run mongo.transactional φ s = (.error e, s) := by
  obtain ⟨⟨e, heval⟩, hreaches⟩ := h
  have hhalts : (f <$> p.embed).Halts mongo.transactional := hp.embed.bind fun _ => trivial
  obtain ⟨-, hrun⟩ | ⟨o, t, -, hreach, hrun⟩ := hhalts.run φ s
  · refine ⟨e, hrun.trans ?_⟩
    show (p.embed.bind _).eval mongo.transactional s = _
    rw [Prog.eval_bind, Prog.eval_embed, heval]
  · rcases Prog.reaches_bind.1 hreach with hreach | ⟨_, _, _, hreach⟩
    · obtain ⟨o', -, hreach⟩ := Prog.reaches_embed.1 hreach
      exact ⟨_, hreaches o' t hreach ▸ hrun⟩
    · exact hreach.elim

theorem OneShot.of_work {α : Type} {P : Order → Prop} {id : ObjectId} {work : Time → MongoM α}
    (f : α → Order) (hhalts : ∀ now, (work now).Halts mongo)
    (hreaches : ∀ now s o t, (work now).Reaches mongo s o t → Interrupted P id s o t)
    (hrefused : ∀ now s, OrderIs P id s → Refused (work now) s) :
    OneShot P id fun now => f <$> (work now).embed where
  halts now := (hhalts now).embed.bind fun _ => trivial
  reaches now s o t h := by
    rcases Prog.reaches_bind.1 h with h | ⟨_, _, _, h⟩
    · obtain ⟨o', ho, h⟩ := Prog.reaches_embed.1 h
      cases ho
      exact hreaches now s o t h
    · exact h.elim
  refused now φ s h := (hrefused now s h).run (hhalts now) f φ

theorem cancel_oneShot (req : AuthedRequest) (id : ObjectId) (reason : String) :
    OneShot Order.Cancelled id (cancel .standalone req id reason) :=
  .of_work CancelResult.order (cancelWork_halts req id reason)
    (fun _ _ _ _ h => cancelWork_reaches h) fun _ _ h => cancelWork_refused_cancelled h

theorem requestRefund_oneShot (limits : Limits) (req : AuthedRequest) (id : ObjectId)
    (reason : String) :
    OneShot Order.RefundOpened id (requestRefund .standalone limits req id reason) := by
  have h := OneShot.of_work (fun order : Order => order) (requestRefundWork_halts limits req id reason)
    (fun _ _ _ _ h => requestRefundWork_reaches h) fun _ _ h => requestRefundWork_refused h
  have hmap : ∀ p : Handler Order, (fun order => order) <$> p = p := Prog.bind_pure
  simp only [hmap] at h
  exact h

/-- Once its order has moved, the request has lost what it had not yet done. -/
theorem OneShot.recoverable_iff {P : Order → Prop} {id : ObjectId} {call : Time → Handler Order}
    (h : OneShot P id call) {now : Time} {φ : Faults (Mongo.tx ApiError)} {s : Db} {o : DbOp}
    (hstruck : (call now).struck mongo.transactional φ s = some (.op o)) :
    Recoverable call id now φ s ↔ o.afterUpdate = false := by
  obtain ⟨t, hreach, hrun⟩ := (h.halts now).run_struck hstruck
  simp only [Recoverable, hrun]
  constructor
  · rintro hrecover
    obtain ⟨hbefore, -⟩ | ⟨-, ⟨x, hx, hopen⟩, hmoved⟩ := h.reaches now s o t hreach
    · exact hbefore
    -- The order has moved, so it differs, and every repetition is refused.
    exfalso
    obtain hsame | ⟨retries, now', φ', result, u, hok, -⟩ := hrecover
    · obtain ⟨y, hy, hP⟩ := hmoved
      obtain rfl : y = x := Option.some_inj.1 (hy.symm.trans (hsame.trans hx))
      exact hopen hP
    · have hstays := Prog.attempts_keeps (I := OrderIs P id) (fun now φ s hs => by
        obtain ⟨e, he⟩ := h.refused now φ s hs
        rw [he]
        exact hs) retries hmoved
      obtain ⟨e, he⟩ := h.refused now' φ' _ hstays
      cases he.symm.trans hok
  · intro hbefore
    obtain ⟨-, rfl⟩ | ⟨hafter, -⟩ := h.reaches now s o t hreach
    · exact .inl rfl
    · simp [hbefore] at hafter

/-- On a standalone server, for every call at which a cancellation or a refund request fails: the
order is unchanged, or repeating the request makes up for the failure, just when the failing call
is none of those that follow the update of the order. -/
theorem requests_recoverable (req : AuthedRequest) (id : ObjectId) (reason : String) (now : Time)
    (limits : Limits) (φ : Faults (Mongo.tx ApiError)) (s : Db) (o : DbOp) :
    ((cancel .standalone req id reason now).struck mongo.transactional φ s = some (.op o) →
      (Recoverable (cancel .standalone req id reason) id now φ s ↔ o.afterUpdate = false)) ∧
    ((requestRefund .standalone limits req id reason now).struck mongo.transactional φ s =
        some (.op o) →
      (Recoverable (requestRefund .standalone limits req id reason) id now φ s ↔
        o.afterUpdate = false)) :=
  ⟨(cancel_oneShot req id reason).recoverable_iff,
    (requestRefund_oneShot limits req id reason).recoverable_iff⟩

/-- The sample shop once its cart has been checked out. -/
def orderedDb : Db :=
  (((sampleCheckout 0).handler (sampleConfig .standalone)).eval mongo.transactional sampleDb).2

/-- A cancellation of that order, or a refund request for it, that fails at its first call. -/
theorem requests_recoverable_firstCall :
    (cancel .standalone sampleUser 0 "r" 1).struck mongo.transactional (.at 0) orderedDb =
        some (.op (.orderUpdate (.cancelUnpaid (ownedOrderFilter sampleUser 0) "r") 1)) ∧
      Recoverable (cancel .standalone sampleUser 0 "r") 0 1 (.at 0) orderedDb ∧
      (requestRefund .standalone ⟨15, 30⟩ sampleUser 0 "r" 1).struck mongo.transactional (.at 0)
        orderedDb = some (.op (.orderUpdate (.requestRefund (ownedOrderFilter sampleUser 0)
          (refundWindowStart ⟨15, 30⟩ 1) "r") 1)) ∧
      Recoverable (requestRefund .standalone ⟨15, 30⟩ sampleUser 0 "r") 0 1 (.at 0) orderedDb :=
  ⟨rfl, ((requests_recoverable sampleUser 0 "r" 1 ⟨15, 30⟩ (.at 0) orderedDb _).1 rfl).2 rfl,
    rfl, ((requests_recoverable sampleUser 0 "r" 1 ⟨15, 30⟩ (.at 0) orderedDb _).2 rfl).2 rfl⟩

/-- The cancellation fails when it reads the reservations to release: the order stays cancelled, its
units stay held, and no repetition makes up for it. -/
theorem requests_recoverable_counterexample :
    (cancel .standalone sampleUser 0 "r" 1).struck mongo.transactional (.at 1) orderedDb =
        some (.op (.reservationsActive 0)) ∧
      ¬ Recoverable (cancel .standalone sampleUser 0 "r") 0 1 (.at 1) orderedDb := by
  have hstruck : (cancel .standalone sampleUser 0 "r" 1).struck mongo.transactional (.at 1)
      orderedDb = some (.op (.reservationsActive 0)) := rfl
  refine ⟨hstruck, fun h => ?_⟩
  have hafter := ((cancel_oneShot sampleUser 0 "r").recoverable_iff hstruck).1 h
  simp [DbOp.afterUpdate] at hafter

end Ecommerce
