import Ecommerce.Orders.Fulfilment

/-!
# What an order keeps

Of an order that has been placed only its state changes, and the records of what happened to it. A
record is written in the step that makes the order what it records, and never again.
-/

namespace Ecommerce

open Effect Effect.Collection

/-! ## Single orders -/

/-- What was agreed at checkout is the same. -/
structure Order.SameTerms (a b : Order) : Prop where
  user : b.user = a.user
  tenant : b.tenant = a.tenant
  items : b.items = a.items
  subtotal : b.subtotal = a.subtotal
  discountTotal : b.discountTotal = a.discountTotal
  total : b.total = a.total
  coupon : b.coupon = a.coupon
  shippingAddress : b.shippingAddress = a.shippingAddress

/-- The records fit the state of the order. -/
structure Order.Recorded (o : Order) : Prop where
  cancelled : o.cancelledAt.isSome ↔ o.status = .cancelled
  reason : o.cancellationReason.isSome ↔ o.status = .cancelled
  delivered : o.deliveredAt.isSome ↔ o.status = .delivered
  refund : o.refundRequestedAt.isSome → o.refundStatus ≠ .none
  requested : o.refundStatus = .requested → o.refundRequestedAt.isSome
  refundReason : o.refundReason.isSome ↔ o.refundRequestedAt.isSome

/-- What an order becomes: the terms stay, the payments go on from where they were, and no record is
written twice. -/
structure Order.Continues (a b : Order) : Prop where
  terms : a.SameTerms b
  status : StatusPath a.status b.status
  payments : ∃ rest, b.paymentStateHistory = a.paymentStateHistory ++ rest ∧
    HistoryChain a.paymentStatus rest b.paymentStatus
  cancelled : a.cancelledAt.isSome →
    b.cancelledAt = a.cancelledAt ∧ b.cancellationReason = a.cancellationReason
  refund : a.refundRequestedAt.isSome →
    b.refundRequestedAt = a.refundRequestedAt ∧ b.refundReason = a.refundReason
  delivered : a.deliveredAt.isSome → b.deliveredAt = a.deliveredAt

section Orders

variable {a b c o : Order} {u : OrderUpdate}

theorem Order.SameTerms.refl (o : Order) : o.SameTerms o := ⟨rfl, rfl, rfl, rfl, rfl, rfl, rfl, rfl⟩

theorem Order.SameTerms.trans (h : a.SameTerms b) (h' : b.SameTerms c) : a.SameTerms c where
  user := h'.user.trans h.user
  tenant := h'.tenant.trans h.tenant
  items := h'.items.trans h.items
  subtotal := h'.subtotal.trans h.subtotal
  discountTotal := h'.discountTotal.trans h.discountTotal
  total := h'.total.trans h.total
  coupon := h'.coupon.trans h.coupon
  shippingAddress := h'.shippingAddress.trans h.shippingAddress

theorem HistoryChain.trans {src mid dst : PaymentStatus} {before after : List PaymentTransition}
    (h : HistoryChain src before mid) (h' : HistoryChain mid after dst) :
    HistoryChain src (before ++ after) dst := by
  induction before generalizing src with
  | nil => exact (show src = mid from h) ▸ h'
  | cons entry rest ih => exact ⟨h.1, h.2.1, ih h.2.2⟩

theorem Order.Continues.refl (o : Order) : o.Continues o where
  terms := .refl o
  status := .refl
  payments := ⟨[], by simp, rfl⟩
  cancelled _ := ⟨rfl, rfl⟩
  refund _ := ⟨rfl, rfl⟩
  delivered _ := rfl

theorem Order.Continues.trans (h : a.Continues b) (h' : b.Continues c) : a.Continues c where
  terms := h.terms.trans h'.terms
  status := h.status.trans h'.status
  payments := by
    obtain ⟨before, hbefore, hchain⟩ := h.payments
    obtain ⟨after, hafter, hchain'⟩ := h'.payments
    exact ⟨before ++ after, by rw [hafter, hbefore, List.append_assoc], hchain.trans hchain'⟩
  cancelled ha := by
    obtain ⟨hat, hreason⟩ := h.cancelled ha
    obtain ⟨hat', hreason'⟩ := h'.cancelled (hat ▸ ha)
    exact ⟨hat'.trans hat, hreason'.trans hreason⟩
  refund ha := by
    obtain ⟨hat, hreason⟩ := h.refund ha
    obtain ⟨hat', hreason'⟩ := h'.refund (hat ▸ ha)
    exact ⟨hat'.trans hat, hreason'.trans hreason⟩
  delivered ha := by
    have hat := h.delivered ha
    exact (h'.delivered (hat ▸ ha)).trans hat

theorem OrderDraft.recorded (d : OrderDraft) (id : ObjectId) (now : Time) : (d.order id now).Recorded := by
  constructor <;> simp [OrderDraft.order]

/-- A shipment moves an order that is neither cancelled nor delivered. -/
theorem OrderUpdate.advance_open {id : ObjectId} {behind : List OrderStatus} {status : OrderStatus}
    (hu : (OrderUpdate.advance id behind status).Legal)
    (hguard : (OrderUpdate.advance id behind status).guard o) :
    o.status ≠ .cancelled ∧ o.status ≠ .delivered ∧ status ≠ .cancelled := by
  obtain ⟨hmem, rfl⟩ := hu
  have hedge := behindStatuses_edge status hmem o.status (by simpa [OrderUpdate.guard] using hguard)
  refine ⟨fun h => ?_, fun h => ?_, ?_⟩
  · simp [h, fulfilmentTransitions] at hedge
  · simp [h, fulfilmentTransitions] at hedge
  · rintro rfl
    simp [STATUS_FOR_RANK] at hmem

/-- An order is open until the update that cancels it. -/
theorem cancellable_open (h : CANCELLABLE_STATUSES.contains o.status) :
    o.status ≠ .cancelled ∧ o.status ≠ .delivered := by
  constructor <;> intro hs <;> simp [hs, CANCELLABLE_STATUSES] at h

/-- A legal update keeps the records in step with the order. -/
theorem Order.Recorded.apply (ho : o.Recorded) (hu : u.Legal) (hguard : u.guard o) (now : Time) :
    (u.apply now o).Recorded := by
  obtain ⟨hcancelled, hreason, hdelivered, hrefund, hrequested, hrefundReason⟩ := ho
  cases u with
  | cancelUnpaid owned reason =>
    obtain ⟨-, hopen⟩ := cancellable_open (o := o) (by simp_all [OrderUpdate.guard])
    have hnot : o.deliveredAt.isSome = false := by simpa [hopen] using hdelivered
    constructor <;> simp_all [OrderUpdate.apply]
  | cancelPaid owned reason =>
    obtain ⟨-, hopen⟩ := cancellable_open (o := o) (by simp_all [OrderUpdate.guard])
    have hnot : o.deliveredAt.isSome = false := by simpa [hopen] using hdelivered
    constructor <;> simp_all [OrderUpdate.apply]
  | requestRefund owned windowStart reason => constructor <;> simp_all [OrderUpdate.apply]
  | expire id =>
    have hopen : o.status = .pending := by simp_all [OrderUpdate.guard]
    have hnot : o.deliveredAt.isSome = false := by simpa [hopen] using hdelivered
    constructor <;> simp_all [OrderUpdate.apply]
  | transition t =>
    obtain ⟨-, hst⟩ : o.paymentStatus = t.fromPayment ∧ o.status = t.fromStatus := by
      simpa [OrderUpdate.guard] using hguard
    have hstatus := OrderTransition.Legal.status hu
    have htoRefund := OrderTransition.Legal.refund hu
    -- An order that is paid for goes on from pending, which no record is of.
    have hopen : ∀ status, status = .cancelled ∨ status = .delivered →
        (t.toStatus = status ↔ o.status = status) := by
      intro status h
      rw [hstatus, hst]
      split
      · next hpaid => rcases h with rfl | rfl <;> simp [hpaid.2]
      · rfl
    constructor
    · exact hcancelled.trans (hopen _ (.inl rfl)).symm
    · exact hreason.trans (hopen _ (.inl rfl)).symm
    · exact hdelivered.trans (hopen _ (.inr rfl)).symm
    · intro h
      simp only [OrderUpdate.apply, htoRefund]
      split
      · simp
      · exact hrefund h
    · intro h
      simp only [OrderUpdate.apply, htoRefund] at h
      split at h
      · cases h
      · exact hrequested h
    · exact hrefundReason
  | advance id behind status =>
    obtain ⟨hnotCancelled, hnotDelivered, hstatus⟩ := OrderUpdate.advance_open hu hguard
    have hnot : o.deliveredAt.isSome = false := by simpa [hnotDelivered] using hdelivered
    constructor <;> simp_all [OrderUpdate.apply]

/-- A legal update leaves the terms and the records that are there alone. -/
theorem Order.Recorded.continues (ho : o.Recorded) (hu : u.Legal) (hguard : u.guard o) (now : Time) :
    o.Continues (u.apply now o) where
  terms := by cases u <;> exact ⟨rfl, rfl, rfl, rfl, rfl, rfl, rfl, rfl⟩
  status := by
    rcases hu.edge hguard now with hsame | hedge
    · exact hsame ▸ .refl
    · exact .single hedge
  payments := by
    cases u with
    | transition t =>
      obtain ⟨hpay, -⟩ : o.paymentStatus = t.fromPayment ∧ o.status = t.fromStatus := by
        simpa [OrderUpdate.guard] using hguard
      exact ⟨[⟨t.fromPayment, t.toPayment, now, t.reason⟩], rfl, hpay.symm, OrderTransition.Legal.edge hu, rfl⟩
    | _ => exact ⟨[], by simp [OrderUpdate.apply], rfl⟩
  cancelled h := by
    have hcancelled := ho.cancelled.1 h
    cases u with
    | cancelUnpaid owned reason =>
      exact absurd hcancelled (cancellable_open (by simp_all [OrderUpdate.guard])).1
    | cancelPaid owned reason =>
      exact absurd hcancelled (cancellable_open (by simp_all [OrderUpdate.guard])).1
    | expire id => simp [OrderUpdate.guard, hcancelled] at hguard
    | _ => exact ⟨rfl, rfl⟩
  refund h := by
    have hrefund := ho.refund h
    cases u with
    | cancelPaid owned reason => simp [OrderUpdate.guard, hrefund] at hguard
    | requestRefund owned windowStart reason => simp [OrderUpdate.guard, hrefund] at hguard
    | _ => exact ⟨rfl, rfl⟩
  delivered h := by
    have hdelivered := ho.delivered.1 h
    cases u with
    | advance id behind status => exact absurd hdelivered (OrderUpdate.advance_open hu hguard).2.1
    | _ => rfl

end Orders

/-! ## Runs -/

def OrdersRecorded (s : Db) : Prop := ∀ o ∈ s.orders.docs, o.Recorded

theorem exec_ordersRecorded (o : DbOp) (h : o.Legal) (s : Db) (hs : OrdersRecorded s) :
    OrdersRecorded (mongo.exec o s).2 := by
  by_cases hwrites : o.WritesOrders
  · cases o with
    | orderCreate draft now =>
      intro x hx
      rcases (mem_insert (h := draft.key_order _ now)).1 hx with hx | rfl
      · exact hs x hx
      · exact draft.recorded _ now
    | orderDelete id => exact fun x hx => hs x (mem_erase.1 hx).1
    | orderUpdate u now =>
      obtain ⟨x, hx, hguard, heq⟩ | ⟨-, heq⟩ := exec_orderUpdate u now s
      · rw [heq]
        intro y hy
        rcases (mem_update hx).1 hy with ⟨hy, -⟩ | rfl
        · exact hs y hy
        · exact (hs x (get?_eq_some.1 hx).1).apply h hguard now
      · rw [heq]
        exact hs
    | _ => exact hwrites.elim
  · rw [OrdersRecorded, (exec_orders hwrites s).1]
    exact hs

/-- Every order that was recorded goes on, and is recorded. -/
def Goes (a b : Order) : Prop := a.Recorded → a.Continues b ∧ b.Recorded

theorem OrderUpdate.Legal.goes {u : OrderUpdate} (hu : u.Legal) : u.Respects Goes :=
  fun now _ hguard ho => ⟨ho.continues hu hguard now, ho.apply hu hguard now⟩

section Runs

variable {cfg : ServerConfig} {admits : ServerPool → Action Request → Prop} {start c : ServerPool}
variable {as : List (Action Request)}

/-- In every reachable state, the records of each order fit what it is. -/
theorem run_orders_recorded (hstart : start.threads = []) (hrecorded : OrdersRecorded start.state)
    (hrun : (server cfg).Run admits start as c) : OrdersRecorded c.state :=
  (hrun.issues (handler_issues_legal cfg)
    (fun o ho s hs => Machine.transactional_keeps exec_ordersRecorded o ho s hs) (by simp [hstart])
    hrecorded).1

end Runs

/-- The sample cart checked out and paid for. -/
def paidOrder : List (Action Request) :=
  [.spawn (sampleCheckout 0), .act 0, .spawn (.webhook (sampleDelivery "e") 0), .act 1, .act 1, .act 1,
    .act 1, .act 1]

theorem run_orders_recorded_cancel :
    ∃ c o, (server (sampleConfig .replicaSet)).play (fun _ _ => true) ⟨sampleDb, []⟩
        (paidOrder ++ [.spawn (.cancel sampleUser 0 "r" 5), .act 2]) = some c ∧
      c.state.orders.get? 0 = some o ∧ o.cancelledAt = some 5 ∧ o.refundRequestedAt = some 5 ∧ o.Recorded := by
  obtain ⟨c, hc, h⟩ := (Option.any_eq_true _ _).1 (by decide +kernel :
    ((server (sampleConfig .replicaSet)).play (fun _ _ => true) ⟨sampleDb, []⟩
      (paidOrder ++ [.spawn (.cancel sampleUser 0 "r" 5), .act 2])).any fun c =>
        (c.state.orders.get? 0).any fun o => decide (o.cancelledAt = some 5 ∧ o.refundRequestedAt = some 5))
  obtain ⟨o, ho, h⟩ := (Option.any_eq_true _ _).1 h
  obtain ⟨hcancelled, hrefund⟩ := of_decide_eq_true h
  refine ⟨c, o, hc, ho, hcancelled, hrefund, ?_⟩
  exact run_orders_recorded rfl (fun _ h => by cases h) (System.Run.of_play hc) o (get?_eq_some.1 ho).1

section Runs

variable {cfg : ServerConfig} {admits : ServerPool → Action Request → Prop} {start c d : ServerPool}
variable {as bs : List (Action Request)}

/-- And along every run, each order that is still there has gone on from what it was. -/
theorem run_orders_continue (hstart : start.threads = []) (hrecorded : OrdersRecorded start.state)
    (hrun : (server cfg).Run admits start as c) (hrest : (server cfg).Run admits c bs d) {k : ObjectId}
    {a b : Order} (ha : c.state.orders.get? k = some a) (hb : d.state.orders.get? k = some b) :
    a.Continues b := by
  have hmoves : ∀ request : Request, (request.handler cfg).Issues fun o => ∀ s,
      OrdersMove Goes s (mongo.transactional.exec o s).2 :=
    handler_ordersMove (fun o ho => ⟨.refl o, ho⟩) (fun _ hu => hu.goes) cfg
  have hthreads := (hrun.issues (I := fun _ => True) hmoves (fun _ _ _ h => h) (by simp [hstart]) trivial).2
  have harecorded : a.Recorded := run_orders_recorded hstart hrecorded hrun a (get?_eq_some.1 ha).1
  have hgoes : OrderHas (fun b => a.Continues b ∧ b.Recorded) k c.state :=
    ⟨get?_lt ha, fun x hx => Option.some_inj.1 (ha.symm.trans hx) ▸ ⟨.refl a, harecorded⟩⟩
  refine (((hrest.issues (I := OrderHas (fun b => a.Continues b ∧ b.Recorded) k) hmoves
    (fun o ho s hs => ?_) hthreads hgoes).1).2 b hb).1
  refine hs.move (fun x y hxy hx => ?_) (transactional_keepsNumbers o s) (ho s)
  obtain ⟨hcontinues, hrecorded⟩ := hxy hx.2
  exact ⟨hx.1.trans hcontinues, hrecorded⟩

end Runs

theorem run_orders_continue_cancel :
    ∃ c d a b, (server (sampleConfig .replicaSet)).play (fun _ _ => true) ⟨sampleDb, []⟩
        [.spawn (sampleCheckout 0), .act 0] = some c ∧
      (server (sampleConfig .replicaSet)).play (fun _ _ => true) c
        (paidOrder.drop 2 ++ [.spawn (.cancel sampleUser 0 "r" 5), .act 2]) = some d ∧
      c.state.orders.get? 0 = some a ∧ d.state.orders.get? 0 = some b ∧ b.status = .cancelled ∧
      b.paymentStateHistory.length = 1 ∧ a.Continues b := by
  obtain ⟨c, hc, h⟩ := (Option.any_eq_true _ _).1 (by decide +kernel :
    ((server (sampleConfig .replicaSet)).play (fun _ _ => true) ⟨sampleDb, []⟩
      [.spawn (sampleCheckout 0), .act 0]).any fun c => ((server (sampleConfig .replicaSet)).play
        (fun _ _ => true) c (paidOrder.drop 2 ++ [.spawn (.cancel sampleUser 0 "r" 5), .act 2])).any fun d =>
          (c.state.orders.get? 0).any fun _ => (d.state.orders.get? 0).any fun b =>
            decide (b.status = .cancelled ∧ b.paymentStateHistory.length = 1))
  obtain ⟨d, hd, h⟩ := (Option.any_eq_true _ _).1 h
  obtain ⟨a, ha, h⟩ := (Option.any_eq_true _ _).1 h
  obtain ⟨b, hb, h⟩ := (Option.any_eq_true _ _).1 h
  obtain ⟨hcancelled, hpaid⟩ := of_decide_eq_true h
  refine ⟨c, d, a, b, hc, hd, ha, hb, hcancelled, hpaid, ?_⟩
  exact run_orders_continue rfl (fun _ h => by cases h) (System.Run.of_play hc) (System.Run.of_play hd) ha hb

end Ecommerce
