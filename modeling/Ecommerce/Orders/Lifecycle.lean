import Ecommerce.Model.Calls

/-!
# The life of an order

What every legal update of an order preserves, whoever makes it and when: the payment history is a
chain of allowed transitions, and the three status fields fit together.
-/

namespace Ecommerce

open Effect Effect.Collection

/-- Entries that lead from one payment status to another along `allowedTransitions`, each starting
where the one before it ended. -/
def HistoryChain : PaymentStatus → List PaymentTransition → PaymentStatus → Prop
  | src, [], dst => src = dst
  | src, entry :: rest, dst =>
    entry.fromStatus = src ∧ entry.toStatus ∈ allowedTransitions entry.fromStatus ∧
      HistoryChain entry.toStatus rest dst

theorem HistoryChain.append {src dst : PaymentStatus} {history : List PaymentTransition}
    (h : HistoryChain src history dst) {entry : PaymentTransition} (hfrom : entry.fromStatus = dst)
    (hedge : entry.toStatus ∈ allowedTransitions entry.fromStatus) :
    HistoryChain src (history ++ [entry]) entry.toStatus := by
  induction history generalizing src with
  | nil =>
    obtain rfl : src = dst := h
    exact ⟨hfrom, hedge, rfl⟩
  | cons e rest ih => exact ⟨h.1, h.2.1, ih h.2.2⟩

/-- Once paid, an order is paid or refunded. -/
theorem HistoryChain.of_paid {src dst : PaymentStatus} {history : List PaymentTransition}
    (h : HistoryChain src history dst) (hsrc : src = .paid ∨ src = .refunded) :
    dst = .paid ∨ dst = .refunded := by
  induction history generalizing src with
  | nil => exact (show src = dst from h) ▸ hsrc
  | cons e rest ih =>
    obtain ⟨hfrom, hedge, hrest⟩ := h
    refine ih hrest (.inr ?_)
    rcases hsrc with rfl | rfl
    · simpa [hfrom, allowedTransitions] using hedge
    · simp [hfrom, allowedTransitions] at hedge

theorem HistoryChain.paid_of_mem {src dst : PaymentStatus} {history : List PaymentTransition}
    (h : HistoryChain src history dst) {entry : PaymentTransition} (hmem : entry ∈ history)
    (hpaid : entry.toStatus = .paid) : dst = .paid ∨ dst = .refunded := by
  induction history generalizing src with
  | nil => simp at hmem
  | cons e rest ih =>
    rcases List.mem_cons.1 hmem with rfl | hmem
    · exact h.2.2.of_paid (.inl hpaid)
    · exact ih h.2.2 hmem

/-- Only an order that was never paid for is unpaid, and its history is empty. -/
theorem HistoryChain.eq_nil {src : PaymentStatus} {history : List PaymentTransition}
    (h : HistoryChain src history .unpaid) : history = [] := by
  induction history generalizing src with
  | nil => rfl
  | cons e rest ih =>
    obtain ⟨-, hedge, hrest⟩ := h
    obtain rfl := ih hrest
    have hto : e.toStatus = .unpaid := hrest
    cases hfrom : e.fromStatus <;> simp [hto, hfrom, allowedTransitions] at hedge

/-- The payment history and the status fields of an order fit together. -/
structure Order.Sound (o : Order) : Prop where
  history : HistoryChain .unpaid o.paymentStateHistory o.paymentStatus
  pending : o.status = .pending → o.paymentStatus = .unpaid ∨ o.paymentStatus = .failed
  fulfilment : o.status ∈ STATUS_FOR_RANK → o.paymentStatus = .paid ∨ o.paymentStatus = .refunded
  captured : o.status = .cancelled → o.paymentStatus = .paid → o.refundStatus = .requested
  refunded : o.refundStatus = .processed ↔ o.paymentStatus = .refunded
  no_authorized : o.paymentStatus ≠ .authorized

theorem OrderDraft.sound (d : OrderDraft) (id : ObjectId) (now : Time) : (d.order id now).Sound where
  history := rfl
  pending _ := .inl rfl
  fulfilment h := by simp [OrderDraft.order, STATUS_FOR_RANK] at h
  captured h := by simp [OrderDraft.order] at h
  refunded := by simp [OrderDraft.order]
  no_authorized := by simp [OrderDraft.order]

theorem mem_STATUS_FOR_RANK {status : OrderStatus} : status ∈ STATUS_FOR_RANK ↔
    status = .confirmed ∨ status = .processing ∨ status = .shipped ∨ status = .delivered := by
  simp [STATUS_FOR_RANK]

/-- A payment that is still open can only be paid or fail, and a paid one only be refunded. -/
theorem OrderTransition.Legal.cases {t : OrderTransition} (h : t.Legal)
    (hauth : t.fromPayment ≠ .authorized) :
    (t.fromPayment = .unpaid ∧ (t.toPayment = .paid ∨ t.toPayment = .failed)) ∨
      (t.fromPayment = .paid ∧ t.toPayment = .refunded) := by
  have hedge := h.edge
  have htarget := h.target
  cases hfrom : t.fromPayment <;> simp_all [allowedTransitions]

theorem Order.Sound.transition {o : Order} (ho : o.Sound) {t : OrderTransition} (ht : t.Legal)
    (hguard : (OrderUpdate.transition t).guard o) (now : Time) :
    ((OrderUpdate.transition t).apply now o).Sound := by
  obtain ⟨hpay, hst⟩ : o.paymentStatus = t.fromPayment ∧ o.status = t.fromStatus := by
    simpa [OrderUpdate.guard] using hguard
  have hhistory : HistoryChain .unpaid (o.paymentStateHistory ++ [⟨t.fromPayment, t.toPayment, now,
      t.reason⟩]) t.toPayment :=
    ho.history.append hpay.symm ht.edge
  have hpending := ho.pending
  have hfulfilment := ho.fulfilment
  have hrefunded := ho.refunded
  have hcancelled := ht.not_cancelled
  rcases ht.cases (hpay ▸ ho.no_authorized) with ⟨hfrom, hto | hto⟩ | ⟨hfrom, hto⟩
  · -- An order that is paid for leaves pending.
    refine ⟨hhistory, ?_, ?_, ?_, ?_, ?_⟩ <;>
      simp_all [OrderUpdate.apply, ht.status, ht.refund]
    all_goals split <;> simp_all
  · refine ⟨hhistory, ?_, ?_, ?_, ?_, ?_⟩ <;>
      simp_all [OrderUpdate.apply, ht.status, ht.refund]
  · refine ⟨hhistory, ?_, ?_, ?_, ?_, ?_⟩ <;>
      simp_all [OrderUpdate.apply, ht.status, ht.refund]

/-- A legal update keeps an order sound. -/
theorem Order.Sound.apply {o : Order} (ho : o.Sound) {u : OrderUpdate} (hu : u.Legal)
    (hguard : u.guard o) (now : Time) : (u.apply now o).Sound := by
  obtain ⟨hhistory, hpending, hfulfilment, hcaptured, hrefunded, hauth⟩ := ho
  cases u with
  | transition t =>
    exact Order.Sound.transition ⟨hhistory, hpending, hfulfilment, hcaptured, hrefunded, hauth⟩ hu
      hguard now
  | cancelUnpaid owned reason =>
    obtain ⟨-, hpay⟩ : _ ∧ (o.paymentStatus = .unpaid ∨ o.paymentStatus = .failed) := by
      simpa [OrderUpdate.guard] using hguard
    refine ⟨hhistory, ?_, ?_, ?_, hrefunded, hauth⟩ <;>
      simp_all [OrderUpdate.apply, mem_STATUS_FOR_RANK]
    rcases hpay with h | h <;> simp [h]
  | cancelPaid owned reason =>
    refine ⟨hhistory, ?_, ?_, ?_, ?_, hauth⟩ <;>
      simp_all [OrderUpdate.apply, OrderUpdate.guard, mem_STATUS_FOR_RANK]
  | requestRefund owned windowStart reason =>
    refine ⟨hhistory, hpending, hfulfilment, fun _ _ => rfl, ?_, hauth⟩
    simp_all [OrderUpdate.apply, OrderUpdate.guard]
  | expire id =>
    refine ⟨hhistory, ?_, ?_, ?_, hrefunded, hauth⟩ <;>
      simp_all [OrderUpdate.apply, OrderUpdate.guard, mem_STATUS_FOR_RANK]
  | advance id behind status =>
    have hpaid := hfulfilment (behindStatuses_subset _
      (by simpa [OrderUpdate.guard, hu.2] using hguard))
    have hstatus := mem_STATUS_FOR_RANK.1 hu.1
    refine ⟨hhistory, ?_, fun _ => hpaid, ?_, hrefunded, hauth⟩ <;>
      rcases hstatus with rfl | rfl | rfl | rfl <;> simp [OrderUpdate.apply]

/-! ## All orders -/

/-- Every order is sound. -/
def OrdersSound (db : Db) : Prop := ∀ o ∈ db.orders.docs, o.Sound

/-- The calls that write orders. -/
def DbOp.WritesOrders : DbOp → Prop
  | .orderCreate .. | .orderDelete _ | .orderUpdate .. => True
  | _ => False

theorem exec_orders {o : DbOp} (h : ¬ o.WritesOrders) (db : Db) :
    (mongo.exec o db).2.orders = db.orders ∧
      (mongo.exec o db).2.deletedOrders = db.deletedOrders := by
  cases o <;> first
    | exact absurd trivial h
    | exact ⟨rfl, rfl⟩
    | (constructor <;> simp only [mongo, Db.exec] <;> split <;> first | rfl | (split <;> rfl))

theorem exec_ordersSound (o : DbOp) (h : o.Legal) (db : Db) (hdb : OrdersSound db) :
    OrdersSound (mongo.exec o db).2 := by
  by_cases hwrites : o.WritesOrders
  · cases o with
    | orderCreate draft now =>
      intro x hx
      rcases (mem_insert (h := draft.key_order _ now)).1 hx with hx | rfl
      · exact hdb x hx
      · exact draft.sound _ now
    | orderDelete id => exact fun x hx => hdb x (mem_erase.1 hx).1
    | orderUpdate u now =>
      obtain ⟨x, hx, hguard, heq⟩ | ⟨-, heq⟩ := exec_orderUpdate u now db
      · rw [heq]
        intro y hy
        rcases (mem_update hx).1 hy with ⟨hy, -⟩ | rfl
        · exact hdb y hy
        · exact (hdb x (get?_eq_some.1 hx).1).apply h hguard now
      · rw [heq]
        exact hdb
    | _ => exact hwrites.elim
  · rw [OrdersSound, (exec_orders hwrites db).1]
    exact hdb

theorem transactional_ordersSound (o : TxOp Mongo ApiError) (h : o.Within DbOp.Legal) (db : Db)
    (hdb : OrdersSound db) : OrdersSound (mongo.transactional.exec o db).2 :=
  Machine.transactional_keeps exec_ordersSound o h db hdb

/-- Along every run of the server all orders stay sound. -/
theorem run_ordersSound {cfg : ServerConfig} {admits : ServerPool → Action Request → Prop}
    {c d : ServerPool} {as : List (Action Request)} (hrun : (server cfg).Run admits c as d)
    (hstart : c.threads = []) (h : OrdersSound c.state) : OrdersSound d.state :=
  (hrun.issues (handler_issues_legal cfg) transactional_ordersSound (by simp [hstart]) h).1

end Ecommerce
