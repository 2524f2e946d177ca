import Ecommerce.Orders.Fulfilment

/-!
# Shipping and the payment

An upsert of a shipment checks that its order is paid on the copy that it reads first. The status
write that ends it looks at the status alone, so what counts is what happens to the payment in
between: nothing but a refund can.
-/

namespace Ecommerce

open Effect Effect.Collection

/-- The statuses that only a shipment leads to. -/
def OrderStatus.Shipping (status : OrderStatus) : Prop :=
  status ∈ [OrderStatus.processing, .shipped, .delivered]

/-- The status stays as it is, or becomes one that no shipment leads to. -/
def StaysOut (a b : Order) : Prop := a.status = b.status ∨ ¬ b.status.Shipping

/-- The payment stays as it is, or moves along the table. -/
def PaymentMoves (a b : Order) : Prop :=
  a.paymentStatus = b.paymentStatus ∨ b.paymentStatus ∈ allowedTransitions a.paymentStatus

theorem OrderUpdate.Legal.staysOut {u : OrderUpdate} (hu : u.Legal)
    (hadvance : ∀ id behind status, u ≠ .advance id behind status) : u.Respects StaysOut := by
  intro now o hguard
  cases u with
  | cancelUnpaid owned reason => exact .inr (by simp [OrderUpdate.apply, OrderStatus.Shipping])
  | cancelPaid owned reason => exact .inr (by simp [OrderUpdate.apply, OrderStatus.Shipping])
  | requestRefund owned windowStart reason => exact .inl rfl
  | expire id => exact .inr (by simp [OrderUpdate.apply, OrderStatus.Shipping])
  | advance id behind status => exact absurd rfl (hadvance id behind status)
  | transition t =>
    obtain ⟨-, hst⟩ : o.paymentStatus = t.fromPayment ∧ o.status = t.fromStatus := by
      simpa [OrderUpdate.guard] using hguard
    have hstatus := OrderTransition.Legal.status hu
    by_cases hpaid : t.toPayment = .paid ∧ t.fromStatus = .pending
    · exact .inr (by simp [OrderUpdate.apply, hstatus, hpaid, OrderStatus.Shipping])
    · exact .inl (by simp only [OrderUpdate.apply, hstatus, if_neg hpaid, hst])

theorem OrderUpdate.Legal.paymentMoves {u : OrderUpdate} (hu : u.Legal) : u.Respects PaymentMoves := by
  intro now o hguard
  cases u with
  | transition t =>
    obtain ⟨hpay, -⟩ : o.paymentStatus = t.fromPayment ∧ o.status = t.fromStatus := by
      simpa [OrderUpdate.guard] using hguard
    exact .inr (hpay ▸ OrderTransition.Legal.edge hu)
  | _ => exact .inl rfl

/-! ## Which orders a step may ship -/

/-- The operation moves no order but `k` to a status that a shipment leads to. -/
def TxOp.ShipsOnly (k : Option ObjectId) (o : TxOp Mongo ApiError) : Prop :=
  ∀ s k' a b, s.orders.get? k' = some a →
    (mongo.transactional.exec o s).2.orders.get? k' = some b → some k' ≠ k → StaysOut a b

theorem StaysOut.refl (o : Order) : StaysOut o o := .inl rfl

theorem exec_shipsOnly {o : DbOp} (ho : o.OfTransaction) : TxOp.ShipsOnly none (.op o) := by
  intro s k a b ha hb _
  refine exec_moves StaysOut.refl (fun u now h => ?_) s k a b ha hb
  subst h
  refine ho.legal.staysOut ?_
  rintro id behind status rfl
  rcases ho with (h | h) | h | ((h | h | h) | h)
  all_goals exact h

/-- The calls that an upsert makes once it has read the order. -/
def DbOp.OfShipping (k : ObjectId) (o : DbOp) : Prop :=
  o.Quiet ∨ (∃ shipment existing, o = .shipmentUpsert shipment existing) ∨
    ∃ behind status now, o = .orderUpdate (.advance k behind status) now

theorem DbOp.OfShipping.shipsOnly {o : DbOp} {k : ObjectId} (h : o.OfShipping k) :
    TxOp.ShipsOnly (some k) (.op o) := by
  intro s k' a b ha hb hk
  rcases h with h | ⟨shipment, existing, rfl⟩ | ⟨behind, status, now, rfl⟩
  · exact OrdersMove.of_orders StaysOut.refl (exec_orders h.not_writesOrders s).1 k' a b ha hb
  · exact OrdersMove.of_orders StaysOut.refl 
      (exec_orders (o := .shipmentUpsert shipment existing) not_false s).1 k' a b ha hb
  · have hsame : (mongo.exec (.orderUpdate (.advance k behind status) now) s).2.orders.get? k' =
        s.orders.get? k' := by
      obtain ⟨o, -, -, heq⟩ | ⟨-, heq⟩ :=
        exec_orderUpdate (.advance k behind status) now s
      · rw [heq]
        refine (get?_update _ _ _ _).trans (if_neg fun h => hk (congrArg some h))
      · rw [heq]
    exact Option.some_inj.1 ((ha.symm.trans hsame.symm).trans hb) ▸ .refl a

theorem handler_shipsOnly (cfg : ServerConfig) {request : Request}
    (hship : ∀ req id value now, request ≠ .shipment req id value now) :
    (request.handler cfg).Issues (TxOp.ShipsOnly none) := by
  have hmoves := handler_moves StaysOut.refl (fun u hu htransacted => hu.staysOut ?_) cfg request
  · have hcalls : (request.handler cfg).Issues (TxOp.Outside DbOp.OfTransaction) :=
      handler_issues_unshipped hship (fun _ h => h) (fun _ _ _ _ => trivial)
    refine (hmoves.and hcalls).mono ?_
    rintro (o | work) ⟨hmoves, hcall⟩
    · exact exec_shipsOnly hcall
    · exact fun s k a b ha hb _ => hmoves s k a b ha hb
  · rintro id behind status rfl
    exact htransacted

theorem advanceOrder_ofShipping (order : Order) (now : Time) :
    (advanceOrder order now).Issues (DbOp.OfShipping order.id) := by
  refine Prog.Issues.bind ?_ fun rank => ?_
  · refine (issues_db (.inl trivial)).bind fun _ => ?_
    exact (issues_db (.inl trivial)).bind fun _ => trivial
  · dsimp only
    split
    · trivial
    · split
      · exact (issues_db (.inr (.inr ⟨_, _, _, rfl⟩))).bind fun _ => trivial
      · trivial

/-- After the order has been read: nothing, unless the order is paid. -/
theorem upsertShipment_rest (req : AuthedRequest) (k : ObjectId) (value : ShipmentInput)
    (now : Time) : ∃ kont, upsertShipment req k value now =
      .call (S := Mongo) (.orderFindOne ⟨k, req.tenant, none⟩) kont ∧
      ∀ r, (∃ e, kont r = .done e) ∨ ∃ order : Order, r = .ok (some order) ∧
        order.paymentStatus = .paid ∧ (kont r).Issues (DbOp.OfShipping order.id) := by
  refine ⟨_, rfl, fun r => ?_⟩
  cases r with
  | error e => exact .inl ⟨_, rfl⟩
  | ok found =>
    cases found with
    | none => exact .inl ⟨_, rfl⟩
    | some order =>
      dsimp only [Prog.bind, Prog.bind_ok]
      split
      · exact .inl ⟨_, rfl⟩
      · next hcheck =>
        refine .inr ⟨order, rfl, by_contra fun h => hcheck (.inl h), ?_⟩
        refine ((shipmentSeller_issues req order).mono fun _ h => .inl h).bind fun seller => ?_
        refine (issues_db (.inl trivial)).bind fun existing => ?_
        split
        · trivial
        · refine (issues_db (.inr (.inl ⟨_, _, rfl⟩))).bind fun stored => ?_
          cases stored with
          | none => trivial
          | some shipment =>
            exact (advanceOrder_ofShipping order now).bind fun _ =>
              ((publishEvent_issues _).mono fun _ h => .inl h).bind fun _ => trivial

theorem handler_shipment_rest (cfg : ServerConfig) (req : AuthedRequest) (k : ObjectId)
    (value : ShipmentInput) (now : Time) :
    ∃ kont, Request.handler cfg (.shipment req k value now) =
      .call (S := Mongo.tx ApiError) (.op (.orderFindOne ⟨k, req.tenant, none⟩)) kont ∧
      ∀ r, (∃ e, kont r = .done e) ∨ ∃ order : Order, r = .ok (some order) ∧
        order.paymentStatus = .paid ∧ (kont r).Issues (TxOp.ShipsOnly (some order.id)) := by
  obtain ⟨kont, hkont, hrest⟩ := upsertShipment_rest req k value now
  refine ⟨fun r => (Response.shipment <$> kont r).embed, ?_, fun r => ?_⟩
  · show (Response.shipment <$> upsertShipment req k value now).embed = _
    rw [hkont]
    rfl
  · rcases hrest r with ⟨e, he⟩ | ⟨order, hr, hpaid, hissues⟩
    · left
      simp only [he]
      cases e <;> exact ⟨_, rfl⟩
    · exact .inr ⟨order, hr, hpaid, issues_embed (fun _ h => h.shipsOnly) hissues.map⟩

/-! ## The payment along a run -/

/-- The operation moves payments along the table. -/
def TxOp.KeepsPayments (o : TxOp Mongo ApiError) : Prop :=
  ∀ s, OrdersMove PaymentMoves s (mongo.transactional.exec o s).2

theorem PaymentMoves.refl (o : Order) : PaymentMoves o o := .inl rfl

theorem handler_keepsPayments (cfg : ServerConfig) (request : Request) :
    (request.handler cfg).Issues TxOp.KeepsPayments :=
  handler_ordersMove PaymentMoves.refl (fun _ hu => hu.paymentMoves) cfg request

/-- The order's number has been given out, and if the order is there its payment is in this state. -/
def PaymentIs (status : PaymentStatus) (k : ObjectId) (s : Db) : Prop :=
  k < s.orders.next ∧ ∀ o, s.orders.get? k = some o → o.paymentStatus = status

/-- The step takes the payment of an order out of `paid`: a refund is booked. -/
def Refunds (cfg : ServerConfig) (k : ObjectId) (c : ServerPool) (a : Action Request) : Prop :=
  ∃ d o o', (server cfg).step c a = some d ∧ c.state.orders.get? k = some o ∧
    o.paymentStatus = .paid ∧ d.state.orders.get? k = some o' ∧ o'.paymentStatus ≠ .paid

section Payment

variable {cfg : ServerConfig} {k : ObjectId} {c d : ServerPool} {a : Action Request}
variable (hthreads : ∀ t ∈ c.threads, t.prog.Issues TxOp.KeepsPayments)

include hthreads

theorem step_paymentMoves (hstep : (server cfg).step c a = some d) :
    OrdersMove PaymentMoves c.state d.state :=
  step_ordersMove hstep PaymentMoves.refl hthreads

/-- A payment that a step cannot take on stays as it is. -/
theorem PaymentIs.step {status : PaymentStatus} (h : PaymentIs status k c.state)
    (hstep : (server cfg).step c a = some d)
    (hstays : ∀ o o', c.state.orders.get? k = some o → o.paymentStatus = status →
      d.state.orders.get? k = some o' → o'.paymentStatus ∉ allowedTransitions status) :
    PaymentIs status k d.state := by
  obtain ⟨hnext, hgone⟩ := step_keepsNumbers hstep
  refine ⟨h.1.trans_le hnext, fun o' ho' => ?_⟩
  cases ho : c.state.orders.get? k with
  | none => cases ho'.symm.trans (hgone k h.1 ho)
  | some o =>
    have hstatus := h.2 o ho
    rcases step_paymentMoves hthreads hstep k o o' ho ho' with hsame | hedge
    · exact hsame ▸ hstatus
    · exact absurd (hstatus ▸ hedge) (hstays o o' ho hstatus ho')

end Payment

/-- Without a refund, a paid order stays paid. -/
theorem run_paid {cfg : ServerConfig} {k : ObjectId} {c d : ServerPool} {as : List (Action Request)}
    (hthreads : ∀ t ∈ c.threads, t.prog.Issues TxOp.KeepsPayments)
    (hrun : (server cfg).Run (fun e b => ¬ Refunds cfg k e b) c as d)
    (hpaid : PaymentIs .paid k c.state) : PaymentIs .paid k d.state := by
  refine (hrun.invariant (P := fun c => (∀ t ∈ c.threads, t.prog.Issues TxOp.KeepsPayments) ∧
    PaymentIs .paid k c.state) ?_ ⟨hthreads, hpaid⟩).2
  rintro c a d hrefund hstep ⟨hthreads, hpaid⟩
  refine ⟨System.step_issues (φ := fun _ => TxOp.KeepsPayments) (handler_keepsPayments cfg) hstep
    hthreads, hpaid.step hthreads hstep fun o o' ho hstatus ho' hedge => hrefund ?_⟩
  refine ⟨d, o, o', hstep, ho, hstatus, ho', fun h => ?_⟩
  simp [h, allowedTransitions] at hedge

/-- A refunded order stays refunded, so an order that is paid in the end was not refunded. -/
theorem run_unrefunded {cfg : ServerConfig} {admits : ServerPool → Action Request → Prop}
    {k : ObjectId} {c d : ServerPool} {as : List (Action Request)}
    (hthreads : ∀ t ∈ c.threads, t.prog.Issues TxOp.KeepsPayments)
    (hrun : (server cfg).Run admits c as d) {o : Order} (ho : d.state.orders.get? k = some o)
    (hpaid : o.paymentStatus = .paid) :
    (server cfg).Run (fun e b => ¬ Refunds cfg k e b) c as d := by
  induction hrun with
  | nil c => exact .nil c
  | @cons c e d a as _ hstep hrest ih =>
    have hnext := System.step_issues (φ := fun _ => TxOp.KeepsPayments) (handler_keepsPayments cfg)
      hstep hthreads
    refine .cons ?_ hstep (ih hnext ho)
    rintro ⟨e', x, x', hstep', hx, hxpaid, hx', hne⟩
    obtain rfl := Option.some_inj.1 (hstep.symm.trans hstep')
    have hrefunded : PaymentIs .refunded k e.state := by
      refine ⟨get?_lt hx', fun y hy => ?_⟩
      obtain rfl := Option.some_inj.1 (hx'.symm.trans hy)
      rcases step_paymentMoves hthreads hstep k x x' hx hx' with hsame | hedge
      · exact absurd (hsame ▸ hxpaid) hne
      · simpa [hxpaid, allowedTransitions] using hedge
    have hend : PaymentIs .refunded k d.state := by
      refine (hrest.invariant (P := fun c => (∀ t ∈ c.threads, t.prog.Issues TxOp.KeepsPayments) ∧
        PaymentIs .refunded k c.state) ?_ ⟨hnext, hrefunded⟩).2
      rintro c a d - hstep ⟨hthreads, hrefunded⟩
      exact ⟨System.step_issues (φ := fun _ => TxOp.KeepsPayments) (handler_keepsPayments cfg) hstep
        hthreads, hrefunded.step hthreads hstep fun _ _ _ _ _ => by simp [allowedTransitions]⟩
    rw [hend.2 o ho] at hpaid
    cases hpaid

/-! ## The status write -/

/-- A shipping status is only written by an upsert that has read the order as a paid one. -/
theorem shipping_write_begun {cfg : ServerConfig} {admits : ServerPool → Action Request → Prop}
    {start c d : ServerPool} {as : List (Action Request)} {a : Action Request}
    (hstart : start.threads = []) (hrun : (server cfg).Run admits start as c)
    (hstep : (server cfg).step c a = some d) {k : ObjectId} {o o' : Order}
    (ho : c.state.orders.get? k = some o) (ho' : d.state.orders.get? k = some o')
    (hships : ¬ StaysOut o o') :
    ∃ i before after e e' req value now, a = .act i ∧ as = before ++ .act i :: after ∧
      (server cfg).Run admits start before e ∧
      e.threads[i]? = some ⟨.shipment req k value now,
        Request.handler cfg (.shipment req k value now)⟩ ∧
      (server cfg).step e (.act i) = some e' ∧ (server cfg).Run admits e' after c ∧
      ∃ x, e'.state.orders.get? k = some x ∧ x.paymentStatus = .paid := by
  -- A step that leaves the order as it is is not the write.
  have hmoves : d.state.orders.get? k ≠ c.state.orders.get? k := by
    intro hsame
    obtain rfl := Option.some_inj.1 (ho.symm.trans (hsame.symm.trans ho'))
    exact hships (.inl rfl)
  obtain ⟨l, -, rfl⟩ | ⟨i, l, op, kont, ht, ⟨rfl, rfl⟩ | ⟨-, rfl⟩ | ⟨-, rfl⟩⟩ :=
    (server cfg).step_cases hstep
  · exact absurd rfl hmoves
  · -- An operation that ships no order, or only orders other than this one, is not the write.
    have hop : ∀ k', TxOp.ShipsOnly k' op → some k = k' := by
      intro k' h
      by_contra hne
      exact hships (h c.state k o o' ho ho' hne)
    by_cases hship : ∃ req id value now, l = .shipment req id value now
    · obtain ⟨req, id, value, now, rfl⟩ := hship
      obtain ⟨first, hfirst, hrest⟩ := handler_shipment_rest cfg req id value now
      rcases hrun.begun hstart ht with hcode | ⟨before, b, after, e, e', p', rfl, hbefore, he, hmover,
        hb, hp', hafter⟩
      · have hread : op = .op (.orderFindOne ⟨id, req.tenant, none⟩) := by
          have hcode' := hcode.trans hfirst
          injection hcode'
        subst hread
        exact absurd rfl hmoves
      · -- A thread that has ended issues nothing.
        have hnot_done : ∀ r, p' ≠ .done r := by
          rintro r rfl
          exact (hafter.thread_issues (φ := fun _ => False) hp' trivial ht).1
        have he' : e.threads[i]? = some ⟨.shipment req id value now, .call _ first⟩ := hfirst ▸ he
        obtain ⟨hact, hfault, hkill, hd⟩ | ⟨o₁, k₁, heq, ⟨rfl, hstate, hd⟩ | ⟨-, -, hd⟩ | ⟨-, -, hd⟩⟩ :=
          (server cfg).step_thread hb he'
        · rcases hmover with h | h | h
          · exact absurd h hact
          · exact absurd h hfault
          · exact absurd h hkill
        · cases heq
          obtain rfl := (Thread.mk.inj (Option.some_inj.1 (hp'.symm.trans hd))).2
          rcases hrest _ with ⟨r, hr⟩ | ⟨order, hread, hpaid, hissues⟩
          · exact absurd hr (hnot_done r)
          · have hfound : (e.state.orders.get? id).filter
                (OrderFilter.accepts ⟨id, req.tenant, none⟩) = some order := Except.ok.inj hread
            obtain ⟨horder, haccepts⟩ := Option.filter_eq_some_iff.1 hfound
            have hid : order.id = id := (get?_eq_some.1 horder).2
            obtain rfl : k = order.id :=
              Option.some_inj.1 (hop _ (hafter.thread_issues hp' hissues ht).1)
            rw [← hid] at he horder
            refine ⟨i, before, after, e, e', req, value, now, rfl, rfl, hbefore, he, hb, hafter, order, ?_,
              hpaid⟩
            rw [hstate]
            exact horder
        · cases heq
          obtain rfl := (Thread.mk.inj (Option.some_inj.1 (hp'.symm.trans hd))).2
          rcases hrest (.error (server cfg).machine.fault) with ⟨r, hr⟩ | ⟨order, hread, -, -⟩
          · exact absurd hr (hnot_done r)
          · cases hread
        · exact absurd (Thread.mk.inj (Option.some_inj.1 (hp'.symm.trans hd))).2 (hnot_done _)
    · have hissues := handler_shipsOnly cfg fun req id value now h => hship ⟨req, id, value, now, h⟩
      rcases hrun.begun hstart ht with hcode | ⟨before, b, after, e, e', p', -, -, he, -, hb, -,
        hafter⟩
      · cases hop none (hcode ▸ hissues : (Prog.call op kont).Issues _).1
      · have hlater : (server cfg).Run (fun _ _ => True) e (b :: after) c :=
          .cons trivial hb (hafter.mono fun _ _ _ => trivial)
        cases hop none (hlater.thread_issues he hissues ht).1
  · exact absurd rfl hmoves
  · exact absurd rfl hmoves

/-- A step that sets an order's status to processing, shipped or delivered is the write of an upsert
that has read the order before, and it finds the order paid exactly when no refund of the order was
booked since then. -/
theorem paid_when_shipped {cfg : ServerConfig} {admits : ServerPool → Action Request → Prop}
    {start c d : ServerPool} {as : List (Action Request)} {a : Action Request}
    (hstart : start.threads = []) (hrun : (server cfg).Run admits start as c)
    (hstep : (server cfg).step c a = some d) {k : ObjectId} {o o' : Order}
    (ho : c.state.orders.get? k = some o) (ho' : d.state.orders.get? k = some o')
    (hset : o.status ≠ o'.status) (hships : o'.status.Shipping) :
    ∃ i before after e e' req value now, a = .act i ∧ as = before ++ .act i :: after ∧
      (server cfg).Run admits start before e ∧
      e.threads[i]? = some ⟨.shipment req k value now,
        Request.handler cfg (.shipment req k value now)⟩ ∧
      (server cfg).step e (.act i) = some e' ∧ (server cfg).Run admits e' after c ∧
      (o.paymentStatus = .paid ↔ (server cfg).Run (fun f b => ¬ Refunds cfg k f b) e' after c) := by
  have hwrites : ¬ StaysOut o o' := fun h => h.elim hset (absurd hships)
  obtain ⟨i, before, after, e, e', req, value, now, rfl, rfl, hbefore, he, hb, hafter, x, hx, hxpaid⟩ :=
    shipping_write_begun hstart hrun hstep ho ho' hwrites
  have hthreads : ∀ t ∈ e'.threads, t.prog.Issues TxOp.KeepsPayments := by
    have hnone : ∀ t ∈ start.threads, t.prog.Issues TxOp.KeepsPayments := by simp [hstart]
    exact System.step_issues (φ := fun _ => TxOp.KeepsPayments) (handler_keepsPayments cfg) hb
      (hbefore.issues (I := fun _ => True) (handler_keepsPayments cfg) (fun _ _ _ h => h) hnone
        trivial).2
  refine ⟨i, before, after, e, e', req, value, now, rfl, rfl, hbefore, he, hb, hafter, ?_, ?_⟩
  · exact run_unrefunded hthreads hafter ho
  · intro hunrefunded
    have hpaid : PaymentIs .paid k e'.state :=
      ⟨get?_lt hx, fun y hy => Option.some_inj.1 (hx.symm.trans hy) ▸ hxpaid⟩
    exact (run_paid hthreads hunrefunded hpaid).2 o ho

/-- The sample order, paid, with an admin's upsert that goes on up to its status write. -/
def shippingRun : List (Action Request) :=
  [.spawn (sampleCheckout 0), .act 0, .spawn (.webhook (sampleDelivery "e") 1), .act 1, .act 1, .act 1,
    .act 1, .spawn (.shipment ⟨9, .admin, "t"⟩ 0 ⟨.inTransit⟩ 2), .act 2, .act 2, .act 2, .act 2, .act 2]

/-- The signed delivery that reports a refund of the payment. -/
def refundDelivery : Delivery := ⟨some "73302e52", some "0", none, some "r", "R"⟩

/-- The status write finds the order paid. -/
theorem paid_when_shipped_shipped :
    ∃ c d : ServerPool, ∃ o o', (server (sampleConfig .replicaSet)).step c (.act 2) = some d ∧
      c.state.orders.get? 0 = some o ∧ d.state.orders.get? 0 = some o' ∧ o.status ≠ o'.status ∧
      o'.status.Shipping ∧ ∃ after e', (server (sampleConfig .replicaSet)).Run (fun _ _ => true) e' after c ∧
        (o.paymentStatus = .paid ↔
          (server (sampleConfig .replicaSet)).Run
            (fun f b => ¬ Refunds (sampleConfig .replicaSet) 0 f b) e' after c) := by
  obtain ⟨c, hc, h⟩ := (Option.any_eq_true _ _).1 (by decide +kernel :
    ((server (sampleConfig .replicaSet)).play (fun _ _ => true) ⟨sampleDb, []⟩ shippingRun).any
      fun c => ((server (sampleConfig .replicaSet)).step c (.act 2)).any fun d =>
        decide ((c.state.orders.get? 0).map (·.status) = some .confirmed) &&
          decide ((d.state.orders.get? 0).map (·.status) = some .shipped))
  obtain ⟨d, hd, h⟩ := (Option.any_eq_true _ _).1 h
  simp only [Bool.and_eq_true, decide_eq_true_eq] at h
  obtain ⟨o, ho, hconfirmed⟩ := Option.map_eq_some_iff.1 h.1
  obtain ⟨o', ho', hshipped⟩ := Option.map_eq_some_iff.1 h.2
  have hset : o.status ≠ o'.status := by simp [hconfirmed, hshipped]
  have hships : o'.status.Shipping := by simp [hshipped, OrderStatus.Shipping]
  obtain ⟨i, before, after, e, e', -, -, -, -, -, -, -, -, hafter, hiff⟩ :=
    paid_when_shipped rfl (System.Run.of_play hc) hd ho ho' hset hships
  exact ⟨c, d, o, o', hd, ho, ho', hset, hships, after, e', hafter, hiff⟩

/-- A refund that is booked before the write: a refunded order is shipped. -/
theorem paid_when_shipped_counterexample :
    ∃ c d : ServerPool, ∃ o o',
      (server (sampleConfig .replicaSet)).Run (fun _ _ => True) ⟨sampleDb, []⟩
        (shippingRun ++ [.spawn (.webhook refundDelivery 2), .act 3, .act 3, .act 3, .act 3]) c ∧
      (server (sampleConfig .replicaSet)).step c (.act 2) = some d ∧
      c.state.orders.get? 0 = some o ∧ d.state.orders.get? 0 = some o' ∧ o.status ≠ o'.status ∧
      o'.status.Shipping ∧ o.paymentStatus = .refunded := by
  obtain ⟨c, hc, h⟩ := (Option.any_eq_true _ _).1 (by decide +kernel :
    ((server (sampleConfig .replicaSet)).play (fun _ _ => true) ⟨sampleDb, []⟩
      (shippingRun ++ [.spawn (.webhook refundDelivery 2), .act 3, .act 3, .act 3, .act 3])).any
      fun c => ((server (sampleConfig .replicaSet)).step c (.act 2)).any fun d =>
        decide ((c.state.orders.get? 0).map (fun o => (o.status, o.paymentStatus)) =
          some (.confirmed, .refunded)) &&
          decide ((d.state.orders.get? 0).map (·.status) = some .shipped))
  obtain ⟨d, hd, h⟩ := (Option.any_eq_true _ _).1 h
  simp only [Bool.and_eq_true, decide_eq_true_eq] at h
  obtain ⟨o, ho, hrefunded⟩ := Option.map_eq_some_iff.1 h.1
  obtain ⟨o', ho', hshipped⟩ := Option.map_eq_some_iff.1 h.2
  obtain ⟨hconfirmed, hpayment⟩ := Prod.mk.inj hrefunded
  exact ⟨c, d, o, o', (System.Run.of_play hc).mono fun _ _ _ => trivial, hd, ho, ho',
    by simp [hconfirmed, hshipped], by simp [hshipped, OrderStatus.Shipping], hpayment⟩

end Ecommerce
