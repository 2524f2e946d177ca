import Ecommerce.Orders.Recovery
import Ecommerce.Orders.Releases
import Ecommerce.Shipments.CatchUp

/-!
# Shipped orders

An order that has been shipped as a whole can no longer be cancelled, and is closed by a refund only, so
without a refund nothing of it comes back. One that is shipped in part can be cancelled.
-/

namespace Ecommerce

open Effect Effect.Collection

/-- An order whose lines have all been shipped is closed by a refund only. -/
theorem Order.Sound.refunded_of_shipping {o : Order} (h : o.Sound) (hships : o.status.Shipping)
    (hclosed : o.Closed) : o.paymentStatus = .refunded := by
  have hfulfilled : o.status ∈ STATUS_FOR_RANK := by
    revert hships
    cases o.status <;> simp [OrderStatus.Shipping, STATUS_FOR_RANK]
  rcases hclosed with hfailed | hrefunded | hcancelled
  · rcases h.fulfilment hfulfilled with hp | hp
    · cases hfailed.symm.trans hp
    · exact hp
  · exact hrefunded
  · rw [hcancelled] at hships
    simp [OrderStatus.Shipping] at hships

/-- Once an order has been shipped it stays so. -/
def StaysShipped (a b : Order) : Prop := a.status.Shipping → b.status.Shipping

theorem OrderUpdate.Legal.staysShipped {u : OrderUpdate} (hu : u.Legal) : u.Respects StaysShipped := by
  intro now o hguard hships
  rcases hu.edge hguard now with hsame | hedge
  · exact hsame ▸ hships
  · revert hships hedge
    cases o.status <;> cases (u.apply now o).status <;>
      simp [OrderStatus.Shipping, StatusEdge, fulfilmentTransitions]

/-- A cancel of it is turned down, and leaves no trace. -/
theorem cancel_refused (cfg : ServerConfig) (req : AuthedRequest) {k : ObjectId} (reason : String)
    (now : Time) {s : Db} {o : Order} (ho : s.orders.get? k = some o) (hships : o.status.Shipping) :
    ∃ e, ((Request.cancel req k reason now).handler cfg).eval mongo.transactional s = (.error e, s) := by
  have hstatus : o.status ∉ CANCELLABLE_STATUSES := by
    revert hships
    cases o.status <;> simp [OrderStatus.Shipping, CANCELLABLE_STATUSES]
  have hrefused : Refused (cancelWork req k reason now) s := cancelWork_refused ho hstatus
  obtain ⟨⟨e, he⟩, -⟩ := hrefused
  have hwork : (runInTransaction cfg.deployment fun _ => cancelWork req k reason now).eval
      mongo.transactional s = (.error e, s) := by
    cases cfg.deployment with
    | standalone => rw [runInTransaction, Prog.eval_embed, he]
    | replicaSet =>
      have hexec : mongo.transactional.exec (.txn (cancelWork req k reason now)) s = (.error e, s) := by
        simp only [Machine.transactional, he]
      exact hexec
  refine ⟨e, ?_⟩
  show ((Prog.bind _ _).bind _).eval mongo.transactional s = _
  rw [Prog.eval_bind, Prog.eval_bind, hwork]

/-- The shipment that covers the line, its seller's or the whole order's, is in transit or delivered. -/
def Db.LineShipped (s : Db) (k : ObjectId) (item : OrderItem) : Prop :=
  ORDER_RANK_FOR_SHIPMENT .inTransit ≤ lineRank s.products.docs (s.shipmentsOf k) item

instance (s : Db) (k : ObjectId) (item : OrderItem) : Decidable (s.LineShipped k item) :=
  inferInstanceAs (Decidable (_ ≤ _))

theorem le_foldl_min {m : Nat} (rs : List Nat) {r : Nat} (hr : m ≤ r) (hrs : ∀ x ∈ rs, m ≤ x) :
    m ≤ rs.foldl min r := by
  induction rs generalizing r with
  | nil => exact hr
  | cons y ys ih =>
    obtain ⟨hy, hys⟩ := List.forall_mem_cons.1 hrs
    exact ih (le_min hr hy) hys

theorem shipping_of_rank {status : OrderStatus} {m : Nat} (h : FULFILMENT_RANK status = some m)
    (hm : ORDER_RANK_FOR_SHIPMENT .inTransit ≤ m) : status.Shipping := by
  revert h
  cases status <;> simp [FULFILMENT_RANK, OrderStatus.Shipping]
  rintro rfl
  simp [ORDER_RANK_FOR_SHIPMENT] at hm

/-- Once every line of an order has been shipped and its upserts have ended, the order has been shipped. -/
theorem shipping_of_lines {cfg : ServerConfig} {start c : ServerPool} {as : List (Action Request)}
    (hstart : start.threads = []) (hnone : start.state.shipments = [])
    (hrun : (server cfg).Run Unfailing start as c)
    {k : ObjectId} (hended : ∀ t ∈ c.threads, (∃ req value now, t.label = .shipment req k value now) →
      t.prog.head? = none) {o : Order} (ho : c.state.orders.get? k = some o)
    (hopen : o.status ≠ .cancelled) (hitems : o.items ≠ [])
    (hlines : ∀ item ∈ o.items, c.state.LineShipped k item) : o.status.Shipping := by
  obtain ⟨hupserts, howed⟩ := run_upserts hstart hnone hrun
  obtain ⟨item, rest, heq⟩ := List.exists_cons_of_ne_nil hitems
  rw [heq] at hlines
  obtain ⟨hitem, hrest⟩ := List.forall_mem_cons.1 hlines
  have hleast := le_foldl_min (rest.map (lineRank c.state.products.docs (c.state.shipmentsOf k))) hitem
    (List.forall_mem_map.2 hrest)
  have hrank : leastRank (o.items.map (lineRank c.state.products.docs (c.state.shipmentsOf k))) = some
      ((rest.map (lineRank c.state.products.docs (c.state.shipmentsOf k))).foldl min
        (lineRank c.state.products.docs (c.state.shipmentsOf k) item)) := by
    rw [heq]
    rfl
  rcases (howed k).caughtUp hupserts.known hended ho hopen hrank with hzero | ⟨m, hm, hle⟩
  · rw [hzero] at hleast
    cases hleast
  · exact shipping_of_rank hm (hleast.trans hle)

/-! ## Deletions -/

/-- The call deletes no order. -/
def DbOp.KeepsOrders (o : DbOp) : Prop := ∀ k, o ≠ .orderDelete k

theorem DbOp.OfCheckout.keepsOrders {o : DbOp} (h : o.OfCheckout) : o.KeepsOrders := by
  rintro k rfl
  rcases h with h | h <;> exact h.elim

theorem DbOp.OfPayment.keepsOrders {o : DbOp} (h : o.OfPayment) : o.KeepsOrders := by
  rintro k rfl
  rcases h with (h | h | h) | h <;> exact h.elim

theorem DbOp.OfFulfilment.keepsOrders {o : DbOp} (h : o.OfFulfilment) : o.KeepsOrders := by
  rintro k rfl
  rcases h with h | h <;> exact h.elim

/-- A deletion of an order is a call of a checkout on a standalone server. -/
def TxOp.DeletesFor (cfg : ServerConfig) (request : Request) : TxOp Mongo ApiError → Prop
  | .op o => o.KeepsOrders ∨ cfg.deployment = .standalone ∧ request.isCheckout = true
  | .txn work => work.Issues DbOp.KeepsOrders

theorem handler_deletesFor (cfg : ServerConfig) (request : Request) :
    (request.handler cfg).Issues (TxOp.DeletesFor cfg request) := by
  cases hcheckout : request.isCheckout with
  | true =>
    cases hdeployment : cfg.deployment with
    | standalone =>
      refine (handler_issues_standalone hdeployment request).mono fun o ho => ?_
      cases o with
      | op o => exact .inr ⟨hdeployment, hcheckout⟩
      | txn work => exact ho.elim
    | replicaSet =>
      cases request with
      | checkout req value now =>
        refine Prog.Issues.map ?_
        rw [checkout, hdeployment]
        refine Prog.issues_perform (S := Mongo.tx ApiError) ?_
        exact (executeCheckout_issues _ _ _ _).mono fun _ h => h.keepsOrders
      | _ => cases hcheckout
  | false =>
    by_cases hship : ∃ req id value now, request = .shipment req id value now
    · obtain ⟨req, orderId, value, now, rfl⟩ := hship
      exact issues_embed (fun o ho => .inl ho.keepsOrders) (Prog.Issues.map (upsertShipment_issues _ _ _ _))
    · exact handler_issues_payment hcheckout (fun _ _ _ _ h => hship ⟨_, _, _, _, h⟩)
        (fun o ho => .inl ho.keepsOrders) fun _ _ p hp => hp.mono fun _ h => h.keepsOrders

theorem exec_keepsOrder {o : DbOp} {k : ObjectId} (ho : o ≠ .orderDelete k) (s : Db)
    (hk : ∃ x, s.orders.get? k = some x) : ∃ x, (mongo.exec o s).2.orders.get? k = some x := by
  obtain ⟨x, hx⟩ := hk
  by_cases hwrites : o.WritesOrders
  · cases o with
    | orderCreate draft now =>
      exact ⟨x, (get?_insert _ _ (draft.key_order _ now) _).trans ((if_neg (get?_lt hx).ne).trans hx)⟩
    | orderDelete id =>
      have hne : k ≠ id := fun h => ho (h ▸ rfl)
      exact ⟨x, (get?_erase _ _ _).trans ((if_neg hne).trans hx)⟩
    | orderUpdate u now =>
      obtain ⟨y, hy, -, heq⟩ | ⟨-, heq⟩ := exec_orderUpdate u now s
      · rw [heq]
        by_cases hid : k = u.id
        · subst hid
          have hget := get?_update_self s.orders u.id (u.patch now)
          rw [hy] at hget
          exact ⟨_, hget⟩
        · exact ⟨x, (get?_update _ _ _ _).trans ((if_neg hid).trans hx)⟩
      · rw [heq]
        exact ⟨x, hx⟩
    | _ => exact hwrites.elim
  · rw [(exec_orders hwrites s).1]
    exact ⟨x, hx⟩

/-- The step is the call by which a checkout without a transaction, which has failed after it placed the
order, deletes it. -/
def DeletesOrder (cfg : ServerConfig) (k : ObjectId) (c : ServerPool) (a : Action Request) : Prop :=
  cfg.deployment = .standalone ∧ ∃ i t, a = .act i ∧ c.threads[i]? = some t ∧ t.label.isCheckout = true ∧
    nextCall t = some (.orderDelete k)

/-- No other step takes an order away. -/
theorem step_keepsOrder {cfg : ServerConfig} {start c d : ServerPool} {as : List (Action Request)}
    {admits : ServerPool → Action Request → Prop} (hstart : start.threads = [])
    (hrun : (server cfg).Run admits start as c) {a : Action Request} (hstep : (server cfg).step c a = some d)
    {k : ObjectId} {o : Order} (ho : c.state.orders.get? k = some o) :
    (∃ o', d.state.orders.get? k = some o') ∨ DeletesOrder cfg k c a := by
  have hthreads : ∀ t ∈ c.threads, t.prog.Issues (TxOp.DeletesFor cfg t.label) :=
    hrun.invariant (P := fun c => ∀ t ∈ c.threads, t.prog.Issues (TxOp.DeletesFor cfg t.label))
      (fun _ _ _ _ hs hP => System.step_issues (handler_deletesFor cfg) hs hP) (by simp [hstart])
  obtain ⟨l, rfl, rfl⟩ | ⟨i, l, op, next, ht, ⟨rfl, rfl⟩ | ⟨-, rfl⟩ | ⟨-, rfl⟩⟩ := System.step_cases _ hstep
  · exact .inl ⟨o, ho⟩
  · have hop : TxOp.DeletesFor cfg l op := (hthreads _ (List.mem_of_getElem? ht)).1
    cases op with
    | txn work =>
      refine .inl (Machine.transactional_keeps (I := fun s => ∃ x, s.orders.get? k = some x)
        (fun o ho s hs => exec_keepsOrder (ho k) s hs) (.txn work) hop c.state ⟨o, ho⟩)
    | op call =>
      by_cases hdelete : call = .orderDelete k
      · subst hdelete
        obtain hkeeps | ⟨hstandalone, hcheckout⟩ := hop
        · exact absurd rfl (hkeeps k)
        · exact .inr ⟨hstandalone, i, _, rfl, ht, hcheckout, rfl⟩
      · exact .inl (exec_keepsOrder hdelete c.state ⟨o, ho⟩)
  · exact .inl ⟨o, ho⟩
  · exact .inl ⟨o, ho⟩

/-! ## Runs -/

/-- What every reachable state says of a shipped order: it is closed by a refund only, and until then
nothing of it has come back. -/
theorem run_shipped {cfg : ServerConfig} {start c : ServerPool} {as : List (Action Request)}
    (hstart : start.threads = []) (hrestocks : start.state.restocks = [])
    (hsound : OrdersSound start.state) (hrun : (server cfg).Run Unswept start as c) {k : ObjectId}
    {o : Order} (ho : c.state.orders.get? k = some o) (hships : o.status.Shipping) :
    o.paymentStatus = .refunded ∨
      ∀ r ∈ c.state.reservations.docs, r.order = some k → r.id ∉ c.state.restocks := by
  by_cases hclosed : o.Closed
  · exact .inl ((run_ordersSound hrun hstart hsound o (get?_mem ho)).refunded_of_shipping hships hclosed)
  · refine .inr fun r hr hk hreturned => hclosed ?_
    obtain ⟨x, hx, horder⟩ := run_returned hstart hrestocks hrun r.id hreturned
    obtain rfl := Option.some_inj.1 ((get?_eq_some.2 ⟨hr, rfl⟩).symm.trans hx)
    exact (horder k hk).2 o ho

/-- Once the lines of an order have all been shipped, a cancel of it is turned down and leaves no trace,
and whatever step comes next leaves the order shipped, and its units out of the stock unless its payment
has been refunded. The one exception is a checkout that has placed the order and fails. -/
theorem shipped_units_stay_out {cfg : ServerConfig} {start c : ServerPool} {as : List (Action Request)}
    (hstart : start.threads = []) (hnone : start.state.shipments = [])
    (hrestocks : start.state.restocks = []) (hsound : OrdersSound start.state)
    (hrun : (server cfg).Run Unswept start as c) {k : ObjectId} {o : Order}
    (ho : c.state.orders.get? k = some o)
    (hships : o.status.Shipping ∨ ((server cfg).Run Unfailing start as c ∧
      (∀ t ∈ c.threads, (∃ req value now, t.label = .shipment req k value now) → t.prog.head? = none) ∧
      o.status ≠ .cancelled ∧ o.items ≠ [] ∧ ∀ item ∈ o.items, c.state.LineShipped k item)) :
    (∀ req reason now, ∃ e,
      ((Request.cancel req k reason now).handler cfg).eval mongo.transactional c.state =
        (.error e, c.state)) ∧
    ∀ a d, Unswept c a → (server cfg).step c a = some d → DeletesOrder cfg k c a ∨
      ∃ o', d.state.orders.get? k = some o' ∧ o'.status.Shipping ∧ (o'.paymentStatus = .refunded ∨
        ∀ r ∈ d.state.reservations.docs, r.order = some k → r.id ∉ d.state.restocks) := by
  have hshipping : o.status.Shipping := by
    rcases hships with hships | ⟨hunfailing, hended, hopen, hitems, hlines⟩
    · exact hships
    · exact shipping_of_lines hstart hnone hunfailing hended ho hopen hitems hlines
  refine ⟨fun req reason now => cancel_refused cfg req reason now ho hshipping, fun a d ha hstep => ?_⟩
  obtain ⟨o', ho'⟩ | hdeletes := step_keepsOrder hstart hrun hstep ho
  case inr => exact .inl hdeletes
  have hthreads : ∀ t ∈ c.threads, t.prog.Issues fun o => ∀ s,
      OrdersMove StaysShipped s (mongo.transactional.exec o s).2 :=
    (hrun.issues (I := fun _ => True)
      (handler_ordersMove (E := StaysShipped) (fun _ => id) (fun _ hu => hu.staysShipped) cfg)
      (fun _ _ _ h => h) (by simp [hstart]) trivial).2
  have hships' := step_ordersMove (E := StaysShipped) hstep (fun _ => id) hthreads k o o' ho ho' hshipping
  exact .inr ⟨o', ho', hships', run_shipped hstart hrestocks hsound (hrun.snoc ha hstep) ho' hships'⟩

/-- The sample order, paid and shipped as a whole. -/
def shippedRun : List (Action Request) := shippingRun ++ [.act 2, .act 2, .act 1]

theorem shippedRun_unswept : ∀ a ∈ shippedRun, ∀ c, Unswept c a := by
  intro a ha c
  have hact : a.unfailing = true ∧ ∀ now batchSize, a ≠ .spawn (.sweep now batchSize) := by
    revert a
    simp [shippedRun, shippingRun, sampleCheckout, Action.unfailing]
  refine ⟨hact.2, ?_⟩
  rintro i k rfl
  cases hact.1

theorem shipped_units_stay_out_shippedRun :
    ∃ c : ServerPool, (server (sampleConfig .replicaSet)).Run Unswept ⟨sampleDb, []⟩ shippedRun c ∧
      (∃ o, c.state.orders.get? 0 = some o ∧ o.status = .shipped) ∧
      ∃ e, ((Request.cancel sampleUser 0 "r" 3).handler (sampleConfig .replicaSet)).eval
        mongo.transactional c.state = (.error e, c.state) := by
  obtain ⟨c, hc, h⟩ := (Option.any_eq_true _ _).1 (by decide +kernel :
    ((server (sampleConfig .replicaSet)).play (fun _ _ => true) ⟨sampleDb, []⟩ shippedRun).any fun c =>
      (c.state.orders.get? 0).any fun o => decide (o.status = .shipped))
  obtain ⟨o, ho, hshipped⟩ := (Option.any_eq_true _ _).1 h
  have hstatus : o.status = .shipped := by simpa using hshipped
  have hrun : (server (sampleConfig .replicaSet)).Run Unswept ⟨sampleDb, []⟩ shippedRun c :=
    ((System.Run.of_play hc).of_forall shippedRun_unswept).mono fun c a ha => ha.2 c
  refine ⟨c, hrun, ⟨o, ho, hstatus⟩, ?_⟩
  exact (shipped_units_stay_out rfl rfl rfl (fun _ hx => by cases hx) hrun ho
    (.inl (by simp [hstatus, OrderStatus.Shipping]))).1 sampleUser "r" 3

/-- The step gives back a reservation of a line that is on its way or has arrived. -/
def ReturnsShipped (k : ObjectId) (c d : ServerPool) : Prop :=
  ∃ o ∈ c.state.orders.docs, o.id = k ∧ ∃ item ∈ o.items, c.state.LineShipped k item ∧
    ∃ r ∈ d.state.reservations.docs, r.order = some k ∧ r.product = item.product ∧
      r.id ∈ d.state.restocks ∧ r.id ∉ c.state.restocks

instance (k : ObjectId) (c d : ServerPool) : Decidable (ReturnsShipped k c d) :=
  inferInstanceAs (Decidable (∃ o ∈ c.state.orders.docs, _))

/-- The step that thread `i` takes after these gives such a reservation back. -/
theorem returnsShipped_of_play {cfg : ServerConfig} {s : Db} {as : List (Action Request)} {i : Nat}
    {k : ObjectId} {status : OrderStatus}
    (h : ((server cfg).play (fun _ a => a.unfailing) ⟨s, []⟩ as).any fun c =>
      ((server cfg).step c (.act i)).any fun d =>
        decide (ReturnsShipped k c d ∧ (d.state.orders.get? k).map (·.status) = some status)) :
    ∃ c d, (server cfg).Run (fun _ a => a.unfailing) ⟨s, []⟩ as c ∧
      (server cfg).step c (.act i) = some d ∧ ReturnsShipped k c d ∧
      (d.state.orders.get? k).map (·.status) = some status := by
  obtain ⟨c, hc, h⟩ := (Option.any_eq_true _ _).1 h
  obtain ⟨d, hd, h⟩ := (Option.any_eq_true _ _).1 h
  obtain ⟨hreturns, hstatus⟩ := of_decide_eq_true h
  exact ⟨c, d, System.Run.of_play hc, hd, hreturns, hstatus⟩

/-- A shop with a product of each of two sellers, and a cart with both. -/
def twoSellers : Db :=
  { (∅ : Db) with
    products := ((∅ : Collection Product).insert ⟨0, "t", some 5, "mug", 10, 5, true, none⟩ rfl).insert
      ⟨1, "t", some 6, "cup", 10, 5, true, none⟩ rfl
    carts := (∅ : Collection Cart).insert ⟨0, 1, "t", [⟨0, 2⟩, ⟨1, 1⟩], 0⟩ rfl }

/-- The order of both products is paid, one seller's shipment is stored as in transit, and the order is
cancelled, one request after the other. -/
def halfShipped : List (Action Request) :=
  [.spawn (sampleCheckout 0), .act 0, .spawn (.webhook (sampleDelivery "e") 1), .act 1, .act 1, .act 1,
    .act 1, .act 1, .spawn (.shipment ⟨5, .seller, "t"⟩ 0 ⟨.inTransit⟩ 2), .act 2, .act 2, .act 2, .act 2,
    .act 2, .act 2, .act 2, .spawn (.cancel sampleUser 0 "r" 3)]

/-- On a server without transactions, the order is placed, paid and shipped while its checkout is still open. -/
def shippedEarly : List (Action Request) :=
  [.spawn (sampleCheckout 0), .act 0, .act 0, .act 0, .act 0, .act 0,
    .spawn (.webhook (sampleDelivery "e") 1), .act 1, .act 1, .act 1, .act 1, .act 1, .act 1, .act 1,
    .spawn (.shipment ⟨9, .admin, "t"⟩ 0 ⟨.inTransit⟩ 2), .act 2, .act 2, .act 2, .act 2, .act 2, .act 2,
    .act 2]

/-- The checkout cannot save the cart, and takes the order back. -/
def cartUnsaved : List (Action Request) := [.fault 0, .act 0, .act 0]

theorem shippedEarly_takenBack :
    ∃ c d : ServerPool, (server (sampleConfig .standalone)).Run (fun _ _ => True) ⟨sampleDb, []⟩
        shippedEarly c ∧ (c.state.orders.get? 0).map (fun o => (o.status, o.paymentStatus)) =
          some (.shipped, .paid) ∧
      (server (sampleConfig .standalone)).Run (fun _ _ => True) c cartUnsaved d ∧
      d.state.orders.get? 0 = none ∧ d.state.restocks = [0] := by
  obtain ⟨c, hc, h⟩ := (Option.any_eq_true _ _).1 (by decide +kernel :
    ((server (sampleConfig .standalone)).play (fun _ _ => true) ⟨sampleDb, []⟩ shippedEarly).any fun c =>
      decide ((c.state.orders.get? 0).map (fun o => (o.status, o.paymentStatus)) =
        some (.shipped, .paid)) &&
      ((server (sampleConfig .standalone)).play (fun _ _ => true) c cartUnsaved).any fun d =>
        decide (d.state.orders.get? 0 = none ∧ d.state.restocks = [0]))
  obtain ⟨hshipped, h⟩ := Bool.and_eq_true_iff.1 h
  obtain ⟨d, hd, h⟩ := (Option.any_eq_true _ _).1 h
  obtain ⟨hgone, hreturned⟩ := of_decide_eq_true h
  exact ⟨c, d, (System.Run.of_play hc).mono fun _ _ _ => trivial, of_decide_eq_true hshipped,
    (System.Run.of_play hd).mono fun _ _ _ => trivial, hgone, hreturned⟩

/-- One request after the other: a cancel of an order that is half shipped is accepted and gives all of it
back, and so does the refund of one that has been shipped as a whole. A checkout that cannot save the cart
takes back an order that has been paid and shipped meanwhile. -/
theorem shipped_units_stay_out_counterexample :
    (∃ c d : ServerPool, (server (sampleConfig .replicaSet)).Run (fun _ a => a.unfailing) ⟨twoSellers, []⟩
        halfShipped c ∧ (server (sampleConfig .replicaSet)).step c (.act 3) = some d ∧
      ReturnsShipped 0 c d ∧ (d.state.orders.get? 0).map (·.status) = some .cancelled) ∧
    (∃ c d : ServerPool, (server (sampleConfig .replicaSet)).Run (fun _ a => a.unfailing) ⟨sampleDb, []⟩
        (shippedRun ++ [.spawn (.webhook refundDelivery 3), .act 3, .act 3, .act 3]) c ∧
      (server (sampleConfig .replicaSet)).step c (.act 3) = some d ∧ ReturnsShipped 0 c d ∧
      (d.state.orders.get? 0).map (·.status) = some .shipped) ∧
    ∃ c d : ServerPool, (server (sampleConfig .standalone)).Run (fun _ _ => True) ⟨sampleDb, []⟩
        shippedEarly c ∧ (c.state.orders.get? 0).map (fun o => (o.status, o.paymentStatus)) =
          some (.shipped, .paid) ∧
      (server (sampleConfig .standalone)).Run (fun _ _ => True) c cartUnsaved d ∧
      d.state.orders.get? 0 = none ∧ d.state.restocks = [0] :=
  ⟨returnsShipped_of_play (by decide +kernel), returnsShipped_of_play (by decide +kernel),
    shippedEarly_takenBack⟩

end Ecommerce
