import Ecommerce.Effect.Commit
import Ecommerce.Orders.Lifecycle

/-!
# Webhooks are applied exactly once

On a replica set the payment history of an order grows only together with the rows of the payment
events, whose unique indexes admit each delivery once. A delivery that ends in an error has changed
nothing.
-/

namespace Ecommerce

open Effect Effect.Collection

/-! ## Unique events -/

/-- What the two unique indexes of the collection forbid two rows to share. -/
def PaymentEvent.Distinct (e f : PaymentEvent) : Prop :=
  ¬ (e.provider = f.provider ∧ e.eventId = f.eventId) ∧
    (e.signedDigest.isSome → e.signedDigest ≠ f.signedDigest)

/-- The calls that write payment events. -/
def DbOp.WritesEvents : DbOp → Prop
  | .paymentCreateEvent _ => True
  | _ => False

theorem exec_paymentEvents {o : DbOp} (h : ¬ o.WritesEvents) (db : Db) :
    (mongo.exec o db).2.paymentEvents = db.paymentEvents := by
  cases o <;> first
    | exact absurd trivial h
    | rfl
    | (simp only [mongo, Db.exec]; split <;> first | rfl | (split <;> rfl))

/-- A row that is inserted is distinct from all rows there are. -/
theorem exec_paymentCreateEvent (event : PaymentEvent) (db : Db) :
    (mongo.exec (.paymentCreateEvent event) db = (.error .duplicateKey, db)) ∨
      (mongo.exec (.paymentCreateEvent event) db =
        (.ok (), { db with paymentEvents := db.paymentEvents ++ [event] }) ∧
        ∀ e ∈ db.paymentEvents, e.Distinct event) := by
  simp only [mongo, Db.exec]
  split
  · exact .inl rfl
  · next hnone =>
    refine .inr ⟨rfl, fun e he => ?_⟩
    have := fun h => hnone (List.any_eq_true.2 ⟨e, he, h⟩)
    simp only [Bool.or_eq_true, Bool.and_eq_true, beq_iff_eq] at this
    exact ⟨fun h => this (.inl h), fun hsome h => this (.inr ⟨hsome, h⟩)⟩

/-- No two rows share what the unique indexes cover. -/
def EventsUnique (db : Db) : Prop := db.paymentEvents.Pairwise PaymentEvent.Distinct

theorem exec_eventsUnique (o : DbOp) (db : Db) (h : EventsUnique db) :
    EventsUnique (mongo.exec o db).2 := by
  by_cases hwrites : o.WritesEvents
  · cases o with
    | paymentCreateEvent event =>
      obtain heq | ⟨heq, hdistinct⟩ := exec_paymentCreateEvent event db
      · rw [heq]
        exact h
      · rw [heq]
        exact List.pairwise_append.2 ⟨h, List.pairwise_singleton _ _, by simpa using hdistinct⟩
    | _ => exact hwrites.elim
  · rw [EventsUnique, exec_paymentEvents hwrites]
    exact h

/-! ## Events cover the payment history -/

/-- Every order has as many payment events as history entries, but for `slack` missing ones of one
order. -/
def EventsCover (slack : ObjectId → Nat) (db : Db) : Prop :=
  ∀ o ∈ db.orders.docs, o.paymentStateHistory.length ≤
    db.paymentEvents.countP (·.order == o.id) + slack o.id

/-- The updates of an order other than a payment transition leave its history alone. -/
theorem OrderUpdate.Plain.history {u : OrderUpdate} (h : u.Plain) (now : Time) (o : Order) :
    (u.apply now o).paymentStateHistory = o.paymentStateHistory := by
  cases u <;> first | rfl | exact h.elim

/-- A call that is no payment transition. -/
def DbOp.Untransitioning : DbOp → Prop
  | .orderUpdate u _ => u.Plain
  | _ => True

theorem exec_eventsCover {slack : ObjectId → Nat} (o : DbOp) (ho : o.Untransitioning) (db : Db)
    (h : EventsCover slack db) : EventsCover slack (mongo.exec o db).2 := by
  by_cases hwrites : o.WritesOrders
  · cases o with
    | orderCreate draft now =>
      intro x hx
      rcases (mem_insert (h := draft.key_order _ now)).1 hx with hx | rfl
      · exact h x hx
      · exact Nat.zero_le _
    | orderDelete id => exact fun x hx => h x (mem_erase.1 hx).1
    | orderUpdate u now =>
      obtain ⟨x, hx, -, heq⟩ | ⟨-, heq⟩ := exec_orderUpdate u now db
      · rw [heq]
        intro y hy
        rcases (mem_update hx).1 hy with ⟨hy, -⟩ | rfl
        · exact h y hy
        · have hlength := h x (get?_eq_some.1 hx).1
          simpa [OrderUpdate.patch, OrderUpdate.Plain.history ho] using hlength
      · rw [heq]
        exact h
    | _ => exact hwrites.elim
  · intro x hx
    rw [(exec_orders hwrites db).1] at hx
    refine (h x hx).trans (Nat.add_le_add_right ?_ _)
    by_cases hevents : o.WritesEvents
    · cases o with
      | paymentCreateEvent event =>
        obtain heq | ⟨heq, -⟩ := exec_paymentCreateEvent event db <;> rw [heq]
        exact (List.sublist_append_left _ _).countP_le
      | _ => exact hevents.elim
    · rw [exec_paymentEvents hevents]

/-- A payment transition leaves its order one event short. -/
theorem exec_transition_eventsCover (t : OrderTransition) (now : Time) (db : Db)
    (h : EventsCover 0 db) :
    EventsCover (Pi.single t.orderId 1) (mongo.exec (.orderUpdate (.transition t) now) db).2 := by
  have hweaken : EventsCover (Pi.single t.orderId 1) db := fun o ho =>
    (h o ho).trans (Nat.add_le_add_left (Nat.zero_le _) _)
  obtain ⟨x, hx, -, heq⟩ | ⟨-, heq⟩ := exec_orderUpdate (.transition t) now db
  · rw [heq]
    intro y hy
    rcases (mem_update hx).1 hy with ⟨hy, -⟩ | rfl
    · exact hweaken y hy
    · have hid : x.id = t.orderId := get?_key hx
      have hlength := h x (get?_eq_some.1 hx).1
      simpa [OrderUpdate.patch, OrderUpdate.apply, hid] using hlength
  · rw [heq]
    exact hweaken

/-- The event row of the order makes up for the transition. -/
theorem exec_event_eventsCover {event : PaymentEvent} {db t : Db}
    (hexec : mongo.exec (.paymentCreateEvent event) db = (.ok (), t))
    (h : EventsCover (Pi.single event.order 1) db) : EventsCover 0 t := by
  obtain heq | ⟨heq, -⟩ := exec_paymentCreateEvent event db
  · cases heq.symm.trans hexec
  · obtain ⟨-, rfl⟩ := Prod.mk.inj (heq.symm.trans hexec)
    intro o ho
    refine (h o ho).trans ?_
    rw [List.countP_append]
    by_cases hid : o.id = event.order
    · simp [hid]
    · simp [hid, Ne.symm hid]

theorem settleWebhook_eventsCover {cfg : WebhookConfig} {d : Delivery} {eventId : String}
    {order : ObjectId} {type : WebhookType} {current result : Order} {s t : Db}
    (heval : (settleWebhook cfg d eventId order type current).eval mongo s = (.ok result, t))
    (h : EventsCover (Pi.single order 1) s) : EventsCover 0 t := by
  have hrecord : ∀ {u}, EventsCover (Pi.single order 1) u →
      (do db (.paymentCreateEvent (webhookEvent cfg d eventId order type))
          return current : MongoM Order).eval mongo u = (.ok result, t) → EventsCover 0 t := by
    intro u hu heval
    obtain ⟨⟨⟩, v, hcreate, hreturn⟩ := Prog.eval_bind_ok.1 heval
    obtain ⟨-, rfl⟩ := Prod.mk.inj hreturn
    exact exec_event_eventsCover hcreate hu
  rw [settleWebhook] at heval
  split at heval
  · obtain ⟨_, u, hcommit, hrest⟩ := Prog.eval_bind_ok.1 heval
    have hu := exec_eventsCover (.reservationsCommit order) trivial s h
    rw [show mongo.exec (.reservationsCommit order) s = _ from hcommit] at hu
    exact hrecord hu hrest
  · obtain ⟨_, u, hrelease, hrest⟩ := Prog.eval_bind_ok.1 heval
    have hu := Prog.Issues.eval (M := mongo)
      (releaseOrderReservations_issues order (by decide : ¬ ReservationStatus.released.Active))
      (fun o ho s => exec_eventsCover o (by cases o <;> trivial) s) h
    rw [hrelease] at hu
    exact hrecord hu hrest

/-- The work of a webhook that commits adds an event with every transition. -/
theorem webhookWork_eventsCover {cfg : WebhookConfig} {d : Delivery} {eventId : String}
    {order result : Order} {body : WebhookBody} {now : Time} {s t : Db}
    (heval : (webhookWork cfg d eventId order body now).eval mongo s = (.ok result, t))
    (h : EventsCover 0 s) : EventsCover 0 t := by
  rw [webhookWork] at heval
  split at heval
  · obtain ⟨moved, u, hmove, hrest⟩ := Prog.eval_bind_ok.1 heval
    have hu := exec_transition_eventsCover (webhookTransition order d.providerName body) now s h
    cases moved with
    | none => cases hrest
    | some transitioned =>
      rw [show mongo.exec (.orderUpdate (.transition _) now) s = _ from hmove] at hu
      exact settleWebhook_eventsCover hrest hu
  · exact settleWebhook_eventsCover heval fun o ho =>
      (h o ho).trans (Nat.add_le_add_left (Nat.zero_le _) _)

/-! ## Handlers -/

theorem DbOp.OfSettlement.untransitioning {o : DbOp} (h : o.OfSettlement) : o.Untransitioning := by
  cases o with
  | orderUpdate u now =>
    exact h.elim False.elim fun h => h.elim False.elim OrderUpdate.Settles.plain
  | _ => trivial

theorem DbOp.OfFulfilment.untransitioning {o : DbOp} (h : o.OfFulfilment) : o.Untransitioning := by
  cases o with
  | orderUpdate u now => exact h.elim False.elim id
  | _ => trivial

theorem DbOp.OfCheckout.untransitioning {o : DbOp} (h : o.OfCheckout) : o.Untransitioning := by
  cases o with
  | orderUpdate u now => exact (h.elim id id).elim
  | _ => trivial

/-- An operation, or a transaction, after which the events still cover the payment histories. -/
def KeepsEventsCover (o : TxOp Mongo ApiError) : Prop :=
  ∀ s, EventsCover 0 s → EventsCover 0 (mongo.transactional.exec o s).2

theorem keepsCover_of_untransitioning {o : TxOp Mongo ApiError}
    (h : o.Within DbOp.Untransitioning) : KeepsEventsCover o :=
  Machine.transactional_keeps exec_eventsCover o h

theorem handler_issues_keepsCover {cfg : ServerConfig} (hreplica : cfg.deployment = .replicaSet)
    (request : Request) : (request.handler cfg).Issues KeepsEventsCover := by
  by_cases hsweep : request.isSweep = false
  · refine handler_issues_replicaSet hreplica ?_ ?_ ?_ ?_ ?_ hsweep
    · exact fun o ho => keepsCover_of_untransitioning (o := .op o) ho.untransitioning
    · exact fun _ _ _ _ => keepsCover_of_untransitioning (o := .txn _)
        ((executeCheckout_issues _ _ _ _).mono fun _ h => h.untransitioning)
    · exact fun _ _ _ _ => keepsCover_of_untransitioning (o := .txn _)
        ((cancelWork_issues _ _ _ _).mono fun _ h => h.untransitioning)
    · exact fun _ _ _ _ _ => keepsCover_of_untransitioning (o := .txn _)
        ((requestRefundWork_issues _ _ _ _ _).mono fun _ h => h.untransitioning)
    · intro d eventId order body now _ s hs
      simp only [Machine.transactional]
      split
      · next heval => exact webhookWork_eventsCover heval hs
      · exact hs
  · cases request with
    | sweep now batchSize =>
      refine issues_embed (fun o ho => ?_)
        (Prog.Issues.map (releaseExpiredReservations_issues now batchSize))
      exact keepsCover_of_untransitioning (o := .op o) ho.untransitioning
    | _ => exact absurd rfl hsweep

/-- Orders, reservations, stock and payment events are what they were. -/
structure Untouched (s t : Db) : Prop where
  orders : t.orders = s.orders
  reservations : t.reservations = s.reservations
  products : t.products = s.products
  paymentEvents : t.paymentEvents = s.paymentEvents

theorem Untouched.refl (s : Db) : Untouched s s := ⟨rfl, rfl, rfl, rfl⟩

theorem Untouched.trans {s t u : Db} (h : Untouched s t) (h' : Untouched t u) : Untouched s u :=
  ⟨h'.orders.trans h.orders, h'.reservations.trans h.reservations, h'.products.trans h.products,
    h'.paymentEvents.trans h.paymentEvents⟩

theorem exec_untouched (o : DbOp) (h : o.Quiet) (s : Db) : Untouched s (mongo.exec o s).2 := by
  cases o <;> first
    | exact h.elim
    | exact .refl s
    | exact ⟨rfl, rfl, rfl, rfl⟩

/-- On a replica set a delivery commits last. -/
theorem processWebhook_commitsLast (cfg : WebhookConfig) (d : Delivery) (now : Time) :
    (processWebhook .replicaSet cfg d now).CommitsLast DbOp.Quiet := by
  rw [processWebhook]
  split
  · trivial
  · next eventId _ =>
    have hreads := (readWebhook_issues cfg d eventId).mono fun _ h => h.quiet
    refine Prog.commitsLast_bind hreads fun read => ?_
    obtain _ | ⟨order, body⟩ := read
    · trivial
    · refine Prog.commitsLast_txn fun updated => ?_
      refine Prog.Succeeds.bind (Prog.Succeeds.embed ?_) fun _ => ⟨_, rfl⟩
      exact Prog.Succeeds.catching _ fun _ => ⟨_, rfl⟩

/-! ## Runs -/

def Request.isWebhook : Request → Bool
  | .webhook _ _ => true
  | _ => false

/-- Any write may fail, but no delivery is stopped unanswered. -/
def deliveriesAnswered (c : ServerPool) : Action Request → Bool
  | .kill i => c.threads[i]?.all fun t => !t.label.isWebhook
  | _ => true

/-- On a replica set, along every run that starts without orders: every payment history is a chain
of allowed transitions from unpaid to the order's payment status, with an event for each of its
entries; events are unique; and no call of a delivery that ends in an error has changed orders,
reservations, stock or events. -/
theorem webhooks_exactly_once {cfg : ServerConfig} (hreplica : cfg.deployment = .replicaSet)
    {c d : ServerPool} {as : List (Action Request)}
    (hrun : (server cfg).Run (fun c a => deliveriesAnswered c a) c as d) (hstart : c.threads = [])
    (horders : c.state.orders.docs = []) (hevents : c.state.paymentEvents = []) :
    (∀ o ∈ d.state.orders.docs,
      HistoryChain .unpaid o.paymentStateHistory o.paymentStatus ∧
      (o.paymentStatus = .unpaid → o.paymentStateHistory = []) ∧
      o.paymentStateHistory.length ≤ d.state.paymentEvents.countP (·.order == o.id)) ∧
    d.state.paymentEvents.Pairwise PaymentEvent.Distinct ∧
    ∀ i delivery now error c' d' before after,
      (server cfg).Run (fun c a => deliveriesAnswered c a) c before c' →
      (server cfg).step c' (.act i) = some d' →
      (server cfg).Run (fun c a => deliveriesAnswered c a) d' after d →
      d.threads[i]? = some ⟨.webhook delivery now, .done (.error error)⟩ →
      Untouched c'.state d'.state := by
  have hsound := run_ordersSound hrun hstart (by simp [OrdersSound, horders])
  have hunique := (hrun.issues (I := EventsUnique) (φ := TxOp.Within fun _ => True)
    (fun request => (handler_issues_legal cfg request).mono fun o ho => by
      cases o with
      | op o => trivial
      | txn work => exact Prog.issues_of_forall (fun _ => trivial) work)
    (fun o ho s hs => Machine.transactional_keeps (fun o _ s => exec_eventsUnique o s) o ho s hs)
    (by simp [hstart]) (by simp [EventsUnique, hevents])).1
  have hcover := (hrun.issues (I := EventsCover 0) (handler_issues_keepsCover hreplica)
    (fun o ho => ho) (by simp [hstart]) (by simp [EventsCover, horders])).1
  refine ⟨fun o ho => ⟨(hsound o ho).history, fun hunpaid => ?_, by simpa using hcover o ho⟩,
    hunique, ?_⟩
  · have hchain := (hsound o ho).history
    rw [hunpaid] at hchain
    exact hchain.eq_nil
  · intro i delivery now error c' d' before after hbefore hs hafter hend
    have hlast : (Request.handler cfg (.webhook delivery now)).CommitsLast DbOp.Quiet := by
      refine Prog.CommitsLast.map ?_
      rw [hreplica]
      exact processWebhook_commitsLast cfg.webhook delivery now
    refine System.Run.unchanged_of_error (M := mongo) rfl hlast Untouched.refl exec_untouched
      (fun c p hp hkill => ?_) hstart hbefore hs hafter hend
    simp [deliveriesAnswered, hp, Request.isWebhook] at hkill

/-- The sample checkout, its payment, and the same delivery again. -/
def duplicateDelivery : List (Action Request) :=
  [.spawn (sampleCheckout 0), .act 0,
    .spawn (.webhook (sampleDelivery "e") 1), .act 1, .spawn (.webhook (sampleDelivery "e") 1),
    .act 2, .act 1, .act 1, .act 1, .act 1, .act 2, .act 2, .act 2]

theorem webhooks_exactly_once_duplicateDelivery :
    ∃ d, (server (sampleConfig .replicaSet)).play deliveriesAnswered ⟨sampleDb, []⟩
        duplicateDelivery = some d ∧
      (∀ o ∈ d.state.orders.docs,
        HistoryChain .unpaid o.paymentStateHistory o.paymentStatus ∧
          o.paymentStateHistory.length ≤ d.state.paymentEvents.countP (·.order == o.id)) ∧
      d.state.paymentEvents.Pairwise PaymentEvent.Distinct := by
  obtain ⟨d, hd⟩ := Option.isSome_iff_exists.1 (by decide +kernel :
    ((server (sampleConfig .replicaSet)).play deliveriesAnswered ⟨sampleDb, []⟩
      duplicateDelivery).isSome)
  obtain ⟨horders, hevents, -⟩ := webhooks_exactly_once rfl (System.Run.of_play hd) rfl rfl rfl
  exact ⟨d, hd, fun o ho => ⟨(horders o ho).1, (horders o ho).2.2⟩, hevents⟩

end Ecommerce
