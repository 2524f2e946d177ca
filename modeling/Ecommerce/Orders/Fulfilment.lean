import Ecommerce.Orders.Lifecycle
import Mathlib.Logic.Relation

/-!
# The fulfilment status

Five handlers write an order's status, each behind a guard of its own. All of them move it along the
edges of `fulfilmentTransitions`, whatever the orders were like when the handler read them.
-/

namespace Ecommerce

open Effect Effect.Collection

/-- The table allows one status to replace the other. -/
def StatusEdge (src dst : OrderStatus) : Prop := dst ∈ fulfilmentTransitions src

/-- Every order that is there before and after is related to what it was. -/
def OrdersMove (E : Order → Order → Prop) (s t : Db) : Prop :=
  ∀ k a b, s.orders.get? k = some a → t.orders.get? k = some b → E a b

/-- Every order that is there before and after has the same status, or one an edge further. -/
def MovesAlong : Db → Db → Prop :=
  OrdersMove fun a b => a.status = b.status ∨ StatusEdge a.status b.status

/-- Wherever the update is made, it relates the order to what it was. -/
def OrderUpdate.Respects (E : Order → Order → Prop) (u : OrderUpdate) : Prop :=
  ∀ (now : Time) (o : Order), u.guard o → E o (u.apply now o)

/-- The forward-only update of a shipment leaves statuses that lead to the new one. -/
theorem behindStatuses_edge : ∀ status ∈ STATUS_FOR_RANK,
    ∀ src ∈ behindStatuses ((FULFILMENT_RANK status).getD 0), status ∈ fulfilmentTransitions src := by
  decide

/-- An update of an order that handlers make follows the table, whenever its guard accepts. -/
theorem OrderUpdate.Legal.edge {u : OrderUpdate} (hu : u.Legal) {o : Order} (hguard : u.guard o)
    (now : Time) : o.status = (u.apply now o).status ∨ StatusEdge o.status (u.apply now o).status := by
  cases u with
  | cancelUnpaid owned reason =>
    obtain ⟨⟨-, hst⟩, -⟩ : (_ ∧ o.status ∈ CANCELLABLE_STATUSES) ∧ _ := by
      simpa [OrderUpdate.guard] using hguard
    right
    rcases (by simpa [CANCELLABLE_STATUSES] using hst : o.status = .pending ∨ o.status = .confirmed)
      with h | h <;> simp [StatusEdge, h, OrderUpdate.apply, fulfilmentTransitions]
  | cancelPaid owned reason =>
    obtain ⟨⟨⟨-, hst⟩, -⟩, -⟩ : ((_ ∧ o.status ∈ CANCELLABLE_STATUSES) ∧ _) ∧ _ := by
      simpa [OrderUpdate.guard] using hguard
    right
    rcases (by simpa [CANCELLABLE_STATUSES] using hst : o.status = .pending ∨ o.status = .confirmed)
      with h | h <;> simp [StatusEdge, h, OrderUpdate.apply, fulfilmentTransitions]
  | requestRefund owned windowStart reason => exact .inl rfl
  | expire id =>
    obtain ⟨hst, -⟩ : o.status = .pending ∧ _ := by simpa [OrderUpdate.guard] using hguard
    right
    simp [StatusEdge, hst, OrderUpdate.apply, fulfilmentTransitions]
  | transition t =>
    obtain ⟨-, hst⟩ : o.paymentStatus = t.fromPayment ∧ o.status = t.fromStatus := by
      simpa [OrderUpdate.guard] using hguard
    have hstatus := OrderTransition.Legal.status hu
    simp only [OrderUpdate.apply, hstatus, hst]
    split
    · next h =>
      right
      simp [StatusEdge, h.2, fulfilmentTransitions]
    · exact .inl rfl
  | advance id behind status =>
    obtain ⟨hmem, rfl⟩ := hu
    have hbehind : o.status ∈ behindStatuses ((FULFILMENT_RANK status).getD 0) := by
      simpa [OrderUpdate.guard] using hguard
    exact .inr (behindStatuses_edge status hmem o.status hbehind)

section Moves

variable {E : Order → Order → Prop} (hrefl : ∀ o, E o o)

include hrefl

theorem OrdersMove.of_orders {s t : Db} (h : t.orders = s.orders) : OrdersMove E s t := by
  intro k a b ha hb
  rw [h, ha] at hb
  exact Option.some_inj.1 hb ▸ hrefl a

theorem exec_orderUpdate_moves {u : OrderUpdate} (hu : u.Respects E) (now : Time) (s : Db) :
    OrdersMove E s (mongo.exec (.orderUpdate u now) s).2 := by
  obtain ⟨o, ho, hguard, heq⟩ | ⟨-, heq⟩ := exec_orderUpdate u now s
  · rw [heq]
    intro k a b ha hb
    dsimp only at hb
    rw [get?_update] at hb
    split at hb
    · next hk =>
      subst hk
      obtain rfl := Option.some_inj.1 (ho.symm.trans ha)
      rw [ho] at hb
      obtain rfl := Option.some_inj.1 hb
      exact hu now o hguard
    · exact Option.some_inj.1 (ha.symm.trans hb) ▸ hrefl a
  · rw [heq]
    exact .of_orders hrefl rfl

/-- A call whose update of an order, if it is one, respects the relation. -/
theorem exec_moves {o : DbOp} (ho : ∀ u now, o = .orderUpdate u now → u.Respects E) (s : Db) :
    OrdersMove E s (mongo.exec o s).2 := by
  by_cases hwrites : o.WritesOrders
  · cases o with
    | orderUpdate u now => exact exec_orderUpdate_moves hrefl (ho u now rfl) now s
    | orderCreate draft now =>
      intro k a b ha hb
      have hne : k ≠ s.orders.next := (get?_lt ha).ne
      have hsame : (s.orders.insert (draft.order s.orders.next now) (draft.key_order _ now)).get? k =
          s.orders.get? k := (get?_insert _ _ _ _).trans (if_neg hne)
      exact Option.some_inj.1 ((hsame.trans ha).symm.trans hb) ▸ hrefl a
    | orderDelete id =>
      intro k a b ha hb
      have hsame : (s.orders.erase id).get? k = if k = id then none else s.orders.get? k :=
        get?_erase _ _ _
      rw [ha] at hsame
      have hb' : (s.orders.erase id).get? k = some b := hb
      split at hsame
      · cases hb'.symm.trans hsame
      · exact Option.some_inj.1 (hsame.symm.trans hb') ▸ hrefl a
    | _ => exact hwrites.elim
  · exact .of_orders hrefl (exec_orders hwrites s).1

end Moves

/-! ## Transactions -/

section Transactions

variable {α : Type} {E : Order → Order → Prop}

/-- What follows the update of an order writes no order. -/
theorem moves_rest {p : MongoM α} (hp : p.Issues fun o : DbOp => ¬ o.WritesOrders) {s t : Db}
    (hst : OrdersMove E s t) : OrdersMove E s (p.eval mongo t).2 := by
  have hsame : (p.eval mongo t).2.orders = t.orders :=
    Prog.Issues.eval (M := mongo) (I := fun x => x.orders = t.orders) hp
      (fun o ho x hx => (exec_orders ho x).1.trans hx) rfl
  intro k a b ha hb
  rw [hsame] at hb
  exact hst k a b ha hb

theorem moves_none (hrefl : ∀ o, E o o) {p : MongoM α}
    (hp : p.Issues fun o : DbOp => ¬ o.WritesOrders) (s : Db) : OrdersMove E s (p.eval mongo s).2 :=
  moves_rest hp (.of_orders hrefl rfl)

/-- An update of an order, and what follows it. -/
theorem moves_update (hrefl : ∀ o, E o o) {u : OrderUpdate} (hu : u.Respects E) {now : Time}
    {f : Option Order → MongoM α}
    (hsome : ∀ o, (f (some o)).Issues fun o : DbOp => ¬ o.WritesOrders)
    (hnone : ∀ s, OrdersMove E s ((f none).eval mongo s).2) (s : Db) :
    OrdersMove E s ((db (.orderUpdate u now) >>= f).eval mongo s).2 := by
  obtain ⟨o, -, -, heq⟩ | ⟨-, heq⟩ := exec_orderUpdate u now s
  · have heval : (db (.orderUpdate u now) >>= f).eval mongo s = _ :=
      Prog.eval_perform_bind (S := Mongo) heq
    rw [heval]
    have hmoves := exec_orderUpdate_moves hrefl hu now s
    rw [heq] at hmoves
    exact moves_rest (hsome _) hmoves
  · have heval : (db (.orderUpdate u now) >>= f).eval mongo s = _ :=
      Prog.eval_perform_bind (S := Mongo) heq
    rw [heval]
    exact hnone s

end Transactions

theorem DbOp.Quiet.not_writesOrders {o : DbOp} (h : o.Quiet) : ¬ o.WritesOrders := by
  cases o <;> first | exact id | exact h.elim

theorem DbOp.OfRelease.not_writesOrders {o : DbOp} (h : o.OfRelease) : ¬ o.WritesOrders := by
  cases o <;> first | exact id | exact h.elim

theorem finishCancel_not_writesOrders (tenant : String) (cancelled : Order) (refundOpened : Bool) :
    (finishCancel tenant cancelled refundOpened).Issues fun o : DbOp => ¬ o.WritesOrders := by
  refine ((releaseOrderReservations_issues _ (by decide)).mono fun _ h => h.not_writesOrders).bind
    fun _ => ?_
  refine (issues_db id).bind fun _ => ?_
  cases refundOpened with
  | false => trivial
  | true => exact (issues_db id).bind fun _ => trivial

theorem settleWebhook_not_writesOrders (cfg : WebhookConfig) (d : Delivery) (eventId : String)
    (order : ObjectId) (type : WebhookType) (current : Order) :
    (settleWebhook cfg d eventId order type current).Issues fun o : DbOp => ¬ o.WritesOrders := by
  rw [settleWebhook]
  split
  · exact (issues_db not_false).bind fun _ => (issues_db not_false).bind fun _ => trivial
  · refine ((releaseOrderReservations_issues _ (by decide)).mono fun _ h => h.not_writesOrders).bind
      fun _ => ?_
    exact (issues_db not_false).bind fun _ => trivial

section Works

variable {E : Order → Order → Prop} (hrefl : ∀ o, E o o)

include hrefl

theorem cancelWork_moves {req : AuthedRequest} {id : ObjectId} {reason : String}
    (hunpaid : (OrderUpdate.cancelUnpaid (ownedOrderFilter req id) reason).Respects E)
    (hpaid : (OrderUpdate.cancelPaid (ownedOrderFilter req id) reason).Respects E) (now : Time)
    (s : Db) : OrdersMove E s ((cancelWork req id reason now).eval mongo s).2 := by
  refine moves_update hrefl hunpaid (fun _ => finishCancel_not_writesOrders _ _ _) (fun s => ?_) s
  refine moves_update hrefl hpaid (fun _ => finishCancel_not_writesOrders _ _ _) (fun s => ?_) s
  refine moves_none hrefl ((issues_db not_false).bind fun found => ?_) s
  cases found <;> trivial

theorem requestRefundWork_moves {limits : Limits} {req : AuthedRequest} {id : ObjectId}
    {reason : String} {now : Time} (hrequest : (OrderUpdate.requestRefund (ownedOrderFilter req id)
      (refundWindowStart limits now) reason).Respects E) (s : Db) :
    OrdersMove E s ((requestRefundWork limits req id reason now).eval mongo s).2 := by
  refine moves_update hrefl hrequest (fun o => ?_) (fun s => ?_) s
  · exact (issues_db not_false).bind fun _ => trivial
  · refine moves_none hrefl (Prog.Issues.bind (f := fun e => throw e) ?_ fun _ => trivial) s
    exact (refundRejection_issues _ _ _ _).mono fun _ h => h.not_writesOrders

theorem webhookWork_moves {cfg : WebhookConfig} {d : Delivery} {eventId : String} {order : Order}
    {body : WebhookBody} (htransition : order.paymentStatus ≠ TARGET_STATE body.type →
      (OrderUpdate.transition (webhookTransition order d.providerName body)).Respects E) (now : Time)
    (s : Db) : OrdersMove E s ((webhookWork cfg d eventId order body now).eval mongo s).2 := by
  rw [webhookWork]
  split
  · next hne =>
    exact moves_update hrefl (htransition hne)
      (fun _ => settleWebhook_not_writesOrders _ _ _ _ _ _) (fun s => .of_orders hrefl rfl) s
  · exact moves_none hrefl (settleWebhook_not_writesOrders _ _ _ _ _ _) s

/-- A checkout leaves the orders that are there alone. -/
theorem executeCheckout_moves (limits : Limits) (req : AuthedRequest) (value : CheckoutInput)
    (now : Time) (s : Db) :
    OrdersMove E s ((executeCheckout limits req value now true).eval mongo s).2 := by
  have hkeep : ∀ k a, s.orders.get? k = some a →
      ((executeCheckout limits req value now true).eval mongo s).2.orders.get? k = some a := by
    intro k a ha
    refine Prog.Issues.eval (M := mongo) (I := fun x => x.orders.get? k = some a)
      (executeCheckout_issues limits req value now) (fun o ho x hx => ?_) ha
    by_cases hwrites : o.WritesOrders
    · cases o with
      | orderCreate draft now =>
        exact (get?_insert _ _ (draft.key_order _ now) _).trans ((if_neg (get?_lt hx).ne).trans hx)
      | _ => first | exact hwrites.elim | (rcases ho with ho | ho <;> exact ho.elim)
    · rw [(exec_orders hwrites x).1]
      exact hx
  intro k a b ha hb
  exact Option.some_inj.1 ((hkeep k a ha).symm.trans hb) ▸ hrefl a

theorem txn_moves {α : Type} {work : MongoM α} (h : ∀ s, OrdersMove E s (work.eval mongo s).2)
    (s : Db) : OrdersMove E s (mongo.transactional.exec (.txn work) s).2 := by
  have hmoves := h s
  simp only [Machine.transactional]
  split
  · next heq =>
    rw [heq] at hmoves
    exact hmoves
  · exact .of_orders hrefl rfl

end Works

/-! ## Handlers -/

/-- An update of the kind that a transaction may make. -/
def OrderUpdate.Transacted : OrderUpdate → Prop
  | .advance .. => False
  | .expire _ => False
  | _ => True

/-- A legal call, or a transaction that moves orders as the relation says. -/
def TxOp.Moves (E : Order → Order → Prop) : TxOp Mongo ApiError → Prop
  | .op o => o.Legal
  | .txn work => ∀ s, OrdersMove E s (mongo.transactional.exec (.txn work) s).2

theorem handler_moves {E : Order → Order → Prop} (hrefl : ∀ o, E o o)
    (hrespects : ∀ u : OrderUpdate, u.Legal → u.Transacted → u.Respects E) (cfg : ServerConfig)
    (request : Request) : (request.handler cfg).Issues (TxOp.Moves E) := by
  have hop : ∀ o : DbOp, o.Legal → TxOp.Moves E (.op o) := fun o ho => ho
  cases hdeployment : cfg.deployment with
  | standalone =>
    refine (handler_issues_standalone hdeployment request).mono fun o ho => ?_
    cases o with
    | op o => exact hop o ho
    | txn work => exact ho.elim
  | replicaSet =>
    cases hsweep : request.isSweep with
    | true =>
      cases request with
      | sweep now batchSize =>
        exact issues_embed hop
          (Prog.Issues.map ((releaseExpiredReservations_issues _ _).mono fun _ h => h.legal))
      | _ => cases hsweep
    | false =>
      refine handler_issues_replicaSet hdeployment (fun o ho => hop o ho.legal)
        (fun _ _ _ _ => txn_moves hrefl fun s => executeCheckout_moves hrefl _ _ _ _ s)
        (fun _ _ _ _ => txn_moves hrefl fun s => cancelWork_moves hrefl
          (hrespects _ trivial trivial) (hrespects _ trivial trivial) _ s)
        (fun _ _ _ _ _ => txn_moves hrefl fun s =>
          requestRefundWork_moves hrefl (hrespects _ trivial trivial) s)
        (fun d _ order body _ hpayable => txn_moves hrefl fun s =>
          webhookWork_moves hrefl (fun hne => ?_) _ s) hsweep
      obtain ⟨hassert, hcancelled⟩ := hpayable order body rfl
      exact hrespects _ (webhookTransition_legal d.providerName hne hassert hcancelled) trivial

/-- Every step of a handler relates the orders to what they were, when legal updates do. -/
theorem handler_ordersMove {E : Order → Order → Prop} (hrefl : ∀ o, E o o)
    (hrespects : ∀ u : OrderUpdate, u.Legal → u.Respects E) (cfg : ServerConfig) (request : Request) :
    (request.handler cfg).Issues fun o => ∀ s, OrdersMove E s (mongo.transactional.exec o s).2 := by
  refine (handler_moves hrefl (fun u hu _ => hrespects u hu) cfg request).mono fun o ho => ?_
  cases o with
  | op o =>
    refine fun s => exec_moves hrefl ?_ s
    rintro u now rfl
    exact hrespects u ho
  | txn work => exact ho

/-! ## Runs -/

/-- The operation, or the transaction, moves orders along the table. -/
def TxOp.MovesAlong (o : TxOp Mongo ApiError) : Prop :=
  ∀ s, Ecommerce.MovesAlong s (mongo.transactional.exec o s).2

theorem handler_movesAlong (cfg : ServerConfig) (request : Request) :
    (request.handler cfg).Issues TxOp.MovesAlong :=
  handler_ordersMove (fun _ => .inl rfl) (fun _ hu now _ hguard => hu.edge hguard now) cfg request

/-- The table leads from one status to the other. -/
def StatusPath : OrderStatus → OrderStatus → Prop := Relation.ReflTransGen StatusEdge

/-- An edge in fulfilment leads to a higher rank, or to a cancellation. -/
theorem StatusEdge.rank {src dst : OrderStatus} (h : StatusEdge src dst) {rank : Nat}
    (hsrc : FULFILMENT_RANK src = some rank) :
    dst = .cancelled ∨ ∃ rank', FULFILMENT_RANK dst = some rank' ∧ rank < rank' := by
  unfold StatusEdge at h
  cases src <;> cases dst <;> simp_all [fulfilmentTransitions, FULFILMENT_RANK] <;> omega

/-- Where the table leads from a status in fulfilment: further on, or to a cancellation. -/
theorem StatusPath.rank {src dst : OrderStatus} (h : StatusPath src dst) {rank : Nat}
    (hsrc : FULFILMENT_RANK src = some rank) :
    dst = .cancelled ∨ ∃ rank', FULFILMENT_RANK dst = some rank' ∧ rank ≤ rank' := by
  induction h with
  | refl => exact .inr ⟨rank, hsrc, le_refl _⟩
  | tail _ hedge ih =>
    rcases ih with rfl | ⟨rank', hrank', hle⟩
    · simp [StatusEdge, fulfilmentTransitions] at hedge
    · rcases hedge.rank hrank' with hcancelled | ⟨rank'', hrank'', hlt⟩
      · exact .inl hcancelled
      · exact .inr ⟨rank'', hrank'', by omega⟩

theorem StatusPath.eq_of_final {src dst : OrderStatus} (h : StatusPath src dst)
    (hsrc : fulfilmentTransitions src = []) : dst = src := by
  rcases h.cases_head with rfl | ⟨next, hedge, -⟩
  · rfl
  · simp [StatusEdge, hsrc] at hedge

/-- The order's number has been given out, and if the order is there it is like this. -/
def OrderHas (P : Order → Prop) (k : ObjectId) (s : Db) : Prop :=
  k < s.orders.next ∧ ∀ o, s.orders.get? k = some o → P o

/-- The order's number has been given out, and if the order is there its status is one that the
table leads to. -/
def StatusFrom (src : OrderStatus) (k : ObjectId) (s : Db) : Prop :=
  k < s.orders.next ∧ ∀ o, s.orders.get? k = some o → StatusPath src o.status

/-- Orders keep their numbers, and numbers are not given out again. -/
def KeepsNumbers (s t : Db) : Prop :=
  s.orders.next ≤ t.orders.next ∧
    ∀ k, k < s.orders.next → s.orders.get? k = none → t.orders.get? k = none

theorem KeepsNumbers.refl (s : Db) : KeepsNumbers s s := ⟨le_refl _, fun _ _ h => h⟩

theorem KeepsNumbers.trans {s t u : Db} (h : KeepsNumbers s t) (h' : KeepsNumbers t u) :
    KeepsNumbers s u :=
  ⟨h.1.trans h'.1, fun k hk hnone => h'.2 k (hk.trans_le h.1) (h.2 k hk hnone)⟩

theorem exec_keepsNumbers (o : DbOp) (s : Db) : KeepsNumbers s (mongo.exec o s).2 := by
  by_cases hwrites : o.WritesOrders
  · cases o with
    | orderUpdate u now =>
      obtain ⟨x, -, -, heq⟩ | ⟨-, heq⟩ := exec_orderUpdate u now s
      · rw [heq]
        refine ⟨le_refl _, fun k _ hnone => ?_⟩
        exact (get?_modify _ _ _ _).trans (by rw [hnone]; rfl)
      · rw [heq]
        exact .refl s
    | orderCreate draft now =>
      refine ⟨Nat.le_succ _, fun k hk hnone => ?_⟩
      exact (get?_insert _ _ (draft.key_order _ now) _).trans ((if_neg hk.ne).trans hnone)
    | orderDelete id =>
      refine ⟨le_refl _, fun k _ hnone => ?_⟩
      refine (get?_erase _ _ _).trans ?_
      rw [hnone, ite_self]
    | _ => exact hwrites.elim
  · rw [KeepsNumbers, (exec_orders hwrites s).1]
    exact KeepsNumbers.refl s

theorem transactional_keepsNumbers (o : TxOp Mongo ApiError) (s : Db) :
    KeepsNumbers s (mongo.transactional.exec o s).2 := by
  refine Machine.transactional_keeps (M := mongo) (φ := fun _ => True) (I := KeepsNumbers s)
    (fun o _ x hx => hx.trans (exec_keepsNumbers o x)) o ?_ s (.refl s)
  cases o with
  | op o => trivial
  | txn work => exact Prog.issues_of_forall (fun _ => trivial) work

section Steps

variable {cfg : ServerConfig} {c d : ServerPool} {a : Action Request}
variable (hstep : (server cfg).step c a = some d)

include hstep

theorem step_keepsNumbers : KeepsNumbers c.state d.state := by
  obtain ⟨l, rfl, rfl⟩ | ⟨i, l, o, kont, ht, ⟨-, rfl⟩ | ⟨-, rfl⟩ | ⟨-, rfl⟩⟩ :=
    (server cfg).step_cases hstep
  · exact .refl _
  · exact transactional_keepsNumbers o c.state
  · exact .refl _
  · exact .refl _

theorem step_ordersMove {E : Order → Order → Prop} (hrefl : ∀ o, E o o)
    (hthreads : ∀ t ∈ c.threads,
      t.prog.Issues fun o => ∀ s, OrdersMove E s (mongo.transactional.exec o s).2) :
    OrdersMove E c.state d.state := by
  obtain ⟨l, rfl, rfl⟩ | ⟨i, l, o, kont, ht, ⟨-, rfl⟩ | ⟨-, rfl⟩ | ⟨-, rfl⟩⟩ :=
    (server cfg).step_cases hstep
  · exact .of_orders hrefl rfl
  · exact (hthreads _ (List.mem_of_getElem? ht)).1 c.state
  · exact .of_orders hrefl rfl
  · exact .of_orders hrefl rfl

end Steps

/-- What a related order inherits holds on. -/
theorem OrderHas.move {E : Order → Order → Prop} {P : Order → Prop} {k : ObjectId} {s t : Db}
    (h : OrderHas P k s) (hP : ∀ a b, E a b → P a → P b) (hkeep : KeepsNumbers s t)
    (hmove : OrdersMove E s t) : OrderHas P k t := by
  obtain ⟨hlt, hholds⟩ := h
  refine ⟨hlt.trans_le hkeep.1, fun b hb => ?_⟩
  cases ha : s.orders.get? k with
  | none => cases (hkeep.2 k hlt ha).symm.trans hb
  | some a => exact hP a b (hmove k a b ha hb) (hholds a ha)

/-- A step leads statuses on along the table. -/
theorem StatusFrom.exec {src : OrderStatus} {k : ObjectId} {o : TxOp Mongo ApiError} {s : Db}
    (ho : TxOp.MovesAlong o) (h : StatusFrom src k s) :
    StatusFrom src k (mongo.transactional.exec o s).2 := by
  refine OrderHas.move h (fun a b hmoves hpath => ?_) (transactional_keepsNumbers o s) (ho s)
  rcases hmoves with hsame | hedge
  · exact hsame ▸ hpath
  · exact hpath.tail hedge

/-- Along every run, in both deployments, each step moves every order along an edge of the table, if
it moves it at all. So cancelled and delivered are final, and the rank never falls. -/
theorem status_follows_table {cfg : ServerConfig} {admits : ServerPool → Action Request → Prop}
    {start c : ServerPool} {as : List (Action Request)} (hstart : start.threads = [])
    (hrun : (server cfg).Run admits start as c) :
    (∀ a e, (server cfg).step c a = some e → MovesAlong c.state e.state) ∧
    ∀ bs d, (server cfg).Run admits c bs d → ∀ k o o', c.state.orders.get? k = some o →
      d.state.orders.get? k = some o' →
        (o.status = .cancelled → o'.status = .cancelled) ∧
        (o.status = .delivered → o'.status = .delivered) ∧
        ∀ rank rank', FULFILMENT_RANK o.status = some rank →
          FULFILMENT_RANK o'.status = some rank' → rank ≤ rank' := by
  have hthreads : ∀ t ∈ c.threads, t.prog.Issues TxOp.MovesAlong :=
    (hrun.issues (I := fun _ => True) (handler_movesAlong cfg) (fun _ _ _ h => h)
      (by simp [hstart]) trivial).2
  constructor
  · exact fun a e hstep => step_ordersMove hstep (fun _ => .inl rfl) hthreads
  · intro bs d hbs k o o' ho ho'
    have hfrom : StatusFrom o.status k c.state :=
      ⟨get?_lt ho, fun x hx => Option.some_inj.1 (ho.symm.trans hx) ▸ .refl⟩
    have hpath := ((hbs.issues (I := StatusFrom o.status k) (handler_movesAlong cfg)
      (fun o ho s hs => hs.exec ho) hthreads hfrom).1).2 o' ho'
    refine ⟨fun h => ?_, fun h => ?_, fun rank rank' hrank hrank' => ?_⟩
    · rw [hpath.eq_of_final (by rw [h]; rfl), h]
    · rw [hpath.eq_of_final (by rw [h]; rfl), h]
    · rcases hpath.rank hrank with hcancelled | ⟨r, hr, hle⟩
      · rw [hcancelled] at hrank'
        cases hrank'
      · obtain rfl := Option.some_inj.1 (hr.symm.trans hrank')
        exact hle

/-- The sample cart checked out, and its order cancelled by the next step. -/
theorem status_follows_table_cancel :
    ∃ c d : ServerPool, (server (sampleConfig .replicaSet)).step c (.act 1) = some d ∧
      (c.state.orders.get? 0).map (·.status) = some .pending ∧
      (d.state.orders.get? 0).map (·.status) = some .cancelled ∧ MovesAlong c.state d.state := by
  obtain ⟨c, hc, h⟩ := (Option.any_eq_true _ _).1 (by decide +kernel :
    ((server (sampleConfig .replicaSet)).play (fun _ _ => true) ⟨sampleDb, []⟩
      [.spawn (sampleCheckout 0), .act 0, .spawn (.cancel sampleUser 0 "r" 1)]).any fun c =>
        ((server (sampleConfig .replicaSet)).step c (.act 1)).any fun d =>
          decide ((c.state.orders.get? 0).map (·.status) = some .pending) &&
            decide ((d.state.orders.get? 0).map (·.status) = some .cancelled))
  obtain ⟨d, hd, h⟩ := (Option.any_eq_true _ _).1 h
  simp only [Bool.and_eq_true, decide_eq_true_eq] at h
  exact ⟨c, d, hd, h.1, h.2, (status_follows_table rfl (System.Run.of_play hc)).1 _ d hd⟩

end Ecommerce
