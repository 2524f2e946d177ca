import Ecommerce.Inventory.Release
import Ecommerce.Orders.Recovery
import Ecommerce.Payments.ExactlyOnce

/-!
# Redelivered webhooks

On a standalone server a webhook that stops with an error has done a part of its writes, and the
provider's retry reads what that part left. Each attempt leaves the order, its reservations and its
stock such that finishing from there gives what one uninterrupted delivery gives, but for the units
of a reservation whose return was the call that failed.
-/

namespace Ecommerce

open Effect Effect.Collection

variable {cfg : WebhookConfig} {d : Delivery} {eventId : String} {now : Time} {body : WebhookBody}
variable {s t u : Db} {x : Order}

/-! ## Reading -/

/-- What the delivery finds when it is to be applied to an order. -/
structure Applies (cfg : WebhookConfig) (d : Delivery) (eventId : String) (s : Db) (x : Order)
    (body : WebhookBody) : Prop where
  fresh : s.paymentEvents.find? (fun e => (e.provider == d.providerName && e.eventId == eventId) ||
    e.signedDigest == some (d.signedDigest cfg)) = none
  parsed : cfg.parseBody d.rawPayload = some body
  found : s.orders.get? body.orderId = some x
  provider : tenantProvider (s.tenants.find? (·.key == x.tenant)) = d.providerName
  open' : ¬ (x.status = .cancelled ∧
    (TARGET_STATE body.type = .paid ∨ TARGET_STATE body.type = .authorized))
  edge : assertPaymentTransition x.paymentStatus (TARGET_STATE body.type) = .ok ()

theorem Applies.id (h : Applies cfg d eventId s x body) : x.id = body.orderId := get?_key h.found

theorem Applies.eval (h : Applies cfg d eventId s x body) :
    (readWebhook cfg d eventId).eval mongo s = (.ok (some (x, body)), s) := by
  have hevent : mongo.exec (.paymentFindEvent d.providerName eventId (d.signedDigest cfg)) s =
      (.ok none, s) := congrArg (fun found => (Except.ok found, s)) h.fresh
  have horder : mongo.exec (.orderFindById body.orderId) s = (.ok (some x), s) :=
    congrArg (fun found => (Except.ok found, s)) h.found
  have htenant : mongo.exec (.tenantFindOne x.tenant) s =
      (.ok (s.tenants.find? (·.key == x.tenant)), s) := rfl
  refine (Prog.eval_perform_bind (S := Mongo) hevent).trans ?_
  simp only [h.parsed]
  refine (Prog.eval_perform_bind (S := Mongo) horder).trans ?_
  refine (Prog.eval_perform_bind (S := Mongo) htenant).trans ?_
  simp only [h.provider, ne_eq, not_true_eq_false, if_false, if_neg h.open', h.edge]
  rfl

theorem Applies.of_eval (h : (readWebhook cfg d eventId).eval mongo s = (.ok (some (x, body)), t)) :
    Applies cfg d eventId s x body := by
  have hread : ∀ {o : DbOp} {α : Type} {f : o.Reply → MongoM α} {a : o.Reply} {r : Except ApiError α},
      mongo.exec o s = (.ok a, s) → (db o >>= f).eval mongo s = (r, t) →
        (f a).eval mongo s = (r, t) :=
    fun hexec h => (Prog.eval_perform_bind (S := Mongo) hexec).symm.trans h
  replace h := hread rfl h
  split at h
  · cases h
  next hfresh =>
  split at h
  · cases h
  next body' hparsed =>
  replace h := hread rfl h
  split at h
  · cases h
  next x' hfound =>
  replace h := hread rfl h
  split at h
  · cases hread rfl h
  next hprovider =>
  dsimp only at h
  split at h
  · cases hread rfl h
  next hopen =>
  split at h
  · next hedge =>
    cases h
    exact ⟨hfresh, hparsed, hfound, not_not.1 hprovider, hopen, hedge⟩
  · cases h

/-! ## Working -/

/-- The order in its target state, and the reservations as they were. -/
def Db.moveOrder (d : Delivery) (body : WebhookBody) (now : Time) (x : Order) (s : Db) : Db :=
  if x.paymentStatus = TARGET_STATE body.type then s
  else { s with
    orders := s.orders.update x.id
      ((OrderUpdate.transition (webhookTransition x d.providerName body)).patch now) }

/-- The reservations of the order as the webhook's type demands. -/
def Db.settle (type : WebhookType) (k : ObjectId) (s : Db) : Db :=
  if TARGET_STATE type = .paid then
    { s with
      reservations := s.reservations.modify
        (fun r => r.order == some k && r.status == .reserved)
        (InventoryReservation.setStatus .committed) }
  else s.releaseOrder k .released

/-- The event of the delivery recorded. -/
def Db.record (event : PaymentEvent) (s : Db) : Db :=
  { s with paymentEvents := s.paymentEvents ++ [event] }

theorem settle_withOrders (type : WebhookType) (k : ObjectId) (s : Db) (orders : Collection Order) :
    ({ s with orders := orders } : Db).settle type k =
      { s.settle type k with orders := orders } := by
  rw [Db.settle, Db.settle]
  split <;> rfl

theorem settle_paymentEvents (type : WebhookType) (k : ObjectId) (s : Db) :
    (s.settle type k).paymentEvents = s.paymentEvents := by
  rw [Db.settle]
  split <;> rfl

theorem settle_orders (type : WebhookType) (k : ObjectId) (s : Db) :
    (s.settle type k).orders = s.orders := by
  rw [Db.settle]
  split <;> rfl

/-- Settling again changes nothing. -/
theorem settle_settle (type : WebhookType) (k : ObjectId) (s : Db) :
    ((s.settle type k).settle type k).reservations = (s.settle type k).reservations ∧
      ((s.settle type k).settle type k).products = (s.settle type k).products := by
  by_cases hpaid : TARGET_STATE type = .paid
  · refine ⟨?_, by simp [Db.settle, hpaid]⟩
    refine Collection.ext ?_ (by simp [Db.settle, hpaid])
    simp only [Db.settle, hpaid, if_true, Collection.modify, List.map_map]
    refine List.map_congr_left fun r _ => ?_
    by_cases hr : r.order = some k ∧ r.status = .reserved <;> simp [hr]
  · have hnone : (s.releaseOrder k .released).activeOf k = [] := activeOf_releaseOrder (by decide)
    simp only [Db.settle, hpaid, if_false]
    refine ⟨?_, by rw [Db.releaseOrder, hnone, unitsIn_nil, addStock_zero]⟩
    exact congrArg Db.reservations (releaseOrder_of_none hnone)

theorem short_settle (type : WebhookType) (k : ObjectId) (s : Db) :
    Short (Db.settle type k) 0 s (s.settle type k) where
  reservations := (settle_settle type k s).1
  products := by rw [addStock_zero, (settle_settle type k s).2]
  rest := by
    rw [Db.settle]
    split <;> rfl

/-- A row that no row is found for is recorded. -/
theorem exec_record (order : ObjectId) (type : WebhookType)
    (hfresh : s.paymentEvents.find? (fun e =>
      (e.provider == d.providerName && e.eventId == eventId) ||
        e.signedDigest == some (d.signedDigest cfg)) = none) :
    mongo.exec (.paymentCreateEvent (webhookEvent cfg d eventId order type)) s =
      (.ok (), s.record (webhookEvent cfg d eventId order type)) := by
  have hnone : (s.paymentEvents.any fun e =>
      (e.provider == d.providerName && e.eventId == eventId) ||
        (e.signedDigest.isSome && e.signedDigest == some (d.signedDigest cfg))) = false := by
    refine List.any_eq_false.2 fun e he h => List.find?_eq_none.1 hfresh e he ?_
    simp only [Bool.or_eq_true, Bool.and_eq_true] at h ⊢
    exact h.imp id And.right
  simp only [mongo, Db.exec, webhookEvent, hnone, Bool.false_eq_true, if_false]
  rfl

section Settle

variable {k : ObjectId} {type : WebhookType} {current : Order}

theorem eval_settleWebhook (hfresh : s.paymentEvents.find? (fun e =>
      (e.provider == d.providerName && e.eventId == eventId) ||
        e.signedDigest == some (d.signedDigest cfg)) = none) :
    (settleWebhook cfg d eventId k type current).eval mongo s =
      (.ok current, (s.settle type k).record (webhookEvent cfg d eventId k type)) := by
  have hrecord := exec_record k type
    ((congrArg _ (settle_paymentEvents type k s)).trans hfresh)
  rw [settleWebhook]
  split
  · next hpaid =>
    have hcommit : mongo.exec (.reservationsCommit k) s = (.ok (), s.settle type k) := by
      rw [Db.settle, if_pos hpaid]
      rfl
    refine (Prog.eval_perform_bind (S := Mongo) hcommit).trans ?_
    exact (Prog.eval_perform_bind (S := Mongo) hrecord).trans rfl
  · next hpaid =>
    have hrelease : (releaseOrderReservations k .released).eval mongo s =
        (.ok (s.activeOf k).length, s.settle type k) := by
      rw [Db.settle, if_neg hpaid]
      exact eval_releaseOrderReservations (by decide) k s
    refine Prog.eval_bind_ok.2 ⟨_, _, hrelease, ?_⟩
    exact (Prog.eval_perform_bind (S := Mongo) hrecord).trans rfl

theorem settleWebhook_reaches {o : DbOp}
    (h : (settleWebhook cfg d eventId k type current).Reaches mongo s o t) :
    Short (Db.settle type k) o.missing s t := by
  have hrecord : ∀ {u : Db}, (db (.paymentCreateEvent (webhookEvent cfg d eventId k type)) >>=
      fun _ => (pure current : MongoM Order)).Reaches mongo u o t → o.missing = 0 ∧ t = u := by
    intro u h
    rcases Prog.reaches_bind.1 h with h | ⟨_, _, -, h⟩
    · obtain ⟨rfl, rfl⟩ := Prog.reaches_perform.1 h
      exact ⟨rfl, rfl⟩
    · exact h.elim
  rw [settleWebhook] at h
  split at h
  · next hpaid =>
    have hcommit : mongo.exec (.reservationsCommit k) s = (.ok (), s.settle type k) := by
      rw [Db.settle, if_pos hpaid]
      rfl
    rcases (Prog.reaches_perform_bind (S := Mongo) hcommit).1 h with ⟨rfl, rfl⟩ | h
    · exact .refl t
    · obtain ⟨hmissing, rfl⟩ := hrecord h
      exact hmissing ▸ short_settle type k s
  · next hpaid =>
    have hsettle : Db.settle type k = Db.releaseOrder k .released := by
      funext v
      rw [Db.settle, if_neg hpaid]
    rcases Prog.reaches_bind.1 h with h | ⟨_, u, heval, h⟩
    · rw [hsettle]
      exact releaseOrderReservations_reaches (by decide) h
    · obtain ⟨-, rfl⟩ := Prod.mk.inj
        ((eval_releaseOrderReservations (by decide) k s).symm.trans heval)
      obtain ⟨hmissing, rfl⟩ := hrecord h
      have hshort := short_settle type k s
      rw [hmissing]
      rw [hsettle] at hshort ⊢
      exact hshort

end Settle

/-- The compare-and-set matches the order as it was read. -/
theorem exec_transition (hx : s.orders.get? x.id = some x)
    (hne : x.paymentStatus ≠ TARGET_STATE body.type) :
    mongo.exec (.orderUpdate (.transition (webhookTransition x d.providerName body)) now) s =
      (.ok (some ((OrderUpdate.transition (webhookTransition x d.providerName body)).apply now x)),
        s.moveOrder d body now x) := by
  obtain ⟨y, hy, -, hexec⟩ | ⟨hnone, -⟩ :=
    exec_orderUpdate (.transition (webhookTransition x d.providerName body)) now s
  · obtain rfl : x = y := Option.some_inj.1 (hx.symm.trans hy)
    rw [hexec, Db.moveOrder, if_neg hne]
    rfl
  · have hguard := hnone x hx
    simp [OrderUpdate.guard, webhookTransition] at hguard

theorem moveOrder_paymentEvents (d : Delivery) (body : WebhookBody) (now : Time) (x : Order)
    (s : Db) : (s.moveOrder d body now x).paymentEvents = s.paymentEvents := by
  rw [Db.moveOrder]
  split <;> rfl

theorem eval_webhookWork (now : Time) (h : Applies cfg d eventId s x body) :
    ∃ current, (webhookWork cfg d eventId x body now).eval mongo s =
      (.ok current, ((s.moveOrder d body now x).settle body.type x.id).record
        (webhookEvent cfg d eventId x.id body.type)) := by
  have hfound : s.orders.get? x.id = some x := h.id ▸ h.found
  have hfresh := h.fresh
  rw [← moveOrder_paymentEvents d body now x s] at hfresh
  rw [webhookWork]
  split
  · next hne =>
    refine ⟨(OrderUpdate.transition (webhookTransition x d.providerName body)).apply now x, ?_⟩
    refine (Prog.eval_perform_bind (S := Mongo) (exec_transition hfound hne)).trans ?_
    exact eval_settleWebhook hfresh
  · next heq =>
    rw [Db.moveOrder, if_pos (not_not.1 heq)]
    exact ⟨x, eval_settleWebhook h.fresh⟩

theorem webhookWork_reaches (h : Applies cfg d eventId s x body) {o : DbOp}
    (hreach : (webhookWork cfg d eventId x body now).Reaches mongo s o t) :
    ∃ v, (v = s ∨ v = s.moveOrder d body now x) ∧
      Short (Db.settle body.type x.id) o.missing v t := by
  have hfound : s.orders.get? x.id = some x := h.id ▸ h.found
  rw [webhookWork] at hreach
  split at hreach
  · next hne =>
    rcases (Prog.reaches_perform_bind (S := Mongo) (exec_transition hfound hne)).1 hreach
      with ⟨rfl, rfl⟩ | hreach
    · exact ⟨t, .inl rfl, .refl t⟩
    · exact ⟨_, .inr rfl, settleWebhook_reaches hreach⟩
  · exact ⟨s, .inl rfl, settleWebhook_reaches hreach⟩

/-! ## Attempts -/

/-- What the attempts so far have left: the order moved or not, and the rest short of the units that
are missing. -/
structure Begun (d : Delivery) (body : WebhookBody) (x : Order) (missing : ObjectId → ℤ)
    (s t : Db) : Prop where
  orders : t.orders = s.orders ∨ ∃ now, t.orders = (s.moveOrder d body now x).orders
  short : Short (Db.settle body.type x.id) missing s { t with orders := s.orders }

theorem Begun.refl (s : Db) : Begun d body x 0 s s := ⟨.inl rfl, .refl s⟩

theorem moveOrder_of_eq (heq : x.paymentStatus = TARGET_STATE body.type) :
    s.moveOrder d body now x = s := if_pos heq

theorem moveOrder_orders (heq : t.orders = s.orders) :
    (t.moveOrder d body now x).orders = (s.moveOrder d body now x).orders := by
  rw [Db.moveOrder, Db.moveOrder]
  split
  · exact heq
  · simp only [heq]

theorem moveOrder_withOrders (orders : Collection Order) :
    ({ s.moveOrder d body now x with orders := orders } : Db) = { s with orders := orders } := by
  rw [Db.moveOrder]
  split <;> rfl

/-- Attempts leave the delivery applicable, and its order on the way to one and the same state. -/
theorem Begun.applies (h : Applies cfg d eventId s x body) {m : ObjectId → ℤ}
    (hbegun : Begun d body x m s t) :
    ∃ y, Applies cfg d eventId t y body ∧ y.id = x.id ∧
      ∀ now, ∃ now', (t.moveOrder d body now y).orders = (s.moveOrder d body now' x).orders := by
  have hrest := hbegun.short.rest
  have hevents : t.paymentEvents = s.paymentEvents := (congrArg Db.paymentEvents hrest :)
  have htenants : t.tenants = s.tenants := (congrArg Db.tenants hrest :)
  -- An order that has not moved is read as before.
  have hsame : t.orders = s.orders → ∃ y, Applies cfg d eventId t y body ∧ y.id = x.id ∧
      ∀ now, ∃ now', (t.moveOrder d body now y).orders = (s.moveOrder d body now' x).orders :=
    fun horders => ⟨x, ⟨hevents ▸ h.fresh, h.parsed, horders ▸ h.found, htenants ▸ h.provider,
      h.open', h.edge⟩, rfl, fun now => ⟨now, moveOrder_orders horders⟩⟩
  obtain horders | ⟨now, horders⟩ := hbegun.orders
  · exact hsame horders
  by_cases hpay : x.paymentStatus = TARGET_STATE body.type
  · rw [moveOrder_of_eq hpay] at horders
    exact hsame horders
  · let y := (OrderUpdate.transition (webhookTransition x d.providerName body)).apply now x
    have hid : y.id = x.id := OrderUpdate.apply_id _ _ _
    have hy : y.paymentStatus = TARGET_STATE body.type := rfl
    have hmoved : t.orders = s.orders.update x.id
        ((OrderUpdate.transition (webhookTransition x d.providerName body)).patch now) := by
      rw [horders, Db.moveOrder, if_neg hpay]
    have hfound : t.orders.get? body.orderId = some y := by
      rw [hmoved, ← h.id, get?_update_self, h.id, h.found]
      rfl
    refine ⟨y, ⟨hevents ▸ h.fresh, h.parsed, hfound, htenants ▸ h.provider, ?_, ?_⟩, hid,
      fun now' => ⟨now, by rw [moveOrder_of_eq hy, horders]⟩⟩
    · rintro ⟨hcancelled, htarget⟩
      refine h.open' ⟨?_, htarget⟩
      have hstatus : nextOrderStatus x (TARGET_STATE body.type) = .cancelled := hcancelled
      rw [nextOrderStatus] at hstatus
      split at hstatus
      · cases hstatus
      · exact hstatus
    · rw [hy, assertPaymentTransition, if_pos rfl]

/-- What an attempt does after what the attempts before it have left. -/
theorem Begun.step {m m' : ObjectId → ℤ} {y : Order} {v : Db} (h : Begun d body x m s t)
    (hid : y.id = x.id)
    (hnext : ∀ now, ∃ now', (t.moveOrder d body now y).orders = (s.moveOrder d body now' x).orders)
    (hv : v = t ∨ v = t.moveOrder d body now y)
    (hshort : Short (Db.settle body.type y.id) m' v u) : Begun d body x (m' + m) s u := by
  have hv' : ({ v with orders := s.orders } : Db) = { t with orders := s.orders } := by
    rcases hv with rfl | rfl
    · rfl
    · rw [moveOrder_withOrders]
  have hrest := hshort.rest
  refine ⟨?_, h.short.trans (hv' ▸ ⟨?_, ?_, ?_⟩)⟩
  · have horders : u.orders = v.orders := (congrArg Db.orders hrest :)
    rcases hv with rfl | rfl
    · rw [horders]
      exact h.orders
    · obtain ⟨now', hnow'⟩ := hnext now
      exact .inr ⟨now', horders.trans hnow'⟩
  · rw [settle_withOrders _ _ u, settle_withOrders _ _ v, ← hid]
    exact hshort.reservations
  · rw [settle_withOrders _ _ u, settle_withOrders _ _ v, ← hid]
    exact hshort.products
  · rw [hrest]

/-- The part of a delivery up to its event, on a standalone server. -/
def applyWebhook (cfg : WebhookConfig) (d : Delivery) (eventId : String) (now : Time) :
    MongoM (Option (Order × WebhookBody)) := do
  match (← readWebhook cfg d eventId : Option (Order × WebhookBody)) with
  | none => return none
  | some (order, body) =>
    let updated ← webhookWork cfg d eventId order body now
    return some (updated, body)

/-- The notification and the answer. -/
def answerWebhook : Option (Order × WebhookBody) → MongoM WebhookResult
  | none => return .replay
  | some (updated, body) => do
    afterWebhook updated (TARGET_STATE body.type)
    return .order updated

theorem processWebhook_standalone (haccept : acceptDelivery cfg now d = .ok eventId) :
    processWebhook .standalone cfg d now =
      (applyWebhook cfg d eventId now).embed >>= fun applied => (answerWebhook applied).embed := by
  rw [processWebhook, haccept, applyWebhook, Prog.embed_bind]
  simp only [Prog.bind_def, Prog.bind_assoc]
  congr 1
  funext read
  match read with
  | none => rfl
  | some (order, body) =>
    simp only [← Prog.bind_def, Prog.embed_bind]
    simp only [Prog.bind_def, Prog.bind_assoc]
    congr 1
    funext updated
    show _ = (answerWebhook (some (updated, body))).embed
    exact (Prog.embed_bind (afterWebhook updated _) fun _ => pure (WebhookResult.order updated)).symm

theorem answerWebhook_succeeds (applied : Option (Order × WebhookBody)) :
    (answerWebhook applied).Succeeds := by
  match applied with
  | none => exact ⟨_, rfl⟩
  | some (updated, body) =>
    refine Prog.Succeeds.bind ?_ fun _ => ⟨_, rfl⟩
    exact Prog.Succeeds.catching _ fun _ => ⟨_, rfl⟩

theorem answerWebhook_issues (applied : Option (Order × WebhookBody)) :
    (answerWebhook applied).Issues DbOp.Quiet := by
  match applied with
  | none => trivial
  | some (updated, body) => exact (afterWebhook_issues _ _).bind fun _ => trivial

theorem answerWebhook_untouched (applied : Option (Order × WebhookBody))
    (φ : Faults (Mongo.tx ApiError)) (s : Db) :
    Untouched s ((answerWebhook applied).embed.run mongo.transactional φ s).2 := by
  refine Prog.Issues.run (I := Untouched s) (answerWebhook_issues applied).embed_single ?_ φ (.refl s)
  intro o ho v hv
  cases o with
  | op o => exact hv.trans (exec_untouched o ho v)
  | txn work => exact ho.elim

theorem readWebhook_halts (cfg : WebhookConfig) (d : Delivery) (eventId : String) :
    (readWebhook cfg d eventId).Halts mongo := by
  refine (halts_db _).bind fun event => ?_
  cases event with
  | some _ => trivial
  | none =>
    dsimp only
    split
    · trivial
    · refine (halts_db _).bind fun found => ?_
      cases found with
      | none => trivial
      | some order =>
        refine (halts_db _).bind fun tenant => ?_
        split
        · exact (halts_db _).bind fun _ => trivial
        · split
          · exact (halts_db _).bind fun _ => trivial
          · split <;> trivial

theorem settleWebhook_halts (cfg : WebhookConfig) (d : Delivery) (eventId : String)
    (order : ObjectId) (type : WebhookType) (current : Order) :
    (settleWebhook cfg d eventId order type current).Halts mongo := by
  rw [settleWebhook]
  split
  · exact (halts_db _).bind fun _ => (halts_db _).bind fun _ => trivial
  · exact (releaseOrderReservations_halts _ _).bind fun _ => (halts_db _).bind fun _ => trivial

theorem applyWebhook_halts (cfg : WebhookConfig) (d : Delivery) (eventId : String) (now : Time) :
    (applyWebhook cfg d eventId now).Halts mongo := by
  refine (readWebhook_halts cfg d eventId).bind fun read => ?_
  match read with
  | none => trivial
  | some (order, body) =>
    refine Prog.Halts.bind ?_ fun _ => trivial
    rw [webhookWork]
    split
    · refine (halts_db _).bind fun moved => ?_
      cases moved with
      | none => trivial
      | some transitioned => exact settleWebhook_halts _ _ _ _ _ _
    · exact settleWebhook_halts _ _ _ _ _ _

/-- Alone, a delivery that applies to its order is settled and recorded. -/
theorem eval_applyWebhook (now : Time) (h : Applies cfg d eventId s x body) :
    ∃ current, (applyWebhook cfg d eventId now).eval mongo s =
      (.ok (some (current, body)), ((s.moveOrder d body now x).settle body.type x.id).record
        (webhookEvent cfg d eventId x.id body.type)) := by
  obtain ⟨current, hwork⟩ := eval_webhookWork now h
  refine ⟨current, Prog.eval_bind_ok.2 ⟨some (x, body), s, h.eval, ?_⟩⟩
  exact Prog.eval_bind_ok.2 ⟨current, _, hwork, rfl⟩

theorem applyWebhook_reaches (h : Applies cfg d eventId s x body) {o : DbOp}
    (hreach : (applyWebhook cfg d eventId now).Reaches mongo s o t) :
    ∃ v, (v = s ∨ v = s.moveOrder d body now x) ∧
      Short (Db.settle body.type x.id) o.missing v t := by
  rcases Prog.reaches_bind.1 hreach with hreach | ⟨read, u, heval, hreach⟩
  · obtain ⟨hreads, rfl⟩ := (readWebhook_issues cfg d eventId).reaches (I := fun v => v = s)
      (fun o ho v hv => (exec_reads ho v).trans hv) rfl hreach
    have hmissing : o.missing = 0 := by
      cases o <;> first | rfl | exact hreads.elim
    exact ⟨t, .inl rfl, hmissing ▸ .refl t⟩
  · obtain ⟨hread, rfl⟩ := Prod.mk.inj (h.eval.symm.trans heval)
    obtain rfl := Except.ok.inj hread
    rcases Prog.reaches_bind.1 hreach with hreach | ⟨_, _, _, hreach⟩
    · exact webhookWork_reaches h hreach
    · exact hreach.elim

/-- An attempt that fails leaves its order and reservations on their way, short of the units that
the call it was struck at loses. -/
theorem Begun.attempt {m : ObjectId → ℤ} {φ : Faults (Mongo.tx ApiError)} {e : ApiError}
    (heventId : ∀ now eventId', acceptDelivery cfg now d = .ok eventId' → eventId' = eventId)
    (h : Applies cfg d eventId s x body) (hbegun : Begun d body x m s t)
    (hrun : (processWebhook .standalone cfg d now).run mongo.transactional φ t = (.error e, u)) :
    ((processWebhook .standalone cfg d now).struck mongo.transactional φ t = none ∧
        Begun d body x m s u) ∨
      ∃ o, (processWebhook .standalone cfg d now).struck mongo.transactional φ t = some (.op o) ∧
        Begun d body x (o.missing + m) s u := by
  cases haccept : acceptDelivery cfg now d with
  | error e' =>
    have hthrow : processWebhook .standalone cfg d now = .done (.error e') := by
      rw [processWebhook, haccept]
      rfl
    rw [hthrow] at hrun ⊢
    cases hrun
    exact .inl ⟨rfl, hbegun⟩
  | ok eventId' =>
    obtain rfl := heventId now eventId' haccept
    obtain ⟨y, hy, hid, hnext⟩ := hbegun.applies h
    rw [processWebhook_standalone haccept] at hrun ⊢
    obtain ⟨hrun, hstruck⟩ := Prog.run_bind_error
      (fun applied ψ v => (answerWebhook_succeeds applied).embed.run ψ v) hrun
    rw [hstruck]
    obtain ⟨-, heval⟩ | ⟨o, v, hsome, hreach, herr⟩ :=
      (applyWebhook_halts cfg d eventId' now).embed.run φ t
    · obtain ⟨current, hok⟩ := eval_applyWebhook now hy
      rw [hrun, Prog.eval_embed, hok] at heval
      cases heval
    · obtain ⟨-, rfl⟩ := Prod.mk.inj (hrun.symm.trans herr)
      obtain ⟨o', rfl, hreach'⟩ := Prog.reaches_embed.1 hreach
      obtain ⟨v, hv, hshort⟩ := applyWebhook_reaches hy hreach'
      exact .inr ⟨o', hsome, hbegun.step hid hnext hv hshort⟩

/-- The call that returns the units of a reservation. -/
def restockCall (r : InventoryReservation) : (Mongo.tx ApiError).Op := TxOp.op (DbOp.productRestock r)

def isRestock : (Mongo.tx ApiError).Op → Bool
  | TxOp.op (DbOp.productRestock _) => true
  | _ => false

/-- The units that strikes at these calls lose. -/
def lostUnits : List (Mongo.tx ApiError).Op → ObjectId → ℤ
  | [] => 0
  | TxOp.op o :: os => lostUnits os + o.missing
  | TxOp.txn _ :: os => lostUnits os

theorem Begun.failing {m : ObjectId → ℤ} {os : List (Mongo.tx ApiError).Op}
    (heventId : ∀ now eventId', acceptDelivery cfg now d = .ok eventId' → eventId' = eventId)
    (h : Applies cfg d eventId s x body) (hbegun : Begun d body x m s t)
    (hfail : Prog.Failing mongo.transactional (processWebhook .standalone cfg d) t os u) :
    Begun d body x (lostUnits os + m) s u := by
  induction hfail generalizing m with
  | nil t =>
    rw [lostUnits, zero_add]
    exact hbegun
  | cons hrun _ ih =>
    obtain ⟨hnone, hbegun⟩ | ⟨o, hsome, hbegun⟩ := hbegun.attempt heventId h hrun
    · rw [hnone]
      exact ih hbegun
    · rw [hsome]
      show Begun d body x (lostUnits _ + o.missing + m) s _
      rw [add_assoc]
      exact ih hbegun

/-- What a delivery that is answered with success has done, after attempts that failed. -/
theorem Begun.answered {m : ObjectId → ℤ} {φ : Faults (Mongo.tx ApiError)} {result : WebhookResult}
    (heventId : ∀ now eventId', acceptDelivery cfg now d = .ok eventId' → eventId' = eventId)
    (h : Applies cfg d eventId s x body) (hbegun : Begun d body x m s t)
    (hrun : (processWebhook .standalone cfg d now).run mongo.transactional φ t = (.ok result, u)) :
    (∃ now', u.orders = (s.moveOrder d body now' x).orders) ∧
      u.reservations = (s.settle body.type x.id).reservations ∧
      addStock m u.products = (s.settle body.type x.id).products ∧
      u.paymentEvents = s.paymentEvents ++ [webhookEvent cfg d eventId x.id body.type] := by
  cases haccept : acceptDelivery cfg now d with
  | error e' =>
    have hthrow : processWebhook .standalone cfg d now = .done (.error e') := by
      rw [processWebhook, haccept]
      rfl
    rw [hthrow] at hrun
    cases hrun
  | ok eventId' =>
    obtain rfl := heventId now eventId' haccept
    obtain ⟨y, hy, hid, hnext⟩ := hbegun.applies h
    rw [processWebhook_standalone haccept] at hrun
    obtain ⟨applied, v, ψ, hok, hanswer⟩ := Prog.run_bind_ok hrun
    obtain ⟨-, heval⟩ := (applyWebhook_halts cfg d eventId' now).embed.run_ok hok
    obtain ⟨current, happly⟩ := eval_applyWebhook now hy
    rw [Prog.eval_embed, happly] at heval
    obtain ⟨-, rfl⟩ := Prod.mk.inj heval
    -- The notification leaves all of it alone.
    have hkeep := answerWebhook_untouched applied ψ
      (((t.moveOrder d body now y).settle body.type y.id).record
        (webhookEvent cfg d eventId' y.id body.type))
    rw [hanswer] at hkeep
    obtain ⟨horders, hreservations, hproducts, hevents⟩ := hkeep
    have hshort := hbegun.short
    have hrest := hshort.rest
    have hsettled : ∀ v, v = t.moveOrder d body now y →
        ({ v with orders := s.orders } : Db) = { t with orders := s.orders } := by
      rintro v rfl
      rw [moveOrder_withOrders]
    have hsettle := settle_withOrders body.type x.id (t.moveOrder d body now y) s.orders
    rw [hsettled _ rfl] at hsettle
    refine ⟨?_, ?_, ?_, ?_⟩
    · obtain ⟨now', hnow'⟩ := hnext now
      refine ⟨now', horders.trans (Eq.trans ?_ hnow')⟩
      exact settle_orders _ _ _
    · rw [hreservations, ← hshort.reservations, hsettle, hid]
      rfl
    · rw [hproducts, ← hshort.products, hsettle, hid]
      rfl
    · rw [hevents, ← hid]
      show (Db.settle body.type y.id _).paymentEvents ++ _ = _
      rw [settle_paymentEvents, moveOrder_paymentEvents, (congrArg Db.paymentEvents hrest :)]

/-! ## Redelivery -/

theorem DbOp.missing_nonneg (o : DbOp) (p : ObjectId) : 0 ≤ o.missing p := by
  cases o with
  | productRestock r =>
    by_cases hp : p = r.product
    · subst hp
      simp [DbOp.missing]
    · simp [DbOp.missing, hp]
  | _ => exact le_refl 0

theorem DbOp.missing_eq_zero {o : DbOp} {p : ObjectId} :
    o.missing p = 0 ↔ ∀ r, o = .productRestock r → r.product ≠ p := by
  cases o with
  | productRestock r =>
    by_cases hp : p = r.product
    · subst hp
      simp [DbOp.missing]
    · simp [DbOp.missing, hp, Ne.symm hp]
  | _ => exact ⟨fun _ _ => nofun, fun _ => rfl⟩

theorem lostUnits_nonneg (os : List (Mongo.tx ApiError).Op) (p : ObjectId) : 0 ≤ lostUnits os p := by
  induction os with
  | nil => exact le_refl 0
  | cons o os ih =>
    cases o with
    | op o => exact add_nonneg ih (o.missing_nonneg p)
    | txn work => exact ih

/-- Units of a product are lost just where a return of its units was struck. -/
theorem lostUnits_eq_zero {os : List (Mongo.tx ApiError).Op} {p : ObjectId} :
    lostUnits os p = 0 ↔ ∀ r, restockCall r ∈ os → r.product ≠ p := by
  induction os with
  | nil => exact ⟨fun _ _ => nofun, fun _ => rfl⟩
  | cons o os ih =>
    cases o with
    | op o =>
      have hsum : lostUnits (TxOp.op o :: os) p = 0 ↔ lostUnits os p = 0 ∧ o.missing p = 0 := by
        have h := lostUnits_nonneg os p
        have h' := o.missing_nonneg p
        show lostUnits os p + o.missing p = 0 ↔ _
        omega
      have hmissing := DbOp.missing_eq_zero (o := o) (p := p)
      rw [hsum, ih]
      constructor
      · rintro ⟨hrest, hhead⟩ r hr
        rcases List.mem_cons.1 hr with hr | hr
        · cases hr
          exact hmissing.1 hhead r rfl
        · exact hrest r hr
      · intro h
        refine ⟨fun r hr => h r (List.mem_cons_of_mem _ hr), hmissing.2 fun r hr => ?_⟩
        exact h r (hr ▸ List.mem_cons_self)
    | txn work =>
      show lostUnits os p = 0 ↔ _
      rw [ih]
      constructor
      · intro h r hr
        rcases List.mem_cons.1 hr with hr | hr
        · cases hr
        · exact h r hr
      · exact fun h r hr => h r (List.mem_cons_of_mem _ hr)

/-- The time of the compare-and-set is all that differs. -/
theorem moveOrder_timeless (s : Db) (now now' : Time) :
    (s.moveOrder d body now x).orders.docs.map Order.timeless =
      (s.moveOrder d body now' x).orders.docs.map Order.timeless := by
  rw [Db.moveOrder, Db.moveOrder]
  split
  · rfl
  · simp only [update, Collection.modify, List.map_map]
    refine List.map_congr_left fun y _ => ?_
    by_cases hy : y.id = x.id
    · simp [Keyed.key, hy, OrderUpdate.patch, OrderUpdate.apply, Order.timeless]
    · simp [Keyed.key, hy]

theorem settle_products (type : WebhookType) (k : ObjectId) (s : Db) :
    ∃ units, (s.settle type k).products = addStock units s.products := by
  rw [Db.settle]
  split
  · exact ⟨0, (addStock_zero _).symm⟩
  · exact ⟨_, rfl⟩

theorem acceptDelivery_eventId (h : acceptDelivery cfg now d = .ok eventId) :
    d.eventId.filter (· ≠ "") = some eventId := by
  rw [acceptDelivery] at h
  split at h
  · cases h
  · next hid =>
    split at h
    · cases h
    · split at h
      · cases h
        exact hid
      · cases h

/-- A delivery that is answered with its order has applied to it. -/
theorem applies_of_answered {result : Order}
    (h : (processWebhook .standalone cfg d now).eval mongo.transactional s = (.ok (.order result), t)) :
    ∃ eventId x body, acceptDelivery cfg now d = .ok eventId ∧ Applies cfg d eventId s x body := by
  cases haccept : acceptDelivery cfg now d with
  | error e =>
    rw [processWebhook, haccept] at h
    cases h
  | ok eventId =>
    rw [processWebhook_standalone haccept] at h
    obtain ⟨applied, u, happly, hanswer⟩ := Prog.eval_bind_ok.1 h
    rw [Prog.eval_embed] at happly hanswer
    obtain ⟨read, v, hread, hwork⟩ := Prog.eval_bind_ok.1 happly
    obtain _ | ⟨x, body⟩ := read
    · cases hwork
      cases hanswer
    · exact ⟨eventId, x, body, rfl, Applies.of_eval hread⟩

/-- On a standalone server, for a valid delivery and any attempts at it that fail: an attempt that
is accepted and not interrupted is answered with success; and the attempt that is answered leaves
the order, reservations, stock and the one event that an uninterrupted delivery leaves, just when no
attempt was struck between the release of a reservation and the return of its units. -/
theorem webhook_redelivered {cfg : WebhookConfig} {d : Delivery} {now : Time} {s t done : Db}
    {result : Order} {os : List (Mongo.tx ApiError).Op}
    (hvalid : (processWebhook .standalone cfg d now).eval mongo.transactional s =
      (.ok (.order result), done))
    (hfail : Prog.Failing mongo.transactional (processWebhook .standalone cfg d) s os t) :
    (∃ event, done.paymentEvents = s.paymentEvents ++ [event]) ∧
    (∀ now' eventId, acceptDelivery cfg now' d = .ok eventId → ∃ result' u,
      (processWebhook .standalone cfg d now').eval mongo.transactional t = (.ok result', u)) ∧
    ∀ now' φ result' u,
      (processWebhook .standalone cfg d now').run mongo.transactional φ t = (.ok result', u) →
      ((SameOutcome done u ∧ u.paymentEvents = done.paymentEvents) ↔
        ∀ r, restockCall r ∈ os → s.products.get? r.product = none) := by
  obtain ⟨eventId, x, body, haccept, happlies⟩ := applies_of_answered hvalid
  have heventId : ∀ now' eventId', acceptDelivery cfg now' d = .ok eventId' → eventId' = eventId :=
    fun now' eventId' h => Option.some_inj.1
      ((acceptDelivery_eventId h).symm.trans (acceptDelivery_eventId haccept))
  have hbegun := Begun.failing heventId happlies (.refl s) hfail
  rw [add_zero] at hbegun
  rw [← Prog.run_never] at hvalid
  obtain ⟨⟨nowDone, hdoneOrders⟩, hdoneReservations, hdoneProducts, hdoneEvents⟩ :=
    Begun.answered heventId happlies (.refl s) hvalid
  rw [addStock_zero] at hdoneProducts
  refine ⟨⟨_, hdoneEvents⟩, fun now' eventId' haccept' => ?_, fun now' φ result' u hrun => ?_⟩
  · obtain rfl := heventId now' eventId' haccept'
    obtain ⟨y, hy, -, -⟩ := hbegun.applies happlies
    obtain ⟨current, hok⟩ := eval_applyWebhook now' hy
    obtain ⟨answer, v, hanswer⟩ := (answerWebhook_succeeds (some (current, body))).embed.eval
      (M := mongo.transactional) (((t.moveOrder d body now' y).settle body.type y.id).record
        (webhookEvent cfg d eventId' y.id body.type))
    rw [processWebhook_standalone haccept']
    exact ⟨answer, v, Prog.eval_bind_ok.2 ⟨_, _, (Prog.eval_embed mongo _ t).trans hok, hanswer⟩⟩
  · obtain ⟨⟨nowLast, horders⟩, hreservations, hproducts, hevents⟩ :=
      hbegun.answered heventId happlies hrun
    -- Only the stock can differ, and it differs by the units that were lost.
    have hsame : (SameOutcome done u ∧ u.paymentEvents = done.paymentEvents) ↔
        u.products = done.products := by
      refine ⟨fun h => h.1.products, fun h => ⟨⟨?_, ?_, h⟩, hevents.trans hdoneEvents.symm⟩⟩
      · rw [horders, hdoneOrders]
        exact moveOrder_timeless s nowLast nowDone
      · exact hreservations.trans hdoneReservations.symm
    obtain ⟨units, hunits⟩ := settle_products body.type x.id s
    have hknown : ∀ p, (u.products.get? p).isSome ↔ (s.products.get? p).isSome := by
      intro p
      have hget := congrArg (fun c => (Collection.get? c p).isSome) (hproducts.trans hunits)
      simpa [get?_addStock] using hget
    have hlost : u.products = done.products ↔ addStock (lostUnits os) u.products = u.products := by
      rw [hproducts, ← hdoneProducts, eq_comm]
    rw [hsame, hlost, addStock_eq_self]
    constructor
    · intro h r hr
      by_contra hsome
      obtain ⟨y, hy⟩ := Option.isSome_iff_exists.1
        ((hknown r.product).2 (Option.isSome_iff_ne_none.2 hsome))
      exact lostUnits_eq_zero.1 (h _ y hy) r hr rfl
    · intro h p y hy
      refine lostUnits_eq_zero.2 fun r hr hp => ?_
      have hsome := (hknown p).1 (by rw [hy]; rfl)
      rw [← hp, h r hr] at hsome
      cases hsome

/-- The report that the payment of the sample order has failed. -/
def failedDelivery : Delivery := ⟨some "73302e46", some "0", none, some "e", "F"⟩

def failedPayment (now : Time) : Handler WebhookResult :=
  processWebhook .standalone (sampleConfig .standalone).webhook failedDelivery now

/-- What an attempt leaves that is struck at the call at this position. -/
def interruptedDb (n : Nat) : Db :=
  ((failedPayment 1).run mongo.transactional (.at n) orderedDb).2

theorem exists_ok {ε α : Type} {x : Except ε α} {p : α → Bool} (h : x.toOption.any p) :
    ∃ a, x = .ok a ∧ p a := by
  cases x with
  | ok a => exact ⟨a, rfl, h⟩
  | error e => cases h

/-- An attempt that is struck when it reads the reservations to release is made good. -/
theorem webhook_redelivered_beforeRelease :
    ∃ result u, (failedPayment 2).eval mongo.transactional (interruptedDb 4) = (.ok result, u) ∧
      SameOutcome ((failedPayment 1).eval mongo.transactional orderedDb).2 u := by
  obtain ⟨answer, hanswer, hanswered⟩ := exists_ok (by decide +kernel :
    ((failedPayment 1).eval mongo.transactional orderedDb).1.toOption.any (· != .replay))
  obtain ⟨result, rfl⟩ : ∃ result, answer = .order result := by
    cases answer with
    | replay => cases hanswered
    | order result => exact ⟨result, rfl⟩
  obtain ⟨e, herror⟩ : ∃ e, ((failedPayment 1).run mongo.transactional (.at 4) orderedDb).1 =
      .error e := by
    have hnone : ((failedPayment 1).run mongo.transactional (.at 4) orderedDb).1.toOption.isNone := by
      decide +kernel
    cases hrun : ((failedPayment 1).run mongo.transactional (.at 4) orderedDb).1 with
    | error e => exact ⟨e, rfl⟩
    | ok result => simp [hrun, Except.toOption] at hnone
  have hstruck : ((failedPayment 1).struck mongo.transactional (.at 4) orderedDb).all (!isRestock ·) := by
    decide +kernel
  have hfail : Prog.Failing mongo.transactional failedPayment orderedDb _ (interruptedDb 4) :=
    .cons (Prod.ext herror rfl) (.nil _)
  obtain ⟨-, hretry, hlast⟩ := webhook_redelivered (Prod.ext hanswer rfl) hfail
  obtain ⟨result', u, heval⟩ := hretry 2 "e" (by decide +kernel)
  refine ⟨result', u, heval, ((hlast 2 .never result' u ?_).2 fun r hr => ?_).1⟩
  · rw [Prog.run_never]
    exact heval
  · rw [List.append_nil, Option.mem_toList] at hr
    rw [Option.mem_def.1 hr] at hstruck
    cases hstruck

/-- An attempt that is struck between the release of the reservation and the return of its units:
redelivered with success, it leaves two units of five neither on sale nor held. -/
theorem webhook_redelivered_counterexample :
    ((failedPayment 1).run mongo.transactional (.at 6) orderedDb).1.toOption.isNone ∧
      ((failedPayment 2).eval mongo.transactional (interruptedDb 6)).1.toOption.isSome ∧
      ¬ SameOutcome ((failedPayment 1).eval mongo.transactional orderedDb).2
        ((failedPayment 2).eval mongo.transactional (interruptedDb 6)).2 := by
  have hstock : ((failedPayment 2).eval mongo.transactional (interruptedDb 6)).2.products ≠
      ((failedPayment 1).eval mongo.transactional orderedDb).2.products := by
    decide +kernel
  exact ⟨by decide +kernel, by decide +kernel, fun h => hstock h.products⟩

end Ecommerce
