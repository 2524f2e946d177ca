import Ecommerce.Checkout.Notes
import Ecommerce.Inventory.Release
import Ecommerce.Orders.PaidOnly

/-!
# Stale reservations

A sweep skips a reservation whose units are still held for an order that no longer waits for its
payment. On a replica set the transactions that end the wait settle the reservations too, and a
sweep that ends it owes their release until it is done. Without failures and once all is done, there
are no such reservations.
-/

namespace Ecommerce

open Effect Effect.Collection

/-- The order waits for its payment. -/
def Order.Waiting (o : Order) : Prop := o.status = .pending ∧ o.paymentStatus = .unpaid

namespace Db

/-- The order is there and waits for its payment. -/
def Awaiting (s : Db) (k : ObjectId) : Prop := ∃ o, s.orders.get? k = some o ∧ o.Waiting

/-- The reservation holds units for an order that does not wait for its payment. -/
def Stale (s : Db) (r : InventoryReservation) : Prop :=
  r ∈ s.reservations.docs ∧ r.status = .reserved ∧ ∃ k, r.order = some k ∧ ¬ s.Awaiting k

/-- No order stops waiting, and what is reserved for an order was so before, or the order waits. -/
structure Calm (s t : Db) : Prop where
  waits : ∀ k, s.Awaiting k → t.Awaiting k
  rows : ∀ r ∈ t.reservations.docs, r.status = .reserved → ∀ k, r.order = some k →
    r ∈ s.reservations.docs ∨ t.Awaiting k

/-- What is stale was so before. -/
def NoStaler (s t : Db) : Prop := ∀ r, t.Stale r → s.Stale r

end Db

section Calm

variable {s t u : Db}

theorem Db.Calm.noStaler (h : s.Calm t) : s.NoStaler t := by
  rintro r ⟨hr, hstatus, k, hk, hwait⟩
  have hrs : r ∈ s.reservations.docs := (h.rows r hr hstatus k hk).resolve_right hwait
  exact ⟨hrs, hstatus, k, hk, fun hs => hwait (h.waits k hs)⟩

theorem Db.Calm.trans (h : s.Calm t) (h' : t.Calm u) : s.Calm u where
  waits k hk := h'.waits k (h.waits k hk)
  rows r hr hstatus k hk := by
    rcases h'.rows r hr hstatus k hk with hrt | hwait
    · exact (h.rows r hrt hstatus k hk).imp_right (h'.waits k)
    · exact .inr hwait

/-- The orders stay as they are, and nothing is reserved anew. -/
theorem Db.Calm.of_orders (horders : t.orders = s.orders)
    (hrows : ∀ r ∈ t.reservations.docs, r.status = .reserved → ∀ k, r.order = some k →
      r ∈ s.reservations.docs) : s.Calm t where
  waits k := by
    rintro ⟨o, ho, h⟩
    exact ⟨o, horders ▸ ho, h⟩
  rows r hr hstatus k hk := .inl (hrows r hr hstatus k hk)

theorem Db.Calm.of_eq (horders : t.orders = s.orders) (hrows : t.reservations = s.reservations) :
    s.Calm t :=
  .of_orders horders fun _ hr _ _ _ => hrows ▸ hr

theorem Db.Calm.refl (s : Db) : s.Calm s := .of_eq rfl rfl

theorem Db.NoStaler.refl (s : Db) : s.NoStaler s := fun _ h => h

/-- Rows that take a status other than reserved do not become stale. -/
theorem mem_modify_reserved {c : Collection InventoryReservation} {p : InventoryReservation → Bool}
    {status : ReservationStatus} (hne : status ≠ .reserved) {r : InventoryReservation}
    (hr : r ∈ (c.modify p (InventoryReservation.setStatus status)).docs) (hstatus : r.status = .reserved) :
    r ∈ c.docs ∧ p r = false := by
  obtain ⟨x, hx, rfl⟩ := mem_modify.1 hr
  cases hp : p x with
  | true =>
    rw [hp, if_pos rfl, InventoryReservation.setStatus_status] at hstatus
    exact absurd hstatus hne
  | false =>
    rw [if_neg (by simp)]
    exact ⟨hx, hp⟩

end Calm

/-! ## Calls -/

/-- The update does not end the wait of the orders that it accepts. -/
def OrderUpdate.KeepsWaiting (u : OrderUpdate) : Prop :=
  ∀ now o, u.guard o → o.Waiting → (u.apply now o).Waiting

theorem keepsWaiting_requestRefund (owned : OrderFilter) (windowStart : Time) (reason : String) :
    (OrderUpdate.requestRefund owned windowStart reason).KeepsWaiting := fun _ _ _ h => h

theorem keepsWaiting_advance {id : ObjectId} {behind : List OrderStatus} {status : OrderStatus}
    (hbehind : .pending ∉ behind) : (OrderUpdate.advance id behind status).KeepsWaiting := by
  intro now o hguard hwaiting
  have hmem : o.status ∈ behind := by simpa [OrderUpdate.guard] using hguard
  exact absurd (hwaiting.1 ▸ hmem) hbehind

/-- Calls that leave stale reservations alone, from a checkout that has created this order. -/
def DbOp.Calm (created : Option ObjectId) : DbOp → Prop
  | .orderUpdate u _ => u.KeepsWaiting
  | .reservationRelease .. | .reservationUndo _ | .orderDelete _ => False
  | .reservationLink _ k => created = some k
  | _ => True

theorem DbOp.Quiet.calm {o : DbOp} (h : o.Quiet) : o.Calm none := by
  cases o <;> trivial

theorem exec_orderUpdate_calm {u : OrderUpdate} (hu : u.KeepsWaiting) (now : Time) (s : Db) :
    s.Calm (mongo.exec (.orderUpdate u now) s).2 := by
  obtain ⟨o, ho, hguard, heq⟩ | ⟨-, heq⟩ := exec_orderUpdate u now s
  · rw [heq]
    refine ⟨fun k hk => ?_, fun r hr _ _ _ => .inl hr⟩
    obtain ⟨x, hx, hwaiting⟩ := hk
    have hget : (s.orders.update u.id (u.patch now)).get? k =
        if k = u.id then (s.orders.get? k).map (u.patch now).run else s.orders.get? k :=
      get?_update _ _ _ _
    by_cases hid : k = u.id
    · subst hid
      obtain rfl := Option.some_inj.1 (ho.symm.trans hx)
      rw [if_pos rfl, ho] at hget
      exact ⟨u.apply now o, hget, hu now o hguard hwaiting⟩
    · rw [if_neg hid] at hget
      exact ⟨x, hget.trans hx, hwaiting⟩
  · rw [heq]
    exact .refl s

theorem exec_calm {created : Option ObjectId} {o : DbOp} (ho : o.Calm created) {s : Db}
    (hcreated : ∀ k, created = some k → s.Awaiting k) : s.Calm (mongo.exec o s).2 := by
  cases o with
  | orderUpdate u now =>
    exact exec_orderUpdate_calm ho now s
  | orderCreate draft now =>
    refine ⟨fun k hk => ?_, fun r hr _ _ _ => .inl hr⟩
    obtain ⟨x, hx, h⟩ := hk
    exact ⟨x, (get?_insert _ _ (draft.key_order _ now) _).trans ((if_neg (get?_lt hx).ne).trans hx), h⟩
  | reservationCreate draft =>
    refine .of_orders rfl fun r hr _ k hk => ?_
    rcases (mem_insert (h := draft.key_reservation _)).1 hr with hr | rfl
    · exact hr
    · cases hk
  | reservationLink ids order =>
    refine ⟨fun k hk => hk, fun r hr _ k hk => ?_⟩
    obtain ⟨x, hx, rfl⟩ := mem_modify.1 hr
    by_cases hids : ids.contains x.id
    · rw [if_pos hids] at hk
      obtain rfl : order = k := Option.some_inj.1 hk
      exact .inr (hcreated order ho)
    · rw [if_neg hids]
      exact .inl hx
  | reservationsCommit order =>
    exact .of_orders rfl fun r hr hstatus _ _ => (mem_modify_reserved (by decide) hr hstatus).1
  | reservationRelease id status fromStatuses => exact ho.elim
  | reservationUndo id => exact ho.elim
  | orderDelete id => exact ho.elim
  | productReserve id tenant quantity =>
    simp only [mongo, Db.exec]
    repeat' split
    all_goals exact .of_eq rfl rfl
  | cartClear id version =>
    simp only [mongo, Db.exec]
    repeat' split
    all_goals exact .of_eq rfl rfl
  | couponClaim id usageLimit =>
    simp only [mongo, Db.exec]
    repeat' split
    all_goals exact .of_eq rfl rfl
  | couponUnclaim id =>
    simp only [mongo, Db.exec]
    repeat' split
    all_goals exact .of_eq rfl rfl
  | redemptionCreate redemption =>
    simp only [mongo, Db.exec]
    split
    all_goals exact .of_eq rfl rfl
  | paymentCreateEvent event =>
    simp only [mongo, Db.exec]
    split
    all_goals exact .of_eq rfl rfl
  | shipmentUpsert shipment existing =>
    simp only [mongo, Db.exec]
    repeat' split
    all_goals exact .of_eq rfl rfl
  | _ => exact .of_eq rfl rfl

/-! ## Transactions -/

/-- The order that a checkout has created. -/
def createdMemo : Memo Mongo ApiError (Option ObjectId) where
  note
    | .orderCreate _ _, .ok (order : Order), _ => some order.id
    | _, _, created => created
  may o created := o.Calm created
  allows _ _ := True

section Checkout

variable {α β : Type} {P : Option ObjectId → Prop}

/-- A step of checkout that takes the memo from `P` to `Q`, or throws. -/
abbrev CheckoutM.Makes (m : CheckoutM α) (P : Option ObjectId → Prop)
    (Q : α → Option ObjectId → Prop) : Prop :=
  m.Notes createdMemo (fun _ => P) (fun a _ => Q a) fun _ _ => True

theorem CheckoutM.Makes.bind {m : CheckoutM α} {f : α → CheckoutM β} {Q : α → Option ObjectId → Prop}
    {R : β → Option ObjectId → Prop} (h : m.Makes P Q) (hf : ∀ a, (f a).Makes (Q a) R) :
    (m >>= f).Makes P R := CheckoutM.Notes.bind h hf

theorem makes_unnoted {o : DbOp} (h : createdMemo.Unnoted o) : (attempt (db o)).Makes P fun _ => P :=
  .unnoted (issues_db h) (fun _ _ _ h => h) fun _ _ _ => trivial

theorem makes_pushUndo (o : DbOp) : (pushUndo o).Makes P fun _ => P := .pushUndo fun _ _ h => h

theorem DbOp.Reads.createdMemo_unnoted {o : DbOp} (h : o.Reads) : createdMemo.Unnoted o := by
  intro g
  cases o <;> first | exact ⟨trivial, fun _ => rfl⟩ | exact h.elim

theorem reserveItems_makes (req : AuthedRequest) (expiresAt : Time) (items : List CartItem)
    (acc : CheckoutLines) : (reserveItems req expiresAt items acc).Makes P fun _ => P := by
  induction items generalizing acc with
  | nil => exact .pure fun _ _ h => h
  | cons item rest ih =>
    refine CheckoutM.Makes.bind (Q := fun _ => P) ?_ fun acc' => ih acc'
    refine CheckoutM.Makes.bind (makes_unnoted fun _ => ⟨trivial, fun _ => rfl⟩) fun product => ?_
    cases product with
    | none => exact .throw fun _ _ _ => trivial
    | some product =>
      refine (makes_pushUndo _).bind fun _ => ?_
      refine CheckoutM.Makes.bind (makes_unnoted fun _ => ⟨trivial, fun _ => rfl⟩) fun reservation => ?_
      exact (makes_pushUndo _).bind fun _ => .pure fun _ _ h => h

theorem claimCoupon_makes (coupon : Coupon) : (claimCoupon coupon).Makes P fun _ => P := by
  refine CheckoutM.Makes.bind (makes_unnoted fun _ => ⟨trivial, fun _ => rfl⟩) fun claimed => ?_
  cases claimed with
  | true => exact makes_pushUndo _
  | false => exact .throw fun _ _ _ => trivial

theorem placeOrder_makes (limits : Limits) (req : AuthedRequest) (value : CheckoutInput) (now : Time)
    (cart : Cart) : (placeOrder limits req value now cart).Makes (fun _ => True) fun _ _ => True := by
  unfold placeOrder
  refine (reserveItems_makes req _ cart.items _).bind fun lines => ?_
  refine CheckoutM.Makes.bind (Q := fun _ _ => True) (.unnoted ?_ (fun _ _ _ h => h)
    fun _ _ _ => trivial) fun outcome => ?_
  · exact (validateCouponForUser_issues _ _ _ _ _).mono fun _ h => h.createdMemo_unnoted
  refine CheckoutM.Makes.bind (.forM claimCoupon_makes) fun _ => ?_
  refine CheckoutM.Makes.bind (Q := fun (order : Order) created => created = some order.id)
    (.call fun undo g _ => ⟨trivial, fun r _ => ?_⟩) fun order => ?_
  · cases r with
    | ok order => exact rfl
    | error e => trivial
  refine (makes_pushUndo _).bind fun _ => ?_
  refine CheckoutM.Makes.bind (Q := fun _ _ => True) (.call fun undo g hg => ⟨hg, fun r _ => ?_⟩)
    fun _ => ?_
  · cases r <;> trivial
  refine CheckoutM.Makes.bind (.forM fun coupon => makes_unnoted fun _ => ⟨trivial, fun _ => rfl⟩)
    fun _ => ?_
  refine CheckoutM.Makes.bind (makes_unnoted fun _ => ⟨trivial, fun _ => rfl⟩) fun _ => ?_
  exact .pure fun _ _ h => h

theorem executeCheckout_createdMemo (limits : Limits) (req : AuthedRequest) (value : CheckoutInput)
    (now : Time) :
    createdMemo.Tracks (fun _ _ => True) (executeCheckout limits req value now true) none := by
  have hsteps : (checkoutSteps limits req value now).Makes (fun _ => True) fun _ _ => True := by
    refine CheckoutM.Makes.bind (makes_unnoted fun _ => ⟨trivial, fun _ => rfl⟩) fun found => ?_
    cases found with
    | none => exact .throw fun _ _ _ => trivial
    | some cart =>
      dsimp only
      split
      · exact .throw fun _ _ _ => trivial
      · exact placeOrder_makes limits req value now cart
  refine Memo.Tracks.bind ((hsteps [] _ trivial).weaken ?_)
  rintro r g ⟨x, undo, rfl, hx⟩
  cases x <;> trivial

theorem exec_createdMemo {s : Db} (o : DbOp) (created : Option ObjectId) (t : Db)
    (ho : createdMemo.may o created) (h : s.Calm t ∧ ∀ k, created = some k → t.Awaiting k) :
    s.Calm (mongo.exec o t).2 ∧
      ∀ k, createdMemo.note o (mongo.exec o t).1 created = some k → (mongo.exec o t).2.Awaiting k := by
  have hstep : t.Calm (mongo.exec o t).2 := exec_calm ho h.2
  refine ⟨h.1.trans hstep, ?_⟩
  cases o with
  | orderCreate draft now =>
    intro k hk
    obtain rfl : t.orders.next = k := Option.some_inj.1 hk
    exact ⟨_, get?_insert_next _ _ (draft.key_order _ now), rfl, rfl⟩
  | _ => exact fun k hk => hstep.waits k (h.2 k hk)

/-- A checkout links what it has reserved to an order that waits for its payment. -/
theorem executeCheckout_calm (limits : Limits) (req : AuthedRequest) (value : CheckoutInput)
    (now : Time) (s : Db) : s.Calm ((executeCheckout limits req value now true).eval mongo s).2 := by
  have hstart : s.Calm s ∧ ∀ k, (none : Option ObjectId) = some k → s.Awaiting k :=
    ⟨.refl s, fun k hk => by cases hk⟩
  obtain ⟨g, -, hcalm, -⟩ := (executeCheckout_createdMemo limits req value now).eval (M := mongo)
    (fun _ _ => trivial) exec_createdMemo hstart
  exact hcalm

end Checkout

/-- What follows a transaction's updates. -/
theorem Db.NoStaler.then {α : Type} {s t : Db} (h : s.NoStaler t) {p : MongoM α}
    (hp : p.Issues (DbOp.Calm none)) : s.NoStaler (p.eval mongo t).2 := by
  have hcalm : t.Calm (p.eval mongo t).2 :=
    Prog.Issues.eval (M := mongo) (I := fun x => t.Calm x) hp
      (fun o ho x hx => hx.trans (exec_calm ho fun k hk => by cases hk)) (.refl t)
  exact fun r hr => h r (hcalm.noStaler r hr)

/-- Other orders are as they were, and nothing is reserved for this one. -/
theorem Db.NoStaler.of_settled {k : ObjectId} {s t : Db}
    (horders : ∀ j, j ≠ k → t.orders.get? j = s.orders.get? j)
    (hrows : ∀ r ∈ t.reservations.docs, r.status = .reserved →
      r ∈ s.reservations.docs ∧ r.order ≠ some k) : s.NoStaler t := by
  rintro r ⟨hr, hstatus, j, hj, hwait⟩
  obtain ⟨hrs, hne⟩ := hrows r hr hstatus
  refine ⟨hrs, hstatus, j, hj, ?_⟩
  rintro ⟨o, ho, hwaiting⟩
  have hjk : j ≠ k := fun h => hne (h ▸ hj)
  exact hwait ⟨o, (horders j hjk).trans ho, hwaiting⟩

section Works

variable {α : Type} {k : ObjectId} {s t : Db}
variable (horders : ∀ j, j ≠ k → t.orders.get? j = s.orders.get? j)
  (hrows : t.reservations = s.reservations)

include horders hrows

theorem release_noStaler {f : Nat → MongoM α} (hf : ∀ n, (f n).Issues (DbOp.Calm none)) :
    s.NoStaler ((releaseOrderReservations k .released >>= f).eval mongo t).2 := by
  rw [Prog.bind_def, Prog.eval_bind, eval_releaseOrderReservations (by decide)]
  have hreleased : s.NoStaler (t.releaseOrder k .released) := by
    refine .of_settled horders fun r hr hstatus => ?_
    obtain ⟨hrt, hholds⟩ := mem_modify_reserved (by decide) hr hstatus
    refine ⟨hrows ▸ hrt, fun hk => ?_⟩
    simp [Db.holdsFor, hk, InventoryReservation.Active, ReservationStatus.Active, hstatus] at hholds
  exact hreleased.then (hf _)

theorem commit_noStaler {f : Unit → MongoM α} (hf : (f ()).Issues (DbOp.Calm none)) :
    s.NoStaler ((db (.reservationsCommit k) >>= f).eval mongo t).2 := by
  have hcommitted : s.NoStaler (mongo.exec (.reservationsCommit k) t).2 := by
    refine .of_settled horders fun r hr hstatus => ?_
    obtain ⟨hrt, hnot⟩ := mem_modify_reserved (by decide) hr hstatus
    exact ⟨hrows ▸ hrt, fun hk => by simp [hk, hstatus] at hnot⟩
  exact hcommitted.then hf

theorem finishCancel_noStaler {cancelled : Order} (hid : cancelled.id = k) (tenant : String)
    (refundOpened : Bool) :
    s.NoStaler ((finishCancel tenant cancelled refundOpened).eval mongo t).2 := by
  subst hid
  refine release_noStaler horders hrows fun _ => (issues_db trivial).bind fun _ => ?_
  cases refundOpened with
  | false => trivial
  | true => exact (issues_db trivial).bind fun _ => trivial

theorem settleWebhook_noStaler (cfg : WebhookConfig) (d : Delivery) (eventId : String)
    (type : WebhookType) (current : Order) :
    s.NoStaler ((settleWebhook cfg d eventId k type current).eval mongo t).2 := by
  rw [settleWebhook]
  split
  · exact commit_noStaler horders hrows ((issues_db trivial).bind fun _ => trivial)
  · exact release_noStaler horders hrows fun _ => (issues_db trivial).bind fun _ => trivial

end Works

section Updates

variable {α : Type} {s : Db}

/-- An update of an order, and what settles it. -/
theorem update_noStaler {u : OrderUpdate} {now : Time} {f : Option Order → MongoM α}
    (hsome : ∀ o t, o.id = u.id → t.reservations = s.reservations →
      (∀ j, j ≠ u.id → t.orders.get? j = s.orders.get? j) → s.NoStaler ((f (some o)).eval mongo t).2)
    (hnone : s.NoStaler ((f none).eval mongo s).2) :
    s.NoStaler ((db (.orderUpdate u now) >>= f).eval mongo s).2 := by
  obtain ⟨o, ho, -, heq⟩ | ⟨-, heq⟩ := exec_orderUpdate u now s
  · have heval : (db (.orderUpdate u now) >>= f).eval mongo s = _ :=
      Prog.eval_perform_bind (S := Mongo) heq
    rw [heval]
    have hid : (u.apply now o).id = u.id := (u.apply_id now o).trans (get?_key ho)
    exact hsome _ _ hid rfl fun j hj => (get?_update _ _ _ _).trans (if_neg hj)
  · have heval : (db (.orderUpdate u now) >>= f).eval mongo s = _ :=
      Prog.eval_perform_bind (S := Mongo) heq
    rw [heval]
    exact hnone

theorem cancelWork_noStaler (req : AuthedRequest) (id : ObjectId) (reason : String) (now : Time)
    (s : Db) : s.NoStaler ((cancelWork req id reason now).eval mongo s).2 := by
  refine update_noStaler (fun o t hid hrows horders =>
    finishCancel_noStaler horders hrows hid _ _) ?_
  refine update_noStaler (fun o t hid hrows horders =>
    finishCancel_noStaler horders hrows hid _ _) ?_
  refine Db.NoStaler.then (.refl s) ((issues_db trivial).bind fun found => ?_)
  cases found <;> trivial

theorem requestRefundWork_noStaler (limits : Limits) (req : AuthedRequest) (id : ObjectId)
    (reason : String) (now : Time) (s : Db) :
    s.NoStaler ((requestRefundWork limits req id reason now).eval mongo s).2 := by
  refine Db.NoStaler.then (.refl s) ((issues_db (keepsWaiting_requestRefund _ _ _)).bind
    fun updated => ?_)
  cases updated with
  | none =>
    refine Prog.Issues.bind (f := fun e => throw e) ?_ fun _ => trivial
    exact (refundRejection_issues _ _ _ _).mono fun _ h => DbOp.Quiet.calm h
  | some order => exact (issues_db trivial).bind fun _ => trivial

theorem webhookWork_noStaler (cfg : WebhookConfig) (d : Delivery) (eventId : String) (order : Order)
    (body : WebhookBody) (now : Time) (s : Db) :
    s.NoStaler ((webhookWork cfg d eventId order body now).eval mongo s).2 := by
  rw [webhookWork]
  split
  · exact update_noStaler (fun o t _ hrows horders =>
      settleWebhook_noStaler horders hrows _ _ _ _ _) (.refl s)
  · exact settleWebhook_noStaler (fun _ _ => rfl) rfl _ _ _ _ _

end Updates

theorem txn_noStaler {β : Type} {work : MongoM β} (h : ∀ s : Db, s.NoStaler (work.eval mongo s).2)
    (s : Db) :
    s.NoStaler (mongo.transactional.exec (.txn work) s).2 := by
  have hwork := h s
  simp only [Machine.transactional]
  split
  · next heq =>
    rw [heq] at hwork
    exact hwork
  · exact .refl s

/-! ## What a sweep owes -/

/-- The releases that a sweep owes: those of the order it has cancelled, or of the reservations it
has read. -/
structure ReleaseNote where
  order : Option ObjectId
  rows : List ObjectId

namespace ReleaseNote

/-- Nothing is owed. -/
def blank : ReleaseNote := ⟨none, []⟩

/-- The reservation is among those to be released. -/
def Owes (g : ReleaseNote) (r : InventoryReservation) : Prop :=
  (∃ k, g.order = some k ∧ r.order = some k) ∨ r.id ∈ g.rows

theorem not_owes_blank (r : InventoryReservation) : ¬ blank.Owes r := by
  rintro (⟨k, hk, -⟩ | hr)
  · cases hk
  · cases hr

/-- What the calls of a sweep add to the note. -/
def note : (o : DbOp) → Except ApiError o.Reply → ReleaseNote → ReleaseNote
  | .orderUpdate (.expire _) _, .ok (some (order : Order)), g => { g with order := some order.id }
  | .reservationsActive k, .ok (ids : List ObjectId), g =>
    if g.order = some k then ⟨none, g.rows ++ ids⟩ else g
  | .reservationRelease id _ _, .ok _, g => { g with rows := g.rows.erase id }
  | _, _, g => g

/-- An order is cancelled when nothing is owed, and reservations are released for good. Other calls
make nothing stale. -/
def may : DbOp → ReleaseNote → Prop
  | .orderUpdate (.expire _) _, g => g = blank
  | .reservationRelease _ status fromStatuses, _ => ¬ status.Active ∧ .reserved ∈ fromStatuses
  | o, _ => ∀ s : Db, s.NoStaler (mongo.exec o s).2

end ReleaseNote

/-- The memo of a sweep. -/
def releaseMemo : Memo Mongo ApiError ReleaseNote where
  note := ReleaseNote.note
  may := ReleaseNote.may
  allows o r := ∃ s, r = (mongo.exec o s).1

/-- The memo of a handler, whose transactions leave nothing stale. -/
def handlerMemo : Memo (Mongo.tx ApiError) ApiError ReleaseNote where
  note
    | .op o, r, g => ReleaseNote.note o r g
    | .txn _, _, g => g
  may
    | .op o, g => ReleaseNote.may o g
    | .txn work, _ => ∀ s : Db, s.NoStaler (mongo.transactional.exec (.txn work) s).2
  allows o r := ∃ s, r = (mongo.transactional.exec o s).1

open ReleaseNote

/-- The call makes nothing stale, and nothing is owed before and after it. -/
def DbOp.Still (o : DbOp) : Prop := may o blank ∧ ∀ r, note o r blank = blank

theorem DbOp.Calm.noStaler {o : DbOp} (h : o.Calm none) (s : Db) : s.NoStaler (mongo.exec o s).2 :=
  (exec_calm h fun _ hk => by cases hk).noStaler

theorem DbOp.Quiet.still {o : DbOp} (h : o.Quiet) : o.Still := by
  have hcalm : ∀ s : Db, s.NoStaler (mongo.exec o s).2 := h.calm.noStaler
  cases o with
  | reservationsActive k => exact ⟨hcalm, fun r => by cases r <;> rfl⟩
  | _ => first | exact ⟨hcalm, fun _ => rfl⟩ | exact h.elim

theorem DbOp.OfShipping.still {o : DbOp} {k : ObjectId} (h : o.OfShipping k) (h' : o.OfFulfilment) :
    o.Still := by
  rcases h with h | ⟨shipment, existing, rfl⟩ | ⟨behind, status, now, rfl⟩
  · exact h.still
  · exact ⟨DbOp.Calm.noStaler (o := .shipmentUpsert shipment existing) trivial, fun _ => rfl⟩
  · obtain ⟨-, rfl⟩ : status ∈ STATUS_FOR_RANK ∧ behind = _ := h'.resolve_left id
    refine ⟨DbOp.Calm.noStaler (o := .orderUpdate _ now) (keepsWaiting_advance fun hmem => ?_),
      fun _ => rfl⟩
    have hrank : OrderStatus.pending ∈ STATUS_FOR_RANK := behindStatuses_subset _ hmem
    exact absurd hrank (by decide)

theorem release_replies (id : ObjectId) (status : ReservationStatus)
    (fromStatuses : List ReservationStatus) (s : Db) :
    ∃ a, (mongo.exec (.reservationRelease id status fromStatuses) s).1 = .ok a := by
  simp only [mongo, Db.exec]
  split
  · split
    · exact ⟨_, rfl⟩
    · exact ⟨_, rfl⟩
  · exact ⟨_, rfl⟩

theorem releaseReservation_tracks (id : ObjectId) {status : ReservationStatus}
    (hs : ¬ status.Active) {fromStatuses : List ReservationStatus} (hfrom : .reserved ∈ fromStatuses)
    (g : ReleaseNote) :
    releaseMemo.Tracks (fun r g' => g' = { g with rows := g.rows.erase id } ∧ ∃ b, r = .ok b)
      (releaseReservation id status fromStatuses) g := by
  refine ⟨⟨hs, hfrom⟩, fun r hr => ?_⟩
  obtain ⟨s, rfl⟩ := hr
  obtain ⟨a, ha⟩ := release_replies id status fromStatuses s
  rw [ha]
  cases a with
  | none => exact ⟨rfl, _, rfl⟩
  | some x =>
    refine ⟨DbOp.Calm.noStaler (o := .productRestock x) trivial, fun r hr => ?_⟩
    obtain ⟨t, rfl⟩ := hr
    exact ⟨rfl, true, rfl⟩

theorem releaseEach_tracks {status : ReservationStatus} (hs : ¬ status.Active) (ids : List ObjectId)
    {g : ReleaseNote} (hg : g.order = none) (hrows : g.rows = ids ∨ g.rows = []) (released : Nat) :
    releaseMemo.Tracks (fun _ g' => g' = blank) (releaseEach status ids released) g := by
  induction ids generalizing g released with
  | nil =>
    have hnil : g.rows = [] := hrows.elim id id
    show g = blank
    cases g
    simp only at hg hnil
    simp only [hg, hnil, blank]
  | cons id rest ih =>
    refine Memo.Tracks.bind ((releaseReservation_tracks id hs (by simp) g).weaken ?_)
    rintro _ _ ⟨rfl, b, rfl⟩
    refine ih (g := { g with rows := g.rows.erase id }) hg ?_ _
    rcases hrows with h | h
    · exact .inl (by simp [h])
    · exact .inr (by simp [h])

theorem releaseOrderReservations_tracks {status : ReservationStatus} (hs : ¬ status.Active)
    {k : ObjectId} {g : ReleaseNote} (hrows : g.rows = []) (hg : g.order = some k ∨ g.order = none) :
    releaseMemo.Tracks (fun _ g' => g' = blank) (releaseOrderReservations k status) g := by
  refine ⟨DbOp.Calm.noStaler (o := .reservationsActive k) trivial, fun r hr => ?_⟩
  obtain ⟨s, rfl⟩ := hr
  rcases hg with hg | hg
  · have hnote : releaseMemo.note (.reservationsActive k) (mongo.exec (.reservationsActive k) s).1 g =
        ⟨none, (s.activeOf k).map (·.id)⟩ := by
      show (if g.order = some k then ReleaseNote.mk none (g.rows ++ _) else g) = _
      rw [if_pos hg, hrows, List.nil_append]
    rw [hnote]
    exact releaseEach_tracks (g := ⟨none, _⟩) hs _ rfl (.inl rfl) 0
  · have hnote : releaseMemo.note (.reservationsActive k) (mongo.exec (.reservationsActive k) s).1 g =
        g := by
      show (if g.order = some k then ReleaseNote.mk none (g.rows ++ _) else g) = _
      rw [if_neg (by simp [hg])]
    rw [hnote]
    exact releaseEach_tracks hs _ hg (.inr hrows) 0

theorem expireOrder_tracks (now : Time) (k : ObjectId) :
    releaseMemo.Tracks (fun _ g => g = blank) (expireOrder now k) blank := by
  have hrelease : ∀ j g, g.rows = [] → (g.order = some j ∨ g.order = none) →
      releaseMemo.Tracks (fun _ g' => g' = blank) (releaseOrderReservations j .expired) g :=
    fun _ _ hrows hg => releaseOrderReservations_tracks (by decide) hrows hg
  refine ⟨rfl, fun r _ => ?_⟩
  obtain e | (_ | order) := r
  · exact rfl
  · refine ⟨DbOp.Calm.noStaler (o := .orderFindById k) trivial, fun r _ => ?_⟩
    obtain e | (_ | order) := r
    · exact rfl
    · show releaseMemo.Tracks _ (releaseOrderReservations k .expired >>= _) blank
      refine Memo.Tracks.bind ((hrelease k blank rfl (.inr rfl)).weaken ?_)
      rintro r _ rfl
      cases r <;> exact rfl
    · show releaseMemo.Tracks _ (ite _ _ _) blank
      split
      · refine ⟨DbOp.Calm.noStaler (o := .reservationsCommit order.id) trivial, fun r _ => ?_⟩
        cases r <;> exact rfl
      · exact rfl
  · show releaseMemo.Tracks _ (releaseOrderReservations order.id .expired >>= _) ⟨some order.id, []⟩
    refine Memo.Tracks.bind ((hrelease order.id ⟨some order.id, []⟩ rfl (.inl rfl)).weaken ?_)
    rintro r _ rfl
    cases r with
    | error e => exact rfl
    | ok n =>
      refine Memo.tracks_still (Prog.Issues.bind (Prog.Issues.catching ?_ fun _ => trivial)
        fun _ => trivial) fun _ => rfl
      exact (publishEvent_issues _).mono fun _ h => DbOp.Quiet.still h

theorem expireEach_tracks (now : Time) (batch : List InventoryReservation)
    (handledOrders : List ObjectId) (acc : SweepResult) :
    releaseMemo.Tracks (fun _ g => g = blank) (expireEach now batch handledOrders acc) blank := by
  induction batch generalizing handledOrders acc with
  | nil => exact rfl
  | cons reservation rest ih =>
    rw [expireEach]
    split
    · refine Memo.Tracks.bind ((releaseReservation_tracks _ (by decide) (by simp) blank).weaken ?_)
      rintro _ _ ⟨rfl, b, rfl⟩
      exact ih _ _
    · split
      · exact ih _ _
      · refine Memo.Tracks.bind ((expireOrder_tracks now _).weaken ?_)
        rintro r _ rfl
        cases r with
        | error e => exact rfl
        | ok result => exact ih _ _

/-- A sweep owes nothing in the end. -/
theorem sweep_tracks (now : Time) (batchSize : Nat) :
    releaseMemo.Tracks (fun _ g => g = blank)
      (Response.sweep <$> releaseExpiredReservations now batchSize) blank := by
  refine Memo.Tracks.bind (Memo.Tracks.bind ?_)
  refine ⟨DbOp.Calm.noStaler (o := .reservationsExpired now batchSize) trivial, fun r _ => ?_⟩
  cases r with
  | error e => exact rfl
  | ok expired =>
    refine (expireEach_tracks now expired [] ⟨0, 0⟩).weaken ?_
    rintro r _ rfl
    cases r <;> exact rfl

theorem upsertShipment_still (req : AuthedRequest) (k : ObjectId) (value : ShipmentInput) (now : Time) :
    (upsertShipment req k value now).Issues DbOp.Still := by
  obtain ⟨kont, hkont, hrest⟩ := upsertShipment_rest req k value now
  have hfulfils := upsertShipment_issues req k value now
  rw [hkont] at hfulfils ⊢
  refine ⟨DbOp.Quiet.still (o := .orderFindOne _) trivial, fun r => ?_⟩
  rcases hrest r with ⟨e, he⟩ | ⟨order, -, -, hships⟩
  · rw [he]
    trivial
  · exact (hships.and (hfulfils.2 r)).mono fun _ h => h.1.still h.2

/-- On a replica set every handler keeps to the memo, and owes nothing in the end. -/
theorem handler_tracks {cfg : ServerConfig} (hreplica : cfg.deployment = .replicaSet) (request : Request) :
    handlerMemo.Tracks (fun _ g => g = blank) (request.handler cfg) blank := by
  have hstill : ∀ o : DbOp, o.Still → handlerMemo.may (.op o) blank ∧
      ∀ r, handlerMemo.note (.op o) r blank = blank := fun _ h => h
  by_cases hship : ∃ req id value now, request = .shipment req id value now
  · obtain ⟨req, k, value, now, rfl⟩ := hship
    exact Memo.tracks_still (issues_embed hstill (upsertShipment_still req k value now).map) fun _ => rfl
  cases hsweep : request.isSweep with
  | true =>
    cases request with
    | sweep now batchSize =>
      exact (sweep_tracks now batchSize).embed (fun _ _ _ => rfl) (fun _ _ h => h) fun _ _ h => h
    | _ => cases hsweep
  | false =>
    refine Memo.tracks_still (handler_issues_transacted hreplica (fun o h => hstill o h.still)
      (fun _ _ _ _ => ⟨txn_noStaler fun s => (executeCheckout_calm _ _ _ _ s).noStaler, fun _ => rfl⟩)
      (fun _ _ _ _ => ⟨txn_noStaler fun s => cancelWork_noStaler _ _ _ _ s, fun _ => rfl⟩)
      (fun _ _ _ _ _ => ⟨txn_noStaler fun s => requestRefundWork_noStaler _ _ _ _ _ s, fun _ => rfl⟩)
      (fun _ _ _ _ _ _ => ⟨txn_noStaler fun s => webhookWork_noStaler _ _ _ _ _ _ s, fun _ => rfl⟩)
      hsweep fun _ _ _ _ h => hship ⟨_, _, _, _, h⟩) fun _ => rfl

/-! ## Runs -/

/-- What is stale is owed by one of the handlers at work. -/
def StaleOwed (s : Db) (gs : List ReleaseNote) : Prop := ∀ r, s.Stale r → ∃ g ∈ gs, g.Owes r

theorem exec_expire_owed {k : ObjectId} {now : Time} {s : Db} {gs : List ReleaseNote} {i : Nat}
    (hi : gs[i]? = some blank) (h : StaleOwed s gs) :
    StaleOwed (mongo.exec (.orderUpdate (.expire k) now) s).2 (gs.set i
      (note (.orderUpdate (.expire k) now) (mongo.exec (.orderUpdate (.expire k) now) s).1 blank)) := by
  obtain ⟨o, ho, -, heq⟩ | ⟨-, heq⟩ := exec_orderUpdate (.expire k) now s
  · rw [heq]
    rintro r ⟨hr, hstatus, j, hj, hwait⟩
    have hid : ((OrderUpdate.expire k).apply now o).id = k := (OrderUpdate.apply_id _ _ _).trans (get?_key ho)
    have hlt : i < gs.length := (List.getElem?_eq_some_iff.1 hi).1
    by_cases hjk : j = k
    · subst hjk
      exact ⟨_, List.mem_set hlt _, .inl ⟨j, congrArg some hid, hj⟩⟩
    · have hbefore : s.Stale r := by
        refine ⟨hr, hstatus, j, hj, ?_⟩
        rintro ⟨x, hx, hwaiting⟩
        exact hwait ⟨x, (get?_update _ _ _ _).trans ((if_neg hjk).trans hx), hwaiting⟩
      exact Memo.exists_mem_set hi (h r hbefore) fun howes => absurd howes (not_owes_blank r)
  · rw [heq]
    have hsame : gs.set i blank = gs := by
      obtain ⟨hlt, hget⟩ := List.getElem?_eq_some_iff.1 hi
      rw [← hget, List.set_getElem_self]
    exact hsame.symm ▸ h

theorem exec_reservationsActive_owed {k : ObjectId} {s : Db} {gs : List ReleaseNote} {i : Nat}
    {g : ReleaseNote} (hi : gs[i]? = some g) (h : StaleOwed s gs) :
    StaleOwed s (gs.set i (note (.reservationsActive k) (.ok ((s.activeOf k).map (·.id))) g)) := by
  intro r hr
  refine Memo.exists_mem_set hi (h r hr) fun howes => ?_
  show ReleaseNote.Owes (if g.order = some k then ⟨none, g.rows ++ (s.activeOf k).map (·.id)⟩ else g) r
  split
  · next hk =>
    refine .inr (List.mem_append.2 ?_)
    rcases howes with ⟨j, hj, hrj⟩ | hrow
    · obtain rfl : k = j := Option.some_inj.1 (hk.symm.trans hj)
      exact .inr (List.mem_map_of_mem (mem_activeOf.2 ⟨hr.1, hrj, .inl hr.2.1⟩))
    · exact .inl hrow
  · exact howes

/-- A reservation that has been released is not reserved any more. -/
theorem stale_of_release {id : ObjectId} {status : ReservationStatus}
    {fromStatuses : List ReservationStatus} (hs : ¬ status.Active) (hfrom : .reserved ∈ fromStatuses)
    {s : Db} {r : InventoryReservation}
    (hr : (mongo.exec (.reservationRelease id status fromStatuses) s).2.Stale r) :
    s.Stale r ∧ r.id ≠ id := by
  have hne : status ≠ .reserved := fun h => hs (.inl h)
  simp only [mongo, Db.exec] at hr
  split at hr
  · next x hx =>
    split at hr
    · obtain ⟨hrow, hstatus, hstale⟩ := hr
      obtain ⟨hrs, hid⟩ := mem_modify_reserved hne hrow hstatus
      exact ⟨⟨hrs, hstatus, hstale⟩, by simpa [Keyed.key] using hid⟩
    · next hcontains =>
      refine ⟨hr, fun hid => hcontains ?_⟩
      have hget : s.reservations.get? id = some r := get?_eq_some.2 ⟨hr.1, hid⟩
      obtain rfl := Option.some_inj.1 (hx.symm.trans hget)
      simpa [hr.2.1] using hfrom
  · next hnone =>
    refine ⟨hr, fun hid => ?_⟩
    have hget : s.reservations.get? id = some r := get?_eq_some.2 ⟨hr.1, hid⟩
    cases hnone.symm.trans hget

theorem exec_reservationRelease_owed {id : ObjectId} {status : ReservationStatus}
    {fromStatuses : List ReservationStatus} (hs : ¬ status.Active) (hfrom : .reserved ∈ fromStatuses)
    {s : Db} {gs : List ReleaseNote} {i : Nat} {g : ReleaseNote} (hi : gs[i]? = some g) (h : StaleOwed s gs) :
    StaleOwed (mongo.exec (.reservationRelease id status fromStatuses) s).2
      (gs.set i { g with rows := g.rows.erase id }) := by
  intro r hr
  obtain ⟨hbefore, hne⟩ := stale_of_release hs hfrom hr
  refine Memo.exists_mem_set hi (h r hbefore) fun howes => ?_
  exact howes.imp_right fun hmem => (List.mem_erase_of_ne hne).2 hmem

/-- A call that makes nothing stale, and that the memo does not note. -/
theorem exec_other_owed {o : TxOp Mongo ApiError} {s : Db} {gs : List ReleaseNote} {i : Nat}
    {g : ReleaseNote} (hi : gs[i]? = some g)
    (ho : ∀ s : Db, s.NoStaler (mongo.transactional.exec o s).2) (h : StaleOwed s gs) :
    StaleOwed (mongo.transactional.exec o s).2 (gs.set i g) :=
  fun r hr => Memo.exists_mem_set hi (h r (ho s r hr)) id

/-- One operation of a handler: what becomes stale, the handler owes. -/
theorem exec_owed (o : TxOp Mongo ApiError) {s : Db} {gs : List ReleaseNote} {i : Nat}
    {g : ReleaseNote} (hi : gs[i]? = some g) (ho : handlerMemo.may o g) (h : StaleOwed s gs) :
    StaleOwed (mongo.transactional.exec o s).2
      (gs.set i (handlerMemo.note o (mongo.transactional.exec o s).1 g)) := by
  cases o with
  | txn work => exact exec_other_owed hi ho h
  | op o =>
    cases o with
    | orderUpdate u now =>
      cases u with
      | expire k =>
        obtain rfl : g = blank := ho
        exact exec_expire_owed hi h
      | _ => exact exec_other_owed hi ho h
    | reservationsActive k => exact exec_reservationsActive_owed hi h
    | reservationRelease id status fromStatuses =>
      obtain ⟨a, ha⟩ := release_replies id status fromStatuses s
      have hnote : handlerMemo.note (.op (.reservationRelease id status fromStatuses))
          (mongo.transactional.exec (.op (.reservationRelease id status fromStatuses)) s).1 g =
          { g with rows := g.rows.erase id } := by
        show ReleaseNote.note (.reservationRelease id status fromStatuses)
          (mongo.exec (.reservationRelease id status fromStatuses) s).1 g = _
        rw [ha]
        rfl
      rw [hnote]
      exact exec_reservationRelease_owed ho.1 ho.2 hi h
    | _ => exact exec_other_owed (o := .op _) hi ho h

theorem handlerMemo_note_error (o : TxOp Mongo ApiError) (e : ApiError) (g : ReleaseNote) :
    handlerMemo.note o (.error e) g = g := by
  cases o with
  | txn work => rfl
  | op o =>
    cases o with
    | orderUpdate u now => cases u <;> rfl
    | _ => rfl

/-- On a replica set and without failures, what is stale is owed by a sweep at work. -/
theorem run_owed {cfg : ServerConfig} (hreplica : cfg.deployment = .replicaSet) {c d : ServerPool}
    {as : List (Action Request)} (hrun : (server cfg).Run (fun _ a => a.unfailing) c as d)
    (hstart : c.threads = []) (hstale : ∀ r, ¬ c.state.Stale r) :
    ∃ gs, handlerMemo.Minutes (fun _ _ g => g = blank) d gs ∧ StaleOwed d.state gs := by
  refine hrun.invariant (P := fun d => ∃ gs,
    handlerMemo.Minutes (fun _ _ g => g = blank) d gs ∧ StaleOwed d.state gs) ?_
    ⟨[], by simp [Memo.Minutes, hstart], fun r hr => absurd hr (hstale r)⟩
  rintro d a e hunfailing hstep ⟨gs, hminutes, howed⟩
  have hfault : ∀ i, a ≠ .fault i := by
    rintro i rfl
    cases hunfailing
  have hkill : ∀ i, a ≠ .kill i := by
    rintro i rfl
    cases hunfailing
  have hcode : ∀ l : Request, handlerMemo.Tracks (fun _ g => g = blank) ((server cfg).code l) blank :=
    handler_tracks hreplica
  obtain ⟨gs', hminutes', ⟨l, -, rfl, hstate⟩ | ⟨i, o, g, -, hi, hmay, hmove⟩⟩ :=
    hminutes.step (fun l _ => hcode l) hstep (fun o => ⟨d.state, rfl⟩)
      (fun i _ h => absurd h (hfault i)) (fun i h => absurd h (hkill i))
  · refine ⟨_, hminutes', fun r hr => ?_⟩
    obtain ⟨g, hg, howes⟩ := howed r (hstate ▸ hr)
    exact ⟨g, List.mem_append_left _ hg, howes⟩
  · obtain ⟨-, hstate, rfl⟩ | ⟨hstate, rfl⟩ | ⟨hstate, rfl⟩ := hmove
    · exact ⟨_, hminutes', hstate.symm ▸ exec_owed o hi hmay howed⟩
    · refine ⟨_, hminutes', ?_⟩
      rw [hstate]
      have hsame := handlerMemo_note_error o mongo.fault g
      exact fun r hr => Memo.exists_mem_set hi (howed r hr) fun howes => hsame.symm ▸ howes
    · exact ⟨_, hminutes', hstate.symm ▸ howed⟩

/-- Once all is done, nothing is stale. -/
theorem run_noStale {cfg : ServerConfig} (hreplica : cfg.deployment = .replicaSet) {c d : ServerPool}
    {as : List (Action Request)} (hrun : (server cfg).Run (fun _ a => a.unfailing) c as d)
    (hstart : c.threads = []) (hstale : ∀ r, ¬ c.state.Stale r) (hend : d.Quiescent) :
    ∀ r, ¬ d.state.Stale r := by
  obtain ⟨gs, hminutes, howed⟩ := run_owed hreplica hrun hstart hstale
  intro r hr
  obtain ⟨g, hg, howes⟩ := howed r hr
  obtain ⟨-, -, rfl⟩ := hminutes.ended hend g hg
  exact not_owes_blank r howes

end Ecommerce
