import Ecommerce.Model.Calls
import Ecommerce.Stock.Ledger
import Mathlib.Algebra.Group.Prod

/-!
# Stock accounts

Every handler follows the ledger: the units it takes from one place and has not yet put elsewhere
are those of the call it makes next, so they can be read off the point it has reached.
-/

namespace Ecommerce

open Effect Effect.Discipline

/-- What a program holds when this is its next call: the value of units that have left one place and
not reached another, and a return of the reservation that its release has announced. -/
def DbOp.credit (w : ObjectId → ℤ) (r : ObjectId) : DbOp → ℤ × ℤ
  | .productRestock x => (w x.product * x.quantity, if x.id = r then 1 else 0)
  | .productUnreserve id q => (w id * q, 0)
  | .reservationCreate d => (w d.product * d.quantity, 0)
  | _ => 0

/-- The ledger of a valuation and a reservation. The undo of a reservation is accounted for only
while the reservation is active, since the call does not check it. -/
def ledger (w : ObjectId → ℤ) (r : ObjectId) : Discipline Mongo Db (ℤ × ℤ) where
  Inv db := Stocked db.products w
  grows := KeepsReservations
  gives _ := KeepsReservations
  may
    | .reservationUndo id, db => ¬ Released db.reservations id
    | _, _ => True
  mayFail o _ := ¬ o.IsUndo ∧ ∀ x, o ≠ .productRestock x
  worth db := (stockValue w db.products + heldValue w db.reservations, overreturned db r)
  holds o g := g = o.credit w r
  refl := KeepsReservations.refl
  trans := KeepsReservations.trans
  gives_grows := id

variable {w : ObjectId → ℤ} {r : ObjectId}

theorem ledger_neutral {o : DbOp} (h : ¬ o.MovesStock) : (ledger w r).Neutral mongo o where
  holds := by
    cases o <;> first | rfl | exact absurd trivial h
  inv t ht := by
    simp only [ledger, mongo, (exec_sameUnits h t).products]
    exact ht
  gives t _ := (exec_sameUnits h t).keepsReservations
  worth t _ := by
    have hsame := exec_sameUnits h t
    exact Prod.ext (by simp only [ledger, mongo, hsame.products, hsame.heldValue])
      (hsame.overreturned r)

theorem DbOp.Quiet.neutral {o : DbOp} (h : o.Quiet) : (ledger w r).Neutral mongo o :=
  ledger_neutral (by cases o <;> first | exact h.elim | exact id)

/-! ## Releases -/

/-- Adding the units of a released reservation back to stock. -/
theorem settled_productRestock (x : InventoryReservation) (s : Db) :
    (ledger w r).Follows mongo Settled (db (.productRestock x)) (DbOp.credit w r (.productRestock x))
      s := by
  refine ⟨rfl, fun t _ ht => ⟨fun _ => ?_, fun hf => absurd rfl (hf.2 x)⟩⟩
  refine ⟨ht.incStock_pnat x.quantity, KeepsReservations.refl t, 0, ?_, settled_done⟩
  refine Prod.ext ?_ ?_
  · simp [ledger, mongo, Db.exec, DbOp.credit, ht.stockValue_incStock]
    ring
  · simp [ledger, mongo, Db.exec, overreturned, DbOp.credit, List.count_singleton]
    ring

/-- Releasing a reservation moves its units, and the return it announces, to the account. -/
theorem ledger_worth_release {t : Db} {id : ObjectId} {x : InventoryReservation}
    (hx : t.reservations.get? id = some x) (ha : x.Active) {status : ReservationStatus}
    (hs : ¬ status.Active) :
    (ledger w r).worth { t with
        reservations := t.reservations.update id (InventoryReservation.setStatus status) } +
      DbOp.credit w r (.productRestock ((InventoryReservation.setStatus status).run x)) =
    (ledger w r).worth t + 0 := by
  have hid : x.id = id := Collection.get?_key hx
  have hr : ¬ Released t.reservations id := fun ⟨y, hy, hn⟩ => hn (by simp_all)
  refine Prod.ext ?_ ?_
  · simp [ledger, heldValue_setStatus hx ha hs, DbOp.credit]
    ring
  · simp only [ledger, overreturned, released_setStatus hx hs, DbOp.credit,
      InventoryReservation.setStatus_id, hid, Prod.snd_add, Prod.snd_zero]
    by_cases hj : r = id
    · subst hj
      simp [hr]
    · simp [hj, Ne.symm hj]

theorem settled_releaseReservation {status : ReservationStatus}
    {fromStatuses : List ReservationStatus} (hs : ¬ status.Active)
    (hfrom : ∀ x ∈ fromStatuses, x.Active) (id : ObjectId) (s : Db) :
    (ledger w r).Follows mongo Settled (releaseReservation id status fromStatuses) 0 s := by
  rw [releaseReservation]
  refine Follows.perform (S := Mongo) (o := DbOp.reservationRelease id status fromStatuses) rfl
    (fun _ _ => rfl) ?_
  intro t _ ht _ reply t' hexec
  simp only [mongo, Db.exec] at hexec
  split at hexec
  · next x hx =>
    split at hexec
    · next hc =>
      obtain ⟨rfl, rfl⟩ := Prod.mk.inj hexec
      have ha : x.Active := hfrom _ (by simpa using hc)
      refine ⟨ht, keepsReservations_setStatus rfl, _, ledger_worth_release hx ha hs, ?_⟩
      exact (settled_productRestock _ _).settle (fun _ _ _ _ => settled_done) ht
    · obtain ⟨rfl, rfl⟩ := Prod.mk.inj hexec
      exact ⟨ht, KeepsReservations.refl t, 0, rfl, settled_done⟩
  · obtain ⟨rfl, rfl⟩ := Prod.mk.inj hexec
    exact ⟨ht, KeepsReservations.refl t, 0, rfl, settled_done⟩

theorem settled_releaseEach {status : ReservationStatus} (hs : ¬ status.Active)
    (ids : List ObjectId) (released : Nat) {s : Db} (h : Stocked s.products w) :
    (ledger w r).Follows mongo Settled (releaseEach status ids released) 0 s := by
  induction ids generalizing released s with
  | nil => exact settled_done
  | cons id rest ih =>
    refine (settled_releaseReservation hs ?_ id s).settle (fun freed t _ ht => ih _ ht) h
    simp [ReservationStatus.Active]

theorem settled_releaseOrderReservations {status : ReservationStatus} (hs : ¬ status.Active)
    (orderId : ObjectId) {s : Db} (h : Stocked s.products w) :
    (ledger w r).Follows mongo Settled (releaseOrderReservations orderId status) 0 s :=
  (settled_neutral (Prog.issues_perform (ledger_neutral id))).settle
    (fun ids _ _ ht => settled_releaseEach hs ids 0 ht) h

/-! ## Sweeps -/

theorem settled_expireOrder (now : Time) (orderKey : ObjectId) {s : Db}
    (h : Stocked s.products w) :
    (ledger w r).Follows mongo Settled (expireOrder now orderKey) 0 s := by
  have hexpired : ¬ ReservationStatus.expired.Active := by decide
  refine (settled_neutral (Prog.issues_perform (ledger_neutral id))).settle (fun cancelled t _ ht => ?_) h
  cases cancelled with
  | some cancelledOrder =>
    refine (settled_releaseOrderReservations hexpired cancelledOrder.id ht).settle (fun _ u _ hu => ?_) ht
    refine settled_neutral (Prog.Issues.bind (Prog.Issues.catching ?_ fun _ => trivial) fun _ => trivial)
    exact Prog.issues_perform (ledger_neutral id)
  | none =>
    refine (settled_neutral (Prog.issues_perform (ledger_neutral id))).settle (fun found u _ hu => ?_) ht
    cases found with
    | none =>
      exact (settled_releaseOrderReservations hexpired orderKey hu).settle (fun _ _ _ _ => settled_done) hu
    | some order =>
      refine settled_neutral ?_
      dsimp only
      split
      · exact (Prog.issues_perform (ledger_neutral id)).bind fun _ => trivial
      · trivial

theorem settled_expireEach (now : Time) (batch : List InventoryReservation)
    (handledOrders : List ObjectId) (acc : SweepResult) {s : Db} (h : Stocked s.products w) :
    (ledger w r).Follows mongo Settled (expireEach now batch handledOrders acc) 0 s := by
  induction batch generalizing handledOrders acc s with
  | nil => exact settled_done
  | cons reservation rest ih =>
    rw [expireEach]
    split
    · refine (settled_releaseReservation (by decide) ?_ reservation.id s).settle (fun _ _ _ ht => ih _ _ ht) h
      simp [ReservationStatus.Active]
    · next orderKey _ =>
      split
      · exact ih _ _ h
      · exact (settled_expireOrder now orderKey h).settle (fun _ _ _ ht => ih _ _ ht) h

theorem settled_releaseExpiredReservations (now : Time) (batchSize : Nat) {s : Db}
    (h : Stocked s.products w) :
    (ledger w r).Follows mongo Settled (releaseExpiredReservations now batchSize) 0 s :=
  (settled_neutral (Prog.issues_perform (ledger_neutral id))).settle
    (fun expired _ _ ht => settled_expireEach now expired [] _ ht) h

/-! ## Cancels, refund requests and webhooks -/

theorem settled_finishCancel (tenant : String) (cancelled : Order) (refundOpened : Bool) {s : Db}
    (h : Stocked s.products w) :
    (ledger w r).Follows mongo Settled (finishCancel tenant cancelled refundOpened) 0 s := by
  refine (settled_releaseOrderReservations (by decide) cancelled.id h).settle (fun _ t _ ht => ?_) h
  refine settled_neutral ((issues_db (ledger_neutral id)).bind fun _ => ?_)
  cases refundOpened with
  | false => trivial
  | true => exact (issues_db (ledger_neutral id)).bind fun _ => trivial

theorem settled_cancelWork (req : AuthedRequest) (orderId : ObjectId) (reason : String)
    (now : Time) {s : Db} (h : Stocked s.products w) :
    (ledger w r).Follows mongo Settled (cancelWork req orderId reason now) 0 s := by
  refine (settled_neutral (issues_db (ledger_neutral id))).settle (fun unpaid t _ ht => ?_) h
  cases unpaid with
  | some cancelled => exact settled_finishCancel _ _ _ ht
  | none =>
    refine (settled_neutral (issues_db (ledger_neutral id))).settle (fun paid u _ hu => ?_) ht
    cases paid with
    | some cancelled => exact settled_finishCancel _ _ _ hu
    | none =>
      refine settled_neutral ((issues_db (ledger_neutral id)).bind fun found => ?_)
      cases found <;> trivial

theorem settled_requestRefundWork (limits : Limits) (req : AuthedRequest) (orderId : ObjectId)
    (reason : String) (now : Time) (s : Db) :
    (ledger w r).Follows mongo Settled (requestRefundWork limits req orderId reason now) 0 s := by
  refine settled_neutral ((issues_db (ledger_neutral id)).bind fun updated => ?_)
  cases updated with
  | none =>
    exact ((refundRejection_issues _ _ _ _).mono fun _ h => h.neutral).bind fun _ => trivial
  | some order => exact (issues_db (ledger_neutral id)).bind fun _ => trivial

theorem settled_settleWebhook (cfg : WebhookConfig) (d : Delivery) (eventId : String)
    (order : ObjectId) (type : WebhookType) (current : Order) {s : Db} (h : Stocked s.products w) :
    (ledger w r).Follows mongo Settled (settleWebhook cfg d eventId order type current) 0 s := by
  rw [settleWebhook]
  split
  · refine settled_neutral ((issues_db (ledger_neutral id)).bind fun _ => ?_)
    exact (issues_db (ledger_neutral id)).bind fun _ => trivial
  · refine (settled_releaseOrderReservations (by decide) order h).settle (fun _ t _ _ => ?_) h
    exact settled_neutral ((issues_db (ledger_neutral id)).bind fun _ => trivial)

theorem settled_webhookWork (cfg : WebhookConfig) (d : Delivery) (eventId : String) (order : Order)
    (body : WebhookBody) (now : Time) {s : Db} (h : Stocked s.products w) :
    (ledger w r).Follows mongo Settled (webhookWork cfg d eventId order body now) 0 s := by
  rw [webhookWork]
  split
  · refine (settled_neutral (issues_db (ledger_neutral id))).settle (fun moved t _ ht => ?_) h
    cases moved with
    | none => exact settled_done
    | some transitioned => exact settled_settleWebhook _ _ _ _ _ _ ht
  · exact settled_settleWebhook _ _ _ _ _ _ h

/-! ## Checkouts -/

/-- From here the undo calls settle the account. -/
def Undoes (w : ObjectId → ℤ) (r : ObjectId) (undo : List DbOp) (g : ℤ × ℤ) (s : Db) : Prop :=
  (ledger w r).Follows mongo Settled (compensate undo) g s

theorem undoes_nil (s : Db) : Undoes w r [] 0 s := settled_done

/-- Undoing the reserving update of a product. -/
theorem undoes_unreserve {undo : List DbOp} (p : ObjectId) (q : ℕ+) {s : Db}
    (h : Undoes w r undo 0 s) :
    Undoes w r (.productUnreserve p q :: undo) (DbOp.credit w r (.productUnreserve p q)) s := by
  rw [Undoes, compensate_cons]
  refine ⟨rfl, fun t hst ht => ⟨fun _ => ?_, fun hf => absurd trivial hf.1⟩⟩
  refine ⟨ht.incStock_pnat q, KeepsReservations.refl t, 0, ?_, Follows.mono h hst⟩
  refine Prod.ext ?_ ?_
  · simp [ledger, mongo, Db.exec, DbOp.credit, ht.stockValue_incStock]
    ring
  · simp [ledger, mongo, Db.exec, overreturned, DbOp.credit]

/-- Undoing a reservation and then the reserving update it was made for. -/
theorem undoes_reservation {undo : List DbOp} {id p : ObjectId} {q : ℕ+} {s : Db}
    {x : InventoryReservation} (hx : s.reservations.get? id = some x)
    (hp : x.product = p) (hq : x.quantity = q) (h : Undoes w r undo 0 s) :
    Undoes w r (.reservationUndo id :: .productUnreserve p q :: undo) 0 s := by
  rw [Undoes, compensate_cons]
  refine ⟨rfl, fun t hst ht => ⟨fun hm => ?_, fun hf => absurd trivial hf.1⟩⟩
  obtain ⟨y, hy, hyp, hyq⟩ := hst id x hx
  have ha : y.Active := by
    by_contra hn
    exact hm ⟨y, hy, hn⟩
  have hgrow : KeepsReservations t (Db.exec (.reservationUndo id) t).2 := keepsReservations_setStatus rfl
  refine ⟨ht, hgrow, DbOp.credit w r (.productUnreserve p q), ?_,
    undoes_unreserve p q (Follows.mono h ((ledger w r).trans hst hgrow))⟩
  have hid : y.id = id := Collection.get?_key hy
  have hreleased : ¬ ReservationStatus.released.Active := by decide
  refine Prod.ext ?_ ?_
  · simp [ledger, mongo, Db.exec, heldValue_setStatus hy ha hreleased, DbOp.credit, hyp, hyq, hp, hq]
    ring
  · simp only [ledger, mongo, Db.exec, overreturned, DbOp.credit, released_setStatus hy hreleased,
      Prod.snd_add, Prod.snd_zero, List.count_append, List.count_singleton]
    by_cases hj : r = id
    · subst hj
      simp [show ¬ Released t.reservations r from hm]
    · simp [hj, Ne.symm hj]

/-- What a step of a checkout leaves behind: nothing in the account and an undo list that settles,
or, after an exception, an undo list that settles the account. -/
def StepPost (w : ObjectId → ℤ) (r : ObjectId) {α : Type} :
    Except ApiError (Except ApiError α × List DbOp) → ℤ × ℤ → Db → Prop
  | .ok (.ok _, undo), g, t => g = 0 ∧ Undoes w r undo 0 t
  | .ok (.error _, undo), g, t => Undoes w r undo g t
  | .error _, _, _ => False

/-- Steps of a checkout that can be undone. -/
def CheckoutM.Undoable (w : ObjectId → ℤ) (r : ObjectId) {α : Type} (m : CheckoutM α) : Prop :=
  ∀ undo s, Stocked s.products w → Undoes w r undo 0 s →
    (ledger w r).Follows mongo (StepPost w r) (m.run.run undo) 0 s

namespace CheckoutM.Undoable

variable {α β : Type}

theorem bind {m : CheckoutM α} {f : α → CheckoutM β} (h : m.Undoable w r)
    (hf : ∀ a, (f a).Undoable w r) : (m >>= f).Undoable w r := by
  intro undo s hs hundo
  rw [checkoutM_bind]
  refine Follows.bind (P := fun out g t => StepPost w r (.ok out) g t)
    ((h undo s hs hundo).weaken ?_) ?_ hs
  · intro out g t _ _ hpost
    cases out with
    | ok out => exact hpost
    | error e => exact hpost.elim
  · rintro ⟨out | a, undo'⟩ g t _ ht hpost
    · exact fun u htu _ => Follows.mono hpost htu
    · obtain ⟨rfl, hundo'⟩ := hpost
      exact hf a undo' t ht hundo'

theorem pure (a : α) : (Pure.pure a : CheckoutM α).Undoable w r :=
  fun _ _ _ hundo _ hst _ => ⟨rfl, Follows.mono hundo hst⟩

theorem throw (e : ApiError) : (MonadExcept.throw e : CheckoutM α).Undoable w r :=
  fun _ _ _ hundo _ hst _ => Follows.mono hundo hst

theorem attempt {m : MongoM α} (h : m.Issues ((ledger w r).Neutral mongo)) :
    (Ecommerce.attempt m).Undoable w r := by
  intro undo s hs hundo
  refine Follows.bind (P := fun _ g t => g = 0 ∧ Undoes w r undo 0 t)
    (follows_neutral h fun _ t hst _ => ⟨rfl, Follows.mono hundo hst⟩).attempt ?_ hs
  rintro out g t _ _ ⟨rfl, hundo'⟩ u htu _
  cases out with
  | ok a => exact ⟨rfl, Follows.mono hundo' htu⟩
  | error e => exact Follows.mono hundo' htu

theorem pushUndo {o : DbOp} (hundo : o.IsUndo) (ho : ¬ o.MovesStock) :
    (Ecommerce.pushUndo o).Undoable w r := by
  intro undo s _ h t hst _
  have hneutral := ledger_neutral (w := w) (r := r) ho
  refine ⟨rfl, ?_⟩
  rw [Undoes, compensate_cons]
  refine ⟨hneutral.holds, fun u htu hu => ⟨fun _ => ?_, fun hf => absurd hundo hf.1⟩⟩
  have hgrow := hneutral.gives u hu
  refine ⟨hneutral.inv u hu, hgrow, 0, by rw [hneutral.worth u hu], ?_⟩
  exact Follows.mono h (KeepsReservations.trans hst (KeepsReservations.trans htu hgrow))

theorem forM {x : Option α} {f : α → CheckoutM PUnit} (hf : ∀ a, (f a).Undoable w r) :
    (x.forM f).Undoable w r := by
  cases x with
  | none => exact CheckoutM.Undoable.pure PUnit.unit
  | some a => exact hf a

end CheckoutM.Undoable

/-- The reserving update moves units of the product to the account. -/
theorem ledger_worth_reserve {t : Db} (ht : Stocked t.products w) (id : ObjectId) (q : ℕ+) :
    (ledger w r).worth { t with products := t.products.update id (Product.incStock (-q)) } +
      DbOp.credit w r (.productUnreserve id q) = (ledger w r).worth t + 0 := by
  refine Prod.ext ?_ ?_
  · simp [ledger, ht.stockValue_incStock, DbOp.credit]
    ring
  · simp [ledger, overreturned, DbOp.credit]

/-- A new reservation takes the units from the account. -/
theorem ledger_worth_create {t : Db} (d : ReservationDraft) :
    (ledger w r).worth { t with
        reservations := t.reservations.insert (d.reservation t.reservations.next)
          (d.key_reservation _) } + 0 =
      (ledger w r).worth t + DbOp.credit w r (.reservationCreate d) := by
  refine Prod.ext ?_ ?_
  · simp [ledger, heldValue_insert, DbOp.credit]
    ring
  · simp [ledger, overreturned, released_insert, DbOp.credit]

theorem reserveItem_undoable (req : AuthedRequest) (expiresAt : Time) (item : CartItem)
    (acc : CheckoutLines) : (reserveItem req expiresAt item acc).Undoable w r := by
  intro undo s _ hundo
  refine ⟨rfl, fun t hst ht => ⟨fun _ => ?_, fun _ u htu _ =>
    Follows.mono hundo (KeepsReservations.trans hst htu)⟩⟩
  have hundo := Follows.mono hundo hst
  simp only [mongo, Db.exec]
  split
  · next product hproduct =>
    split
    · next hsellable =>
      have hid : product.id = item.product := Collection.get?_key hproduct
      have henough : (item.quantity : ℤ) ≤ product.stock := by
        simp only [Product.sellable, Bool.and_eq_true, decide_eq_true_eq] at hsellable
        exact hsellable.2
      refine ⟨ht.incStock fun x hx => ?_, KeepsReservations.refl t, _,
        ledger_worth_reserve ht item.product item.quantity, ?_⟩
      · obtain rfl : product = x := Option.some_inj.1 (hproduct.symm.trans hx)
        omega
      · have hholds : DbOp.credit w r (.productUnreserve item.product item.quantity) =
            DbOp.credit w r (.reservationCreate
              ⟨req.user, req.tenant, product.id, item.quantity, expiresAt⟩) := by
          simp [DbOp.credit, hid]
        refine ⟨hholds, fun u htu hu => ⟨fun _ => ?_, fun _ v huv _ => ?_⟩⟩
        · rw [hholds]
          refine ⟨hu, keepsReservations_insert rfl, 0, ledger_worth_create _, fun v huv _ => ⟨rfl, ?_⟩⟩
          refine Follows.mono (undoes_reservation (p := product.id) (q := item.quantity)
            (Collection.get?_insert_next _ _ (ReservationDraft.key_reservation _ _)) rfl rfl (Follows.mono hundo ?_)) huv
          exact KeepsReservations.trans htu (keepsReservations_insert rfl)
        · have h := undoes_unreserve product.id item.quantity
            (Follows.mono hundo (KeepsReservations.trans htu huv))
          exact hid ▸ h
    · exact ⟨ht, KeepsReservations.refl t, 0, rfl, fun u htu _ => Follows.mono hundo htu⟩
  · exact ⟨ht, KeepsReservations.refl t, 0, rfl, fun u htu _ => Follows.mono hundo htu⟩

theorem reserveItems_undoable (req : AuthedRequest) (expiresAt : Time) (items : List CartItem)
    (acc : CheckoutLines) : (reserveItems req expiresAt items acc).Undoable w r := by
  induction items generalizing acc with
  | nil => exact .pure _
  | cons item rest ih => exact (reserveItem_undoable req expiresAt item acc).bind fun _ => ih _

theorem claimCoupon_undoable (coupon : Coupon) : (claimCoupon coupon).Undoable w r := by
  refine (CheckoutM.Undoable.attempt (issues_db (ledger_neutral id))).bind fun claimed => ?_
  cases claimed with
  | true => exact .pushUndo (o := .couponUnclaim coupon.id) trivial id
  | false => exact .throw _

theorem placeOrder_undoable (limits : Limits) (req : AuthedRequest) (value : CheckoutInput)
    (now : Time) (cart : Cart) : (placeOrder limits req value now cart).Undoable w r := by
  refine (reserveItems_undoable req _ cart.items _).bind fun lines => ?_
  refine (CheckoutM.Undoable.attempt ((validateCouponForUser_issues _ _ _ _ _).mono
    fun _ h => h.quiet.neutral)).bind fun outcome => ?_
  refine (CheckoutM.Undoable.forM claimCoupon_undoable).bind fun _ => ?_
  refine (CheckoutM.Undoable.attempt (issues_db (ledger_neutral id))).bind fun order => ?_
  refine (CheckoutM.Undoable.pushUndo (o := .orderDelete order.id) trivial id).bind fun _ => ?_
  refine (CheckoutM.Undoable.attempt (issues_db (ledger_neutral id))).bind fun _ => ?_
  refine (CheckoutM.Undoable.forM fun coupon =>
    .attempt (issues_db (ledger_neutral id))).bind fun _ => ?_
  exact (CheckoutM.Undoable.attempt (issues_db (ledger_neutral id))).bind fun _ => .pure _

theorem checkoutSteps_undoable (limits : Limits) (req : AuthedRequest) (value : CheckoutInput)
    (now : Time) : (checkoutSteps limits req value now).Undoable w r := by
  refine (CheckoutM.Undoable.attempt (issues_db (ledger_neutral id))).bind fun cart => ?_
  cases cart with
  | none => exact .throw _
  | some cart =>
    dsimp only
    split
    · exact .throw _
    · exact placeOrder_undoable limits req value now cart

/-- Without a session a checkout settles, whether it succeeds or compensates. -/
theorem settled_executeCheckout_standalone (limits : Limits) (req : AuthedRequest)
    (value : CheckoutInput) (now : Time) {s : Db} (h : Stocked s.products w) :
    (ledger w r).Follows mongo Settled (executeCheckout limits req value now false) 0 s := by
  refine Follows.bind (P := fun out g t => StepPost w r (.ok out) g t)
    ((checkoutSteps_undoable limits req value now [] s h (undoes_nil s)).weaken ?_) ?_ h
  · intro out g t _ _ hpost
    cases out with
    | ok out => exact hpost
    | error e => exact hpost.elim
  · rintro ⟨out | result, undo⟩ g t _ ht hpost
    · exact Follows.settle hpost (fun _ _ _ _ => settled_done) ht
    · obtain ⟨rfl, -⟩ := hpost
      exact settled_done

/-- With a session a checkout that succeeds has settled. -/
theorem settled_executeCheckout_session (limits : Limits) (req : AuthedRequest)
    (value : CheckoutInput) (now : Time) {s : Db} (h : Stocked s.products w) :
    (ledger w r).Follows mongo (fun out g _ => ∀ a, out = .ok a → g = 0)
      (executeCheckout limits req value now true) 0 s := by
  refine Follows.bind (P := fun out g t => StepPost w r (.ok out) g t)
    ((checkoutSteps_undoable limits req value now [] s h (undoes_nil s)).weaken ?_) ?_ h
  · intro out g t _ _ hpost
    cases out with
    | ok out => exact hpost
    | error e => exact hpost.elim
  · rintro ⟨out | result, undo⟩ g t _ ht hpost
    · rintro u - - a ⟨⟩
    · exact fun _ _ _ _ _ => hpost.1

end Ecommerce
