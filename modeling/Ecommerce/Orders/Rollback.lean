import Ecommerce.Inventory.Release

/-!
# All or nothing without transactions

On a standalone server a checkout that fails runs its undo calls. Each step that can be undone has
an undo call that takes the shop back to where it was before the step; the row of a coupon redemption
has none, so it stays when the write after it fails.
-/

namespace Ecommerce

open Effect Effect.Collection

/-! ## The state of the shop -/

/-- The active reservations. -/
def Db.active (s : Db) : List InventoryReservation := s.reservations.docs.filter fun r => r.Active

/-- How often a user has redeemed a coupon. -/
def Db.redeemed (s : Db) (coupon user : ObjectId) : Nat :=
  s.redemptions.countP fun r => r.coupon == coupon && r.user == user

/-- The same stock, active reservations, coupon uses, redemptions, orders and carts. -/
structure SameShop (s t : Db) : Prop where
  products : t.products = s.products
  active : t.active = s.active
  coupons : t.coupons = s.coupons
  redeemed : ∀ coupon user, t.redeemed coupon user = s.redeemed coupon user
  orders : t.orders.docs = s.orders.docs
  carts : t.carts = s.carts

namespace SameShop

variable {s t u : Db}

theorem refl (s : Db) : SameShop s s := ⟨rfl, rfl, rfl, fun _ _ => rfl, rfl, rfl⟩

theorem trans (h : SameShop s t) (h' : SameShop t u) : SameShop s u where
  products := h'.products.trans h.products
  active := h'.active.trans h.active
  coupons := h'.coupons.trans h.coupons
  redeemed coupon user := (h'.redeemed coupon user).trans (h.redeemed coupon user)
  orders := h'.orders.trans h.orders
  carts := h'.carts.trans h.carts

end SameShop

/-! ## Undo calls -/

section Undo

variable {s t : Db}

theorem active_update (s : Db) (id : ObjectId) {status : ReservationStatus} (hs : ¬ status.Active) :
    (s.reservations.update id (InventoryReservation.setStatus status)).docs.filter
      (fun r => r.Active) = s.active.filter fun r => r.id != id := by
  simp only [Db.active, update, Collection.modify]
  induction s.reservations.docs with
  | nil => rfl
  | cons r rest ih =>
    rw [List.map_cons, List.filter_cons, List.filter_cons, ih]
    by_cases hid : r.id = id
    · by_cases hactive : r.Active <;> simp [Keyed.key, hid, hs, hactive]
    · by_cases hactive : r.Active <;> simp [Keyed.key, hid, hactive]

/-- The store after the undo calls, newest first. -/
def undone : List DbOp → Db → Db
  | [], s => s
  | o :: undo, s => undone undo (mongo.exec o s).2

/-- Undo calls do the same to the same shop. -/
theorem SameShop.undo (h : SameShop s t) {o : DbOp} (ho : o.IsUndo) :
    SameShop (mongo.exec o s).2 (mongo.exec o t).2 := by
  cases o with
  | productUnreserve id quantity =>
    exact { h with products := congrArg (fun c => update c id (Product.incStock quantity)) h.products }
  | reservationUndo id =>
    refine { h with active := ?_ }
    have hreleased : ¬ ReservationStatus.released.Active := by decide
    exact (active_update t id hreleased).trans
      ((congrArg _ h.active).trans (active_update s id hreleased).symm)
  | couponUnclaim id =>
    simp only [mongo, Db.exec, h.coupons]
    split
    · split
      · exact { h with coupons := rfl }
      · exact h
    · exact h
  | orderDelete id =>
    exact { h with orders := congrArg (List.filter fun o : Order => o.id != id) h.orders }
  | _ => exact ho.elim

theorem SameShop.undone (h : SameShop s t) {undo : List DbOp} (hundo : ∀ o ∈ undo, o.IsUndo) :
    SameShop (undone undo s) (undone undo t) := by
  induction undo generalizing s t with
  | nil => exact h
  | cons o rest ih => exact ih (h.undo (hundo o (by simp))) fun o' ho' => hundo o' (by simp [ho'])

/-- No undo call fails. -/
def SparesUndo (φ : Faults Mongo) : Prop := ∀ n (o : DbOp), o.IsUndo → φ n o = false

theorem run_compensate {undo : List DbOp} (hundo : ∀ o ∈ undo, o.IsUndo) {φ : Faults Mongo}
    (hφ : SparesUndo φ) (s : Db) :
    (compensate undo).run mongo φ s = (.ok (), undone undo s) ∧
      (compensate undo).struck mongo φ s = none := by
  induction undo generalizing φ s with
  | nil => exact ⟨rfl, rfl⟩
  | cons o rest ih =>
    have hspared : ¬ φ 0 o := by
      rw [hφ 0 o (hundo o (by simp))]
      exact Bool.false_ne_true
    obtain ⟨hrun, hstruck⟩ := ih (fun o' ho' => hundo o' (by simp [ho'])) (φ := φ.tail)
      (fun n o' ho' => hφ (n + 1) o' ho') (mongo.exec o s).2
    rw [compensate_cons]
    exact ⟨(Prog.run_call (S := Mongo) φ s).trans ((if_neg hspared).trans hrun),
      (Prog.struck_call (S := Mongo) φ s).trans ((if_neg hspared).trans hstruck)⟩

theorem run_compensate_throw {undo : List DbOp} (hundo : ∀ o ∈ undo, o.IsUndo) {φ : Faults Mongo}
    (hφ : SparesUndo φ) (s : Db) (err : ApiError) :
    (compensate undo >>= fun _ => (throw err : MongoM CheckoutResult)).run mongo φ s =
        (.error err, undone undo s) ∧
      (compensate undo >>= fun _ => (throw err : MongoM CheckoutResult)).struck mongo φ s = none := by
  obtain ⟨hrun, hstruck⟩ := run_compensate hundo hφ s
  have hwhole := Prog.struck_bind (M := mongo) (compensate undo)
    (fun _ => (throw err : MongoM CheckoutResult)) φ s
  rw [hstruck] at hwhole
  rw [Prog.run, Prog.bind_def, Prog.eval_bind]
  rw [Prog.run] at hrun
  generalize (compensate undo).eval mongo.faulty (φ, s) = out at hrun hwhole ⊢
  obtain ⟨r, ψ, t⟩ := out
  obtain ⟨rfl, rfl⟩ := Prod.mk.inj hrun
  exact ⟨rfl, hwhole⟩

/-- Undo calls leave redemptions and carts alone. -/
theorem undone_keeps {undo : List DbOp} (hundo : ∀ o ∈ undo, o.IsUndo) (s : Db) :
    (undone undo s).redemptions = s.redemptions ∧ (undone undo s).carts = s.carts := by
  induction undo generalizing s with
  | nil => exact ⟨rfl, rfl⟩
  | cons o rest ih =>
    have ho := hundo o (by simp)
    have hkeep : (mongo.exec o s).2.redemptions = s.redemptions ∧
        (mongo.exec o s).2.carts = s.carts := by
      cases o with
      | couponUnclaim id =>
        simp only [mongo, Db.exec]
        split
        · split <;> exact ⟨rfl, rfl⟩
        · exact ⟨rfl, rfl⟩
      | _ => first | exact ⟨rfl, rfl⟩ | exact ho.elim
    obtain ⟨hredemptions, hcarts⟩ := ih (fun o' ho' => hundo o' (by simp [ho'])) (mongo.exec o s).2
    exact ⟨hredemptions.trans hkeep.1, hcarts.trans hkeep.2⟩

/-- Undo calls do the same to all but the reservations, whatever these are. -/
theorem undone_reservations {undo : List DbOp} (hundo : ∀ o ∈ undo, o.IsUndo) (s : Db)
    (reservations : Collection InventoryReservation) :
    ∃ reservations', undone undo { s with reservations := reservations } =
      { undone undo s with reservations := reservations' } := by
  induction undo generalizing s reservations with
  | nil => exact ⟨reservations, rfl⟩
  | cons o rest ih =>
    have ho := hundo o (by simp)
    have hstep : ∃ reservations', (mongo.exec o { s with reservations := reservations }).2 =
        { (mongo.exec o s).2 with reservations := reservations' } := by
      cases o with
      | reservationUndo id => exact ⟨_, rfl⟩
      | couponUnclaim id =>
        refine ⟨reservations, ?_⟩
        simp only [mongo, Db.exec]
        split
        · split <;> rfl
        · rfl
      | _ => first | exact ⟨reservations, rfl⟩ | exact ho.elim
    obtain ⟨reservations', hreservations⟩ := hstep
    simp only [undone, hreservations]
    exact ih (fun o' ho' => hundo o' (by simp [ho'])) _ _

/-- A reservation stays active unless its undo call has run. -/
theorem active_undone {undo : List DbOp} (hundo : ∀ o ∈ undo, o.IsUndo) (s : Db) :
    (undone undo s).active = s.active.filter fun r => !undo.contains (.reservationUndo r.id) := by
  induction undo generalizing s with
  | nil => simp [undone]
  | cons o rest ih =>
    have ho := hundo o (by simp)
    rw [undone, ih fun o' ho' => hundo o' (by simp [ho'])]
    cases o with
    | reservationUndo id =>
      have hactive : (mongo.exec (.reservationUndo id) s).2.active =
          s.active.filter fun r => r.id != id :=
        active_update s id (by decide)
      rw [hactive, List.filter_filter]
      refine List.filter_congr fun r _ => ?_
      by_cases hid : r.id = id <;> simp [hid]
    | couponUnclaim id =>
      have hactive : (mongo.exec (.couponUnclaim id) s).2.active = s.active := by
        simp only [mongo, Db.exec]
        split
        · split <;> rfl
        · rfl
      rw [hactive]
      exact List.filter_congr fun r _ => by simp
    | productUnreserve id quantity => exact List.filter_congr fun r _ => by simp
    | orderDelete id => exact List.filter_congr fun r _ => by simp
    | _ => exact ho.elim

end Undo

/-! ## Steps -/

section Spec

variable {α β : Type} {P : List DbOp → Db → Prop} {E : Option DbOp → List DbOp → Db → Prop}

theorem sparesUndo_eval (p : MongoM α) {φ : Faults Mongo} (hφ : SparesUndo φ) (s : Db) :
    SparesUndo (p.eval mongo.faulty (φ, s)).2.1 := by
  refine Prog.eval_induct (R := fun x y => SparesUndo x.1 → SparesUndo y.1) mongo.faulty
    (fun _ h => h) (fun h h' hx => h' (h hx)) (fun o x hx => ?_) p (φ, s) hφ
  have htail : SparesUndo (Faults.tail x.1) := fun n o' ho' => hx (n + 1) o' ho'
  simp only [Machine.faulty]
  split <;> exact htail

/-- What a step does under a schedule that spares undo calls: it returns with `Q`, not having been
struck, or it throws with `E`, which is told where it was struck. -/
def CheckoutM.Spec (m : CheckoutM α) (P : List DbOp → Db → Prop)
    (Q : α → List DbOp → Db → Prop) (E : Option DbOp → List DbOp → Db → Prop) : Prop :=
  ∀ φ undo s, SparesUndo φ → P undo s → ∃ r undo' ψ t,
    (m.run.run undo).eval mongo.faulty (φ, s) = (.ok (r, undo'), ψ, t) ∧
      match r with
      | .ok a => (m.run.run undo).struck mongo φ s = none ∧ Q a undo' t
      | .error _ => E ((m.run.run undo).struck mongo φ s) undo' t

namespace CheckoutM.Spec

variable {Q : α → List DbOp → Db → Prop} {R : β → List DbOp → Db → Prop}

theorem bind {m : CheckoutM α} {f : α → CheckoutM β} (h : m.Spec P Q E)
    (hf : ∀ a, (f a).Spec (Q a) R E) : (m >>= f).Spec P R E := by
  intro φ undo s hφ hP
  obtain ⟨r, undo', ψ, t, heval, hr⟩ := h φ undo s hφ hP
  have hψ : SparesUndo ψ := by
    have hspares := sparesUndo_eval (m.run.run undo) hφ s
    rw [heval] at hspares
    exact hspares
  cases r with
  | ok a =>
    obtain ⟨hnone, hQ⟩ := hr
    have heval' : ((m >>= f).run.run undo).eval mongo.faulty (φ, s) =
        ((f a).run.run undo').eval mongo.faulty (ψ, t) := by
      rw [checkoutM_bind, Prog.eval_bind, heval]
    have hstruck : ((m >>= f).run.run undo).struck mongo φ s =
        ((f a).run.run undo').struck mongo ψ t := by
      rw [checkoutM_bind]
      refine (Prog.struck_bind _ _ φ s).trans ?_
      rw [heval, hnone]
      rfl
    rw [heval', hstruck]
    exact hf a ψ undo' t hψ hQ
  | error e =>
    have hstruck : ((m >>= f).run.run undo).struck mongo φ s =
        (m.run.run undo).struck mongo φ s := by
      rw [checkoutM_bind]
      refine (Prog.struck_bind _ _ φ s).trans ?_
      rw [heval]
      exact Option.or_none
    refine ⟨.error e, undo', ψ, t, ?_, hstruck ▸ hr⟩
    rw [checkoutM_bind, Prog.eval_bind, heval]
    rfl

theorem pure {a : α} (h : ∀ undo s, P undo s → Q a undo s) :
    (Pure.pure a : CheckoutM α).Spec P Q E :=
  fun φ undo s _ hP => ⟨.ok a, undo, φ, s, rfl, rfl, h undo s hP⟩

theorem throw {e : ApiError} (h : ∀ undo s, P undo s → E none undo s) :
    (MonadExcept.throw e : CheckoutM α).Spec P Q E :=
  fun φ undo s _ hP => ⟨.error e, undo, φ, s, rfl, h undo s hP⟩

theorem pushUndo {o : DbOp} {Q : Unit → List DbOp → Db → Prop}
    (h : ∀ undo s, P undo s → Q () (o :: undo) s) : (Ecommerce.pushUndo o).Spec P Q E :=
  fun φ undo s _ hP => ⟨.ok (), o :: undo, φ, s, rfl, rfl, h undo s hP⟩

/-- A program that halts either runs as it does alone or is struck where it has come to. -/
theorem attempt {p : MongoM α} (hp : p.Halts mongo)
    (hstruck : ∀ undo s o t, P undo s → p.Reaches mongo s o t → E (some o) undo t)
    (heval : ∀ undo s r t, P undo s → p.eval mongo s = (r, t) → match r with
      | .ok a => Q a undo t
      | .error _ => E none undo t) :
    (Ecommerce.attempt p).Spec P Q E := by
  intro φ undo s hφ hP
  obtain ⟨⟨r, ψ, t⟩, hout⟩ : ∃ out, p.eval mongo.faulty (φ, s) = out := ⟨_, rfl⟩
  have hattempt := Prog.eval_attempt mongo.faulty p (φ, s)
  rw [hout] at hattempt
  have hwhole : ((Ecommerce.attempt p).run.run undo).eval mongo.faulty (φ, s) =
      (.ok (r, undo), ψ, t) := by
    show (Prog.bind p.attempt _).eval mongo.faulty (φ, s) = _
    rw [Prog.eval_bind, hattempt]
    rfl
  have hsame : ((Ecommerce.attempt p).run.run undo).struck mongo φ s = p.struck mongo φ s := by
    show (p.attempt >>= _).struck mongo φ s = _
    rw [Prog.struck_bind, hattempt, Prog.struck_attempt]
    exact Option.or_none
  refine ⟨r, undo, ψ, t, hwhole, ?_⟩
  rw [hsame]
  obtain ⟨hnone, halone⟩ | ⟨o, u, hsome, hreach, herr⟩ := hp.run φ s <;> rw [Prog.run, hout] at *
  · rw [hnone]
    have := heval undo s r t hP halone.symm
    cases r with
    | ok a => exact ⟨rfl, this⟩
    | error e => exact this
  · obtain ⟨rfl, rfl⟩ := Prod.mk.inj herr
    rw [hsome]
    exact hstruck undo s o _ hP hreach

/-- A single call is struck itself, or replies as it does alone. -/
theorem call {o : DbOp} {Q : o.Reply → List DbOp → Db → Prop}
    (hstruck : ∀ undo s, P undo s → E (some o) undo s)
    (heval : ∀ undo s r t, P undo s → mongo.exec o s = (r, t) → match r with
      | .ok a => Q a undo t
      | .error _ => E none undo t) : (Ecommerce.attempt (db o)).Spec P Q E := by
  refine attempt (halts_db o) (fun undo s o' t hP hreach => ?_) fun undo s r t hP h => ?_
  · obtain ⟨rfl, rfl⟩ := (Prog.reaches_perform (S := Mongo)).1 hreach
    exact hstruck undo _ hP
  · have := heval undo s r t hP h
    cases r <;> exact this

/-- A fact that the state does not enter into can be used by the step. -/
theorem of_and {m : CheckoutM α} {c : Prop} (h : c → m.Spec P Q E) :
    m.Spec (fun undo s => c ∧ P undo s) Q E :=
  fun φ undo s hφ hP => h hP.1 φ undo s hφ hP.2

theorem mono {m : CheckoutM α} {P' : List DbOp → Db → Prop} (h : m.Spec P Q E)
    (hP : ∀ undo s, P' undo s → P undo s) : m.Spec P' Q E :=
  fun φ undo s hφ hP' => h φ undo s hφ (hP undo s hP')

end CheckoutM.Spec

end Spec

/-! ## What the undo calls bring back -/

/-- Undo calls that take the shop back to `s₀`. -/
structure Rollback (s₀ : Db) (undo : List DbOp) (t : Db) : Prop where
  isUndo : ∀ o ∈ undo, o.IsUndo
  back : SameShop s₀ (undone undo t)

namespace Rollback

variable {s₀ t t' : Db} {undo : List DbOp}

theorem start (s : Db) : Rollback s [] s := ⟨by simp, .refl s⟩

/-- A step whose undo call takes the shop back to where it was before the step. -/
theorem push (h : Rollback s₀ undo t) {o : DbOp} (ho : o.IsUndo)
    (hback : SameShop t (mongo.exec o t').2) : Rollback s₀ (o :: undo) t' where
  isUndo o' ho' := by
    rcases List.mem_cons.1 ho' with rfl | ho'
    · exact ho
    · exact h.isUndo o' ho'
  back := h.back.trans (hback.undone h.isUndo)

theorem redeemed (h : Rollback s₀ undo t) (coupon user : ObjectId) :
    t.redeemed coupon user = s₀.redeemed coupon user := by
  rw [← h.back.redeemed, Db.redeemed, Db.redeemed, (undone_keeps h.isUndo t).1]

theorem carts (h : Rollback s₀ undo t) : t.carts = s₀.carts :=
  (undone_keeps h.isUndo t).2.symm.trans h.back.carts

theorem productReserve (h : Rollback s₀ undo t) {id : ObjectId} {tenant : String} {quantity : ℕ+}
    {product : Product}
    (hexec : mongo.exec (.productReserve id tenant quantity) t = (.ok (some product), t')) :
    Rollback s₀ (.productUnreserve product.id quantity :: undo) t' := by
  refine h.push trivial ?_
  simp only [mongo, Db.exec] at hexec
  split at hexec
  · next p hget =>
    split at hexec
    · obtain ⟨hproduct, rfl⟩ := Prod.mk.inj hexec
      have hid : product.id = id := by
        rw [← Option.some_inj.1 (Except.ok.inj hproduct)]
        exact get?_key hget
      rw [hid]
      refine { SameShop.refl t with products := ?_ }
      exact update_update_cancel _ _ fun p => by simp [Product.incStock]
    · cases hexec
  · cases hexec

theorem reservationCreate (h : Rollback s₀ undo t) {draft : ReservationDraft}
    {reservation : InventoryReservation}
    (hexec : mongo.exec (.reservationCreate draft) t = (.ok reservation, t')) :
    Rollback s₀ (.reservationUndo reservation.id :: undo) t' := by
  obtain ⟨hreply, rfl⟩ := Prod.mk.inj hexec
  obtain rfl := Except.ok.inj hreply
  refine h.push trivial { SameShop.refl t with active := ?_ }
  refine (active_update _ _ (by decide)).trans ?_
  have hnew : (t.reservations.next != t.reservations.next) = false := by simp
  simp only [Db.active, Collection.insert, List.filter_append, List.filter_filter]
  rw [List.filter_cons_of_neg (by simp [ReservationDraft.reservation]), List.filter_nil,
    List.append_nil]
  refine List.filter_congr fun r hr => ?_
  have hlt : r.id < t.reservations.next := t.reservations.fresh r hr
  simp [ReservationDraft.reservation, hlt.ne]

theorem couponClaim (h : Rollback s₀ undo t) {id : ObjectId} {usageLimit : Nat}
    (hexec : mongo.exec (.couponClaim id usageLimit) t = (.ok true, t')) :
    Rollback s₀ (.couponUnclaim id :: undo) t' := by
  refine h.push trivial ?_
  simp only [mongo, Db.exec] at hexec
  split at hexec
  · next c hget =>
    split at hexec
    · obtain ⟨-, rfl⟩ := Prod.mk.inj hexec
      have hclaimed : 0 < ((Coupon.setUsedCount (· + 1)).run c).usedCount := Nat.succ_pos _
      have hcancel : (t.coupons.update id (Coupon.setUsedCount (· + 1))).update id
          (Coupon.setUsedCount (· - 1)) = t.coupons :=
        update_update_cancel _ _ fun c => by simp [Coupon.setUsedCount]
      simp only [mongo, Db.exec, get?_update_self, hget, Option.map_some, hclaimed, if_true, hcancel]
      exact .refl t
    · cases hexec
  · cases hexec

theorem orderCreate (h : Rollback s₀ undo t) {draft : OrderDraft} {now : Time} {order : Order}
    (hexec : mongo.exec (.orderCreate draft now) t = (.ok order, t')) :
    Rollback s₀ (.orderDelete order.id :: undo) t' := by
  obtain ⟨hreply, rfl⟩ := Prod.mk.inj hexec
  obtain rfl := Except.ok.inj hreply
  exact h.push trivial { SameShop.refl t with orders := erase_insert _ _ (draft.key_order _ now) }

/-- Linking reservations whose undo calls are pending. -/
theorem reservationLink (h : Rollback s₀ undo t) {ids : List ObjectId} (order : ObjectId)
    (hids : ∀ id ∈ ids, .reservationUndo id ∈ undo) :
    Rollback s₀ undo (mongo.exec (.reservationLink ids order) t).2 := by
  refine ⟨h.isUndo, h.back.trans ?_⟩
  obtain ⟨reservations, hsame⟩ := undone_reservations h.isUndo t
    (t.reservations.modify (fun r => ids.contains r.id) (InventoryReservation.setOrder order))
  have hactive := active_undone h.isUndo (mongo.exec (.reservationLink ids order) t).2
  have hlinked : (undone undo (mongo.exec (.reservationLink ids order) t).2).active =
      (undone undo t).active := by
    rw [hactive, active_undone h.isUndo]
    simp only [Db.active, mongo, Db.exec, Collection.modify, List.filter_filter]
    induction t.reservations.docs with
    | nil => rfl
    | cons r rest ih =>
      rw [List.map_cons, List.filter_cons, List.filter_cons, ih]
      by_cases hid : r.id ∈ ids
      · simp [hid, hids r.id hid, InventoryReservation.setOrder]
      · simp [hid]
  have hrest : undone undo (mongo.exec (.reservationLink ids order) t).2 =
      { undone undo t with reservations := reservations } := hsame
  rw [hrest] at hlinked ⊢
  exact { SameShop.refl _ with active := hlinked }

end Rollback

/-! ## The steps of a checkout -/

/-- A coupon code has been entered. -/
def CheckoutInput.GivesCoupon (value : CheckoutInput) : Prop :=
  (value.couponCode.filter (· ≠ "")).isSome

/-- What an exception leaves: undo calls that take the shop back to `s₀`, unless the clearing of the
cart has failed after a coupon's redemption was recorded. -/
def Left (s₀ : Db) (given : Prop) (struck : Option DbOp) (undo : List DbOp) (t : Db) : Prop :=
  (∀ o ∈ undo, o.IsUndo) ∧
    (SameShop s₀ (undone undo t) ↔ ¬ ((∃ id version, struck = some (.cartClear id version)) ∧ given))

section Steps

variable {s₀ : Db} {given : Prop}

theorem Rollback.left {undo : List DbOp} {t : Db} (h : Rollback s₀ undo t) {struck : Option DbOp}
    (hstruck : ∀ id version, struck ≠ some (.cartClear id version)) :
    Left s₀ given struck undo t :=
  ⟨h.isUndo, iff_of_true h.back fun ⟨⟨id, version, h'⟩, _⟩ => hstruck id version h'⟩

/-- The undo calls take the shop back, and those of the reservations made so far are among them. -/
def Reserved (s₀ : Db) (reservations : List InventoryReservation) (undo : List DbOp) (t : Db) :
    Prop :=
  Rollback s₀ undo t ∧ ∀ r ∈ reservations, .reservationUndo r.id ∈ undo

theorem Reserved.push {reservations : List InventoryReservation} {undo : List DbOp} {o : DbOp}
    {t t' : Db} (h : Reserved s₀ reservations undo t) (hback : Rollback s₀ (o :: undo) t') :
    Reserved s₀ reservations (o :: undo) t' :=
  ⟨hback, fun r hr => List.mem_cons_of_mem _ (h.2 r hr)⟩

theorem exec_productReserve (id : ObjectId) (tenant : String) (quantity : ℕ+) (s : Db) :
    (∃ product t, mongo.exec (.productReserve id tenant quantity) s = (.ok (some product), t)) ∨
      mongo.exec (.productReserve id tenant quantity) s = (.ok none, s) := by
  simp only [mongo, Db.exec]
  split
  · split
    · exact .inl ⟨_, _, rfl⟩
    · exact .inr rfl
  · exact .inr rfl

theorem exec_couponClaim (id : ObjectId) (usageLimit : Nat) (s : Db) :
    (∃ t, mongo.exec (.couponClaim id usageLimit) s = (.ok true, t)) ∨
      mongo.exec (.couponClaim id usageLimit) s = (.ok false, s) := by
  simp only [mongo, Db.exec]
  split
  · split
    · exact .inl ⟨_, rfl⟩
    · exact .inr rfl
  · exact .inr rfl

theorem reserveItem_spec (req : AuthedRequest) (expiresAt : Time) (item : CartItem)
    (acc : CheckoutLines) :
    (reserveItem req expiresAt item acc).Spec (Reserved s₀ acc.reservations)
      (fun acc' => Reserved s₀ acc'.reservations) (Left s₀ given) := by
  let Q : Option Product → List DbOp → Db → Prop := fun product undo t => match product with
    | none => Reserved s₀ acc.reservations undo t
    | some product =>
      Reserved s₀ acc.reservations (.productUnreserve product.id item.quantity :: undo) t
  refine CheckoutM.Spec.bind (Q := Q) (.call (fun undo s h => h.1.left (by simp)) ?_) fun product => ?_
  · intro undo s r t h hexec
    obtain ⟨product, u, hsome⟩ | hnone := exec_productReserve item.product req.tenant item.quantity s
    · obtain ⟨rfl, rfl⟩ := Prod.mk.inj (hsome.symm.trans hexec)
      exact h.push (h.1.productReserve hsome)
    · obtain ⟨rfl, rfl⟩ := Prod.mk.inj (hnone.symm.trans hexec)
      exact h
  · cases product with
    | none => exact .throw fun undo s h => Rollback.left h.1 (by simp)
    | some product =>
      refine CheckoutM.Spec.bind (Q := fun _ => Reserved s₀ acc.reservations)
        (.pushUndo fun undo s h => h) fun _ => ?_
      let Q : InventoryReservation → List DbOp → Db → Prop := fun reservation undo =>
        Reserved s₀ (acc.reservations ++ [reservation]) (.reservationUndo reservation.id :: undo)
      refine CheckoutM.Spec.bind (Q := Q) (.call (fun undo s h => h.1.left (by simp)) ?_)
        fun reservation => ?_
      · intro undo s r t h hexec
        obtain ⟨rfl, -⟩ := Prod.mk.inj hexec
        have hpush := h.push (h.1.reservationCreate hexec)
        refine ⟨hpush.1, fun r hr => ?_⟩
        rcases List.mem_append.1 hr with hr | hr
        · exact hpush.2 r hr
        · simp [List.mem_singleton.1 hr]
      · exact CheckoutM.Spec.bind (Q := fun _ => Reserved s₀ (acc.reservations ++ [reservation]))
          (.pushUndo fun undo s h => h) fun _ => .pure fun undo s h => h

theorem reserveItems_spec (req : AuthedRequest) (expiresAt : Time) (items : List CartItem)
    (acc : CheckoutLines) :
    (reserveItems req expiresAt items acc).Spec (Reserved s₀ acc.reservations)
      (fun acc' => Reserved s₀ acc'.reservations) (Left s₀ given) := by
  induction items generalizing acc with
  | nil => exact .pure fun undo s h => h
  | cons item rest ih => exact (reserveItem_spec req expiresAt item acc).bind fun acc' => ih acc'

theorem claimCoupon_spec (coupon : Coupon) (reservations : List InventoryReservation) :
    (claimCoupon coupon).Spec (Reserved s₀ reservations) (fun _ => Reserved s₀ reservations)
      (Left s₀ given) := by
  let Q : Bool → List DbOp → Db → Prop := fun claimed undo t => match claimed with
    | true => Reserved s₀ reservations (.couponUnclaim coupon.id :: undo) t
    | false => Reserved s₀ reservations undo t
  refine CheckoutM.Spec.bind (Q := Q) (.call (fun undo s h => h.1.left (by simp)) ?_) fun claimed => ?_
  · intro undo s r t h hexec
    obtain ⟨u, htrue⟩ | hfalse := exec_couponClaim coupon.id coupon.usageLimit s
    · obtain ⟨rfl, rfl⟩ := Prod.mk.inj (htrue.symm.trans hexec)
      exact h.push (h.1.couponClaim htrue)
    · obtain ⟨rfl, rfl⟩ := Prod.mk.inj (hfalse.symm.trans hexec)
      exact h
  · cases claimed with
    | true => exact .pushUndo fun undo s h => h
    | false => exact .throw fun undo s h => Rollback.left h.1 (by simp)

theorem validateCouponForUser_halts (code : Option String) (user : ObjectId) (subtotal : Cents)
    (tenant : String) (now : Time) :
    (validateCouponForUser code user subtotal tenant now).Halts mongo := by
  unfold validateCouponForUser
  split
  · trivial
  · refine (halts_db _).bind fun coupon => ?_
    cases coupon with
    | none => trivial
    | some coupon =>
      dsimp only
      split
      · trivial
      · refine (halts_db _).bind fun uses => ?_
        split <;> trivial

/-- A coupon is applied exactly when one is given. -/
theorem validateCouponForUser_yields (code : Option String) (user : ObjectId) (subtotal : Cents)
    (tenant : String) (now : Time) :
    (validateCouponForUser code user subtotal tenant now).Yields fun outcome =>
      outcome.coupon.isSome = (code.filter (· ≠ "")).isSome := by
  unfold validateCouponForUser
  split
  · next hnone => rw [hnone]; rfl
  · next code' hsome =>
    rw [hsome]
    refine (Prog.yields_true _).bind fun coupon _ => ?_
    cases coupon with
    | none => trivial
    | some coupon =>
      dsimp only
      split
      · trivial
      · refine (Prog.yields_true _).bind fun uses _ => ?_
        split
        · trivial
        · rfl

theorem validateCouponForUser_spec (value : CheckoutInput) (user : ObjectId) (subtotal : Cents)
    (tenant : String) (now : Time) (reservations : List InventoryReservation) :
    (attempt (validateCouponForUser value.couponCode user subtotal tenant now)).Spec
      (Reserved s₀ reservations)
      (fun outcome undo t => (outcome.coupon.isSome ↔ value.GivesCoupon) ∧
        Reserved s₀ reservations undo t) (Left s₀ given) := by
  have hissues := validateCouponForUser_issues value.couponCode user subtotal tenant now
  refine .attempt (validateCouponForUser_halts _ _ _ _ _) (fun undo s o t h hreach => ?_)
    fun undo s r t h heval => ?_
  · obtain ⟨hreads, rfl⟩ := hissues.reaches (I := (· = s))
      (fun o ho s' hs' => by rw [exec_reads ho, hs']) rfl hreach
    refine h.1.left fun id version ho => ?_
    obtain rfl := Option.some_inj.1 ho
    exact hreads.elim
  · have hsame : t = s := by
      have := hissues.eval (M := mongo) (I := (· = s)) (fun o ho s' hs' => by rw [exec_reads ho, hs']) rfl
      rwa [heval] at this
    subst hsame
    cases r with
    | ok outcome =>
      have hyields := validateCouponForUser_yields value.couponCode user subtotal tenant now
      have hsome := hyields.eval heval
      exact ⟨by rw [CheckoutInput.GivesCoupon, hsome], h⟩
    | error e => exact h.1.left (by simp)

/-- What stands after the redemption is recorded: nothing takes it back. -/
structure Placed (s₀ : Db) (given : Prop) (undo : List DbOp) (t : Db) : Prop where
  isUndo : ∀ o ∈ undo, o.IsUndo
  carts : t.carts = s₀.carts
  back : SameShop s₀ (undone undo t) ↔ ¬ given

theorem redemptionCreate_spec (coupon : Option Coupon) (hgiven : coupon.isSome ↔ given)
    (row : Coupon → CouponRedemption) (reservations : List InventoryReservation) :
    (coupon.forM fun coupon => attempt (db (.redemptionCreate (row coupon)))).Spec
      (Reserved s₀ reservations) (fun _ => Placed s₀ given) (Left s₀ given) := by
  cases coupon with
  | none =>
    refine .pure fun undo s h => ⟨h.1.isUndo, h.1.carts, iff_of_true h.1.back ?_⟩
    simpa using hgiven
  | some coupon =>
    refine .call (fun undo s h => h.1.left (by simp)) fun undo s r t h hexec => ?_
    simp only [mongo, Db.exec] at hexec
    split at hexec
    · obtain ⟨rfl, rfl⟩ := Prod.mk.inj hexec
      exact h.1.left (by simp)
    · obtain ⟨rfl, rfl⟩ := Prod.mk.inj hexec
      refine ⟨h.1.isUndo, h.1.carts, iff_of_false (fun hback => ?_) ?_⟩
      · have hcount := hback.redeemed (row coupon).coupon (row coupon).user
        rw [← h.1.redeemed, Db.redeemed, (undone_keeps h.1.isUndo _).1, Db.redeemed,
          List.countP_append] at hcount
        simp at hcount
      · simpa using hgiven

theorem forM_claimCoupon_spec (coupon : Option Coupon) (reservations : List InventoryReservation) :
    (coupon.forM claimCoupon).Spec (Reserved s₀ reservations) (fun _ => Reserved s₀ reservations)
      (Left s₀ given) := by
  cases coupon with
  | none => exact .pure fun undo s h => h
  | some coupon => exact claimCoupon_spec coupon reservations

theorem exec_cartClear {cart : Cart} {t : Db} (hcart : t.carts.get? cart.id = some cart) :
    ∃ u, mongo.exec (.cartClear cart.id cart.version) t = (.ok (), u) := by
  refine ⟨{ t with carts := t.carts.update cart.id Cart.clear }, ?_⟩
  simp only [mongo, Db.exec, hcart, if_true]
  rfl

theorem placeOrder_spec (limits : Limits) (req : AuthedRequest) (value : CheckoutInput) (now : Time)
    {cart : Cart} (hcart : s₀.carts.get? cart.id = some cart) :
    (placeOrder limits req value now cart).Spec (Rollback s₀) (fun _ _ _ => True)
      (Left s₀ value.GivesCoupon) := by
  unfold placeOrder
  refine CheckoutM.Spec.bind ((reserveItems_spec req _ cart.items ⟨[], [], 0⟩).mono
    fun undo s h => ⟨h, by simp⟩) fun lines => ?_
  refine (validateCouponForUser_spec value _ _ _ now lines.reservations).bind fun outcome => ?_
  refine .of_and fun hgiven => ?_
  refine (forM_claimCoupon_spec outcome.coupon lines.reservations).bind fun _ => ?_
  let Q : Order → List DbOp → Db → Prop := fun order undo =>
    Reserved s₀ lines.reservations (.orderDelete order.id :: undo)
  refine CheckoutM.Spec.bind (Q := Q) (.call (fun undo s h => h.1.left (by simp)) ?_) fun order => ?_
  · intro undo s r t h hexec
    obtain ⟨rfl, -⟩ := Prod.mk.inj hexec
    exact h.push (h.1.orderCreate hexec)
  refine CheckoutM.Spec.bind (Q := fun _ => Reserved s₀ lines.reservations)
    (.pushUndo fun undo s h => h) fun _ => ?_
  refine CheckoutM.Spec.bind (Q := fun _ => Reserved s₀ lines.reservations)
    (.call (fun undo s h => h.1.left (by simp)) ?_) fun _ => ?_
  · intro undo s r t h hexec
    obtain ⟨rfl, rfl⟩ := Prod.mk.inj hexec
    refine ⟨h.1.reservationLink order.id fun id hid => ?_, h.2⟩
    obtain ⟨r, hr, rfl⟩ := List.mem_map.1 hid
    exact h.2 r hr
  refine (redemptionCreate_spec outcome.coupon hgiven _ _).bind fun _ => ?_
  refine CheckoutM.Spec.bind (Q := fun _ _ _ => True) (.call ?_ ?_) fun _ => .pure fun _ _ _ => trivial
  · intro undo s h
    refine ⟨h.isUndo, h.back.trans ?_⟩
    simp
  · intro undo s r t h hexec
    rw [← h.carts] at hcart
    obtain ⟨u, hok⟩ := exec_cartClear hcart
    obtain ⟨rfl, -⟩ := Prod.mk.inj (hok.symm.trans hexec)
    trivial

theorem checkoutSteps_spec (limits : Limits) (req : AuthedRequest) (value : CheckoutInput)
    (now : Time) :
    (checkoutSteps limits req value now).Spec (fun undo s => undo = [] ∧ s = s₀) (fun _ _ _ => True)
      (Left s₀ value.GivesCoupon) := by
  have hstart : ∀ undo s, undo = [] ∧ s = s₀ → Rollback s₀ undo s := by
    rintro _ _ ⟨rfl, rfl⟩
    exact .start _
  let Q : Option Cart → List DbOp → Db → Prop := fun found undo t =>
    (∀ cart, found = some cart → s₀.carts.get? cart.id = some cart) ∧ Rollback s₀ undo t
  refine CheckoutM.Spec.bind (Q := Q) (.call (fun undo s h => (hstart undo s h).left (by simp)) ?_)
    fun found => .of_and fun hfound => ?_
  · intro undo s r t h hexec
    obtain ⟨rfl, rfl⟩ := Prod.mk.inj hexec
    refine ⟨fun cart hcart => ?_, hstart _ _ h⟩
    rw [← h.2]
    exact get?_eq_some.2 ⟨List.mem_of_find?_eq_some hcart, rfl⟩
  · cases found with
    | none => exact .throw fun undo s h => h.left (by simp)
    | some cart =>
      dsimp only
      split
      · exact .throw fun undo s h => h.left (by simp)
      · exact placeOrder_spec limits req value now (hfound cart rfl)

end Steps

/-! ## All or nothing -/

/-- A checkout that throws on a standalone server, its undo calls succeeding, leaves the shop as it
was before, unless it is the clearing of the cart that failed and a coupon was given. -/
theorem checkout_rolledBack (limits : Limits) (req : AuthedRequest) (value : CheckoutInput)
    (now : Time) {φ : Faults Mongo} (hφ : SparesUndo φ) {s t : Db} {e : ApiError}
    (h : (executeCheckout limits req value now false).run mongo φ s = (.error e, t)) :
    SameShop s t ↔ ¬ ((∃ id version, (executeCheckout limits req value now false).struck mongo φ s =
      some (.cartClear id version)) ∧ value.GivesCoupon) := by
  obtain ⟨r, undo, ψ, u, heval, hr⟩ := checkoutSteps_spec limits req value now φ [] s hφ ⟨rfl, rfl⟩
  have hψ := sparesUndo_eval ((checkoutSteps limits req value now).run.run []) hφ s
  rw [heval] at hψ
  have hstruck : (executeCheckout limits req value now false).struck mongo φ s = _ :=
    Prog.struck_bind _ _ φ s
  rw [Prog.run, executeCheckout, Prog.bind_def, Prog.eval_bind, heval] at h
  rw [heval] at hstruck
  cases r with
  | ok result => cases h
  | error err =>
    obtain ⟨hundo, hsame⟩ := hr
    obtain ⟨hrun, hspared⟩ := run_compensate_throw hundo hψ u err
    obtain rfl : undone undo u = t := (Prod.mk.inj (hrun.symm.trans h)).2
    have hrest : (executeCheckout limits req value now false).struck mongo φ s =
        ((checkoutSteps limits req value now).run.run []).struck mongo φ s :=
      hstruck.trans ((congrArg _ hspared).trans Option.or_none)
    rw [hrest]
    exact hsame

/-- The sample shop with a coupon. -/
def couponDb : Db :=
  { sampleDb with
    coupons := (∅ : Collection Coupon).insert
      ⟨0, "t", "HALF", .percentage, 50, none, 0, 10, 1, 0, none, none, true, none⟩ rfl }

/-- The checkout of the sample cart with the coupon. -/
def couponCheckout : MongoM CheckoutResult :=
  executeCheckout ⟨15, 30⟩ sampleUser ⟨⟨"a", none, "c", "s", "p", "x"⟩, "manual", some "HALF"⟩ 0 false

/-- The call fails wherever a redemption is recorded. -/
def redemptionFails : Faults Mongo
  | _, .redemptionCreate _ => true
  | _, _ => false

/-- The call fails wherever a cart is cleared. -/
def clearingFails : Faults Mongo
  | _, .cartClear .. => true
  | _, _ => false

theorem exists_error {α : Type} {x : Except ApiError α} (h : x.toOption = none) :
    ∃ e, x = .error e := by
  cases x with
  | ok a => cases h
  | error e => exact ⟨e, rfl⟩

/-- A redemption that cannot be recorded: stock, coupon and order are taken back. -/
theorem checkout_rolledBack_redemption :
    SparesUndo redemptionFails ∧
      ∃ e t, couponCheckout.run mongo redemptionFails couponDb = (.error e, t) ∧
        couponCheckout.struck mongo redemptionFails couponDb =
          some (.redemptionCreate ⟨0, "t", 1, 0⟩) ∧ SameShop couponDb t := by
  have hspares : SparesUndo redemptionFails := fun n o ho => by cases o <;> first | rfl | exact ho.elim
  have hstruck : couponCheckout.struck mongo redemptionFails couponDb =
      some (.redemptionCreate ⟨0, "t", 1, 0⟩) := by
    decide +kernel
  obtain ⟨e, he⟩ := exists_error
    (by decide +kernel : (couponCheckout.run mongo redemptionFails couponDb).1.toOption = none)
  refine ⟨hspares, e, _, Prod.ext he rfl, hstruck, ?_⟩
  refine (checkout_rolledBack _ _ _ _ hspares (Prod.ext he rfl)).2 ?_
  rintro ⟨⟨id, version, hclear⟩, -⟩
  cases hstruck.symm.trans hclear

/-- The cart cannot be cleared: the redemption stays, and the customer has used the coupon up. -/
theorem checkout_rolledBack_counterexample :
    SparesUndo clearingFails ∧
      ∃ e t, couponCheckout.run mongo clearingFails couponDb = (.error e, t) ∧
        t.redeemed 0 1 = couponDb.redeemed 0 1 + 1 ∧ ¬ SameShop couponDb t := by
  have hspares : SparesUndo clearingFails := fun n o ho => by cases o <;> first | rfl | exact ho.elim
  obtain ⟨e, he⟩ := exists_error
    (by decide +kernel : (couponCheckout.run mongo clearingFails couponDb).1.toOption = none)
  have hredeemed : (couponCheckout.run mongo clearingFails couponDb).2.redeemed 0 1 =
      couponDb.redeemed 0 1 + 1 := by decide +kernel
  refine ⟨hspares, e, _, Prod.ext he rfl, hredeemed, fun h => ?_⟩
  have hsame : (couponCheckout.run mongo clearingFails couponDb).2.redeemed 0 1 =
      couponDb.redeemed 0 1 := h.redeemed 0 1
  omega

end Ecommerce
