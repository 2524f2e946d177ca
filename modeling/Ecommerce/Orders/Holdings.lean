import Ecommerce.Inventory.Stale

/-!
# Orders and what they hold

The three states of an order go together, and with them what its reservations are: a waiting order
has its items reserved, a paid one that is not cancelled has them committed, and a failed, refunded or
cancelled one has nothing left but what a sweep owes. Each transaction of a handler keeps this.
-/

namespace Ecommerce

open Effect Effect.Collection

/-! ## The states of an order -/

/-- The states that an order can be in together. -/
structure Order.Consistent (o : Order) : Prop where
  pending : o.status = .pending → o.paymentStatus = .unpaid ∨ o.paymentStatus = .failed
  fulfilled : o.status ∈ STATUS_FOR_RANK → o.paymentStatus = .paid ∨ o.paymentStatus = .refunded
  kept : o.status = .cancelled → o.paymentStatus = .paid → o.refundStatus = .requested
  processed : o.refundStatus = .processed ↔ o.paymentStatus = .refunded
  captured : o.paymentStatus ≠ .authorized
  current : o.status ≠ .refundRequested ∧ o.status ≠ .refunded

theorem OrderDraft.consistent (d : OrderDraft) (id : ObjectId) (now : Time) :
    (d.order id now).Consistent where
  pending _ := .inl rfl
  fulfilled h := by simp [OrderDraft.order, STATUS_FOR_RANK] at h
  kept h := by cases h
  processed := by simp [OrderDraft.order]
  captured h := by cases h
  current := by simp [OrderDraft.order]

theorem OrderTransition.Legal.consistent {t : OrderTransition} (ht : t.Legal) {o : Order}
    (ho : o.Consistent) (hguard : (OrderUpdate.transition t).guard o) (now : Time) :
    ((OrderUpdate.transition t).apply now o).Consistent := by
  obtain ⟨hpayment, hstatus⟩ : o.paymentStatus = t.fromPayment ∧ o.status = t.fromStatus := by
    simpa [OrderUpdate.guard] using hguard
  have hedge := ht.edge
  have htarget := ht.target
  rw [← hpayment] at hedge
  have hto : t.toStatus = if t.toPayment = .paid ∧ o.status = .pending then .confirmed else o.status := by
    rw [hstatus]
    exact ht.status
  refine ⟨fun h => ?_, fun h => ?_, fun h hpaid => ?_, ?_, htarget, ?_⟩
  · have h' : t.toStatus = .pending := h
    show t.toPayment = .unpaid ∨ t.toPayment = .failed
    rw [hto] at h'
    split at h'
    · cases h'
    · next hnot =>
      rcases ho.pending h' with hp | hp <;> rw [hp] at hedge
      · cases hq : t.toPayment <;> simp_all [allowedTransitions]
      · simp [allowedTransitions] at hedge
  · have h' : t.toStatus ∈ STATUS_FOR_RANK := h
    show t.toPayment = .paid ∨ t.toPayment = .refunded
    rw [hto] at h'
    split at h'
    · next hboth => exact .inl hboth.1
    · rcases ho.fulfilled h' with hp | hp <;> rw [hp] at hedge
      · simp_all [allowedTransitions]
      · simp [allowedTransitions] at hedge
  · have h' : t.toStatus = .cancelled := h
    have hpaid' : t.toPayment = .paid := hpaid
    rw [hto] at h'
    split at h'
    · cases h'
    · exact absurd (hstatus ▸ h') (ht.not_cancelled hpaid')
  · have hopen : o.paymentStatus ≠ .refunded := by
      intro hp
      rw [hp] at hedge
      simp [allowedTransitions] at hedge
    show t.toRefund.getD o.refundStatus = .processed ↔ t.toPayment = .refunded
    rw [ht.refund]
    split
    · next hrefunded => simp [hrefunded]
    · next hnot =>
      simp only [Option.getD_none, hnot, iff_false]
      exact fun h => hopen (ho.processed.1 h)
  · show t.toStatus ≠ .refundRequested ∧ t.toStatus ≠ .refunded
    rw [hto]
    split
    · exact ⟨by decide, by decide⟩
    · exact ho.current

/-- The updates that handlers make keep the states of an order together. -/
theorem OrderUpdate.Legal.consistent {u : OrderUpdate} (hu : u.Legal) {o : Order} (ho : o.Consistent)
    (hguard : u.guard o) (now : Time) : (u.apply now o).Consistent := by
  cases u with
  | transition t => exact OrderTransition.Legal.consistent hu ho hguard now
  | cancelUnpaid owned reason =>
    obtain ⟨-, hunpaid⟩ : _ ∧ (o.paymentStatus = .unpaid ∨ o.paymentStatus = .failed) := by
      simpa [OrderUpdate.guard] using hguard
    refine ⟨?_, fun h => ?_, fun _ hpaid => ?_, ho.processed, ho.captured, by simp [OrderUpdate.apply]⟩
    · exact fun h : OrderStatus.cancelled = .pending => by cases h
    · simp [OrderUpdate.apply, STATUS_FOR_RANK] at h
    · have hpaid' : o.paymentStatus = .paid := hpaid
      rcases hunpaid with h | h <;> rw [h] at hpaid' <;> cases hpaid'
  | cancelPaid owned reason =>
    obtain ⟨⟨-, hpaid⟩, -⟩ : (_ ∧ (o.paymentStatus = .paid ∨ o.paymentStatus = .authorized)) ∧ _ := by
      simpa [OrderUpdate.guard] using hguard
    refine ⟨?_, fun h => ?_, fun _ _ => rfl, ?_, ho.captured, by simp [OrderUpdate.apply]⟩
    · exact fun h : OrderStatus.cancelled = .pending => by cases h
    · simp [OrderUpdate.apply, STATUS_FOR_RANK] at h
    · rcases hpaid with h | h <;> simp [OrderUpdate.apply, h]
  | requestRefund owned windowStart reason =>
    obtain ⟨⟨⟨⟨-, hpaid⟩, -⟩, hdelivered⟩, -⟩ : (((_ ∧ o.paymentStatus = .paid) ∧ _) ∧
        o.status ∈ REFUNDABLE_STATUSES) ∧ _ := by
      simpa [OrderUpdate.guard] using hguard
    refine ⟨ho.pending, ho.fulfilled, fun _ _ => rfl, ?_, ho.captured, ho.current⟩
    simp [OrderUpdate.apply, hpaid]
  | expire id =>
    obtain ⟨-, hunpaid⟩ : o.status = .pending ∧ o.paymentStatus = .unpaid := by
      simpa [OrderUpdate.guard] using hguard
    refine ⟨?_, fun h => ?_, fun _ hpaid => ?_, ho.processed, ho.captured, by simp [OrderUpdate.apply]⟩
    · exact fun h : OrderStatus.cancelled = .pending => by cases h
    · simp [OrderUpdate.apply, STATUS_FOR_RANK] at h
    · have hpaid' : o.paymentStatus = .paid := hpaid
      rw [hunpaid] at hpaid'
      cases hpaid'
  | advance id behind status =>
    obtain ⟨hmem, rfl⟩ := hu
    have hbehind : o.status ∈ behindStatuses ((FULFILMENT_RANK status).getD 0) := by
      simpa [OrderUpdate.guard] using hguard
    have hpayment := ho.fulfilled (behindStatuses_subset _ hbehind)
    refine ⟨fun h => ?_, fun _ => hpayment, fun h _ => ?_, ho.processed, ho.captured, ?_⟩
    · have h' : status = .pending := h
      rw [h'] at hmem
      exact absurd hmem (by decide)
    · have h' : status = .cancelled := h
      rw [h'] at hmem
      exact absurd hmem (by decide)
    · show status ≠ .refundRequested ∧ status ≠ .refunded
      constructor
      · rintro rfl
        exact absurd hmem (by decide)
      · rintro rfl
        exact absurd hmem (by decide)

/-- Paid, and not cancelled. -/
def Order.Kept (o : Order) : Prop := o.paymentStatus = .paid ∧ o.status ≠ .cancelled

/-- Failed, refunded or cancelled. -/
def Order.Closed (o : Order) : Prop :=
  o.paymentStatus = .failed ∨ o.paymentStatus = .refunded ∨ o.status = .cancelled

theorem Order.Waiting.not_kept {o : Order} (h : o.Waiting) : ¬ o.Kept := by
  intro hkept
  cases h.2.symm.trans hkept.1

theorem Order.Waiting.not_closed {o : Order} (h : o.Waiting) : ¬ o.Closed := by
  rintro (hc | hc | hc)
  · cases h.2.symm.trans hc
  · cases h.2.symm.trans hc
  · cases h.1.symm.trans hc

theorem Order.Kept.not_closed {o : Order} (h : o.Kept) : ¬ o.Closed := by
  rintro (hc | hc | hc)
  · cases h.1.symm.trans hc
  · cases h.1.symm.trans hc
  · exact h.2 hc

/-! ## What an order holds -/

/-- A line of an order, as its product and its quantity. -/
def OrderItem.goods (i : OrderItem) : ObjectId × ℕ+ := (i.product, i.quantity)

def InventoryReservation.goods (r : InventoryReservation) : ObjectId × ℕ+ := (r.product, r.quantity)

/-- The active reservations of the order are exactly its items, all in this status. -/
def Db.Holds (s : Db) (o : Order) (status : ReservationStatus) : Prop :=
  ((s.activeOf o.id).map fun r => (r.goods, r.status)).Perm (o.items.map fun i => (i.goods, status))

/-- The order's states go together, and its reservations with them, but for those that are owed. -/
structure Db.Suits (s : Db) (owed : InventoryReservation → Prop) (o : Order) : Prop where
  consistent : o.Consistent
  waiting : o.Waiting → s.Holds o .reserved
  kept : o.Kept → s.Holds o .committed
  closed : o.Closed → ∀ r ∈ s.activeOf o.id, owed r

/-- So it is for every order, and every reservation is for one of them. -/
structure Db.Accords (owed : InventoryReservation → Prop) (s : Db) : Prop where
  linked : ∀ r ∈ s.reservations.docs, ∃ k o, r.order = some k ∧ s.orders.get? k = some o
  suits : ∀ o ∈ s.orders.docs, s.Suits owed o

section Accords

variable {owed owed' : InventoryReservation → Prop} {s t : Db} {k : ObjectId}

theorem Db.Suits.congr {o : Order} (h : s.Suits owed o) (hactive : t.activeOf o.id = s.activeOf o.id)
    (howed : ∀ r ∈ s.activeOf o.id, owed r → owed' r) : t.Suits owed' o where
  consistent := h.consistent
  waiting hw := by
    rw [Db.Holds, hactive]
    exact h.waiting hw
  kept hk := by
    rw [Db.Holds, hactive]
    exact h.kept hk
  closed hc r hr := by
    rw [hactive] at hr
    exact howed r hr (h.closed hc r hr)

/-- It depends on what is owed of the active reservations only. -/
theorem Db.Accords.mono (h : s.Accords owed)
    (himp : ∀ r ∈ s.reservations.docs, r.Active → owed r → owed' r) : s.Accords owed' where
  linked := h.linked
  suits o ho := (h.suits o ho).congr rfl fun r hr =>
    himp r (mem_activeOf.1 hr).1 (mem_activeOf.1 hr).2.2

/-- Only the order `k` and its reservations change. -/
theorem Db.Accords.change (h : s.Accords owed)
    (hdocs : ∀ x ∈ t.orders.docs, x ∈ s.orders.docs ∧ x.id ≠ k ∨ t.Suits owed' x)
    (hpresent : ∀ j o, s.orders.get? j = some o → ∃ o', t.orders.get? j = some o')
    (hrows : ∀ r ∈ t.reservations.docs, ∃ r₀ ∈ s.reservations.docs, r₀.order = r.order)
    (hactive : ∀ j, j ≠ k → t.activeOf j = s.activeOf j)
    (howed : ∀ r, r.order ≠ some k → owed r → owed' r) : t.Accords owed' where
  linked r hr := by
    obtain ⟨r₀, hr₀, hsame⟩ := hrows r hr
    obtain ⟨j, o, hj, ho⟩ := h.linked r₀ hr₀
    obtain ⟨o', ho'⟩ := hpresent j o ho
    exact ⟨j, o', hsame ▸ hj, ho'⟩
  suits x hx := by
    rcases hdocs x hx with ⟨hmem, hne⟩ | hsuits
    · refine (h.suits x hmem).congr (hactive x.id hne) fun r hr => howed r ?_
      rw [(mem_activeOf.1 hr).2.1]
      exact fun hid => hne (Option.some_inj.1 hid)
    · exact hsuits

/-- A change of the rows of one order leaves what others hold. -/
theorem activeOf_modify {rows : InventoryReservation → Bool} {status : ReservationStatus}
    (ht : t.reservations = s.reservations.modify rows (InventoryReservation.setStatus status))
    (hrows : ∀ r ∈ s.reservations.docs, rows r → r.order = some k) {j : ObjectId} (hj : j ≠ k) :
    t.activeOf j = s.activeOf j := by
  simp only [Db.activeOf, ht, Collection.modify]
  revert hrows
  induction s.reservations.docs with
  | nil => exact fun _ => rfl
  | cons r rest ih =>
    intro hrows
    have hrest := ih fun x hx => hrows x (List.mem_cons_of_mem _ hx)
    rw [List.map_cons, List.filter_cons, List.filter_cons, hrest]
    by_cases hr : rows r
    · have hk := hrows r (by simp) hr
      have hne : k ≠ j := fun h => hj h.symm
      simp [hr, hk, hne]
    · simp [hr]

theorem mem_modify_order {c : Collection InventoryReservation} {rows : InventoryReservation → Bool}
    {status : ReservationStatus} {r : InventoryReservation}
    (hr : r ∈ (c.modify rows (InventoryReservation.setStatus status)).docs) :
    ∃ r₀ ∈ c.docs, r₀.id = r.id ∧ r₀.order = r.order ∧ (r₀.Active → ¬ rows r₀ → r = r₀) := by
  obtain ⟨x, hx, rfl⟩ := mem_modify.1 hr
  by_cases h : rows x
  · rw [if_pos h]
    exact ⟨x, hx, rfl, rfl, fun _ hnot => absurd h hnot⟩
  · rw [if_neg h]
    exact ⟨x, hx, rfl, rfl, fun _ _ => rfl⟩

/-! ## Settling one order -/

/-- The order as it is after a step, when it was there before. -/
def Db.Becomes (s t : Db) (k : ObjectId) (o' : Order) : Prop :=
  (∀ x ∈ t.orders.docs, x ∈ s.orders.docs ∧ x.id ≠ k ∨ x = o') ∧
    ∀ j o, s.orders.get? j = some o → ∃ o', t.orders.get? j = some o'

theorem Db.Becomes.of_update {u : OrderUpdate} {o : Order} (ho : s.orders.get? u.id = some o)
    {now : Time} (ht : t.orders = s.orders.update u.id (u.patch now)) :
    s.Becomes t u.id (u.apply now o) := by
  constructor
  · rw [ht]
    exact fun x hx => (mem_update ho).1 hx
  · intro j x hx
    rw [ht]
    by_cases hj : j = u.id
    · exact ⟨(u.patch now).run x, (get?_update _ _ _ _).trans (by rw [if_pos hj, hx]; rfl)⟩
    · exact ⟨x, (get?_update _ _ _ _).trans ((if_neg hj).trans hx)⟩

theorem Db.Becomes.refl {o : Order} (ho : s.orders.get? k = some o) (ht : t.orders = s.orders) :
    s.Becomes t k o := by
  constructor
  · rw [ht]
    intro x hx
    by_cases hid : x.id = k
    · exact .inr (Option.some_inj.1 ((get?_eq_some.2 ⟨hx, hid⟩).symm.trans ho))
    · exact .inl ⟨hx, hid⟩
  · exact fun j x hx => ⟨x, ht ▸ hx⟩

/-- The order is closed, and its reservations are released with it. -/
theorem Db.Accords.release (h : s.Accords owed) {o' : Order} (hbecomes : s.Becomes t k o')
    (hid : o'.id = k) (hconsistent : o'.Consistent) (hclosed : o'.Closed)
    {status : ReservationStatus} (hs : ¬ status.Active)
    (ht : t.reservations = s.reservations.modify (Db.holdsFor k) (InventoryReservation.setStatus status))
    (howed : ∀ r, r.order ≠ some k → owed r → owed' r) : t.Accords owed' := by
  have hnone : t.activeOf k = [] := by
    have hreleased : (s.releaseOrder k status).activeOf k = [] := activeOf_releaseOrder hs
    simp only [Db.activeOf, Db.releaseOrder] at hreleased
    simpa only [Db.activeOf, ht] using hreleased
  have hholds : ∀ r ∈ s.reservations.docs, Db.holdsFor k r → r.order = some k := by
    intro r _ hr
    simpa [Db.holdsFor] using (Bool.and_eq_true_iff.1 hr).1
  refine h.change (k := k) (fun x hx => ?_) hbecomes.2 (fun r hr => ?_)
    (fun j hj => activeOf_modify ht hholds hj) howed
  · refine (hbecomes.1 x hx).imp_right ?_
    rintro rfl
    refine ⟨hconsistent, fun hw => absurd hclosed hw.not_closed, fun hk => absurd hclosed hk.not_closed,
      fun _ r hr => ?_⟩
    rw [hid, hnone] at hr
    cases hr
  · rw [ht] at hr
    obtain ⟨r₀, hr₀, -, hsame, -⟩ := mem_modify_order hr
    exact ⟨r₀, hr₀, hsame⟩

/-- What is reserved for the order is committed. -/
def Db.committing (k : ObjectId) (r : InventoryReservation) : Bool :=
  r.order == some k && r.status == .reserved

theorem activeOf_commit
    (ht : t.reservations = s.reservations.modify (Db.committing k) (InventoryReservation.setStatus .committed)) :
    t.activeOf k = (s.activeOf k).map fun r =>
      if r.status = .reserved then (InventoryReservation.setStatus .committed).run r else r := by
  simp only [Db.activeOf, ht, Collection.modify]
  induction s.reservations.docs with
  | nil => rfl
  | cons r rest ih =>
    rw [List.map_cons, List.filter_cons, List.filter_cons, ih]
    by_cases hk : r.order = some k
    · by_cases hr : r.status = .reserved
      · simp [Db.committing, hk, hr, InventoryReservation.Active, ReservationStatus.Active]
      · by_cases hactive : r.Active
        · simp [Db.committing, hk, hr, hactive]
        · simp [Db.committing, hk, hr, hactive]
    · simp [Db.committing, hk]

theorem Db.Holds.commit {o o' : Order} {status : ReservationStatus} (h : s.Holds o status)
    (hid : o'.id = o.id) (hitems : o'.items = o.items) (hk : o.id = k)
    (hstatus : status = .reserved ∨ status = .committed)
    (ht : t.reservations = s.reservations.modify (Db.committing k) (InventoryReservation.setStatus .committed)) :
    t.Holds o' .committed := by
  have hlines := h.map fun x : (ObjectId × ℕ+) × ReservationStatus =>
    (x.1, if x.2 = .reserved then ReservationStatus.committed else x.2)
  rw [Db.Holds, hid, hk, activeOf_commit ht, hitems, ← hk]
  rw [List.map_map, List.map_map] at hlines
  rw [List.map_map]
  refine ((List.Perm.of_eq (List.map_congr_left fun r _ => ?_)).trans hlines).trans
    (List.Perm.of_eq (List.map_congr_left fun i _ => ?_))
  · by_cases hr : r.status = .reserved
    · simp [hr, InventoryReservation.goods]
    · simp [hr, InventoryReservation.goods]
  · rcases hstatus with rfl | rfl <;> simp

end Accords

/-! ## What stays -/

/-- The payment has moved along the table, and what was cancelled still is. -/
def Order.Later (a b : Order) : Prop :=
  Relation.ReflTransGen (fun p q => q ∈ allowedTransitions p) a.paymentStatus b.paymentStatus ∧
    (a.status = .cancelled → b.status = .cancelled)

theorem OrderUpdate.Legal.later {u : OrderUpdate} (hu : u.Legal) {o : Order} (hguard : u.guard o)
    (now : Time) : o.Later (u.apply now o) := by
  constructor
  · rcases hu.paymentMoves now o hguard with hsame | hedge
    · rw [hsame]
    · exact .single hedge
  · intro hcancelled
    rcases hu.edge hguard now with hsame | hedge
    · exact hsame.symm.trans hcancelled
    · rw [StatusEdge, hcancelled] at hedge
      simp [fulfilmentTransitions] at hedge

/-- Orders stay and move on, and reservations keep their order. -/
structure Db.Carries (s t : Db) : Prop where
  orders : ∀ k o, s.orders.get? k = some o → ∃ o', t.orders.get? k = some o' ∧ o.Later o'
  rows : ∀ r ∈ t.reservations.docs,
    (∃ r₀ ∈ s.reservations.docs, r₀.id = r.id ∧ r₀.order = r.order) ∨ s.reservations.next ≤ r.id
  next : s.reservations.next ≤ t.reservations.next

section Carries

variable {s t u : Db}

theorem Order.Later.refl (o : Order) : o.Later o := ⟨.refl, fun h => h⟩

theorem Order.Later.trans {a b c : Order} (h : a.Later b) (h' : b.Later c) : a.Later c :=
  ⟨h.1.trans h'.1, fun hc => h'.2 (h.2 hc)⟩

theorem Db.Carries.of_modify {rows : InventoryReservation → Bool} {status : ReservationStatus}
    (horders : t.orders = s.orders)
    (ht : t.reservations = s.reservations.modify rows (InventoryReservation.setStatus status)) :
    s.Carries t where
  orders k o ho := ⟨o, horders ▸ ho, .refl o⟩
  rows r hr := by
    rw [ht] at hr
    obtain ⟨r₀, hr₀, hid, hsame, -⟩ := mem_modify_order hr
    exact .inl ⟨r₀, hr₀, hid, hsame⟩
  next := by
    rw [ht]
    exact le_rfl

theorem Db.Carries.of_eq (horders : t.orders = s.orders) (hrows : t.reservations = s.reservations) :
    s.Carries t where
  orders _ o ho := ⟨o, horders ▸ ho, .refl o⟩
  rows r hr := .inl ⟨r, hrows ▸ hr, rfl, rfl⟩
  next := hrows ▸ le_rfl

theorem Db.Carries.trans (h : s.Carries t) (h' : t.Carries u) : s.Carries u where
  orders k o ho := by
    obtain ⟨o', ho', hlater⟩ := h.orders k o ho
    obtain ⟨o'', ho'', hlater'⟩ := h'.orders k o' ho'
    exact ⟨o'', ho'', hlater.trans hlater'⟩
  rows r hr := by
    rcases h'.rows r hr with ⟨r₁, hr₁, hid, horder⟩ | hfresh
    · rcases h.rows r₁ hr₁ with ⟨r₀, hr₀, hid', horder'⟩ | hfresh
      · exact .inl ⟨r₀, hr₀, hid'.trans hid, horder'.trans horder⟩
      · exact .inr (hid ▸ hfresh)
    · exact .inr (h.next.trans hfresh)
  next := h.next.trans h'.next

theorem Db.Carries.of_update {w : OrderUpdate} (hw : w.Legal) {o : Order}
    (ho : s.orders.get? w.id = some o) (hguard : w.guard o) {now : Time}
    (ht : t.orders = s.orders.update w.id (w.patch now)) (hrows : t.reservations = s.reservations) :
    s.Carries t where
  orders k x hx := by
    rw [ht]
    by_cases hk : k = w.id
    · subst hk
      obtain rfl := Option.some_inj.1 (ho.symm.trans hx)
      refine ⟨w.apply now o, (get?_update_self _ _ _).trans ?_, hw.later hguard now⟩
      rw [ho]
      rfl
    · exact ⟨x, (get?_update _ _ _ _).trans ((if_neg hk).trans hx), .refl x⟩
  rows r hr := .inl ⟨r, hrows ▸ hr, rfl, rfl⟩
  next := hrows ▸ le_rfl

end Carries

/-! ## Transactions -/

/-- What is owed of a reservation does not depend on its status. -/
def Steady (owed : InventoryReservation → Prop) : Prop :=
  ∀ r status, owed r → owed ((InventoryReservation.setStatus status).run r)

/-- Whatever is owed, orders and reservations go together as before. -/
structure Db.Keeps (s t : Db) : Prop where
  accords : ∀ owed, Steady owed → s.Accords owed → t.Accords owed
  carries : s.Carries t

/-- Calls that leave orders and reservations alone. -/
def DbOp.Untouching (o : DbOp) : Prop :=
  o.Quiet ∨ match o with
    | .paymentCreateEvent _ | .productReserve .. | .productRestock _ | .couponClaim ..
    | .redemptionCreate _ | .cartClear .. | .shipmentUpsert .. => True
    | _ => False

theorem exec_untouching {o : DbOp} (h : o.Untouching) (s : Db) :
    (mongo.exec o s).2.orders = s.orders ∧ (mongo.exec o s).2.reservations = s.reservations := by
  rcases h with h | h
  · cases o <;> first | exact ⟨rfl, rfl⟩ | exact h.elim
  · cases o with
    | paymentCreateEvent event =>
      simp only [mongo, Db.exec]
      split <;> exact ⟨rfl, rfl⟩
    | redemptionCreate redemption =>
      simp only [mongo, Db.exec]
      split <;> exact ⟨rfl, rfl⟩
    | productRestock r => exact ⟨rfl, rfl⟩
    | productReserve id tenant quantity =>
      simp only [mongo, Db.exec]
      repeat' split
      all_goals exact ⟨rfl, rfl⟩
    | couponClaim id usageLimit =>
      simp only [mongo, Db.exec]
      repeat' split
      all_goals exact ⟨rfl, rfl⟩
    | cartClear id version =>
      simp only [mongo, Db.exec]
      repeat' split
      all_goals exact ⟨rfl, rfl⟩
    | shipmentUpsert shipment existing =>
      simp only [mongo, Db.exec]
      repeat' split
      all_goals exact ⟨rfl, rfl⟩
    | _ => exact h.elim

section Keeps

variable {s t u : Db} {k : ObjectId}

theorem Db.Accords.of_eq {owed : InventoryReservation → Prop} (h : s.Accords owed)
    (horders : t.orders = s.orders) (hrows : t.reservations = s.reservations) : t.Accords owed where
  linked := by
    rw [horders, hrows]
    exact h.linked
  suits o ho := by
    rw [horders] at ho
    refine (h.suits o ho).congr ?_ fun _ _ howed => howed
    simp only [Db.activeOf, hrows]

theorem Db.Keeps.of_eq (horders : t.orders = s.orders) (hrows : t.reservations = s.reservations) :
    s.Keeps t :=
  ⟨fun _ _ h => h.of_eq horders hrows, .of_eq horders hrows⟩

theorem Db.Keeps.refl (s : Db) : s.Keeps s := .of_eq rfl rfl

theorem Db.Keeps.trans (h : s.Keeps t) (h' : t.Keeps u) : s.Keeps u :=
  ⟨fun owed hsteady hs => h'.accords owed hsteady (h.accords owed hsteady hs), h.carries.trans h'.carries⟩

/-- What follows the settlement of an order. -/
theorem Db.Keeps.then {α : Type} (h : s.Keeps t) {p : MongoM α} (hp : p.Issues DbOp.Untouching) :
    s.Keeps (p.eval mongo t).2 := by
  obtain ⟨horders, hrows⟩ := Prog.Issues.eval (M := mongo)
    (I := fun x => x.orders = t.orders ∧ x.reservations = t.reservations) hp
    (fun o ho x hx => by
      obtain ⟨horders, hrows⟩ := exec_untouching ho x
      exact ⟨horders.trans hx.1, hrows.trans hx.2⟩) ⟨rfl, rfl⟩
  exact h.trans (.of_eq horders hrows)

end Keeps

section Works

variable {α : Type} {s t : Db} {k : ObjectId} {o' : Order}
variable (hbecomes : s.Becomes t k o') (hrows : t.reservations = s.reservations)
  (hcarries : s.Carries t) (hid : o'.id = k) (hconsistent : ∀ owed, s.Accords owed → o'.Consistent)

include hbecomes hrows hcarries hid hconsistent

/-- Closing an order and releasing what it holds. -/
theorem release_keeps (hclosed : o'.Closed) {f : Nat → MongoM α} (hf : ∀ n, (f n).Issues DbOp.Untouching) :
    s.Keeps ((releaseOrderReservations k .released >>= f).eval mongo t).2 := by
  rw [Prog.bind_def, Prog.eval_bind, eval_releaseOrderReservations (by decide)]
  have hreleased : s.Keeps (t.releaseOrder k .released) := by
    constructor
    · intro owed _ hs
      have hbecomes' : s.Becomes (t.releaseOrder k .released) k o' := hbecomes
      refine hs.release hbecomes' hid (hconsistent owed hs) hclosed
        (by decide : ¬ ReservationStatus.released.Active) ?_ fun _ _ h => h
      rw [← hrows]
      rfl
    · exact hcarries.trans (.of_modify rfl rfl)
  exact hreleased.then (hf _)

/-- A paid order, and what is reserved for it committed. -/
theorem commit_keeps (hpaid : o'.paymentStatus = .paid ∨ o'.paymentStatus = .refunded)
    (hkept : ∀ owed, s.Accords owed → o'.Kept → ∃ o status, s.Holds o status ∧ o.id = k ∧
      o'.items = o.items ∧ (status = .reserved ∨ status = .committed))
    (hclosed : ∀ owed, s.Accords owed → o'.Closed → ∀ r ∈ s.activeOf k, owed r)
    {f : Unit → MongoM α} (hf : (f ()).Issues DbOp.Untouching) :
    s.Keeps ((db (.reservationsCommit k) >>= f).eval mongo t).2 := by
  have hmodify : (mongo.exec (.reservationsCommit k) t).2.reservations =
      s.reservations.modify (Db.committing k) (InventoryReservation.setStatus .committed) := by
    rw [← hrows]
    rfl
  have hcommitted : s.Keeps (mongo.exec (.reservationsCommit k) t).2 := by
    constructor
    · intro owed hsteady hs
      have hcommitting : ∀ r ∈ s.reservations.docs, Db.committing k r → r.order = some k := by
        intro r _ hr
        simpa using (Bool.and_eq_true_iff.1 hr).1
      refine hs.change (k := k) (fun x hx => ?_) hbecomes.2 (fun r hr => ?_)
        (fun j hj => activeOf_modify hmodify hcommitting hj) fun _ _ h => h
      · refine (hbecomes.1 x hx).imp_right ?_
        rintro rfl
        refine ⟨hconsistent owed hs, fun hw => ?_, fun hk => ?_, fun hc r hr => ?_⟩
        · rcases hpaid with hp | hp <;> cases hw.2.symm.trans hp
        · obtain ⟨o, status, hholds, ho, hitems, hstatus⟩ := hkept owed hs hk
          exact hholds.commit (hid.trans ho.symm) hitems ho hstatus hmodify
        · rw [hid, activeOf_commit hmodify] at hr
          obtain ⟨r₀, hr₀, rfl⟩ := List.mem_map.1 hr
          have howed := hclosed owed hs hc r₀ hr₀
          split
          · exact hsteady r₀ _ howed
          · exact howed
      · rw [hmodify] at hr
        obtain ⟨r₀, hr₀, -, hsame, -⟩ := mem_modify_order hr
        exact ⟨r₀, hr₀, hsame⟩
    · exact hcarries.trans (.of_modify rfl rfl)
  exact hcommitted.then hf

end Works

/-! ## The transactions of the handlers -/

section Updates

variable {s : Db}

theorem get?_mem {k : ObjectId} {o : Order} (ho : s.orders.get? k = some o) : o ∈ s.orders.docs :=
  (get?_eq_some.1 ho).1

/-- A cancelling update and what finishes it. -/
theorem finishCancel_keeps {u : OrderUpdate} (hu : u.Legal) {o : Order}
    (ho : s.orders.get? u.id = some o) (hguard : u.guard o) {now : Time}
    (hcancels : (u.apply now o).status = .cancelled) (tenant : String) (refundOpened : Bool) :
    s.Keeps ((finishCancel tenant (u.apply now o) refundOpened).eval mongo
      { s with orders := s.orders.update u.id (u.patch now) }).2 := by
  have hid : (u.apply now o).id = u.id := (u.apply_id now o).trans (get?_key ho)
  have hcarries : s.Carries { s with orders := s.orders.update u.id (u.patch now) } :=
    .of_update hu ho hguard rfl rfl
  have hbecomes : s.Becomes { s with orders := s.orders.update u.id (u.patch now) } u.id (u.apply now o) :=
    .of_update ho rfl
  rw [finishCancel, hid]
  refine release_keeps hbecomes rfl hcarries hid
    (fun owed hs => hu.consistent (hs.suits o (get?_mem ho)).consistent hguard now)
    (.inr (.inr hcancels)) fun _ => ?_
  refine (issues_db (.inl trivial)).bind fun _ => ?_
  cases refundOpened with
  | false => trivial
  | true => exact (issues_db (.inl trivial)).bind fun _ => trivial

theorem update_keeps {α : Type} {u : OrderUpdate} {now : Time} {f : Option Order → MongoM α}
    (hsome : ∀ o, s.orders.get? u.id = some o → u.guard o →
      s.Keeps ((f (some (u.apply now o))).eval mongo
        { s with orders := s.orders.update u.id (u.patch now) }).2)
    (hnone : s.Keeps ((f none).eval mongo s).2) :
    s.Keeps ((db (.orderUpdate u now) >>= f).eval mongo s).2 := by
  obtain ⟨o, ho, hguard, heq⟩ | ⟨-, heq⟩ := exec_orderUpdate u now s
  · have heval : (db (.orderUpdate u now) >>= f).eval mongo s = _ :=
      Prog.eval_perform_bind (S := Mongo) heq
    rw [heval]
    exact hsome o ho hguard
  · have heval : (db (.orderUpdate u now) >>= f).eval mongo s = _ :=
      Prog.eval_perform_bind (S := Mongo) heq
    rw [heval]
    exact hnone

theorem cancelWork_keeps (req : AuthedRequest) (id : ObjectId) (reason : String) (now : Time) (s : Db) :
    s.Keeps ((cancelWork req id reason now).eval mongo s).2 := by
  refine update_keeps (fun o ho hguard =>
    finishCancel_keeps (u := .cancelUnpaid _ _) trivial ho hguard rfl _ _) ?_
  refine update_keeps (fun o ho hguard =>
    finishCancel_keeps (u := .cancelPaid _ _) trivial ho hguard rfl _ _) ?_
  refine Db.Keeps.then (.refl s) ((issues_db (.inl trivial)).bind fun found => ?_)
  cases found <;> trivial

/-- An update that leaves what the order holds as it should be. -/
theorem orderUpdate_keeps {u : OrderUpdate} (hu : u.Legal) {o : Order}
    (ho : s.orders.get? u.id = some o) (hguard : u.guard o) (now : Time)
    (hitems : (u.apply now o).items = o.items) (hwaiting : (u.apply now o).Waiting → o.Waiting)
    (hkept : (u.apply now o).Kept → o.Kept) (hclosed : (u.apply now o).Closed → o.Closed) :
    s.Keeps { s with orders := s.orders.update u.id (u.patch now) } := by
  have hid : (u.apply now o).id = o.id := u.apply_id now o
  have hbecomes : s.Becomes { s with orders := s.orders.update u.id (u.patch now) } u.id (u.apply now o) :=
    .of_update ho rfl
  constructor
  · intro owed _ hs
    have hsuits := hs.suits o (get?_mem ho)
    refine hs.change (k := u.id) (fun x hx => (hbecomes.1 x hx).imp_right ?_) hbecomes.2
      (fun r hr => ⟨r, hr, rfl⟩) (fun _ _ => rfl) fun _ _ h => h
    rintro rfl
    refine ⟨hu.consistent hsuits.consistent hguard now, fun hw => ?_, fun hk => ?_, fun hc => ?_⟩
    · rw [Db.Holds, hid, hitems]
      exact hsuits.waiting (hwaiting hw)
    · rw [Db.Holds, hid, hitems]
      exact hsuits.kept (hkept hk)
    · rw [hid]
      exact hsuits.closed (hclosed hc)
  · exact .of_update hu ho hguard rfl rfl

theorem requestRefundWork_keeps (limits : Limits) (req : AuthedRequest) (id : ObjectId)
    (reason : String) (now : Time) (s : Db) :
    s.Keeps ((requestRefundWork limits req id reason now).eval mongo s).2 := by
  refine update_keeps (fun o ho hguard => ?_) ?_
  · have hupdated := orderUpdate_keeps (u := .requestRefund _ _ _) trivial ho hguard now rfl
      (fun h => h) (fun h => h) fun h => h
    exact hupdated.then ((issues_db (.inl trivial)).bind fun _ => trivial)
  · refine Db.Keeps.then (.refl s) (Prog.Issues.bind (f := fun e => throw e) ?_ fun _ => trivial)
    exact (refundRejection_issues _ _ _ _).mono fun _ h => .inl h

/-- The order has been seen with this payment. -/
def Db.Seen (s : Db) (k : ObjectId) (status : PaymentStatus) : Prop :=
  ∃ o, s.orders.get? k = some o ∧
    Relation.ReflTransGen (fun p q => q ∈ allowedTransitions p) status o.paymentStatus

theorem later_paid {q : PaymentStatus}
    (h : Relation.ReflTransGen (fun p q => q ∈ allowedTransitions p) .paid q) :
    q = .paid ∨ q = .refunded := by
  induction h with
  | refl => exact .inl rfl
  | tail _ hedge ih =>
    rcases ih with rfl | rfl
    · exact .inr (by simpa [allowedTransitions] using hedge)
    · simp [allowedTransitions] at hedge

theorem later_last {p q : PaymentStatus} (hp : allowedTransitions p = [])
    (h : Relation.ReflTransGen (fun p q => q ∈ allowedTransitions p) p q) : q = p := by
  induction h with
  | refl => rfl
  | tail _ hedge ih =>
    rw [ih, hp] at hedge
    cases hedge

/-- A webhook for an order that has been seen in its target state already. -/
theorem settleWebhook_keeps_seen (cfg : WebhookConfig) (d : Delivery) (eventId : String)
    {k : ObjectId} (type : WebhookType) (current : Order) (hseen : s.Seen k (TARGET_STATE type)) :
    s.Keeps ((settleWebhook cfg d eventId k type current).eval mongo s).2 := by
  obtain ⟨o, ho, hlater⟩ := hseen
  have hid : o.id = k := get?_key ho
  have hbecomes : s.Becomes s k o := .refl ho rfl
  have hcarries : s.Carries s := .of_eq rfl rfl
  have hconsistent : ∀ owed, s.Accords owed → o.Consistent :=
    fun owed hs => (hs.suits o (get?_mem ho)).consistent
  rw [settleWebhook]
  split
  · next htarget =>
    rw [htarget] at hlater
    refine commit_keeps hbecomes rfl hcarries hid hconsistent (later_paid hlater)
      (fun owed hs hk => ⟨o, .committed, (hs.suits o (get?_mem ho)).kept hk, hid, rfl, .inr rfl⟩)
      (fun owed hs hc => hid ▸ (hs.suits o (get?_mem ho)).closed hc) ?_
    exact (issues_db (.inr trivial)).bind fun _ => trivial
  · next htarget =>
    have hclosed : o.Closed := by
      cases type with
      | paymentSucceeded => exact absurd rfl htarget
      | paymentFailed => exact .inl (later_last rfl hlater)
      | paymentRefunded => exact .inr (.inl (later_last rfl hlater))
    refine release_keeps hbecomes rfl hcarries hid hconsistent hclosed fun _ => ?_
    exact (issues_db (.inr trivial)).bind fun _ => trivial

/-- An order that is about to be paid waits for its payment. -/
theorem waiting_of_paying {t : OrderTransition} (ht : t.Legal) (hpaid : t.toPayment = .paid) {o : Order}
    (ho : o.Consistent) (hguard : (OrderUpdate.transition t).guard o) : o.Waiting := by
  obtain ⟨hpayment, hstatus⟩ : o.paymentStatus = t.fromPayment ∧ o.status = t.fromStatus := by
    simpa [OrderUpdate.guard] using hguard
  have hedge := ht.edge
  rw [← hpayment, hpaid] at hedge
  have hunpaid : o.paymentStatus = .unpaid := by
    cases hp : o.paymentStatus with
    | unpaid => rfl
    | authorized => exact absurd hp ho.captured
    | _ => simp [hp, allowedTransitions] at hedge
  refine ⟨?_, hunpaid⟩
  have hunshipped : o.status ∉ STATUS_FOR_RANK := by
    intro hmem
    rcases ho.fulfilled hmem with h | h <;> cases hunpaid.symm.trans h
  have hnotcancelled := ht.not_cancelled hpaid
  rw [← hstatus] at hnotcancelled
  cases hs : o.status with
  | pending => rfl
  | cancelled => exact absurd hs hnotcancelled
  | refundRequested => exact absurd hs ho.current.1
  | refunded => exact absurd hs ho.current.2
  | _ => exact absurd (hs ▸ by decide) hunshipped

/-- A webhook that takes the order to its target state. -/
theorem settleWebhook_keeps_moved (cfg : WebhookConfig) (d : Delivery) (eventId : String) {order o : Order}
    {body : WebhookBody} {u : OrderUpdate} (hu : u = .transition (webhookTransition order d.providerName body))
    (hlegal : u.Legal) (ho : s.orders.get? u.id = some o) (hguard : u.guard o) (now : Time)
    (current : Order) :
    s.Keeps ((settleWebhook cfg d eventId order.id body.type current).eval mongo
      { s with orders := s.orders.update u.id (u.patch now) }).2 := by
  have hid : (u.apply now o).id = u.id := (u.apply_id now o).trans (get?_key ho)
  have hcarries : s.Carries { s with orders := s.orders.update u.id (u.patch now) } :=
    .of_update hlegal ho hguard rfl rfl
  have hbecomes : s.Becomes { s with orders := s.orders.update u.id (u.patch now) } u.id (u.apply now o) :=
    .of_update ho rfl
  have hconsistent : ∀ owed, s.Accords owed → (u.apply now o).Consistent :=
    fun owed hs => hlegal.consistent (hs.suits o (get?_mem ho)).consistent hguard now
  subst hu
  rw [settleWebhook]
  split
  · next htarget =>
    have hwaiting : ∀ owed, s.Accords owed → o.Waiting := fun owed hs =>
      waiting_of_paying hlegal htarget (hs.suits o (get?_mem ho)).consistent hguard
    refine commit_keeps hbecomes rfl hcarries hid hconsistent (.inl htarget) (fun owed hs _ => ?_)
      (fun owed hs hc => ?_) ((issues_db (.inr trivial)).bind fun _ => trivial)
    · exact ⟨o, .reserved, (hs.suits o (get?_mem ho)).waiting (hwaiting owed hs), get?_key ho, rfl, .inl rfl⟩
    · have hconfirmed : (webhookTransition order d.providerName body).toStatus = .confirmed := by
        obtain ⟨-, hstatus⟩ : o.paymentStatus = order.paymentStatus ∧ o.status = order.status := by
          simpa [OrderUpdate.guard, webhookTransition] using hguard
        exact if_pos ⟨htarget, hstatus.symm.trans (hwaiting owed hs).1⟩
      rcases hc with hc | hc | hc
      · cases htarget.symm.trans hc
      · cases htarget.symm.trans hc
      · cases hconfirmed.symm.trans hc
  · next htarget =>
    refine release_keeps hbecomes rfl hcarries hid hconsistent ?_
      fun _ => (issues_db (.inr trivial)).bind fun _ => trivial
    cases htype : body.type with
    | paymentSucceeded => exact absurd (htype ▸ rfl) htarget
    | paymentFailed =>
      refine .inl ?_
      show TARGET_STATE body.type = .failed
      rw [htype]
      rfl
    | paymentRefunded =>
      refine .inr (.inl ?_)
      show TARGET_STATE body.type = .refunded
      rw [htype]
      rfl

theorem webhookWork_keeps (cfg : WebhookConfig) (d : Delivery) (eventId : String) {order : Order}
    {body : WebhookBody} (hpayable : Payable (some (order, body))) (now : Time)
    (hseen : s.Seen order.id order.paymentStatus) :
    s.Keeps ((webhookWork cfg d eventId order body now).eval mongo s).2 := by
  obtain ⟨hassert, hcancelled⟩ := hpayable order body rfl
  rw [webhookWork]
  split
  · next hne =>
    have hlegal := webhookTransition_legal d.providerName hne hassert hcancelled
    exact update_keeps (fun o ho hguard =>
      settleWebhook_keeps_moved cfg d eventId rfl hlegal ho hguard now _) (.refl s)
  · next heq =>
    rw [not_not] at heq
    exact settleWebhook_keeps_seen cfg d eventId _ _ (heq ▸ hseen)

end Updates

/-! ## A checkout -/

/-- What a checkout has written: its reservations, its order, and whether they are linked. -/
structure CheckoutNote where
  made : List InventoryReservation
  order : Option Order
  linked : Bool

namespace CheckoutNote

def blank : CheckoutNote := ⟨[], none, false⟩

/-- The reservations as they are now. -/
def rows (g : CheckoutNote) : List InventoryReservation :=
  match g.linked, g.order with
  | true, some o => g.made.map (InventoryReservation.setOrder o.id).run
  | _, _ => g.made

def note : (o : DbOp) → Except ApiError o.Reply → CheckoutNote → CheckoutNote
  | .reservationCreate _, .ok (r : InventoryReservation), g => { g with made := g.made ++ [r] }
  | .orderCreate _ _, .ok (o : Order), g => { g with order := some o }
  | .reservationLink _ _, .ok _, g => { g with linked := true }
  | _, _, g => g

/-- The order has the items that were reserved, and it is linked to all of them. -/
def may : DbOp → CheckoutNote → Prop
  | .reservationCreate _, g => g.order = none ∧ g.linked = false
  | .orderCreate draft _, g =>
    g.order = none ∧ g.linked = false ∧
      draft.items.map OrderItem.goods = g.made.map InventoryReservation.goods
  | .reservationLink ids k, g =>
    g.linked = false ∧ ids = g.made.map (·.id) ∧ ∃ o, g.order = some o ∧ o.id = k
  | o, _ => o.Untouching

end CheckoutNote

/-- The memo of a checkout. -/
def stockingMemo : Memo Mongo ApiError CheckoutNote where
  note := CheckoutNote.note
  may := CheckoutNote.may
  allows o r := ∃ s, r = (mongo.exec o s).1

section Checkout

variable {α β : Type} {P : CheckoutNote → Prop}

/-- A step of checkout that takes the note from `P` to `Q`, or throws. -/
abbrev CheckoutM.Writes (m : CheckoutM α) (P : CheckoutNote → Prop) (Q : α → CheckoutNote → Prop) : Prop :=
  m.Notes stockingMemo (fun _ => P) (fun a _ => Q a) fun _ _ => True

theorem CheckoutM.Writes.bind {m : CheckoutM α} {f : α → CheckoutM β} {Q : α → CheckoutNote → Prop}
    {R : β → CheckoutNote → Prop} (h : m.Writes P Q) (hf : ∀ a, (f a).Writes (Q a) R) :
    (m >>= f).Writes P R := CheckoutM.Notes.bind h hf

theorem writes_unnoted {o : DbOp} (h : stockingMemo.Unnoted o) :
    (attempt (db o)).Writes P fun _ => P :=
  .unnoted (issues_db h) (fun _ _ _ h => h) fun _ _ _ => trivial

theorem writes_pushUndo (o : DbOp) : (pushUndo o).Writes P fun _ => P := .pushUndo fun _ _ h => h

theorem DbOp.Reads.stockingMemo_unnoted {o : DbOp} (h : o.Reads) : stockingMemo.Unnoted o := by
  intro g
  cases o <;> first | exact ⟨.inl trivial, fun _ => rfl⟩ | exact h.elim

/-- The lines that the loop has collected are the reservations made. -/
def CheckoutLines.Made (lines : CheckoutLines) (g : CheckoutNote) : Prop :=
  g.order = none ∧ g.linked = false ∧ lines.reservations = g.made ∧
    lines.orderItems.map OrderItem.goods = g.made.map InventoryReservation.goods

theorem reserveItem_writes (req : AuthedRequest) (expiresAt : Time) (item : CartItem)
    (acc : CheckoutLines) :
    (reserveItem req expiresAt item acc).Writes acc.Made fun acc' => acc'.Made := by
  refine CheckoutM.Writes.bind (writes_unnoted fun _ => ⟨.inr trivial, fun _ => rfl⟩) fun product => ?_
  cases product with
  | none => exact .throw fun _ _ _ => trivial
  | some product =>
    refine (writes_pushUndo _).bind fun _ => ?_
    refine CheckoutM.Writes.bind (Q := fun (reservation : InventoryReservation) g =>
      g.order = none ∧ g.linked = false ∧ acc.reservations ++ [reservation] = g.made ∧
        acc.orderItems.map OrderItem.goods ++ [(product.id, item.quantity)] =
          g.made.map InventoryReservation.goods) (.call fun undo g h => ?_) fun reservation => ?_
    · obtain ⟨horder, hlinked, hmade, hlines⟩ := h
      refine ⟨⟨horder, hlinked⟩, fun r hr => ?_⟩
      obtain ⟨s, rfl⟩ := hr
      refine ⟨horder, hlinked, congrArg (· ++ [_]) hmade, ?_⟩
      show _ = (g.made ++ [_]).map InventoryReservation.goods
      rw [List.map_append, hlines]
      rfl
    · refine (writes_pushUndo _).bind fun _ => .pure fun undo g h => ?_
      obtain ⟨horder, hlinked, hmade, hlines⟩ := h
      refine ⟨horder, hlinked, hmade, ?_⟩
      rw [← hlines, List.map_append]
      rfl

theorem reserveItems_writes (req : AuthedRequest) (expiresAt : Time) (items : List CartItem)
    (acc : CheckoutLines) :
    (reserveItems req expiresAt items acc).Writes acc.Made fun acc' => acc'.Made := by
  induction items generalizing acc with
  | nil => exact .pure fun _ _ h => h
  | cons item rest ih =>
    exact CheckoutM.Writes.bind (reserveItem_writes req expiresAt item acc) fun acc' => ih acc'

theorem claimCoupon_writes (coupon : Coupon) : (claimCoupon coupon).Writes P fun _ => P := by
  refine CheckoutM.Writes.bind (writes_unnoted fun _ => ⟨.inr trivial, fun _ => rfl⟩) fun claimed => ?_
  cases claimed with
  | true => exact writes_pushUndo _
  | false => exact .throw fun _ _ _ => trivial

/-- The order has been written, and linked to what was reserved for it. -/
def CheckoutNote.Ready (g : CheckoutNote) : Prop := g.linked = true ∧ ∃ o, g.order = some o

theorem placeOrder_writes (limits : Limits) (req : AuthedRequest) (value : CheckoutInput) (now : Time)
    (cart : Cart) :
    (placeOrder limits req value now cart).Writes (· = .blank) fun _ => CheckoutNote.Ready := by
  unfold placeOrder
  refine CheckoutM.Writes.bind (Q := fun (lines : CheckoutLines) => lines.Made)
    (fun undo g hg => reserveItems_writes req _ cart.items _ undo g ?_) fun lines => ?_
  · subst hg
    exact ⟨rfl, rfl, rfl, rfl⟩
  refine CheckoutM.Writes.bind (Q := fun _ => lines.Made) (.unnoted ?_ (fun _ _ _ h => h)
    fun _ _ _ => trivial) fun outcome => ?_
  · exact (validateCouponForUser_issues _ _ _ _ _).mono fun _ h => h.stockingMemo_unnoted
  refine CheckoutM.Writes.bind (.forM claimCoupon_writes) fun _ => ?_
  refine CheckoutM.Writes.bind (Q := fun (order : Order) g =>
    g.linked = false ∧ lines.reservations = g.made ∧ g.order = some order)
    (.call fun undo g h => ?_) fun order => ?_
  · obtain ⟨horder, hlinked, hmade, hlines⟩ := h
    refine ⟨⟨horder, hlinked, hlines⟩, fun r _ => ?_⟩
    cases r with
    | ok order => exact ⟨hlinked, hmade, rfl⟩
    | error e => trivial
  refine (writes_pushUndo _).bind fun _ => ?_
  refine CheckoutM.Writes.bind (Q := fun _ => CheckoutNote.Ready) (.call fun undo g h => ?_) fun _ => ?_
  · obtain ⟨hlinked, hmade, horder⟩ := h
    refine ⟨⟨hlinked, congrArg _ hmade, order, horder, rfl⟩, fun r _ => ?_⟩
    cases r with
    | ok _ => exact ⟨rfl, order, horder⟩
    | error e => trivial
  refine CheckoutM.Writes.bind (.forM fun coupon => writes_unnoted fun _ => ⟨.inr trivial, fun _ => rfl⟩)
    fun _ => ?_
  refine CheckoutM.Writes.bind (writes_unnoted fun _ => ⟨.inr trivial, fun _ => rfl⟩) fun _ => ?_
  exact .pure fun _ _ h => h

theorem executeCheckout_stockingMemo (limits : Limits) (req : AuthedRequest) (value : CheckoutInput)
    (now : Time) :
    stockingMemo.Tracks (fun r g => ∀ a, r = .ok a → g.Ready)
      (executeCheckout limits req value now true) .blank := by
  have hsteps : (checkoutSteps limits req value now).Writes (· = .blank)
      fun _ => CheckoutNote.Ready := by
    refine CheckoutM.Writes.bind (writes_unnoted fun _ => ⟨.inl trivial, fun _ => rfl⟩) fun found => ?_
    cases found with
    | none => exact .throw fun _ _ _ => trivial
    | some cart =>
      dsimp only
      split
      · exact .throw fun _ _ _ => trivial
      · exact placeOrder_writes limits req value now cart
  refine Memo.Tracks.bind ((hsteps [] _ rfl).weaken ?_)
  rintro r g ⟨x, undo, rfl, hx⟩
  cases x with
  | ok result => exact fun _ _ => hx
  | error e => exact fun a ha => by cases ha

/-- The database is as it was before the checkout, with what the note says added to it. -/
structure CheckoutNote.Written (s : Db) (g : CheckoutNote) (t : Db) : Prop where
  orders : t.orders.docs = s.orders.docs ++ g.order.toList
  rows : t.reservations.docs = s.reservations.docs ++ g.rows
  next : s.reservations.next ≤ t.reservations.next
  ordersNext : g.order = none → t.orders.next = s.orders.next
  made : ∀ r ∈ g.made, s.reservations.next ≤ r.id ∧ r.status = .reserved
  order : ∀ o, g.order = some o → o.id = s.orders.next ∧ o.Waiting ∧ o.Consistent ∧
    o.items.map OrderItem.goods = g.made.map InventoryReservation.goods

theorem CheckoutNote.rows_unlinked {g : CheckoutNote} (h : g.linked = false) : g.rows = g.made := by
  simp [CheckoutNote.rows, h]

theorem exec_stockingMemo {s : Db} (o : DbOp) (g : CheckoutNote) (t : Db) (ho : stockingMemo.may o g)
    (h : g.Written s t) :
    (stockingMemo.note o (mongo.exec o t).1 g).Written s (mongo.exec o t).2 := by
  have huntouching : o.Untouching → g.Written s (mongo.exec o t).2 := by
    intro hu
    obtain ⟨horders, hrows⟩ := exec_untouching hu t
    exact ⟨horders ▸ h.orders, hrows ▸ h.rows, hrows ▸ h.next, fun hn => horders ▸ h.ordersNext hn,
      h.made, h.order⟩
  cases o with
  | reservationCreate draft =>
    obtain ⟨horder, hlinked⟩ := ho
    have hrows := h.rows
    rw [CheckoutNote.rows_unlinked hlinked] at hrows
    refine ⟨h.orders, ?_, h.next.trans (Nat.le_succ _), h.ordersNext, fun r hr => ?_, fun x hx => ?_⟩
    · have hnew : ({ g with made := g.made ++ [draft.reservation t.reservations.next] } :
          CheckoutNote).rows = g.made ++ [draft.reservation t.reservations.next] :=
        CheckoutNote.rows_unlinked hlinked
      show t.reservations.docs ++ [_] = s.reservations.docs ++ ({ g with
        made := g.made ++ [draft.reservation t.reservations.next] } : CheckoutNote).rows
      rw [hnew, hrows, List.append_assoc]
    · rcases List.mem_append.1 hr with hr | hr
      · exact h.made r hr
      · obtain rfl := List.mem_singleton.1 hr
        exact ⟨h.next, rfl⟩
    · cases horder.symm.trans hx
  | orderCreate draft now =>
    obtain ⟨horder, hlinked, hlines⟩ := ho
    have hrows := h.rows
    have horders := h.orders
    rw [CheckoutNote.rows_unlinked hlinked] at hrows
    rw [horder, Option.toList_none, List.append_nil] at horders
    refine ⟨?_, ?_, h.next, (fun hn => by cases hn), h.made, fun x hx => ?_⟩
    · exact congrArg (· ++ [_]) horders
    · refine hrows.trans (congrArg (s.reservations.docs ++ ·) ?_)
      exact (CheckoutNote.rows_unlinked (g := { g with order := some (draft.order t.orders.next now) })
        hlinked).symm
    · obtain rfl := Option.some_inj.1 hx
      exact ⟨h.ordersNext horder, ⟨rfl, rfl⟩, draft.consistent _ now, hlines⟩
  | reservationLink ids k =>
    obtain ⟨hlinked, rfl, x, hx, rfl⟩ := ho
    have hrows := h.rows
    rw [CheckoutNote.rows_unlinked hlinked] at hrows
    refine ⟨h.orders, ?_, h.next, h.ordersNext, h.made, h.order⟩
    have hnew : ({ g with linked := true } : CheckoutNote).rows =
        g.made.map (InventoryReservation.setOrder x.id).run := by
      simp [CheckoutNote.rows, hx]
    show (t.reservations.docs.map fun r => if (g.made.map (·.id)).contains r.id then
      (InventoryReservation.setOrder x.id).run r else r) = s.reservations.docs ++
        ({ g with linked := true } : CheckoutNote).rows
    rw [hrows, hnew, List.map_append]
    congr 1
    · refine (List.map_congr_left fun r hr => if_neg ?_).trans (List.map_id _)
      intro hmem
      obtain ⟨y, hy, hid⟩ := List.mem_map.1 (List.contains_iff_mem.1 hmem)
      have hlt : r.id < s.reservations.next := s.reservations.fresh r hr
      have hge := (h.made y hy).1
      exact absurd hlt (Nat.not_lt.2 (hid ▸ hge))
    · refine List.map_congr_left fun r hr => if_pos ?_
      exact List.contains_iff_mem.2 (List.mem_map_of_mem hr)
  | reservationUndo id => exact absurd ho (by simp [stockingMemo, CheckoutNote.may, DbOp.Untouching, DbOp.Quiet])
  | _ => exact huntouching ho

/-- A checkout that commits adds an order that waits, with its items reserved. -/
theorem CheckoutNote.Written.keeps {s t : Db} {g : CheckoutNote} (h : g.Written s t) (hready : g.Ready) :
    s.Keeps t := by
  obtain ⟨hlinked, o, ho⟩ := hready
  obtain ⟨hid, hwaiting, hconsistent, hlines⟩ := h.order o ho
  have horders := h.orders
  rw [ho, Option.toList_some] at horders
  have hrows := h.rows
  have hnew : g.rows = g.made.map (InventoryReservation.setOrder o.id).run := by
    simp [CheckoutNote.rows, hlinked, ho]
  rw [hnew] at hrows
  have hkept : ∀ k x, s.orders.get? k = some x → t.orders.get? k = some x := by
    intro k x hx
    obtain ⟨hmem, hkey⟩ := get?_eq_some.1 hx
    exact get?_eq_some.2 ⟨by rw [horders]; exact List.mem_append_left _ hmem, hkey⟩
  have hself : t.orders.get? o.id = some o :=
    get?_eq_some.2 ⟨by rw [horders]; exact List.mem_append_right _ (by simp), rfl⟩
  constructor
  · intro owed _ hs
    have hothers : ∀ k, k ≠ o.id → t.activeOf k = s.activeOf k := by
      intro k hk
      simp only [Db.activeOf, hrows, List.filter_append]
      refine (congrArg (_ ++ ·) (List.filter_eq_nil_iff.2 fun r hr => ?_)).trans (List.append_nil _)
      obtain ⟨x, -, rfl⟩ := List.mem_map.1 hr
      have hne : ¬ o.id = k := fun hok => hk hok.symm
      simp [InventoryReservation.setOrder, hne]
    have hown : t.activeOf o.id = g.made.map (InventoryReservation.setOrder o.id).run := by
      simp only [Db.activeOf, hrows, List.filter_append]
      have hold : s.reservations.docs.filter (fun r => r.order == some o.id && decide r.Active) = [] := by
        refine List.filter_eq_nil_iff.2 fun r hr hholds => ?_
        obtain ⟨k, x, hk, hx⟩ := hs.linked r hr
        have hok : r.order = some o.id := by simpa using (Bool.and_eq_true_iff.1 hholds).1
        obtain rfl : k = o.id := Option.some_inj.1 (hk.symm.trans hok)
        exact absurd (get?_lt hx) (by rw [hid]; exact lt_irrefl _)
      rw [hold, List.nil_append]
      refine List.filter_eq_self.2 fun r hr => ?_
      obtain ⟨x, hx, rfl⟩ := List.mem_map.1 hr
      have hactive : ((InventoryReservation.setOrder o.id).run x).Active := .inl (h.made x hx).2
      rw [Bool.and_eq_true, decide_eq_true_eq]
      exact ⟨beq_self_eq_true _, hactive⟩
    refine ⟨fun r hr => ?_, fun x hx => ?_⟩
    · rw [hrows] at hr
      rcases List.mem_append.1 hr with hr | hr
      · obtain ⟨k, x, hk, hx⟩ := hs.linked r hr
        exact ⟨k, x, hk, hkept k x hx⟩
      · obtain ⟨x, -, rfl⟩ := List.mem_map.1 hr
        exact ⟨o.id, o, rfl, hself⟩
    · rw [horders] at hx
      rcases List.mem_append.1 hx with hx | hx
      · have hlt : x.id < s.orders.next := s.orders.fresh x hx
        exact (hs.suits x hx).congr (hothers x.id (hid ▸ hlt.ne)) fun _ _ howed => howed
      · obtain rfl := List.mem_singleton.1 hx
        refine ⟨hconsistent, fun _ => ?_, fun hk => absurd hk hwaiting.not_kept,
          fun hc => absurd hc hwaiting.not_closed⟩
        have hitems : x.items.map (fun i => (i.goods, ReservationStatus.reserved)) =
            (x.items.map OrderItem.goods).map fun l => (l, ReservationStatus.reserved) := by
          rw [List.map_map]
          rfl
        rw [Db.Holds, hown, hitems, hlines, List.map_map, List.map_map]
        refine List.Perm.of_eq (List.map_congr_left fun r hr => ?_)
        exact Prod.ext rfl (h.made r hr).2
  · refine ⟨fun k x hx => ⟨x, hkept k x hx, .refl x⟩, fun r hr => ?_, h.next⟩
    rw [hrows] at hr
    rcases List.mem_append.1 hr with hr | hr
    · exact .inl ⟨r, hr, rfl, rfl⟩
    · obtain ⟨x, hx, rfl⟩ := List.mem_map.1 hr
      exact .inr (h.made x hx).1

theorem executeCheckout_keeps (limits : Limits) (req : AuthedRequest) (value : CheckoutInput)
    (now : Time) (s : Db) :
    s.Keeps (mongo.transactional.exec (.txn (executeCheckout limits req value now true)) s).2 := by
  have hstart : CheckoutNote.blank.Written s s :=
    ⟨by simp [CheckoutNote.blank], by simp [CheckoutNote.blank, CheckoutNote.rows], le_rfl, fun _ => rfl,
      fun r hr => by simp [CheckoutNote.blank] at hr, fun o ho => by simp [CheckoutNote.blank] at ho⟩
  obtain ⟨g, hready, hwritten⟩ := (executeCheckout_stockingMemo limits req value now).eval (M := mongo)
    (fun o s => ⟨s, rfl⟩) exec_stockingMemo hstart
  simp only [Machine.transactional]
  split
  · next b t heval =>
    rw [heval] at hready hwritten
    exact hwritten.keeps (hready b rfl)
  · exact .refl s

end Checkout

theorem txn_keeps {β : Type} {work : MongoM β} {s : Db} (h : s.Keeps (work.eval mongo s).2) :
    s.Keeps (mongo.transactional.exec (.txn work) s).2 := by
  simp only [Machine.transactional]
  split
  · next heval =>
    rw [heval] at h
    exact h
  · exact .refl s

end Ecommerce
