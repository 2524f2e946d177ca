import Ecommerce.Inventory.Stale

/-!
# Sweeping in batches

When nothing is stale, each order and each orphaned reservation that a sweep takes up is one of those
to be expired in the end, and expiring it first leaves the end as it was. A batch is never of rows
that the sweep skips, so the calls come to an end, and to the same one for every size of batch.
-/

namespace Ecommerce

open Effect Effect.Collection

/-! ## What is due -/

/-- Still reserved, and its payment window has passed. -/
def InventoryReservation.due (now : Time) (r : InventoryReservation) : Bool :=
  r.status == .reserved && decide (r.expiresAt ≤ now)

namespace Db

variable (now : Time) (s : Db)

/-- The reservations that are due. -/
def dueRows : List InventoryReservation := s.reservations.docs.filter (·.due now)

/-- A reservation of the order is due. -/
def dueOrder (k : ObjectId) : Bool := (s.dueRows now).any fun r => r.order == some k

/-- The reservation is to be released: it is an orphan and due, or its order is. -/
def dueRow (r : InventoryReservation) : Bool :=
  match r.order with
  | none => r.due now
  | some k => decide r.Active && s.dueOrder now k

end Db

section Due

variable {now : Time} {s : Db} {r : InventoryReservation}

theorem mem_dueRows : r ∈ s.dueRows now ↔ r ∈ s.reservations.docs ∧ r.due now := List.mem_filter

theorem InventoryReservation.due_iff : r.due now ↔ r.status = .reserved ∧ r.expiresAt ≤ now := by
  simp [InventoryReservation.due]

theorem dueOrder_iff {k : ObjectId} : s.dueOrder now k ↔ ∃ r ∈ s.dueRows now, r.order = some k := by
  simp [Db.dueOrder]

theorem mem_expired {batchSize : Nat} (h : r ∈ s.expired now batchSize) : r ∈ s.dueRows now := by
  simp only [Db.expired] at h
  split at h
  · exact (List.mem_insertionSort _).1 h
  · exact (List.mem_insertionSort _).1 (List.mem_of_mem_take h)

theorem expired_ids_nodup (now : Time) (batchSize : Nat) (s : Db) :
    ((s.expired now batchSize).map (·.id)).Nodup := by
  have hsorted : (((s.dueRows now).insertionSort fun a b => a.expiresAt ≤ b.expiresAt).map (·.id)).Nodup :=
    ((List.perm_insertionSort _ _).map _).nodup_iff.2
      (s.reservations.nodup.sublist (List.filter_sublist.map _))
  simp only [Db.expired]
  split
  · exact hsorted
  · exact hsorted.sublist ((List.take_sublist _ _).map _)

/-- A batch that is large enough has everything that is due. -/
theorem mem_expired_of_le {batchSize : Nat} (hle : (s.dueRows now).length ≤ batchSize)
    (h : r ∈ s.dueRows now) : r ∈ s.expired now batchSize := by
  have hmem : r ∈ (s.dueRows now).insertionSort fun a b => a.expiresAt ≤ b.expiresAt :=
    (List.mem_insertionSort _).2 h
  simp only [Db.expired]
  split
  · exact hmem
  · rw [List.take_of_length_le (by rw [List.length_insertionSort]; exact hle)]
    exact hmem

/-- While something is due, no batch is empty. -/
theorem expired_ne_nil {batchSize : Nat} (hbatch : 0 < batchSize) (hdue : s.dueRows now ≠ []) :
    s.expired now batchSize ≠ [] := by
  have hpos : 0 < (s.dueRows now).length := List.length_pos_iff.2 hdue
  refine List.length_pos_iff.1 ?_
  simp only [Db.expired, if_neg hbatch.ne', List.length_take, List.length_insertionSort]
  exact Nat.lt_min.2 ⟨hbatch, hpos⟩

theorem expired_eq_nil (batchSize : Nat) (hdue : s.dueRows now = []) : s.expired now batchSize = [] := by
  refine List.eq_nil_iff_forall_not_mem.2 fun r hr => ?_
  have hmem := mem_expired hr
  rw [hdue] at hmem
  cases hmem

end Due

/-! ## Orders, reservations and stock -/

/-- What a sweep writes, but for events and history. -/
structure Shelves where
  orders : Collection Order
  reservations : Collection InventoryReservation
  products : Collection Product

def Db.shelves (s : Db) : Shelves := ⟨s.orders, s.reservations, s.products⟩

/-- The order cancelled by a sweep. -/
def Order.expire (now : Time) : Patch Order :=
  ⟨fun o => (OrderUpdate.expire o.id).apply now o, fun _ => rfl⟩

@[simp] theorem Order.expire_id (now : Time) (o : Order) : ((Order.expire now).run o).id = o.id := rfl

/-- Orders cancelled, and reservations released and their units returned. -/
def Shelves.free (now : Time) (orders : ObjectId → Bool) (rows : InventoryReservation → Bool)
    (x : Shelves) : Shelves where
  orders := x.orders.modify (fun o => orders o.id) (Order.expire now)
  reservations := x.reservations.modify rows (InventoryReservation.setStatus .expired)
  products := addStock (unitsIn (x.reservations.docs.filter rows)) x.products

/-- All that is due expired. -/
def Db.swept (now : Time) (s : Db) : Shelves := s.shelves.free now (s.dueOrder now) (s.dueRow now)

section Free

variable {now : Time} {x : Shelves} {orders orders' : ObjectId → Bool}
  {rows rows' : InventoryReservation → Bool}

theorem Shelves.free_congr (horders : ∀ k, orders k = orders' k)
    (hrows : ∀ r ∈ x.reservations.docs, rows r = rows' r) :
    x.free now orders rows = x.free now orders' rows' := by
  obtain rfl : orders = orders' := funext horders
  have hmodify : x.reservations.modify rows (InventoryReservation.setStatus .expired) =
      x.reservations.modify rows' (InventoryReservation.setStatus .expired) := by
    refine Collection.ext (List.map_congr_left fun r hr => ?_) rfl
    rw [hrows r hr]
  simp only [Shelves.free, hmodify, List.filter_congr hrows]

theorem Shelves.free_none (hrows : ∀ r ∈ x.reservations.docs, rows r = false) :
    x.free now (fun _ => false) rows = x := by
  rw [Shelves.free_congr (fun _ => rfl) hrows]
  obtain ⟨xorders, reservations, products⟩ := x
  have hsame : ∀ {α : Type} [Keyed α] (c : Collection α) (f : Patch α), c.modify (fun _ => false) f = c :=
    fun c f => Collection.ext ((List.map_congr_left fun _ _ => rfl).trans (List.map_id _)) rfl
  simp [Shelves.free, hsame]

theorem unitsIn_or (docs : List InventoryReservation)
    (hrows : ∀ r, rows r → rows' ((InventoryReservation.setStatus .expired).run r) = false) :
    unitsIn (docs.filter rows) + unitsIn ((docs.map fun r =>
        if rows r then (InventoryReservation.setStatus .expired).run r else r).filter rows') =
      unitsIn (docs.filter fun r => rows r || rows' r) := by
  induction docs with
  | nil => rfl
  | cons r rest ih =>
    cases hr : rows r with
    | true =>
      simp only [List.filter_cons, List.map_cons, hr, if_true, hrows r hr, Bool.true_or, unitsIn_cons,
        Bool.false_eq_true, if_false, ← ih, add_assoc]
    | false =>
      cases hr' : rows' r with
      | true =>
        simp only [List.filter_cons, List.map_cons, hr, hr', if_true, Bool.false_or, unitsIn_cons,
          Bool.false_eq_true, if_false, ← ih]
        exact add_left_comm _ _ _
      | false =>
        simp only [List.filter_cons, List.map_cons, hr, hr', Bool.or_self, Bool.false_eq_true,
          if_false, ih]

/-- Freeing one part and then another is freeing both. -/
theorem Shelves.free_free (horders : ∀ k, orders k → orders' k = false)
    (hrows : ∀ r, rows r → rows' ((InventoryReservation.setStatus .expired).run r) = false) :
    (x.free now orders rows).free now orders' rows' =
      x.free now (fun k => orders k || orders' k) fun r => rows r || rows' r := by
  have hunits := unitsIn_or x.reservations.docs hrows
  simp only [Shelves.free, Shelves.mk.injEq]
  refine ⟨Collection.ext ?_ rfl, Collection.ext ?_ rfl, ?_⟩
  · simp only [Collection.modify, List.map_map]
    refine List.map_congr_left fun o _ => ?_
    by_cases ho : orders o.id
    · simp [ho, horders _ ho]
    · simp [ho]
  · simp only [Collection.modify, List.map_map]
    refine List.map_congr_left fun r _ => ?_
    by_cases hr : rows r
    · simp [hr, hrows r hr]
    · simp [hr]
  · rw [addStock_addStock]
    exact congrArg (addStock · x.products) hunits

end Free

/-! ## One order, or one orphan -/

/-- A part of a sweep: it leaves what is to be swept in the end as it was. -/
structure Sweeps (now : Time) (s t : Db) : Prop where
  swept : t.swept now = s.swept now
  due : (t.dueRows now).Sublist (s.dueRows now)
  fresh : ∀ r, ¬ t.Stale r

section Parts

variable {now : Time} {s t u : Db}

theorem Sweeps.refl (hfresh : ∀ r, ¬ s.Stale r) : Sweeps now s s := ⟨rfl, .refl _, hfresh⟩

theorem Sweeps.trans (h : Sweeps now s t) (h' : Sweeps now t u) : Sweeps now s u :=
  ⟨h'.swept.trans h.swept, h'.due.trans h.due, h'.fresh⟩

/-- An order that is not due does not become so. -/
theorem Sweeps.dueOrder (h : Sweeps now s t) {k : ObjectId} (hk : s.dueOrder now k = false) :
    t.dueOrder now k = false := by
  refine Bool.eq_false_iff.2 fun hdue => ?_
  obtain ⟨x, hx, hxk⟩ := dueOrder_iff.1 hdue
  have hs : s.dueOrder now k := dueOrder_iff.2 ⟨x, h.due.subset hx, hxk⟩
  rw [hk] at hs
  cases hs

theorem not_due_expired (r : InventoryReservation) :
    ((InventoryReservation.setStatus .expired).run r).due now = false := by
  simp [InventoryReservation.due]

/-- The rows that are still due once some have been released. -/
theorem dueRows_modify {rows : InventoryReservation → Bool}
    (ht : t.reservations = s.reservations.modify rows (InventoryReservation.setStatus .expired)) :
    t.dueRows now = (s.dueRows now).filter fun r => !rows r := by
  simp only [Db.dueRows, ht, Collection.modify]
  induction s.reservations.docs with
  | nil => rfl
  | cons r rest ih =>
    by_cases hr : rows r
    · by_cases hdue : r.due now
      · simpa [hr, hdue, not_due_expired] using ih
      · simpa [hr, hdue, not_due_expired] using ih
    · by_cases hdue : r.due now
      · simpa [hr, hdue] using ih
      · simpa [hr, hdue] using ih

variable {orders : ObjectId → Bool} {rows : InventoryReservation → Bool}

/-- A part that frees some of what is to be freed. -/
theorem Sweeps.of_free (hshelves : t.shelves = s.shelves.free now orders rows)
    (hfresh : ∀ r, ¬ t.Stale r) (horders : ∀ k, (orders k || t.dueOrder now k) = s.dueOrder now k)
    (hdisjoint : ∀ k, orders k → t.dueOrder now k = false)
    (hrows : ∀ r ∈ s.reservations.docs, (rows r || t.dueRow now r) = s.dueRow now r) :
    Sweeps now s t where
  swept := by
    have hexpired : ∀ r, rows r →
        t.dueRow now ((InventoryReservation.setStatus .expired).run r) = false := by
      intro r _
      cases hr : r.order with
      | none => simp [Db.dueRow, hr, not_due_expired]
      | some k => simp [Db.dueRow, hr, ReservationStatus.Active]
    rw [Db.swept, hshelves, Shelves.free_free hdisjoint hexpired]
    exact Shelves.free_congr horders hrows
  due := by
    rw [dueRows_modify (congrArg Shelves.reservations hshelves)]
    exact List.filter_sublist
  fresh := hfresh

variable {r : InventoryReservation}

theorem eq_of_id {x y : InventoryReservation} (hx : x ∈ s.reservations.docs)
    (hy : y ∈ s.reservations.docs) (hid : x.id = y.id) : x = y :=
  Option.some_inj.1 ((get?_eq_some.2 ⟨hx, hid⟩).symm.trans (get?_eq_some.2 ⟨hy, rfl⟩))

theorem shelves_restock (hr : r ∈ s.reservations.docs) :
    ((s.release r .expired).restock r).shelves =
      s.shelves.free now (fun _ => false) fun x => x.id == r.id := by
  have horders : s.orders = s.orders.modify (fun _ => false) (Order.expire now) :=
    Collection.ext ((List.map_id _).symm.trans (List.map_congr_left fun _ _ => rfl)) rfl
  have hcount : s.reservations.docs.count r = 1 := by
    exact List.count_eq_one_of_mem s.reservations.nodup.of_map hr
  have hfilter : s.reservations.docs.filter (fun x => x.id == r.id) = [r] := by
    have hsame : ∀ x ∈ s.reservations.docs, (x.id == r.id) = (x == r) := by
      intro x hx
      rw [Bool.eq_iff_iff, beq_iff_eq, beq_iff_eq]
      exact ⟨eq_of_id hx hr, congrArg _⟩
    rw [List.filter_congr hsame, List.filter_beq, hcount]
    rfl
  have hunits : unitsIn (s.reservations.docs.filter fun x => x.id == r.id) =
      Pi.single r.product (r.quantity : ℤ) := by
    rw [hfilter, unitsIn_cons, unitsIn_nil, add_zero]
  simp only [Db.shelves, Db.restock, Db.release, Shelves.free, hunits, ← horders]
  rfl

/-- An orphan that is due is released. -/
theorem sweeps_orphan (hfresh : ∀ r, ¬ s.Stale r) (hr : r ∈ s.dueRows now) (hnone : r.order = none) :
    Sweeps now s ((s.release r .expired).restock r) := by
  obtain ⟨hmem, hdue⟩ := mem_dueRows.1 hr
  have hrest : ((s.release r .expired).restock r).dueRows now =
      (s.dueRows now).filter fun x => !(x.id == r.id) := dueRows_modify rfl
  have horders : ∀ k, ((s.release r .expired).restock r).dueOrder now k = s.dueOrder now k := by
    intro k
    rw [Bool.eq_iff_iff, dueOrder_iff, dueOrder_iff, hrest]
    constructor
    · rintro ⟨x, hx, hk⟩
      exact ⟨x, (List.mem_filter.1 hx).1, hk⟩
    · rintro ⟨x, hx, hk⟩
      refine ⟨x, List.mem_filter.2 ⟨hx, ?_⟩, hk⟩
      have hne : x.id ≠ r.id := by
        intro hid
        obtain rfl := eq_of_id (mem_dueRows.1 hx).1 hmem hid
        cases hnone.symm.trans hk
      simpa using hne
  have hcalm : s.Calm ((s.release r .expired).restock r) := .of_orders rfl fun y hy hstatus _ _ =>
    (mem_modify_reserved (by decide : ReservationStatus.expired ≠ .reserved) hy hstatus).1
  refine .of_free (shelves_restock hmem) (fun x hx => hfresh x (hcalm.noStaler x hx))
    (by simpa using horders) (fun k hk => by cases hk) fun x hx => ?_
  by_cases hid : x.id = r.id
  · obtain rfl := eq_of_id hx hmem hid
    simp [Db.dueRow, hnone, hdue]
  · have hrow : ((s.release r .expired).restock r).dueRow now x = s.dueRow now x := by
      simp only [Db.dueRow, horders]
    simp [hid, hrow]

/-- An order whose reservations have been released is not due any more. -/
theorem not_dueOrder_freed {k : ObjectId}
    (ht : t.shelves = s.shelves.free now orders (Db.holdsFor k)) : t.dueOrder now k = false := by
  refine Bool.eq_false_iff.2 fun h => ?_
  obtain ⟨x, hx, hxk⟩ := dueOrder_iff.1 h
  rw [dueRows_modify (congrArg Shelves.reservations ht)] at hx
  obtain ⟨hx, hholds⟩ := List.mem_filter.1 hx
  have hactive : x.Active := .inl (InventoryReservation.due_iff.1 (mem_dueRows.1 hx).2).1
  simp [Db.holdsFor, hxk, hactive] at hholds

/-- The reservations of an order that is not due stay away. -/
theorem Sweeps.not_mem_dueRows (h : Sweeps now s t) {k : ObjectId} (hk : s.dueOrder now k = false)
    {r : InventoryReservation} (hr : r.order = some k) : r ∉ t.dueRows now := by
  intro hdue
  have hdueOrder : s.dueOrder now k := dueOrder_iff.2 ⟨r, h.due.subset hdue, hr⟩
  rw [hk] at hdueOrder
  cases hdueOrder

/-- What the release of an order that is due leaves. -/
theorem sweeps_order (hfresh : ∀ r, ¬ s.Stale r) {k : ObjectId} (hk : s.dueOrder now k)
    (ht : t.shelves = s.shelves.free now (· == k) (Db.holdsFor k)) : Sweeps now s t := by
  have hreservations : t.reservations =
      s.reservations.modify (Db.holdsFor k) (InventoryReservation.setStatus .expired) :=
    congrArg Shelves.reservations ht
  have horder : t.dueOrder now k = false := not_dueOrder_freed ht
  have hothers : ∀ j, j ≠ k → t.dueOrder now j = s.dueOrder now j := by
    intro j hj
    rw [Bool.eq_iff_iff, dueOrder_iff, dueOrder_iff, dueRows_modify hreservations]
    constructor
    · rintro ⟨x, hx, hxj⟩
      exact ⟨x, (List.mem_filter.1 hx).1, hxj⟩
    · rintro ⟨x, hx, hxj⟩
      exact ⟨x, List.mem_filter.2 ⟨hx, by simp [Db.holdsFor, hxj, hj]⟩, hxj⟩
  refine .of_free ht (fun x hx => hfresh x ?_) (fun j => ?_) (fun j hj => ?_) fun x _ => ?_
  · refine Db.NoStaler.of_settled (k := k) (fun j hj => ?_) (fun y hy hstatus => ?_) x hx
    · have hget : t.orders.get? j =
          (s.orders.get? j).map fun o => if o.id == k then (Order.expire now).run o else o :=
        (congrArg (fun z : Shelves => z.orders.get? j) ht).trans (get?_modify _ _ _ _)
      rw [hget]
      cases ho : s.orders.get? j with
      | none => rfl
      | some o =>
        have hid : o.id = j := get?_key ho
        simp [hid, hj]
    · rw [hreservations] at hy
      obtain ⟨hys, hholds⟩ := mem_modify_reserved (by decide) hy hstatus
      refine ⟨hys, fun hyk => ?_⟩
      have hactive : y.Active := .inl hstatus
      simp [Db.holdsFor, hyk, hactive] at hholds
  · by_cases hj : j = k
    · simp [hj, hk]
    · simp [hj, hothers j hj]
  · obtain rfl : j = k := by simpa using hj
    exact horder
  · cases hx : x.order with
    | none => simp [Db.dueRow, Db.holdsFor, hx]
    | some j =>
      by_cases hj : j = k
      · simp [Db.dueRow, Db.holdsFor, hx, hj, hk, horder]
      · simp [Db.dueRow, Db.holdsFor, hx, hj, hothers j hj]

end Parts

/-! ## The loop -/

theorem expireOrder_sweeps {now : Time} {s : Db} (hfresh : ∀ r, ¬ s.Stale r) {k : ObjectId}
    (hk : s.dueOrder now k) :
    ∃ result t, (expireOrder now k).eval mongo s = (.ok result, t) ∧
      t.shelves = s.shelves.free now (· == k) (Db.holdsFor k) := by
  obtain ⟨r, hr, hrk⟩ := dueOrder_iff.1 hk
  obtain ⟨hmem, hdue⟩ := mem_dueRows.1 hr
  have hawaiting : s.Awaiting k := by
    by_contra hwait
    exact hfresh r ⟨hmem, (InventoryReservation.due_iff.1 hdue).1, k, hrk, hwait⟩
  obtain ⟨o, ho, hpending, hunpaid⟩ := hawaiting
  have hguard : (OrderUpdate.expire k).guard o := by simp [OrderUpdate.guard, hpending, hunpaid]
  obtain rfl : o.id = k := get?_key ho
  have hexec : mongo.exec (.orderUpdate (.expire o.id) now) s =
      (.ok (some ((OrderUpdate.expire o.id).apply now o)),
        { s with orders := s.orders.update o.id ((OrderUpdate.expire o.id).patch now) }) := by
    simp only [mongo, Db.exec, OrderUpdate.id, ho]
    exact if_pos hguard
  have hreleased := eval_releaseOrderReservations (by decide : ¬ ReservationStatus.expired.Active) o.id
    { s with orders := s.orders.update o.id ((OrderUpdate.expire o.id).patch now) }
  refine ⟨_, _, Prog.eval_bind_ok.2 ⟨_, _, hexec, Prog.eval_bind_ok.2 ⟨_, _, hreleased,
    Prog.eval_bind_ok.2 ⟨(), _, rfl, rfl⟩⟩⟩, ?_⟩
  rfl

/-- The loop of a sweep takes up every row that it is given. -/
theorem expireEach_sweeps {now : Time} (batch : List InventoryReservation)
    (handledOrders : List ObjectId) (acc : SweepResult) {s : Db} (hfresh : ∀ r, ¬ s.Stale r)
    (hbatch : ∀ r ∈ batch, r ∈ s.dueRows now ∨ ∃ k ∈ handledOrders, r.order = some k)
    (hhandled : ∀ k ∈ handledOrders, s.dueOrder now k = false) (hnodup : (batch.map (·.id)).Nodup) :
    ∃ result t, (expireEach now batch handledOrders acc).eval mongo s = (.ok result, t) ∧
      Sweeps now s t ∧ ∀ r ∈ batch, r ∉ t.dueRows now := by
  induction batch generalizing s handledOrders acc with
  | nil => exact ⟨acc, s, rfl, .refl hfresh, fun r hr => by cases hr⟩
  | cons r rest ih =>
    rw [List.map_cons, List.nodup_cons] at hnodup
    have hother : ∀ x ∈ rest, x.id ≠ r.id := fun x hx h => hnodup.1 (h ▸ List.mem_map_of_mem hx)
    rw [expireEach]
    cases hr : r.order with
    | none =>
      have hdue : r ∈ s.dueRows now := by
        refine (hbatch r (by simp)).resolve_right ?_
        rintro ⟨k, -, hk⟩
        cases hr.symm.trans hk
      have hpart := sweeps_orphan hfresh hdue hr
      have hrest : ((s.release r .expired).restock r).dueRows now =
          (s.dueRows now).filter fun x => !(x.id == r.id) := dueRows_modify rfl
      have hnext : ∀ x ∈ rest, x ∈ ((s.release r .expired).restock r).dueRows now ∨
          ∃ k ∈ handledOrders, x.order = some k := by
        intro x hx
        refine (hbatch x (by simp [hx])).imp_left fun hmem => ?_
        rw [hrest]
        exact List.mem_filter.2 ⟨hmem, by simpa using hother x hx⟩
      obtain ⟨result, t, heval, hsweeps, hall⟩ := ih handledOrders (acc.add ⟨Bool.toNat true, 0⟩)
        hpart.fresh hnext (fun k hk => hpart.dueOrder (hhandled k hk)) hnodup.2
      have hget : s.reservations.get? r.id = some r := get?_eq_some.2 ⟨(mem_dueRows.1 hdue).1, rfl⟩
      have hfrom : r.status ∈ [ReservationStatus.reserved] := by
        simp [(InventoryReservation.due_iff.1 (mem_dueRows.1 hdue).2).1]
      refine ⟨result, t, Prog.eval_bind_ok.2 ⟨true, _, eval_releaseReservation hget hfrom, heval⟩,
        hpart.trans hsweeps, List.forall_mem_cons.2 ⟨fun hmem => ?_, hall⟩⟩
      have hkept := hrest ▸ hsweeps.due.subset hmem
      simp at hkept
    | some k =>
      dsimp only
      by_cases hmem : k ∈ handledOrders
      · rw [if_pos (by simpa using hmem)]
        obtain ⟨result, t, heval, hsweeps, hall⟩ := ih handledOrders acc hfresh
          (fun x hx => hbatch x (by simp [hx])) hhandled hnodup.2
        exact ⟨result, t, heval, hsweeps,
          List.forall_mem_cons.2 ⟨hsweeps.not_mem_dueRows (hhandled k hmem) hr, hall⟩⟩
      · rw [if_neg (by simpa using hmem)]
        have hdue : r ∈ s.dueRows now := by
          refine (hbatch r (by simp)).resolve_right ?_
          rintro ⟨j, hj, hrj⟩
          obtain rfl := Option.some_inj.1 (hr.symm.trans hrj)
          exact hmem hj
        have hk : s.dueOrder now k := dueOrder_iff.2 ⟨r, hdue, hr⟩
        obtain ⟨freed, u, hexpire, hu⟩ := expireOrder_sweeps hfresh hk
        have hpart := sweeps_order hfresh hk hu
        have hnotdue : u.dueOrder now k = false := not_dueOrder_freed hu
        have hnext : ∀ x ∈ rest, x ∈ u.dueRows now ∨ ∃ j ∈ k :: handledOrders, x.order = some j := by
          intro x hx
          by_cases hxk : x.order = some k
          · exact .inr ⟨k, by simp, hxk⟩
          · rcases hbatch x (by simp [hx]) with hxdue | ⟨j, hj, hxj⟩
            · refine .inl ?_
              rw [dueRows_modify (congrArg Shelves.reservations hu)]
              exact List.mem_filter.2 ⟨hxdue, by simp [Db.holdsFor, hxk]⟩
            · exact .inr ⟨j, by simp [hj], hxj⟩
        have hdone : ∀ j ∈ k :: handledOrders, u.dueOrder now j = false := by
          intro j hj
          rcases List.mem_cons.1 hj with rfl | hj
          · exact hnotdue
          · exact hpart.dueOrder (hhandled j hj)
        obtain ⟨result, t, heval, hsweeps, hall⟩ := ih (k :: handledOrders) (acc.add freed)
          hpart.fresh hnext hdone hnodup.2
        exact ⟨result, t, Prog.eval_bind_ok.2 ⟨freed, u, hexpire, heval⟩, hpart.trans hsweeps,
          List.forall_mem_cons.2 ⟨hsweeps.not_mem_dueRows hnotdue hr, hall⟩⟩

/-- One call of the sweep. -/
theorem releaseExpiredReservations_sweeps (now : Time) (batchSize : Nat) {s : Db}
    (hfresh : ∀ r, ¬ s.Stale r) :
    ∃ result t, (releaseExpiredReservations now batchSize).eval mongo s = (.ok result, t) ∧
      Sweeps now s t ∧ ∀ r ∈ s.expired now batchSize, r ∉ t.dueRows now := by
  obtain ⟨result, t, heval, hsweeps, hhandled⟩ := expireEach_sweeps
    (s.expired now batchSize) [] ⟨0, 0⟩ hfresh (fun r hr => .inl (mem_expired hr))
    (fun k hk => by cases hk) (expired_ids_nodup now batchSize s)
  exact ⟨result, t, Prog.eval_bind_ok.2 ⟨s.expired now batchSize, s, rfl, heval⟩, hsweeps, hhandled⟩

/-- With nothing due, a call changes nothing and reports nothing. -/
theorem releaseExpiredReservations_idle {now : Time} (batchSize : Nat) {s : Db}
    (hdue : s.dueRows now = []) :
    (releaseExpiredReservations now batchSize).eval mongo s = (.ok ⟨0, 0⟩, s) := by
  refine Prog.eval_bind_ok.2 ⟨s.expired now batchSize, s, rfl, ?_⟩
  rw [expired_eq_nil batchSize hdue]
  rfl

theorem swept_of_idle {now : Time} {s : Db} (hdue : s.dueRows now = []) : s.swept now = s.shelves := by
  have horder : ∀ k, s.dueOrder now k = false := fun k => by simp [Db.dueOrder, hdue]
  have hrow : ∀ r ∈ s.reservations.docs, s.dueRow now r = false := by
    intro r hr
    cases hr' : r.order with
    | none =>
      have hnot : r.due now = false := by
        have hmem := List.filter_eq_nil_iff.1 hdue r hr
        simpa using hmem
      simp [Db.dueRow, hr', hnot]
    | some k => simp [Db.dueRow, hr', horder]
  have hnone : s.dueOrder now = fun _ => false := funext horder
  rw [Db.swept, hnone]
  exact Shelves.free_none hrow

/-! ## Repeated calls -/

/-- Calls at the same time and with the same size of batch, until one changes nothing. -/
inductive SweepsTo (now : Time) (batchSize : Nat) : Db → Db → Prop
  | done {s : Db} (h : ((releaseExpiredReservations now batchSize).eval mongo s).2 = s) :
    SweepsTo now batchSize s s
  | again {s t : Db} (h : ((releaseExpiredReservations now batchSize).eval mongo s).2 ≠ s)
    (hrest : SweepsTo now batchSize ((releaseExpiredReservations now batchSize).eval mongo s).2 t) :
    SweepsTo now batchSize s t

/-- The calls come to an end, with all expired that was due. -/
theorem sweepsTo_swept (now : Time) {batchSize : Nat} (hbatch : 0 < batchSize) {s : Db}
    (hfresh : ∀ r, ¬ s.Stale r) :
    ∃ t, SweepsTo now batchSize s t ∧ t.dueRows now = [] ∧ t.shelves = s.swept now := by
  induction hn : (s.dueRows now).length using Nat.strong_induction_on generalizing s with
  | _ n ih =>
    by_cases hdue : s.dueRows now = []
    · have hidle := releaseExpiredReservations_idle batchSize hdue
      exact ⟨s, .done (congrArg Prod.snd hidle), hdue, (swept_of_idle hdue).symm⟩
    · obtain ⟨result, t, heval, hsweeps, hhandled⟩ :=
        releaseExpiredReservations_sweeps now batchSize hfresh
      obtain ⟨r, hr⟩ := List.exists_mem_of_ne_nil _ (expired_ne_nil hbatch hdue)
      have hless : (t.dueRows now).length < (s.dueRows now).length := by
        refine lt_of_le_of_ne hsweeps.due.length_le fun heq => hhandled r hr ?_
        rw [hsweeps.due.eq_of_length heq]
        exact mem_expired hr
      obtain ⟨u, hto, hidle, hswept⟩ := ih _ (hn ▸ hless) hsweeps.fresh rfl
      have hne : t ≠ s := by
        rintro rfl
        exact absurd hless (lt_irrefl _)
      refine ⟨u, .again ?_ ?_, hidle, hswept.trans hsweeps.swept⟩
      · rw [heval]
        exact hne
      · rw [heval]
        exact hto

/-- One call with a batch that is large enough. -/
theorem sweep_all (now : Time) {batchSize : Nat} {s : Db} (hfresh : ∀ r, ¬ s.Stale r)
    (hle : (s.dueRows now).length ≤ batchSize) :
    ∃ result t, (releaseExpiredReservations now batchSize).eval mongo s = (.ok result, t) ∧
      t.dueRows now = [] ∧ t.shelves = s.swept now := by
  obtain ⟨result, t, heval, hsweeps, hhandled⟩ :=
    releaseExpiredReservations_sweeps now batchSize hfresh
  have hidle : t.dueRows now = [] := by
    refine List.eq_nil_iff_forall_not_mem.2 fun r hr => ?_
    exact hhandled r (mem_expired_of_le hle (hsweeps.due.subset hr)) hr
  exact ⟨result, t, heval, hidle, (swept_of_idle hidle).symm.trans hsweeps.swept⟩

/-- From what a run without failures leaves once all is done, calls with any size of batch come to an
end, with the orders, the reservations and the stock that one call with a batch for everything leaves.
Another call then changes nothing and reports nothing. -/
theorem sweep_any_batch {cfg : ServerConfig} (hreplica : cfg.deployment = .replicaSet)
    {c d : ServerPool} {as : List (Action Request)}
    (hrun : (server cfg).Run (fun _ a => a.unfailing) c as d) (hstart : c.threads = [])
    (hnone : c.state.reservations.docs = []) (hend : d.Quiescent) (now : Time) {batchSize : Nat}
    (hbatch : 0 < batchSize) :
    ∃ t, SweepsTo now batchSize d.state t ∧
      (∀ all, (d.state.dueRows now).length ≤ all →
        ∃ result u, (releaseExpiredReservations now all).eval mongo d.state = (.ok result, u) ∧
          t.orders = u.orders ∧ t.reservations = u.reservations ∧ t.products = u.products) ∧
      ∀ batchSize', (releaseExpiredReservations now batchSize').eval mongo t = (.ok ⟨0, 0⟩, t) := by
  have hstale : ∀ r, ¬ c.state.Stale r := by
    rintro r ⟨hr, -⟩
    rw [hnone] at hr
    cases hr
  have hfresh := run_noStale hreplica hrun hstart hstale hend
  obtain ⟨t, hto, hidle, hswept⟩ := sweepsTo_swept now hbatch hfresh
  refine ⟨t, hto, fun all hle => ?_, fun batchSize' => releaseExpiredReservations_idle batchSize' hidle⟩
  obtain ⟨result, u, heval, -, hall⟩ := sweep_all now hfresh hle
  have hsame : t.shelves = u.shelves := hswept.trans hall.symm
  exact ⟨result, u, heval, congrArg Shelves.orders hsame, congrArg Shelves.reservations hsame,
    congrArg Shelves.products hsame⟩

/-- The checkouts of both, one after the other. -/
def twoCheckouts : List (Action Request) :=
  [.spawn (sampleCheckout 0), .act 0,
    .spawn (.checkout ⟨2, .user, "t"⟩ ⟨⟨"a", none, "c", "s", "p", "x"⟩, "manual", none⟩ 1), .act 1]

/-- Two orders due, swept one at a time and both at once. -/
theorem sweep_any_batch_twoOrders :
    ∃ d, (server (sampleConfig .replicaSet)).play (fun _ a => a.unfailing) ⟨twoCarts, []⟩
        twoCheckouts = some d ∧
      (d.state.dueRows 1000000).length = 2 ∧
      ∃ t, SweepsTo 1000000 1 d.state t ∧
        (∃ result u, (releaseExpiredReservations 1000000 100).eval mongo d.state = (.ok result, u) ∧
          t.orders = u.orders ∧ t.reservations = u.reservations ∧ t.products = u.products) ∧
        (releaseExpiredReservations 1000000 1).eval mongo t = (.ok ⟨0, 0⟩, t) := by
  obtain ⟨d, hd, h⟩ := (Option.any_eq_true _ _).1 (by decide +kernel :
    ((server (sampleConfig .replicaSet)).play (fun _ a => a.unfailing) ⟨twoCarts, []⟩ twoCheckouts).any
      fun d => decide d.Quiescent && decide ((d.state.dueRows 1000000).length = 2))
  simp only [Bool.and_eq_true, decide_eq_true_eq] at h
  obtain ⟨t, hto, hall, hidle⟩ :=
    sweep_any_batch rfl (System.Run.of_play hd) rfl rfl h.1 1000000 Nat.one_pos
  exact ⟨d, hd, h.2, t, hto, hall 100 (by simp [h.2]), hidle 1⟩

end Ecommerce
