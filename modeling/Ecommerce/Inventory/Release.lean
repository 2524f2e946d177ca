import Ecommerce.Effect.Interrupt
import Ecommerce.Model.Calls
import Mathlib.Algebra.Group.Pi.Basic

/-!
# Releasing the reservations of an order

What `releaseOrderReservations` does when it runs alone, as one change of the database, and what it
leaves to do when it is interrupted: finishing it later gives the same reservations, and the same
stock but for the units of a reservation that has been released and not yet returned.
-/

namespace Ecommerce

open Effect Effect.Collection

/-! ## Units of stock -/

/-- Adds units to the stock of each product. -/
def Product.addUnits (units : ObjectId → ℤ) : Patch Product :=
  ⟨fun p => { p with stock := p.stock + units p.id }, fun _ => rfl⟩

def addStock (units : ObjectId → ℤ) (products : Collection Product) : Collection Product :=
  products.modify (fun _ => true) (Product.addUnits units)

section AddStock

variable (units units' : ObjectId → ℤ) (products : Collection Product) (id : ObjectId)

theorem update_incStock (q : ℤ) :
    products.update id (Product.incStock q) = addStock (Pi.single id q) products := by
  refine Collection.ext (List.map_congr_left fun p _ => ?_) rfl
  by_cases hp : p.id = id
  · simp [Keyed.key, Product.incStock, Product.addUnits, hp]
  · simp [Keyed.key, Product.addUnits, hp]

theorem addStock_addStock :
    addStock units (addStock units' products) = addStock (units' + units) products := by
  refine Collection.ext ?_ rfl
  simp [addStock, Collection.modify, Product.addUnits, add_assoc]

@[simp] theorem addStock_zero : addStock 0 products = products := by
  refine Collection.ext ?_ rfl
  simp [addStock, Collection.modify, Product.addUnits]

theorem get?_addStock :
    (addStock units products).get? id = (products.get? id).map (Product.addUnits units).run := by
  simp [addStock, get?_modify]

/-- Adding units that no product has changes nothing. -/
theorem addStock_eq_self :
    addStock units products = products ↔ ∀ p x, products.get? p = some x → units p = 0 := by
  constructor
  · intro h p x hx
    have hget := get?_addStock units products p
    rw [h, hx] at hget
    have hstock := congrArg Product.stock (Option.some_inj.1 hget)
    have hid : x.id = p := get?_key hx
    simp only [Product.addUnits, hid] at hstock
    omega
  · intro h
    refine Collection.ext ?_ rfl
    refine (List.map_congr_left fun x hx => ?_).trans (List.map_id _)
    have hzero := h x.id x (get?_eq_some.2 ⟨hx, rfl⟩)
    simp [Product.addUnits, hzero]

end AddStock

/-- The units that reservations hold, by product. -/
def unitsIn (reservations : List InventoryReservation) : ObjectId → ℤ :=
  (reservations.map fun r => Pi.single r.product (r.quantity : ℤ)).sum

@[simp] theorem unitsIn_nil : unitsIn [] = 0 := rfl

@[simp] theorem unitsIn_cons (r : InventoryReservation) (rest : List InventoryReservation) :
    unitsIn (r :: rest) = Pi.single r.product (r.quantity : ℤ) + unitsIn rest := by
  simp [unitsIn]

/-! ## The release of an order -/

namespace Db

/-- The reservation belongs to the order and holds units. -/
def holdsFor (k : ObjectId) (r : InventoryReservation) : Bool := r.order == some k && decide r.Active

/-- All active reservations of the order released, and their units returned. -/
def releaseOrder (k : ObjectId) (status : ReservationStatus) (s : Db) : Db :=
  { s with
    reservations := s.reservations.modify (holdsFor k) (InventoryReservation.setStatus status)
    products := addStock (unitsIn (s.activeOf k)) s.products
    restocks := s.restocks ++ (s.activeOf k).map (·.id) }

/-- One reservation released, and its units not yet returned. -/
def release (r : InventoryReservation) (status : ReservationStatus) (s : Db) : Db :=
  { s with reservations := s.reservations.update r.id (InventoryReservation.setStatus status) }

/-- The units of a reservation returned. -/
def restock (r : InventoryReservation) (s : Db) : Db :=
  { s with
    products := addStock (Pi.single r.product (r.quantity : ℤ)) s.products
    restocks := s.restocks ++ [r.id] }

end Db

variable {k : ObjectId} {status : ReservationStatus} {s t u : Db}

theorem mem_activeOf {r : InventoryReservation} :
    r ∈ s.activeOf k ↔ r ∈ s.reservations.docs ∧ r.order = some k ∧ r.Active := by
  simp [Db.activeOf]

/-- A reservation that is released is no longer among the active ones of its order. -/
theorem activeOf_release (hs : ¬ status.Active) (r : InventoryReservation) :
    (s.release r status).activeOf k = (s.activeOf k).filter fun x => x.id != r.id := by
  simp only [Db.activeOf, Db.release, update, Collection.modify]
  induction s.reservations.docs with
  | nil => rfl
  | cons x rest ih =>
    rw [List.map_cons, List.filter_cons, List.filter_cons, ih]
    by_cases hx : x.id = r.id
    · by_cases hactive : x.order = some k ∧ x.Active
      · simp [Keyed.key, hx, hs, hactive]
      · simp [Keyed.key, hx, hs, hactive]
    · by_cases hactive : x.order = some k ∧ x.Active
      · simp [Keyed.key, hx, hactive]
      · simp [Keyed.key, hx, hactive]

theorem InventoryReservation.Active.mem {r : InventoryReservation} (h : r.Active) :
    r.status ∈ [ReservationStatus.reserved, .committed] := by
  rcases h with h | h <;> simp [h]

theorem activeOf_ids_nodup (s : Db) (k : ObjectId) : ((s.activeOf k).map (·.id)).Nodup :=
  s.reservations.nodup.sublist (List.filter_sublist.map _)

section Head

variable {r : InventoryReservation} {rest : List InventoryReservation}
  (hactive : s.activeOf k = r :: rest)

include hactive

theorem get?_head : s.reservations.get? r.id = some r := by
  have hmem : r ∈ s.activeOf k := by simp [hactive]
  exact get?_eq_some.2 ⟨(mem_activeOf.1 hmem).1, rfl⟩

theorem head_active : r.order = some k ∧ r.Active := by
  have hmem : r ∈ s.activeOf k := by simp [hactive]
  exact (mem_activeOf.1 hmem).2

theorem activeOf_release_head (hs : ¬ status.Active) : (s.release r status).activeOf k = rest := by
  have hnodup := activeOf_ids_nodup s k
  rw [hactive, List.map_cons, List.nodup_cons] at hnodup
  rw [activeOf_release hs, hactive, List.filter_cons_of_neg (by simp)]
  refine List.filter_eq_self.2 fun x hx => ?_
  have hne : x.id ≠ r.id := fun h => hnodup.1 (h ▸ List.mem_map_of_mem hx)
  simpa using hne

/-- Releasing the first active reservation first makes no difference to the reservations. -/
theorem releaseOrder_release_reservations (hs : ¬ status.Active) :
    ((s.release r status).releaseOrder k status).reservations =
      (s.releaseOrder k status).reservations := by
  refine Collection.ext ?_ rfl
  simp only [Db.releaseOrder, Db.release, update, Collection.modify, List.map_map]
  refine List.map_congr_left fun x hx => ?_
  by_cases hid : x.id = r.id
  · obtain rfl : x = r :=
      Option.some_inj.1 ((get?_eq_some.2 ⟨hx, hid⟩).symm.trans (get?_head hactive))
    simp [Keyed.key, Db.holdsFor, hs, head_active hactive]
  · simp [Keyed.key, hid]

/-- Releasing the first active reservation and returning its units is a part of the release of the
order. -/
theorem releaseOrder_restock (hs : ¬ status.Active) :
    ((s.release r status).restock r).releaseOrder k status = s.releaseOrder k status := by
  have hrest : ((s.release r status).restock r).activeOf k = rest :=
    activeOf_release_head hactive hs
  have hreservations := releaseOrder_release_reservations hactive hs
  have hproducts : addStock (unitsIn rest) (addStock (Pi.single r.product (r.quantity : ℤ)) s.products) =
      addStock (unitsIn (r :: rest)) s.products := by
    rw [addStock_addStock, unitsIn_cons]
  simp only [Db.releaseOrder, hrest, hactive] at hreservations ⊢
  simp only [Db.restock, Db.release] at hreservations ⊢
  rw [hreservations, hproducts, List.map_cons, List.append_assoc, List.singleton_append]

end Head

/-- Nothing is left to release. -/
theorem activeOf_releaseOrder (hs : ¬ status.Active) : (s.releaseOrder k status).activeOf k = [] := by
  refine List.filter_eq_nil_iff.2 fun x hx hholds => ?_
  obtain ⟨r, -, rfl⟩ := mem_modify.1 hx
  by_cases hr : Db.holdsFor k r
  · simp [hr, hs] at hholds
  · simp only [hr, if_false, Bool.false_eq_true] at hholds
    exact hr hholds

theorem releaseOrder_of_none (hnone : s.activeOf k = []) : s.releaseOrder k status = s := by
  have hmodify : s.reservations.modify (Db.holdsFor k) (InventoryReservation.setStatus status) =
      s.reservations := by
    refine Collection.ext ?_ rfl
    simp only [Collection.modify]
    conv_rhs => rw [← List.map_id s.reservations.docs]
    refine List.map_congr_left fun x hx => ?_
    have hno : ¬ Db.holdsFor k x := List.filter_eq_nil_iff.1 hnone x hx
    rw [if_neg hno]
    rfl
  simp [Db.releaseOrder, hnone, hmodify]

/-! ## Running it alone -/

theorem exec_release {r : InventoryReservation} (hr : s.reservations.get? r.id = some r)
    {fromStatuses : List ReservationStatus} (hfrom : r.status ∈ fromStatuses) :
    mongo.exec (.reservationRelease r.id status fromStatuses) s =
      (.ok (some ((InventoryReservation.setStatus status).run r)), s.release r status) := by
  simp only [mongo, Db.exec, hr, List.contains_iff_mem, hfrom, if_true]
  rfl

theorem exec_restock (r : InventoryReservation) :
    mongo.exec (.productRestock ((InventoryReservation.setStatus status).run r)) s =
      (.ok (), s.restock r) := by
  simp only [mongo, Db.exec, Db.restock, InventoryReservation.setStatus_product,
    InventoryReservation.setStatus_quantity, InventoryReservation.setStatus_id, update_incStock]
  rfl

theorem eval_releaseReservation {r : InventoryReservation}
    (hr : s.reservations.get? r.id = some r) {fromStatuses : List ReservationStatus}
    (hfrom : r.status ∈ fromStatuses) :
    (releaseReservation r.id status fromStatuses).eval mongo s =
      (.ok true, (s.release r status).restock r) := by
  refine Prog.eval_bind_ok.2 ⟨some ((InventoryReservation.setStatus status).run r),
    s.release r status, exec_release hr hfrom, ?_⟩
  exact Prog.eval_bind_ok.2 ⟨(), _, exec_restock r, rfl⟩

theorem eval_releaseEach (hs : ¬ status.Active) {reservations : List InventoryReservation}
    (hactive : s.activeOf k = reservations) (released : Nat) :
    (releaseEach status (reservations.map (·.id)) released).eval mongo s =
      (.ok (released + reservations.length), s.releaseOrder k status) := by
  induction reservations generalizing s released with
  | nil =>
    rw [releaseOrder_of_none hactive]
    rfl
  | cons r rest ih =>
    have hrest : ((s.release r status).restock r).activeOf k = rest :=
      activeOf_release_head hactive hs
    have hfrom := (head_active hactive).2.mem
    refine Prog.eval_bind_ok.2 ⟨true, _, eval_releaseReservation (get?_head hactive) hfrom, ?_⟩
    rw [ih hrest, releaseOrder_restock hactive hs]
    simp [Nat.add_comm, Nat.add_left_comm]

/-- Run alone, `releaseOrderReservations` releases all the order holds. -/
theorem eval_releaseOrderReservations (hs : ¬ status.Active) (k : ObjectId) (s : Db) :
    (releaseOrderReservations k status).eval mongo s =
      (.ok (s.activeOf k).length, s.releaseOrder k status) := by
  refine Prog.eval_bind_ok.2 ⟨(s.activeOf k).map (·.id), s, rfl, ?_⟩
  rw [eval_releaseEach hs rfl, Nat.zero_add]

/-! ## Interrupting it -/

theorem halts_db (o : DbOp) : (db o).Halts mongo := Prog.halts_perform (S := Mongo) o

theorem releaseReservation_halts (id : ObjectId) (status : ReservationStatus)
    (fromStatuses : List ReservationStatus) :
    (releaseReservation id status fromStatuses).Halts mongo := by
  refine (halts_db _).bind fun released => ?_
  cases released with
  | none => trivial
  | some reservation => exact (halts_db _).bind fun _ => trivial

theorem releaseEach_halts (status : ReservationStatus) (ids : List ObjectId) (released : Nat) :
    (releaseEach status ids released).Halts mongo := by
  induction ids generalizing released with
  | nil => trivial
  | cons id rest ih => exact (releaseReservation_halts _ _ _).bind fun _ => ih _

theorem releaseOrderReservations_halts (k : ObjectId) (status : ReservationStatus) :
    (releaseOrderReservations k status).Halts mongo :=
  (halts_db _).bind fun ids => releaseEach_halts status ids 0

/-- The units that an interruption at this call loses: those of the reservation whose return it is
about to record. -/
def DbOp.missing : DbOp → ObjectId → ℤ
  | .productRestock r => Pi.single r.product (r.quantity : ℤ)
  | _ => 0

/-- Finishing from `t` on gives the reservations and the stock that finishing from `s` on gives, but
for missing units. -/
structure Short (finish : Db → Db) (missing : ObjectId → ℤ) (s t : Db) : Prop where
  reservations : (finish t).reservations = (finish s).reservations
  products : addStock missing (finish t).products = (finish s).products
  rest : t = { s with
    reservations := t.reservations, products := t.products, restocks := t.restocks }

section Short

variable {finish : Db → Db} {m m' : ObjectId → ℤ}

theorem Short.of_eq (h : finish t = finish s)
    (hrest : t = { s with
      reservations := t.reservations, products := t.products, restocks := t.restocks }) :
    Short finish 0 s t :=
  ⟨congrArg Db.reservations h, by rw [addStock_zero, h], hrest⟩

theorem Short.refl (s : Db) : Short finish 0 s s := .of_eq rfl rfl

theorem Short.trans (h : Short finish m s t) (h' : Short finish m' t u) :
    Short finish (m' + m) s u where
  reservations := h'.reservations.trans h.reservations
  products := by rw [← addStock_addStock, h'.products, h.products]
  rest := by
    have hst := h.rest
    have htu := h'.rest
    rw [hst] at htu
    exact htu

end Short

/-- Stopped between the release of a reservation and the return of its units. -/
theorem Short.release {r : InventoryReservation} {rest : List InventoryReservation}
    (hactive : s.activeOf k = r :: rest) (hs : ¬ status.Active) :
    Short (Db.releaseOrder k status) (Pi.single r.product (r.quantity : ℤ)) s
      (s.release r status) where
  reservations := releaseOrder_release_reservations hactive hs
  products := by
    have hrest := activeOf_release_head hactive hs
    simp only [Db.releaseOrder, hrest, hactive, unitsIn_cons]
    simp only [Db.release, addStock_addStock]
    rw [add_comm]
  rest := rfl

theorem releaseEach_reaches (hs : ¬ status.Active) {reservations : List InventoryReservation}
    (hactive : s.activeOf k = reservations) {released : Nat} {o : DbOp}
    (h : (releaseEach status (reservations.map (·.id)) released).Reaches mongo s o t) :
    Short (Db.releaseOrder k status) o.missing s t := by
  induction reservations generalizing s released with
  | nil => exact h.elim
  | cons r rest ih =>
    have hget := get?_head hactive
    have hfrom := (head_active hactive).2.mem
    have hrest : ((s.release r status).restock r).activeOf k = rest :=
      activeOf_release_head hactive hs
    rcases Prog.reaches_bind.1 h with h | ⟨_, u, heval, h⟩
    · rcases Prog.reaches_bind.1 h with h | ⟨_, u, hexec, h⟩
      · obtain ⟨rfl, rfl⟩ := Prog.reaches_perform.1 h
        exact .refl _
      · obtain ⟨hreply, rfl⟩ := Prod.mk.inj ((exec_release hget hfrom).symm.trans hexec)
        obtain rfl := Except.ok.inj hreply
        rcases Prog.reaches_bind.1 h with h | ⟨_, _, _, h⟩
        · obtain ⟨rfl, rfl⟩ := Prog.reaches_perform.1 h
          have hshort := Short.release hactive hs
          exact hshort
        · exact h.elim
    · obtain ⟨-, rfl⟩ := Prod.mk.inj ((eval_releaseReservation hget hfrom).symm.trans heval)
      have hhead : Short (Db.releaseOrder k status) 0 s ((s.release r status).restock r) :=
        .of_eq (releaseOrder_restock hactive hs) rfl
      simpa using hhead.trans (ih hrest h)

/-- Wherever `releaseOrderReservations` is interrupted, releasing the order later makes up for it,
but for the units whose return was about to be recorded. -/
theorem releaseOrderReservations_reaches (hs : ¬ status.Active) {o : DbOp}
    (h : (releaseOrderReservations k status).Reaches mongo s o t) :
    Short (Db.releaseOrder k status) o.missing s t := by
  rcases Prog.reaches_bind.1 h with h | ⟨_, u, hexec, h⟩
  · obtain ⟨rfl, rfl⟩ := Prog.reaches_perform.1 h
    exact .refl _
  · obtain ⟨hreply, rfl⟩ := Prod.mk.inj hexec
    obtain rfl := Except.ok.inj hreply
    exact releaseEach_reaches hs rfl h

/-! ## Outcomes -/

/-- An order without the times at which it was written. -/
def Order.timeless (o : Order) : Order :=
  { o with
    refundRequestedAt := o.refundRequestedAt.map fun _ => 0
    cancelledAt := o.cancelledAt.map fun _ => 0
    paymentStateHistory := o.paymentStateHistory.map fun entry => { entry with time := 0 }
    updatedAt := 0 }

/-- The same orders but for their times, the same reservations and the same stock. -/
structure SameOutcome (s t : Db) : Prop where
  orders : t.orders.docs.map Order.timeless = s.orders.docs.map Order.timeless
  reservations : t.reservations = s.reservations
  products : t.products = s.products

end Ecommerce
