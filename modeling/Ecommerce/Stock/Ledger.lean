import Ecommerce.Effect.Discipline
import Ecommerce.Model.Inventory
import Mathlib.Tactic.Linarith

/-!
# Units of stock

For a valuation of products and for one reservation, what the calls do to the value of the units on
sale, to the value of the units that active reservations hold, and to the record of returned units.
The units of a single product are the valuation that counts no other.
-/

namespace Ecommerce

open Effect Effect.Collection

/-- The value of all units on sale. -/
def stockValue (w : ObjectId → ℤ) (products : Collection Product) : ℤ :=
  products.sum fun x => w x.id * x.stock

/-- The value of the units that a reservation keeps from sale. -/
def InventoryReservation.value (w : ObjectId → ℤ) (r : InventoryReservation) : ℤ :=
  if r.Active then w r.product * r.quantity else 0

/-- The value of the units that all reservations keep from sale. -/
def heldValue (w : ObjectId → ℤ) (reservations : Collection InventoryReservation) : ℤ :=
  reservations.sum (InventoryReservation.value w)

/-- The reservation has left its active states. -/
def Released (reservations : Collection InventoryReservation) (id : ObjectId) : Prop :=
  ∃ r, reservations.get? id = some r ∧ ¬ r.Active

instance (reservations : Collection InventoryReservation) (id : ObjectId) :
    Decidable (Released reservations id) :=
  match h : reservations.get? id with
  | none => isFalse fun ⟨_, hr, _⟩ => by simp [h] at hr
  | some r =>
    if ha : r.Active then isFalse fun ⟨_, hr, hn⟩ => by simp_all
    else isTrue ⟨r, h, ha⟩

/-- Returns of the units of a reservation, beyond the one its release stands for. -/
def overreturned (db : Db) (id : ObjectId) : ℤ :=
  db.restocks.count id - if Released db.reservations id then 1 else 0

/-- Reservations keep the product and the quantity they were made for. -/
def KeepsReservations (s t : Db) : Prop :=
  ∀ id r, s.reservations.get? id = some r →
    ∃ r', t.reservations.get? id = some r' ∧ r'.product = r.product ∧ r'.quantity = r.quantity

theorem KeepsReservations.refl (s : Db) : KeepsReservations s s := fun _ r h => ⟨r, h, rfl, rfl⟩

theorem KeepsReservations.trans {s t u : Db} (h : KeepsReservations s t)
    (h' : KeepsReservations t u) : KeepsReservations s u := by
  intro id r hr
  obtain ⟨r', hr', hp, hq⟩ := h id r hr
  obtain ⟨r'', hr'', hp', hq'⟩ := h' id r' hr'
  exact ⟨r'', hr'', hp'.trans hp, hq'.trans hq⟩

/-! ## Single updates -/

/-- The products that count are known and no stock is negative. -/
structure Stocked (products : Collection Product) (w : ObjectId → ℤ) : Prop where
  known : ∀ id, w id ≠ 0 → ∃ x, products.get? id = some x
  nonneg : ∀ x ∈ products.docs, 0 ≤ x.stock

section Updates

variable {products : Collection Product} {reservations : Collection InventoryReservation}
variable {w : ObjectId → ℤ} {id : ObjectId}

theorem Stocked.incStock (h : Stocked products w) {q : ℤ}
    (hq : ∀ x, products.get? id = some x → 0 ≤ x.stock + q) :
    Stocked (products.update id (Product.incStock q)) w := by
  constructor
  · intro i hi
    obtain ⟨x, hx⟩ := h.known i hi
    by_cases hp : i = id
    · exact ⟨_, by rw [get?_update, if_pos hp, hx]; rfl⟩
    · exact ⟨x, by rw [get?_update, if_neg hp, hx]⟩
  · intro y hy
    obtain ⟨x, hx, rfl⟩ := mem_modify.1 hy
    split
    · next hk => exact hq x (get?_eq_some.2 ⟨hx, by simpa using hk⟩)
    · exact h.nonneg x hx

theorem Stocked.incStock_pnat (h : Stocked products w) (q : ℕ+) :
    Stocked (products.update id (Product.incStock q)) w := by
  refine h.incStock fun x hx => ?_
  have := h.nonneg x (get?_eq_some.1 hx).1
  have : (0 : ℤ) < (q : ℕ) := by exact_mod_cast q.pos
  omega

theorem Stocked.stockValue_incStock (h : Stocked products w) (id : ObjectId) (q : ℤ) :
    stockValue w (products.update id (Product.incStock q)) = stockValue w products + w id * q := by
  cases hx : products.get? id with
  | none =>
    have hw : w id = 0 := by
      by_contra hne
      obtain ⟨x, hx'⟩ := h.known id hne
      simp [hx] at hx'
    simp [stockValue, Collection.sum, update_of_get?_none hx, hw]
  | some x =>
    have hid : x.id = id := get?_key hx
    have hsum := sum_update hx (Product.incStock q) fun x => w x.id * x.stock
    simp only [Product.incStock, hid] at hsum
    simp only [stockValue, Product.incStock]
    linarith

theorem heldValue_setStatus {r : InventoryReservation} (hr : reservations.get? id = some r)
    (ha : r.Active) {status : ReservationStatus} (hs : ¬ status.Active) :
    heldValue w (reservations.update id (InventoryReservation.setStatus status)) =
      heldValue w reservations - w r.product * r.quantity := by
  have hsum := sum_update hr (InventoryReservation.setStatus status) (InventoryReservation.value w)
  have hold : r.value w = w r.product * r.quantity := if_pos ha
  have hnew : ((InventoryReservation.setStatus status).run r).value w = 0 := if_neg (by simpa)
  rw [hold, hnew] at hsum
  simp only [heldValue]
  linarith

theorem heldValue_insert (d : ReservationDraft) :
    heldValue w (reservations.insert (d.reservation reservations.next) (d.key_reservation _)) =
      heldValue w reservations + w d.product * d.quantity := by
  rw [heldValue, sum_insert]
  exact congrArg _ (if_pos (.inl rfl))

theorem released_setStatus {r : InventoryReservation} (hr : reservations.get? id = some r)
    {status : ReservationStatus} (hs : ¬ status.Active) (j : ObjectId) :
    Released (reservations.update id (InventoryReservation.setStatus status)) j ↔
      j = id ∨ Released reservations j := by
  by_cases hj : j = id
  · subst hj
    simp [Released, get?_update, hr, hs]
  · simp [Released, get?_update, hj]

theorem released_insert (d : ReservationDraft) (j : ObjectId) :
    Released (reservations.insert (d.reservation reservations.next) (d.key_reservation _)) j ↔
      Released reservations j := by
  simp only [Released, get?_insert]
  split
  · next hj =>
    subst hj
    simp [ReservationDraft.reservation, InventoryReservation.Active, ReservationStatus.Active]
  · rfl

theorem keepsReservations_setStatus {s t : Db} {status : ReservationStatus}
    (h : t.reservations = s.reservations.update id (InventoryReservation.setStatus status)) :
    KeepsReservations s t := by
  intro j r hr
  by_cases hj : j = id
  · subst hj
    exact ⟨(InventoryReservation.setStatus status).run r, by rw [h, get?_update_self, hr]; rfl,
      rfl, rfl⟩
  · exact ⟨r, by rw [h, get?_update, if_neg hj, hr], rfl, rfl⟩

theorem keepsReservations_insert {s t : Db} {d : ReservationDraft}
    (h : t.reservations =
      s.reservations.insert (d.reservation s.reservations.next) (d.key_reservation _)) :
    KeepsReservations s t := by
  intro j r hr
  refine ⟨r, ?_, rfl, rfl⟩
  have := get?_lt hr
  rw [h, get?_insert, if_neg (by omega), hr]

end Updates

/-! ## Calls that move no units -/

/-- The calls that move units between sale and reservations. -/
def DbOp.MovesStock : DbOp → Prop
  | .productReserve .. | .productUnreserve .. | .productRestock _ | .reservationCreate _
  | .reservationUndo _ | .reservationRelease .. => True
  | _ => False

/-- Same stock, same returns, and the same reservations active. -/
structure SameUnits (s t : Db) : Prop where
  products : t.products = s.products
  restocks : t.restocks = s.restocks
  reservations : ∃ f : InventoryReservation → InventoryReservation,
    t.reservations.docs = s.reservations.docs.map f ∧ ∀ r, (f r).id = r.id ∧
      (f r).product = r.product ∧ (f r).quantity = r.quantity ∧ ((f r).Active ↔ r.Active)

namespace SameUnits

variable {s t : Db}

theorem of_eq (hp : t.products = s.products) (hr : t.restocks = s.restocks)
    (h : t.reservations = s.reservations) : SameUnits s t :=
  ⟨hp, hr, id, by simp [h], fun _ => ⟨rfl, rfl, rfl, Iff.rfl⟩⟩

theorem heldValue (h : SameUnits s t) (w : ObjectId → ℤ) :
    Ecommerce.heldValue w t.reservations = Ecommerce.heldValue w s.reservations := by
  obtain ⟨f, hf, hsame⟩ := h.reservations
  simp only [Ecommerce.heldValue, Collection.sum, hf, List.map_map]
  refine congrArg List.sum (List.map_congr_left fun r _ => ?_)
  obtain ⟨-, hp, hq, ha⟩ := hsame r
  simp [InventoryReservation.value, hp, hq, ha]

theorem get? (h : SameUnits s t) {id : ObjectId} {r : InventoryReservation}
    (hr : s.reservations.get? id = some r) :
    ∃ r', t.reservations.get? id = some r' ∧ r'.product = r.product ∧ r'.quantity = r.quantity ∧
      (r'.Active ↔ r.Active) := by
  obtain ⟨f, hf, hsame⟩ := h.reservations
  obtain ⟨hmem, hk⟩ := get?_eq_some.1 hr
  obtain ⟨hid, hp, hq, ha⟩ := hsame r
  exact ⟨f r, get?_eq_some.2 ⟨by rw [hf]; exact List.mem_map_of_mem hmem, hid.trans hk⟩, hp, hq, ha⟩

theorem released (h : SameUnits s t) (id : ObjectId) :
    Released t.reservations id ↔ Released s.reservations id := by
  constructor
  · rintro ⟨r, hr, hn⟩
    obtain ⟨f, hf, hsame⟩ := h.reservations
    obtain ⟨hmem, hk⟩ := get?_eq_some.1 hr
    rw [hf] at hmem
    obtain ⟨x, hx, rfl⟩ := List.mem_map.1 hmem
    obtain ⟨hid, -, -, ha⟩ := hsame x
    exact ⟨x, get?_eq_some.2 ⟨hx, hid.symm.trans hk⟩, fun h => hn (ha.2 h)⟩
  · rintro ⟨r, hr, hn⟩
    obtain ⟨r', hr', -, -, ha⟩ := h.get? hr
    exact ⟨r', hr', fun h => hn (ha.1 h)⟩

theorem overreturned (h : SameUnits s t) (id : ObjectId) :
    Ecommerce.overreturned t id = Ecommerce.overreturned s id := by
  simp only [Ecommerce.overreturned, h.restocks, h.released]

theorem keepsReservations (h : SameUnits s t) : KeepsReservations s t := by
  intro id r hr
  obtain ⟨r', hr', hp, hq, -⟩ := h.get? hr
  exact ⟨r', hr', hp, hq⟩

end SameUnits

theorem exec_sameUnits {o : DbOp} (h : ¬ o.MovesStock) (db : Db) : SameUnits db (Db.exec o db).2 := by
  cases o with
  | reservationLink ids order =>
    refine ⟨rfl, rfl, fun r => if ids.contains r.id then { r with order := some order } else r,
      rfl, fun r => ?_⟩
    dsimp only
    split <;> exact ⟨rfl, rfl, rfl, Iff.rfl⟩
  | reservationsCommit order =>
    refine ⟨rfl, rfl, fun r => if r.order == some order && r.status == .reserved then
      { r with status := .committed } else r, rfl, fun r => ?_⟩
    dsimp only
    split
    · next hr =>
      have hstatus : r.status = .reserved := by simp at hr; exact hr.2
      simp [InventoryReservation.Active, ReservationStatus.Active, hstatus]
    · exact ⟨rfl, rfl, rfl, Iff.rfl⟩
  | _ =>
    first
    | exact absurd trivial h
    | (simp only [Db.exec]; repeat' split) <;> exact .of_eq rfl rfl rfl

end Ecommerce
