import Ecommerce.Orders.Holdings
import Ecommerce.Orders.PaidOnly

/-!
# What comes back of an order

A reservation comes back by the undo of its own checkout, or once its order has failed, was refunded or
cancelled. Such an order stays so. A handler's note has the orders that it has found closed and the
reservations that its checkout has made, and every call keeps the notes of the other handlers true.
-/

namespace Ecommerce

open Effect Effect.Collection

/-! ## Closed orders -/

instance (o : Order) : Decidable o.Closed :=
  inferInstanceAs (Decidable (_ ∨ _ ∨ _))

/-- An order that is closed stays closed. -/
def StaysClosed (a b : Order) : Prop := a.Closed → b.Closed

theorem StaysClosed.refl (o : Order) : StaysClosed o o := id

theorem OrderUpdate.Legal.staysClosed {u : OrderUpdate} (hu : u.Legal) : u.Respects StaysClosed := by
  rintro now o hguard (hfailed | hrefunded | hcancelled)
  · left
    rcases hu.paymentMoves now o hguard with hsame | hedge
    · exact hsame ▸ hfailed
    · simp [hfailed, allowedTransitions] at hedge
  · right
    left
    rcases hu.paymentMoves now o hguard with hsame | hedge
    · exact hsame ▸ hrefunded
    · simp [hrefunded, allowedTransitions] at hedge
  · right
    right
    rcases hu.edge hguard now with hsame | hedge
    · exact hsame ▸ hcancelled
    · simp [StatusEdge, hcancelled, fulfilmentTransitions] at hedge

namespace Db

/-- The reservation is there, and its order, if that has not been deleted, is closed. -/
def Returnable (s : Db) (id : ObjectId) : Prop :=
  ∃ x k, s.reservations.get? id = some x ∧ x.order = some k ∧ OrderHas Order.Closed k s

/-- Nothing has come back but of closed orders, and of checkouts that never got to an order. -/
def Returned (s : Db) : Prop :=
  ∀ id ∈ s.restocks, ∃ x, s.reservations.get? id = some x ∧
    ∀ k, x.order = some k → OrderHas Order.Closed k s

/-- What others see of a step: closed orders stay closed, and of the reservations only the mover's own
ones that had no order may get one, or come back while their order is open. -/
structure Onward (own : ObjectId → Prop) (s t : Db) : Prop where
  orders : OrdersMove StaysClosed s t
  numbers : KeepsNumbers s t
  rows : ∀ id x, s.reservations.get? id = some x → ∃ y, t.reservations.get? id = some y ∧
    (y.order = x.order ∨ own id ∧ x.order = none)
  restocks : ∀ id ∈ t.restocks, id ∈ s.restocks ∨ own id ∨ t.Returnable id

variable {own own' : ObjectId → Prop} {s t u : Db}

theorem Onward.of_eq (horders : t.orders = s.orders) (hrows : t.reservations = s.reservations)
    (hrestocks : t.restocks = s.restocks) : Onward own s t where
  orders := .of_orders StaysClosed.refl horders
  numbers := by
    rw [KeepsNumbers, horders]
    exact KeepsNumbers.refl s
  rows id x hx := ⟨x, hrows ▸ hx, .inl rfl⟩
  restocks id hid := .inl (hrestocks ▸ hid)

theorem Onward.refl (s : Db) : Onward own s s := .of_eq rfl rfl rfl

theorem Onward.closed (h : Onward own s t) {k : ObjectId} (hk : OrderHas Order.Closed k s) :
    OrderHas Order.Closed k t :=
  hk.move (fun _ _ hstays => hstays) h.numbers h.orders

/-- An order that has been deleted does not come back. -/
theorem Onward.gone (h : Onward own s t) {k : ObjectId} (hk : OrderHas (fun _ => False) k s) :
    OrderHas (fun _ => False) k t :=
  hk.move (E := fun _ _ => True) (fun _ _ _ h => h) h.numbers fun _ _ _ _ _ => trivial

theorem Onward.returnable (h : Onward own s t) {id : ObjectId} (hid : s.Returnable id) :
    t.Returnable id := by
  obtain ⟨x, k, hx, hk, hclosed⟩ := hid
  obtain ⟨y, hy, hsame | ⟨-, hnone⟩⟩ := h.rows id x hx
  · exact ⟨y, k, hy, hsame.trans hk, h.closed hclosed⟩
  · cases hnone.symm.trans hk

theorem Onward.trans (h : Onward own s t) (h' : Onward own' t u) (hown : ∀ id, own' id → own id) :
    Onward own s u where
  orders := by
    intro k a c ha hc
    cases hb : t.orders.get? k with
    | none => cases (h'.numbers.2 k ((get?_lt ha).trans_le h.numbers.1) hb).symm.trans hc
    | some b => exact fun hclosed => h'.orders k b c hb hc (h.orders k a b ha hb hclosed)
  numbers := h.numbers.trans h'.numbers
  rows id x hx := by
    obtain ⟨y, hy, hxy⟩ := h.rows id x hx
    obtain ⟨z, hz, hyz⟩ := h'.rows id y hy
    refine ⟨z, hz, ?_⟩
    rcases hxy with hsame | hmine
    · rw [← hsame]
      exact hyz.imp_right fun hmine => ⟨hown id hmine.1, hmine.2⟩
    · exact .inr hmine
  restocks id hid := by
    rcases h'.restocks id hid with hold | hmine | hreturnable
    · exact (h.restocks id hold).imp_right (Or.imp_right h'.returnable)
    · exact .inr (.inl (hown id hmine))
    · exact .inr (.inr hreturnable)

theorem Onward.mono (h : Onward own s t) (hown : ∀ id, own id → own' id) : Onward own' s t :=
  (Onward.refl s).trans h hown

/-- One call that writes neither orders nor the reservations' orders. -/
theorem Onward.of_rows (horders : t.orders = s.orders) {p : InventoryReservation → Bool}
    {status : ReservationStatus}
    (hrows : t.reservations = s.reservations.modify p (InventoryReservation.setStatus status))
    (hrestocks : t.restocks = s.restocks) : Onward own s t where
  orders := .of_orders StaysClosed.refl horders
  numbers := by
    rw [KeepsNumbers, horders]
    exact KeepsNumbers.refl s
  rows id x hx := by
    rw [hrows, get?_modify, hx]
    refine ⟨_, rfl, .inl ?_⟩
    dsimp only
    split <;> rfl
  restocks id hid := .inl (hrestocks ▸ hid)

end Db

/-! ## The note -/

/-- How far a checkout has got with its order. -/
inductive CheckoutStage where
  | gathering
  | placed (order : ObjectId)
  | linked (order : ObjectId)
  | undoing
  deriving DecidableEq

/-- The orders that a handler has found closed, the reservations it has found of these, and those that its
checkout has made. -/
structure ReturnNote where
  closed : List ObjectId
  found : List ObjectId
  made : List ObjectId
  stage : CheckoutStage

namespace ReturnNote

def blank : ReturnNote := ⟨[], [], [], .gathering⟩

/-- An order that has been read or updated. -/
def saw (g : ReturnNote) (o : Order) : ReturnNote :=
  if o.Closed then { g with closed := o.id :: g.closed } else g

def note : (o : DbOp) → Except ApiError o.Reply → ReturnNote → ReturnNote
  | .orderFindById _, .ok (some (o : Order)), g => g.saw o
  | .orderUpdate _ _, .ok (some (o : Order)), g => g.saw o
  | .reservationsActive k, .ok (ids : List ObjectId), g =>
    if k ∈ g.closed then { g with found := ids ++ g.found } else g
  | .reservationCreate _, .ok (r : InventoryReservation), g => { g with made := r.id :: g.made }
  | .orderCreate _ _, .ok (o : Order), g => { g with stage := .placed o.id }
  | .reservationLink _ k, .ok _, g => { g with stage := .linked k }
  | .orderDelete _, .ok _, g => { g with stage := .undoing }
  | .reservationUndo _, .ok _, g => { g with stage := .undoing }
  | _, _, g => g

/-- A reservation is given back when its order was found closed, or by the undo of its checkout once the
order is not there. -/
def may (o : DbOp) (g : ReturnNote) : Prop :=
  match o with
  | .orderUpdate u _ => u.Legal
  | .productRestock r => r.id ∈ g.found
  | .orderCreate _ _ => g.stage = .gathering
  | .reservationLink ids k => g.stage = .placed k ∧ ids ⊆ g.made
  | .orderDelete k => g.stage = .placed k ∨ g.stage = .linked k
  | .reservationUndo id => (g.stage = .gathering ∨ g.stage = .undoing) ∧ id ∈ g.made
  | _ => True

/-- What the note says of a reservation that the checkout has made, and that has this order. -/
def Links (g : ReturnNote) (s : Db) (k : ObjectId) : Prop :=
  g.stage = .linked k ∨ g.stage = .undoing ∧ OrderHas (fun _ => False) k s

/-- What the note says of the database. -/
structure Backed (g : ReturnNote) (s : Db) : Prop where
  closed : ∀ k ∈ g.closed, OrderHas Order.Closed k s
  found : ∀ id ∈ g.found, s.Returnable id
  made : ∀ id ∈ g.made, ∃ x, s.reservations.get? id = some x ∧ ∀ k, x.order = some k → g.Links s k
  order : ∀ k, g.stage = .placed k ∨ g.stage = .linked k → k < s.orders.next
  kept : g.stage = .gathering ∨ (∃ k, g.stage = .placed k) → ∀ id ∈ g.made, id ∉ s.restocks

theorem Backed.blank (s : Db) : blank.Backed s where
  closed k hk := by simp [ReturnNote.blank] at hk
  found id hid := by simp [ReturnNote.blank] at hid
  made id hid := by simp [ReturnNote.blank] at hid
  order k hk := by simp [ReturnNote.blank] at hk
  kept _ id hid := by simp [ReturnNote.blank] at hid

/-- The step of another handler. -/
theorem Backed.move {own : ObjectId → Prop} {g : ReturnNote} {s t : Db} (h : g.Backed s)
    (hst : s.Onward own t) (hown : ∀ id ∈ g.made, ¬ own id) : g.Backed t where
  closed k hk := hst.closed (h.closed k hk)
  found id hid := hst.returnable (h.found id hid)
  made id hid := by
    obtain ⟨x, hx, hlinks⟩ := h.made id hid
    obtain ⟨y, hy, hsame | ⟨hmine, -⟩⟩ := hst.rows id x hx
    · refine ⟨y, hy, fun k hk => ?_⟩
      exact (hlinks k (hsame.symm.trans hk)).imp_right fun hgone => ⟨hgone.1, hst.gone hgone.2⟩
    · exact absurd hmine (hown id hid)
  order k hk := (h.order k hk).trans_le hst.numbers.1
  kept hstage id hid hrestocked := by
    rcases hst.restocks id hrestocked with hold | hmine | ⟨y, k, hy, hk, -⟩
    · exact h.kept hstage id hid hold
    · exact hown id hid hmine
    · -- Until the checkout links it, the reservation has no order.
      obtain ⟨x, hx, hlinks⟩ := h.made id hid
      obtain ⟨y', hy', hsame | ⟨hmine, -⟩⟩ := hst.rows id x hx
      · obtain rfl := Option.some_inj.1 (hy.symm.trans hy')
        rcases hlinks k (hsame.symm.trans hk) with hlinked | ⟨hundoing, -⟩
        · rcases hstage with hstage | ⟨j, hstage⟩
          · cases hlinked.symm.trans hstage
          · cases hlinked.symm.trans hstage
        · rcases hstage with hstage | ⟨j, hstage⟩
          · cases hundoing.symm.trans hstage
          · cases hundoing.symm.trans hstage
      · exact hown id hid hmine

end ReturnNote

/-- Reservations that have come back keep their orders, and what comes back now may. -/
theorem Db.Returned.move {own : ObjectId → Prop} {s t : Db} (h : s.Returned) (hst : s.Onward own t)
    (hkeep : ∀ id ∈ s.restocks, ∀ x, s.reservations.get? id = some x →
      ∃ y, t.reservations.get? id = some y ∧ y.order = x.order)
    (hmine : ∀ id, own id → id ∈ t.restocks → ∃ x, t.reservations.get? id = some x ∧
      ∀ k, x.order = some k → OrderHas Order.Closed k t) : t.Returned := by
  intro id hid
  rcases hst.restocks id hid with hold | hown | ⟨x, k, hx, hk, hclosed⟩
  · obtain ⟨x, hx, hclosed⟩ := h id hold
    obtain ⟨y, hy, hsame⟩ := hkeep id hold x hx
    exact ⟨y, hy, fun k hk => hst.closed (hclosed k (hsame.symm.trans hk))⟩
  · exact hmine id hown hid
  · refine ⟨x, hx, fun j hj => ?_⟩
    obtain rfl := Option.some_inj.1 (hk.symm.trans hj)
    exact hclosed

namespace ReturnNote

/-- What a step of a handler does to its note and to the database. -/
structure Moves (g : ReturnNote) (s : Db) (g' : ReturnNote) (t : Db) : Prop where
  backed : g'.Backed t
  returned : t.Returned
  onward : s.Onward (fun id => id ∈ g.made ∨ s.reservations.get? id = none) t
  made : ∀ id ∈ g'.made, id ∈ g.made ∨ s.reservations.get? id = none

section Steps

variable {g g' : ReturnNote} {s t : Db}

/-- A step that gives none of the checkout's own reservations an order or back. -/
theorem Backed.moves (hg : g.Backed s) (hs : s.Returned) (hst : s.Onward (fun _ => False) t)
    (hclosed : ∀ k ∈ g'.closed, k ∈ g.closed ∨ OrderHas Order.Closed k t)
    (hfound : ∀ id ∈ g'.found, id ∈ g.found ∨ t.Returnable id) (hmade : g'.made = g.made)
    (hstage : g'.stage = g.stage) : g.Moves s g' t := by
  have hnext := hg.move hst fun _ _ => id
  refine ⟨⟨fun k hk => ?_, fun id hid => ?_, ?_, ?_, ?_⟩, ?_, ?_, ?_⟩
  · exact (hclosed k hk).elim (hnext.closed k) id
  · exact (hfound id hid).elim (hnext.found id) fun h => h
  · rw [hmade]
    simpa only [Links, hstage] using hnext.made
  · rw [hstage]
    exact hnext.order
  · rw [hstage, hmade]
    exact hnext.kept
  · refine hs.move hst (fun id _ x hx => ?_) fun _ h => h.elim
    obtain ⟨y, hy, hsame | ⟨hown, -⟩⟩ := hst.rows id x hx
    · exact ⟨y, hy, hsame⟩
    · exact hown.elim
  · exact hst.mono fun _ h => h.elim
  · exact fun id hid => .inl (hmade ▸ hid)

/-- The note of an order as it is now. -/
theorem Backed.saw {o : Order} (hg : g.Backed s) (hs : s.Returned) (hst : s.Onward (fun _ => False) t)
    (ho : t.orders.get? o.id = some o) : g.Moves s (g.saw o) t := by
  refine hg.moves hs hst (fun k hk => ?_) (fun id hid => .inl ?_) ?_ ?_
  · by_cases hclosed : o.Closed
    · rw [ReturnNote.saw, if_pos hclosed] at hk
      rcases List.mem_cons.1 hk with rfl | hk
      · refine .inr ⟨get?_lt ho, fun x hx => ?_⟩
        exact Option.some_inj.1 (ho.symm.trans hx) ▸ hclosed
      · exact .inl hk
    · rw [ReturnNote.saw, if_neg hclosed] at hk
      exact .inl hk
  · unfold ReturnNote.saw at hid
    split at hid <;> exact hid
  · unfold ReturnNote.saw
    split <;> rfl
  · unfold ReturnNote.saw
    split <;> rfl

/-- Calls that leave orders, reservations and returns as they are. -/
theorem Backed.untouched (hg : g.Backed s) (hs : s.Returned) (horders : t.orders = s.orders)
    (hrows : t.reservations = s.reservations) (hrestocks : t.restocks = s.restocks) : g.Moves s g t :=
  hg.moves hs (.of_eq horders hrows hrestocks) (fun _ => .inl) (fun _ => .inl) rfl rfl

theorem exec_orderUpdate_returns {u : OrderUpdate} (hu : u.Legal) (now : Time) (hg : g.Backed s)
    (hs : s.Returned) : g.Moves s (note (.orderUpdate u now) (mongo.exec (.orderUpdate u now) s).1 g)
      (mongo.exec (.orderUpdate u now) s).2 := by
  have hmoves := exec_orderUpdate_moves StaysClosed.refl hu.staysClosed now s
  have hnumbers := exec_keepsNumbers (.orderUpdate u now) s
  obtain ⟨o, ho, -, heq⟩ | ⟨-, heq⟩ := exec_orderUpdate u now s
  · rw [heq] at hmoves hnumbers ⊢
    refine hg.saw hs ⟨hmoves, hnumbers, fun id x hx => ⟨x, hx, .inl rfl⟩, fun id => .inl⟩ ?_
    have hget := get?_update_self s.orders u.id (u.patch now)
    rw [ho] at hget
    have hid : (u.apply now o).id = u.id := (OrderUpdate.apply_id _ _ _).trans (get?_key ho)
    rw [hid]
    exact hget
  · rw [heq]
    exact hg.untouched hs rfl rfl rfl

theorem exec_reservationsActive_returns (k : ObjectId) (hg : g.Backed s) (hs : s.Returned) :
    g.Moves s (note (.reservationsActive k) (.ok ((s.activeOf k).map (·.id))) g) s := by
  unfold note
  dsimp only
  split
  · next hk =>
    refine hg.moves hs (.refl s) (fun _ => .inl) (fun id hid => ?_) rfl rfl
    rcases List.mem_append.1 hid with hid | hid
    · obtain ⟨x, hx, rfl⟩ := List.mem_map.1 hid
      obtain ⟨hmem, horder, -⟩ := mem_activeOf.1 hx
      exact .inr ⟨x, k, get?_eq_some.2 ⟨hmem, rfl⟩, horder, hg.closed k hk⟩
    · exact .inl hid
  · exact hg.untouched hs rfl rfl rfl

theorem exec_reservationRelease_returns (id : ObjectId) (status : ReservationStatus)
    (fromStatuses : List ReservationStatus) (hg : g.Backed s) (hs : s.Returned) :
    g.Moves s g (mongo.exec (.reservationRelease id status fromStatuses) s).2 := by
  simp only [mongo, Db.exec]
  split
  · split
    · exact hg.moves hs (.of_rows rfl rfl rfl) (fun _ => .inl) (fun _ => .inl) rfl rfl
    · exact hg.untouched hs rfl rfl rfl
  · exact hg.untouched hs rfl rfl rfl

theorem exec_productRestock_returns {r : InventoryReservation} (hr : r.id ∈ g.found) (hg : g.Backed s)
    (hs : s.Returned) : g.Moves s g (mongo.exec (.productRestock r) s).2 := by
  refine hg.moves hs ⟨.of_orders StaysClosed.refl rfl, .refl s, fun id x hx => ⟨x, hx, .inl rfl⟩, ?_⟩
    (fun _ => .inl) (fun _ => .inl) rfl rfl
  intro id hid
  rcases List.mem_append.1 hid with hid | hid
  · exact .inl hid
  · obtain rfl := List.mem_singleton.1 hid
    exact .inr (.inr (hg.found _ hr))

/-- A new reservation has no order yet. -/
theorem exec_reservationCreate_returns (draft : ReservationDraft) (hg : g.Backed s) (hs : s.Returned) :
    g.Moves s (note (.reservationCreate draft) (mongo.exec (.reservationCreate draft) s).1 g)
      (mongo.exec (.reservationCreate draft) s).2 := by
  have hget : ∀ id x, s.reservations.get? id = some x →
      (mongo.exec (.reservationCreate draft) s).2.reservations.get? id = some x := fun id x hx =>
    (get?_insert _ _ (draft.key_reservation _) _).trans ((if_neg (get?_lt hx).ne).trans hx)
  have hnew := get?_insert_next s.reservations (draft.reservation s.reservations.next)
    (draft.key_reservation _)
  have hst : s.Onward (fun _ => False) (mongo.exec (.reservationCreate draft) s).2 :=
    ⟨.of_orders StaysClosed.refl rfl, .refl s, fun id x hx => ⟨x, hget id x hx, .inl rfl⟩, fun id => .inl⟩
  have hstill : g.Moves s g _ := hg.moves hs hst (fun _ => .inl) (fun _ => .inl) rfl rfl
  refine ⟨⟨hstill.backed.closed, hstill.backed.found, fun id hid => ?_, hstill.backed.order,
    fun h id hid hrestocked => ?_⟩, hstill.returned, hstill.onward, fun id hid => ?_⟩
  · rcases List.mem_cons.1 hid with rfl | hid
    · exact ⟨_, hnew, fun k hk => by cases hk⟩
    · exact hstill.backed.made id hid
  · rcases List.mem_cons.1 hid with rfl | hid
    · obtain ⟨x, hx, -⟩ := hs _ hrestocked
      cases hx.symm.trans (get?_next s.reservations)
    · exact hstill.backed.kept h id hid hrestocked
  · rcases List.mem_cons.1 hid with rfl | hid
    · exact .inr (get?_next s.reservations)
    · exact .inl hid

theorem exec_orderCreate_returns {draft : OrderDraft} {now : Time} (hstage : g.stage = .gathering)
    (hg : g.Backed s) (hs : s.Returned) :
    g.Moves s (note (.orderCreate draft now) (mongo.exec (.orderCreate draft now) s).1 g)
      (mongo.exec (.orderCreate draft now) s).2 := by
  have hst : s.Onward (fun _ => False) (mongo.exec (.orderCreate draft now) s).2 :=
    ⟨exec_moves StaysClosed.refl (by rintro u now ⟨⟩) s, exec_keepsNumbers _ s,
      fun id x hx => ⟨x, hx, .inl rfl⟩, fun id => .inl⟩
  have hstill : g.Moves s g _ := hg.moves hs hst (fun _ => .inl) (fun _ => .inl) rfl rfl
  refine ⟨⟨hstill.backed.closed, hstill.backed.found, fun id hid => ?_, fun k hk => ?_,
    fun _ => hstill.backed.kept (.inl hstage)⟩, hstill.returned, hstill.onward, hstill.made⟩
  · obtain ⟨x, hx, hlinks⟩ := hg.made id hid
    refine ⟨x, hx, fun k hk => ?_⟩
    rcases hlinks k hk with hlinked | ⟨hundoing, -⟩
    · cases hstage.symm.trans hlinked
    · cases hstage.symm.trans hundoing
  · rcases hk with hk | hk
    · cases hk
      exact Nat.lt_succ_self _
    · cases hk

theorem exec_reservationLink_returns {ids : List ObjectId} {k : ObjectId} (hstage : g.stage = .placed k)
    (hids : ids ⊆ g.made) (hg : g.Backed s) (hs : s.Returned) :
    g.Moves s (note (.reservationLink ids k) (mongo.exec (.reservationLink ids k) s).1 g)
      (mongo.exec (.reservationLink ids k) s).2 := by
  have hget : ∀ id x, s.reservations.get? id = some x →
      ∃ y, (mongo.exec (.reservationLink ids k) s).2.reservations.get? id = some y ∧
        (y.order = x.order ∨ y.order = some k ∧ id ∈ ids) := by
    intro id x hx
    refine ⟨_, (get?_modify _ _ _ _).trans (congrArg _ hx), ?_⟩
    have hid : x.id = id := get?_key hx
    dsimp only
    split
    · next hmem => exact .inr ⟨rfl, by simpa [hid] using hmem⟩
    · exact .inl rfl
  have hnone : ∀ id ∈ g.made, ∃ x, s.reservations.get? id = some x ∧ x.order = none := by
    intro id hid
    obtain ⟨x, hx, hlinks⟩ := hg.made id hid
    refine ⟨x, hx, Option.eq_none_iff_forall_not_mem.2 fun j hj => ?_⟩
    rcases hlinks j hj with hlinked | ⟨hundoing, -⟩
    · cases hstage.symm.trans hlinked
    · cases hstage.symm.trans hundoing
  have hst : s.Onward (· ∈ g.made) (mongo.exec (.reservationLink ids k) s).2 := by
    refine ⟨.of_orders StaysClosed.refl rfl, .refl s, fun id x hx => ?_, fun id => .inl⟩
    obtain ⟨y, hy, hsame | ⟨-, hmem⟩⟩ := hget id x hx
    · exact ⟨y, hy, .inl hsame⟩
    · obtain ⟨x', hx', horder⟩ := hnone id (hids hmem)
      obtain rfl := Option.some_inj.1 (hx.symm.trans hx')
      exact ⟨y, hy, .inr ⟨hids hmem, horder⟩⟩
  have hkept := hg.kept (.inr ⟨k, hstage⟩)
  refine ⟨⟨fun j hj => hst.closed (hg.closed j hj), fun id hid => hst.returnable (hg.found id hid),
    fun id hid => ?_, fun j hj => ?_, fun h => ?_⟩, hs.move hst (fun id hid x hx => ?_) fun id hid hin => ?_,
    hst.mono fun _ => .inl, fun id hid => .inl hid⟩
  · obtain ⟨x, hx, horder⟩ := hnone id hid
    obtain ⟨y, hy, hsame | ⟨hlinked, -⟩⟩ := hget id x hx
    · refine ⟨y, hy, fun j hj => ?_⟩
      cases (hsame.trans horder).symm.trans hj
    · refine ⟨y, hy, fun j hj => .inl ?_⟩
      obtain rfl := Option.some_inj.1 (hlinked.symm.trans hj)
      rfl
  · rcases hj with hj | hj
    · cases hj
    · cases hj
      exact hg.order k (.inl hstage)
  · obtain h | ⟨j, h⟩ := h
    · cases h
    · cases h
  · obtain ⟨y, hy, hsame | ⟨-, hmem⟩⟩ := hget id x hx
    · exact ⟨y, hy, hsame⟩
    · exact absurd hid (hkept id (hids hmem))
  · exact absurd hin (hkept id hid)

theorem exec_orderDelete_returns {k : ObjectId} (hstage : g.stage = .placed k ∨ g.stage = .linked k)
    (hg : g.Backed s) (hs : s.Returned) :
    g.Moves s (note (.orderDelete k) (mongo.exec (.orderDelete k) s).1 g)
      (mongo.exec (.orderDelete k) s).2 := by
  have hst : s.Onward (fun _ => False) (mongo.exec (.orderDelete k) s).2 :=
    ⟨exec_moves StaysClosed.refl (by rintro u now ⟨⟩) s, exec_keepsNumbers _ s,
      fun id x hx => ⟨x, hx, .inl rfl⟩, fun id => .inl⟩
  have hstill : g.Moves s g _ := hg.moves hs hst (fun _ => .inl) (fun _ => .inl) rfl rfl
  have hgone : OrderHas (fun _ => False) k (mongo.exec (.orderDelete k) s).2 := by
    refine ⟨hg.order k hstage, fun o ho => ?_⟩
    have hnone := (get?_erase s.orders k k).trans (if_pos rfl)
    cases hnone.symm.trans ho
  refine ⟨⟨hstill.backed.closed, hstill.backed.found, fun id hid => ?_, fun j hj => ?_, fun h => ?_⟩,
    hstill.returned, hstill.onward, hstill.made⟩
  · obtain ⟨x, hx, hlinks⟩ := hg.made id hid
    refine ⟨x, hx, fun j hj => ?_⟩
    rcases hlinks j hj with hlinked | ⟨hundoing, -⟩
    · rcases hstage with hstage | hstage
      · cases hstage.symm.trans hlinked
      · cases hstage.symm.trans hlinked
        exact .inr ⟨rfl, hgone⟩
    · rcases hstage with hstage | hstage <;> cases hstage.symm.trans hundoing
  · rcases hj with hj | hj <;> cases hj
  · obtain h | ⟨j, h⟩ := h <;> cases h

theorem exec_reservationUndo_returns {id : ObjectId} (hstage : g.stage = .gathering ∨ g.stage = .undoing)
    (hid : id ∈ g.made) (hg : g.Backed s) (hs : s.Returned) :
    g.Moves s (note (.reservationUndo id) (mongo.exec (.reservationUndo id) s).1 g)
      (mongo.exec (.reservationUndo id) s).2 := by
  have hget : ∀ i x, s.reservations.get? i = some x →
      ∃ y, (mongo.exec (.reservationUndo id) s).2.reservations.get? i = some y ∧ y.order = x.order := by
    intro i x hx
    refine ⟨_, (get?_modify _ _ _ _).trans (congrArg _ hx), ?_⟩
    dsimp only
    split <;> rfl
  have hst : s.Onward (· ∈ g.made) (mongo.exec (.reservationUndo id) s).2 := by
    refine ⟨.of_orders StaysClosed.refl rfl, .refl s, fun i x hx => ?_, fun i hi => ?_⟩
    · obtain ⟨y, hy, hsame⟩ := hget i x hx
      exact ⟨y, hy, .inl hsame⟩
    · rcases List.mem_append.1 hi with hi | hi
      · exact .inl hi
      · obtain rfl := List.mem_singleton.1 hi
        exact .inr (.inl hid)
  -- Without an order of the checkout, its reservations have none, or one that was deleted.
  have hmade : ∀ i ∈ g.made, ∃ y, (mongo.exec (.reservationUndo id) s).2.reservations.get? i = some y ∧
      ∀ k, y.order = some k → OrderHas (fun _ => False) k s := by
    intro i hi
    obtain ⟨x, hx, hlinks⟩ := hg.made i hi
    obtain ⟨y, hy, hsame⟩ := hget i x hx
    refine ⟨y, hy, fun k hk => ?_⟩
    rcases hlinks k (hsame.symm.trans hk) with hlinked | ⟨-, hgone⟩
    · rcases hstage with hstage | hstage <;> cases hstage.symm.trans hlinked
    · exact hgone
  refine ⟨⟨fun j hj => hst.closed (hg.closed j hj), fun i hi => hst.returnable (hg.found i hi),
    fun i hi => ?_, fun j hj => ?_, fun h => ?_⟩, hs.move hst (fun i _ => hget i) fun i hi _ => ?_,
    hst.mono fun _ => .inl, fun i hi => .inl hi⟩
  · obtain ⟨y, hy, hgone⟩ := hmade i hi
    exact ⟨y, hy, fun k hk => .inr ⟨rfl, hst.gone (hgone k hk)⟩⟩
  · rcases hj with hj | hj <;> cases hj
  · obtain h | ⟨j, h⟩ := h <;> cases h
  · obtain ⟨y, hy, hgone⟩ := hmade i hi
    refine ⟨y, hy, fun k hk => ?_⟩
    obtain ⟨hlt, hnone⟩ := hgone k hk
    exact ⟨hlt, fun o ho => (hnone o ho).elim⟩

/-- One call of a handler, whose note lets it make it. -/
theorem exec_returns (o : DbOp) (ho : may o g) (hg : g.Backed s) (hs : s.Returned) :
    g.Moves s (note o (mongo.exec o s).1 g) (mongo.exec o s).2 := by
  cases o with
  | orderFindById k =>
    show g.Moves s (note (.orderFindById k) (.ok (s.orders.get? k)) g) s
    cases hk : s.orders.get? k with
    | none => exact hg.untouched hs rfl rfl rfl
    | some o =>
      have hid : o.id = k := get?_key hk
      exact hg.saw hs (.refl s) (hid.symm ▸ hk)
  | orderUpdate u now => exact exec_orderUpdate_returns ho now hg hs
  | reservationsActive k => exact exec_reservationsActive_returns k hg hs
  | reservationRelease id status fromStatuses =>
    exact exec_reservationRelease_returns id status fromStatuses hg hs
  | reservationsCommit k => exact hg.moves hs (.of_rows rfl rfl rfl) (fun _ => .inl) (fun _ => .inl) rfl rfl
  | productRestock r => exact exec_productRestock_returns ho hg hs
  | reservationCreate draft => exact exec_reservationCreate_returns draft hg hs
  | orderCreate draft now => exact exec_orderCreate_returns ho hg hs
  | reservationLink ids k => exact exec_reservationLink_returns ho.1 ho.2 hg hs
  | orderDelete k => exact exec_orderDelete_returns ho hg hs
  | reservationUndo id => exact exec_reservationUndo_returns ho.1 ho.2 hg hs
  | _ =>
    first
    | exact hg.untouched hs rfl rfl rfl
    | (refine hg.untouched hs ?_ ?_ ?_ <;> simp only [mongo, Db.exec] <;>
        (split <;> first | rfl | (split <;> rfl)))

end Steps

end ReturnNote

end Ecommerce
