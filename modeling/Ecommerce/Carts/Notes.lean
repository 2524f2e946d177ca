import Ecommerce.Checkout.Notes
import Ecommerce.Model.Carts

/-!
# What a request does to cart and orders

A request of the customer is followed by a note of what it has read and written so far: the cart it
has read, the order it has created and not deleted, whether it has cleared the cart, and the line it
has added. Checkouts clear the cart they have read after creating an order of its lines, or delete
that order again.
-/

namespace Ecommerce

open Effect

/-- What an order asks for, line by line. -/
def OrderItem.line (item : OrderItem) : CartItem := ⟨item.product, item.quantity⟩

def Order.lines (o : Order) : List CartItem := o.items.map OrderItem.line

/-- The note of a request. -/
structure CartNote where
  cart : Option Cart
  order : Option Order
  cleared : Bool
  added : Option CartItem
  deriving DecidableEq

/-- The note of a request that has done nothing yet. -/
def CartNote.blank : CartNote := ⟨none, none, false, none⟩

namespace CartNote

/-- What the calls of a checkout add to the note. -/
def noteDb : (o : DbOp) → Except ApiError o.Reply → CartNote → CartNote
  | .cartFindOne _ _, .ok found, g => { g with cart := found }
  | .orderCreate _ _, .ok order, g => { g with order := some order }
  | .orderDelete _, .ok _, g => { g with order := none }
  | .cartClear _ _, .ok _, g => { g with cleared := true }
  | _, _, g => g

/-- What the calls of `addItem` add to the note. -/
def noteCart : (o : CartCall) → Except ApiError o.Reply → CartNote → CartNote
  | .cartIncrement _ _ product quantity, .ok (some _), g => { g with added := some ⟨product, quantity⟩ }
  | .cartPush _ _ product quantity, .ok (some _), g => { g with added := some ⟨product, quantity⟩ }
  | _, _, g => g

/-- What a checkout issues, given its note. -/
def mayDb (customer : AuthedRequest) : DbOp → CartNote → Prop
  | .cartFindOne user tenant, _ => user = customer.user ∧ tenant = customer.tenant
  | .orderCreate draft _, g =>
    g.order = none ∧ g.cleared = false ∧
      ∃ cart, g.cart = some cart ∧ draft.items.map OrderItem.line = cart.items
  | .orderDelete id, g => g.cleared = false ∧ ∃ order, g.order = some order ∧ order.id = id
  | .cartClear id version, g =>
    g.cleared = false ∧ ∃ cart order, g.cart = some cart ∧ cart.id = id ∧ cart.version = version ∧
      g.order = some order ∧ order.lines = cart.items
  | .productReserve .., _ | .productUnreserve .., _ | .reservationCreate _, _ | .reservationUndo _, _
  | .reservationLink .., _ | .couponFindOne .., _ | .couponClaim .., _ | .couponUnclaim _, _
  | .redemptionCount .., _ | .redemptionCreate _, _ => True
  | _, _ => False

/-- What `addItem` issues, given its note. -/
def mayCart (customer : AuthedRequest) : CartCall → CartNote → Prop
  | .cartIncrement user tenant _ _, g | .cartPush user tenant _ _, g =>
    user = customer.user ∧ tenant = customer.tenant ∧ g.added = none
  | _, _ => True

/-- The replies a checkout relies on: an order is never refused, nor its deletion. -/
def allowsDb : (o : DbOp) → Except ApiError o.Reply → Prop
  | .productReserve id _ _, .ok (some product) => product.id = id
  | .orderCreate draft _, .ok order => order.items = draft.items
  | .orderDelete _, .error _ => False
  | _, _ => True

def allowsCart : (o : CartCall) → Except ApiError o.Reply → Prop
  | .productFindOne id _, .ok (some product) => product.id = id
  | _, _ => True

end CartNote

/-- The memo of a checkout. -/
def checkoutMemo (customer : AuthedRequest) : Memo Mongo ApiError CartNote where
  note := CartNote.noteDb
  may := CartNote.mayDb customer
  allows := CartNote.allowsDb

/-- The memo of a request. -/
def cartMemo (customer : AuthedRequest) : Memo CartMongo ApiError CartNote where
  note
    | .inl o => CartNote.noteDb o
    | .inr o => CartNote.noteCart o
  may
    | .inl o => CartNote.mayDb customer o
    | .inr o => CartNote.mayCart customer o
  allows
    | .inl o => CartNote.allowsDb o
    | .inr o => CartNote.allowsCart o

/-- How a request ends: a checkout has cleared the cart and left its order, or left no order; an item
that is reported as added has been added. -/
def CartRequest.Ends : CartRequest → Except ApiError CartResponse → CartNote → Prop
  | .checkout _ _, .ok (.checkout result), g => g = ⟨g.cart, some result.order, true, none⟩
  | .checkout _ _, .ok (.cart _), _ => False
  | .checkout _ _, .error _, g => g = ⟨g.cart, none, false, none⟩
  | .addItem product quantity, .ok _, g => g = ⟨g.cart, none, false, some ⟨product, quantity⟩⟩
  | .addItem product quantity, .error _, g =>
    g = ⟨g.cart, none, false, none⟩ ∨ g = ⟨g.cart, none, false, some ⟨product, quantity⟩⟩

/-! ## Checkout -/

section Checkout

variable {customer : AuthedRequest}

/-- Calls that the note is silent about. -/
abbrev Unnoted (customer : AuthedRequest) (o : DbOp) : Prop := (checkoutMemo customer).Unnoted o

theorem issues_unnoted {o : DbOp} (h : Unnoted customer o) : (db o).Issues (Unnoted customer) :=
  issues_db h

/-- The undo calls belong to the note: they delete the order that it has, and no other. -/
def Reverts (customer : AuthedRequest) (undo : List DbOp) (g : CartNote) : Prop :=
  (g = ⟨g.cart, none, false, none⟩ ∧ ∀ o ∈ undo, Unnoted customer o) ∨
    ∃ order rest, g = ⟨g.cart, some order, false, none⟩ ∧ undo = .orderDelete order.id :: rest ∧
      ∀ o ∈ rest, Unnoted customer o

/-- The cart has been read, and no order created. -/
def Reading (customer : AuthedRequest) (cart : Cart) (undo : List DbOp) (g : CartNote) : Prop :=
  g = ⟨some cart, none, false, none⟩ ∧ ∀ o ∈ undo, Unnoted customer o

/-- An order of the lines of the cart has been created. -/
def Ordering (customer : AuthedRequest) (cart : Cart) (order : Order) (undo : List DbOp)
    (g : CartNote) : Prop :=
  g = ⟨some cart, some order, false, none⟩ ∧ order.lines = cart.items ∧
    ∃ rest, undo = .orderDelete order.id :: rest ∧ ∀ o ∈ rest, Unnoted customer o

section Steps

variable {cart : Cart} {undo : List DbOp} {g : CartNote}

theorem Reading.push (h : Reading customer cart undo g) {o : DbOp} (ho : Unnoted customer o) :
    Reading customer cart (o :: undo) g :=
  ⟨h.1, List.forall_mem_cons.2 ⟨ho, h.2⟩⟩

theorem Reading.reverts (h : Reading customer cart undo g) : Reverts customer undo g := by
  obtain ⟨rfl, hundo⟩ := h
  exact .inl ⟨rfl, hundo⟩

theorem Ordering.reverts {order : Order} (h : Ordering customer cart order undo g) :
    Reverts customer undo g := by
  obtain ⟨rfl, -, rest, rfl, hrest⟩ := h
  exact .inr ⟨order, rest, rfl, rfl, hrest⟩

theorem reserveItem_notes (expiresAt : Time) (item : CartItem) (acc : CheckoutLines) :
    (reserveItem customer expiresAt item acc).Notes (checkoutMemo customer) (Reading customer cart)
      (fun acc' undo g => acc'.orderItems.map OrderItem.line =
        acc.orderItems.map OrderItem.line ++ [item] ∧ Reading customer cart undo g)
      (Reverts customer) := by
  let Q : Option Product → List DbOp → CartNote → Prop := fun product undo g =>
    (∀ p, product = some p → p.id = item.product) ∧ Reading customer cart undo g
  refine CheckoutM.Notes.bind (Q := Q) (.call fun undo g h => ⟨trivial, fun r hr => ?_⟩) fun product => ?_
  · cases r with
    | ok product =>
      refine ⟨?_, h⟩
      rintro p rfl
      exact hr
    | error e => exact h.reverts
  · cases product with
    | none => exact .throw fun undo g h => h.2.reverts
    | some product =>
      let Q : List DbOp → CartNote → Prop := fun undo g =>
        product.id = item.product ∧ Reading customer cart undo g
      refine CheckoutM.Notes.bind (Q := fun _ => Q) (.pushUndo fun undo g h => ?_) fun _ => ?_
      · exact ⟨h.1 product rfl, h.2.push fun _ => ⟨trivial, fun _ => rfl⟩⟩
      refine CheckoutM.Notes.bind (Q := fun _ => Q) (.unnoted (issues_unnoted fun _ =>
        ⟨trivial, fun _ => rfl⟩) (fun _ _ _ h => h) fun undo g h => h.2.reverts) fun reservation => ?_
      refine CheckoutM.Notes.bind (Q := fun _ => Q) (.pushUndo fun undo g h => ?_) fun _ => ?_
      · exact ⟨h.1, h.2.push fun _ => ⟨trivial, fun _ => rfl⟩⟩
      refine .pure fun undo g h => ⟨?_, h.2⟩
      rw [List.map_append]
      show _ ++ [(⟨product.id, item.quantity⟩ : CartItem)] = _
      rw [h.1]

theorem reserveItems_notes (expiresAt : Time) (items : List CartItem) (acc : CheckoutLines) :
    (reserveItems customer expiresAt items acc).Notes (checkoutMemo customer) (Reading customer cart)
      (fun acc' undo g => acc'.orderItems.map OrderItem.line =
        acc.orderItems.map OrderItem.line ++ items ∧ Reading customer cart undo g)
      (Reverts customer) := by
  induction items generalizing acc with
  | nil => exact .pure fun undo g h => ⟨by simp, h⟩
  | cons item rest ih =>
    refine (reserveItem_notes expiresAt item acc).bind fun acc' undo g h => ?_
    refine (ih acc' undo g h.2).weaken ?_
    rintro r g ⟨x, undo, rfl, hx⟩
    refine ⟨x, undo, rfl, ?_⟩
    cases x with
    | ok acc'' => exact ⟨by rw [hx.1, h.1, List.append_assoc]; rfl, hx.2⟩
    | error e => exact hx

theorem claimCoupon_notes (coupon : Coupon) :
    (claimCoupon coupon).Notes (checkoutMemo customer) (Reading customer cart) (fun _ => Reading customer cart)
      (Reverts customer) := by
  refine CheckoutM.Notes.bind (Q := fun _ => Reading customer cart) (.unnoted (issues_unnoted fun _ =>
    ⟨trivial, fun _ => rfl⟩) (fun _ _ _ h => h) fun undo g h => h.reverts) fun claimed => ?_
  cases claimed with
  | true => exact .pushUndo fun undo g h => h.push fun _ => ⟨trivial, fun _ => rfl⟩
  | false => exact .throw fun undo g h => h.reverts

theorem placeOrder_notes (limits : Limits) (value : CheckoutInput) (now : Time) (cart : Cart) :
    (placeOrder limits customer value now cart).Notes (checkoutMemo customer) (Reading customer cart)
      (fun result _ g => g = ⟨g.cart, some result.order, true, none⟩) (Reverts customer) := by
  unfold placeOrder
  refine (reserveItems_notes _ cart.items ⟨[], [], 0⟩).bind fun lines => ?_
  let Q : List DbOp → CartNote → Prop := fun undo g =>
    lines.orderItems.map OrderItem.line = cart.items ∧ Reading customer cart undo g
  refine CheckoutM.Notes.bind (Q := fun _ => Q) (.unnoted (validateCouponForUser_asks
    (fun _ _ _ => ⟨trivial, fun _ => rfl⟩) (fun _ _ _ => ⟨trivial, fun _ => rfl⟩) _ _ _ _ _)
    (fun _ undo g h => ⟨by simpa using h.1, h.2⟩) fun undo g h => h.2.reverts) fun outcome => ?_
  refine CheckoutM.Notes.bind (Q := fun _ => Q) (CheckoutM.Notes.forM fun coupon undo g h => ?_) fun _ => ?_
  · refine (claimCoupon_notes coupon undo g h.2).weaken ?_
    rintro r g ⟨x, undo, rfl, hx⟩
    refine ⟨x, undo, rfl, ?_⟩
    cases x with
    | ok _ => exact ⟨h.1, hx⟩
    | error e => exact hx
  -- From here on the undo calls delete the order.
  let Q' : Order → List DbOp → CartNote → Prop := fun order undo g =>
    g = ⟨some cart, some order, false, none⟩ ∧ order.lines = cart.items ∧
      ∀ o ∈ undo, Unnoted customer o
  refine CheckoutM.Notes.bind (Q := Q') (.call fun undo g h => ?_) fun order => ?_
  · obtain ⟨hlines, rfl, hundo⟩ := h
    refine ⟨⟨rfl, rfl, cart, rfl, hlines⟩, fun r hr => ?_⟩
    cases r with
    | ok order => exact ⟨rfl, (congrArg (List.map OrderItem.line) hr).trans hlines, hundo⟩
    | error e => exact .inl ⟨rfl, hundo⟩
  refine CheckoutM.Notes.bind (Q := fun _ => Ordering customer cart order)
    (.pushUndo fun undo g h => ⟨h.1, h.2.1, undo, rfl, h.2.2⟩) fun _ => ?_
  refine CheckoutM.Notes.bind (Q := fun _ => Ordering customer cart order) (.unnoted
    (issues_unnoted fun _ => ⟨trivial, fun _ => rfl⟩) (fun _ _ _ h => h)
    fun undo g h => h.reverts) fun _ => ?_
  refine CheckoutM.Notes.bind (Q := fun _ => Ordering customer cart order) (CheckoutM.Notes.forM fun coupon =>
    .unnoted (issues_unnoted fun _ => ⟨trivial, fun _ => rfl⟩) (fun _ _ _ h => h)
    fun undo g h => h.reverts) fun _ => ?_
  let Q'' : List DbOp → CartNote → Prop := fun _ g => g = ⟨g.cart, some order, true, none⟩
  refine CheckoutM.Notes.bind (Q := fun _ => Q'') (.call fun undo g h => ?_) fun _ =>
    .pure fun undo g h => h
  obtain ⟨rfl, hlines, hundo⟩ := h
  refine ⟨⟨rfl, cart, order, rfl, rfl, rfl, rfl, hlines⟩, fun r _ => ?_⟩
  cases r with
  | ok _ => exact rfl
  | error e => exact Ordering.reverts ⟨rfl, hlines, hundo⟩

theorem checkoutSteps_notes (limits : Limits) (value : CheckoutInput) (now : Time) :
    (checkoutSteps limits customer value now).Notes (checkoutMemo customer) (fun undo g => undo = [] ∧ g = .blank)
      (fun result _ g => g = ⟨g.cart, some result.order, true, none⟩) (Reverts customer) := by
  let Q : Option Cart → List DbOp → CartNote → Prop := fun found undo g =>
    undo = [] ∧ g = ⟨found, none, false, none⟩
  refine CheckoutM.Notes.bind (Q := Q) (.call fun undo g h => ?_) fun found => ?_
  · obtain ⟨rfl, rfl⟩ := h
    refine ⟨⟨rfl, rfl⟩, fun r _ => ?_⟩
    cases r with
    | ok found => exact ⟨rfl, rfl⟩
    | error e => exact .inl ⟨rfl, by simp⟩
  have hempty : ∀ undo g, Q found undo g → Reverts customer undo g := by
    rintro _ _ ⟨rfl, rfl⟩
    exact .inl ⟨rfl, by simp⟩
  cases found with
  | none => exact .throw hempty
  | some cart =>
    dsimp only
    split
    · exact .throw hempty
    · intro undo g h
      refine placeOrder_notes limits value now cart undo g ⟨h.2, ?_⟩
      simp [h.1]

end Steps

/-! ## Compensation -/

/-- The undo calls delete the order that the note has. -/
theorem compensate_tracks {undo : List DbOp} {g : CartNote} (h : Reverts customer undo g) :
    (checkoutMemo customer).Tracks (fun r g => r = .ok () ∧ g = ⟨g.cart, none, false, none⟩)
      (compensate undo) g := by
  have hsilent : ∀ {undo : List DbOp} {cart : Option Cart}, (∀ o ∈ undo, Unnoted customer o) →
      (checkoutMemo customer).Tracks (fun r g => r = .ok () ∧ g = ⟨g.cart, none, false, none⟩)
        (compensate undo) ⟨cart, none, false, none⟩ := by
    intro undo cart hundo
    induction undo with
    | nil => exact ⟨rfl, rfl⟩
    | cons o rest ih =>
      obtain ⟨ho, hrest⟩ := List.forall_mem_cons.1 hundo
      rw [compensate_cons]
      refine ⟨(ho _).1, fun r _ => ?_⟩
      rw [(ho _).2 r]
      exact ih hrest
  obtain ⟨hg, hundo⟩ | ⟨order, rest, hg, rfl, hrest⟩ := h
  · rw [hg]
    exact hsilent hundo
  · rw [hg, compensate_cons]
    refine ⟨⟨rfl, order, rfl, rfl⟩, fun r hr => ?_⟩
    cases r with
    | ok _ => exact hsilent hrest
    | error e => exact hr.elim

/-- A checkout clears the cart and leaves the order, or leaves no order. -/
theorem executeCheckout_tracks (limits : Limits) (value : CheckoutInput) (now : Time) :
    (checkoutMemo customer).Tracks (fun r g => match r with
      | .ok result => g = ⟨g.cart, some result.order, true, none⟩
      | .error _ => g = ⟨g.cart, none, false, none⟩)
      (executeCheckout limits customer value now false) .blank := by
  refine Memo.Tracks.bind ((checkoutSteps_notes limits value now [] .blank ⟨rfl, rfl⟩).weaken ?_)
  rintro r g ⟨x, undo, rfl, hx⟩
  cases x with
  | ok result => exact hx
  | error e =>
    refine Memo.Tracks.bind ((compensate_tracks hx).weaken ?_)
    rintro _ g ⟨rfl, hg⟩
    exact hg

end Checkout

/-! ## Adding an item -/

section AddItem

variable {customer : AuthedRequest}

theorem addQuantity_tracks {product : ObjectId} {quantity : ℕ+} {g : CartNote}
    (hg : g = ⟨g.cart, none, false, none⟩) (attempts : Nat) :
    (cartMemo customer).Tracks (fun r g => match r with
      | .ok _ => g = ⟨g.cart, none, false, some ⟨product, quantity⟩⟩
      | .error _ => g = ⟨g.cart, none, false, none⟩)
      (CartRepository.addQuantity customer.user customer.tenant product quantity attempts) g := by
  induction attempts with
  | zero => exact hg
  | succ attempts ih =>
    rw [hg] at ih ⊢
    refine ⟨⟨rfl, rfl, rfl⟩, fun r _ => ?_⟩
    obtain e | (_ | incremented) := r
    · exact rfl
    · refine ⟨⟨rfl, rfl, rfl⟩, fun r _ => ?_⟩
      obtain e | (_ | cart) := r
      · by_cases he : e = .duplicateKey
        · subst he
          exact ih
        · simp only [CartRepository.retryDuplicate, Prog.catching, if_neg he]
          exact rfl
      · exact ih
      · exact rfl
    · exact rfl

theorem addItem_tracks (productId : ObjectId) (quantity : ℕ+) :
    (cartMemo customer).Tracks (fun r g => match r with
      | .ok _ => g = ⟨g.cart, none, false, some ⟨productId, quantity⟩⟩
      | .error _ => g = ⟨g.cart, none, false, none⟩ ∨
          g = ⟨g.cart, none, false, some ⟨productId, quantity⟩⟩)
      (addItem customer productId quantity) .blank := by
  refine ⟨trivial, fun r hr => ?_⟩
  obtain e | (_ | product) := r
  · exact Or.inl rfl
  · exact Or.inl rfl
  obtain rfl : product.id = productId := hr
  refine ⟨⟨rfl, rfl⟩, fun r _ => ?_⟩
  obtain e | found := r
  · exact Or.inl rfl
  show (cartMemo customer).Tracks _ (ite _ _ (ite _ _ _)) ⟨found, none, false, none⟩
  split
  · exact Or.inl rfl
  split
  · exact Or.inl rfl
  refine Memo.Tracks.bind ((addQuantity_tracks (g := ⟨found, none, false, none⟩) rfl 3).weaken ?_)
  intro r g hg
  cases r with
  | ok cart => exact ⟨trivial, fun r _ => by cases r <;> first | exact hg | exact Or.inr hg⟩
  | error e => exact Or.inl hg

/-- Every request keeps to its note. -/
theorem code_tracks (limits : Limits) (request : CartRequest) :
    (cartMemo customer).Tracks request.Ends (request.code limits customer) .blank := by
  cases request with
  | checkout value now =>
    refine Memo.Tracks.bind (((executeCheckout_tracks limits value now).inl (fun _ _ _ => rfl)
      (fun _ _ h => h) fun _ _ h => h).weaken ?_)
    intro r g hg
    cases r <;> exact hg
  | addItem productId quantity =>
    refine Memo.Tracks.bind ((addItem_tracks productId quantity).weaken ?_)
    intro r g hg
    cases r <;> exact hg

end AddItem
end Ecommerce
