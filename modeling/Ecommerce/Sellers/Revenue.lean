import Ecommerce.Model.Sellers
import Ecommerce.Orders.Exactness
import Mathlib.Algebra.Order.BigOperators.Group.List

/-!
# Revenue of a seller

The dashboard adds up the lines of the fifty latest orders, of products that are not deleted. So the
revenue is complete just when the other paid lines of the seller come to nothing, as long as the cents of
all of them stay in the range in which no rounding loses any.
-/

namespace Ecommerce

open Numbers (Number)

namespace SellerController

variable {seller : ObjectId} {tenant : String} {products : List Product} {orders : List PlacedOrder}

/-! ## Sums of lines -/

/-- The price of a unit in cents, if it does not overflow. -/
def unitCents (item : OrderItem) : ℤ := (Doubles.centsOf (.ofRat item.price)).getD 0

/-- The price of a line. -/
def lineCents (item : OrderItem) : ℤ := unitCents item * (item.quantity : Nat)

/-- The lines of an order that meet a condition, if it is paid. -/
def paidLines (p : OrderItem → Bool) (o : PlacedOrder) : List OrderItem :=
  if o.order.paymentStatus = .paid then o.order.items.filter p else []

/-- The prices of such lines of all orders. -/
def paidCents (p : OrderItem → Bool) (orders : List PlacedOrder) : ℤ :=
  ((orders.flatMap (paidLines p)).map lineCents).sum

/-- Prices are not negative, as the schema of an order says, their cents do not overflow, and quantities
have at most 53 bits. -/
def Priced (orders : List PlacedOrder) : Prop :=
  ∀ o ∈ orders, ∀ item ∈ o.order.items,
    0 ≤ item.price ∧ (Doubles.centsOf (.ofRat item.price)).isSome = true ∧ (item.quantity : Nat) ≤ 2 ^ 53

instance (orders : List PlacedOrder) : Decidable (Priced orders) :=
  inferInstanceAs (Decidable (∀ o ∈ orders, ∀ item ∈ o.order.items, _ ∧ _ ∧ _))

/-- The cents of a price, computed and exact. -/
theorem unitCents_spec {item : OrderItem} (hprice : 0 ≤ item.price)
    (hcents : (Doubles.centsOf (.ofRat item.price)).isSome = true) :
    0 ≤ unitCents item ∧ (Doubles.toCents (.ofRat item.price)).value? = some ((unitCents item : ℤ) : ℚ) := by
  obtain hinf | ⟨k, hk, hvalue⟩ := Doubles.whole_toCents (Doubles.nonneg_ofRat hprice)
  · rw [Doubles.centsOf, hinf] at hcents
    cases hcents
  · have hunit : unitCents item = k := by
      rw [unitCents, Doubles.centsOf, hvalue, Option.map_some, Int.floor_intCast, Option.getD_some]
    rw [hunit]
    exact ⟨hk, hvalue⟩

theorem lineAmount_eq {item : OrderItem} (hprice : 0 ≤ item.price)
    (hcents : (Doubles.centsOf (.ofRat item.price)).isSome = true) (hquantity : (item.quantity : Nat) ≤ 2 ^ 53) :
    lineAmount item = .ofRat ((lineCents item : ℤ) : ℚ) := by
  obtain ⟨hq, hexact⟩ := Doubles.ofRat_natCast hquantity
  rw [lineAmount, Number.eq_finite_of_value? (unitCents_spec hprice hcents).2, hexact, Number.mul, lineCents]
  push_cast
  rfl

theorem Priced.lineCents_nonneg (h : Priced orders) {o : PlacedOrder} (ho : o ∈ orders) {item : OrderItem}
    (hitem : item ∈ o.order.items) : 0 ≤ lineCents item :=
  mul_nonneg (unitCents_spec (h o ho item hitem).1 (h o ho item hitem).2.1).1 (Int.natCast_nonneg _)

theorem mem_paidLines {p : OrderItem → Bool} {o : PlacedOrder} {item : OrderItem} :
    item ∈ paidLines p o ↔ o.order.paymentStatus = .paid ∧ item ∈ o.order.items ∧ p item = true := by
  rw [paidLines]
  split
  · next h => simp [h]
  · next h => simp [h]

theorem paidCents_append (p : OrderItem → Bool) (xs ys : List PlacedOrder) :
    paidCents p (xs ++ ys) = paidCents p xs + paidCents p ys := by
  simp [paidCents]

theorem paidCents_perm (p : OrderItem → Bool) {xs ys : List PlacedOrder} (h : xs.Perm ys) :
    paidCents p xs = paidCents p ys :=
  ((h.flatMap_right _).map _).sum_eq

/-- Orders without such lines add nothing. -/
theorem paidCents_filter (p : OrderItem → Bool) (keep : PlacedOrder → Bool) (orders : List PlacedOrder)
    (h : ∀ o ∈ orders, keep o = false → paidLines p o = []) :
    paidCents p (orders.filter keep) = paidCents p orders := by
  induction orders with
  | nil => rfl
  | cons o rest ih =>
    have hrest := ih fun x hx => h x (List.mem_cons_of_mem _ hx)
    simp only [paidCents] at hrest ⊢
    cases hkeep : keep o with
    | true => simp [List.filter_cons_of_pos hkeep, hrest]
    | false => simp [hkeep, hrest, h o List.mem_cons_self hkeep]

/-- Lines of two kinds. -/
theorem paidCents_add (p q r : OrderItem → Bool) (orders : List PlacedOrder)
    (h : ∀ item, p item = (q item || r item)) (hdisjoint : ∀ item, q item = true → r item = false) :
    paidCents p orders = paidCents q orders + paidCents r orders := by
  have hitems (items : List OrderItem) : ((items.filter p).map lineCents).sum =
      ((items.filter q).map lineCents).sum + ((items.filter r).map lineCents).sum := by
    induction items with
    | nil => rfl
    | cons item rest ih =>
      have hp := h item
      have hd := hdisjoint item
      cases hq : q item <;> cases hr : r item <;> simp_all <;> ring
  induction orders with
  | nil => rfl
  | cons o rest ih =>
    have ho : ((paidLines p o).map lineCents).sum =
        ((paidLines q o).map lineCents).sum + ((paidLines r o).map lineCents).sum := by
      simp only [paidLines]
      split
      · exact hitems o.order.items
      · rfl
    simp only [paidCents, List.flatMap_cons, List.map_append, List.sum_append] at ih ⊢
    rw [ih, ho]
    ring

theorem lineCents_eq_zero {item : OrderItem} : lineCents item = 0 ↔ unitCents item = 0 := by
  have hpos : ((item.quantity : Nat) : ℤ) ≠ 0 := by exact_mod_cast item.quantity.pos.ne'
  rw [lineCents, mul_eq_zero, or_iff_left hpos]

/-- The lines come to nothing just when each of them does. -/
theorem paidCents_eq_zero (p : OrderItem → Bool) (h : Priced orders) :
    paidCents p orders = 0 ↔ ∀ o ∈ orders, ∀ item ∈ paidLines p o, unitCents item = 0 := by
  have hnonneg : ∀ x ∈ (orders.flatMap (paidLines p)).map lineCents, 0 ≤ x := by
    intro x hx
    obtain ⟨item, hitem, rfl⟩ := List.mem_map.1 hx
    obtain ⟨o, ho, hitem⟩ := List.mem_flatMap.1 hitem
    exact h.lineCents_nonneg ho (mem_paidLines.1 hitem).2.1
  constructor
  · intro hzero o ho item hitem
    have hmem : lineCents item ∈ (orders.flatMap (paidLines p)).map lineCents :=
      List.mem_map_of_mem (List.mem_flatMap.2 ⟨o, ho, hitem⟩)
    exact lineCents_eq_zero.1 (List.all_zero_of_le_zero_le_of_sum_eq_zero hnonneg hzero hmem)
  · intro hall
    refine List.sum_eq_zero fun x hx => ?_
    obtain ⟨item, hitem, rfl⟩ := List.mem_map.1 hx
    obtain ⟨o, ho, hitem⟩ := List.mem_flatMap.1 hitem
    exact lineCents_eq_zero.2 (hall o ho item hitem)

theorem paidCents_nonneg (p : OrderItem → Bool) (h : Priced orders) : 0 ≤ paidCents p orders := by
  refine List.sum_nonneg fun x hx => ?_
  obtain ⟨item, hitem, rfl⟩ := List.mem_map.1 hx
  obtain ⟨o, ho, hitem⟩ := List.mem_flatMap.1 hitem
  exact h.lineCents_nonneg ho (mem_paidLines.1 hitem).2.1

/-! ## The dashboard -/

/-- The line is of a product that the dashboard lists. -/
def isListed (seller : ObjectId) (tenant : String) (products : List Product) (item : OrderItem) : Bool :=
  ((findProducts seller tenant products).map Product.id).contains item.product

/-- The line is of a product of the seller, deleted or not. -/
def isOwn (seller : ObjectId) (tenant : String) (products : List Product) (item : OrderItem) : Bool :=
  products.any fun p => p.id == item.product && p.seller == some seller && p.tenant == tenant

/-- The orders that the dashboard finds, and its limit cuts off. -/
def olderOrders (seller : ObjectId) (tenant : String) (products : List Product) (orders : List PlacedOrder) :
    List PlacedOrder :=
  (findOrders tenant ((findProducts seller tenant products).map Product.id) orders).drop 50

/-- The own lines of an order as the seller sees it, in cents. -/
def summaryCents (o : SellerOrderSummary) : ℤ := (o.items.map lineCents).sum

/-- The subtotal of an order in cents: converting it to currency units and back loses nothing. -/
theorem toCents_sellerSubtotal (ids : List ObjectId) (h : Priced orders) {o : PlacedOrder} (ho : o ∈ orders)
    (hrange : summaryCents (summary ids o) < 2 ^ 51) :
    Doubles.toCents (summary ids o).sellerSubtotal = .ofRat ((summaryCents (summary ids o) : ℤ) : ℚ) := by
  have hitems : ∀ item ∈ (summary ids o).items, item ∈ o.order.items := fun item => List.mem_of_mem_filter
  have hnonneg : ∀ item ∈ (summary ids o).items, 0 ≤ lineCents item := fun item hitem =>
    h.lineCents_nonneg ho (hitems item hitem)
  have hlines : ∀ item ∈ (summary ids o).items, lineAmount item = .ofRat ((lineCents item : ℤ) : ℚ) := by
    intro item hitem
    obtain ⟨hprice, hcents, hquantity⟩ := h o ho item (hitems item hitem)
    exact lineAmount_eq hprice hcents hquantity
  have hsum := Number.foldl_add_intCast (summary ids o).items hlines hnonneg (m := 0) le_rfl
    (by rw [summaryCents] at hrange; omega)
  rw [Int.cast_zero, zero_add, ← summaryCents] at hsum
  have hsubtotal : (summary ids o).sellerSubtotal = Doubles.fromCents (.ofRat ((summaryCents (summary ids o) : ℤ) : ℚ)) :=
    congrArg Doubles.fromCents hsum
  rw [hsubtotal]
  exact Doubles.toCents_fromCents (List.sum_nonneg (List.forall_mem_map.2 hnonneg)) hrange

/-- What the paid ones of the orders shown come to. -/
theorem sum_summaryCents (seller : ObjectId) (tenant : String) (products : List Product) (shown : List PlacedOrder) :
    (((shown.map (summary ((findProducts seller tenant products).map Product.id))).filter
        fun o => o.paymentStatus == .paid).map summaryCents).sum =
      paidCents (isListed seller tenant products) shown := by
  induction shown with
  | nil => rfl
  | cons o rest ih =>
    rw [paidCents, List.flatMap_cons, List.map_append, List.sum_append, ← paidCents, ← ih, List.map_cons,
      List.filter_cons]
    by_cases hpaid : o.order.paymentStatus = .paid
    · have hshown : (summary ((findProducts seller tenant products).map Product.id) o).paymentStatus = .paid := hpaid
      rw [paidLines, if_pos hpaid, if_pos (by simpa using hshown), List.map_cons, List.sum_cons]
      rfl
    · have hshown : (summary ((findProducts seller tenant products).map Product.id) o).paymentStatus ≠ .paid := hpaid
      rw [paidLines, if_neg hpaid, if_neg (by simpa using hshown)]
      exact (zero_add _).symm

/-- The revenue is that of the lines that the dashboard shows, as long as no rounding loses any of it. -/
theorem revenue_eq (seller : ObjectId) (tenant : String) (products : List Product) {orders : List PlacedOrder}
    (h : Priced orders) (hrange : paidCents (isListed seller tenant products)
      ((findOrders tenant ((findProducts seller tenant products).map Product.id) orders).take 50) < 2 ^ 51) :
    (dashboard seller tenant products orders).revenue =
      Doubles.fromCents (.ofRat ((paidCents (isListed seller tenant products)
        ((findOrders tenant ((findProducts seller tenant products).map Product.id) orders).take 50) : ℤ) : ℚ)) := by
  have hshown : ∀ o ∈ (findOrders tenant ((findProducts seller tenant products).map Product.id) orders).take 50,
      o ∈ orders := by
    intro o ho
    have hfound := List.mem_of_mem_take ho
    rw [findOrders, List.mem_insertionSort] at hfound
    exact List.mem_of_mem_filter hfound
  rw [dashboard]
  dsimp only
  refine congrArg Doubles.fromCents ?_
  revert hshown hrange
  generalize (findOrders tenant _ orders).take 50 = shown
  intro hrange hshown
  rw [← sum_summaryCents] at hrange ⊢
  have hnonneg : ∀ x ∈ (shown.map (summary ((findProducts seller tenant products).map Product.id))).filter
      fun o => o.paymentStatus == .paid, 0 ≤ summaryCents x := by
    intro x hx
    obtain ⟨o, ho, rfl⟩ := List.mem_map.1 (List.mem_of_mem_filter hx)
    refine List.sum_nonneg (List.forall_mem_map.2 fun item hitem => ?_)
    exact h.lineCents_nonneg (hshown o ho) (List.mem_of_mem_filter hitem)
  have hsubtotals : ∀ x ∈ (shown.map (summary ((findProducts seller tenant products).map Product.id))).filter
      fun o => o.paymentStatus == .paid, Doubles.toCents x.sellerSubtotal = .ofRat ((summaryCents x : ℤ) : ℚ) := by
    intro x hx
    have hle := List.single_le_sum (List.forall_mem_map.2 hnonneg) _ (List.mem_map_of_mem (f := summaryCents) hx)
    obtain ⟨o, ho, rfl⟩ := List.mem_map.1 (List.mem_of_mem_filter hx)
    exact toCents_sellerSubtotal _ h (hshown o ho) (hle.trans_lt hrange)
  have hsum := Number.foldl_add_intCast _ hsubtotals hnonneg (m := 0) le_rfl (by omega)
  rwa [Int.cast_zero, zero_add] at hsum

/-- The line is of a product of the seller that is deleted. -/
def isDeleted (seller : ObjectId) (tenant : String) (products : List Product) (item : OrderItem) : Bool :=
  isOwn seller tenant products item && !isListed seller tenant products item

theorem isOwn_of_isListed {item : OrderItem} (h : isListed seller tenant products item = true) :
    isOwn seller tenant products item = true := by
  obtain ⟨p, hp, hid⟩ := List.mem_map.1 (List.contains_iff_mem.1 h)
  obtain ⟨hp, hfilter⟩ := List.mem_filter.1 hp
  refine List.any_eq_true.2 ⟨p, hp, ?_⟩
  simp only [Bool.and_eq_true, beq_iff_eq] at hfilter ⊢
  exact ⟨⟨hid, hfilter.1.1⟩, hfilter.1.2⟩

/-- All lines of the seller: those that the dashboard shows, those of older orders and those of deleted
products. -/
theorem paidCents_isOwn (seller : ObjectId) (tenant : String) (products : List Product)
    (orders : List PlacedOrder) :
    paidCents (isOwn seller tenant products) (orders.filter (·.order.tenant == tenant)) =
      paidCents (isListed seller tenant products)
          ((findOrders tenant ((findProducts seller tenant products).map Product.id) orders).take 50) +
        (paidCents (isListed seller tenant products) (olderOrders seller tenant products orders) +
          paidCents (isDeleted seller tenant products) (orders.filter (·.order.tenant == tenant))) := by
  have hkinds := paidCents_add (isOwn seller tenant products) (isListed seller tenant products)
    (isDeleted seller tenant products) (orders.filter (·.order.tenant == tenant))
    (fun item => by
      have hown : isListed seller tenant products item = true → isOwn seller tenant products item = true :=
        isOwn_of_isListed
      rw [isDeleted]
      cases hlisted : isListed seller tenant products item <;> simp_all)
    (fun item hlisted => by simp [isDeleted, hlisted])
  have hfound : paidCents (isListed seller tenant products) (orders.filter (·.order.tenant == tenant)) =
      paidCents (isListed seller tenant products)
        (findOrders tenant ((findProducts seller tenant products).map Product.id) orders) := by
    rw [findOrders, paidCents_perm _ (List.perm_insertionSort _ _), ← paidCents_filter _
      (fun o => o.order.items.any fun item =>
        ((findProducts seller tenant products).map Product.id).contains item.product), List.filter_filter]
    · refine congrArg _ (List.filter_congr fun o _ => Bool.and_comm _ _)
    · intro o _ hnone
      refine List.eq_nil_iff_forall_not_mem.2 fun item hitem => ?_
      obtain ⟨-, hmem, hlisted⟩ := mem_paidLines.1 hitem
      have hfalse := List.any_eq_false.1 hnone item hmem
      exact hfalse hlisted
  have hcut := paidCents_append (isListed seller tenant products)
    ((findOrders tenant ((findProducts seller tenant products).map Product.id) orders).take 50)
    (olderOrders seller tenant products orders)
  rw [olderOrders, List.take_append_drop] at hcut
  rw [hkinds, hfound, hcut, olderOrders, add_assoc]

theorem fromCents_injective {a b : ℤ} (ha : 0 ≤ a) (ha' : a < 2 ^ 51) (hb : 0 ≤ b) (hb' : b < 2 ^ 51)
    (h : Doubles.fromCents (.ofRat a) = Doubles.fromCents (.ofRat b)) : a = b := by
  have hcents : Number.ofRat a = .ofRat b := by
    rw [← Doubles.toCents_fromCents ha ha', h, Doubles.toCents_fromCents hb hb']
  have hvalue := congrArg Number.value? hcents
  rw [Number.value?_ofRat (Doubles.representable_of_safe ha (by omega)),
    Number.value?_ofRat (Doubles.representable_of_safe hb (by omega))] at hvalue
  exact_mod_cast Option.some.inj hvalue

/-- The revenue is the sum of all the seller's lines in paid orders just when two kinds of lines come to
nothing: those in orders that are older than the fifty latest with the seller's products, and those of
products that the seller has deleted. Sums of cents are exact below `2 ^ 51`. -/
theorem seller_revenue (seller : ObjectId) (tenant : String) (products : List Product)
    (orders : List PlacedOrder) (hpriced : Priced orders)
    (hrange : paidCents (isOwn seller tenant products) (orders.filter (·.order.tenant == tenant)) < 2 ^ 51) :
    (dashboard seller tenant products orders).revenue =
        Doubles.fromCents (.ofRat ((paidCents (isOwn seller tenant products)
          (orders.filter (·.order.tenant == tenant)) : ℤ) : ℚ)) ↔
      (∀ o ∈ olderOrders seller tenant products orders, o.order.paymentStatus = .paid →
        ∀ item ∈ o.order.items, isListed seller tenant products item = true → unitCents item = 0) ∧
      ∀ o ∈ orders, o.order.tenant = tenant → o.order.paymentStatus = .paid →
        ∀ item ∈ o.order.items, isDeleted seller tenant products item = true → unitCents item = 0 := by
  have hsub : ∀ o ∈ findOrders tenant ((findProducts seller tenant products).map Product.id) orders, o ∈ orders := by
    intro o ho
    rw [findOrders, List.mem_insertionSort] at ho
    exact List.mem_of_mem_filter ho
  have hshown : Priced ((findOrders tenant ((findProducts seller tenant products).map Product.id) orders).take 50) :=
    fun o ho => hpriced o (hsub o (List.mem_of_mem_take ho))
  have holder : Priced (olderOrders seller tenant products orders) :=
    fun o ho => hpriced o (hsub o (List.mem_of_mem_drop ho))
  have htenant : Priced (orders.filter (·.order.tenant == tenant)) :=
    fun o ho => hpriced o (List.mem_of_mem_filter ho)
  have hkept := paidCents_nonneg (isListed seller tenant products) hshown
  have hcut := paidCents_nonneg (isListed seller tenant products) holder
  have hdeleted := paidCents_nonneg (isDeleted seller tenant products) htenant
  have hall := paidCents_isOwn seller tenant products orders
  have hzero : paidCents (isListed seller tenant products) (olderOrders seller tenant products orders) +
      paidCents (isDeleted seller tenant products) (orders.filter (·.order.tenant == tenant)) = 0 ↔
      paidCents (isListed seller tenant products) (olderOrders seller tenant products orders) = 0 ∧
      paidCents (isDeleted seller tenant products) (orders.filter (·.order.tenant == tenant)) = 0 :=
    add_eq_zero_iff_of_nonneg hcut hdeleted
  rw [revenue_eq seller tenant products hpriced (by omega)]
  have hsame (a b : ℤ) (ha : 0 ≤ a) (ha' : a < 2 ^ 51) (hb : 0 ≤ b) (hb' : b < 2 ^ 51) :
      Doubles.fromCents (.ofRat a) = Doubles.fromCents (.ofRat b) ↔ a = b :=
    ⟨fromCents_injective ha ha' hb hb', fun h => h ▸ rfl⟩
  rw [hsame _ _ hkept (by omega) (by omega) hrange, hall, left_eq_add, hzero, paidCents_eq_zero _ holder,
    paidCents_eq_zero _ htenant]
  simp only [mem_paidLines, and_imp, List.mem_filter, beq_iff_eq]
  constructor
  · rintro ⟨hcut, hdeleted⟩
    exact ⟨fun o ho hpaid item hitem hp => hcut o ho item hpaid hitem hp,
      fun o ho htenant hpaid item hitem hp => hdeleted o ho htenant item hpaid hitem hp⟩
  · rintro ⟨hcut, hdeleted⟩
    exact ⟨fun o ho item hpaid hitem hp => hcut o ho hpaid item hitem hp,
      fun o ho htenant item hpaid hitem hp => hdeleted o ho htenant hpaid item hitem hp⟩

/-- A product of seller 7, and one paid order of it for each of some days. -/
def lamp : Product := ⟨1, "shop", some 7, "Lamp", 10, 5, true, none⟩

def lampOrder (day : Nat) : PlacedOrder where
  order :=
    { id := day, user := 9, tenant := "shop", items := [⟨1, "Lamp", 10, 1⟩], total := 10, subtotal := 10,
      discountTotal := 0, coupon := none, status := .delivered, paymentStatus := .paid, refundStatus := .none,
      paymentProvider := "mock", paymentReference := "", paymentStateHistory := [],
      shippingAddress := ⟨"1 Main St", none, "Paris", "IDF", "75001", "FR"⟩, deliveredAt := none,
      refundRequestedAt := none, refundReason := none, cancelledAt := none, cancellationReason := none,
      updatedAt := day }
  createdAt := day

/-- With one order the revenue is complete. -/
theorem seller_revenue_one_order :
    (dashboard 7 "shop" [lamp] [lampOrder 0]).revenue =
      Doubles.fromCents (.ofRat ((paidCents (isOwn 7 "shop" [lamp])
        ([lampOrder 0].filter (·.order.tenant == "shop")) : ℤ) : ℚ)) := by
  have hpriced : Priced [lampOrder 0] := by decide +kernel
  exact (seller_revenue 7 "shop" [lamp] [lampOrder 0] hpriced (by decide +kernel)).2 (by decide +kernel)

/-- With 51 orders it lacks the oldest one. -/
theorem seller_revenue_cut_off :
    (dashboard 7 "shop" [lamp] ((List.range 51).map lampOrder)).revenue ≠
      Doubles.fromCents (.ofRat ((paidCents (isOwn 7 "shop" [lamp])
        (((List.range 51).map lampOrder).filter (·.order.tenant == "shop")) : ℤ) : ℚ)) := by
  intro h
  have hvalue := congrArg Number.value? h
  revert hvalue
  decide +kernel

end SellerController

end Ecommerce
