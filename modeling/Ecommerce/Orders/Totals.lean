import Ecommerce.Checkout.Notes
import Mathlib.Tactic.Linarith

/-!
# Discounts and totals

The arithmetic on cents: what a coupon takes off a subtotal, and what an order stores.
-/

namespace Ecommerce

open Effect

/-! ## Rounding -/

theorem mathRound_intCast (n : ℤ) : mathRound n = n := by
  rw [mathRound, Int.floor_intCast_add]
  norm_num

theorem mathRound_mono {x y : ℚ} (h : x ≤ y) : mathRound x ≤ mathRound y :=
  Int.floor_le_floor (by linarith)

theorem mathRound_add_intCast (x : ℚ) (n : ℤ) : mathRound (x + n) = mathRound x + n := by
  rw [mathRound, mathRound, add_right_comm, Int.floor_add_intCast]

theorem mathRound_nonneg {x : ℚ} (h : 0 ≤ x) : 0 ≤ mathRound x := Int.floor_nonneg.2 (by linarith)

theorem toFixed6_intCast (n : ℤ) : toFixed6 n = n := by
  have hround : mathRound ((n : ℚ) * 1000000) = n * 1000000 := by
    exact_mod_cast mathRound_intCast (n * 1000000)
  rw [toFixed6, hround]
  push_cast
  ring

theorem toCents_nonneg {x : ℚ} (h : 0 ≤ x) : 0 ≤ toCents x := by
  have hscaled : 0 ≤ toFixed6 (|x| * 100) :=
    div_nonneg (by exact_mod_cast mathRound_nonneg (by positivity)) (by norm_num)
  have hsign : 0 ≤ mathSign x := by
    unfold mathSign
    split_ifs <;> first | omega | linarith
  exact mul_nonneg hsign (mathRound_nonneg hscaled)

/-- Whole cents are stored without loss. -/
@[simp] theorem toCents_fromCents (c : Cents) : toCents (fromCents c) = c := by
  have habs : |fromCents c| * 100 = ((|c| : ℤ) : ℚ) := by
    rw [fromCents, abs_div, Int.cast_abs]
    norm_num
  have hsign : mathSign (fromCents c) = c.sign := by
    unfold mathSign fromCents
    obtain h | rfl | h := lt_trichotomy c 0
    · have : (c : ℚ) / 100 < 0 := by
        have : (c : ℚ) < 0 := by exact_mod_cast h
        linarith
      rw [if_pos this, Int.sign_eq_neg_one_of_neg h]
    · simp
    · have : (0 : ℚ) < c / 100 := by
        have : (0 : ℚ) < c := by exact_mod_cast h
        linarith
      rw [if_neg this.not_gt, if_neg this.ne', Int.sign_eq_one_of_pos h]
  simp only [toCents, habs, toFixed6_intCast, mathRound_intCast, hsign]
  exact Int.sign_mul_abs c

/-! ## Percentages -/

variable {s t : Cents} {p : ℚ}

theorem percentOf_nonneg (hs : 0 ≤ s) (hp : 0 ≤ p) : 0 ≤ percentOf s p := by
  have : (0 : ℚ) ≤ s := by exact_mod_cast hs
  exact mathRound_nonneg (by positivity)

theorem percentOf_mono (hst : s ≤ t) (hp : 0 ≤ p) : percentOf s p ≤ percentOf t p := by
  have : (s : ℚ) ≤ t := by exact_mod_cast hst
  exact mathRound_mono (by gcongr)

/-- A percentage of at most a hundred grows by at most a cent with each cent. -/
theorem percentOf_le_add (hst : s ≤ t) (hp : p ≤ 100) : percentOf t p ≤ percentOf s p + (t - s) := by
  rw [percentOf, percentOf, ← mathRound_add_intCast]
  have : (0 : ℚ) ≤ t - s := by
    have : (s : ℚ) ≤ t := by exact_mod_cast hst
    linarith
  apply mathRound_mono
  push_cast
  nlinarith

theorem le_percentOf (hs : 0 ≤ s) (hp : 100 ≤ p) : s ≤ percentOf s p := by
  have : (0 : ℚ) ≤ s := by exact_mod_cast hs
  calc s = mathRound s := (mathRound_intCast s).symm
    _ ≤ percentOf s p := mathRound_mono (by nlinarith)

/-! ## Discounts -/

variable {c : Coupon}

/-- The discount before the cap. -/
def rawDiscountCents (c : Coupon) (s : Cents) : Cents :=
  match c.type with
  | .percentage => percentOf s c.value
  | .fixed => toCents c.value

/-- The coupon's cap in cents, if it has one. -/
def discountCap (c : Coupon) : Option Cents := (c.maxDiscount.filter (· ≠ 0)).map toCents

/-- What the schema of coupons admits. -/
structure Coupon.Admitted (c : Coupon) : Prop where
  value : 0 ≤ c.value
  maxDiscount : ∀ m ∈ c.maxDiscount, 0 ≤ m

theorem rawDiscountCents_nonneg (hc : 0 ≤ c.value) (hs : 0 ≤ s) : 0 ≤ rawDiscountCents c s := by
  unfold rawDiscountCents
  split
  · exact percentOf_nonneg hs hc
  · exact toCents_nonneg hc

theorem rawDiscountCents_mono (hc : 0 ≤ c.value) (hst : s ≤ t) : rawDiscountCents c s ≤ rawDiscountCents c t := by
  unfold rawDiscountCents
  split
  · exact percentOf_mono hst hc
  · exact le_rfl

/-- A raw discount below the subtotal grows by at most a cent with each cent. -/
theorem rawDiscountCents_le_add (hs : 0 ≤ s) (hst : s ≤ t) (hlt : rawDiscountCents c s < s) :
    rawDiscountCents c t ≤ rawDiscountCents c s + (t - s) := by
  unfold rawDiscountCents at hlt ⊢
  split at hlt
  · refine percentOf_le_add hst (not_lt.1 fun hp => ?_)
    exact absurd (le_percentOf hs hp.le) (not_le.2 hlt)
  · exact le_add_of_nonneg_right (sub_nonneg.2 hst)

theorem calculateDiscountCents_eq (c : Coupon) (s : Cents) :
    calculateDiscountCents (some c) s =
      max 0 (min (min (rawDiscountCents c s) ((discountCap c).getD (rawDiscountCents c s))) s) := by
  obtain hm | ⟨m, hm⟩ := Option.eq_none_or_eq_some c.maxDiscount
  · simp only [calculateDiscountCents, discountCap, hm, Option.filter_none, Option.map_none,
      Option.getD_none]
    rfl
  · by_cases h0 : m = 0
    · simp only [calculateDiscountCents, discountCap, hm, h0, if_true]
      rfl
    · have hfilter : (some m).filter (· ≠ 0) = some m := by simp [Option.filter, h0]
      simp only [calculateDiscountCents, discountCap, hm, h0, if_false, hfilter]
      rfl

theorem discountCap_nonneg (hc : c.Admitted) {cap : Cents} (h : discountCap c = some cap) : 0 ≤ cap := by
  obtain ⟨m, hm, rfl⟩ := Option.map_eq_some_iff.1 h
  exact toCents_nonneg (hc.maxDiscount m (Option.filter_eq_some_iff.1 hm).1)

/-- The discount is within the subtotal and within the cap. -/
theorem discount_bounds (c : Coupon) (hs : 0 ≤ s) :
    0 ≤ calculateDiscountCents (some c) s ∧ calculateDiscountCents (some c) s ≤ s := by
  rw [calculateDiscountCents_eq]
  exact ⟨le_max_left _ _, max_le hs (min_le_right _ _)⟩

theorem discount_le_cap (hc : c.Admitted) {cap : Cents} (h : discountCap c = some cap) (s : Cents) :
    calculateDiscountCents (some c) s ≤ cap := by
  rw [calculateDiscountCents_eq, h]
  exact max_le (discountCap_nonneg hc h) ((min_le_left _ _).trans (min_le_right _ _))

theorem discount_mono (hc : c.Admitted) (hst : s ≤ t) :
    calculateDiscountCents (some c) s ≤ calculateDiscountCents (some c) t := by
  have hraw := rawDiscountCents_mono hc.value hst
  rw [calculateDiscountCents_eq, calculateDiscountCents_eq]
  cases discountCap c with
  | none => exact max_le_max le_rfl (min_le_min (min_le_min hraw hraw) hst)
  | some cap => exact max_le_max le_rfl (min_le_min (min_le_min hraw le_rfl) hst)

/-- The discount grows by at most a cent with each cent of the subtotal. -/
theorem discount_le_add (hc : c.Admitted) (hs : 0 ≤ s) (hst : s ≤ t) :
    calculateDiscountCents (some c) t ≤ calculateDiscountCents (some c) s + (t - s) := by
  have hrawt := rawDiscountCents_nonneg hc.value (hs.trans hst)
  have hle : rawDiscountCents c s < s → rawDiscountCents c t ≤ rawDiscountCents c s + (t - s) :=
    rawDiscountCents_le_add hs hst
  rw [calculateDiscountCents_eq, calculateDiscountCents_eq]
  cases hcap : discountCap c with
  | none =>
    simp only [Option.getD_none]
    grind
  | some cap =>
    have := discountCap_nonneg hc hcap
    simp only [Option.getD_some]
    grind

/-! ## Orders -/

/-- An amount of whole cents. -/
def WholeCents (amount : ℚ) : Prop := amount = fromCents (toCents amount)

theorem wholeCents_fromCents (c : Cents) : WholeCents (fromCents c) := by
  rw [WholeCents, toCents_fromCents]

/-- The lines in cents. -/
def lineCents (items : List OrderItem) : Cents := (items.map fun i => toCents i.price * (i.quantity : ℤ)).sum

/-- The amounts of an order are whole cents and add up, and the discount is that of its coupon, if it has
one, on its subtotal. -/
structure Order.Adds (o : Order) (coupon : Option Coupon) : Prop where
  applied : o.coupon = coupon.map Coupon.id
  subtotal : toCents o.subtotal = lineCents o.items
  discount : toCents o.discountTotal = calculateDiscountCents coupon (toCents o.subtotal)
  total : toCents o.total = toCents o.subtotal - toCents o.discountTotal
  discount_nonneg : 0 ≤ toCents o.discountTotal
  discount_le : toCents o.discountTotal ≤ toCents o.subtotal
  whole : WholeCents o.subtotal ∧ WholeCents o.discountTotal ∧ WholeCents o.total
  whole_items : ∀ i ∈ o.items, WholeCents i.price

/-- Every order that a call creates adds up, without a coupon or with one of these. -/
def DbOp.CreatesAdding (K : Coupon → Prop) : DbOp → Prop
  | .orderCreate draft now =>
    ∃ coupon : Option Coupon, (∀ c ∈ coupon, K c) ∧ ∀ id, (draft.order id now).Adds coupon
  | _ => True

/-- Products have no negative price, and a coupon that is found is one of these. -/
def PricedReply (K : Coupon → Prop) : (o : DbOp) → Except ApiError o.Reply → Prop
  | .productReserve .., .ok (some product) => 0 ≤ product.price
  | .couponFindOne .., .ok (some coupon) => K coupon
  | _, _ => True

/-- Checkouts note nothing here. What they create adds up as long as prices are not negative. -/
def addingMemo (K : Coupon → Prop) : Memo Mongo ApiError Unit where
  note _ _ _ := ()
  may o _ := o.CreatesAdding K
  allows := PricedReply K

section Steps

variable {α β : Type} {K : Coupon → Prop}

/-- Undo calls that create no order that does not add up. -/
def UndoAdds (K : Coupon → Prop) (undo : List DbOp) : Prop := ∀ o ∈ undo, o.CreatesAdding K

/-- A step of checkout whose result is as `Q` says. -/
abbrev CheckoutM.Adding (K : Coupon → Prop) (m : CheckoutM α) (Q : α → Prop) : Prop :=
  m.Notes (addingMemo K) (fun undo _ => UndoAdds K undo) (fun a undo _ => Q a ∧ UndoAdds K undo)
    fun undo _ => UndoAdds K undo

theorem CheckoutM.Adding.bind {m : CheckoutM α} {f : α → CheckoutM β} {Q : α → Prop} {R : β → Prop}
    (h : m.Adding K Q) (hf : ∀ a, Q a → (f a).Adding K R) : (m >>= f).Adding K R :=
  CheckoutM.Notes.bind h fun a undo g ha => hf a ha.1 undo g ha.2

theorem adding_pure {a : α} {Q : α → Prop} (h : Q a) : (pure a : CheckoutM α).Adding K Q :=
  .pure fun _ _ hundo => ⟨h, hundo⟩

theorem adding_throw (e : ApiError) {Q : α → Prop} : (throw e : CheckoutM α).Adding K Q :=
  .throw fun _ _ hundo => hundo

theorem adding_attempt {p : MongoM α} {Q : α → Prop}
    (h : (addingMemo K).Tracks (fun r _ => ∀ a, r = .ok a → Q a) p ()) : (attempt p).Adding K Q :=
  .attempt fun _ _ hundo => h.weaken fun r _ hr => by
    cases r with
    | ok a => exact ⟨hr a rfl, hundo⟩
    | error e => exact hundo

theorem adding_call {o : DbOp} (h : o.CreatesAdding K) : (attempt (db o)).Adding K fun _ => True :=
  adding_attempt ⟨h, fun _ _ _ _ => trivial⟩

theorem adding_pushUndo {o : DbOp} (h : o.CreatesAdding K) : (pushUndo o).Adding K fun _ => True :=
  .pushUndo fun _ _ hundo => ⟨trivial, List.forall_mem_cons.2 ⟨h, hundo⟩⟩

theorem adding_forM {coupon : Option β} {f : β → CheckoutM PUnit} (hf : ∀ c, (f c).Adding K fun _ => True) :
    (coupon.forM f).Adding K fun _ => True := by
  cases coupon with
  | none => exact adding_pure trivial
  | some c => exact hf c

/-- The lines collected so far, with their sum. -/
structure CheckoutLines.Adds (lines : CheckoutLines) : Prop where
  subtotal : lines.subtotalCents = lineCents lines.orderItems
  nonneg : 0 ≤ lines.subtotalCents
  whole : ∀ i ∈ lines.orderItems, WholeCents i.price

theorem reserveItem_adding (req : AuthedRequest) (expiresAt : Time) (item : CartItem) {acc : CheckoutLines}
    (hacc : acc.Adds) : (reserveItem req expiresAt item acc).Adding K CheckoutLines.Adds := by
  refine CheckoutM.Adding.bind (Q := fun found => ∀ product : Product, found = some product → 0 ≤ product.price)
    (.call fun undo g hundo => ⟨trivial, fun r hr => ?_⟩) fun found hfound => ?_
  · obtain e | (_ | product) := r
    · exact hundo
    · exact ⟨nofun, hundo⟩
    · refine ⟨?_, hundo⟩
      rintro _ ⟨⟩
      exact hr
  cases found with
  | none => exact adding_throw _
  | some product =>
    refine CheckoutM.Adding.bind (adding_pushUndo trivial) fun _ _ => ?_
    refine CheckoutM.Adding.bind (adding_call trivial) fun reservation _ => ?_
    refine CheckoutM.Adding.bind (adding_pushUndo trivial) fun _ _ => adding_pure ?_
    have hprice := toCents_nonneg (hfound product rfl)
    refine ⟨?_, ?_, ?_⟩
    · simp [lineCents, hacc.subtotal]
    · have := hacc.nonneg
      positivity
    · intro i hi
      obtain hi | hi := List.mem_append.1 hi
      · exact hacc.whole i hi
      · obtain rfl := List.mem_singleton.1 hi
        exact wholeCents_fromCents _

theorem reserveItems_adding (req : AuthedRequest) (expiresAt : Time) (items : List CartItem)
    {acc : CheckoutLines} (hacc : acc.Adds) :
    (reserveItems req expiresAt items acc).Adding K CheckoutLines.Adds := by
  induction items generalizing acc with
  | nil => exact adding_pure hacc
  | cons item rest ih => exact (reserveItem_adding req expiresAt item hacc).bind fun _ hacc' => ih hacc'

/-- The coupon of a validated code was found, and the discount is the calculated one. -/
theorem validateCouponForUser_discount (code : Option String) (user : ObjectId) (subtotal : Cents)
    (tenant : String) (now : Time) :
    (addingMemo K).Tracks (fun r _ => ∀ outcome, r = .ok outcome → (∀ c ∈ outcome.coupon, K c) ∧
      outcome.discountCents = calculateDiscountCents outcome.coupon subtotal)
      (validateCouponForUser code user subtotal tenant now) () := by
  have hthrow (e : ApiError) : (addingMemo K).Tracks (fun r _ => ∀ outcome, r = .ok outcome →
      (∀ c ∈ outcome.coupon, K c) ∧ outcome.discountCents = calculateDiscountCents outcome.coupon subtotal)
      (throw e : MongoM CouponOutcome) () := by
    rintro outcome ⟨⟩
  unfold validateCouponForUser
  split
  · rintro outcome ⟨⟩
    exact ⟨nofun, rfl⟩
  · refine ⟨trivial, fun r hr => ?_⟩
    obtain e | (_ | coupon) := r
    · exact hthrow e
    · exact hthrow _
    · have hfound : K coupon := hr
      refine Memo.Tracks.done_bind ?_
      rcases hcheck : checkCoupon coupon subtotal now with e | _
      · simp only [hcheck]
        exact hthrow e
      · simp only [hcheck]
        refine ⟨trivial, fun r _ => ?_⟩
        cases r with
        | error e => exact hthrow e
        | ok userUses =>
          refine Memo.Tracks.done_bind ?_
          split
          · exact hthrow _
          · rintro outcome ⟨⟩
            refine ⟨fun c hc => ?_, rfl⟩
            obtain rfl := Option.some.inj hc
            exact hfound

theorem claimCoupon_adding (coupon : Coupon) : (claimCoupon coupon).Adding K fun _ => True := by
  refine CheckoutM.Adding.bind (adding_call trivial) fun claimed _ => ?_
  cases claimed with
  | true => exact adding_pushUndo trivial
  | false => exact adding_throw _

/-- What a checkout stores adds up. -/
theorem adds_of_lines {lines : CheckoutLines} (h : lines.Adds) (coupon : Option Coupon) {o : Order}
    (hcoupon : o.coupon = coupon.map Coupon.id) (hitems : o.items = lines.orderItems) (hsubtotal : o.subtotal = fromCents lines.subtotalCents)
    (hdiscount : o.discountTotal = fromCents (calculateDiscountCents coupon lines.subtotalCents))
    (htotal : o.total =
      fromCents (max (lines.subtotalCents - calculateDiscountCents coupon lines.subtotalCents) 0)) :
    o.Adds coupon := by
  have hbounds : 0 ≤ calculateDiscountCents coupon lines.subtotalCents ∧
      calculateDiscountCents coupon lines.subtotalCents ≤ lines.subtotalCents := by
    cases coupon with
    | none => exact ⟨le_rfl, h.nonneg⟩
    | some c => exact discount_bounds c h.nonneg
  rw [max_eq_left (sub_nonneg.2 hbounds.2)] at htotal
  refine ⟨hcoupon, ?_, ?_, ?_, ?_, ?_, ?_, ?_⟩
  · rw [hsubtotal, hitems, toCents_fromCents, h.subtotal]
  · rw [hdiscount, hsubtotal, toCents_fromCents, toCents_fromCents]
  · rw [htotal, hsubtotal, hdiscount, toCents_fromCents, toCents_fromCents, toCents_fromCents]
  · rw [hdiscount, toCents_fromCents]
    exact hbounds.1
  · rw [hdiscount, hsubtotal, toCents_fromCents, toCents_fromCents]
    exact hbounds.2
  · rw [hsubtotal, hdiscount, htotal]
    exact ⟨wholeCents_fromCents _, wholeCents_fromCents _, wholeCents_fromCents _⟩
  · rw [hitems]
    exact h.whole

theorem placeOrder_adding (limits : Limits) (req : AuthedRequest) (value : CheckoutInput) (now : Time)
    (cart : Cart) : (placeOrder limits req value now cart).Adding K fun _ => True := by
  have hempty : CheckoutLines.Adds ⟨[], [], 0⟩ := ⟨rfl, le_rfl, nofun⟩
  refine (reserveItems_adding req _ cart.items hempty).bind fun lines hlines => ?_
  refine (adding_attempt (validateCouponForUser_discount ..)).bind fun outcome houtcome => ?_
  obtain ⟨hfound, hdiscount⟩ := houtcome
  refine (adding_forM claimCoupon_adding).bind fun _ _ => ?_
  refine CheckoutM.Adding.bind (adding_call ⟨outcome.coupon, hfound, fun id => ?_⟩) fun order _ => ?_
  · refine adds_of_lines hlines outcome.coupon rfl rfl rfl ?_ ?_
    · simp [OrderDraft.order, hdiscount]
    · simp [OrderDraft.order, hdiscount]
  refine CheckoutM.Adding.bind (adding_pushUndo trivial) fun _ _ => ?_
  refine CheckoutM.Adding.bind (adding_call trivial) fun _ _ => ?_
  refine CheckoutM.Adding.bind (adding_forM fun c => adding_call trivial) fun _ _ => ?_
  exact CheckoutM.Adding.bind (adding_call trivial) fun _ _ => adding_pure trivial

/-- Whatever the other requests do, every order that a checkout creates adds up, with the coupon that it
has found. -/
theorem executeCheckout_adding (K : Coupon → Prop) (limits : Limits) (req : AuthedRequest)
    (value : CheckoutInput) (now : Time) (session : Bool) :
    (executeCheckout limits req value now session).IssuesIf (PricedReply K) (DbOp.CreatesAdding K) := by
  have hsteps : (checkoutSteps limits req value now).Adding K fun _ => True := by
    refine CheckoutM.Adding.bind (adding_call trivial) fun found _ => ?_
    cases found with
    | none => exact adding_throw _
    | some cart =>
      dsimp only
      split
      · exact adding_throw _
      · exact placeOrder_adding limits req value now cart
  refine Memo.Tracks.issuesIf (G := addingMemo K) (Q := fun _ _ => True) (g := ()) ?_ fun _ _ h => h
  refine Memo.Tracks.bind ((hsteps [] () (by simp [UndoAdds])).weaken ?_)
  rintro r g ⟨x, undo, rfl, hx⟩
  cases x with
  | ok result => trivial
  | error e =>
    cases session with
    | true => trivial
    | false =>
      exact Memo.Tracks.bind (Memo.tracks_unnoted
        ((compensate_issues hx).mono fun _ ho _ => ⟨ho, fun _ => rfl⟩) fun r => by cases r <;> trivial)

end Steps

/-- For every coupon that the schema admits, the discount is between zero and the subtotal and within
the cap, and neither it nor what remains to be paid falls as the subtotal grows. Every order that a
checkout creates, whatever happens in between, has whole amounts that add up, as long as no product
has a negative price: its discount is the one just described, of the coupon that was found for it. And it
is stored as it was created. -/
theorem totals_exact :
    (∀ (c : Coupon) (s : Cents), c.Admitted → 0 ≤ s →
      0 ≤ calculateDiscountCents (some c) s ∧ calculateDiscountCents (some c) s ≤ s ∧
        (∀ m, c.maxDiscount = some m → m ≠ 0 → calculateDiscountCents (some c) s ≤ toCents m) ∧
        ∀ t, s ≤ t → calculateDiscountCents (some c) s ≤ calculateDiscountCents (some c) t ∧
          max (s - calculateDiscountCents (some c) s) 0 ≤ max (t - calculateDiscountCents (some c) t) 0) ∧
      (∀ K limits req value now session,
        (executeCheckout limits req value now session).IssuesIf (PricedReply K) (DbOp.CreatesAdding K)) ∧
      ∀ draft now db, ∃ id, (mongo.exec (.orderCreate draft now) db).1 = .ok (draft.order id now) ∧
        draft.order id now ∈ (mongo.exec (.orderCreate draft now) db).2.orders.docs := by
  refine ⟨fun c s hc hs => ?_, executeCheckout_adding, fun draft now db => ?_⟩
  · obtain ⟨hnonneg, hle⟩ := discount_bounds c hs
    refine ⟨hnonneg, hle, fun m hm h0 => ?_, fun t hst => ⟨discount_mono hc hst, ?_⟩⟩
    · exact discount_le_cap hc (by simp [discountCap, hm, h0, Option.filter]) s
    · have := discount_le_add hc hs hst
      exact max_le_max (by linarith) le_rfl
  · exact ⟨db.orders.next, rfl, by simp [mongo, Db.exec, Collection.insert]⟩

/-- A third off, up to five. -/
def thirdOff : Coupon :=
  ⟨0, "t", "THIRD", .percentage, 100 / 3, some 5, 0, 1, 1, 0, none, none, true, none⟩

theorem totals_exact_third :
    calculateDiscountCents (some thirdOff) 1001 = 334 ∧
      calculateDiscountCents (some thirdOff) 1001 ≤ toCents 5 := by
  have hadmitted : thirdOff.Admitted := ⟨by norm_num [thirdOff], by simp [thirdOff]⟩
  exact ⟨by decide +kernel, (totals_exact.1 thirdOff 1001 hadmitted (by decide)).2.2.1 5 rfl (by norm_num)⟩

end Ecommerce
