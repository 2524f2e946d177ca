import Ecommerce.Checkout.Notes
import Ecommerce.Model.Snapshots

/-!
# Coupon accounting

Every checkout that redeems a coupon also increments the coupon's count of uses. Under snapshot
isolation two such checkouts cannot both commit on the same count, so the redemptions that a
checkout has counted are all there are when it commits.
-/

namespace Ecommerce

open Effect Effect.Collection

/-! ## What a checkout notes of the coupon -/

/-- What a checkout knows of its coupon: the coupon it found, the uses of its customer it counted,
whether it has claimed a use, and the redemption it has recorded. -/
structure CouponNote where
  user : ObjectId
  coupon : Option Coupon
  uses : Option Nat
  claimed : Bool
  redeemed : Option CouponRedemption
  deriving DecidableEq

namespace CouponNote

/-- A checkout that has not looked for a coupon yet. -/
def blank (user : ObjectId) : CouponNote := ⟨user, none, none, false, none⟩

/-- What the calls of a checkout add to the note. -/
def note : (o : DbOp) → Except ApiError o.Reply → CouponNote → CouponNote
  | .couponFindOne _ _, .ok found, g => { g with coupon := found }
  | .redemptionCount _ _, .ok uses, g => { g with uses := some uses }
  | .couponClaim _ _, .ok true, g => { g with claimed := true }
  | .redemptionCreate row, .ok _, g => { g with redeemed := some row }
  | _, _, g => g

/-- The coupon has been found, and the customer may use it once more. -/
def Valid (g : CouponNote) (c : Coupon) : Prop :=
  g.coupon = some c ∧ ∃ n, g.uses = some n ∧ n < c.perUserLimit

/-- What a checkout issues, given its note. -/
def may : DbOp → CouponNote → Prop
  | .couponFindOne _ _, g => g = blank g.user
  | .redemptionCount coupon user, g =>
    user = g.user ∧ g.claimed = false ∧ g.redeemed = none ∧ ∃ c, g.coupon = some c ∧ c.id = coupon
  | .couponClaim id usageLimit, g =>
    g.claimed = false ∧ g.redeemed = none ∧
      ∃ c : Coupon, g.Valid c ∧ c.id = id ∧ c.usageLimit = usageLimit
  | .redemptionCreate row, g =>
    g.claimed = true ∧ g.redeemed = none ∧ row.user = g.user ∧
      ∃ c, g.coupon = some c ∧ row.coupon = c.id
  | .cartFindOne .., _ | .cartClear .., _ | .productReserve .., _ | .reservationCreate _, _
  | .reservationLink .., _ | .orderCreate .., _ => True
  | _, _ => False

/-- The redemption has been recorded, if a use was claimed. -/
def Ready (g : CouponNote) : Prop := g.claimed = g.redeemed.isSome

end CouponNote

/-- The memo of a checkout. -/
def couponMemo : Memo Mongo ApiError CouponNote where
  note := CouponNote.note
  may := CouponNote.may
  allows _ _ := True

section Steps

variable {α β : Type} {P : CouponNote → Prop}

/-- A step of checkout that takes the note from `P` to `Q`, or throws. -/
abbrev CheckoutM.Leads (m : CheckoutM α) (P : CouponNote → Prop) (Q : α → CouponNote → Prop) : Prop :=
  m.Notes couponMemo (fun _ => P) (fun a _ => Q a) fun _ _ => True

theorem CheckoutM.Leads.bind {m : CheckoutM α} {f : α → CheckoutM β} {Q : α → CouponNote → Prop}
    {R : β → CouponNote → Prop} (h : m.Leads P Q) (hf : ∀ a, (f a).Leads (Q a) R) :
    (m >>= f).Leads P R := CheckoutM.Notes.bind h hf

/-- A call that the note is silent about. -/
theorem leads_unnoted {o : DbOp} (h : couponMemo.Unnoted o) :
    (attempt (db o)).Leads P fun _ => P :=
  .unnoted (issues_db h) (fun _ _ _ h => h) fun _ _ _ => trivial

theorem leads_pushUndo (o : DbOp) : (pushUndo o).Leads P fun _ => P := .pushUndo fun _ _ h => h

theorem reserveItems_leads (req : AuthedRequest) (expiresAt : Time) (items : List CartItem)
    (acc : CheckoutLines) : (reserveItems req expiresAt items acc).Leads P fun _ => P := by
  induction items generalizing acc with
  | nil => exact .pure fun _ _ h => h
  | cons item rest ih =>
    refine CheckoutM.Leads.bind (Q := fun _ => P) ?_ fun acc' => ih acc'
    refine CheckoutM.Leads.bind (leads_unnoted fun _ => ⟨trivial, fun _ => rfl⟩) fun product => ?_
    cases product with
    | none => exact .throw fun _ _ _ => trivial
    | some product =>
      refine (leads_pushUndo _).bind fun _ => ?_
      refine CheckoutM.Leads.bind (leads_unnoted fun _ => ⟨trivial, fun _ => rfl⟩) fun reservation => ?_
      exact (leads_pushUndo _).bind fun _ => .pure fun _ _ h => h

/-- The coupon is the one that the checkout applies, if any. -/
def CouponApplies (user : ObjectId) (claimed : Bool) (coupon : Option Coupon) (g : CouponNote) : Prop :=
  g.user = user ∧ g.redeemed = none ∧ match coupon with
    | none => g.claimed = false
    | some c => g.claimed = claimed ∧ g.Valid c

theorem validateCouponForUser_leads (code : Option String) (user : ObjectId) (subtotal : Cents)
    (tenant : String) (now : Time) :
    (attempt (validateCouponForUser code user subtotal tenant now)).Leads (· = .blank user)
      fun outcome => CouponApplies user false outcome.coupon := by
  refine .attempt fun undo g hg => ?_
  subst hg
  unfold validateCouponForUser
  split
  · exact ⟨rfl, rfl, rfl⟩
  · refine ⟨rfl, fun r _ => ?_⟩
    obtain e | (_ | coupon) := r
    · trivial
    · trivial
    refine Memo.Tracks.done_bind (a := some coupon) ?_
    dsimp only
    split
    · trivial
    · refine ⟨⟨rfl, rfl, rfl, coupon, rfl, rfl⟩, fun r _ => ?_⟩
      cases r with
      | error e => trivial
      | ok uses =>
        revert uses
        intro (uses : Nat) _
        show couponMemo.Tracks _ (ite _ _ _) ⟨user, some coupon, some uses, false, none⟩
        split
        · trivial
        · next huses => exact ⟨rfl, rfl, rfl, rfl, uses, rfl, Nat.not_le.1 huses⟩

theorem forM_claimCoupon_leads (user : ObjectId) (coupon : Option Coupon) :
    (coupon.forM claimCoupon).Leads (CouponApplies user false coupon) fun _ => CouponApplies user true coupon := by
  cases coupon with
  | none => exact .pure fun _ _ h => h
  | some c =>
    refine CheckoutM.Leads.bind (Q := fun claimed => CouponApplies user claimed (some c))
      (.call fun undo g h => ?_) fun claimed => ?_
    · obtain ⟨huser, hredeemed, hclaimed, hvalid⟩ := h
      refine ⟨⟨hclaimed, hredeemed, c, hvalid, rfl, rfl⟩, fun r _ => ?_⟩
      obtain e | (_ | _) := r
      · trivial
      · exact ⟨huser, hredeemed, hclaimed, hvalid⟩
      · exact ⟨huser, hredeemed, rfl, hvalid⟩
    · cases claimed with
      | true => exact leads_pushUndo _
      | false => exact .throw fun _ _ _ => trivial

theorem forM_redemptionCreate_leads (user : ObjectId) (tenant : String) (order : ObjectId)
    (coupon : Option Coupon) :
    (coupon.forM fun c => attempt (db (.redemptionCreate ⟨c.id, tenant, user, order⟩))).Leads
      (CouponApplies user true coupon) fun _ => CouponNote.Ready := by
  cases coupon with
  | none => exact .pure fun _ g h => by simp [CouponNote.Ready, h.2.1, h.2.2]
  | some c =>
    refine .call fun undo g h => ?_
    obtain ⟨huser, hredeemed, hclaimed, hvalid⟩ := h
    refine ⟨⟨hclaimed, hredeemed, huser.symm, c, hvalid.1, rfl⟩, fun r _ => ?_⟩
    cases r with
    | error e => trivial
    | ok _ => exact hclaimed

theorem placeOrder_leads (limits : Limits) (req : AuthedRequest) (value : CheckoutInput) (now : Time)
    (cart : Cart) :
    (placeOrder limits req value now cart).Leads (· = .blank req.user) fun _ => CouponNote.Ready := by
  unfold placeOrder
  refine (reserveItems_leads req _ cart.items _).bind fun lines => ?_
  refine (validateCouponForUser_leads _ _ _ _ _).bind fun outcome => ?_
  refine (forM_claimCoupon_leads req.user outcome.coupon).bind fun _ => ?_
  refine CheckoutM.Leads.bind (leads_unnoted fun _ => ⟨trivial, fun _ => rfl⟩) fun order => ?_
  refine (leads_pushUndo _).bind fun _ => ?_
  refine CheckoutM.Leads.bind (leads_unnoted fun _ => ⟨trivial, fun _ => rfl⟩) fun _ => ?_
  refine (forM_redemptionCreate_leads req.user req.tenant order.id outcome.coupon).bind fun _ => ?_
  exact CheckoutM.Leads.bind (leads_unnoted fun _ => ⟨trivial, fun _ => rfl⟩) fun _ => .pure fun _ _ h => h

/-- A checkout that returns has recorded the redemption of the coupon that it claimed. -/
theorem executeCheckout_couponMemo (limits : Limits) (req : AuthedRequest) (value : CheckoutInput)
    (now : Time) :
    couponMemo.Tracks (fun r g => ∀ a, r = .ok a → g.Ready)
      (executeCheckout limits req value now true) (.blank req.user) := by
  have hsteps : (checkoutSteps limits req value now).Leads (· = .blank req.user)
      fun _ => CouponNote.Ready := by
    refine CheckoutM.Leads.bind (leads_unnoted fun _ => ⟨trivial, fun _ => rfl⟩) fun found => ?_
    cases found with
    | none => exact .throw fun _ _ _ => trivial
    | some cart =>
      dsimp only
      split
      · exact .throw fun _ _ _ => trivial
      · exact placeOrder_leads limits req value now cart
  refine Memo.Tracks.bind ((hsteps [] _ rfl).weaken ?_)
  rintro r g ⟨x, undo, rfl, hx⟩
  cases x with
  | ok result => exact fun _ _ => hx
  | error e => exact fun a ha => by cases ha

end Steps

/-! ## The invariant -/

/-- The redemptions of a coupon. -/
def Db.redemptionsOf (db : Db) (coupon : ObjectId) : Nat := db.redemptions.countP (·.coupon == coupon)

/-- The redemptions of a coupon by a user. -/
def Db.redemptionsBy (db : Db) (coupon user : ObjectId) : Nat :=
  db.redemptions.countP fun r => r.coupon == coupon && r.user == user

/-- Coupons are accounted for: their count of uses is that of their redemptions, and neither limit is
exceeded. -/
def Db.CouponsExact (db : Db) : Prop :=
  ∀ (k : ObjectId) (c : Coupon), db.coupons.get? k = some c →
    c.usedCount = db.redemptionsOf k ∧ c.usedCount ≤ c.usageLimit ∧
      ∀ user, db.redemptionsBy k user ≤ c.perUserLimit

/-- What a checkout has done to its view, by its note. -/
structure CouponNote.View (g : CouponNote) (s v : Db) : Prop where
  coupon : ∀ c, g.coupon = some c → s.coupons.get? c.id = some c
  uses : ∀ n, g.uses = some n → ∃ c, g.coupon = some c ∧ n = s.redemptionsBy c.id g.user
  unclaimed : g.claimed = false → ∀ k, v.coupons.get? k = s.coupons.get? k
  claimed : g.claimed = true → ∃ c, g.Valid c ∧ c.usedCount < c.usageLimit ∧
    ∀ k, v.coupons.get? k = (s.coupons.update c.id (Coupon.setUsedCount (· + 1))).get? k
  redemptions : v.redemptions = s.redemptions ++ g.redeemed.toList
  redeemed : ∀ row, g.redeemed = some row → ∃ c, g.coupon = some c ∧ row.coupon = c.id ∧ row.user = g.user

section View

variable {g : CouponNote} {s v : Db}

/-- The view with other keys given out. -/
theorem CouponNote.View.share (h : g.View s v) (t : Db) : g.View s (Db.sharing.share v t) :=
  ⟨h.coupon, h.uses, h.unclaimed, h.claimed, h.redemptions, h.redeemed⟩

/-- A call that leaves coupons and redemptions alone. -/
theorem CouponNote.View.of_eq (h : g.View s v) {v' : Db} (hcoupons : v'.coupons = v.coupons)
    (hredemptions : v'.redemptions = v.redemptions) : g.View s v' :=
  ⟨h.coupon, h.uses, hcoupons ▸ h.unclaimed, hcoupons ▸ h.claimed, hredemptions.trans h.redemptions,
    h.redeemed⟩

/-- The coupon that a view finds is that of the snapshot. -/
theorem CouponNote.View.found (h : g.View s v) (hg : g = .blank g.user) (code tenant : String) :
    (CouponNote.note (.couponFindOne code tenant) (mongo.exec (.couponFindOne code tenant) v).1 g).View s
      (mongo.exec (.couponFindOne code tenant) v).2 := by
  have hclaimed : g.claimed = false := by rw [hg]; rfl
  have huses : g.uses = none := by rw [hg]; rfl
  have hredeemed : g.redeemed = none := by rw [hg]; rfl
  refine ⟨fun c hc => ?_, fun n hn => ?_, h.unclaimed, fun hclaim => ?_, h.redemptions, fun row hrow => ?_⟩
  · rw [← h.unclaimed hclaimed]
    exact get?_eq_some.2 ⟨List.mem_of_find?_eq_some hc, rfl⟩
  · cases huses.symm.trans hn
  · cases hclaimed.symm.trans hclaim
  · cases hredeemed.symm.trans hrow

/-- The uses that a view counts are those of the snapshot. -/
theorem CouponNote.View.counted (h : g.View s v) {coupon user : ObjectId}
    (hmay : g.may (.redemptionCount coupon user)) :
    (CouponNote.note (.redemptionCount coupon user) (mongo.exec (.redemptionCount coupon user) v).1 g).View s
      (mongo.exec (.redemptionCount coupon user) v).2 := by
  obtain ⟨rfl, hclaimed, hredeemed, c, hc, rfl⟩ := hmay
  refine ⟨h.coupon, fun n hn => ⟨c, hc, ?_⟩, h.unclaimed, fun hclaim => ?_, h.redemptions, h.redeemed⟩
  · obtain rfl := Option.some_inj.1 hn
    have hsame : v.redemptions = s.redemptions := by simpa [hredeemed] using h.redemptions
    rw [Db.redemptionsBy, ← hsame]
    rfl
  · cases hclaimed.symm.trans hclaim

/-- A use is claimed on the count of the snapshot. -/
theorem CouponNote.View.claims (h : g.View s v) {id : ObjectId} {usageLimit : Nat}
    (hmay : g.may (.couponClaim id usageLimit)) :
    (CouponNote.note (.couponClaim id usageLimit) (mongo.exec (.couponClaim id usageLimit) v).1 g).View s
      (mongo.exec (.couponClaim id usageLimit) v).2 := by
  obtain ⟨hclaimed, -, c, hvalid, rfl, rfl⟩ := hmay
  have hget : v.coupons.get? c.id = some c := (h.unclaimed hclaimed _).trans (h.coupon c hvalid.1)
  simp only [mongo, Db.exec, hget]
  split
  · next hlimit =>
    refine ⟨h.coupon, h.uses, by rintro ⟨⟩, fun _ => ⟨c, hvalid, hlimit, fun k => ?_⟩, h.redemptions, h.redeemed⟩
    rw [get?_update, get?_update, h.unclaimed hclaimed]
  · exact h

theorem CouponNote.View.redeems (h : g.View s v) {row : CouponRedemption}
    (hmay : g.may (.redemptionCreate row)) :
    (CouponNote.note (.redemptionCreate row) (mongo.exec (.redemptionCreate row) v).1 g).View s
      (mongo.exec (.redemptionCreate row) v).2 := by
  obtain ⟨-, hredeemed, huser, c, hc, hrow⟩ := hmay
  simp only [mongo, Db.exec]
  split
  · exact h
  · refine ⟨h.coupon, h.uses, h.unclaimed, h.claimed, ?_, fun row' hrow' => ?_⟩
    · have hsame : v.redemptions = s.redemptions := by simpa [hredeemed] using h.redemptions
      exact congrArg (· ++ [row]) hsame
    · obtain rfl := Option.some_inj.1 hrow'
      exact ⟨c, hc, hrow, huser⟩

theorem CouponNote.View.exec {o : DbOp} (hmay : g.may o) (h : g.View s v) :
    (CouponNote.note o (mongo.exec o v).1 g).View s (mongo.exec o v).2 := by
  cases o with
  | couponFindOne code tenant => exact h.found hmay code tenant
  | redemptionCount coupon user => exact h.counted hmay
  | couponClaim id usageLimit => exact h.claims hmay
  | redemptionCreate row => exact h.redeems hmay
  | cartClear id version =>
    simp only [mongo, Db.exec]
    split
    · split <;> exact h.of_eq rfl rfl
    · exact h
  | productReserve id tenant quantity =>
    simp only [mongo, Db.exec]
    split
    · split <;> exact h.of_eq rfl rfl
    · exact h
  | cartFindOne user tenant => exact h
  | reservationCreate draft => exact h.of_eq rfl rfl
  | reservationLink ids order => exact h.of_eq rfl rfl
  | orderCreate draft now => exact h.of_eq rfl rfl
  | _ => exact hmay.elim

/-! ## Commits -/

/-- Rows are added to the redemptions of a snapshot, none of one coupon: the customer's are the same. -/
theorem redemptionsBy_of_prefix {s t : Db} (h : s.redemptions <+: t.redemptions) {k : ObjectId}
    (hsame : t.redemptionsOf k = s.redemptionsOf k) (user : ObjectId) :
    t.redemptionsBy k user = s.redemptionsBy k user := by
  obtain ⟨rest, hrest⟩ := h
  rw [Db.redemptionsOf, ← hrest, List.countP_append] at hsame
  rw [Db.redemptionsBy, ← hrest, List.countP_append]
  have hnone : rest.countP (fun r => r.coupon == k) = 0 := by
    have : s.redemptionsOf k = s.redemptions.countP (·.coupon == k) := rfl
    omega
  have hle : rest.countP (fun r => r.coupon == k && r.user == user) ≤
      rest.countP (fun r => r.coupon == k) :=
    List.countP_mono_left fun r _ hr => by
      rw [Bool.and_eq_true] at hr
      exact hr.1
  have : s.redemptionsBy k user = s.redemptions.countP fun r => r.coupon == k && r.user == user := rfl
  omega

theorem merge_redemptions (h : g.View s v) (t : Db) :
    (Db.sharing.merge s v t).redemptions = t.redemptions ++ g.redeemed.toList := by
  show t.redemptions ++ v.redemptions.drop s.redemptions.length = _
  rw [h.redemptions, List.drop_left]

theorem get?_merge_coupons (s v t : Db) (k : ObjectId) :
    (Db.sharing.merge s v t).coupons.get? k =
      if v.coupons.get? k = s.coupons.get? k then t.coupons.get? k else v.coupons.get? k := by
  refine (get?_overlay _ _ _ k).trans ?_
  by_cases hk : v.coupons.get? k = s.coupons.get? k <;> simp [differs, hk]

/-- A checkout that commits leaves coupons accounted for. -/
theorem CouponNote.View.commit {t : Db} (hs : s.CouponsExact) (ht : t.CouponsExact)
    (hbehind : s.redemptions <+: t.redemptions) (h : g.View s v) (hready : g.Ready)
    (hconflicts : Db.sharing.conflicts s v t = false) : (Db.sharing.merge s v t).CouponsExact := by
  intro k c hc
  rw [get?_merge_coupons] at hc
  rw [Db.redemptionsOf, merge_redemptions h, List.countP_append]
  cases hclaimed : g.claimed with
  | false =>
    have hredeemed : g.redeemed = none := by
      have := hready.symm.trans hclaimed
      simpa using this
    rw [if_pos (h.unclaimed hclaimed k)] at hc
    obtain ⟨hused, hlimit, huser⟩ := ht k c hc
    refine ⟨by simpa [hredeemed, Db.redemptionsOf] using hused, hlimit, fun user => ?_⟩
    rw [Db.redemptionsBy, merge_redemptions h, hredeemed]
    simpa [Db.redemptionsBy] using huser user
  | true =>
    obtain ⟨x, ⟨hcoupon, n, huses, hn⟩, hlimit, hview⟩ := h.claimed hclaimed
    obtain ⟨row, hredeemed⟩ : ∃ row, g.redeemed = some row :=
      Option.isSome_iff_exists.1 (hready.symm.trans hclaimed)
    obtain ⟨x', hx', hrow, hrowUser⟩ := h.redeemed row hredeemed
    obtain rfl := Option.some_inj.1 (hcoupon.symm.trans hx')
    obtain ⟨x', hx', hcount⟩ := h.uses n huses
    obtain rfl := Option.some_inj.1 (hcoupon.symm.trans hx')
    have hget := h.coupon x hcoupon
    have hupdated : v.coupons.get? x.id = some ((Coupon.setUsedCount (· + 1)).run x) := by
      rw [hview, get?_update_self, hget]
      rfl
    have hchanged : v.coupons.get? x.id ≠ s.coupons.get? x.id := by
      rw [hupdated, hget]
      intro heq
      have := congrArg Coupon.usedCount (Option.some_inj.1 heq)
      exact absurd this (Nat.succ_ne_self _)
    by_cases hk : k = x.id
    · subst hk
      rw [if_neg hchanged, hupdated] at hc
      obtain rfl := Option.some_inj.1 hc
      -- No other checkout has committed on the coupon since the snapshot.
      have hsame : t.coupons.get? x.id = s.coupons.get? x.id := by
        refine get?_of_not_clashes ?_ hchanged
        simp only [Db.sharing, Bool.or_eq_false_iff] at hconflicts
        exact hconflicts.1.1.1.2
      obtain ⟨hused, -, huser⟩ := ht x.id x (hsame.trans hget)
      obtain ⟨hused', -, -⟩ := hs x.id x hget
      refine ⟨?_, hlimit, fun user => ?_⟩
      · show x.usedCount + 1 = _
        rw [hused, Db.redemptionsOf, hredeemed]
        simp [hrow]
      · show _ ≤ x.perUserLimit
        rw [Db.redemptionsBy, merge_redemptions h, List.countP_append, hredeemed]
        show t.redemptionsBy x.id user + _ ≤ _
        by_cases hu : user = g.user
        · have hlast := redemptionsBy_of_prefix hbehind (hused.symm.trans hused') user
          rw [hlast, hu, ← hcount]
          simp [hrow, hrowUser]
          omega
        · have hother : ¬ row.user = user := fun h => hu (h.symm.trans hrowUser)
          simpa [hother] using huser user
    · have hkeep : v.coupons.get? k = s.coupons.get? k := by
        rw [hview, get?_update, if_neg hk]
      rw [if_pos hkeep] at hc
      obtain ⟨hused, hlimit', huser⟩ := ht k c hc
      have hother : ¬ row.coupon = k := fun h => hk (h.symm.trans hrow)
      refine ⟨?_, hlimit', fun user => ?_⟩
      · rw [hredeemed]
        simpa [hother, Db.redemptionsOf] using hused
      · rw [Db.redemptionsBy, merge_redemptions h, hredeemed, List.countP_append]
        simpa [hother, Db.redemptionsBy] using huser user

/-- What the rules of isolation ask of coupon accounting. -/
theorem coupons_isolated : Isolated couponMemo CouponNote.Ready mongo Db.sharing
    (fun c : CheckoutRequest => .blank c.req.user) Db.CouponsExact
    (fun s t => s.redemptions <+: t.redemptions) CouponNote.View where
  refl s := List.prefix_rfl
  share _ h := h
  shareInv _ h := h
  start c s := by
    refine ⟨fun _ h => ?_, fun _ h => ?_, fun _ _ => rfl, fun h => ?_, (List.append_nil _).symm, fun _ h => ?_⟩ <;>
      cases h
  allows _ _ := trivial
  allowsFault _ := trivial
  exec t hmay h := (h.share t).exec hmay
  fault {o g s v} h := by
    have hsame : couponMemo.note o (.error mongo.fault) g = g := by cases o <;> rfl
    rwa [hsame]
  commit hs ht hbehind h hready hconflicts :=
    ⟨h.commit hs ht hbehind hready hconflicts, fun u hu => by
      rw [merge_redemptions h]
      exact hu.trans (List.prefix_append _ _)⟩

end View

/-- Coupon accounting is exact in every run of checkouts in transactions, by any users and on any
number of instances, whatever fails and whoever is cut off. -/
theorem coupons_exact {limits : Limits} {c d : CheckoutPool} {as : List (Action CheckoutRequest)}
    {admits : CheckoutPool → Action CheckoutRequest → Prop} (hthreads : c.threads = [])
    (htxns : c.state.txns = []) (hexact : c.state.store.CouponsExact)
    (hrun : (checkoutServer limits).Run admits c as d) : d.state.store.CouponsExact :=
  coupons_isolated.invariant rfl
    (fun l => Memo.tracks_withTransaction (executeCheckout_couponMemo _ _ _ _) l.attempts) hthreads htxns
    hexact hrun

/-- Two customers with a mug in their carts, and a coupon that may be used once. -/
def onceDb : Db :=
  { twoCarts with
    coupons := (∅ : Collection Coupon).insert
      ⟨0, "t", "ONCE", .fixed, 1, none, 0, 1, 1, 0, none, none, true, none⟩ rfl }

def onceCheckout (user : ObjectId) : CheckoutRequest :=
  ⟨⟨user, .user, "t"⟩, ⟨⟨"a", none, "c", "s", "p", "x"⟩, "manual", some "ONCE"⟩, 0, 2⟩

/-- Both check out from the same snapshot. The first commits; the second has to start again. -/
def onceTogether : List (Action CheckoutRequest) :=
  [.spawn (onceCheckout 1), .spawn (onceCheckout 2), .act 0, .act 1] ++
    List.replicate 11 (.act 0) ++ List.replicate 11 (.act 1) ++ List.replicate 6 (.act 1)

theorem coupons_exact_once :
    ∃ d : CheckoutPool, (checkoutServer ⟨15, 30⟩).Run (fun _ _ => True) ⟨⟨onceDb, [], 0⟩, []⟩ onceTogether d ∧
      d.threads.map (fun t => t.prog.result?.map fun r => r.toOption.isSome) = [some true, some false] ∧
      d.state.store.redemptionsOf 0 = 1 ∧ d.state.store.CouponsExact := by
  obtain ⟨d, hd, h⟩ := (Option.any_eq_true _ _).1 (by decide +kernel :
    ((checkoutServer ⟨15, 30⟩).play (fun _ _ => true) ⟨⟨onceDb, [], 0⟩, []⟩ onceTogether).any fun d =>
      decide (d.threads.map (fun t => t.prog.result?.map fun r => r.toOption.isSome) =
        [some true, some false]) && decide (d.state.store.redemptionsOf 0 = 1))
  simp only [Bool.and_eq_true, decide_eq_true_eq] at h
  have hrun : (checkoutServer ⟨15, 30⟩).Run (fun _ _ => True) ⟨⟨onceDb, [], 0⟩, []⟩ onceTogether d :=
    (System.Run.of_play hd).mono fun _ _ _ => trivial
  have hexact : onceDb.CouponsExact := by
    intro k c hc
    obtain ⟨hmem, rfl⟩ := get?_eq_some.1 hc
    obtain rfl : c = _ := List.mem_singleton.1 hmem
    exact ⟨rfl, Nat.zero_le _, fun _ => Nat.zero_le _⟩
  exact ⟨d, hrun, h.1, h.2, coupons_exact rfl rfl hexact hrun⟩

end Ecommerce
