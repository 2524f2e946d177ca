import Ecommerce.Inventory.Release
import Ecommerce.Orders.Holdings

/-!
# References between documents

Most writes go by the bare id of a document, so that a tenant's data is kept apart from the others'
only as long as every stored reference leads to a document of the same tenant. A request's note has
the documents that it has found to be of its tenant. What it may write is decided by the note, keeps
the references inside their tenants, and leaves what is not of its tenant as it is.
-/

namespace Ecommerce

open Effect Effect.Collection

/-! ## Parts of a collection -/

section Filter

variable {α : Type} [Keyed α] {c : Collection α} {q : α → Bool}

omit [Keyed α] in
theorem filter_map_ite {l : List α} {p : α → Bool} {f : α → α}
    (h : ∀ a ∈ l, p a → q a = false ∧ q (f a) = false) :
    (l.map fun a => if p a then f a else a).filter q = l.filter q := by
  induction l with
  | nil => rfl
  | cons a l ih =>
    obtain ⟨ha, hl⟩ := List.forall_mem_cons.1 h
    by_cases hp : p a
    · obtain ⟨hq, hq'⟩ := ha hp
      simp [hp, hq, hq', ih hl]
    · simp [hp, ih hl, List.filter_cons]

theorem filter_modify {p : α → Bool} {f : Patch α}
    (h : ∀ a ∈ c.docs, p a → q a = false ∧ q (f.run a) = false) :
    (c.modify p f).docs.filter q = c.docs.filter q := filter_map_ite h

theorem filter_insert {a : α} {h : Keyed.key a = c.next} (hq : q a = false) :
    (c.insert a h).docs.filter q = c.docs.filter q := by
  simp [Collection.insert, hq]

theorem filter_erase {i : Nat} (h : ∀ a, c.get? i = some a → q a = false) :
    (c.erase i).docs.filter q = c.docs.filter q := by
  simp only [Collection.erase, List.filter_filter]
  refine List.filter_congr fun a ha => ?_
  by_cases hk : Keyed.key a = i
  · simp [h a (get?_eq_some.2 ⟨ha, hk⟩)]
  · simp [hk]

end Filter

/-! ## Documents and their tenants -/

/-- A document that others name by its id. -/
inductive DocRef where
  | product (id : ObjectId)
  | cart (id : ObjectId)
  | reservation (id : ObjectId)
  | coupon (id : ObjectId)
  | order (id : ObjectId)
  deriving DecidableEq

namespace Db

/-- An order of the tenant, which may have been deleted since. -/
def Ordered (s : Db) (id : ObjectId) (tenant : String) : Prop :=
  ∃ o, (o ∈ s.orders.docs ∨ o ∈ s.deletedOrders) ∧ o.id = id ∧ o.tenant = tenant

/-- The document is there and is the tenant's. -/
def Has (s : Db) (tenant : String) : DocRef → Prop
  | .product id => ∃ p, s.products.get? id = some p ∧ p.tenant = tenant
  | .cart id => ∃ c, s.carts.get? id = some c ∧ c.tenant = tenant
  | .reservation id => ∃ r, s.reservations.get? id = some r ∧ r.tenant = tenant
  | .coupon id => ∃ c, s.coupons.get? id = some c ∧ c.tenant = tenant
  | .order id => s.Ordered id tenant

/-- An order's number is its own, also once it has been deleted. -/
structure Numbered (s : Db) : Prop where
  lt : ∀ id tenant, s.Ordered id tenant → id < s.orders.next
  unique : ∀ id tenant tenant', s.Ordered id tenant → s.Ordered id tenant' → tenant = tenant'

/-- Documents stay their tenants'. -/
def KeepsTenants (s t : Db) : Prop := ∀ tenant ref, s.Has tenant ref → t.Has tenant ref

/-- The reservation's product and order are its tenant's. -/
def RowInside (s : Db) (r : InventoryReservation) : Prop :=
  s.Has r.tenant (.product r.product) ∧ ∀ k, r.order = some k → s.Has r.tenant (.order k)

/-- The products of the order's lines and its coupon are its tenant's. -/
def OrderInside (s : Db) (o : Order) : Prop :=
  (∀ item ∈ o.items, s.Has o.tenant (.product item.product)) ∧
    ∀ c, o.coupon = some c → s.Has o.tenant (.coupon c)

/-- Every stored reference leads to a document of the same tenant. -/
structure Tenanted (s : Db) : Prop where
  reservations : ∀ r ∈ s.reservations.docs, s.RowInside r
  orders : ∀ o ∈ s.orders.docs, s.OrderInside o
  redemptions : ∀ x ∈ s.redemptions, s.Has x.tenant (.coupon x.coupon) ∧ s.Has x.tenant (.order x.order)
  shipments : ∀ x ∈ s.shipments, s.Has x.tenant (.order x.order)

/-- What there is besides the documents of one tenant. -/
structure Others where
  products : List Product
  carts : List Cart
  coupons : List Coupon
  redemptions : List CouponRedemption
  reservations : List InventoryReservation
  orders : List Order
  shipments : List Shipment
  domainEvents : List DomainEvent
  tenants : List Tenant
  paymentEvents : List PaymentEvent
  deriving DecidableEq

/-- The documents that are not the tenant's. -/
def others (s : Db) (tenant : String) : Others where
  products := s.products.docs.filter (·.tenant != tenant)
  carts := s.carts.docs.filter (·.tenant != tenant)
  coupons := s.coupons.docs.filter (·.tenant != tenant)
  redemptions := s.redemptions.filter (·.tenant != tenant)
  reservations := s.reservations.docs.filter (·.tenant != tenant)
  orders := s.orders.docs.filter (·.tenant != tenant)
  shipments := s.shipments.filter (·.tenant != tenant)
  domainEvents := s.domainEvents.filter (·.tenant != tenant)
  tenants := s.tenants
  paymentEvents := s.paymentEvents

end Db

section Tenants

variable {s t u : Db} {tenant : String}

theorem Db.KeepsTenants.refl (s : Db) : s.KeepsTenants s := fun _ _ h => h

theorem Db.KeepsTenants.trans (h : s.KeepsTenants t) (h' : t.KeepsTenants u) : s.KeepsTenants u :=
  fun tenant ref hs => h' tenant ref (h tenant ref hs)

/-- A collection whose patches leave the tenants alone. -/
theorem get?_tenant_modify {α : Type} [Keyed α] {c : Collection α} {p : α → Bool} {f : Patch α}
    {field : α → String} (hf : ∀ a, field (f.run a) = field a) {i : Nat}
    (h : ∃ a, c.get? i = some a ∧ field a = tenant) :
    ∃ a, (c.modify p f).get? i = some a ∧ field a = tenant := by
  obtain ⟨a, ha, rfl⟩ := h
  refine ⟨if p a then f.run a else a, by rw [get?_modify, ha]; rfl, ?_⟩
  split
  · exact hf a
  · rfl

theorem get?_tenant_insert {α : Type} [Keyed α] {c : Collection α} {b : α} {k : Keyed.key b = c.next}
    {field : α → String} {i : Nat} (h : ∃ a, c.get? i = some a ∧ field a = tenant) :
    ∃ a, (c.insert b k).get? i = some a ∧ field a = tenant := by
  obtain ⟨a, ha, rfl⟩ := h
  exact ⟨a, by rw [get?_insert, if_neg (get?_lt ha).ne, ha], rfl⟩

/-- Orders are created under new numbers, and keep number and tenant until they are deleted and after. -/
theorem exec_ordered (o : DbOp) (s : Db) (k : ObjectId) (tenant : String) :
    (mongo.exec o s).2.Ordered k tenant ↔ s.Ordered k tenant ∨
      ∃ draft now, o = .orderCreate draft now ∧ k = s.orders.next ∧ tenant = draft.tenant := by
  by_cases hwrites : o.WritesOrders
  · cases o with
    | orderCreate draft now =>
      constructor
      · rintro ⟨x, hx | hx, rfl, rfl⟩
        · rcases (mem_insert (h := draft.key_order _ now)).1 hx with hx | rfl
          · exact .inl ⟨x, .inl hx, rfl, rfl⟩
          · exact .inr ⟨draft, now, rfl, rfl, rfl⟩
        · exact .inl ⟨x, .inr hx, rfl, rfl⟩
      · rintro (⟨x, hx, rfl, rfl⟩ | ⟨draft', now', heq, rfl, rfl⟩)
        · exact ⟨x, hx.imp_left fun h => (mem_insert (h := draft.key_order _ now)).2 (.inl h), rfl, rfl⟩
        · obtain ⟨rfl, rfl⟩ := DbOp.orderCreate.inj heq
          exact ⟨_, .inl ((mem_insert (h := draft.key_order _ now)).2 (.inr rfl)), rfl, rfl⟩
    | orderDelete id =>
      constructor
      · rintro ⟨x, hx | hx, rfl, rfl⟩
        · exact .inl ⟨x, .inl (mem_erase.1 hx).1, rfl, rfl⟩
        · rcases List.mem_append.1 hx with hx | hx
          · exact .inl ⟨x, .inr hx, rfl, rfl⟩
          · exact .inl ⟨x, .inl (get?_mem (Option.mem_toList.1 hx)), rfl, rfl⟩
      · rintro (⟨x, hx | hx, rfl, rfl⟩ | ⟨draft, now, heq, -⟩)
        · by_cases hid : x.id = id
          · refine ⟨x, .inr (List.mem_append_right _ (Option.mem_toList.2 ?_)), rfl, rfl⟩
            exact get?_eq_some.2 ⟨hx, hid⟩
          · exact ⟨x, .inl (mem_erase.2 ⟨hx, hid⟩), rfl, rfl⟩
        · exact ⟨x, .inr (List.mem_append_left _ hx), rfl, rfl⟩
        · cases heq
    | orderUpdate u now =>
      have hpatch : ∀ x, ((u.patch now).run x).id = x.id ∧ ((u.patch now).run x).tenant = x.tenant :=
        fun x => by cases u <;> exact ⟨rfl, rfl⟩
      obtain ⟨y, -, -, heq⟩ | ⟨-, heq⟩ := exec_orderUpdate u now s
      · rw [heq]
        constructor
        · rintro ⟨x, hx | hx, rfl, rfl⟩
          · obtain ⟨z, hz, rfl⟩ := mem_modify.1 hx
            refine .inl ⟨z, .inl hz, ?_⟩
            split
            · exact ⟨(hpatch z).1.symm, (hpatch z).2.symm⟩
            · exact ⟨rfl, rfl⟩
          · exact .inl ⟨x, .inr hx, rfl, rfl⟩
        · rintro (⟨x, hx | hx, rfl, rfl⟩ | ⟨draft, now, heq, -⟩)
          · refine ⟨_, .inl (mem_modify.2 ⟨x, hx, rfl⟩), ?_⟩
            split
            · exact hpatch x
            · exact ⟨rfl, rfl⟩
          · exact ⟨x, .inr hx, rfl, rfl⟩
          · cases heq
      · rw [heq]
        exact ⟨.inl, fun h => h.elim id fun ⟨_, _, heq, _⟩ => by cases heq⟩
    | _ => exact hwrites.elim
  · rw [Db.Ordered, (exec_orders hwrites s).1, (exec_orders hwrites s).2]
    refine ⟨.inl, fun h => h.elim id ?_⟩
    rintro ⟨draft, now, rfl, -⟩
    exact absurd trivial hwrites

theorem exec_numbered (o : DbOp) (h : s.Numbered) : (mongo.exec o s).2.Numbered where
  lt k tenant hk := by
    rcases (exec_ordered o s k tenant).1 hk with hk | ⟨draft, now, rfl, rfl, -⟩
    · exact (h.lt k tenant hk).trans_le (exec_keepsNumbers o s).1
    · exact Nat.lt_succ_self _
  unique k tenant tenant' hk hk' := by
    rcases (exec_ordered o s k tenant).1 hk with hold | ⟨draft, now, rfl, rfl, rfl⟩
    · rcases (exec_ordered o s k tenant').1 hk' with hold' | ⟨draft, now, rfl, rfl, -⟩
      · exact h.unique k tenant tenant' hold hold'
      · exact absurd (h.lt _ tenant hold) (lt_irrefl _)
    · rcases (exec_ordered _ s _ tenant').1 hk' with hold' | ⟨draft', now', heq, -, rfl⟩
      · exact absurd (h.lt _ tenant' hold') (lt_irrefl _)
      · exact congrArg OrderDraft.tenant (DbOp.orderCreate.inj heq).1

/-- Whatever the call: each document stays its tenant's. -/
theorem exec_keepsTenants (o : DbOp) (s : Db) : s.KeepsTenants (mongo.exec o s).2 := by
  rintro tenant ref h
  cases ref with
  | product id =>
    have hinc (i : ObjectId) (delta : ℤ) :
        ∃ p, (s.products.update i (Product.incStock delta)).get? id = some p ∧ p.tenant = tenant :=
      get?_tenant_modify (fun _ => rfl) h
    cases o <;> (simp only [mongo, Db.exec]; repeat' split) <;> first | exact h | exact hinc _ _
  | cart id =>
    have hclear (i : ObjectId) : ∃ c, (s.carts.update i Cart.clear).get? id = some c ∧ c.tenant = tenant :=
      get?_tenant_modify (fun _ => rfl) h
    cases o <;> (simp only [mongo, Db.exec]; repeat' split) <;> first | exact h | exact hclear _
  | reservation id =>
    have hstatus (p : InventoryReservation → Bool) (status : ReservationStatus) : ∃ r,
        (s.reservations.modify p (InventoryReservation.setStatus status)).get? id = some r ∧
          r.tenant = tenant := get?_tenant_modify (fun _ => rfl) h
    cases o with
    | reservationCreate draft => exact get?_tenant_insert (k := draft.key_reservation _) h
    | reservationLink ids k => exact get?_tenant_modify (fun _ => rfl) h
    | _ => (simp only [mongo, Db.exec]; repeat' split) <;> first | exact h | exact hstatus _ _
  | coupon id =>
    have hused (i : ObjectId) (f : Nat → Nat) :
        ∃ c, (s.coupons.update i (Coupon.setUsedCount f)).get? id = some c ∧ c.tenant = tenant :=
      get?_tenant_modify (fun _ => rfl) h
    cases o <;> (simp only [mongo, Db.exec]; repeat' split) <;> first | exact h | exact hused _ _
  | order k => exact (exec_ordered o s k tenant).2 (.inl h)

/-! ## What a request has found -/

/-- The tenant that a handler acts for, if it serves a user, and the documents it has found to be of it. -/
structure TenantNote where
  tenant : Option String
  known : List DocRef

namespace TenantNote

/-- The request is one of a tenant that the document is known to be of. -/
def Knows (g : TenantNote) (ref : DocRef) : Prop := g.tenant.isSome ∧ ref ∈ g.known

instance (g : TenantNote) (ref : DocRef) : Decidable (g.Knows ref) :=
  inferInstanceAs (Decidable (_ ∧ _))

def learn (g : TenantNote) (ref : DocRef) : TenantNote := { g with known := ref :: g.known }

/-- A reply about documents of this tenant, for a request of it. -/
def learnOf (g : TenantNote) (tenant : String) (ref : DocRef) : TenantNote :=
  if g.tenant = some tenant then g.learn ref else g

/-- The tenant in the filter of an update. -/
def filterTenant : OrderUpdate → Option String
  | .cancelUnpaid owned _ => some owned.tenant
  | .cancelPaid owned _ => some owned.tenant
  | .requestRefund owned _ _ => some owned.tenant
  | _ => none

def note : (o : DbOp) → Except ApiError o.Reply → TenantNote → TenantNote
  | .cartFindOne _ tenant, .ok (some (c : Cart)), g => g.learnOf tenant (.cart c.id)
  | .productReserve _ tenant _, .ok (some (p : Product)), g => g.learnOf tenant (.product p.id)
  | .reservationCreate draft, .ok (r : InventoryReservation), g =>
    g.learnOf draft.tenant (.reservation r.id)
  | .reservationsActive k, .ok (ids : List ObjectId), g =>
    if g.Knows (.order k) then { g with known := ids.map .reservation ++ g.known } else g
  | .reservationRelease id _ _, .ok (some (r : InventoryReservation)), g =>
    if g.Knows (.reservation id) then g.learn (.product r.product) else g
  | .couponFindOne _ tenant, .ok (some (c : Coupon)), g => g.learnOf tenant (.coupon c.id)
  | .orderCreate draft _, .ok (o : Order), g => g.learnOf draft.tenant (.order o.id)
  | .orderFindOne filter, .ok (some (o : Order)), g => g.learnOf filter.tenant (.order o.id)
  | .orderUpdate u _, .ok (some (o : Order)), g =>
    if filterTenant u = g.tenant then g.learn (.order o.id) else g
  | _, _, g => g

/-- A request writes what it knows to be its tenant's. Other handlers add no references. -/
def may (o : DbOp) (g : TenantNote) : Prop :=
  match o with
  | .cartClear id _ => g.Knows (.cart id)
  | .productReserve _ tenant _ => g.tenant = some tenant
  | .productUnreserve id _ => g.Knows (.product id)
  | .productRestock r => g.tenant = none ∨ g.Knows (.product r.product)
  | .reservationCreate draft => g.tenant = some draft.tenant ∧ g.Knows (.product draft.product)
  | .reservationUndo id => g.Knows (.reservation id)
  | .reservationLink ids k => (∀ id ∈ ids, g.Knows (.reservation id)) ∧ g.Knows (.order k)
  | .reservationRelease id _ _ => g.tenant = none ∨ g.Knows (.reservation id)
  | .reservationsCommit _ => g.tenant = none
  | .couponClaim id _ => g.Knows (.coupon id)
  | .couponUnclaim id => g.Knows (.coupon id)
  | .redemptionCreate x => g.tenant = some x.tenant ∧ g.Knows (.coupon x.coupon) ∧ g.Knows (.order x.order)
  | .orderCreate draft _ => g.tenant = some draft.tenant ∧
    (∀ item ∈ draft.items, g.Knows (.product item.product)) ∧
      ∀ c, draft.coupon = some c → g.Knows (.coupon c)
  | .orderDelete id => g.Knows (.order id)
  | .orderUpdate u _ => g.tenant = none ∨ filterTenant u = g.tenant ∨ g.Knows (.order u.id)
  | .paymentCreateEvent _ => g.tenant = none
  | .eventCreate e => ∀ t, g.tenant = some t → e.tenant = t
  | .shipmentUpsert x _ => g.tenant = some x.tenant ∧ g.Knows (.order x.order)
  | _ => True

/-- What the note says of the database. -/
def Backed (g : TenantNote) (s : Db) : Prop := ∀ t, g.tenant = some t → ∀ ref ∈ g.known, s.Has t ref

theorem Backed.move {g : TenantNote} (h : g.Backed s) (hst : s.KeepsTenants t) : g.Backed t :=
  fun tenant ht ref href => hst tenant ref (h tenant ht ref href)

theorem Backed.has {g : TenantNote} (h : g.Backed s) (ht : g.tenant = some tenant) {ref : DocRef}
    (href : g.Knows ref) : s.Has tenant ref := h tenant ht ref href.2

/-- What is learnt is so. -/
theorem Backed.learn {g : TenantNote} (h : g.Backed s) {ref : DocRef}
    (href : ∀ t, g.tenant = some t → s.Has t ref) : (g.learn ref).Backed s := by
  intro t ht x hx
  rcases List.mem_cons.1 hx with rfl | hx
  · exact href t ht
  · exact h t ht x hx

theorem Backed.learnOf {g : TenantNote} (h : g.Backed s) {ref : DocRef} (href : s.Has tenant ref) :
    (g.learnOf tenant ref).Backed s := by
  unfold TenantNote.learnOf
  split
  · next ht => exact h.learn fun t ht' => Option.some_inj.1 (ht.symm.trans ht') ▸ href
  · exact h

end TenantNote

/-! ## Single calls -/

section Calls

variable {g : TenantNote}

theorem Db.RowInside.move {r r' : InventoryReservation} (h : s.RowInside r) (hst : s.KeepsTenants t)
    (hsame : r'.tenant = r.tenant ∧ r'.product = r.product ∧ r'.order = r.order) : t.RowInside r' := by
  obtain ⟨htenant, hproduct, horder⟩ := hsame
  rw [Db.RowInside, htenant, hproduct, horder]
  exact ⟨hst _ _ h.1, fun k hk => hst _ _ (h.2 k hk)⟩

theorem Db.OrderInside.move {o o' : Order} (h : s.OrderInside o) (hst : s.KeepsTenants t)
    (hsame : o'.tenant = o.tenant ∧ o'.items = o.items ∧ o'.coupon = o.coupon) : t.OrderInside o' := by
  obtain ⟨htenant, hitems, hcoupon⟩ := hsame
  rw [Db.OrderInside, htenant, hitems, hcoupon]
  exact ⟨fun item hitem => hst _ _ (h.1 item hitem), fun c hc => hst _ _ (h.2 c hc)⟩

/-- The references stay inside their tenants while those that are new are so. -/
theorem Db.Tenanted.move (h : s.Tenanted) (hst : s.KeepsTenants t)
    (hrows : ∀ r ∈ t.reservations.docs, r ∈ s.reservations.docs ∨ t.RowInside r)
    (horders : ∀ o ∈ t.orders.docs, o ∈ s.orders.docs ∨ t.OrderInside o)
    (hredemptions : ∀ x ∈ t.redemptions, x ∈ s.redemptions ∨
      t.Has x.tenant (.coupon x.coupon) ∧ t.Has x.tenant (.order x.order))
    (hshipments : ∀ x ∈ t.shipments, x ∈ s.shipments ∨ t.Has x.tenant (.order x.order)) : t.Tenanted where
  reservations r hr := by
    rcases hrows r hr with hr | hr
    · exact (h.reservations r hr).move hst ⟨rfl, rfl, rfl⟩
    · exact hr
  orders o ho := by
    rcases horders o ho with ho | ho
    · exact (h.orders o ho).move hst ⟨rfl, rfl, rfl⟩
    · exact ho
  redemptions x hx := by
    rcases hredemptions x hx with hx | hx
    · exact (h.redemptions x hx).imp (hst _ _) (hst _ _)
    · exact hx
  shipments x hx := by
    rcases hshipments x hx with hx | hx
    · exact hst _ _ (h.shipments x hx)
    · exact hx

theorem Db.Tenanted.setStatus (h : s.Tenanted) {p : InventoryReservation → Bool} {status : ReservationStatus}
    (hst : s.KeepsTenants t) :
    ∀ r ∈ (s.reservations.modify p (InventoryReservation.setStatus status)).docs,
      r ∈ s.reservations.docs ∨ t.RowInside r := by
  intro r hr
  obtain ⟨x, hx, rfl⟩ := mem_modify.1 hr
  refine .inr ((h.reservations x hx).move hst ?_)
  split <;> exact ⟨rfl, rfl, rfl⟩

/-- A call that a note lets a handler make keeps the references inside their tenants. -/
theorem exec_tenanted (o : DbOp) (ho : TenantNote.may o g) (hg : g.Backed s) (hs : s.Tenanted) :
    (mongo.exec o s).2.Tenanted := by
  have hkeeps := exec_keepsTenants o s
  cases o with
  | reservationCreate draft =>
    obtain ⟨ht, hknown⟩ := ho
    refine hs.move hkeeps (fun r hr => ?_) (fun _ => .inl) (fun _ => .inl) fun _ => .inl
    rcases (mem_insert (h := draft.key_reservation _)).1 hr with hr | rfl
    · exact .inl hr
    · exact .inr ⟨hkeeps _ _ (hg.has ht hknown), fun k h => by cases h⟩
  | reservationLink ids k =>
    obtain ⟨hids, hk⟩ := ho
    obtain ⟨tenant, ht⟩ := Option.isSome_iff_exists.1 hk.1
    refine hs.move hkeeps (fun r hr => ?_) (fun _ => .inl) (fun _ => .inl) fun _ => .inl
    obtain ⟨x, hx, rfl⟩ := mem_modify.1 hr
    split
    · next hmem =>
      -- The row is one that the checkout has made itself, so that it is of its tenant.
      obtain ⟨y, hy, hmine⟩ := hg.has ht (hids x.id (by simpa using hmem))
      obtain rfl := Option.some_inj.1 ((get?_eq_some.2 ⟨hx, rfl⟩).symm.trans hy)
      refine .inr ⟨hkeeps _ _ (hs.reservations x hx).1, fun j hj => ?_⟩
      obtain rfl : k = j := Option.some_inj.1 hj
      exact hkeeps _ _ (hmine.symm ▸ hg.has ht hk)
    · exact .inl hx
  | orderCreate draft now =>
    obtain ⟨ht, hitems, hcoupon⟩ := ho
    refine hs.move hkeeps (fun _ => .inl) (fun o ho => ?_) (fun _ => .inl) fun _ => .inl
    rcases (mem_insert (h := draft.key_order _ now)).1 ho with ho | rfl
    · exact .inl ho
    · refine .inr ⟨fun item h => hkeeps _ _ (hg.has ht (hitems item h)), fun c h => ?_⟩
      exact hkeeps _ _ (hg.has ht (hcoupon c h))
  | orderUpdate u now =>
    obtain ⟨o, ho, -, heq⟩ | ⟨-, heq⟩ := exec_orderUpdate u now s
    · rw [heq] at hkeeps ⊢
      refine hs.move hkeeps (fun _ => .inl) (fun x hx => ?_) (fun _ => .inl) fun _ => .inl
      obtain ⟨y, hy, rfl⟩ := mem_modify.1 hx
      refine .inr ((hs.orders y hy).move hkeeps ?_)
      split
      · cases u <;> exact ⟨rfl, rfl, rfl⟩
      · exact ⟨rfl, rfl, rfl⟩
    · rw [heq]
      exact hs
  | orderDelete id =>
    exact hs.move hkeeps (fun _ => .inl) (fun o ho => .inl (mem_erase.1 ho).1) (fun _ => .inl) fun _ => .inl
  | redemptionCreate x =>
    obtain ⟨ht, hc, hk⟩ := ho
    simp only [mongo, Db.exec] at hkeeps ⊢
    split
    · exact hs
    · refine hs.move (.refl s) (fun _ => .inl) (fun _ => .inl) (fun y hy => ?_) fun _ => .inl
      rcases List.mem_append.1 hy with hy | hy
      · exact .inl hy
      · obtain rfl := List.mem_singleton.1 hy
        exact .inr ⟨hg.has ht hc, hg.has ht hk⟩
  | shipmentUpsert x existing =>
    obtain ⟨ht, hk⟩ := ho
    have hx : s.Has x.tenant (.order x.order) := hg.has ht hk
    simp only [mongo, Db.exec]
    split
    · refine hs.move (.refl s) (fun _ => .inl) (fun _ => .inl) (fun _ => .inl) fun y hy => ?_
      obtain ⟨z, hz, rfl⟩ := List.mem_map.1 hy
      split
      · exact .inr hx
      · exact .inl hz
    · split
      · refine hs.move (.refl s) (fun _ => .inl) (fun _ => .inl) (fun _ => .inl) fun y hy => ?_
        rcases List.mem_append.1 hy with hy | hy
        · exact .inl hy
        · obtain rfl := List.mem_singleton.1 hy
          exact .inr hx
      · exact hs
  | reservationUndo id =>
    exact hs.move hkeeps (hs.setStatus hkeeps) (fun _ => .inl) (fun _ => .inl) fun _ => .inl
  | reservationsCommit k =>
    exact hs.move hkeeps (hs.setStatus hkeeps) (fun _ => .inl) (fun _ => .inl) fun _ => .inl
  | reservationRelease id status fromStatuses =>
    simp only [mongo, Db.exec] at hkeeps ⊢
    split
    · split
      · next hr hmem =>
        simp only [hr, hmem, if_true] at hkeeps
        exact hs.move hkeeps (hs.setStatus hkeeps) (fun _ => .inl) (fun _ => .inl) fun _ => .inl
      · exact hs
    · exact hs
  | _ =>
    refine hs.move hkeeps ?_ ?_ ?_ ?_ <;> (simp only [mongo, Db.exec]; repeat' split) <;>
      exact fun _ => .inl

/-- An update that matched names its tenant, or is of an order that is known. -/
theorem exec_orderUpdate_backed (u : OrderUpdate) (now : Time) (hg : g.Backed s) :
    (TenantNote.note (.orderUpdate u now) (mongo.exec (.orderUpdate u now) s).1 g).Backed
      (mongo.exec (.orderUpdate u now) s).2 := by
  have hkeeps := exec_keepsTenants (.orderUpdate u now) s
  have hnext := hg.move hkeeps
  obtain ⟨o, ho, hguard, heq⟩ | ⟨-, heq⟩ := exec_orderUpdate u now s
  · rw [heq] at hkeeps hnext ⊢
    show TenantNote.Backed (ite _ _ _) _
    split
    · next htenant =>
      refine hnext.learn fun t ht => hkeeps _ _ ?_
      have haccepts : o.tenant = t := by
        rw [ht] at htenant
        cases u <;> simp_all [TenantNote.filterTenant, OrderUpdate.guard, OrderFilter.accepts]
      exact ⟨o, .inl (get?_mem ho), (OrderUpdate.apply_id _ _ _).symm, haccepts⟩
    · exact hnext
  · rw [heq]
    exact hg

/-- What a note says stays so, and what is new in it is so. -/
theorem exec_backed (o : DbOp) (hg : g.Backed s) (hs : s.Tenanted) (hnumbered : s.Numbered) :
    (TenantNote.note o (mongo.exec o s).1 g).Backed (mongo.exec o s).2 := by
  have hnext := hg.move (exec_keepsTenants o s)
  cases o with
  | cartFindOne user tenant =>
    simp only [mongo, Db.exec]
    cases hfind : s.carts.docs.find? fun c => c.user == user && c.tenant == tenant with
    | none => exact hnext
    | some c =>
      have hp := List.find?_some hfind
      simp only [Bool.and_eq_true, beq_iff_eq] at hp
      exact hnext.learnOf ⟨c, get?_eq_some.2 ⟨List.mem_of_find?_eq_some hfind, rfl⟩, hp.2⟩
  | productReserve id tenant quantity =>
    simp only [mongo, Db.exec] at hnext ⊢
    split
    · next p hp =>
      split
      · next hsellable =>
        have htenant : p.tenant = tenant := by
          simp only [Product.sellable, Bool.and_eq_true, beq_iff_eq] at hsellable
          exact hsellable.1.1.1
        simp only [hp, hsellable, if_true] at hnext
        have hget : (s.products.update id (Product.incStock (-quantity))).get? id =
            some ((Product.incStock (-quantity)).run p) := by
          rw [get?_update_self, hp]
          rfl
        have hid : ((Product.incStock (-quantity)).run p).id = id := get?_key hp
        refine hnext.learnOf ⟨(Product.incStock (-quantity)).run p, ?_, htenant⟩
        rw [hid]
        exact hget
      · exact hg
    · exact hg
  | reservationCreate draft =>
    exact hnext.learnOf ⟨_, get?_insert_next _ _ (draft.key_reservation _), rfl⟩
  | reservationsActive k =>
    show TenantNote.Backed (ite _ _ _) _
    split
    · next hk =>
      intro t ht ref href
      rcases List.mem_append.1 href with href | href
      · obtain ⟨id, hid, rfl⟩ := List.mem_map.1 href
        obtain ⟨x, hx, rfl⟩ := List.mem_map.1 hid
        obtain ⟨hmem, horder, -⟩ := mem_activeOf.1 hx
        have htenant := hnumbered.unique k _ _ ((hs.reservations x hmem).2 k horder) (hg.has ht hk)
        exact ⟨x, get?_eq_some.2 ⟨hmem, rfl⟩, htenant⟩
      · exact hg t ht ref href
    · exact hg
  | reservationRelease id status fromStatuses =>
    simp only [mongo, Db.exec] at hnext ⊢
    split
    · next x hx =>
      split
      · next hfrom =>
        simp only [hx, hfrom, if_true] at hnext
        show TenantNote.Backed (ite _ _ _) _
        split
        · next hknown =>
          refine hnext.learn fun t ht => ?_
          obtain ⟨y, hy, rfl⟩ := hg.has ht hknown
          obtain rfl := Option.some_inj.1 (hx.symm.trans hy)
          exact (hs.reservations x (get?_eq_some.1 hx).1).1
        · exact hnext
      · exact hg
    · exact hg
  | couponFindOne code tenant =>
    simp only [mongo, Db.exec]
    cases hfind : s.coupons.docs.find? fun c =>
        c.code == code && c.isActive && c.tenant == tenant && c.deletedAt.isNone with
    | none => exact hnext
    | some c =>
      have hp := List.find?_some hfind
      simp only [Bool.and_eq_true, beq_iff_eq] at hp
      exact hnext.learnOf ⟨c, get?_eq_some.2 ⟨List.mem_of_find?_eq_some hfind, rfl⟩, hp.1.2⟩
  | orderCreate draft now =>
    refine hnext.learnOf ⟨draft.order s.orders.next now, .inl ?_, rfl, rfl⟩
    exact (mem_insert (h := draft.key_order _ now)).2 (.inr rfl)
  | orderFindOne filter =>
    simp only [mongo, Db.exec]
    cases hfind : (s.orders.get? filter.id).filter filter.accepts with
    | none => exact hnext
    | some o =>
      obtain ⟨ho, haccepts⟩ := Option.filter_eq_some_iff.1 hfind
      simp only [OrderFilter.accepts, Bool.and_eq_true, beq_iff_eq] at haccepts
      exact hnext.learnOf ⟨o, .inl (get?_mem ho), rfl, haccepts.1.2⟩
  | orderUpdate u now => exact exec_orderUpdate_backed u now hg
  | _ => exact hnext

/-- A patch of the documents under ids that are known to be the tenant's. -/
theorem others_modify {α : Type} [Keyed α] {c : Collection α} {p : α → Bool} {f : Patch α}
    {field : α → String} (hf : ∀ a, field (f.run a) = field a)
    (h : ∀ a ∈ c.docs, p a → field a = tenant) :
    (c.modify p f).docs.filter (field · != tenant) = c.docs.filter (field · != tenant) :=
  filter_modify fun a ha hp => by simp [hf, h a ha hp]

theorem others_update {α : Type} [Keyed α] {c : Collection α} {i : Nat} {f : Patch α}
    {field : α → String} (hf : ∀ a, field (f.run a) = field a)
    (h : ∃ a, c.get? i = some a ∧ field a = tenant) :
    (c.update i f).docs.filter (field · != tenant) = c.docs.filter (field · != tenant) := by
  obtain ⟨a, ha, htenant⟩ := h
  refine others_modify hf fun b hb hi => ?_
  obtain rfl := Option.some_inj.1 (ha.symm.trans (get?_eq_some.2 ⟨hb, by simpa using hi⟩))
  exact htenant

theorem exec_orderUpdate_others {u : OrderUpdate} (now : Time) (ht : g.tenant = some tenant)
    (ho : TenantNote.may (.orderUpdate u now) g) (hg : g.Backed s) (hs : s.Numbered) :
    (mongo.exec (.orderUpdate u now) s).2.others tenant = s.others tenant := by
  obtain ⟨o, hget, hguard, heq⟩ | ⟨-, heq⟩ := exec_orderUpdate u now s
  · rw [heq]
    have htenant : o.tenant = tenant := by
      rcases ho with hnone | hfilter | hknown
      · cases hnone.symm.trans ht
      · rw [ht] at hfilter
        cases u <;> simp_all [TenantNote.filterTenant, OrderUpdate.guard, OrderFilter.accepts]
      · exact hs.unique u.id _ _ ⟨o, .inl (get?_mem hget), get?_key hget, rfl⟩ (hg.has ht hknown)
    have horders : (s.orders.update u.id (u.patch now)).docs.filter (·.tenant != tenant) =
        s.orders.docs.filter (·.tenant != tenant) :=
      others_update (fun o => by cases u <;> rfl) ⟨o, hget, htenant⟩
    simp only [Db.others, horders]
  · rw [heq]

/-- A call that a note lets a request make leaves what is not of its tenant as it is. -/
theorem exec_others (o : DbOp) (ht : g.tenant = some tenant) (ho : TenantNote.may o g) (hg : g.Backed s)
    (hs : s.Tenanted) (hnumbered : s.Numbered) :
    (mongo.exec o s).2.others tenant = s.others tenant := by
  have hproduct : ∀ id delta, g.Knows (.product id) →
      (s.products.update id (Product.incStock delta)).docs.filter (·.tenant != tenant) =
        s.products.docs.filter (·.tenant != tenant) :=
    fun _ _ hk => others_update (fun _ => rfl) (hg.has ht hk)
  have hrow : ∀ id status, g.Knows (.reservation id) →
      (s.reservations.update id (InventoryReservation.setStatus status)).docs.filter (·.tenant != tenant) =
        s.reservations.docs.filter (·.tenant != tenant) :=
    fun _ _ hk => others_update (fun _ => rfl) (hg.has ht hk)
  have hcoupon : ∀ id f, g.Knows (.coupon id) →
      (s.coupons.update id (Coupon.setUsedCount f)).docs.filter (·.tenant != tenant) =
        s.coupons.docs.filter (·.tenant != tenant) :=
    fun _ _ hk => others_update (fun _ => rfl) (hg.has ht hk)
  cases o with
  | cartClear id version =>
    have hcart : (s.carts.update id Cart.clear).docs.filter (·.tenant != tenant) =
        s.carts.docs.filter (·.tenant != tenant) := others_update (fun _ => rfl) (hg.has ht ho)
    simp only [mongo, Db.exec]
    repeat' split
    · simp only [Db.others, hcart]
    · rfl
    · rfl
  | productReserve id tenant' quantity =>
    obtain rfl : tenant' = tenant := Option.some_inj.1 ((show g.tenant = some tenant' from ho).symm.trans ht)
    simp only [mongo, Db.exec]
    split
    · next p hp =>
      split
      · next hsellable =>
        simp only [Product.sellable, Bool.and_eq_true, beq_iff_eq] at hsellable
        have hstock : (s.products.update id (Product.incStock (-quantity))).docs.filter (·.tenant != tenant') =
            s.products.docs.filter (·.tenant != tenant') :=
          others_update (fun _ => rfl) ⟨p, hp, hsellable.1.1.1⟩
        simp only [Db.others, hstock]
      · rfl
    · rfl
  | productUnreserve id quantity =>
    have hstock := hproduct id quantity ho
    simp only [mongo, Db.exec, Db.others, hstock]
  | productRestock r =>
    have hstock := hproduct r.product r.quantity (ho.resolve_left fun hnone => by cases hnone.symm.trans ht)
    simp only [mongo, Db.exec, Db.others, hstock]
  | reservationCreate draft =>
    obtain rfl : draft.tenant = tenant := Option.some_inj.1 (ho.1.symm.trans ht)
    have hrows : (s.reservations.insert (draft.reservation s.reservations.next) (draft.key_reservation _)).docs.filter
        (·.tenant != draft.tenant) = s.reservations.docs.filter (·.tenant != draft.tenant) :=
      filter_insert (by simp [ReservationDraft.reservation])
    simp only [mongo, Db.exec, Db.others, hrows]
  | reservationUndo id =>
    have hrows := hrow id .released ho
    simp only [mongo, Db.exec, Db.others, hrows]
  | reservationLink ids k =>
    have hrows : (s.reservations.modify (fun r => ids.contains r.id) (InventoryReservation.setOrder k)).docs.filter
        (·.tenant != tenant) = s.reservations.docs.filter (·.tenant != tenant) := by
      refine others_modify (fun _ => rfl) fun r hr hmem => ?_
      obtain ⟨x, hx, htenant⟩ := hg.has ht (ho.1 r.id (by simpa using hmem))
      obtain rfl := Option.some_inj.1 ((get?_eq_some.2 ⟨hr, rfl⟩).symm.trans hx)
      exact htenant
    simp only [mongo, Db.exec, Db.others, hrows]
  | reservationRelease id status fromStatuses =>
    have hrows := hrow id status (ho.resolve_left fun hnone => by cases hnone.symm.trans ht)
    simp only [mongo, Db.exec]
    repeat' split
    · simp only [Db.others, hrows]
    · rfl
    · rfl
  | reservationsCommit k => cases (show g.tenant = none from ho).symm.trans ht
  | couponClaim id usageLimit =>
    have hused := hcoupon id (· + 1) ho
    simp only [mongo, Db.exec]
    repeat' split
    · simp only [Db.others, hused]
    · rfl
    · rfl
  | couponUnclaim id =>
    have hused := hcoupon id (· - 1) ho
    simp only [mongo, Db.exec]
    repeat' split
    · simp only [Db.others, hused]
    · rfl
    · rfl
  | redemptionCreate x =>
    obtain rfl : x.tenant = tenant := Option.some_inj.1 (ho.1.symm.trans ht)
    simp only [mongo, Db.exec]
    split
    · rfl
    · simp [Db.others]
  | orderCreate draft now =>
    obtain rfl : draft.tenant = tenant := Option.some_inj.1 (ho.1.symm.trans ht)
    have horders : (s.orders.insert (draft.order s.orders.next now) (draft.key_order _ now)).docs.filter
        (·.tenant != draft.tenant) = s.orders.docs.filter (·.tenant != draft.tenant) :=
      filter_insert (by simp [OrderDraft.order])
    simp only [mongo, Db.exec, Db.others, horders]
  | orderDelete id =>
    have horders : (s.orders.erase id).docs.filter (·.tenant != tenant) =
        s.orders.docs.filter (·.tenant != tenant) := by
      refine filter_erase fun o hget => ?_
      have htenant := hnumbered.unique id _ _ ⟨o, .inl (get?_mem hget), get?_key hget, rfl⟩ (hg.has ht ho)
      simp [htenant]
    simp only [mongo, Db.exec, Db.others, horders]
  | orderUpdate u now => exact exec_orderUpdate_others now ht ho hg hnumbered
  | paymentCreateEvent event => cases (show g.tenant = none from ho).symm.trans ht
  | eventCreate event =>
    have htenant : event.tenant = tenant := ho tenant ht
    simp [mongo, Db.exec, Db.others, htenant]
  | shipmentUpsert x existing =>
    obtain rfl : x.tenant = tenant := Option.some_inj.1 (ho.1.symm.trans ht)
    have hshipments : (s.shipments.map fun y => if y.order == x.order && y.seller == x.seller &&
        existing.all (· == y.status) then x else y).filter (·.tenant != x.tenant) =
          s.shipments.filter (·.tenant != x.tenant) := by
      refine filter_map_ite fun y hy hhit => ?_
      simp only [Bool.and_eq_true, beq_iff_eq] at hhit
      have htenant := hnumbered.unique y.order _ _ (hs.shipments y hy) (hhit.1.1 ▸ hg.has ht ho.2)
      simp [htenant]
    simp only [mongo, Db.exec]
    repeat' split
    · simp only [Db.others, hshipments]
    · simp [Db.others]
    · rfl
  | _ => rfl

end Calls

end Tenants

end Ecommerce
