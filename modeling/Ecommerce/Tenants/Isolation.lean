import Ecommerce.Checkout.Notes
import Ecommerce.Tenants.References

/-!
# Tenants apart

Every handler keeps to its note. So along every run, in either deployment, with requests of all tenants
interleaved and calls failing, the stored references stay inside their tenants, and a step of a tenant's
request leaves what is not of the tenant as it is.
-/

namespace Ecommerce

open Effect Effect.Collection

/-! ## The memo -/

def tenantMemo : Memo Mongo ApiError TenantNote where
  note := TenantNote.note
  may := TenantNote.may
  allows _ _ := True

/-- The memo of a handler, whose transactions go on from it. -/
def tenantTxMemo : Memo (Mongo.tx ApiError) ApiError TenantNote where
  note
    | .op o, r, g => TenantNote.note o r g
    | .txn _, _, g => g
  may
    | .op o, g => TenantNote.may o g
    | .txn work, g => tenantMemo.Tracks (fun _ _ => True) work g
  allows _ _ := True

namespace TenantNote

/-- A later note of the same handler. -/
structure Extends (g h : TenantNote) : Prop where
  tenant : h.tenant = g.tenant
  known : g.known ⊆ h.known

variable {g h k : TenantNote} {ref : DocRef}

theorem Extends.refl (g : TenantNote) : g.Extends g := ⟨rfl, List.Subset.refl _⟩

theorem Extends.trans (hgh : g.Extends h) (hhk : h.Extends k) : g.Extends k :=
  ⟨hhk.tenant.trans hgh.tenant, fun _ h => hhk.known (hgh.known h)⟩

theorem Extends.knows (hgh : g.Extends h) (hg : g.Knows ref) : h.Knows ref :=
  ⟨hgh.tenant ▸ hg.1, hgh.known hg.2⟩

theorem learn_extends (g : TenantNote) (ref : DocRef) : g.Extends (g.learn ref) :=
  ⟨rfl, List.subset_cons_self _ _⟩

theorem learnOf_extends (g : TenantNote) (tenant : String) (ref : DocRef) :
    g.Extends (g.learnOf tenant ref) := by
  unfold learnOf
  split
  · exact g.learn_extends ref
  · exact .refl g

theorem knows_learn {tenant : String} (ht : g.tenant = some tenant) : (g.learn ref).Knows ref :=
  ⟨by simp [learn, ht], List.mem_cons_self⟩

theorem knows_learnOf {tenant : String} (ht : g.tenant = some tenant) : (g.learnOf tenant ref).Knows ref := by
  rw [learnOf, if_pos ht]
  exact knows_learn ht

/-- A note only grows. -/
theorem note_extends (o : DbOp) (r : Except ApiError o.Reply) (g : TenantNote) : g.Extends (note o r g) := by
  unfold note
  split
  · exact learnOf_extends ..
  · exact learnOf_extends ..
  · exact learnOf_extends ..
  · split
    · exact ⟨rfl, List.subset_append_right _ _⟩
    · exact .refl g
  · split
    · exact learn_extends ..
    · exact .refl g
  · exact learnOf_extends ..
  · exact learnOf_extends ..
  · exact learnOf_extends ..
  · split
    · exact learn_extends ..
    · exact .refl g
  · exact .refl g

/-- What a note lets a handler make, a later one does. -/
theorem Extends.may (hgh : g.Extends h) {o : DbOp} (ho : TenantNote.may o g) : TenantNote.may o h := by
  have hk : ∀ {ref}, g.Knows ref → h.Knows ref := hgh.knows
  have ht := hgh.tenant
  cases o with
  | cartClear id version => exact hk ho
  | productReserve id tenant quantity => exact ht.trans ho
  | productUnreserve id quantity => exact hk ho
  | productRestock r => exact ho.imp ht.trans hk
  | reservationCreate draft => exact ⟨ht.trans ho.1, hk ho.2⟩
  | reservationUndo id => exact hk ho
  | reservationLink ids order => exact ⟨fun id hid => hk (ho.1 id hid), hk ho.2⟩
  | reservationRelease id status fromStatuses => exact ho.imp ht.trans hk
  | reservationsCommit order => exact ht.trans ho
  | couponClaim id usageLimit => exact hk ho
  | couponUnclaim id => exact hk ho
  | redemptionCreate x => exact ⟨ht.trans ho.1, hk ho.2.1, hk ho.2.2⟩
  | orderCreate draft now =>
    exact ⟨ht.trans ho.1, fun item hitem => hk (ho.2.1 item hitem), fun c hc => hk (ho.2.2 c hc)⟩
  | orderDelete id => exact hk ho
  | orderUpdate u now => exact ho.imp ht.trans (Or.imp (fun hu => hu.trans ht.symm) hk)
  | paymentCreateEvent event => exact ht.trans ho
  | eventCreate event => exact fun t htenant => ho t (ht.symm.trans htenant)
  | shipmentUpsert x existing => exact ⟨ht.trans ho.1, hk ho.2⟩
  | _ => trivial

end TenantNote

/-! ## Handlers for no user -/

/-- Calls that a handler makes which serves no user. -/
def DbOp.Unbound (o : DbOp) : Prop := ∀ g : TenantNote, g.tenant = none → TenantNote.may o g

theorem DbOp.Quiet.unbound {o : DbOp} (h : o.Quiet) : o.Unbound := by
  intro g hg
  cases o <;> first
    | exact trivial
    | exact fun t ht => by cases hg.symm.trans ht
    | exact h.elim

theorem DbOp.OfPayment.unbound {o : DbOp} (h : o.OfPayment) : o.Unbound := by
  rcases h with (h | h | h) | h
  · exact h.unbound
  · intro g hg
    cases o <;> first | exact trivial | exact .inl hg | exact h.elim
  · intro g hg
    cases o <;> first | exact hg | exact .inl hg | exact h.elim
  · intro g hg
    cases o <;> first | exact .inl hg | exact h.elim

section Tracks

variable {α β : Type} {g : TenantNote} {Q : Except ApiError α → TenantNote → Prop}

/-- Calls that a later note lets the handler make as well. -/
theorem tracks_extends {p : MongoM α} (h : p.Issues fun o => ∀ g', g.Extends g' → TenantNote.may o g')
    (hQ : ∀ r g', g.Extends g' → Q r g') : tenantMemo.Tracks Q p g :=
  Memo.tracks_invariant (P := fun g' => g.Extends g') h (fun _ g' ho hg' => ho g' hg')
    (fun o r g' _ hg' => hg'.trans (TenantNote.note_extends o r g')) hQ (.refl g)

theorem tracks_unbound {p : MongoM α} (hg : g.tenant = none) (h : p.Issues DbOp.Unbound) :
    tenantMemo.Tracks (fun _ _ => True) p g :=
  tracks_extends (h.mono fun _ ho g' hg' => ho g' (hg'.tenant.trans hg)) fun _ _ _ => trivial

theorem embed_tracks {p : MongoM α} (h : tenantMemo.Tracks Q p g) : tenantTxMemo.Tracks Q p.embed g :=
  h.embed (fun _ _ _ => rfl) (fun _ _ h => h) fun _ _ h => h

theorem runInTransaction_tracks {deployment : Deployment} {work : Bool → MongoM α}
    (h : ∀ session, tenantMemo.Tracks (fun _ _ => True) (work session) g) :
    tenantTxMemo.Tracks (fun _ _ => True) (runInTransaction deployment work) g := by
  cases deployment with
  | replicaSet => exact ⟨h true, fun _ _ => trivial⟩
  | standalone => exact embed_tracks (h false)

/-- A handler for no user, of calls that any such handler may make. -/
def TxOp.Unbound : TxOp Mongo ApiError → Prop
  | .op o => o.Unbound
  | .txn work => work.Issues DbOp.Unbound

theorem tracks_unbound_tx {p : Handler α} (hg : g.tenant = none) (h : p.Issues TxOp.Unbound) :
    tenantTxMemo.Tracks (fun _ _ => True) p g := by
  refine Memo.tracks_invariant (P := fun g => g.tenant = none) h (fun o g ho hg => ?_)
    (fun o r g _ hg => ?_)
    (fun _ _ _ => trivial) hg
  · cases o with
    | op o => exact ho g hg
    | txn work => exact tracks_unbound hg ho
  · cases o with
    | op o => exact (TenantNote.note_extends o r g).tenant.trans hg
    | txn work => exact hg

theorem processWebhook_unbound (deployment : Deployment) (cfg : WebhookConfig) (d : Delivery) (now : Time) :
    (processWebhook deployment cfg d now).Issues TxOp.Unbound := by
  rw [processWebhook]
  split
  · trivial
  · next eventId _ =>
    refine Prog.Issues.bind_of_yields (issues_embed (fun _ h => h)
      ((readWebhook_issues cfg d eventId).mono fun _ h => h.quiet.unbound))
      (readWebhook_yields cfg d eventId).embed fun read hread => ?_
    cases read with
    | none => trivial
    | some found =>
      obtain ⟨order, body⟩ := found
      obtain ⟨hassert, hcancelled⟩ := hread order body rfl
      refine Prog.Issues.bind (runInTransaction_issues (φ := DbOp.Unbound) (fun _ h => h)
        (fun _ _ p hp => hp) fun _ => ?_) fun updated => ?_
      · exact (webhookWork_issues _ _ _ _ hassert hcancelled).mono fun _ h => h.unbound
      · exact (issues_embed (φ := DbOp.Unbound) (fun _ h => h)
          ((afterWebhook_issues _ _).mono fun _ h => h.unbound)).bind fun _ => trivial

/-! ## Requests -/

variable {tenant : String} {k : ObjectId}

theorem releaseEach_apart {Q : Except ApiError ℕ → TenantNote → Prop} {status : ReservationStatus} (ids : List ObjectId)
    (released : Nat) (hids : ∀ id ∈ ids, g.Knows (.reservation id)) (hQ : ∀ r g', g.Extends g' → Q r g') :
    tenantMemo.Tracks Q (releaseEach status ids released) g := by
  induction ids generalizing released g with
  | nil => exact hQ _ _ (.refl g)
  | cons id rest ih =>
    obtain ⟨hid, hrest⟩ := List.forall_mem_cons.1 hids
    refine ⟨.inr hid, fun r _ => ?_⟩
    have hnote := TenantNote.note_extends (.reservationRelease id status [.reserved, .committed]) r g
    have hlater : ∀ released, tenantMemo.Tracks Q (releaseEach status rest released)
        (TenantNote.note (.reservationRelease id status [.reserved, .committed]) r g) :=
      fun released => ih released (fun i hi => hnote.knows (hrest i hi))
        fun r g' hg' => hQ r g' (hnote.trans hg')
    obtain e | (_ | x) := r
    · exact hQ _ _ hnote
    · exact hlater _
    · have hproduct : (TenantNote.note (.reservationRelease id status [.reserved, .committed])
          (.ok (some x)) g).Knows (.product x.product) := by
        obtain ⟨t, ht⟩ := Option.isSome_iff_exists.1 hid.1
        show TenantNote.Knows (ite _ _ _) _
        rw [if_pos hid]
        exact TenantNote.knows_learn ht
      refine ⟨.inr hproduct, fun r _ => ?_⟩
      cases r with
      | error e => exact hQ _ _ hnote
      | ok _ => exact hlater _

theorem releaseOrderReservations_apart {Q : Except ApiError ℕ → TenantNote → Prop}
    {status : ReservationStatus} (hk : g.Knows (.order k)) (hQ : ∀ r g', g.Extends g' → Q r g') :
    tenantMemo.Tracks Q (releaseOrderReservations k status) g := by
  refine ⟨trivial, fun r _ => ?_⟩
  have hnote := TenantNote.note_extends (.reservationsActive k) r g
  cases r with
  | error e => exact hQ _ _ hnote
  | ok ids =>
    refine releaseEach_apart ids 0 (fun id hid => ⟨hnote.tenant ▸ hk.1, ?_⟩)
      fun r g' hg' => hQ r g' (hnote.trans hg')
    show _ ∈ TenantNote.known (ite _ _ _)
    rw [if_pos hk]
    exact List.mem_append_left _ (List.mem_map_of_mem hid)

theorem may_event (ht : g.tenant = some tenant) (type : EventType) (id : ObjectId) :
    TenantNote.may (.eventCreate ⟨type, id, tenant⟩) g :=
  fun _ ht' => Option.some_inj.1 (ht.symm.trans ht')

theorem finishCancel_apart (ht : g.tenant = some tenant) {cancelled : Order} (refundOpened : Bool)
    (hk : g.Knows (.order cancelled.id)) :
    tenantMemo.Tracks (fun _ _ => True) (finishCancel tenant cancelled refundOpened) g := by
  refine Memo.Tracks.bind (releaseOrderReservations_apart hk fun r g' hg' => ?_)
  cases r with
  | error e => trivial
  | ok released =>
    refine tracks_extends (g := g') ?_ fun _ _ _ => trivial
    have hevent : ∀ type id g'', g'.Extends g'' → TenantNote.may (.eventCreate ⟨type, id, tenant⟩) g'' :=
      fun type id g'' hg'' => may_event ((hg'.trans hg'').tenant.trans ht) type id
    refine (issues_db (hevent _ _)).bind fun _ => ?_
    cases refundOpened with
    | false => trivial
    | true => exact (issues_db (hevent _ _)).bind fun _ => trivial

/-- The reply to an update whose filter names the tenant. -/
theorem knows_orderUpdate {u : OrderUpdate} (now : Time) (o : Order) (ht : g.tenant = some tenant)
    (hu : TenantNote.filterTenant u = some tenant) :
    (TenantNote.note (.orderUpdate u now) (.ok (some o)) g).Knows (.order o.id) := by
  show TenantNote.Knows (ite _ _ _) _
  rw [if_pos (hu.trans ht.symm)]
  exact TenantNote.knows_learn ht

theorem cancelWork_apart {req : AuthedRequest} (ht : g.tenant = some req.tenant) (id : ObjectId)
    (reason : String) (now : Time) :
    tenantMemo.Tracks (fun _ _ => True) (cancelWork req id reason now) g := by
  refine ⟨.inr (.inl ht.symm), fun r _ => ?_⟩
  have hnote := TenantNote.note_extends (.orderUpdate (.cancelUnpaid (ownedOrderFilter req id) reason) now) r g
  obtain e | (_ | cancelled) := r
  · trivial
  · refine ⟨.inr (.inl ht.symm), fun r _ => ?_⟩
    have hnote := TenantNote.note_extends (.orderUpdate (.cancelPaid (ownedOrderFilter req id) reason) now) r g
    obtain e | (_ | cancelled) := r
    · trivial
    · refine ⟨trivial, fun r _ => ?_⟩
      obtain e | (_ | o) := r <;> trivial
    · exact finishCancel_apart (hnote.tenant.trans ht) true (knows_orderUpdate now cancelled ht rfl)
  · exact finishCancel_apart (hnote.tenant.trans ht) false (knows_orderUpdate now cancelled ht rfl)

theorem refundRejection_asks (limits : Limits) (req : AuthedRequest) (id : ObjectId) (windowStart : Time) :
    (refundRejection limits req id windowStart).Issues fun o => ∀ g, TenantNote.may o g := by
  refine (issues_db fun _ => trivial).bind fun found => ?_
  cases found with
  | none => trivial
  | some order =>
    dsimp only
    repeat' split
    all_goals trivial

theorem requestRefundWork_apart (limits : Limits) {req : AuthedRequest} (ht : g.tenant = some req.tenant)
    (id : ObjectId) (reason : String) (now : Time) :
    tenantMemo.Tracks (fun _ _ => True) (requestRefundWork limits req id reason now) g := by
  refine ⟨.inr (.inl ht.symm), fun r _ => ?_⟩
  have hnote := TenantNote.note_extends
    (.orderUpdate (.requestRefund (ownedOrderFilter req id) (refundWindowStart limits now) reason) now) r g
  obtain e | (_ | order) := r
  · trivial
  · refine tracks_extends (Prog.Issues.bind (f := fun e => throw e) ?_ fun _ => trivial) fun _ _ _ => trivial
    exact (refundRejection_asks _ _ _ _).mono fun o ho g' _ => ho g'
  · refine tracks_extends ((issues_db fun g' hg' => ?_).bind fun _ => trivial) fun _ _ _ => trivial
    exact may_event ((hnote.trans hg').tenant.trans ht) _ _

theorem shipmentSeller_asks (req : AuthedRequest) (order : Order) :
    (shipmentSeller req order).Issues fun o => ∀ g, TenantNote.may o g := by
  rw [shipmentSeller]
  split
  · refine (issues_db fun _ => trivial).bind fun ownItem => ?_
    split <;> trivial
  · trivial

theorem upsertShipment_apart {req : AuthedRequest} (ht : g.tenant = some req.tenant) (orderId : ObjectId)
    (value : ShipmentInput) (now : Time) :
    tenantMemo.Tracks (fun _ _ => True) (upsertShipment req orderId value now) g := by
  refine ⟨trivial, fun r _ => ?_⟩
  have hnote := TenantNote.note_extends (.orderFindOne ⟨orderId, req.tenant, none⟩) r g
  obtain e | (_ | order) := r
  · trivial
  · trivial
  · have hknown : (TenantNote.note (.orderFindOne ⟨orderId, req.tenant, none⟩) (.ok (some order)) g).Knows
        (.order order.id) := TenantNote.knows_learnOf ht
    have hlater : ∀ g', (TenantNote.note (.orderFindOne ⟨orderId, req.tenant, none⟩) (.ok (some order)) g).Extends
        g' → g'.tenant = some req.tenant ∧ g'.Knows (.order order.id) :=
      fun g' hg' => ⟨(hnote.trans hg').tenant.trans ht, hg'.knows hknown⟩
    refine tracks_extends ?_ fun _ _ _ => trivial
    dsimp only [Prog.bind, Prog.bind_ok]
    split
    · trivial
    · refine ((shipmentSeller_asks req order).mono fun o ho g' _ => ho g').bind fun seller => ?_
      refine (issues_db fun _ _ => trivial).bind fun existing => ?_
      split
      · trivial
      · refine (issues_db fun g' hg' => hlater g' hg').bind fun stored => ?_
        cases stored with
        | none => trivial
        | some shipment =>
          refine Prog.Issues.bind (advanceOrder_issues_of order now (fun _ _ _ => trivial) (fun _ _ => trivial)
            fun _ _ g' hg' => .inr (.inr (hlater g' hg').2)) fun _ => ?_
          exact (issues_db fun g' hg' => may_event (hlater g' hg').1 _ _).bind fun _ => trivial

/-! ### Checkouts -/

/-- What a checkout has found, and what it would have to undo. -/
def Kept (tenant : String) (refs : List DocRef) (undo : List DbOp) (g : TenantNote) : Prop :=
  g.tenant = some tenant ∧ (∀ ref ∈ refs, g.Knows ref) ∧ ∀ o ∈ undo, TenantNote.may o g

/-- What is left to a checkout that fails. -/
def MayUndo (undo : List DbOp) (g : TenantNote) : Prop := ∀ o ∈ undo, TenantNote.may o g

/-- A step of checkout that goes on from `refs` to what it finds besides. -/
abbrev CheckoutM.Finds (m : CheckoutM α) (tenant : String) (refs : List DocRef) (found : α → List DocRef) :
    Prop := m.Notes tenantMemo (Kept tenant refs) (fun a => Kept tenant (found a)) MayUndo

/-- The documents that the loop has collected. -/
def CheckoutLines.refs (lines : CheckoutLines) : List DocRef :=
  lines.orderItems.map (fun item => .product item.product) ++ lines.reservations.map fun r => .reservation r.id

variable {refs : List DocRef} {undo : List DbOp}

theorem Kept.weaken {refs' : List DocRef} (h : Kept tenant refs undo g) (hsub : refs' ⊆ refs) :
    Kept tenant refs' undo g := ⟨h.1, fun ref href => h.2.1 ref (hsub href), h.2.2⟩

theorem Kept.later {g' : TenantNote} (h : Kept tenant refs undo g) (hg' : g.Extends g') :
    Kept tenant refs undo g' :=
  ⟨hg'.tenant.trans h.1, fun ref href => hg'.knows (h.2.1 ref href), fun o ho => hg'.may (h.2.2 o ho)⟩

theorem Kept.found {more : List DocRef} (h : Kept tenant refs undo g) (hmore : ∀ ref ∈ more, g.Knows ref) :
    Kept tenant (more ++ refs) undo g :=
  ⟨h.1, fun ref href => (List.mem_append.1 href).elim (hmore ref) (h.2.1 ref), h.2.2⟩

/-- A call, with what its reply adds. -/
theorem finds_call (o : DbOp) (more : o.Reply → List DocRef)
    (hmay : ∀ g : TenantNote, g.tenant = some tenant → (∀ ref ∈ refs, g.Knows ref) → TenantNote.may o g)
    (hreply : ∀ a (g : TenantNote), g.tenant = some tenant → ∀ ref ∈ more a,
      (TenantNote.note o (.ok a) g).Knows ref) :
    (attempt (db o)).Finds tenant refs fun a => more a ++ refs := by
  refine .call fun undo g h => ⟨hmay g h.1 h.2.1, fun r _ => ?_⟩
  have hlater := h.later (TenantNote.note_extends o r g)
  cases r with
  | error e => exact hlater.2.2
  | ok a => exact hlater.found (hreply a g h.1)

/-- A call whose reply adds nothing. -/
theorem finds_done {o : DbOp}
    (hmay : ∀ g : TenantNote, g.tenant = some tenant → (∀ ref ∈ refs, g.Knows ref) → TenantNote.may o g) :
    (attempt (db o)).Finds tenant refs fun _ => refs :=
  finds_call o (fun _ => []) hmay fun _ _ _ _ href => by cases href

theorem finds_undo {o : DbOp}
    (hmay : ∀ g : TenantNote, g.tenant = some tenant → (∀ ref ∈ refs, g.Knows ref) → TenantNote.may o g) :
    (pushUndo o).Finds tenant refs fun _ => refs :=
  .pushUndo fun _ g h => ⟨h.1, h.2.1, List.forall_mem_cons.2 ⟨hmay g h.1 h.2.1, h.2.2⟩⟩

theorem finds_throw {e : ApiError} {found : α → List DocRef} :
    (throw e : CheckoutM α).Finds tenant refs found := .throw fun _ _ h => h.2.2

theorem finds_forM {coupon : Option β} {f : β → CheckoutM PUnit}
    (hf : ∀ c, coupon = some c → (f c).Finds tenant refs fun _ => refs) :
    (coupon.forM f).Finds tenant refs fun _ => refs := by
  cases coupon with
  | none => exact .pure fun _ _ h => h
  | some c => exact hf c rfl

theorem reserveItem_finds {req : AuthedRequest} (expiresAt : Time) (item : CartItem) (acc : CheckoutLines) :
    (reserveItem req expiresAt item acc).Finds req.tenant (acc.refs ++ refs) fun acc' => acc'.refs ++ refs := by
  refine CheckoutM.Notes.bind (finds_call (.productReserve item.product req.tenant item.quantity)
    (fun product : Option Product => product.toList.map fun p => .product p.id) (fun _ ht _ => ht) fun product g ht => ?_) fun product => ?_
  · cases product with
    | none => simp
    | some product => exact List.forall_mem_singleton.2 (TenantNote.knows_learnOf ht)
  cases product with
  | none => exact finds_throw
  | some product =>
    refine CheckoutM.Notes.bind (finds_undo fun g _ href => href _ (by simp)) fun _ => ?_
    refine CheckoutM.Notes.bind (finds_call (.reservationCreate ⟨req.user, req.tenant, product.id, item.quantity, expiresAt⟩)
      (fun r : InventoryReservation => [.reservation r.id])
      (fun g ht href => ⟨ht, href _ (by simp)⟩) fun r g ht => ?_) fun r => ?_
    · exact List.forall_mem_singleton.2 (TenantNote.knows_learnOf ht)
    refine CheckoutM.Notes.bind (finds_undo fun g _ href => href _ (by simp)) fun _ => ?_
    refine .pure fun _ _ h => h.weaken ?_
    intro ref href
    simp only [CheckoutLines.refs, List.map_append, List.mem_append, List.map_cons, List.map_nil,
      List.mem_cons, Option.toList_some] at href ⊢
    grind

theorem reserveItems_finds {req : AuthedRequest} (expiresAt : Time) (items : List CartItem)
    (acc : CheckoutLines) :
    (reserveItems req expiresAt items acc).Finds req.tenant (acc.refs ++ refs) fun acc' =>
      acc'.refs ++ refs := by
  induction items generalizing acc with
  | nil => exact .pure fun _ _ h => h
  | cons item rest ih =>
    exact CheckoutM.Notes.bind (reserveItem_finds expiresAt item acc) fun acc' => ih acc'

/-- The coupon that a checkout goes on with is one of its tenant. -/
theorem validateCouponForUser_finds (code : Option String) (user : ObjectId) (subtotalCents : Cents)
    (now : Time) :
    (attempt (validateCouponForUser code user subtotalCents tenant now)).Finds tenant refs fun outcome =>
      outcome.coupon.toList.map (fun c => .coupon c.id) ++ refs := by
  refine .attempt fun undo g h => ?_
  unfold validateCouponForUser
  split
  · exact h
  · next code _ =>
    refine ⟨trivial, fun r _ => ?_⟩
    have hlater := h.later (TenantNote.note_extends (.couponFindOne code tenant) r g)
    obtain e | (_ | coupon) := r
    · exact hlater.2.2
    · exact hlater.2.2
    · have hknown : (TenantNote.note (.couponFindOne code tenant) (.ok (some coupon)) g).Knows
          (.coupon coupon.id) := TenantNote.knows_learnOf h.1
      refine Memo.Tracks.done_bind ?_
      dsimp only
      cases checkCoupon coupon subtotalCents now with
      | error e => exact hlater.2.2
      | ok _ =>
        refine ⟨trivial, fun r _ => ?_⟩
        cases r with
        | error e => exact hlater.2.2
        | ok userUses =>
          refine Memo.Tracks.done_bind ?_
          split
          · exact hlater.2.2
          · exact hlater.found (List.forall_mem_singleton.2 hknown)

theorem claimCoupon_finds {coupon : Coupon} (hcoupon : .coupon coupon.id ∈ refs) :
    (claimCoupon coupon).Finds tenant refs fun _ => refs := by
  refine CheckoutM.Notes.bind (finds_done fun g _ href => href _ hcoupon) fun claimed => ?_
  cases claimed with
  | true => exact finds_undo fun g _ href => href _ hcoupon
  | false => exact finds_throw

theorem placeOrder_finds (limits : Limits) {req : AuthedRequest} (value : CheckoutInput) (now : Time)
    {cart : Cart} :
    (placeOrder limits req value now cart).Finds req.tenant [.cart cart.id] fun _ => [] := by
  unfold placeOrder
  refine CheckoutM.Notes.bind (reserveItems_finds _ _ ⟨[], [], 0⟩) fun lines => ?_
  refine CheckoutM.Notes.bind (validateCouponForUser_finds _ _ _ _) fun outcome => ?_
  have hcoupon : ∀ c, outcome.coupon = some c → DocRef.coupon c.id ∈
      outcome.coupon.toList.map (fun c => .coupon c.id) ++ (lines.refs ++ [DocRef.cart cart.id]) := by
    intro c hc
    simp [hc]
  refine CheckoutM.Notes.bind (finds_forM fun c hc => claimCoupon_finds (hcoupon c hc)) fun _ => ?_
  refine CheckoutM.Notes.bind (finds_call (.orderCreate _ _) (fun o : Order => [.order o.id]) (fun g ht href => ?_)
    fun o g ht => ?_) fun order => ?_
  · refine ⟨ht, fun item hitem => href _ ?_, fun c hc => ?_⟩
    · simp only [CheckoutLines.refs, List.mem_append, List.mem_map]
      exact .inr (.inl (.inl ⟨item, hitem, rfl⟩))
    · obtain ⟨coupon, hcoupon', rfl⟩ := Option.map_eq_some_iff.1 hc
      exact href _ (hcoupon coupon hcoupon')
  · exact List.forall_mem_singleton.2 (TenantNote.knows_learnOf ht)
  refine CheckoutM.Notes.bind (finds_undo fun g _ href => href _ (by simp)) fun _ => ?_
  refine CheckoutM.Notes.bind (finds_done fun g _ href => ⟨fun id hid => href _ ?_, href _ (by simp)⟩) fun _ => ?_
  · obtain ⟨r, hr, rfl⟩ := List.mem_map.1 hid
    simp only [CheckoutLines.refs, List.mem_append, List.mem_map]
    exact .inr (.inr (.inl (.inr ⟨r, hr, rfl⟩)))
  refine CheckoutM.Notes.bind (finds_forM fun c hc => finds_done fun g ht href => ?_) fun _ => ?_
  · exact ⟨ht, href _ (List.mem_append_right _ (hcoupon c hc)), href _ (by simp)⟩
  refine CheckoutM.Notes.bind (finds_done fun g _ href => href _ (by simp)) fun _ => ?_
  exact .pure fun _ _ h => h.weaken (List.nil_subset _)

theorem compensate_apart (hundo : MayUndo undo g) :
    tenantMemo.Tracks (fun _ _ => True) (compensate undo) g := by
  induction undo generalizing g with
  | nil => trivial
  | cons o rest ih =>
    obtain ⟨ho, hrest⟩ := List.forall_mem_cons.1 hundo
    rw [compensate_cons]
    exact ⟨ho, fun r _ => ih fun o' ho' => (TenantNote.note_extends o r g).may (hrest o' ho')⟩

theorem executeCheckout_apart (limits : Limits) {req : AuthedRequest} (ht : g.tenant = some req.tenant)
    (value : CheckoutInput) (now : Time) (session : Bool) :
    tenantMemo.Tracks (fun _ _ => True) (executeCheckout limits req value now session) g := by
  have hsteps : (checkoutSteps limits req value now).Finds req.tenant [] fun _ => [] := by
    refine CheckoutM.Notes.bind (finds_call (.cartFindOne req.user req.tenant)
      (fun cart : Option Cart => cart.toList.map fun c => .cart c.id) (fun _ _ _ => trivial) fun cart g ht => ?_) fun cart => ?_
    · cases cart with
      | none => simp
      | some cart => exact List.forall_mem_singleton.2 (TenantNote.knows_learnOf ht)
    cases cart with
    | none => exact finds_throw
    | some cart =>
      dsimp only
      split
      · exact finds_throw
      · exact placeOrder_finds limits value now
  refine Memo.Tracks.bind ((hsteps [] g ⟨ht, by simp, by simp⟩).weaken ?_)
  rintro r g' ⟨x, undo, rfl, hx⟩
  cases x with
  | ok result => trivial
  | error e =>
    cases session with
    | true => trivial
    | false =>
      refine Memo.Tracks.bind ((compensate_apart hx).weaken fun r _ _ => ?_)
      cases r <;> trivial

/-! ### Handlers -/

theorem tracks_apart {p : Handler α} {f : α → Handler β}
    (h : tenantTxMemo.Tracks (fun _ _ => True) p g)
    (hf : ∀ a g, tenantTxMemo.Tracks (fun _ _ => True) (f a) g) :
    tenantTxMemo.Tracks (fun _ _ => True) (p >>= f) g := by
  refine Memo.Tracks.bind (h.weaken fun r g _ => ?_)
  cases r with
  | ok a => exact hf a g
  | error e => trivial

end Tracks

/-- The tenant that the `auth` middleware attached to a request. -/
def Request.tenant : Request → Option String
  | .checkout req _ _ | .cancel req _ _ _ | .requestRefund req _ _ _ | .shipment req _ _ _ => some req.tenant
  | .webhook _ _ | .sweep _ _ => none

theorem handler_apart (cfg : ServerConfig) (request : Request) :
    tenantTxMemo.Tracks (fun _ _ => True) (request.handler cfg) ⟨request.tenant, []⟩ := by
  cases request with
  | checkout req value now =>
    exact tracks_apart (runInTransaction_tracks fun _ => executeCheckout_apart _ rfl _ _ _) fun _ _ => trivial
  | cancel req id reason now =>
    refine tracks_apart (tracks_apart ?_ fun _ _ => trivial) fun _ _ => trivial
    exact runInTransaction_tracks fun _ => cancelWork_apart rfl _ _ _
  | requestRefund req id reason now =>
    exact tracks_apart (runInTransaction_tracks fun _ => requestRefundWork_apart _ rfl _ _ _)
      fun _ _ => trivial
  | webhook delivery now =>
    exact tracks_apart (tracks_unbound_tx rfl (processWebhook_unbound _ _ _ _)) fun _ _ => trivial
  | sweep now batchSize =>
    refine embed_tracks (tracks_unbound rfl (Prog.Issues.map ?_))
    exact (releaseExpiredReservations_issues _ _).mono fun _ h => DbOp.OfPayment.unbound (.inl h)
  | shipment req orderId value now =>
    exact embed_tracks (Memo.Tracks.bind ((upsertShipment_apart rfl _ _ _).weaken fun r _ _ => by
      cases r <;> trivial))

/-- A handler acts for one tenant to its end. -/
theorem tracks_tenant {α : Type} {p : Handler α} {g : TenantNote}
    (h : tenantTxMemo.Tracks (fun _ _ => True) p g) :
    tenantTxMemo.Tracks (fun _ g' => g'.tenant = g.tenant) p g := by
  induction p generalizing g with
  | done r => rfl
  | call o k ih =>
    refine ⟨h.1, fun r hr => (ih r (h.2 r hr)).weaken fun _ _ hg => hg.trans ?_⟩
    cases o with
    | op o => exact (TenantNote.note_extends o r g).tenant
    | txn work => rfl

theorem tenant_of_tracks {α : Type} {p : Handler α} {g : TenantNote} {tenant : Option String}
    (h : tenantTxMemo.Tracks (fun _ g' => g'.tenant = tenant) p g) : g.tenant = tenant := by
  induction p generalizing g with
  | done r => exact h
  | call o k ih =>
    have hlater := ih _ (h.2 (.error mongo.fault) trivial)
    cases o with
    | op o => exact (TenantNote.note_extends o _ g).tenant.symm.trans hlater
    | txn work => exact hlater

/-! ## Runs -/

/-- The references are inside their tenants, and no number is of two orders. -/
structure Db.Apart (s : Db) : Prop where
  tenanted : s.Tenanted
  numbered : s.Numbered

/-- What a step of a handler with this note does. -/
structure TenantNote.Steps (g : TenantNote) (s t : Db) : Prop where
  apart : t.Apart
  keeps : s.KeepsTenants t
  others : ∀ tenant, g.tenant = some tenant → t.others tenant = s.others tenant

section Runs

variable {s t u : Db} {g h : TenantNote}

theorem TenantNote.Steps.refl (hs : s.Apart) : g.Steps s s := ⟨hs, .refl s, fun _ _ => rfl⟩

theorem TenantNote.Steps.trans (hst : g.Steps s t) (htu : h.Steps t u) (hgh : g.Extends h) :
    g.Steps s u :=
  ⟨htu.apart, hst.keeps.trans htu.keeps, fun tenant ht =>
    (htu.others tenant (hgh.tenant.trans ht)).trans (hst.others tenant ht)⟩

theorem exec_steps (o : DbOp) (ho : TenantNote.may o g) (hg : g.Backed s) (hs : s.Apart) :
    g.Steps s (mongo.exec o s).2 :=
  ⟨⟨exec_tenanted o ho hg hs.tenanted, exec_numbered o hs.numbered⟩, exec_keepsTenants o s,
    fun _ ht => exec_others o ht ho hg hs.tenanted hs.numbered⟩

/-- A transaction is a step of all its calls. -/
theorem transactional_steps (o : TxOp Mongo ApiError) (ho : tenantTxMemo.may o g) (hg : g.Backed s)
    (hs : s.Apart) :
    g.Steps s (mongo.transactional.exec o s).2 ∧
      (tenantTxMemo.note o (mongo.transactional.exec o s).1 g).Backed (mongo.transactional.exec o s).2 := by
  cases o with
  | op o => exact ⟨exec_steps o ho hg hs, exec_backed o hg hs.tenanted hs.numbered⟩
  | txn work =>
    obtain ⟨g', -, -, -, hsteps⟩ := Memo.Tracks.eval (M := mongo)
      (I := fun g' t => g.Extends g' ∧ g'.Backed t ∧ g.Steps s t) ho (fun _ _ => trivial)
      (fun o g' t hmay ⟨hextends, hbacked, hsteps⟩ => ⟨hextends.trans (TenantNote.note_extends o _ g'),
        exec_backed o hbacked hsteps.apart.tenanted hsteps.apart.numbered,
        hsteps.trans (exec_steps o hmay hbacked hsteps.apart) hextends⟩)
      ⟨.refl g, hg, .refl hs⟩
    simp only [Machine.transactional]
    split
    · next heval =>
      rw [heval] at hsteps
      exact ⟨hsteps, hg.move hsteps.keeps⟩
    · exact ⟨.refl hs, hg⟩

variable {cfg : ServerConfig} {start c d : ServerPool} {as : List (Action Request)}

/-- The notes that the handlers have taken are right. -/
structure Separate (c : ServerPool) (gs : List TenantNote) : Prop where
  minutes : tenantTxMemo.Minutes (fun request _ g => g.tenant = request.tenant) c gs
  apart : c.state.Apart
  backed : ∀ g ∈ gs, g.Backed c.state

/-- A call that fails finds nothing. -/
theorem tenantTxMemo_note_error (o : TxOp Mongo ApiError) (e : ApiError) (g : TenantNote) :
    tenantTxMemo.note o (.error e) g = g := by
  cases o with
  | op o => cases o <;> rfl
  | txn work => rfl

/-- What a step of the run does, by the handler that takes it. -/
theorem Separate.step {gs : List TenantNote} {a : Action Request} (h : Separate c gs)
    (hstep : (server cfg).step c a = some d) :
    ∃ gs', Separate d gs' ∧ (d.state = c.state ∨ ∃ i, a = .act i ∧ ∃ g, gs[i]? = some g ∧ g.Steps c.state d.state) := by
  have hcode : ∀ request, a = .spawn request → tenantTxMemo.Tracks (fun _ g => g.tenant = request.tenant)
      ((server cfg).code request) ⟨request.tenant, []⟩ :=
    fun request _ => tracks_tenant (handler_apart cfg request)
  obtain ⟨gs', hminutes', ⟨l, -, rfl, hstate⟩ | ⟨i, o, g, -, hi, hmay, hmove⟩⟩ :=
    h.minutes.step hcode hstep (fun _ => trivial) (fun _ _ _ _ => trivial)
      fun _ _ _ _ _ _ htracks => tenant_of_tracks htracks
  · refine ⟨_, ⟨hminutes', hstate ▸ h.apart, fun g hg => ?_⟩, .inl hstate⟩
    rcases List.mem_append.1 hg with hg | hg
    · exact hstate.symm ▸ h.backed g hg
    · obtain rfl := List.mem_singleton.1 hg
      exact fun _ _ _ href => by cases href
  · have hbacked : ∀ x ∈ gs, x.Backed c.state := h.backed
    have hg := hbacked g (List.mem_of_getElem? hi)
    obtain ⟨rfl, hstate, rfl⟩ | ⟨hstate, rfl⟩ | ⟨hstate, rfl⟩ := hmove
    · obtain ⟨hsteps, hnote⟩ := transactional_steps o hmay hg h.apart
      have hd : g.Steps c.state d.state := hstate ▸ hsteps
      refine ⟨_, ⟨hminutes', hd.apart, fun x hx => ?_⟩, .inr ⟨i, rfl, g, hi, hd⟩⟩
      rcases List.mem_or_eq_of_mem_set hx with hx | rfl
      · exact (hbacked x hx).move hd.keeps
      · exact hstate ▸ hnote
    · refine ⟨_, ⟨hminutes', hstate ▸ h.apart, fun x hx => ?_⟩, .inl hstate⟩
      rcases List.mem_or_eq_of_mem_set hx with hx | rfl
      · exact hstate.symm ▸ hbacked x hx
      · rw [hstate]
        exact (tenantTxMemo_note_error o mongo.fault g).symm ▸ hg
    · exact ⟨_, ⟨hminutes', hstate ▸ h.apart, fun x hx => hstate.symm ▸ hbacked x hx⟩, .inl hstate⟩

theorem run_separate (hstart : start.threads = []) (hapart : start.state.Apart)
    (hrun : (server cfg).Run (fun _ _ => True) start as c) : ∃ gs, Separate c gs := by
  refine hrun.invariant (P := fun c => ∃ gs, Separate c gs) ?_ ⟨[], ?_, hapart, by simp⟩
  · rintro c a d - hstep ⟨gs, hgs⟩
    obtain ⟨gs', hgs', -⟩ := hgs.step hstep
    exact ⟨gs', hgs'⟩
  · simp [Memo.Minutes, hstart]

end Runs

/-- Two tenants, each with a product and a cart. -/
def twoTenants : Db :=
  { sampleDb with
    products := sampleDb.products.insert ⟨1, "u", none, "cup", 5, 3, true, none⟩ rfl
    carts := sampleDb.carts.insert ⟨1, 2, "u", [⟨1, 1⟩], 0⟩ rfl }

theorem twoTenants_apart : twoTenants.Apart := by
  have hnone : ∀ id tenant, ¬ twoTenants.Ordered id tenant := by
    rintro id tenant ⟨o, ho | ho, -⟩ <;> cases ho
  constructor
  · constructor <;> intro x hx <;> cases hx
  · exact ⟨fun id tenant h => (hnone id tenant h).elim, fun id tenant _ h => (hnone id tenant h).elim⟩

/-- Checkouts of both tenants, the first of which has reserved its stock when the second begins. -/
def mixedCheckouts : List (Action Request) :=
  [.spawn (sampleCheckout 0), .act 0, .act 0,
    .spawn (.checkout ⟨2, .user, "u"⟩ ⟨⟨"a", none, "c", "s", "p", "x"⟩, "manual", none⟩ 0), .act 1, .act 1]

/-- In every run, whoever its requests are of and whatever fails, stored references stay inside their
tenants, and documents with their tenants. -/
theorem run_tenanted {cfg : ServerConfig} {start c d : ServerPool} {as bs : List (Action Request)}
    (hstart : start.threads = []) (htenanted : start.state.Tenanted) (hnumbered : start.state.Numbered)
    (hrun : (server cfg).Run (fun _ _ => True) start as c) (hrest : (server cfg).Run (fun _ _ => True) c bs d) :
    d.state.Tenanted ∧ d.state.Numbered ∧ c.state.KeepsTenants d.state := by
  obtain ⟨gs, hgs⟩ := run_separate hstart ⟨htenanted, hnumbered⟩ hrun
  have hinv := hrest.invariant
    (P := fun d => (∃ gs, Separate d gs) ∧ c.state.KeepsTenants d.state) ?_ ⟨⟨gs, hgs⟩, .refl _⟩
  · obtain ⟨⟨gs', hgs'⟩, hkeeps⟩ := hinv
    exact ⟨hgs'.apart.tenanted, hgs'.apart.numbered, hkeeps⟩
  · rintro d a e - hstep ⟨⟨gs, hgs⟩, hkeeps⟩
    obtain ⟨gs', hgs', hstate | ⟨i, -, g, -, hsteps⟩⟩ := hgs.step hstep
    · exact ⟨⟨gs', hgs'⟩, hstate ▸ hkeeps⟩
    · exact ⟨⟨gs', hgs'⟩, hkeeps.trans hsteps.keeps⟩

theorem run_tenanted_mixed : ∃ c d : ServerPool,
    (server (sampleConfig .standalone)).play (fun _ _ => true) ⟨twoTenants, []⟩ mixedCheckouts = some c ∧
      (server (sampleConfig .standalone)).play (fun _ _ => true) c
        [.act 0, .act 1, .act 0, .act 1, .kill 1, .act 0, .act 0] = some d ∧
      d.state.orders.docs.map (·.tenant) = ["t", "u"] ∧ d.state.Tenanted := by
  obtain ⟨c, hc, h⟩ := (Option.any_eq_true _ _).1 (by decide +kernel :
    ((server (sampleConfig .standalone)).play (fun _ _ => true) ⟨twoTenants, []⟩ mixedCheckouts).any fun c =>
      ((server (sampleConfig .standalone)).play (fun _ _ => true) c
        [.act 0, .act 1, .act 0, .act 1, .kill 1, .act 0, .act 0]).any fun d =>
          decide (d.state.orders.docs.map (·.tenant) = ["t", "u"]))
  obtain ⟨d, hd, h⟩ := (Option.any_eq_true _ _).1 h
  obtain ⟨htenanted, -, -⟩ := run_tenanted rfl twoTenants_apart.tenanted twoTenants_apart.numbered
    ((System.Run.of_play hc).mono fun _ _ _ => trivial) ((System.Run.of_play hd).mono fun _ _ _ => trivial)
  exact ⟨c, d, hc, hd, of_decide_eq_true h, htenanted⟩

/-- And a step of a tenant's request leaves all that is not of the tenant as it is. -/
theorem run_step_others {cfg : ServerConfig} {start c d : ServerPool} {as : List (Action Request)}
    {i : Nat} {t : Thread (Mongo.tx ApiError) ApiError Response Request} {tenant : String}
    (hstart : start.threads = []) (htenanted : start.state.Tenanted) (hnumbered : start.state.Numbered)
    (hrun : (server cfg).Run (fun _ _ => True) start as c) (hthread : c.threads[i]? = some t)
    (htenant : t.label.tenant = some tenant) (hstep : (server cfg).step c (.act i) = some d) :
    d.state.others tenant = c.state.others tenant := by
  obtain ⟨gs, hgs⟩ := run_separate hstart ⟨htenanted, hnumbered⟩ hrun
  obtain ⟨gs', hgs', hstate | ⟨j, hj, g, hi, hsteps⟩⟩ := hgs.step hstep
  · rw [hstate]
  · obtain rfl : i = j := by simpa using hj
    obtain ⟨g', hg', htracks⟩ := hgs.minutes.memo hthread
    obtain rfl := Option.some_inj.1 (hi.symm.trans hg')
    exact hsteps.others tenant ((tenant_of_tracks htracks).trans htenant)

theorem run_step_others_mixed : ∃ c d : ServerPool,
    (server (sampleConfig .standalone)).play (fun _ _ => true) ⟨twoTenants, []⟩ mixedCheckouts = some c ∧
      (server (sampleConfig .standalone)).step c (.act 0) = some d ∧
      c.state.reservations.docs.length < d.state.reservations.docs.length ∧
      d.state.others "t" = c.state.others "t" := by
  obtain ⟨c, hc, h⟩ := (Option.any_eq_true _ _).1 (by decide +kernel :
    ((server (sampleConfig .standalone)).play (fun _ _ => true) ⟨twoTenants, []⟩ mixedCheckouts).any fun c =>
      (c.threads[0]?.any fun t => decide (t.label.tenant = some "t")) &&
        ((server (sampleConfig .standalone)).step c (.act 0)).any fun d =>
          decide (c.state.reservations.docs.length < d.state.reservations.docs.length))
  obtain ⟨ht, hd⟩ := Bool.and_eq_true_iff.1 h
  obtain ⟨t, hthread, htenant⟩ := (Option.any_eq_true _ _).1 ht
  obtain ⟨d, hstep, hgrows⟩ := (Option.any_eq_true _ _).1 hd
  exact ⟨c, d, hc, hstep, of_decide_eq_true hgrows, run_step_others rfl twoTenants_apart.tenanted
    twoTenants_apart.numbered ((System.Run.of_play hc).mono fun _ _ _ => trivial) hthread
    (of_decide_eq_true htenant) hstep⟩

end Ecommerce
