import Ecommerce.Checkout.Notes
import Ecommerce.Orders.Returns

/-!
# Where reservations come back

Every handler but a sweep gives a reservation back only when its note says that the order is closed, or
that there is no order. So in every state of every run, what has come back is of closed orders, or of
checkouts that never got to an order.
-/

namespace Ecommerce

open Effect Effect.Collection

/-! ## The handlers -/

/-- The memo of a handler's calls. Calls may fail, except the one by which a checkout deletes its order. -/
def returnMemo : Memo Mongo ApiError ReturnNote where
  note := ReturnNote.note
  may := ReturnNote.may
  allows o r := (∃ s, r = (mongo.exec o s).1) ∨ (∃ e, r = .error e) ∧ ∀ k, o ≠ .orderDelete k

/-- The memo of a handler, whose transactions go on from it. -/
def returnTxMemo : Memo (Mongo.tx ApiError) ApiError ReturnNote where
  note
    | .op o, r, g => ReturnNote.note o r g
    | .txn _, _, g => g
  may
    | .op o, g => ReturnNote.may o g
    | .txn work, g => g.made = [] ∧ returnMemo.Tracks (fun _ _ => True) work g
  allows
    | .op o, r => returnMemo.allows o r
    | .txn _, _ => True

/-- Within a transaction that began in `s`: what its checkout has made was not there before. -/
structure ReturnNote.Inside (s : Db) (g : ReturnNote) (t : Db) : Prop where
  backed : g.Backed t
  returned : t.Returned
  onward : s.Onward (fun id => s.reservations.get? id = none) t
  fresh : ∀ id ∈ g.made, s.reservations.get? id = none

theorem ReturnNote.Inside.exec {s t : Db} {g : ReturnNote} (h : g.Inside s t) (o : DbOp)
    (ho : ReturnNote.may o g) :
    (ReturnNote.note o (mongo.exec o t).1 g).Inside s (mongo.exec o t).2 := by
  have hnext := ReturnNote.exec_returns o ho h.backed h.returned
  have hnew : ∀ id, t.reservations.get? id = none → s.reservations.get? id = none := by
    intro id hid
    cases hx : s.reservations.get? id with
    | none => rfl
    | some x =>
      obtain ⟨y, hy, -⟩ := h.onward.rows id x hx
      cases hy.symm.trans hid
  refine ⟨hnext.backed, hnext.returned, h.onward.trans hnext.onward fun id hid => ?_, fun id hid => ?_⟩
  · exact hid.elim (h.fresh id) (hnew id)
  · exact (hnext.made id hid).elim (h.fresh id) (hnew id)

/-- A transaction is a step of all its calls. -/
theorem transactional_returns (o : TxOp Mongo ApiError) {g : ReturnNote} {s : Db}
    (ho : returnTxMemo.may o g) (hg : g.Backed s) (hs : s.Returned) :
    g.Moves s (returnTxMemo.note o (mongo.transactional.exec o s).1 g)
      (mongo.transactional.exec o s).2 := by
  cases o with
  | op o => exact ReturnNote.exec_returns o ho hg hs
  | txn work =>
    obtain ⟨hmade, htracks⟩ := ho
    have hstart : g.Inside s s := ⟨hg, hs, .refl s, by simp [hmade]⟩
    obtain ⟨g', -, hinside⟩ := htracks.eval (M := mongo) (fun o s => .inl ⟨s, rfl⟩)
      (fun o g' t ho h => ReturnNote.Inside.exec h o ho) hstart
    simp only [Machine.transactional]
    split
    · next heval =>
      rw [heval] at hinside
      refine ⟨hg.move hinside.onward ?_, hinside.returned, hinside.onward.mono fun _ => .inr, fun _ => .inl⟩
      simp [hmade]
    · exact hg.untouched hs rfl rfl rfl

section Tracks

variable {α β : Type} {g : ReturnNote} {Q : Except ApiError α → ReturnNote → Prop}

/-- Calls that every note lets a handler make. -/
def DbOp.Unchecked (o : DbOp) : Prop := ∀ g, ReturnNote.may o g

theorem DbOp.Quiet.unchecked {o : DbOp} (h : o.Quiet) : o.Unchecked := by
  intro g
  cases o <;> first | exact trivial | exact h.elim

theorem DbOp.OfFulfilment.unchecked {o : DbOp} (h : o.OfFulfilment) : o.Unchecked := by
  rcases h with h | h
  · exact h.unchecked
  · cases o <;> first | exact fun _ => OrderUpdate.Plain.legal h | exact fun _ => trivial | exact h.elim

theorem tracks_unchecked {p : MongoM α} (h : p.Issues DbOp.Unchecked) (hQ : ∀ r g, Q r g) :
    returnMemo.Tracks Q p g :=
  Memo.tracks_invariant (P := fun _ => True) h (fun _ g ho _ => ho g) (fun _ _ _ _ _ => trivial)
    (fun r g _ => hQ r g) trivial

/-- What the update of an order replies. -/
theorem allows_orderUpdate {u : OrderUpdate} {now : Time} {o : Order}
    (h : returnMemo.allows (.orderUpdate u now) (.ok (some o))) :
    ∃ x, u.guard x ∧ x.id = u.id ∧ o = u.apply now x := by
  obtain ⟨s, hs⟩ | ⟨⟨e, he⟩, -⟩ := h
  · obtain ⟨x, hx, hguard, heq⟩ | ⟨-, heq⟩ := exec_orderUpdate u now s
    · rw [heq] at hs
      exact ⟨x, hguard, get?_key hx, Option.some_inj.1 (Except.ok.inj hs)⟩
    · rw [heq] at hs
      cases hs
  · cases he

theorem releaseReservation_returns {id : ObjectId} {status : ReservationStatus}
    {fromStatuses : List ReservationStatus} (hid : id ∈ g.found) :
    returnMemo.Tracks (fun _ g' => g' = g) (releaseReservation id status fromStatuses) g := by
  refine ⟨trivial, fun r hr => ?_⟩
  obtain e | (_ | x) := r
  · rfl
  · rfl
  · refine ⟨?_, fun r _ => ?_⟩
    · have hx : x.id = id := by
        obtain ⟨s, hs⟩ | ⟨⟨e, he⟩, -⟩ := hr
        · simp only [mongo, Db.exec] at hs
          split at hs
          · next y hy =>
            split at hs
            · obtain rfl := Option.some_inj.1 (Except.ok.inj hs)
              exact get?_key hy
            · cases hs
          · cases hs
        · cases he
      exact hx.symm ▸ hid
    · cases r <;> rfl

theorem releaseEach_returns {status : ReservationStatus} (ids : List ObjectId) (released : Nat)
    (hids : ∀ id ∈ ids, id ∈ g.found) :
    returnMemo.Tracks (fun _ _ => True) (releaseEach status ids released) g := by
  induction ids generalizing released with
  | nil => trivial
  | cons id rest ih =>
    refine Memo.Tracks.bind ((releaseReservation_returns (hids id (by simp))).weaken ?_)
    rintro (e | freed) _ rfl
    · trivial
    · exact ih _ fun i hi => hids i (by simp [hi])

theorem releaseOrderReservations_returns {k : ObjectId} {status : ReservationStatus}
    (hk : k ∈ g.closed) :
    returnMemo.Tracks (fun _ _ => True) (releaseOrderReservations k status) g := by
  refine ⟨trivial, fun r _ => ?_⟩
  cases r with
  | error e => trivial
  | ok ids =>
    revert ids
    intro (ids : List ObjectId) _
    show returnMemo.Tracks _ (releaseEach status ids 0) (if k ∈ g.closed then _ else g)
    rw [if_pos hk]
    exact releaseEach_returns ids 0 fun id hid => List.mem_append_left _ hid

theorem finishCancel_returns (tenant : String) {cancelled : Order} (refundOpened : Bool)
    (hclosed : cancelled.id ∈ g.closed) :
    returnMemo.Tracks (fun _ _ => True) (finishCancel tenant cancelled refundOpened) g := by
  refine Memo.Tracks.bind ((releaseOrderReservations_returns hclosed).weaken ?_)
  rintro (e | released) g' -
  · trivial
  · refine tracks_unchecked ((issues_db fun _ => trivial).bind fun _ => ?_) fun _ _ => trivial
    cases refundOpened with
    | false => trivial
    | true => exact (issues_db fun _ => trivial).bind fun _ => trivial

theorem mem_closed_saw {o : Order} (h : o.Closed) : o.id ∈ (g.saw o).closed := by
  rw [ReturnNote.saw, if_pos h]
  exact List.mem_cons_self

theorem cancelWork_returns (req : AuthedRequest) (id : ObjectId) (reason : String) (now : Time) :
    returnMemo.Tracks (fun _ _ => True) (cancelWork req id reason now) g := by
  refine ⟨(trivial : (OrderUpdate.cancelUnpaid _ _).Legal), fun r hr => ?_⟩
  obtain e | (_ | unpaid) := r
  · trivial
  · refine ⟨(trivial : (OrderUpdate.cancelPaid _ _).Legal), fun r hr => ?_⟩
    obtain e | (_ | paid) := r
    · trivial
    · refine ⟨trivial, fun r _ => ?_⟩
      obtain e | (_ | found) := r <;> trivial
    · obtain ⟨x, -, -, rfl⟩ := allows_orderUpdate hr
      exact finishCancel_returns _ _ (mem_closed_saw (.inr (.inr rfl)))
  · obtain ⟨x, -, -, rfl⟩ := allows_orderUpdate hr
    exact finishCancel_returns _ _ (mem_closed_saw (.inr (.inr rfl)))

theorem requestRefundWork_returns (limits : Limits) (req : AuthedRequest) (id : ObjectId)
    (reason : String) (now : Time) :
    returnMemo.Tracks (fun _ _ => True) (requestRefundWork limits req id reason now) g := by
  refine ⟨(trivial : (OrderUpdate.requestRefund _ _ _).Legal), fun r _ => ?_⟩
  obtain e | (_ | order) := r
  · trivial
  · refine tracks_unchecked (Prog.Issues.bind (f := fun e => throw e) ?_ fun _ => trivial) fun _ _ => trivial
    exact (refundRejection_issues _ _ _ _).mono fun _ h => h.unchecked
  · exact tracks_unchecked ((issues_db fun _ => trivial).bind fun _ => trivial) fun _ _ => trivial

/-! ### Webhooks -/

theorem closed_of_target {o : Order} {type : WebhookType} (htarget : o.paymentStatus = TARGET_STATE type)
    (hpaid : TARGET_STATE type ≠ .paid) : o.Closed := by
  cases type with
  | paymentSucceeded => exact absurd rfl hpaid
  | paymentFailed => exact .inl htarget
  | paymentRefunded => exact .inr (.inl htarget)

theorem settleWebhook_returns (cfg : WebhookConfig) (d : Delivery) (eventId : String) {order : ObjectId}
    {type : WebhookType} (current : Order) (hclosed : TARGET_STATE type ≠ .paid → order ∈ g.closed) :
    returnMemo.Tracks (fun _ _ => True) (settleWebhook cfg d eventId order type current) g := by
  have hcreate : (db (.paymentCreateEvent (webhookEvent cfg d eventId order type))).Issues DbOp.Unchecked :=
    issues_db fun _ => trivial
  rw [settleWebhook]
  split
  · refine tracks_unchecked (Prog.Issues.bind (issues_db fun _ => trivial) fun _ => ?_) fun _ _ => trivial
    exact hcreate.bind fun _ => trivial
  · next hnot =>
    refine Memo.Tracks.bind ((releaseOrderReservations_returns (hclosed hnot)).weaken ?_)
    rintro (e | released) g' -
    · trivial
    · exact tracks_unchecked (hcreate.bind fun _ => trivial) fun _ _ => trivial

theorem webhookWork_returns (cfg : WebhookConfig) (d : Delivery) (eventId : String) {order : Order}
    {body : WebhookBody} (now : Time) (hpayable : Payable (some (order, body)))
    (hread : order.Closed → order.id ∈ g.closed) :
    returnMemo.Tracks (fun _ _ => True) (webhookWork cfg d eventId order body now) g := by
  obtain ⟨hassert, hcancelled⟩ := hpayable order body rfl
  rw [webhookWork]
  split
  · next hne =>
    refine ⟨webhookTransition_legal d.providerName hne hassert hcancelled, fun r hr => ?_⟩
    obtain e | (_ | transitioned) := r
    · trivial
    · trivial
    · obtain ⟨x, -, hid, rfl⟩ := allows_orderUpdate hr
      refine settleWebhook_returns _ _ _ _ fun hnot => ?_
      have hclosed : ((OrderUpdate.transition (webhookTransition order d.providerName body)).apply
        now x).Closed := closed_of_target (by rfl) hnot
      have hsaw := mem_closed_saw (g := g) hclosed
      rw [OrderUpdate.apply_id, hid] at hsaw
      exact hsaw
  · next heq =>
    exact settleWebhook_returns _ _ _ _ fun hnot => hread (closed_of_target (not_not.1 heq) hnot)

/-- Besides what it had seen, a handler knows whether the order that it goes on with is closed. -/
theorem readWebhook_returns (cfg : WebhookConfig) (d : Delivery) (eventId : String) (hmade : g.made = []) :
    returnMemo.Tracks (fun r g => g.made = [] ∧ ∀ order body, r = .ok (some (order, body)) →
      order.Closed → order.id ∈ g.closed) (readWebhook cfg d eventId) g := by
  have hthrow {g : ReturnNote} (hg : g.made = []) (e : ApiError) :
      g.made = [] ∧ ∀ (order : Order) (body : WebhookBody),
        (.error e : Except ApiError (Option (Order × WebhookBody))) = .ok (some (order, body)) →
        order.Closed → order.id ∈ g.closed :=
    ⟨hg, fun _ _ h => by cases h⟩
  refine ⟨trivial, fun r _ => ?_⟩
  obtain e | (_ | event) := r
  · exact hthrow hmade e
  · refine Memo.Tracks.done_bind (a := none) ?_
    dsimp only
    cases cfg.parseBody d.rawPayload with
    | none => exact hthrow hmade _
    | some body =>
      refine ⟨trivial, fun r _ => ?_⟩
      obtain e | (_ | order) := r
      · exact hthrow hmade e
      · exact hthrow hmade _
      · have hsaw : (g.saw order).made = [] := by
          unfold ReturnNote.saw
          split <;> exact hmade
        refine ⟨trivial, fun r _ => ?_⟩
        cases r with
        | error e => exact hthrow hsaw e
        | ok tenant =>
          show returnMemo.Tracks _ (ite _ _ _) (g.saw order)
          split
          · refine ⟨trivial, fun r _ => ?_⟩
            cases r <;> exact hthrow hsaw _
          · show returnMemo.Tracks _ (ite _ _ _) _
            split
            · refine ⟨trivial, fun r _ => ?_⟩
              cases r <;> exact hthrow hsaw _
            · cases assertPaymentTransition order.paymentStatus (TARGET_STATE body.type) with
              | error e => exact hthrow hsaw e
              | ok u =>
                refine ⟨hsaw, fun o b hr hclosed => ?_⟩
                cases hr
                exact mem_closed_saw hclosed
  · exact ⟨hmade, fun _ _ h => by cases h⟩

/-! ### Checkouts -/

/-- An undo of what a checkout does before its order, for the reservations it has made. -/
def DbOp.UndoFor (made : List ObjectId) : DbOp → Prop
  | .reservationUndo id => id ∈ made
  | .productUnreserve .. | .couponUnclaim _ => True
  | _ => False

/-- Before the order: what is to be undone is of the checkout's own. -/
def Gathered (undo : List DbOp) (g : ReturnNote) : Prop :=
  g.stage = .gathering ∧ ∀ o ∈ undo, o.UndoFor g.made

/-- After it: the order is the first to be undone. -/
def Ordered (k : ObjectId) (undo : List DbOp) (g : ReturnNote) : Prop :=
  ∃ rest, undo = .orderDelete k :: rest ∧ ∀ o ∈ rest, o.UndoFor g.made

/-- Where a checkout may fail. -/
def Fails (undo : List DbOp) (g : ReturnNote) : Prop :=
  Gathered undo g ∨ ∃ k, (g.stage = .placed k ∨ g.stage = .linked k) ∧ Ordered k undo g

/-- A step of checkout that takes the note from `P` to `Q`, or fails. -/
abbrev CheckoutM.Gathers (m : CheckoutM α) (P : List DbOp → ReturnNote → Prop)
    (Q : α → List DbOp → ReturnNote → Prop) : Prop := m.Notes returnMemo P Q Fails

/-- The reservations that the loop has collected have been made. -/
def CheckoutLines.Reserved (lines : CheckoutLines) (undo : List DbOp) (g : ReturnNote) : Prop :=
  Gathered undo g ∧ lines.reservations.map (·.id) ⊆ g.made

theorem DbOp.UndoFor.mono {made made' : List ObjectId} (h : made ⊆ made') {o : DbOp}
    (ho : o.UndoFor made) : o.UndoFor made' := by
  cases o <;> first | exact h ho | trivial

theorem reserveItem_gathers (req : AuthedRequest) (expiresAt : Time) (item : CartItem)
    (acc : CheckoutLines) :
    (reserveItem req expiresAt item acc).Gathers acc.Reserved fun acc' => acc'.Reserved := by
  refine CheckoutM.Notes.bind (Q := fun _ => acc.Reserved) (.call fun undo g h => ⟨trivial, fun r _ => ?_⟩)
    fun product => ?_
  · cases r with
    | error e => exact .inl h.1
    | ok product => exact h
  cases product with
  | none => exact .throw fun _ _ h => .inl h.1
  | some product =>
    refine CheckoutM.Notes.bind (Q := fun _ => acc.Reserved) (.pushUndo fun undo g h => ?_) fun _ => ?_
    · exact ⟨⟨h.1.1, List.forall_mem_cons.2 ⟨trivial, h.1.2⟩⟩, h.2⟩
    refine CheckoutM.Notes.bind (Q := fun (reservation : InventoryReservation) undo g =>
      acc.Reserved undo g ∧ reservation.id ∈ g.made) (.call fun undo g h => ⟨trivial, fun r _ => ?_⟩)
      fun reservation => ?_
    · cases r with
      | error e => exact .inl h.1
      | ok reservation =>
        have hmore : g.made ⊆ reservation.id :: g.made := List.subset_cons_self _ _
        refine ⟨⟨⟨h.1.1, fun o ho => (h.1.2 o ho).mono hmore⟩, fun id hid => hmore (h.2 hid)⟩, ?_⟩
        exact List.mem_cons_self
    refine CheckoutM.Notes.bind (Q := fun _ undo g => acc.Reserved undo g ∧ reservation.id ∈ g.made)
      (.pushUndo fun undo g h => ?_) fun _ => .pure fun undo g h => ⟨h.1.1, ?_⟩
    · exact ⟨⟨⟨h.1.1.1, List.forall_mem_cons.2 ⟨h.2, h.1.1.2⟩⟩, h.1.2⟩, h.2⟩
    · intro id hid
      obtain ⟨r, hr, rfl⟩ := List.mem_map.1 hid
      rcases List.mem_append.1 hr with hr | hr
      · exact h.1.2 (List.mem_map_of_mem hr)
      · obtain rfl := List.mem_singleton.1 hr
        exact h.2

theorem reserveItems_gathers (req : AuthedRequest) (expiresAt : Time) (items : List CartItem)
    (acc : CheckoutLines) :
    (reserveItems req expiresAt items acc).Gathers acc.Reserved fun acc' => acc'.Reserved := by
  induction items generalizing acc with
  | nil => exact .pure fun _ _ h => h
  | cons item rest ih =>
    exact CheckoutM.Notes.bind (reserveItem_gathers req expiresAt item acc) fun acc' => ih acc'

theorem claimCoupon_gathers (coupon : Coupon) (lines : CheckoutLines) :
    (claimCoupon coupon).Gathers lines.Reserved fun _ => lines.Reserved := by
  refine CheckoutM.Notes.bind (Q := fun _ => lines.Reserved) (.call fun undo g h => ⟨trivial, fun r _ => ?_⟩)
    fun claimed => ?_
  · cases r with
    | error e => exact .inl h.1
    | ok claimed => exact h
  cases claimed with
  | true => exact .pushUndo fun undo g h => ⟨⟨h.1.1, List.forall_mem_cons.2 ⟨trivial, h.1.2⟩⟩, h.2⟩
  | false => exact .throw fun _ _ h => .inl h.1

/-- A call that the note is silent about, once the order is linked. -/
theorem linked_gathers {o : DbOp} {k : ObjectId} (h : returnMemo.Unnoted o) :
    (attempt (db o)).Gathers (fun undo g => g.stage = .linked k ∧ Ordered k undo g)
      fun _ undo g => g.stage = .linked k ∧ Ordered k undo g :=
  .unnoted (issues_db h) (fun _ _ _ h => h) fun _ _ h => .inr ⟨k, .inr h.1, h.2⟩

theorem placeOrder_gathers (limits : Limits) (req : AuthedRequest) (value : CheckoutInput) (now : Time)
    (cart : Cart) :
    (placeOrder limits req value now cart).Gathers Gathered fun _ _ _ => True := by
  unfold placeOrder
  refine CheckoutM.Notes.bind (Q := fun (lines : CheckoutLines) => lines.Reserved)
    (fun undo g hg => reserveItems_gathers req _ cart.items _ undo g ⟨hg, by simp⟩) fun lines => ?_
  refine CheckoutM.Notes.bind (Q := fun _ => lines.Reserved) (.unnoted
    (validateCouponForUser_asks (fun _ _ _ => ⟨trivial, fun _ => rfl⟩) (fun _ _ _ => ⟨trivial, fun _ => rfl⟩)
      _ _ _ _ _) (fun _ _ _ h => h) fun _ _ h => .inl h.1) fun outcome => ?_
  refine CheckoutM.Notes.bind (.forM fun coupon => claimCoupon_gathers coupon lines) fun _ => ?_
  refine CheckoutM.Notes.bind (Q := fun (order : Order) undo g => g.stage = .placed order.id ∧
    (∀ o ∈ undo, o.UndoFor g.made) ∧ lines.reservations.map (·.id) ⊆ g.made)
    (.call fun undo g h => ⟨h.1.1, fun r _ => ?_⟩) fun order => ?_
  · cases r with
    | error e => exact .inl h.1
    | ok order => exact ⟨rfl, h.1.2, h.2⟩
  refine CheckoutM.Notes.bind (Q := fun _ undo g => g.stage = .placed order.id ∧ Ordered order.id undo g ∧
    lines.reservations.map (·.id) ⊆ g.made) (.pushUndo fun undo g h => ?_) fun _ => ?_
  · exact ⟨h.1, ⟨undo, rfl, h.2.1⟩, h.2.2⟩
  refine CheckoutM.Notes.bind (Q := fun _ undo g => g.stage = .linked order.id ∧ Ordered order.id undo g)
    (.call fun undo g h => ⟨⟨h.1, h.2.2⟩, fun r _ => ?_⟩) fun _ => ?_
  · cases r with
    | error e => exact .inr ⟨_, .inl h.1, h.2.1⟩
    | ok _ => exact ⟨rfl, h.2.1⟩
  refine CheckoutM.Notes.bind (.forM fun coupon => linked_gathers fun _ => ⟨trivial, fun _ => rfl⟩)
    fun _ => ?_
  refine CheckoutM.Notes.bind (linked_gathers fun _ => ⟨trivial, fun _ => rfl⟩) fun _ => ?_
  exact .pure fun _ _ _ => trivial

/-- The undo calls that are left once there is no order. -/
theorem compensate_returns {undo : List DbOp} (hstage : g.stage = .gathering ∨ g.stage = .undoing)
    (hundo : ∀ o ∈ undo, o.UndoFor g.made) :
    returnMemo.Tracks (fun _ _ => True) (compensate undo) g := by
  induction undo generalizing g with
  | nil => trivial
  | cons o rest ih =>
    obtain ⟨ho, hrest⟩ := List.forall_mem_cons.1 hundo
    rw [compensate_cons]
    cases o with
    | reservationUndo id =>
      refine ⟨⟨hstage, ho⟩, fun r _ => ?_⟩
      cases r with
      | error e => exact ih hstage hrest
      | ok _ => exact ih (g := { g with stage := .undoing }) (.inr rfl) hrest
    | productUnreserve id quantity => exact ⟨trivial, fun _ _ => ih hstage hrest⟩
    | couponUnclaim id => exact ⟨trivial, fun _ _ => ih hstage hrest⟩
    | _ => exact ho.elim

theorem Fails.compensate {undo : List DbOp} (h : Fails undo g) :
    returnMemo.Tracks (fun _ _ => True) (Ecommerce.compensate undo) g := by
  obtain ⟨hstage, hundo⟩ | ⟨k, hstage, rest, rfl, hundo⟩ := h
  · exact compensate_returns (.inl hstage) hundo
  · rw [compensate_cons]
    refine ⟨hstage, fun r hr => ?_⟩
    cases r with
    | error e =>
      obtain ⟨s, hs⟩ | ⟨-, hne⟩ := hr
      · cases hs
      · exact absurd rfl (hne k)
    | ok _ => exact compensate_returns (g := { g with stage := .undoing }) (.inr rfl) hundo

theorem executeCheckout_returns (limits : Limits) (req : AuthedRequest) (value : CheckoutInput)
    (now : Time) (session : Bool) (hg : g.stage = .gathering) :
    returnMemo.Tracks (fun _ _ => True) (executeCheckout limits req value now session) g := by
  have hsteps : (checkoutSteps limits req value now).Gathers Gathered fun _ _ _ => True := by
    refine CheckoutM.Notes.bind (Q := fun _ => Gathered) (.call fun undo g h => ⟨trivial, fun r _ => ?_⟩)
      fun found => ?_
    · cases r with
      | error e => exact .inl h
      | ok found => exact h
    cases found with
    | none => exact .throw fun _ _ => .inl
    | some cart =>
      dsimp only
      split
      · exact .throw fun _ _ => .inl
      · exact placeOrder_gathers limits req value now cart
  refine Memo.Tracks.bind ((hsteps [] g ⟨hg, by simp⟩).weaken ?_)
  rintro r g' ⟨x, undo, rfl, hx⟩
  cases x with
  | ok result => trivial
  | error e =>
    cases session with
    | true => trivial
    | false =>
      refine Memo.Tracks.bind ((Fails.compensate hx).weaken fun r _ _ => ?_)
      cases r <;> trivial

/-! ### Requests -/

theorem embed_returns {p : MongoM α} (h : returnMemo.Tracks Q p g) : returnTxMemo.Tracks Q p.embed g :=
  h.embed (fun _ _ _ => rfl) (fun _ _ h => h) fun _ _ h => h

theorem runInTransaction_returns {deployment : Deployment} {work : Bool → MongoM α} (hmade : g.made = [])
    (h : ∀ session, returnMemo.Tracks (fun _ _ => True) (work session) g) :
    returnTxMemo.Tracks (fun _ _ => True) (runInTransaction deployment work) g := by
  cases deployment with
  | replicaSet => exact ⟨⟨hmade, h true⟩, fun _ _ => trivial⟩
  | standalone => exact embed_returns (h false)

theorem tracks_then {p : Handler α} {f : α → Handler β}
    (h : returnTxMemo.Tracks (fun _ _ => True) p g)
    (hf : ∀ a g, returnTxMemo.Tracks (fun _ _ => True) (f a) g) :
    returnTxMemo.Tracks (fun _ _ => True) (p >>= f) g := by
  refine Memo.Tracks.bind (h.weaken fun r g _ => ?_)
  cases r with
  | ok a => exact hf a g
  | error e => trivial

theorem embed_unchecked {p : MongoM α} (h : p.Issues DbOp.Unchecked) :
    returnTxMemo.Tracks (fun _ _ => True) p.embed g :=
  embed_returns (tracks_unchecked h fun _ _ => trivial)

theorem handler_returns (cfg : ServerConfig) {request : Request} (hsweep : request.isSweep = false) :
    returnTxMemo.Tracks (fun _ _ => True) (request.handler cfg) .blank := by
  cases request with
  | checkout req value now =>
    exact tracks_then (runInTransaction_returns rfl fun _ => executeCheckout_returns _ _ _ _ _ rfl)
      fun _ _ => trivial
  | cancel req id reason now =>
    refine tracks_then (tracks_then ?_ fun _ _ => trivial) fun _ _ => trivial
    exact runInTransaction_returns rfl fun _ => cancelWork_returns _ _ _ _
  | requestRefund req id reason now =>
    exact tracks_then (runInTransaction_returns rfl fun _ => requestRefundWork_returns _ _ _ _ _)
      fun _ _ => trivial
  | webhook delivery now =>
    refine tracks_then ?_ fun _ _ => trivial
    rw [processWebhook]
    split
    · trivial
    · next eventId _ =>
      have hread := embed_returns ((readWebhook_returns cfg.webhook delivery eventId (g := .blank) rfl).yields
        (readWebhook_yields cfg.webhook delivery eventId))
      refine Memo.Tracks.bind (hread.weaken fun r g hg => ?_)
      obtain ⟨⟨hmade, hclosed⟩, hpayable⟩ := hg
      obtain e | (_ | ⟨order, body⟩) := r
      · trivial
      · trivial
      · refine tracks_then (runInTransaction_returns hmade fun _ => ?_) fun updated g => ?_
        · exact webhookWork_returns _ _ _ now (hpayable _ rfl) (hclosed order body rfl)
        · exact tracks_then (embed_unchecked ((afterWebhook_issues _ _).mono fun _ h => h.unchecked))
            fun _ _ => trivial
  | sweep now batchSize => cases hsweep
  | shipment req orderId value now =>
    exact embed_unchecked
      (Prog.Issues.map ((upsertShipment_issues _ _ _ _).mono fun _ h => h.unchecked))

end Tracks

/-! ## Runs -/

/-- What the notes say is so, and no reservation was made by two checkouts. -/
structure Returning (s : Db) (gs : List ReturnNote) : Prop where
  returned : s.Returned
  backed : ∀ g ∈ gs, g.Backed s
  apart : ∀ (i j : Nat) (g h : ReturnNote) (id : ObjectId), gs[i]? = some g → gs[j]? = some h →
    id ∈ g.made → id ∈ h.made → i = j

section Runs

variable {s t : Db} {gs : List ReturnNote} {i : Nat} {g g' : ReturnNote}

theorem Returning.spawn (h : Returning s gs) : Returning s (gs ++ [.blank]) where
  returned := h.returned
  backed g hg := by
    rcases List.mem_append.1 hg with hg | hg
    · exact h.backed g hg
    · obtain rfl := List.mem_singleton.1 hg
      exact .blank s
  apart i j g g' id hi hj hid hid' := by
    rcases Memo.getElem?_snoc_cases hi with hi | rfl
    · rcases Memo.getElem?_snoc_cases hj with hj | rfl
      · exact h.apart i j g g' id hi hj hid hid'
      · simp [ReturnNote.blank] at hid'
    · simp [ReturnNote.blank] at hid

/-- A step of the `i`th handler. -/
theorem Returning.act (h : Returning s gs) (hi : gs[i]? = some g) (hmoves : g.Moves s g' t) :
    Returning t (gs.set i g') := by
  have hthere : ∀ (j : Nat) (x : ReturnNote) (id : ObjectId), gs[j]? = some x → id ∈ x.made →
      s.reservations.get? id ≠ none := by
    intro j x id hj hid hnone
    obtain ⟨y, hy, -⟩ := (h.backed x (List.mem_of_getElem? hj)).made id hid
    cases hy.symm.trans hnone
  have hother : ∀ (j : Nat) (x : ReturnNote), j ≠ i → gs[j]? = some x → ∀ id ∈ x.made,
      ¬ (id ∈ g.made ∨ s.reservations.get? id = none) := by
    rintro j x hne hj id hid (hmine | hnone)
    · exact hne (h.apart j i x g id hj hi hid hmine)
    · exact hthere j x id hj hid hnone
  have hnew : ∀ (j : Nat) (x : ReturnNote) (id : ObjectId), j ≠ i → gs[j]? = some x → id ∈ x.made →
      id ∉ g'.made :=
    fun j x id hne hj hid hid' => hother j x hne hj id hid (hmoves.made id hid')
  refine ⟨hmoves.returned, fun x hx => ?_, fun j k x y id hj hk hid hid' => ?_⟩
  · obtain ⟨j, hj⟩ := List.mem_iff_getElem?.1 hx
    rcases Memo.getElem?_set_cases hj with ⟨-, rfl⟩ | ⟨hne, hj⟩
    · exact hmoves.backed
    · exact (h.backed x (List.mem_of_getElem? hj)).move hmoves.onward (hother j x hne hj)
  · rcases Memo.getElem?_set_cases hj with ⟨rfl, rfl⟩ | ⟨hne, hx⟩
    · rcases Memo.getElem?_set_cases hk with ⟨rfl, rfl⟩ | ⟨hne, hy⟩
      · rfl
      · exact absurd hid (hnew k y id hne hy hid')
    · rcases Memo.getElem?_set_cases hk with ⟨rfl, rfl⟩ | ⟨-, hy⟩
      · exact absurd hid' (hnew j x id hne hx hid)
      · exact h.apart j k x y id hx hy hid hid'

/-- A call that fails leaves nothing behind. -/
theorem returnTxMemo_note_error (o : TxOp Mongo ApiError) (e : ApiError) (g : ReturnNote) :
    returnTxMemo.note o (.error e) g = g := by
  cases o with
  | op o => cases o <;> rfl
  | txn work => rfl

end Runs

/-- No sweep is started, and the call by which a checkout deletes its order does not fail. -/
def Unswept (c : ServerPool) (a : Action Request) : Prop :=
  (∀ now batchSize, a ≠ .spawn (.sweep now batchSize)) ∧
    ∀ i k, a = .fault i → c.head? i ≠ some (.op (.orderDelete k))

theorem run_returned {cfg : ServerConfig} {start c : ServerPool} {as : List (Action Request)}
    (hstart : start.threads = []) (hrestocks : start.state.restocks = [])
    (hrun : (server cfg).Run Unswept start as c) : c.state.Returned := by
  have hinv := hrun.invariant (P := fun c => ∃ gs, returnTxMemo.Minutes (fun _ _ _ => True) c gs ∧
    Returning c.state gs) ?_ ?_
  · obtain ⟨gs, -, hreturning⟩ := hinv
    exact hreturning.returned
  · rintro c a d ⟨hsweep, hundo⟩ hstep ⟨gs, hminutes, hreturning⟩
    have hcode : ∀ l, a = .spawn l →
        returnTxMemo.Tracks (fun _ _ => True) ((server cfg).code l) .blank := by
      rintro l rfl
      refine handler_returns cfg ?_
      cases l with
      | sweep now batchSize => exact absurd rfl (hsweep now batchSize)
      | _ => rfl
    have hact : ∀ o, returnTxMemo.allows o (mongo.transactional.exec o c.state).1 := by
      intro o
      cases o with
      | op o => exact .inl ⟨c.state, rfl⟩
      | txn work => trivial
    have hfault : ∀ i o, a = .fault i → c.head? i = some o → returnTxMemo.allows o (.error mongo.fault) := by
      intro i o ha hhead
      cases o with
      | op o => exact .inr ⟨⟨_, rfl⟩, fun k ho => hundo i k ha (ho ▸ hhead)⟩
      | txn work => trivial
    obtain ⟨gs', hminutes', ⟨l, -, rfl, hstate⟩ | ⟨i, o, g, -, hi, hmay, hmove⟩⟩ :=
      hminutes.step hcode hstep hact hfault fun _ _ _ _ _ _ _ => trivial
    · exact ⟨_, hminutes', hstate ▸ hreturning.spawn⟩
    · obtain ⟨-, hstate, rfl⟩ | ⟨hstate, rfl⟩ | ⟨hstate, rfl⟩ := hmove
      · refine ⟨_, hminutes', hstate.symm ▸ hreturning.act hi ?_⟩
        exact transactional_returns o hmay (hreturning.backed g (List.mem_of_getElem? hi)) hreturning.returned
      · refine ⟨_, hminutes', ?_⟩
        have hset : gs.set i (returnTxMemo.note o (.error mongo.fault) g) = gs := by
          obtain ⟨hlt, rfl⟩ := List.getElem?_eq_some_iff.1 hi
          exact (congrArg _ (returnTxMemo_note_error o mongo.fault _)).trans (List.set_getElem_self hlt)
        exact hset.symm ▸ hstate.symm ▸ hreturning
      · exact ⟨_, hminutes', hstate.symm ▸ hreturning⟩
  · refine ⟨[], by simp [Memo.Minutes, hstart], ⟨?_, by simp, by simp⟩⟩
    simp [Db.Returned, hrestocks]

end Ecommerce
