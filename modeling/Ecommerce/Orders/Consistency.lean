import Ecommerce.Inventory.Sweep
import Ecommerce.Orders.Holdings

/-!
# Consistent orders

Along every run without failures on a replica set, orders and reservations go together. A sweep is
the only handler with more than one write; what it has cancelled and not yet released it owes, and its
next call is one of the release.
-/

namespace Ecommerce

open Effect Effect.Collection

/-! ## What a handler remembers -/

/-- What a handler has seen, and what it owes: the orders it has read, the order it is releasing with
the reservations left to release once it has read them, and whether it has read what cannot be. -/
structure HandlerNote where
  seen : List (ObjectId × PaymentStatus)
  order : Option ObjectId
  rows : Option (List ObjectId)
  void : Bool

namespace HandlerNote

def blank : HandlerNote := ⟨[], none, none, false⟩

/-- Nothing is left to release. -/
def Idle (g : HandlerNote) : Prop := g.order = none ∨ g.rows = some []

/-- The reservation is left to release. -/
def Owes (g : HandlerNote) (r : InventoryReservation) : Prop :=
  ∃ k, g.order = some k ∧ r.order = some k ∧ ∀ ids, g.rows = some ids → r.id ∈ ids

theorem Idle.not_owes {g : HandlerNote} (h : g.Idle) (r : InventoryReservation) : ¬ g.Owes r := by
  rintro ⟨k, hk, -, hrow⟩
  rcases h with h | h
  · cases h.symm.trans hk
  · cases hrow [] h

def note : (o : DbOp) → Except ApiError o.Reply → HandlerNote → HandlerNote
  | .reservationsExpired _ _, .ok (rows : List InventoryReservation), g =>
    { g with
      seen := rows.filterMap (fun r => r.order.map fun k => (k, .unpaid)) ++ g.seen
      void := g.void || rows.any fun r => r.order.isNone }
  | .orderFindById _, .ok (some (o : Order)), g =>
    { g with
      seen := (o.id, o.paymentStatus) :: g.seen
      void := g.void || o.paymentStatus == .authorized }
  | .orderFindById k, .ok none, g => { g with void := g.void || g.seen.any fun x => x.1 == k }
  | .orderUpdate (.expire _) _, .ok (some (o : Order)), g => { g with order := some o.id, rows := none }
  | .reservationsActive k, .ok (ids : List ObjectId), g =>
    if g.order = some k ∧ g.rows = none then { g with rows := some ids } else g
  | .reservationRelease _ _ _, .ok _, g => { g with rows := g.rows.map List.tail }
  | _, _, g => g

/-- A sweep that has cancelled an order releases it before it does anything else, and what is committed
has been seen paid. -/
def may (o : DbOp) (g : HandlerNote) : Prop :=
  g.void = true ∨ match o with
    | .reservationsActive _ | .productRestock _ => True
    | .reservationRelease id status fromStatuses =>
      ¬ status.Active ∧ fromStatuses = [.reserved, .committed] ∧
        ∃ k rest, g.order = some k ∧ g.rows = some (id :: rest)
    | .reservationsCommit k => g.Idle ∧ (k, .paid) ∈ g.seen
    | .orderUpdate (.expire _) _ => g.Idle
    | .orderUpdate (.advance id behind status) _ =>
      g.Idle ∧ (OrderUpdate.advance id behind status).Legal
    | o => g.Idle ∧ o.Untouching

/-- What the note says of the database. -/
structure Backed (g : HandlerNote) (s : Db) : Prop where
  sound : g.void = false
  seen : ∀ x ∈ g.seen, s.Seen x.1 x.2
  order : ∀ k, g.order = some k → ∃ o, s.orders.get? k = some o ∧ o.status = .cancelled
  rows : ∀ k ids, g.order = some k → g.rows = some ids → ∀ id ∈ ids, id < s.reservations.next ∧
    ∀ r ∈ s.reservations.docs, r.id = id → r.order = some k

theorem Backed.blank (s : Db) : blank.Backed s :=
  ⟨rfl, (fun x hx => by cases hx), (fun k hk => by cases hk), fun k ids hk => by cases hk⟩

/-- What has been seen stays true. -/
theorem Backed.carry {g : HandlerNote} {s t : Db} (h : g.Backed s) (hcarries : s.Carries t) :
    g.Backed t where
  sound := h.sound
  seen x hx := by
    obtain ⟨o, ho, hlater⟩ := h.seen x hx
    obtain ⟨o', ho', hlater'⟩ := hcarries.orders x.1 o ho
    exact ⟨o', ho', hlater.trans hlater'.1⟩
  order k hk := by
    obtain ⟨o, ho, hcancelled⟩ := h.order k hk
    obtain ⟨o', ho', hlater⟩ := hcarries.orders k o ho
    exact ⟨o', ho', hlater.2 hcancelled⟩
  rows k ids hk hids id hid := by
    obtain ⟨hlt, hrow⟩ := h.rows k ids hk hids id hid
    refine ⟨hlt.trans_le hcarries.next, fun r hr hrid => ?_⟩
    rcases hcarries.rows r hr with ⟨r₀, hr₀, hsame, horder⟩ | hfresh
    · exact horder ▸ hrow r₀ hr₀ (hsame.trans hrid)
    · exact absurd (hrid ▸ hfresh) (Nat.not_le.2 hlt)

theorem note_void (o : DbOp) (r : Except ApiError o.Reply) {g : HandlerNote} (h : g.void = true) :
    (note o r g).void = true := by
  unfold note
  split <;> first | exact h | (split <;> exact h) | simp [h]

end HandlerNote

open HandlerNote

/-- The memo of a sweep, call by call. -/
def sweepMemo : Memo Mongo ApiError HandlerNote where
  note := HandlerNote.note
  may := HandlerNote.may
  allows o r := ∃ s, r = (mongo.exec o s).1

/-- The memo of a handler, whose transactions keep orders and reservations together. -/
def serverMemo : Memo (Mongo.tx ApiError) ApiError HandlerNote where
  note
    | .op o, r, g => HandlerNote.note o r g
    | .txn _, _, g => g
  may
    | .op o, g => HandlerNote.may o g
    | .txn work, g => g.void = true ∨ g.Idle ∧
      ∀ s : Db, (∀ x ∈ g.seen, s.Seen x.1 x.2) → s.Keeps (mongo.transactional.exec (.txn work) s).2
  allows o r := ∃ s, r = (mongo.transactional.exec o s).1

/-- How a handler ends. -/
def HandlerNote.Ends (g : HandlerNote) : Prop := g.void = true ∨ g.Idle

section Sweeps

variable {α : Type} {g : HandlerNote}

/-- After reading what cannot be, anything goes. -/
theorem tracks_void {R : HandlerNote → Prop} {p : MongoM α} (h : g.void = true) :
    sweepMemo.Tracks (fun _ g => g.void = true ∨ R g) p g :=
  Memo.tracks_invariant (φ := fun _ => True) (P := fun g => g.void = true)
    (Prog.issues_of_forall (fun _ => trivial) p) (fun _ _ _ h => .inl h) (fun o r _ _ h => note_void o r h)
    (fun _ _ h => .inl h) h

theorem releaseReservation_noted (id : ObjectId) {status : ReservationStatus}
    (hs : ¬ status.Active) {k : ObjectId} (horder : g.order = some k) {rest : List ObjectId}
    (hrows : g.rows = some (id :: rest)) :
    sweepMemo.Tracks (fun r g' => g' = { g with rows := some rest } ∧ ∃ b, r = .ok b)
      (releaseReservation id status [.reserved, .committed]) g := by
  refine ⟨.inr ⟨hs, rfl, k, rest, horder, hrows⟩, fun r hr => ?_⟩
  obtain ⟨s, rfl⟩ := hr
  obtain ⟨a, ha⟩ := release_replies id status [.reserved, .committed] s
  rw [ha]
  have hnote : ({ g with rows := g.rows.map List.tail } : HandlerNote) = { g with rows := some rest } := by
    rw [hrows]
    rfl
  cases a with
  | none => exact ⟨hnote, _, rfl⟩
  | some x =>
    refine ⟨.inr trivial, fun r hr => ?_⟩
    obtain ⟨t, rfl⟩ := hr
    exact ⟨hnote, true, rfl⟩

theorem releaseEach_noted {status : ReservationStatus} (hs : ¬ status.Active) {k : ObjectId}
    (horder : g.order = some k) (ids : List ObjectId) (hrows : g.rows = some ids) (released : Nat) :
    sweepMemo.Tracks (fun _ g' => g' = { g with rows := some [] }) (releaseEach status ids released) g := by
  induction ids generalizing g released with
  | nil =>
    show g = { g with rows := some [] }
    rw [← hrows]
  | cons id rest ih =>
    refine Memo.Tracks.bind ((releaseReservation_noted id hs horder hrows).weaken ?_)
    rintro _ _ ⟨rfl, b, rfl⟩
    exact ih (g := { g with rows := some rest }) horder rfl _

theorem releaseOrderReservations_noted {status : ReservationStatus} (hs : ¬ status.Active)
    {k : ObjectId} (horder : g.order = some k) (hrows : g.rows = none) :
    sweepMemo.Tracks (fun _ g' => g' = { g with rows := some [] }) (releaseOrderReservations k status) g := by
  refine ⟨.inr trivial, fun r hr => ?_⟩
  obtain ⟨s, rfl⟩ := hr
  have hnote : sweepMemo.note (.reservationsActive k) (mongo.exec (.reservationsActive k) s).1 g =
      { g with rows := some ((s.activeOf k).map (·.id)) } := if_pos ⟨horder, hrows⟩
  rw [hnote]
  exact releaseEach_noted (g := { g with rows := some _ }) hs horder _ rfl 0

/-- Nothing is left to release, and what had been seen is still noted. -/
def HandlerNote.GoesOn (g g' : HandlerNote) : Prop := g'.void = true ∨ g'.Idle ∧ g.seen ⊆ g'.seen

theorem expireOrder_noted (now : Time) {k : ObjectId} (hidle : g.Idle)
    (hseen : ∃ p, (k, p) ∈ g.seen) :
    sweepMemo.Tracks (fun _ g' => g.GoesOn g') (expireOrder now k) g := by
  refine ⟨.inr hidle, fun r _ => ?_⟩
  obtain e | (_ | order) := r
  · exact .inr ⟨hidle, fun _ h => h⟩
  · refine ⟨.inr ⟨hidle, .inl trivial⟩, fun r _ => ?_⟩
    obtain e | (_ | order) := r
    · exact .inr ⟨hidle, fun _ h => h⟩
    · refine tracks_void ?_
      obtain ⟨p, hp⟩ := hseen
      have hany : (g.seen.any fun x => x.1 == k) = true := List.any_eq_true.2 ⟨(k, p), hp, by simp⟩
      show (g.void || g.seen.any fun x => x.1 == k) = true
      rw [hany, Bool.or_true]
    · have hmore : g.seen ⊆ (order.id, order.paymentStatus) :: g.seen := List.subset_cons_self _ _
      show sweepMemo.Tracks _ (ite _ _ _) (⟨(order.id, order.paymentStatus) :: g.seen, g.order, g.rows,
        g.void || order.paymentStatus == .authorized⟩ : HandlerNote)
      split
      · next hpaid =>
        refine ⟨?_, fun r _ => ?_⟩
        · rcases hpaid with hpaid | hpaid
          · exact .inr ⟨hidle, by simp [hpaid]⟩
          · exact .inl (by simp [hpaid])
        · cases r with
          | error e => exact .inr ⟨hidle, hmore⟩
          | ok _ => exact .inr ⟨hidle, hmore⟩
      · exact .inr ⟨hidle, hmore⟩
  · show sweepMemo.Tracks _ (releaseOrderReservations order.id .expired >>= _)
      ({ g with order := some order.id, rows := none } : HandlerNote)
    refine Memo.Tracks.bind ((releaseOrderReservations_noted
      (g := { g with order := some order.id, rows := none }) (by decide) rfl rfl).weaken ?_)
    rintro r _ rfl
    have hend : g.GoesOn { g with order := some order.id, rows := some [] } :=
      .inr ⟨.inr rfl, fun _ h => h⟩
    cases r with
    | error e => exact hend
    | ok n =>
      refine Memo.tracks_still (Prog.Issues.bind (Prog.Issues.catching ?_ fun _ => trivial)
        fun _ => trivial) fun _ => hend
      exact issues_db ⟨.inr ⟨.inr rfl, .inl trivial⟩, fun _ => rfl⟩

/-- Every reservation of the batch is for an order that has been seen. -/
def HandlerNote.Knows (batch : List InventoryReservation) (g : HandlerNote) : Prop :=
  g.void = true ∨ g.Idle ∧ ∀ r ∈ batch, ∃ k p, r.order = some k ∧ (k, p) ∈ g.seen

theorem expireEach_noted (now : Time) (batch : List InventoryReservation)
    (handledOrders : List ObjectId) (acc : SweepResult) (h : g.Knows batch) :
    sweepMemo.Tracks (fun _ g => g.Ends) (expireEach now batch handledOrders acc) g := by
  induction batch generalizing handledOrders acc g with
  | nil => exact h.imp_right And.left
  | cons reservation rest ih =>
    rcases h with hvoid | ⟨hidle, hbatch⟩
    · exact tracks_void hvoid
    obtain ⟨k, p, hk, hp⟩ := hbatch reservation (by simp)
    have hrest : ∀ r ∈ rest, ∃ k p, r.order = some k ∧ (k, p) ∈ g.seen :=
      fun r hr => hbatch r (by simp [hr])
    rw [expireEach, hk]
    dsimp only
    split
    · exact ih _ _ (.inr ⟨hidle, hrest⟩)
    · refine Memo.Tracks.bind ((expireOrder_noted now hidle ⟨p, hp⟩).weaken fun r g' hg' => ?_)
      cases r with
      | error e => exact hg'.imp_right And.left
      | ok result =>
        refine ih _ _ (hg'.imp_right fun hg' => ⟨hg'.1, fun r hr => ?_⟩)
        obtain ⟨k, p, hk, hp⟩ := hrest r hr
        exact ⟨k, p, hk, hg'.2 hp⟩

theorem sweep_noted (now : Time) (batchSize : Nat) :
    sweepMemo.Tracks (fun _ g => g.Ends)
      (Response.sweep <$> releaseExpiredReservations now batchSize) blank := by
  refine Memo.Tracks.bind (Memo.Tracks.bind ?_)
  refine ⟨.inr ⟨.inl rfl, .inl trivial⟩, fun r _ => ?_⟩
  cases r with
  | error e => exact .inr (.inl rfl)
  | ok expired =>
    revert expired
    intro (expired : List InventoryReservation) _
    have hknows : (⟨expired.filterMap (fun r => r.order.map fun k => (k, .unpaid)) ++ [], none, none,
        false || expired.any fun r => r.order.isNone⟩ : HandlerNote).Knows expired := by
      by_cases hnone : (expired.any fun r => r.order.isNone) = true
      · exact .inl (by simp only [hnone, Bool.or_true])
      · refine .inr ⟨.inl rfl, fun r hr => ?_⟩
        obtain ⟨k, hk⟩ : ∃ k, r.order = some k := by
          refine Option.ne_none_iff_exists'.1 fun hn => hnone ?_
          exact List.any_eq_true.2 ⟨r, hr, by simp [hn]⟩
        refine ⟨k, .unpaid, hk, List.mem_append_left _ (List.mem_filterMap.2 ⟨r, hr, ?_⟩)⟩
        rw [hk]
        rfl
    refine (expireEach_noted now expired [] ⟨0, 0⟩ hknows).weaken fun r g hg => ?_
    cases r <;> exact hg

end Sweeps

/-! ## The handlers -/

section Handlers

variable {α β : Type} {g : HandlerNote}

/-- Calls that release and cancel nothing. -/
def DbOp.Steady (o : DbOp) : Prop :=
  o.Untouching ∨ ∃ id behind status now, o = .orderUpdate (.advance id behind status) now ∧
    (OrderUpdate.advance id behind status).Legal

theorem DbOp.Steady.may {o : DbOp} (h : o.Steady) (hg : g.Ends) : HandlerNote.may o g := by
  refine hg.imp_right fun hidle => ?_
  rcases h with h | ⟨id, behind, status, now, rfl, hlegal⟩
  · cases o with
    | reservationsActive k => trivial
    | productRestock r => trivial
    | reservationRelease id status fromStatuses => exact (h.elim (fun h => h) (fun h => h) : False).elim
    | reservationsCommit k => exact (h.elim (fun h => h) (fun h => h) : False).elim
    | orderUpdate u now => exact (h.elim (fun h => h) (fun h => h) : False).elim
    | _ => exact ⟨hidle, h⟩
  · exact ⟨hidle, hlegal⟩

theorem note_idle {o : DbOp} (h : o.Steady) (r : Except ApiError o.Reply) (hg : g.Idle) :
    (note o r g).Idle := by
  rcases h with h | ⟨id, behind, status, now, rfl, -⟩
  · cases o with
    | reservationsActive k =>
      have hnot : ¬ (g.order = some k ∧ g.rows = none) := by
        rintro ⟨horder, hrows⟩
        rcases hg with hg | hg
        · cases hg.symm.trans horder
        · cases hg.symm.trans hrows
      cases r with
      | error e => exact hg
      | ok ids =>
        show HandlerNote.Idle (if g.order = some k ∧ g.rows = none then _ else g)
        rw [if_neg hnot]
        exact hg
    | reservationsExpired now batchSize => cases r <;> exact hg
    | orderFindById k => obtain e | (_ | o) := r <;> exact hg
    | orderUpdate u now => exact (h.elim (fun h => h) (fun h => h) : False).elim
    | reservationRelease id status fromStatuses => exact (h.elim (fun h => h) (fun h => h) : False).elim
    | _ => exact hg
  · exact hg

theorem note_ends {o : DbOp} (h : o.Steady) (r : Except ApiError o.Reply) (hg : g.Ends) :
    (note o r g).Ends := hg.imp (note_void o r) (note_idle h r)

theorem tracks_steady {p : MongoM α} (h : p.Issues DbOp.Steady) (hg : g.Ends) :
    sweepMemo.Tracks (fun _ g => g.Ends) p g :=
  Memo.tracks_invariant h (fun _ _ ho hg => ho.may hg)
    (fun _ r _ ho hg => note_ends ho r hg) (fun _ _ hg => hg) hg

theorem tracks_embed {Q : Except ApiError α → HandlerNote → Prop} {p : MongoM α}
    (h : sweepMemo.Tracks Q p g) : serverMemo.Tracks Q p.embed g :=
  h.embed (fun _ _ _ => rfl) (fun _ _ h => h) fun _ _ h => h

/-- A transaction that keeps orders and reservations together, and what follows it. -/
theorem tracks_transaction {deployment : Deployment} (hreplica : deployment = .replicaSet)
    {work : Bool → MongoM α} {f : α → Handler β} (hg : g.Ends)
    (hwork : g.void = true ∨ ∀ s : Db, (∀ x ∈ g.seen, s.Seen x.1 x.2) →
      s.Keeps (mongo.transactional.exec (.txn (work true)) s).2)
    (hf : ∀ a, serverMemo.Tracks (fun _ g => g.Ends) (f a) g) :
    serverMemo.Tracks (fun _ g => g.Ends) (runInTransaction deployment work >>= f) g := by
  subst hreplica
  refine ⟨?_, fun r _ => ?_⟩
  · rcases hg with hg | hg
    · exact .inl hg
    · exact hwork.imp_right fun hwork => ⟨hg, hwork⟩
  · cases r with
    | ok a => exact hf a
    | error e => exact hg

theorem readWebhook_noted (cfg : WebhookConfig) (d : Delivery) (eventId : String) (hg : g.Ends) :
    sweepMemo.Tracks (fun r g => g.Ends ∧ ∀ order body, r = .ok (some (order, body)) →
      (order.id, order.paymentStatus) ∈ g.seen) (readWebhook cfg d eventId) g := by
  have hmay {o : DbOp} (ho : o.Quiet) {g : HandlerNote} (hg : g.Ends) : sweepMemo.may o g :=
    DbOp.Steady.may (.inl (.inl ho)) hg
  have hthrow {g : HandlerNote} (hg : g.Ends) (e : ApiError) :
      g.Ends ∧ ∀ (order : Order) (body : WebhookBody),
        (.error e : Except ApiError (Option (Order × WebhookBody))) = .ok (some (order, body)) →
        (order.id, order.paymentStatus) ∈ g.seen :=
    ⟨hg, fun _ _ h => by cases h⟩
  refine ⟨hmay (by trivial) hg, fun r _ => ?_⟩
  obtain e | (_ | event) := r
  · exact hthrow hg e
  · refine Memo.Tracks.done_bind (a := none) ?_
    dsimp only
    cases cfg.parseBody d.rawPayload with
    | none => exact hthrow hg _
    | some body =>
      refine ⟨hmay (by trivial) hg, fun r _ => ?_⟩
      obtain e | (_ | order) := r
      · exact hthrow hg e
      · exact hthrow (note_ends (o := .orderFindById body.orderId) (.inl (.inl trivial)) (.ok none) hg) _
      · have hends := note_ends (o := .orderFindById body.orderId) (.inl (.inl trivial)) (.ok (some order)) hg
        refine ⟨hmay (by trivial) hends, fun r _ => ?_⟩
        cases r with
        | error e => exact hthrow hends e
        | ok tenant =>
          show sweepMemo.Tracks _ (ite _ _ _) (note (.orderFindById body.orderId) (.ok (some order)) g)
          split
          · refine ⟨hmay (by trivial) hends, fun r _ => ?_⟩
            cases r <;> exact hthrow hends _
          · show sweepMemo.Tracks _ (ite _ _ _) _
            split
            · refine ⟨hmay (by trivial) hends, fun r _ => ?_⟩
              cases r <;> exact hthrow hends _
            · cases assertPaymentTransition order.paymentStatus (TARGET_STATE body.type) with
              | error e => exact hthrow hends e
              | ok u =>
                refine ⟨hends, fun o b hr => ?_⟩
                cases hr
                exact List.mem_cons_self
  · exact ⟨hg, fun _ _ h => by cases h⟩

theorem upsertShipment_steady (req : AuthedRequest) (k : ObjectId) (value : ShipmentInput) (now : Time) :
    (upsertShipment req k value now).Issues DbOp.Steady := by
  obtain ⟨kont, hkont, hrest⟩ := upsertShipment_rest req k value now
  have hfulfils := upsertShipment_issues req k value now
  rw [hkont] at hfulfils ⊢
  refine ⟨.inl (.inl trivial), fun r => ?_⟩
  rcases hrest r with ⟨e, he⟩ | ⟨order, -, -, hships⟩
  · rw [he]
    trivial
  · refine (hships.and (hfulfils.2 r)).mono fun o h => ?_
    obtain ⟨h | ⟨shipment, existing, rfl⟩ | ⟨behind, status, now, rfl⟩, h'⟩ := h
    · exact .inl (.inl h)
    · exact .inl (.inr trivial)
    · exact .inr ⟨_, _, _, _, rfl, h'.legal⟩

theorem handler_noted {cfg : ServerConfig} (hreplica : cfg.deployment = .replicaSet) (request : Request) :
    serverMemo.Tracks (fun _ g => g.Ends) (request.handler cfg) blank := by
  have hblank : blank.Ends := .inr (.inl rfl)
  cases request with
  | checkout req value now =>
    exact tracks_transaction hreplica hblank
      (.inr fun s _ => executeCheckout_keeps _ _ _ _ s) fun _ => hblank
  | cancel req id reason now =>
    refine Memo.Tracks.bind ?_
    have hcancel : serverMemo.Tracks (fun _ g => g.Ends) (runInTransaction cfg.deployment
        (fun _ => cancelWork req id reason now) >>= fun result : CancelResult => pure result.order) blank :=
      tracks_transaction hreplica hblank (.inr fun s _ => txn_keeps (cancelWork_keeps _ _ _ _ s))
        fun _ => hblank
    refine hcancel.weaken fun r g hg => ?_
    cases r <;> exact hg
  | requestRefund req id reason now =>
    exact tracks_transaction hreplica hblank
      (.inr fun s _ => txn_keeps (requestRefundWork_keeps _ _ _ _ _ s)) fun _ => hblank
  | webhook delivery now =>
    refine Memo.Tracks.bind ?_
    rw [processWebhook]
    split
    · exact hblank
    · next eventId _ =>
      refine Memo.Tracks.bind ((tracks_embed ((readWebhook_noted cfg.webhook delivery eventId hblank).yields
        (readWebhook_yields cfg.webhook delivery eventId))).weaken fun r g hg => ?_)
      obtain ⟨⟨hends, hseen⟩, hpayable⟩ := hg
      obtain e | (_ | ⟨order, body⟩) := r
      · exact hends
      · exact hends
      · have hpay := hpayable _ rfl
        show serverMemo.Tracks _ (runInTransaction cfg.deployment
          (fun _ => webhookWork cfg.webhook delivery eventId order body now) >>= _) g
        refine (tracks_transaction hreplica hends (.inr fun s hs => txn_keeps ?_)
          fun updated => ?_).weaken ?_
        · exact webhookWork_keeps _ _ _ hpay now (hs _ (hseen order body rfl))
        · refine Memo.Tracks.bind ((tracks_embed (tracks_steady ((afterWebhook_issues _ _).mono
            fun _ h => .inl (.inl h)) hends)).weaken fun r g hg => ?_)
          cases r <;> exact hg
        · rintro (_ | result) g hg <;> exact hg
  | sweep now batchSize => exact tracks_embed (sweep_noted now batchSize)
  | shipment req orderId value now =>
    exact tracks_embed (tracks_steady (upsertShipment_steady req orderId value now).map hblank)

end Handlers

/-! ## Steps -/

/-- What the sweeps owe together. -/
def OwedBy (gs : List HandlerNote) (r : InventoryReservation) : Prop := ∃ g ∈ gs, g.Owes r

theorem steady_owedBy (gs : List HandlerNote) : Steady (OwedBy gs) := by
  rintro r status ⟨g, hg, k, hk, horder, hrows⟩
  exact ⟨g, hg, k, hk, horder, hrows⟩

/-- Orders and reservations go together but for what is owed, and what the notes say is so. -/
structure Sound (s : Db) (gs : List HandlerNote) : Prop where
  accords : s.Accords (OwedBy gs)
  backed : ∀ g ∈ gs, g.Backed s

section Steps

variable {s t : Db} {gs : List HandlerNote} {i : Nat} {g g' : HandlerNote}

theorem owedBy_set (hi : gs[i]? = some g) {r : InventoryReservation} (h : OwedBy gs r)
    (hkeeps : g.Owes r → g'.Owes r) : OwedBy (gs.set i g') r :=
  Memo.exists_mem_set (P := fun g : HandlerNote => g.Owes r) hi h hkeeps

theorem Sound.memo (h : Sound s gs) (hi : gs[i]? = some g) : g.Backed s :=
  h.backed g (List.mem_of_getElem? hi)

/-- Every other note is still true of what carries on. -/
theorem Sound.backed_set (h : Sound s gs) (hcarries : s.Carries t) (hbacked : g'.Backed t) :
    ∀ x ∈ gs.set i g', x.Backed t := by
  intro x hx
  rcases List.mem_or_eq_of_mem_set hx with hx | rfl
  · exact (h.backed x hx).carry hcarries
  · exact hbacked

theorem Sound.keep (h : Sound s gs) (hi : gs[i]? = some g) (hkeeps : s.Keeps t)
    (hbacked : g.Backed t → g'.Backed t) (howes : ∀ r, g.Owes r → g'.Owes r) :
    Sound t (gs.set i g') := by
  refine ⟨(hkeeps.accords _ (steady_owedBy gs) h.accords).mono fun r _ _ howed => owedBy_set hi howed (howes r),
    h.backed_set hkeeps.carries (hbacked ((h.memo hi).carry hkeeps.carries))⟩

theorem later_unpaid (q : PaymentStatus) :
    Relation.ReflTransGen (fun p q => q ∈ allowedTransitions p) .unpaid q := by
  cases q with
  | unpaid => exact .refl
  | authorized => exact .single (by decide)
  | paid => exact .single (by decide)
  | failed => exact .single (by decide)
  | refunded => exact .tail (b := .paid) (.single (by decide)) (by decide)

theorem exec_reservationsExpired_sound (now : Time) (batchSize : Nat) (hi : gs[i]? = some g)
    (h : Sound s gs) :
    Sound s (gs.set i (note (.reservationsExpired now batchSize) (.ok (s.expired now batchSize)) g)) := by
  have hlinked : ∀ r ∈ s.expired now batchSize, ∃ k o, r.order = some k ∧ s.orders.get? k = some o :=
    fun r hr => h.accords.linked r (List.mem_of_mem_filter (mem_expired hr))
  refine h.keep hi (.refl s) (fun hg => ⟨?_, fun x hx => ?_, hg.order, hg.rows⟩) fun r hr => hr
  · show (g.void || (s.expired now batchSize).any fun r => r.order.isNone) = false
    rw [hg.sound, Bool.false_or, List.any_eq_false]
    intro r hr
    obtain ⟨k, o, hk, -⟩ := hlinked r hr
    simp [hk]
  · rcases List.mem_append.1 hx with hx | hx
    · obtain ⟨r, hr, hmap⟩ := List.mem_filterMap.1 hx
      obtain ⟨k, o, hk, ho⟩ := hlinked r hr
      rw [hk] at hmap
      obtain rfl := Option.some_inj.1 hmap
      exact ⟨o, ho, later_unpaid _⟩
    · exact hg.seen x hx

theorem exec_orderFindById_sound (k : ObjectId) (hi : gs[i]? = some g) (h : Sound s gs) :
    Sound s (gs.set i (note (.orderFindById k) (.ok (s.orders.get? k)) g)) := by
  cases ho : s.orders.get? k with
  | none =>
    refine h.keep hi (.refl s) (fun hg => ⟨?_, hg.seen, hg.order, hg.rows⟩) fun r hr => hr
    show (g.void || g.seen.any fun x => x.1 == k) = false
    rw [hg.sound, Bool.false_or, List.any_eq_false]
    intro x hx hk
    obtain ⟨o, ho', -⟩ := hg.seen x hx
    rw [beq_iff_eq.1 hk, ho] at ho'
    cases ho'
  | some o =>
    have hsuits := h.accords.suits o (get?_mem ho)
    refine h.keep hi (.refl s) (fun hg => ⟨?_, fun x hx => ?_, hg.order, hg.rows⟩) fun r hr => hr
    · show (g.void || o.paymentStatus == .authorized) = false
      rw [hg.sound, Bool.false_or, beq_eq_false_iff_ne]
      exact hsuits.consistent.captured
    · rcases List.mem_cons.1 hx with rfl | hx
      · have hid : o.id = k := get?_key ho
        exact ⟨o, hid.symm ▸ ho, .refl⟩
      · exact hg.seen x hx

theorem exec_reservationsActive_sound (k : ObjectId) (hi : gs[i]? = some g) (h : Sound s gs) :
    Sound s (gs.set i (note (.reservationsActive k) (.ok ((s.activeOf k).map (·.id))) g)) := by
  by_cases hk : g.order = some k ∧ g.rows = none
  · have hnote : note (.reservationsActive k) (.ok ((s.activeOf k).map (·.id))) g =
        { g with rows := some ((s.activeOf k).map (·.id)) } := if_pos hk
    rw [hnote]
    have hg := h.memo hi
    refine ⟨h.accords.mono fun r hr hactive howed => owedBy_set hi howed ?_,
      h.backed_set (.of_eq rfl rfl) ⟨hg.sound, hg.seen, hg.order, fun j ids hj hids id hid => ?_⟩⟩
    · rintro ⟨j, hj, horder, -⟩
      refine ⟨j, hj, horder, fun ids hids => ?_⟩
      obtain rfl := Option.some_inj.1 hids
      obtain rfl := Option.some_inj.1 (hj.symm.trans hk.1)
      exact List.mem_map_of_mem (mem_activeOf.2 ⟨hr, horder, hactive⟩)
    · obtain rfl := Option.some_inj.1 hids
      obtain rfl := Option.some_inj.1 ((show g.order = some j from hj).symm.trans hk.1)
      obtain ⟨x, hx, rfl⟩ := List.mem_map.1 hid
      obtain ⟨hmem, horder, -⟩ := mem_activeOf.1 hx
      refine ⟨s.reservations.fresh x hmem, fun r hr hrid => ?_⟩
      have hsame := (get?_eq_some.2 ⟨hr, hrid⟩).symm.trans (get?_eq_some.2 ⟨hmem, rfl⟩)
      exact Option.some_inj.1 hsame ▸ horder
  · have hnote : note (.reservationsActive k) (.ok ((s.activeOf k).map (·.id))) g = g := if_neg hk
    rw [hnote]
    exact h.keep hi (.refl s) (fun hg => hg) fun r hr => hr

/-- A reservation that is active is released, and without it the call changes nothing. -/
theorem exec_reservationRelease_cases (id : ObjectId) (status : ReservationStatus) (s : Db) :
    (∃ r, s.reservations.get? id = some r ∧ r.Active ∧
      (mongo.exec (.reservationRelease id status [.reserved, .committed]) s).2 = s.release r status) ∨
    (∀ r ∈ s.reservations.docs, r.Active → r.id ≠ id) ∧
      (mongo.exec (.reservationRelease id status [.reserved, .committed]) s).2 = s := by
  simp only [mongo, Db.exec]
  cases hget : s.reservations.get? id with
  | none =>
    refine .inr ⟨fun r hr _ hid => ?_, rfl⟩
    rw [get?_eq_some.2 ⟨hr, hid⟩] at hget
    cases hget
  | some r =>
    have hid : r.id = id := get?_key hget
    dsimp only
    by_cases hfrom : [ReservationStatus.reserved, .committed].contains r.status
    · rw [if_pos hfrom, ← hid]
      exact .inl ⟨r, rfl, by simpa [InventoryReservation.Active, ReservationStatus.Active] using hfrom, rfl⟩
    · rw [if_neg hfrom]
      refine .inr ⟨fun x hx hactive hxid => hfrom ?_, rfl⟩
      obtain rfl := Option.some_inj.1 (hget.symm.trans (get?_eq_some.2 ⟨hx, hxid⟩))
      exact List.contains_iff_mem.2 hactive.mem

theorem exec_reservationRelease_sound {id k : ObjectId} {status : ReservationStatus}
    (hs : ¬ status.Active) {rest : List ObjectId} (horder : g.order = some k)
    (hrows : g.rows = some (id :: rest)) (hi : gs[i]? = some g) (h : Sound s gs) :
    Sound (mongo.exec (.reservationRelease id status [.reserved, .committed]) s).2
      (gs.set i { g with rows := some rest }) := by
  have hg := h.memo hi
  have hless : ∀ r : InventoryReservation, r.id ≠ id → g.Owes r →
      HandlerNote.Owes { g with rows := some rest } r := by
    rintro r hne ⟨j, hj, hjr, hids⟩
    refine ⟨j, hj, hjr, fun ids heq => ?_⟩
    obtain rfl := Option.some_inj.1 heq
    exact (List.mem_cons.1 (hids _ hrows)).resolve_left hne
  have hbacked : HandlerNote.Backed { g with rows := some rest } s := by
    refine ⟨hg.sound, hg.seen, hg.order, fun j ids hj heq x hx => ?_⟩
    obtain rfl := Option.some_inj.1 heq
    exact hg.rows j _ hj hrows x (List.mem_cons_of_mem _ hx)
  obtain ⟨r, hr, hactive, heq⟩ | ⟨hgone, heq⟩ := exec_reservationRelease_cases id status s
  · have hid : r.id = id := get?_key hr
    have hcarries : s.Carries (s.release r status) := .of_modify rfl rfl
    obtain ⟨o, ho, hcancelled⟩ := hg.order k horder
    rw [heq]
    refine ⟨h.accords.change (k := k) (fun x hx => ?_) (fun j x hx => ⟨x, hx⟩) (fun x hx => ?_)
      (fun j hj => ?_) (fun x hne howed => owedBy_set hi howed fun howes => ?_),
      h.backed_set hcarries (hbacked.carry hcarries)⟩
    · by_cases hxk : x.id = k
      · obtain rfl := Option.some_inj.1 (ho.symm.trans (get?_eq_some.2 ⟨hx, hxk⟩))
        have hsuits := h.accords.suits o hx
        have hclosed : o.Closed := .inr (.inr hcancelled)
        refine .inr ⟨hsuits.consistent, fun hw => absurd hclosed hw.not_closed,
          fun hk => absurd hclosed hk.not_closed, fun _ y hy => ?_⟩
        rw [activeOf_release hs] at hy
        obtain ⟨hy, hne⟩ := List.mem_filter.1 hy
        refine owedBy_set hi (hsuits.closed hclosed y hy) (hless y ?_)
        rw [← hid]
        simpa using hne
      · exact .inl ⟨hx, hxk⟩
    · obtain ⟨r₀, hr₀, -, hsame, -⟩ := mem_modify_order hx
      exact ⟨r₀, hr₀, hsame⟩
    · rw [activeOf_release hs]
      refine List.filter_eq_self.2 fun x hx => ?_
      obtain ⟨hmem, hxj, -⟩ := mem_activeOf.1 hx
      have hne : x.id ≠ r.id := by
        intro hsame
        have hxk := (hg.rows k _ horder hrows id (by simp)).2 x hmem (hsame.trans hid)
        exact hj (Option.some_inj.1 (hxj.symm.trans hxk))
      simpa using hne
    · obtain ⟨j, hj, hjx, -⟩ := howes
      exact absurd (hjx.trans (hj.symm.trans horder)) hne
  · rw [heq]
    exact ⟨h.accords.mono fun r hr hactive howed => owedBy_set hi howed (hless r (hgone r hr hactive)),
      h.backed_set (.of_eq rfl rfl) hbacked⟩

theorem exec_expire_sound {k : ObjectId} {now : Time} (hidle : g.Idle) (hi : gs[i]? = some g)
    (h : Sound s gs) :
    Sound (mongo.exec (.orderUpdate (.expire k) now) s).2
      (gs.set i (note (.orderUpdate (.expire k) now) (mongo.exec (.orderUpdate (.expire k) now) s).1 g)) := by
  obtain ⟨o, ho, hguard, heq⟩ | ⟨-, heq⟩ := exec_orderUpdate (.expire k) now s
  · rw [heq]
    have hlegal : (OrderUpdate.expire k).Legal := trivial
    have hid : ((OrderUpdate.expire k).apply now o).id = k := (OrderUpdate.apply_id _ _ _).trans (get?_key ho)
    have hcarries : s.Carries { s with orders := s.orders.update k ((OrderUpdate.expire k).patch now) } :=
      .of_update (w := .expire k) hlegal ho hguard rfl rfl
    have hbecomes : s.Becomes { s with orders := s.orders.update k ((OrderUpdate.expire k).patch now) } k
        ((OrderUpdate.expire k).apply now o) := .of_update (u := .expire k) ho rfl
    have hget := get?_update_self s.orders k ((OrderUpdate.expire k).patch now)
    rw [show s.orders.get? k = some o from ho] at hget
    have hclosed : ((OrderUpdate.expire k).apply now o).Closed := .inr (.inr rfl)
    have hlt : i < gs.length := (List.getElem?_eq_some_iff.1 hi).1
    have hg := (h.memo hi).carry hcarries
    refine ⟨h.accords.change (k := k) (fun x hx => (hbecomes.1 x hx).imp_right ?_) hbecomes.2
      (fun r hr => ⟨r, hr, rfl⟩) (fun _ _ => rfl)
      (fun r _ howed => owedBy_set hi howed fun howes => absurd howes (hidle.not_owes r)),
      h.backed_set hcarries ⟨hg.sound, hg.seen, fun j hj => ?_, fun j ids _ hids => by cases hids⟩⟩
    · rintro rfl
      refine ⟨OrderUpdate.Legal.consistent hlegal (h.accords.suits o (get?_mem ho)).consistent hguard now,
        fun hw => absurd hclosed hw.not_closed, fun hk => absurd hclosed hk.not_closed, fun _ r hr => ?_⟩
      refine ⟨_, List.mem_set hlt _, _, rfl, (mem_activeOf.1 hr).2.1, fun ids hids => by cases hids⟩
    · obtain rfl := Option.some_inj.1 hj
      refine ⟨(OrderUpdate.expire k).apply now o, ?_, rfl⟩
      show (s.orders.update k _).get? _ = _
      rw [hid, hget]
      rfl
  · rw [heq]
    exact h.keep hi (.refl s) (fun hg => hg) fun r hr => hr

theorem exec_advance_sound {id : ObjectId} {behind : List OrderStatus} {status : OrderStatus} {now : Time}
    (hlegal : (OrderUpdate.advance id behind status).Legal) (hi : gs[i]? = some g) (h : Sound s gs) :
    Sound (mongo.exec (.orderUpdate (.advance id behind status) now) s).2 (gs.set i g) := by
  obtain ⟨o, ho, hguard, heq⟩ | ⟨-, heq⟩ := exec_orderUpdate (.advance id behind status) now s
  · rw [heq]
    obtain ⟨hmem, rfl⟩ := hlegal
    have hbehind : o.status ∈ behindStatuses ((FULFILMENT_RANK status).getD 0) := by
      simpa [OrderUpdate.guard] using hguard
    have hbefore := behindStatuses_subset _ hbehind
    refine h.keep hi (orderUpdate_keeps (u := .advance id _ status) ⟨hmem, rfl⟩ ho hguard now rfl (fun hw => ?_)
      (fun hk => ⟨hk.1, fun hc => ?_⟩) fun hc => ?_) (fun hg => hg) fun r hr => hr
    · have hpending : status = .pending := hw.1
      rw [hpending] at hmem
      exact absurd hmem (by decide)
    · rw [hc] at hbefore
      exact absurd hbefore (by decide)
    · rcases hc with hc | hc | hc
      · exact .inl hc
      · exact .inr (.inl hc)
      · have hcancelled : status = .cancelled := hc
        rw [hcancelled] at hmem
        exact absurd hmem (by decide)
  · rw [heq]
    exact h.keep hi (.refl s) (fun hg => hg) fun r hr => hr

theorem exec_reservationsCommit_sound {k : ObjectId} (hseen : (k, PaymentStatus.paid) ∈ g.seen)
    (hi : gs[i]? = some g) (h : Sound s gs) :
    Sound (mongo.exec (.reservationsCommit k) s).2 (gs.set i g) := by
  obtain ⟨o, ho, hlater⟩ := (h.memo hi).seen _ hseen
  have hkeeps : s.Keeps ((db (.reservationsCommit k) >>= fun _ => pure ()).eval mongo s).2 := by
    refine commit_keeps (.refl ho rfl) rfl (.of_eq rfl rfl) (get?_key ho)
      (fun owed hs => (hs.suits o (get?_mem ho)).consistent) (later_paid hlater)
      (fun owed hs hk => ⟨o, .committed, (hs.suits o (get?_mem ho)).kept hk, get?_key ho, rfl, .inr rfl⟩)
      (fun owed hs hc r hr => ?_) trivial
    have hid : o.id = k := get?_key ho
    exact (hs.suits o (get?_mem ho)).closed hc r (hid.symm ▸ hr)
  exact h.keep hi hkeeps (fun hg => hg) fun r hr => hr

theorem exec_untouching_sound {o : DbOp} (ho : o.Untouching) (hi : gs[i]? = some g) (h : Sound s gs) :
    Sound (mongo.exec o s).2 (gs.set i g) := by
  obtain ⟨horders, hrows⟩ := exec_untouching ho s
  exact h.keep hi (.of_eq horders hrows) (fun hg => hg) fun r hr => hr

/-- One call of a handler, whose note lets it make it. -/
theorem exec_sound (o : TxOp Mongo ApiError) (hi : gs[i]? = some g) (ho : serverMemo.may o g)
    (h : Sound s gs) :
    Sound (mongo.transactional.exec o s).2
      (gs.set i (serverMemo.note o (mongo.transactional.exec o s).1 g)) := by
  have hsound := (h.memo hi).sound
  cases o with
  | txn work =>
    obtain hvoid | ⟨-, hkeeps⟩ := ho
    · cases hsound.symm.trans hvoid
    · exact h.keep hi (hkeeps s (h.memo hi).seen) (fun hg => hg) fun r hr => hr
  | op o =>
    obtain hvoid | ho := ho
    · cases hsound.symm.trans hvoid
    · cases o with
      | reservationsExpired now batchSize => exact exec_reservationsExpired_sound now batchSize hi h
      | orderFindById k => exact exec_orderFindById_sound k hi h
      | reservationsActive k => exact exec_reservationsActive_sound k hi h
      | reservationRelease id status fromStatuses =>
        obtain ⟨hs, rfl, k, rest, horder, hrows⟩ := ho
        obtain ⟨a, ha⟩ := release_replies id status [.reserved, .committed] s
        have hnote : serverMemo.note (.op (.reservationRelease id status [.reserved, .committed]))
            (mongo.transactional.exec (.op (.reservationRelease id status [.reserved, .committed])) s).1 g =
            { g with rows := some rest } := by
          show HandlerNote.note (.reservationRelease id status [.reserved, .committed])
            (mongo.exec (.reservationRelease id status [.reserved, .committed]) s).1 g = _
          rw [ha]
          show ({ g with rows := g.rows.map List.tail } : HandlerNote) = _
          rw [hrows]
          rfl
        rw [hnote]
        exact exec_reservationRelease_sound hs horder hrows hi h
      | reservationsCommit k => exact exec_reservationsCommit_sound ho.2 hi h
      | orderUpdate u now =>
        cases u with
        | expire k => exact exec_expire_sound ho hi h
        | advance id behind status => exact exec_advance_sound ho.2 hi h
        | _ => exact (ho.2.elim (fun h => h) (fun h => h) : False).elim
      | productRestock r => exact exec_untouching_sound (.inr trivial) hi h
      | _ => exact exec_untouching_sound ho.2 hi h

end Steps

/-! ## Runs -/

/-- Since it cancelled the order, a sweep has made calls of its release only. -/
def StillReleasing (cfg : ServerConfig) (c : ServerPool) (as : List (Action Request)) (d : ServerPool)
    (i : Nat) (k : ObjectId) : Prop :=
  ∃ before after e e' now, as = before ++ .act i :: after ∧
    (server cfg).Run (fun _ a => a.unfailing) c before e ∧
    e.head? i = some (.op (.orderUpdate (.expire k) now)) ∧ e.state.Awaiting k ∧
    (server cfg).step e (.act i) = some e' ∧
    (server cfg).Run (fun p a => a.unfailing ∧
      (a = .act i → ∃ o, p.head? i = some (.op o) ∧ o.OfRelease)) e' after d

/-- What is left to release is for an order that the sweep is releasing. -/
def Recounted (cfg : ServerConfig) (c : ServerPool) (as : List (Action Request)) (d : ServerPool)
    (gs : List HandlerNote) : Prop :=
  ∀ i g k, gs[i]? = some g → g.order = some k → ¬ g.Idle → StillReleasing cfg c as d i k

theorem StillReleasing.snoc {cfg : ServerConfig} {c d e : ServerPool} {as : List (Action Request)}
    {a : Action Request} {i : Nat} {k : ObjectId} (h : StillReleasing cfg c as d i k) (ha : a.unfailing)
    (hmove : a = .act i → ∃ o, d.head? i = some (.op o) ∧ o.OfRelease)
    (hstep : (server cfg).step d a = some e) : StillReleasing cfg c (as ++ [a]) e i k := by
  obtain ⟨before, after, p, p', now, rfl, hbefore, hhead, hwaiting, hexpire, hafter⟩ := h
  refine ⟨before, after ++ [a], p, p', now, ?_, hbefore, hhead, hwaiting, hexpire, hafter.snoc ⟨ha, hmove⟩ hstep⟩
  rw [List.append_assoc, List.cons_append]

/-- A handler that is releasing an order goes on with that. -/
theorem may_release {o : TxOp Mongo ApiError} {g : HandlerNote} (ho : serverMemo.may o g)
    (hsound : g.void = false) (hidle : ¬ g.Idle) :
    (∃ x, o = .op x ∧ x.OfRelease) ∧ ∀ r, (serverMemo.note o r g).order = g.order := by
  cases o with
  | txn work =>
    obtain hvoid | ⟨hidle', -⟩ := ho
    · cases hsound.symm.trans hvoid
    · exact absurd hidle' hidle
  | op o =>
    obtain hvoid | ho := ho
    · cases hsound.symm.trans hvoid
    · cases o with
      | reservationsActive k =>
        refine ⟨⟨_, rfl, trivial⟩, fun r => ?_⟩
        cases r with
        | error e => rfl
        | ok ids =>
          show HandlerNote.order (if g.order = some k ∧ g.rows = none then _ else g) = g.order
          split <;> rfl
      | productRestock r => exact ⟨⟨_, rfl, trivial⟩, fun _ => rfl⟩
      | reservationRelease id status fromStatuses =>
        obtain ⟨hs, rfl, -⟩ := ho
        refine ⟨⟨_, rfl, hs, by simp [ReservationStatus.Active]⟩, fun r => ?_⟩
        cases r <;> rfl
      | orderUpdate u now =>
        cases u with
        | expire k => exact absurd ho hidle
        | _ => exact absurd ho.1 hidle
      | _ => exact absurd ho.1 hidle

/-- Only a cancellation gives a handler something to release. -/
theorem note_expires {o : TxOp Mongo ApiError} {g : HandlerNote} {s : Db} {k : ObjectId}
    (ho : serverMemo.may o g) (hsound : g.void = false) (hidle : g.Idle)
    (horder : (serverMemo.note o (mongo.transactional.exec o s).1 g).order = some k)
    (hbusy : ¬ (serverMemo.note o (mongo.transactional.exec o s).1 g).Idle) :
    ∃ now, o = .op (.orderUpdate (.expire k) now) ∧ s.Awaiting k := by
  cases o with
  | txn work => exact absurd hidle hbusy
  | op o =>
    cases o with
    | reservationsActive j =>
      refine absurd ?_ hbusy
      have hnot : ¬ (g.order = some j ∧ g.rows = none) := by
        rintro ⟨hj, hrows⟩
        rcases hidle with h | h
        · cases h.symm.trans hj
        · cases h.symm.trans hrows
      show HandlerNote.Idle (if g.order = some j ∧ g.rows = none then _ else g)
      rw [if_neg hnot]
      exact hidle
    | reservationRelease id status fromStatuses =>
      obtain hvoid | ⟨-, -, j, rest, hj, hrows⟩ := ho
      · cases hsound.symm.trans hvoid
      · rcases hidle with h | h
        · cases h.symm.trans hj
        · cases h.symm.trans hrows
    | orderUpdate u now =>
      cases u with
      | expire j =>
        obtain ⟨x, hx, hguard, heq⟩ | ⟨-, heq⟩ := exec_orderUpdate (.expire j) now s
        · have hnote : (serverMemo.note (.op (.orderUpdate (.expire j) now))
              (mongo.transactional.exec (.op (.orderUpdate (.expire j) now)) s).1 g).order = some j := by
            show (HandlerNote.note (.orderUpdate (.expire j) now)
              (mongo.exec (.orderUpdate (.expire j) now) s).1 g).order = some j
            rw [heq]
            exact congrArg some ((OrderUpdate.apply_id _ _ _).trans (get?_key hx))
          obtain rfl := Option.some_inj.1 (hnote.symm.trans horder)
          have hwaiting : x.status = .pending ∧ x.paymentStatus = .unpaid := by
            simpa [OrderUpdate.guard] using hguard
          exact ⟨now, rfl, x, hx, hwaiting⟩
        · refine absurd ?_ hbusy
          show (HandlerNote.note (.orderUpdate (.expire j) now)
            (mongo.exec (.orderUpdate (.expire j) now) s).1 g).Idle
          rw [heq]
          exact hidle
      | _ => exact absurd hidle hbusy
    | reservationsExpired now batchSize => exact absurd hidle hbusy
    | orderFindById j =>
      refine absurd ?_ hbusy
      show (HandlerNote.note (.orderFindById j) (.ok (s.orders.get? j)) g).Idle
      cases s.orders.get? j <;> exact hidle
    | _ => exact absurd hidle hbusy

theorem serverMemo_note_error (o : TxOp Mongo ApiError) (e : ApiError) (g : HandlerNote) :
    serverMemo.note o (.error e) g = g := by
  cases o with
  | txn work => rfl
  | op o =>
    cases o with
    | orderUpdate u now => cases u <;> rfl
    | _ => rfl

section Runs

variable {cfg : ServerConfig} {c d e : ServerPool} {as : List (Action Request)} {gs : List HandlerNote}

/-- The next call of a handler that has something left to release. -/
theorem release_head (hminutes : serverMemo.Minutes (fun _ _ g => g.Ends) d gs) (hsound : Sound d.state gs)
    {i : Nat} {g : HandlerNote} (hi : gs[i]? = some g) (hidle : ¬ g.Idle) :
    ∃ o, d.head? i = some (.op o) ∧ o.OfRelease := by
  have hvoid := (hsound.memo hi).sound
  obtain ⟨hlt, -⟩ := List.getElem?_eq_some_iff.1 hi
  have hlen : i < d.threads.length := hminutes.length_eq.symm ▸ hlt
  obtain ⟨⟨l, p⟩, ht⟩ : ∃ t, d.threads[i]? = some t := ⟨_, List.getElem?_eq_getElem hlen⟩
  obtain ⟨g', hi', htracks⟩ := hminutes.memo ht
  obtain rfl := Option.some_inj.1 (hi.symm.trans hi')
  cases p with
  | done r =>
    rcases (htracks : g.Ends) with h | h
    · cases hvoid.symm.trans h
    · exact absurd h hidle
  | call o k =>
    obtain ⟨⟨x, rfl, hx⟩, -⟩ := may_release htracks.1 hvoid hidle
    refine ⟨x, ?_, hx⟩
    simp [Pool.head?, ht, Prog.head?]

theorem Recounted.snoc (h : Recounted cfg c as d gs) (hminutes : serverMemo.Minutes (fun _ _ g => g.Ends) d gs)
    (hsound : Sound d.state gs) {a : Action Request} (ha : a.unfailing)
    (hstep : (server cfg).step d a = some e) : Recounted cfg c (as ++ [a]) e gs := by
  intro i g k hi hk hidle
  exact (h i g k hi hk hidle).snoc ha (fun _ => release_head hminutes hsound hi hidle) hstep

theorem Sound.spawn {s : Db} (h : Sound s gs) : Sound s (gs ++ [blank]) := by
  refine ⟨h.accords.mono fun r _ _ howed => ?_, fun g hg => ?_⟩
  · obtain ⟨g, hg, howes⟩ := howed
    exact ⟨g, List.mem_append_left _ hg, howes⟩
  · rcases List.mem_append.1 hg with hg | hg
    · exact h.backed g hg
    · obtain rfl := List.mem_singleton.1 hg
      exact .blank s

/-- Along every run without failures on a replica set, orders and reservations go together, but for what
sweeps are releasing. -/
theorem run_sound (hreplica : cfg.deployment = .replicaSet)
    (hrun : (server cfg).Run (fun _ a => a.unfailing) c as d) (hstart : c.threads = [])
    (hs : Sound c.state []) :
    ∃ gs, serverMemo.Minutes (fun _ _ g => g.Ends) d gs ∧ Sound d.state gs ∧ Recounted cfg c as d gs := by
  refine hrun.induct (P := fun as d => ∃ gs, serverMemo.Minutes (fun _ _ g => g.Ends) d gs ∧
    Sound d.state gs ∧ Recounted cfg c as d gs) ?_ ?_
  · exact ⟨[], by simp [Memo.Minutes, hstart], hs, fun i g k hi => by cases hi⟩
  rintro as d a e hrun hunfailing hstep ⟨gs, hminutes, hsound, hrecount⟩
  have hfault : ∀ i, a ≠ .fault i := by
    rintro i rfl
    cases hunfailing
  have hkill : ∀ i, a ≠ .kill i := by
    rintro i rfl
    cases hunfailing
  have hcode : ∀ l : Request, serverMemo.Tracks (fun _ g => g.Ends) ((server cfg).code l) blank :=
    handler_noted hreplica
  have hnext := hrecount.snoc hminutes hsound hunfailing hstep
  obtain ⟨gs', hminutes', ⟨l, -, rfl, hstate⟩ | ⟨i, o, g, hhead, hi, hmay, hmove⟩⟩ :=
    hminutes.step (fun l _ => hcode l) hstep (fun o => ⟨d.state, rfl⟩)
      (fun i _ h => absurd h (hfault i)) (fun i h => absurd h (hkill i))
  · refine ⟨_, hminutes', hstate ▸ hsound.spawn, fun i g k hi hk hidle => ?_⟩
    rcases List.mem_append.1 (List.mem_of_getElem? hi) with hmem | hmem
    · by_cases hlt : i < gs.length
      · rw [List.getElem?_append_left hlt] at hi
        exact hnext i g k hi hk hidle
      · rw [List.getElem?_append_right (Nat.le_of_not_lt hlt)] at hi
        obtain rfl := List.mem_singleton.1 (List.mem_of_getElem? hi)
        cases hk
    · obtain rfl := List.mem_singleton.1 hmem
      cases hk
  · obtain ⟨rfl, hstate, rfl⟩ | ⟨hstate, rfl⟩ | ⟨hstate, rfl⟩ := hmove
    · refine ⟨_, hminutes', hstate.symm ▸ exec_sound o hi hmay hsound, fun j x k hj hk hbusy => ?_⟩
      by_cases hij : i = j
      · subst hij
        have hlt : i < gs.length := (List.getElem?_eq_some_iff.1 hi).1
        rw [List.getElem?_set_self hlt] at hj
        obtain rfl := Option.some_inj.1 hj
        by_cases hidle : g.Idle
        · obtain ⟨now, rfl, hwaiting⟩ := note_expires hmay (hsound.memo hi).sound hidle hk hbusy
          exact ⟨as, [], d, e, now, rfl, hrun, hhead, hwaiting, hstep, .nil e⟩
        · have hsame := (may_release hmay (hsound.memo hi).sound hidle).2
          exact hnext i g k hi ((hsame _).symm.trans hk) hidle
      · rw [List.getElem?_set_ne hij] at hj
        exact hnext j x k hj hk hbusy
    · refine ⟨_, hminutes', ?_⟩
      have hsame := serverMemo_note_error o mongo.fault g
      have hset : gs.set i (serverMemo.note o (.error mongo.fault) g) = gs := by
        rw [hsame]
        obtain ⟨hlt, rfl⟩ := List.getElem?_eq_some_iff.1 hi
        exact List.set_getElem_self hlt
      rw [hstate]
      exact hset.symm ▸ ⟨hsound, hnext⟩
    · exact ⟨_, hminutes', hstate.symm ▸ hsound, hnext⟩

theorem sound_empty {s : Db} (horders : s.orders.docs = []) (hrows : s.reservations.docs = []) :
    Sound s [] := by
  refine ⟨⟨fun r hr => ?_, fun o ho => ?_⟩, fun g hg => by cases hg⟩
  · rw [hrows] at hr
    cases hr
  · rw [horders] at ho
    cases ho

end Runs

/-- On a replica set, the states of every order go together after every run without failures, and with
them its reservations, but for those that the sweep that cancelled it is still releasing. -/
theorem states_consistent {cfg : ServerConfig} (hreplica : cfg.deployment = .replicaSet)
    {c d : ServerPool} {as : List (Action Request)}
    (hrun : (server cfg).Run (fun _ a => a.unfailing) c as d) (hthreads : c.threads = [])
    (horders : c.state.orders.docs = []) (hrows : c.state.reservations.docs = [])
    {o : Order} (ho : o ∈ d.state.orders.docs) :
    ((o.status = .pending → o.paymentStatus = .unpaid ∨ o.paymentStatus = .failed) ∧
      (o.status ∈ [.confirmed, .processing, .shipped, .delivered] →
        o.paymentStatus = .paid ∨ o.paymentStatus = .refunded)) ∧
    ((o.status = .cancelled → o.paymentStatus = .paid → o.refundStatus = .requested) ∧
      (o.refundStatus = .processed ↔ o.paymentStatus = .refunded)) ∧
    (o.status = .pending ∧ o.paymentStatus = .unpaid → d.state.Holds o .reserved) ∧
    (o.paymentStatus = .paid ∧ o.status ≠ .cancelled → d.state.Holds o .committed) ∧
    (o.paymentStatus = .failed ∨ o.paymentStatus = .refunded ∨ o.status = .cancelled →
      ∀ r ∈ d.state.activeOf o.id, ∃ i, StillReleasing cfg c as d i o.id ∧
        ∃ op, d.head? i = some (.op op) ∧ op.OfRelease) := by
  obtain ⟨gs, hminutes, hsound, hrecount⟩ := run_sound hreplica hrun hthreads (sound_empty horders hrows)
  have hsuits := hsound.accords.suits o ho
  have hconsistent := hsuits.consistent
  refine ⟨⟨hconsistent.pending, hconsistent.fulfilled⟩, ⟨hconsistent.kept, hconsistent.processed⟩,
    hsuits.waiting, hsuits.kept, fun hclosed r hr => ?_⟩
  obtain ⟨g, hg, howes⟩ := hsuits.closed hclosed r hr
  have hidle : ¬ g.Idle := fun hidle => hidle.not_owes r howes
  obtain ⟨i, hi⟩ := List.mem_iff_getElem?.1 hg
  obtain ⟨k, hk, horder, -⟩ := howes
  obtain rfl := Option.some_inj.1 (horder.symm.trans (mem_activeOf.1 hr).2.1)
  exact ⟨i, hrecount i g _ hi hk hidle, release_head hminutes hsound hi hidle⟩

/-- The sample checkout, and a sweep that has just cancelled its order. -/
def sweptCheckout : List (Action Request) :=
  [.spawn (sampleCheckout 0), .act 0, .spawn (.sweep 1000000 10), .act 1, .act 1]

theorem states_consistent_sweptCheckout :
    ∃ d, (server (sampleConfig .replicaSet)).play (fun _ a => a.unfailing) ⟨sampleDb, []⟩
        sweptCheckout = some d ∧
      ∃ o ∈ d.state.orders.docs, o.status = .cancelled ∧ d.state.activeOf o.id ≠ [] ∧
        ∀ r ∈ d.state.activeOf o.id, ∃ i,
          StillReleasing (sampleConfig .replicaSet) ⟨sampleDb, []⟩ sweptCheckout d i o.id := by
  obtain ⟨d, hd, h⟩ := (Option.any_eq_true _ _).1 (by decide +kernel :
    ((server (sampleConfig .replicaSet)).play (fun _ a => a.unfailing) ⟨sampleDb, []⟩ sweptCheckout).any
      fun d => d.state.orders.docs.any fun o =>
        decide (o.status = .cancelled) && decide (d.state.activeOf o.id ≠ []))
  obtain ⟨o, ho, h⟩ := List.any_eq_true.1 h
  simp only [Bool.and_eq_true, decide_eq_true_eq] at h
  obtain ⟨-, -, -, -, hclosed⟩ := states_consistent rfl (System.Run.of_play hd) rfl rfl rfl ho
  refine ⟨d, hd, o, ho, h.1, h.2, fun r hr => ?_⟩
  obtain ⟨i, hreleasing, -⟩ := hclosed (.inr (.inr h.1)) r hr
  exact ⟨i, hreleasing⟩

end Ecommerce
