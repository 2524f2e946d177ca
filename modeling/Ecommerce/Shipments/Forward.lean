import Ecommerce.Model.Calls

/-!
# Shipments move forward

A shipment is written under the status that was read before, so the write cannot overwrite a status
it has not seen. Only the very first write of a shipment has nothing to compare with, and it may find
one that has been stored meanwhile.
-/

namespace Ecommerce

open Effect

/-- The stored shipment of an order under a seller, or the whole order's under none. -/
def Db.shipment (s : Db) (order : ObjectId) (seller : Option ObjectId) : Option Shipment :=
  s.shipments.find? fun x => x.order == order && x.seller == seller

/-- Every stored shipment stays as it is, or moves as `canTransitionShipment` allows. -/
def ShipmentsMove (s t : Db) : Prop :=
  ∀ order seller a b, s.shipment order seller = some a → t.shipment order seller = some b →
    canTransitionShipment a.status b.status

@[simp] theorem canTransitionShipment_self (status : ShipmentStatus) :
    canTransitionShipment status status := by
  simp [canTransitionShipment]

theorem ShipmentsMove.of_shipments {s t : Db} (h : t.shipments = s.shipments) : ShipmentsMove s t := by
  intro order seller a b ha hb
  rw [Db.shipment, h] at hb
  obtain rfl := Option.some_inj.1 (ha.symm.trans hb)
  exact canTransitionShipment_self _

theorem exec_shipments {o : DbOp} (h : ∀ shipment existing, o ≠ .shipmentUpsert shipment existing)
    (s : Db) : (mongo.exec o s).2.shipments = s.shipments := by
  cases o with
  | shipmentUpsert shipment existing => exact absurd rfl (h shipment existing)
  | _ =>
    first
    | rfl
    | (simp only [mongo, Db.exec]; split <;> first | rfl | (split <;> rfl))

/-- A row that the write replaces. -/
def hits (shipment : Shipment) (existing : Option ShipmentStatus) (x : Shipment) : Bool :=
  x.order == shipment.order && x.seller == shipment.seller && existing.all (· == x.status)

/-- Replacing rows by one under the same key does not change where a key is found. -/
theorem find?_replace (shipment : Shipment) (existing : Option ShipmentStatus) (order : ObjectId)
    (seller : Option ObjectId) (rows : List Shipment) :
    (rows.map fun x => if hits shipment existing x then shipment else x).find?
        (fun x => x.order == order && x.seller == seller) =
      (rows.find? fun x => x.order == order && x.seller == seller).map
        fun x => if hits shipment existing x then shipment else x := by
  rw [List.find?_map]
  congr 2
  funext x
  by_cases hx : hits shipment existing x
  · obtain ⟨⟨horder, hseller⟩, -⟩ : (x.order = shipment.order ∧ x.seller = shipment.seller) ∧ _ := by
      simpa [hits] using hx
    simp [hx, horder, hseller]
  · simp [hx]

/-- What a write does to the stored shipments. -/
theorem exec_shipmentUpsert (shipment : Shipment) (existing : Option ShipmentStatus) (s : Db)
    {order : ObjectId} {seller : Option ObjectId} {a b : Shipment}
    (ha : s.shipment order seller = some a)
    (hb : (mongo.exec (.shipmentUpsert shipment existing) s).2.shipment order seller = some b) :
    b = if hits shipment existing a then shipment else a := by
  have hmem := List.mem_of_find?_eq_some ha
  simp only [mongo, Db.exec] at hb
  split at hb
  · have hrows := find?_replace shipment existing order seller s.shipments
    have hfound : s.shipments.find? (fun x => x.order == order && x.seller == seller) = some a := ha
    rw [hfound] at hrows
    exact Option.some_inj.1 (hb.symm.trans hrows)
  · next hany =>
    have hno : ¬ hits shipment existing a := fun h => hany (List.any_eq_true.2 ⟨a, hmem, h⟩)
    rw [if_neg hno]
    split at hb
    · have hfound : (s.shipments ++ [shipment]).find?
          (fun x => x.order == order && x.seller == seller) = some a := by
        rw [List.find?_append]
        exact (congrArg (Option.or · _) ha)
      exact Option.some_inj.1 (hb.symm.trans hfound)
    · exact Option.some_inj.1 (hb.symm.trans ha)

theorem exec_shipmentUpsert_hit {shipment stored : Shipment} {existing : Option ShipmentStatus}
    {s : Db} (hstored : s.shipment shipment.order shipment.seller = some stored)
    (hhits : hits shipment existing stored) :
    (mongo.exec (.shipmentUpsert shipment existing) s).2.shipment shipment.order shipment.seller =
      some shipment := by
  have hany : s.shipments.any (hits shipment existing) :=
    List.any_eq_true.2 ⟨stored, List.mem_of_find?_eq_some hstored, hhits⟩
  have hrows := find?_replace shipment existing shipment.order shipment.seller s.shipments
  have hfound : s.shipments.find? (fun x => x.order == shipment.order && x.seller == shipment.seller) =
    some stored := hstored
  rw [hfound, Option.map_some, if_pos hhits] at hrows
  simp only [mongo, Db.exec]
  split
  · exact hrows
  · next h => exact absurd hany h

/-- A stored shipment stays stored. -/
theorem exec_shipment_stays (o : DbOp) {s : Db} {order : ObjectId} {seller : Option ObjectId}
    (h : (s.shipment order seller).isSome) :
    ((mongo.exec o s).2.shipment order seller).isSome := by
  by_cases hwrite : ∃ shipment existing, o = .shipmentUpsert shipment existing
  · obtain ⟨shipment, existing, rfl⟩ := hwrite
    simp only [mongo, Db.exec]
    split
    · have hrows := find?_replace shipment existing order seller s.shipments
      refine (congrArg Option.isSome hrows).trans ?_
      rw [Option.isSome_map]
      exact h
    · split
      · refine (congrArg Option.isSome (List.find?_append ..)).trans ?_
        rw [Option.isSome_or, Bool.or_eq_true]
        exact .inl h
      · exact h
  · rw [Db.shipment, exec_shipments fun shipment existing h => hwrite ⟨shipment, existing, h⟩]
    exact h

/-! ## Runs -/

/-- The step is the first write of a shipment, and it meets one that may not move to its status. -/
def BlindWrite (c : ServerPool) (a : Action Request) : Prop :=
  ∃ i shipment stored, a = .act i ∧ c.head? i = some (.op (.shipmentUpsert shipment none)) ∧
    c.state.shipment shipment.order shipment.seller = some stored ∧
    ¬ canTransitionShipment stored.status shipment.status

/-- No shipment is written in a transaction, and none outside that may not move on. -/
def TxOp.ForwardOnly : TxOp Mongo ApiError → Prop
  | .op o => ∀ shipment existing, o = .shipmentUpsert shipment existing →
    ∀ status, existing = some status → canTransitionShipment status shipment.status
  | .txn work => work.Issues fun o => ∀ shipment existing, o ≠ DbOp.shipmentUpsert shipment existing

theorem DbOp.OfSettlement.writes_no_shipment {o : DbOp} (h : o.OfSettlement) (shipment : Shipment)
    (existing : Option ShipmentStatus) : o ≠ .shipmentUpsert shipment existing := by
  rintro rfl
  rcases h with h | h | h <;> exact h

theorem DbOp.OfPayment.writes_no_shipment {o : DbOp} (h : o.OfPayment) (shipment : Shipment)
    (existing : Option ShipmentStatus) : o ≠ .shipmentUpsert shipment existing := by
  rcases h with h | h
  · exact h.writes_no_shipment _ _
  · rintro rfl
    exact h

theorem DbOp.OfCheckout.writes_no_shipment {o : DbOp} (h : o.OfCheckout) (shipment : Shipment)
    (existing : Option ShipmentStatus) : o ≠ .shipmentUpsert shipment existing := by
  rintro rfl
  rcases h with h | h <;> exact h

theorem DbOp.OfTransaction.writes_no_shipment {o : DbOp} (h : o.OfTransaction) (shipment : Shipment)
    (existing : Option ShipmentStatus) : o ≠ .shipmentUpsert shipment existing := by
  rcases h with h | h | h
  · exact h.writes_no_shipment _ _
  · rintro rfl
    exact h
  · exact h.writes_no_shipment _ _

theorem handler_forwardOnly (cfg : ServerConfig) (request : Request) :
    (request.handler cfg).Issues TxOp.ForwardOnly := by
  refine handler_issues ?_ (fun _ _ _ h => h.mono fun _ h => h.writes_no_shipment) request
  rintro o (h | h) shipment existing rfl
  · exact absurd rfl (h.writes_no_shipment shipment existing)
  · exact h.elim False.elim id

theorem step_shipment_stays {cfg : ServerConfig} {c d : ServerPool} {a : Action Request}
    (hstep : (server cfg).step c a = some d) {order : ObjectId} {seller : Option ObjectId}
    (h : (c.state.shipment order seller).isSome) : (d.state.shipment order seller).isSome := by
  obtain ⟨l, rfl, rfl⟩ | ⟨i, l, o, k, ht, ⟨rfl, rfl⟩ | ⟨-, rfl⟩ | ⟨-, rfl⟩⟩ :=
    (server cfg).step_cases hstep
  · exact h
  · exact Machine.transactional_keeps (M := mongo) (φ := fun _ => True)
      (I := fun s => (s.shipment order seller).isSome)
      (fun o _ s hs => exec_shipment_stays o hs) o (by cases o <;> first | trivial | exact Prog.issues_of_forall (fun _ => trivial) _)
      c.state h
  · exact h
  · exact h

theorem canTransitionShipment_delivered {status : ShipmentStatus}
    (h : canTransitionShipment .delivered status) : status = .delivered := by
  cases status <;> first | rfl | exact absurd h (by decide)

/-- A step moves shipments forward, unless it is a blind write. -/
theorem step_shipmentsMove {cfg : ServerConfig} {c d : ServerPool} {a : Action Request}
    (hthreads : ∀ t ∈ c.threads, t.prog.Issues TxOp.ForwardOnly)
    (hstep : (server cfg).step c a = some d) (hblind : ¬ BlindWrite c a) :
    ShipmentsMove c.state d.state := by
  obtain ⟨l, rfl, rfl⟩ | ⟨i, l, o, k, ht, ⟨rfl, rfl⟩ | ⟨-, rfl⟩ | ⟨-, rfl⟩⟩ :=
    (server cfg).step_cases hstep
  · exact .of_shipments rfl
  · have hforward := (hthreads _ (List.mem_of_getElem? ht)).1
    cases o with
    | txn work =>
      refine .of_shipments ?_
      exact Machine.transactional_keeps (M := mongo) (I := fun s => s.shipments = c.state.shipments)
        (fun o ho s hs => (exec_shipments ho s).trans hs) (.txn work) hforward c.state rfl
    | op o =>
      by_cases hwrite : ∃ shipment existing, o = .shipmentUpsert shipment existing
      · obtain ⟨shipment, existing, rfl⟩ := hwrite
        intro order seller x y hx hy
        have hy' := exec_shipmentUpsert shipment existing c.state hx hy
        split at hy'
        · next hhits =>
          simp only [hits, Bool.and_eq_true, beq_iff_eq] at hhits
          obtain ⟨⟨horder, hseller⟩, hstatus⟩ := hhits
          subst hy'
          cases existing with
          | some status =>
            obtain rfl : status = x.status := by simpa using hstatus
            exact hforward _ _ rfl _ rfl
          | none =>
            by_contra hno
            have hkey := List.find?_some hx
            simp only [Bool.and_eq_true, beq_iff_eq] at hkey
            refine hblind ⟨i, y, x, rfl, by simp [Pool.head?, ht, Prog.head?], ?_, hno⟩
            rw [← horder, ← hseller, hkey.1, hkey.2]
            exact hx
        · subst hy'
          exact canTransitionShipment_self _
      · exact .of_shipments (exec_shipments (fun shipment existing h => hwrite ⟨shipment, existing, h⟩)
          c.state)
  · exact .of_shipments rfl
  · exact .of_shipments rfl

/-- A blind write does move a shipment as it may not. -/
theorem BlindWrite.not_shipmentsMove {cfg : ServerConfig} {c d : ServerPool} {a : Action Request}
    (h : BlindWrite c a) (hstep : (server cfg).step c a = some d) :
    ¬ ShipmentsMove c.state d.state := by
  obtain ⟨i, shipment, stored, rfl, hhead, hstored, hno⟩ := h
  obtain ⟨l, hact, -⟩ | ⟨j, l, o, k, ht, ⟨hact, rfl⟩ | ⟨hact, -⟩ | ⟨hact, -⟩⟩ :=
    (server cfg).step_cases hstep
  · cases hact
  · obtain rfl := Action.act.inj hact
    have ho : c.head? i = some o := by simp [Pool.head?, ht, Prog.head?]
    obtain rfl := Option.some_inj.1 (ho.symm.trans hhead)
    intro hmove
    have hkey := List.find?_some hstored
    have hhits : hits shipment none stored := by simpa [hits] using hkey
    exact hno (hmove _ _ stored shipment hstored (exec_shipmentUpsert_hit hstored hhits))
  · cases hact
  · cases hact

/-- In every state that a run reaches, a step moves the stored shipments as `canTransitionShipment`
allows, exactly when it is not the first write of a shipment that meets one which may not move to its
status. As long as no step is, a delivered shipment stays delivered. -/
theorem shipments_forward {cfg : ServerConfig} {admits : ServerPool → Action Request → Prop}
    {start c : ServerPool} {as : List (Action Request)} (hstart : start.threads = [])
    (hrun : (server cfg).Run admits start as c) :
    (∀ a d, (server cfg).step c a = some d → (ShipmentsMove c.state d.state ↔ ¬ BlindWrite c a)) ∧
    ∀ bs d, (server cfg).Run (fun c a => ¬ BlindWrite c a) c bs d → ∀ order seller x,
      c.state.shipment order seller = some x → x.status = .delivered →
        ∃ y, d.state.shipment order seller = some y ∧ y.status = .delivered := by
  have hthreads : ∀ t ∈ c.threads, t.prog.Issues TxOp.ForwardOnly :=
    (hrun.issues (I := fun _ => True) (handler_forwardOnly cfg) (fun _ _ _ h => h)
      (by simp [hstart]) trivial).2
  refine ⟨fun a d hstep => ⟨fun hmove hblind => hblind.not_shipmentsMove hstep hmove,
    step_shipmentsMove hthreads hstep⟩, ?_⟩
  intro bs d hbs order seller x hx hdelivered
  refine (hbs.invariant (P := fun c => (∀ t ∈ c.threads, t.prog.Issues TxOp.ForwardOnly) ∧
    ∃ y, c.state.shipment order seller = some y ∧ y.status = .delivered) ?_
    ⟨hthreads, x, hx, hdelivered⟩).2
  rintro c a d hblind hstep ⟨hthreads, y, hy, hdelivered⟩
  refine ⟨System.step_issues (φ := fun _ => TxOp.ForwardOnly) (handler_forwardOnly cfg) hstep
    hthreads, ?_⟩
  obtain ⟨z, hz⟩ := Option.isSome_iff_exists.1
    (step_shipment_stays hstep (Option.isSome_iff_exists.2 ⟨y, hy⟩))
  have hmove := step_shipmentsMove hthreads hstep hblind order seller y z hy hz
  exact ⟨z, hz, canTransitionShipment_delivered (hdelivered ▸ hmove)⟩

/-- The paid sample order, and two admins that both find no shipment of it. -/
def firstShipments : List (Action Request) :=
  [.spawn (sampleCheckout 0), .act 0, .spawn (.webhook (sampleDelivery "e") 1), .act 1, .act 1, .act 1,
    .act 1, .spawn (.shipment ⟨9, .admin, "t"⟩ 0 ⟨.delivered⟩ 2), .act 2, .act 2,
    .spawn (.shipment ⟨8, .admin, "t"⟩ 0 ⟨.pending⟩ 2), .act 3, .act 3]

/-- The first of the two to write moves a shipment as it may. -/
theorem shipments_forward_first :
    ∃ c d : ServerPool, (server (sampleConfig .replicaSet)).step c (.act 2) = some d ∧
      c.state.shipment 0 none = none ∧
      (d.state.shipment 0 none).map (·.status) = some .delivered ∧
      (ShipmentsMove c.state d.state ↔ ¬ BlindWrite c (.act 2)) := by
  obtain ⟨c, hc, h⟩ := (Option.any_eq_true _ _).1 (by decide +kernel :
    ((server (sampleConfig .replicaSet)).play (fun _ _ => true) ⟨sampleDb, []⟩ firstShipments).any
      fun c => ((server (sampleConfig .replicaSet)).step c (.act 2)).any fun d =>
        decide (c.state.shipment 0 none = none) &&
          decide ((d.state.shipment 0 none).map (·.status) = some .delivered))
  obtain ⟨d, hd, h⟩ := (Option.any_eq_true _ _).1 h
  simp only [Bool.and_eq_true, decide_eq_true_eq] at h
  exact ⟨c, d, hd, h.1, h.2, (shipments_forward rfl (System.Run.of_play hc)).1 _ d hd⟩

/-- The second overwrites a delivered shipment by a pending one. -/
theorem shipments_forward_counterexample :
    ∃ c d : ServerPool,
      (server (sampleConfig .replicaSet)).Run (fun _ _ => True) ⟨sampleDb, []⟩
        (firstShipments ++ [.act 2]) c ∧
      (server (sampleConfig .replicaSet)).step c (.act 3) = some d ∧
      (c.state.shipment 0 none).map (·.status) = some .delivered ∧
      (d.state.shipment 0 none).map (·.status) = some .pending ∧
      ¬ ShipmentsMove c.state d.state := by
  obtain ⟨c, hc, h⟩ := (Option.any_eq_true _ _).1 (by decide +kernel :
    ((server (sampleConfig .replicaSet)).play (fun _ _ => true) ⟨sampleDb, []⟩
      (firstShipments ++ [.act 2])).any
      fun c => ((server (sampleConfig .replicaSet)).step c (.act 3)).any fun d =>
        decide ((c.state.shipment 0 none).map (·.status) = some .delivered) &&
          decide ((d.state.shipment 0 none).map (·.status) = some .pending))
  obtain ⟨d, hd, h⟩ := (Option.any_eq_true _ _).1 h
  simp only [Bool.and_eq_true, decide_eq_true_eq] at h
  refine ⟨c, d, (System.Run.of_play hc).mono fun _ _ _ => trivial, hd, h.1, h.2, fun hmove => ?_⟩
  obtain ⟨x, hx, hdelivered⟩ := Option.map_eq_some_iff.1 h.1
  obtain ⟨y, hy, hpending⟩ := Option.map_eq_some_iff.1 h.2
  have hmay := hmove 0 none x y hx hy
  rw [hdelivered, hpending] at hmay
  exact absurd hmay (by decide)

end Ecommerce
