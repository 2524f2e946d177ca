import Ecommerce.Orders.Lifecycle
import Ecommerce.Stock.Conservation

/-!
# Compensation among concurrent operations

On a standalone server a checkout that fails undoes its steps one call at a time, without looking
at what has become of the documents meanwhile. Where every undo call finds its document as the
checkout left it, units are neither lost nor returned twice and no paid order is deleted.
-/

namespace Ecommerce

open Effect Effect.Discipline

variable {w : ObjectId → ℤ} {r : ObjectId}

/-- No program is stopped, and the calls that fail are none that put units back. -/
def stepsFail (c : ServerPool) : Action Request → Bool
  | .kill _ => false
  | .fault i =>
    match c.head? i with
    | some (.op (.productRestock _)) | some (.op (.productUnreserve _ _))
    | some (.op (.reservationUndo _)) | some (.op (.couponUnclaim _))
    | some (.op (.orderDelete _)) => false
    | _ => true
  | _ => true

/-- An undo call finds its document as every other release path would demand: a reservation that is
still active, or an order whose payment is open or has failed. -/
def undoInPlace (c : ServerPool) : Action Request → Bool
  | .act i =>
    match c.head? i with
    | some (.op (.reservationUndo id)) => !decide (Released c.state.reservations id)
    | some (.op (.orderDelete id)) =>
      (c.state.orders.get? id).all fun o =>
        o.paymentStatus == .unpaid || o.paymentStatus == .failed
    | _ => true
  | _ => true

theorem admitted_undoInPlace {cfg : ServerConfig} {c : ServerPool} {a : Action Request}
    (hfail : stepsFail c a) (hundo : undoInPlace c a) :
    ((ledger w r).tx ApiError).Admitted (server cfg) (fun _ => Settled) c a where
  spawn l _ hinv := settled_handler cfg l hinv
  act i o ha hhead := by
    subst ha
    cases o with
    | txn work => trivial
    | op o =>
      cases o with
      | reservationUndo id =>
        have hactive : ¬ Released c.state.reservations id := by
          simpa [undoInPlace, hhead] using hundo
        exact hactive
      | _ => trivial
  fault i o ha hhead := by
    subst ha
    cases o with
    | txn work => trivial
    | op o =>
      constructor
      · intro h
        cases o <;> first | exact h.elim | simp [stepsFail, hhead] at hfail
      · rintro x rfl
        simp [stepsFail, hhead] at hfail
  kill i t g ha := by
    subst ha
    cases hfail

/-! ## Deleted orders -/

/-- The order was never paid for. -/
def Order.NeverPaid (o : Order) : Prop := ∀ entry ∈ o.paymentStateHistory, entry.toStatus ≠ .paid

theorem Order.Sound.neverPaid {o : Order} (h : o.Sound)
    (hopen : o.paymentStatus = .unpaid ∨ o.paymentStatus = .failed) : o.NeverPaid := by
  intro entry hmem hpaid
  have := h.history.paid_of_mem hmem hpaid
  rcases hopen with hopen | hopen <;> simp [hopen] at this

/-- Calls other than the deletion of an order delete none. -/
theorem exec_deletedOrders (o : DbOp) (h : ∀ id, o ≠ .orderDelete id) (db : Db) :
    (Db.exec o db).2.deletedOrders = db.deletedOrders := by
  by_cases hwrites : o.WritesOrders
  · cases o with
    | orderDelete id => exact absurd rfl (h id)
    | orderCreate draft now => rfl
    | orderUpdate u now =>
      simp only [Db.exec]
      split
      · split <;> rfl
      · rfl
    | _ => exact hwrites.elim
  · exact (exec_orders hwrites db).2

/-- A step that finds undone documents in place deletes no paid order. -/
theorem step_neverPaid {cfg : ServerConfig} {c d : ServerPool} {a : Action Request}
    (hundo : undoInPlace c a) (hs : (server cfg).step c a = some d)
    (hcalls : ∀ t ∈ c.threads, t.prog.Issues (TxOp.Single DbOp.Legal))
    (hsound : OrdersSound c.state) (h : ∀ o ∈ c.state.deletedOrders, o.NeverPaid) :
    ∀ o ∈ d.state.deletedOrders, o.NeverPaid := by
  obtain ⟨l, rfl, rfl⟩ | ⟨i, l, o, k, ht, ⟨rfl, rfl⟩ | ⟨-, rfl⟩ | ⟨-, rfl⟩⟩ := System.step_cases _ hs
  · exact h
  · have hhead : c.head? i = some o := by simp [Pool.head?, ht, Prog.head?]
    obtain ⟨-, -, ho⟩ := Pool.head?_issues (φ := fun _ => TxOp.Single DbOp.Legal) hcalls hhead
    cases o with
    | txn work => exact ho.elim
    | op o =>
      by_cases hdelete : ∃ id, o = .orderDelete id
      · obtain ⟨id, rfl⟩ := hdelete
        intro x hx
        rcases List.mem_append.1 hx with hx | hx
        · exact h x hx
        · have hx : c.state.orders.get? id = some x := by simpa using hx
          refine Order.Sound.neverPaid (hsound x (Collection.get?_eq_some.1 hx).1) ?_
          simpa [undoInPlace, hhead, hx] using hundo
      · have hkeep := exec_deletedOrders o (fun id hid => hdelete ⟨id, hid⟩) c.state
        intro x hx
        exact h x (hkeep ▸ hx)
  · exact h
  · exact h

/-! ## Runs -/

theorem sum_headCredit_quiescent {c : ServerPool} (h : c.Quiescent) :
    (c.threads.map (headCredit w r)).sum = 0 := by
  refine List.sum_eq_zero fun g hg => ?_
  obtain ⟨t, ht, rfl⟩ := List.mem_map.1 hg
  have hnone : t.prog.head? = none := Option.isNone_iff_eq_none.1 (h t ht)
  simp [headCredit, nextCall, hnone]

/-- Checkouts, failing or not, among any other requests on a standalone server: where the undo
calls find their documents in place, at the end the units of every product on sale or held are as
many as before, no reservation has been returned twice, and no deleted order was ever paid. -/
theorem compensation_undoInPlace {cfg : ServerConfig} (hstandalone : cfg.deployment = .standalone)
    {c d : ServerPool} {as : List (Action Request)}
    (hrun : (server cfg).Run (fun c a => stepsFail c a && undoInPlace c a) c as d)
    (hstart : c.threads = []) (hstock : ∀ x ∈ c.state.products.docs, 0 ≤ x.stock)
    (hrestocks : c.state.restocks = []) (hdeleted : c.state.deletedOrders = [])
    (hsound : ∀ o ∈ c.state.orders.docs, o.Sound) (hend : d.Quiescent) :
    (∀ p x, c.state.products.get? p = some x → ∃ y, d.state.products.get? p = some y ∧
      y.stock + heldUnits d.state.reservations p = x.stock + heldUnits c.state.reservations p) ∧
    d.state.restocks.Nodup ∧
    ∀ o ∈ d.state.deletedOrders, o.NeverPaid := by
  have hledger : ∀ w r, Stocked c.state.products w → _ := fun w r hw =>
    ledger_run (w := w) (r := r) (hrun.mono fun c a h => by
      obtain ⟨hfail, hundo⟩ := Bool.and_eq_true_iff.1 h
      exact admitted_undoInPlace hfail hundo) hstart hw
  refine ⟨fun p x hx => ?_, ?_, ?_⟩
  · obtain ⟨hstocked, hsum⟩ := hledger (unitsOf p) 0 (stocked_unitsOf hx hstock)
    obtain ⟨y, hy⟩ := hstocked.known p (by simp [unitsOf])
    have hunits := congrArg Prod.fst hsum
    rw [sum_headCredit_quiescent hend, add_zero] at hunits
    simp only [ledger, heldValue_unitsOf, stockValue_unitsOf hx, stockValue_unitsOf hy] at hunits
    exact ⟨y, hy, hunits⟩
  · refine List.nodup_iff_count_le_one.2 fun r => ?_
    exact count_restocks_le_one hrestocks (hledger 0 r (stocked_zero hstock)).2
  · have hstep : ∀ c a d, (stepsFail c a && undoInPlace c a) → (server cfg).step c a = some d →
        ((∀ t ∈ c.threads, t.prog.Issues (TxOp.Single DbOp.Legal)) ∧ OrdersSound c.state ∧
          ∀ o ∈ c.state.deletedOrders, o.NeverPaid) →
        (∀ t ∈ d.threads, t.prog.Issues (TxOp.Single DbOp.Legal)) ∧ OrdersSound d.state ∧
          ∀ o ∈ d.state.deletedOrders, o.NeverPaid := by
      rintro c a d ha hs ⟨hcalls, hc, hnever⟩
      have hlegal : ∀ t ∈ c.threads, t.prog.Issues (TxOp.Within DbOp.Legal) := fun t ht =>
        (hcalls t ht).mono fun o ho => by
          cases o with
          | op o => exact ho
          | txn work => exact ho.elim
      exact ⟨System.step_issues (φ := fun _ => TxOp.Single DbOp.Legal)
          (handler_issues_standalone hstandalone) hs hcalls,
        System.step_keeps transactional_ordersSound hs hlegal hc,
        step_neverPaid (Bool.and_eq_true_iff.1 ha).2 hs hcalls hc hnever⟩
    exact (hrun.invariant hstep ⟨by simp [hstart], hsound, by simp [hdeleted]⟩).2.2

/-- The sample checkout fails at its last call and compensates. -/
def failedCheckout : List (Action Request) :=
  [.spawn (sampleCheckout 0), .act 0, .act 0, .act 0, .act 0, .act 0, .fault 0,
    .act 0, .act 0, .act 0]

theorem compensation_undoInPlace_failedCheckout :
    ∃ d, (server (sampleConfig .standalone)).play (fun c a => stepsFail c a && undoInPlace c a)
        ⟨sampleDb, []⟩ failedCheckout = some d ∧
      (∃ y, d.state.products.get? 0 = some y ∧ y.stock + heldUnits d.state.reservations 0 = 5) ∧
      d.state.restocks.Nodup ∧ ∀ o ∈ d.state.deletedOrders, o.NeverPaid := by
  obtain ⟨d, hd, hend⟩ := (Option.any_eq_true _ _).1 (by decide +kernel :
    ((server (sampleConfig .standalone)).play (fun c a => stepsFail c a && undoInPlace c a)
      ⟨sampleDb, []⟩ failedCheckout).any fun d => decide d.Quiescent)
  have hstock : ∀ x ∈ sampleDb.products.docs, 0 ≤ x.stock := by decide +kernel
  obtain ⟨hunits, hnodup, hnever⟩ := compensation_undoInPlace rfl (System.Run.of_play hd) rfl hstock
    rfl rfl (fun _ ho => absurd ho List.not_mem_nil) (of_decide_eq_true hend)
  obtain ⟨y, hy, hsum⟩ := hunits 0 _ rfl
  exact ⟨d, hd, ⟨y, hy, hsum.trans rfl⟩, hnodup, hnever⟩

/-- The same checkout fails after its order has been cancelled. -/
def cancelledMeanwhile : List (Action Request) :=
  [.spawn (sampleCheckout 0), .act 0, .act 0, .act 0, .act 0, .act 0,
    .spawn (.cancel sampleUser 0 "changed my mind" 1), .act 1, .act 1, .act 1, .act 1, .act 1,
    .fault 0, .act 0, .act 0, .act 0]

/-- The compensation of a failed checkout returns units that a cancel has returned before: of five
units there are seven. -/
theorem compensation_counterexample :
    ∃ d, (server (sampleConfig .standalone)).Run (fun c a => stepsFail c a) ⟨sampleDb, []⟩
        cancelledMeanwhile d ∧ d.Quiescent ∧
      (∃ y, d.state.products.get? 0 = some y ∧
        y.stock + heldUnits d.state.reservations 0 = 7) ∧
      ¬ d.state.restocks.Nodup := by
  obtain ⟨d, hd, hend⟩ := (Option.any_eq_true _ _).1 (by decide +kernel :
    ((server (sampleConfig .standalone)).play stepsFail ⟨sampleDb, []⟩ cancelledMeanwhile).any
      fun d => decide (d.Quiescent ∧ (d.state.products.get? 0).any (fun y =>
        y.stock + heldUnits d.state.reservations 0 == 7) ∧ ¬ d.state.restocks.Nodup))
  obtain ⟨hquiet, hunits, hnodup⟩ := of_decide_eq_true hend
  obtain ⟨y, hy, hsum⟩ := (Option.any_eq_true _ _).1 hunits
  exact ⟨d, System.Run.of_play hd, hquiet, ⟨y, hy, by simpa using hsum⟩, hnodup⟩

end Ecommerce
