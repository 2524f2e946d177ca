import Ecommerce.Stock.Accounts
import Mathlib.Algebra.Order.BigOperators.Group.List

/-!
# Conservation of stock

Units of a product are on sale, held by an active reservation, or on their way back from a
reservation that has just been released. Along every run their sum is constant, stock is never
negative, and no reservation is returned twice.
-/

namespace Ecommerce

open Effect Effect.Discipline

variable {w : ObjectId → ℤ} {r : ObjectId}

/-! ## Handlers -/

theorem DbOp.OfSettlement.may {o : DbOp} (h : o.OfSettlement) (t : Db) : (ledger w r).may o t := by
  cases o <;> first | trivial | exact (h.elim id fun h => h.elim id id).elim

theorem DbOp.OfFulfilment.may {o : DbOp} (h : o.OfFulfilment) (t : Db) : (ledger w r).may o t := by
  cases o <;> first | trivial | exact (h.elim id id).elim

theorem DbOp.OfPayment.may {o : DbOp} (h : o.OfPayment) (t : Db) : (ledger w r).may o t := by
  rcases h with h | h
  · exact h.may t
  · cases o <;> trivial

theorem DbOp.OfCheckout.may {o : DbOp} (h : o.OfCheckout) (t : Db) : (ledger w r).may o t := by
  cases o <;> first | trivial | exact (h.elim id id).elim

theorem settled_runInTransaction {α : Type} (deployment : Deployment) {work : Bool → MongoM α}
    (hwork : ∀ session t, Stocked t.products w →
      (ledger w r).Follows mongo Settled (work session) 0 t)
    (hissues : (work true).Issues DbOp.OfPayment) {s : Db} (h : Stocked s.products w) :
    ((ledger w r).tx ApiError).Follows mongo.transactional Settled
      (runInTransaction deployment work) 0 s := by
  cases deployment with
  | replicaSet =>
    refine settled_txn (fun t ht => (hwork true t ht).weaken ?_) (hissues.mono fun o ho => ho.may)
    exact fun out g u _ _ hg _ _ => hg
  | standalone => exact (hwork false s h).embed

theorem settled_checkout (deployment : Deployment) (limits : Limits) (req : AuthedRequest)
    (value : CheckoutInput) (now : Time) {s : Db} (h : Stocked s.products w) :
    ((ledger w r).tx ApiError).Follows mongo.transactional Settled
      (checkout deployment limits req value now) 0 s := by
  cases deployment with
  | replicaSet =>
    exact settled_txn (fun t ht => settled_executeCheckout_session limits req value now ht)
      ((executeCheckout_issues limits req value now).mono fun o ho => ho.may)
  | standalone => exact (settled_executeCheckout_standalone limits req value now h).embed

theorem settled_processWebhook (deployment : Deployment) (cfg : WebhookConfig) (d : Delivery)
    (now : Time) {s : Db} (h : Stocked s.products w) :
    ((ledger w r).tx ApiError).Follows mongo.transactional Settled
      (processWebhook deployment cfg d now) 0 s := by
  rw [processWebhook]
  split
  · exact settled_done
  · next eventId _ =>
    refine Follows.neutral_bind
      (issues_neutral_tx ((readWebhook_issues cfg d eventId).mono fun _ h => h.quiet.neutral))
      (readWebhook_yields cfg d eventId).embed (fun read t hread _ ht => ?_) h
    obtain _ | ⟨order, body⟩ := read
    · exact settled_done
    · obtain ⟨hassert, hcancelled⟩ := hread order body rfl
      refine (settled_runInTransaction deployment
        (fun _ u hu => settled_webhookWork cfg d eventId order body now hu)
        (webhookWork_issues cfg d eventId now hassert hcancelled) ht).settle (fun updated u _ hu => ?_) ht
      refine (settled_neutral (issues_neutral_tx ?_)).settle (fun _ _ _ _ => settled_done) hu
      exact (afterWebhook_issues _ _).mono fun _ h => h.neutral

/-- Every handler follows the ledger and ends with an empty account. -/
theorem settled_handler (cfg : ServerConfig) (request : Request) {s : Db}
    (h : Stocked s.products w) :
    ((ledger w r).tx ApiError).Follows mongo.transactional Settled (request.handler cfg) 0 s := by
  cases request with
  | checkout req value now => exact (settled_checkout _ _ req value now h).map h
  | cancel req id reason now =>
    refine Follows.map (Follows.settle (settled_runInTransaction cfg.deployment
      (fun _ t ht => settled_cancelWork req id reason now ht)
      ((cancelWork_issues _ _ _ _).mono fun _ => .inl) h)
      (fun _ _ _ _ => settled_done) h) h
  | requestRefund req id reason now =>
    exact (settled_runInTransaction cfg.deployment
      (fun _ t _ => settled_requestRefundWork cfg.limits req id reason now t)
      ((requestRefundWork_issues _ _ _ _ _).mono fun _ => .inl) h).map h
  | webhook delivery now => exact (settled_processWebhook _ _ delivery now h).map h
  | sweep now batchSize =>
    exact ((settled_releaseExpiredReservations now batchSize h).map h).embed
  | shipment req orderId value now =>
    refine (settled_neutral (Prog.Issues.map ?_)).embed
    exact (upsertShipment_issues _ _ _ _).mono fun o ho => ledger_neutral fun hm => by
      cases o <;> first | exact hm.elim | exact (ho.elim id id).elim

/-! ## Runs -/

/-- What a thread holds, by the call it makes next. -/
def headCredit (w : ObjectId → ℤ) (r : ObjectId)
    (t : Thread (Mongo.tx ApiError) ApiError Response Request) : ℤ × ℤ :=
  match nextCall t with
  | some o => o.credit w r
  | none => 0

theorem follows_headCredit {t : Thread (Mongo.tx ApiError) ApiError Response Request} {g : ℤ × ℤ}
    {s : Db} (h : ((ledger w r).tx ApiError).Follows mongo.transactional Settled t.prog g s)
    (hs : Stocked s.products w) : g = headCredit w r t := by
  obtain ⟨l, prog⟩ := t
  cases prog with
  | done out => exact h s (KeepsReservations.refl s) hs
  | call o k =>
    cases o with
    | op o => exact h.1
    | txn work => exact h.1

/-- Along a run that the ledger admits, the worth of the database and what the threads hold keep
their sum. -/
theorem ledger_run {cfg : ServerConfig} {c d : ServerPool} {as : List (Action Request)}
    (hrun : (server cfg).Run
      (((ledger w r).tx ApiError).Admitted (server cfg) fun _ => Settled) c as d)
    (hthreads : c.threads = []) (hinv : Stocked c.state.products w) :
    Stocked d.state.products w ∧
      (ledger w r).worth d.state + (d.threads.map (headCredit w r)).sum =
        (ledger w r).worth c.state := by
  have hgoverns : ((ledger w r).tx ApiError).Governs (server cfg).machine (fun _ => Settled) c [] :=
    ⟨hinv, by rw [hthreads]; exact .nil⟩
  obtain ⟨-, gs, hgoverns', hsum⟩ := hgoverns.run hrun
  have hgs : gs = d.threads.map (headCredit w r) := by
    have hall := hgoverns'.follows
    have hinv' : Stocked d.state.products w := hgoverns'.inv
    clear hgoverns' hsum
    generalize d.threads = ts at hall
    induction hall with
    | nil => rfl
    | cons h _ ih => exact congrArg₂ _ (follows_headCredit h hinv') ih
  refine ⟨hgoverns'.inv, ?_⟩
  rw [← hgs]
  exact hsum.trans (add_zero _)

/-! ## Single products -/

/-- The valuation that counts the units of one product. -/
def unitsOf (p : ObjectId) : ObjectId → ℤ := fun id => if id = p then 1 else 0

/-- The units of a product held by reservations that are reserved or committed. -/
def heldUnits (reservations : Collection InventoryReservation) (p : ObjectId) : ℤ :=
  reservations.sum fun r => if r.Active ∧ r.product = p then (r.quantity : ℤ) else 0

theorem heldValue_unitsOf (reservations : Collection InventoryReservation) (p : ObjectId) :
    heldValue (unitsOf p) reservations = heldUnits reservations p := by
  refine Collection.sum_congr _ fun x _ => ?_
  by_cases ha : x.Active <;> by_cases hp : x.product = p <;>
    simp [InventoryReservation.value, unitsOf, ha, hp]

theorem stockValue_unitsOf {products : Collection Product} {p : ObjectId} {x : Product}
    (h : products.get? p = some x) : stockValue (unitsOf p) products = x.stock := by
  have hid : x.id = p := Collection.get?_key h
  rw [stockValue, Collection.sum_single h _ fun y _ hy => ?_]
  · simp [unitsOf, hid]
  · have hne : y.id ≠ p := hy
    simp [unitsOf, hne]

theorem stocked_unitsOf {products : Collection Product} {p : ObjectId} {x : Product}
    (h : products.get? p = some x) (hstock : ∀ x ∈ products.docs, 0 ≤ x.stock) :
    Stocked products (unitsOf p) where
  known id hid := by
    obtain rfl : id = p := by
      by_contra hne
      simp [unitsOf, hne] at hid
    exact ⟨x, h⟩
  nonneg := hstock

theorem stocked_zero {products : Collection Product}
    (hstock : ∀ x ∈ products.docs, 0 ≤ x.stock) : Stocked products 0 where
  known _ h := absurd rfl h
  nonneg := hstock

/-! ## Replica sets -/

/-- No write of a sweep fails and no sweep is stopped. -/
def sweepsUnfailing (c : ServerPool) : Action Request → Bool
  | .fault i | .kill i => c.threads[i]?.all fun t => !t.label.isSweep
  | _ => true

/-- Units of a product that a sweep has taken from a reservation and is about to add back. -/
def restocking (p : ObjectId) (t : Thread (Mongo.tx ApiError) ApiError Response Request) : ℤ :=
  match nextCall t with
  | some (.productRestock x) => if t.label.isSweep ∧ x.product = p then x.quantity else 0
  | _ => 0

def inFlight (c : ServerPool) (p : ObjectId) : ℤ := (c.threads.map (restocking p)).sum

/-- The calls of a request outside of transactions. -/
def Request.Outside (request : Request) : TxOp Mongo ApiError → Prop :=
  TxOp.Outside (if request.isSweep then DbOp.OfSettlement else DbOp.OfFulfilment)

theorem handler_issues_label {cfg : ServerConfig} (hreplica : cfg.deployment = .replicaSet)
    (request : Request) : (request.handler cfg).Issues request.Outside := by
  by_cases hsweep : request.isSweep
  · cases request with
    | sweep now batchSize =>
      exact issues_embed (fun _ h => h)
        (Prog.Issues.map (releaseExpiredReservations_issues now batchSize))
    | _ => cases hsweep
  · simp only [Request.Outside, hsweep]
    exact handler_issues_replicaSet hreplica (fun _ h => h) (fun _ _ _ _ => trivial)
      (fun _ _ _ _ => trivial) (fun _ _ _ _ _ => trivial) (fun _ _ _ _ _ _ => trivial)
      (by simpa using hsweep)

theorem Request.Outside.ofFulfilment {request : Request} {o : DbOp}
    (h : request.Outside (.op o)) (hsweep : ¬ request.isSweep) : o.OfFulfilment := by
  rw [Request.Outside, if_neg hsweep] at h
  exact h

theorem Request.Outside.ofSettlement {request : Request} {o : DbOp}
    (h : request.Outside (.op o)) (hsweep : request.isSweep) : o.OfSettlement := by
  rw [Request.Outside, if_pos hsweep] at h
  exact h

theorem Request.Outside.may {request : Request} {o : DbOp} (h : request.Outside (.op o)) (t : Db) :
    (ledger w r).may o t := by
  by_cases hsweep : request.isSweep
  · exact (h.ofSettlement hsweep).may t
  · exact (h.ofFulfilment hsweep).may t

theorem DbOp.OfFulfilment.not_movesStock {o : DbOp} (h : o.OfFulfilment) : ¬ o.MovesStock := by
  intro hm
  cases o <;> first | exact hm.elim | exact (h.elim id id).elim

theorem DbOp.OfFulfilment.credit_eq {o : DbOp} (h : o.OfFulfilment) : o.credit w r = 0 :=
  ((ledger_neutral h.not_movesStock : (ledger w r).Neutral mongo o).holds).symm

/-- On a replica set a sweep's restock is the only call, outside of a transaction, that a thread
holds units for. -/
theorem headCredit_fst {p : ObjectId} {t : Thread (Mongo.tx ApiError) ApiError Response Request}
    (h : t.prog.Issues t.label.Outside) : (headCredit (unitsOf p) r t).1 = restocking p t := by
  obtain ⟨l, prog⟩ := t
  match prog, h with
  | .done out, _ => rfl
  | .call (.txn work) k, _ => rfl
  | .call (.op o) k, h =>
    have ho : Request.Outside l (.op o) := h.1
    by_cases hsweep : l.isSweep
    · have hcall := ho.ofSettlement hsweep
      cases o with
      | productRestock x =>
        simp only [headCredit, restocking, nextCall, Prog.head?, DbOp.credit, unitsOf, hsweep]
        by_cases hp : x.product = p <;> simp [hp]
      | _ =>
        first
        | rfl
        | exact (hcall.elim id fun h => h.elim id id).elim
    · have hcall := ho.ofFulfilment hsweep
      cases o <;> first
        | rfl
        | exact (hcall.elim id id).elim

theorem headCredit_snd_nonneg (t : Thread (Mongo.tx ApiError) ApiError Response Request) :
    0 ≤ (headCredit w r t).2 := by
  rw [headCredit]
  split
  · next o _ =>
    cases o with
    | productRestock x =>
      simp only [DbOp.credit]
      split <;> simp
    | _ => exact le_rfl
  · exact le_rfl

/-- The steps of a run on a replica set, without failing sweeps, are steps the ledger admits. -/
theorem admitted_replicaSet {cfg : ServerConfig} {c : ServerPool} {a : Action Request}
    (hsweeps : sweepsUnfailing c a)
    (hcalls : ∀ t ∈ c.threads, t.prog.Issues t.label.Outside) :
    ((ledger w r).tx ApiError).Admitted (server cfg) (fun _ => Settled) c a where
  spawn l _ hinv := settled_handler cfg l hinv
  act i o _ hhead := by
    obtain ⟨t, ht, ho⟩ := Pool.head?_issues hcalls hhead
    cases o with
    | txn work => trivial
    | op o => exact ho.may (w := w) (r := r) c.state
  fault i o ha hhead := by
    obtain ⟨t, ht, ho⟩ := Pool.head?_issues hcalls hhead
    cases o with
    | txn work => trivial
    | op o =>
      have hsweep : ¬ t.label.isSweep := by simpa [ha, sweepsUnfailing, ht] using hsweeps
      have hcall := ho.ofFulfilment hsweep
      refine ⟨fun hundo => ?_, ?_⟩
      · cases o <;> first | exact hundo.elim | exact (hcall.elim id id).elim
      · rintro x rfl
        exact hcall.elim id id
  kill i t g ha ht hfollows := by
    have hsweep : ¬ t.label.isSweep := by simpa [ha, sweepsUnfailing, ht] using hsweeps
    intro u hgrow hu
    have hg := follows_headCredit (Follows.mono hfollows hgrow) hu
    have hissues := hcalls t (List.mem_of_getElem? ht)
    obtain ⟨l, prog⟩ := t
    match prog, hissues, hg with
    | .done out, _, hg => exact hg
    | .call (.txn work) k, _, hg => exact hg
    | .call (.op o) k, hissues, hg =>
      exact hg.trans (Request.Outside.ofFulfilment hissues.1 hsweep).credit_eq

theorem sum_headCredit_fst {c : ServerPool} (h : ∀ t ∈ c.threads, t.prog.Issues t.label.Outside)
    (p : ObjectId) : (c.threads.map (headCredit (unitsOf p) r)).sum.1 = inFlight c p := by
  have hfst := map_list_sum (AddMonoidHom.fst ℤ ℤ) (c.threads.map (headCredit (unitsOf p) r))
  simp only [AddMonoidHom.coe_fst, List.map_map] at hfst
  rw [hfst]
  exact congrArg List.sum (List.map_congr_left fun t ht => headCredit_fst (h t ht))

theorem sum_headCredit_snd_nonneg (c : ServerPool) :
    0 ≤ (c.threads.map (headCredit w r)).sum.2 := by
  have hsnd := map_list_sum (AddMonoidHom.snd ℤ ℤ) (c.threads.map (headCredit w r))
  simp only [AddMonoidHom.coe_snd, List.map_map] at hsnd
  rw [hsnd]
  refine List.sum_nonneg fun x hx => ?_
  obtain ⟨t, -, rfl⟩ := List.mem_map.1 hx
  exact headCredit_snd_nonneg t

/-- Where no thread holds a negative return, a reservation is returned at most once. -/
theorem count_restocks_le_one {c d : ServerPool} (hrestocks : c.state.restocks = [])
    (hsum : (ledger w r).worth d.state + (d.threads.map (headCredit w r)).sum =
      (ledger w r).worth c.state) : d.state.restocks.count r ≤ 1 := by
  have hreturns := congrArg Prod.snd hsum
  have hnonneg := sum_headCredit_snd_nonneg (w := w) (r := r) d
  simp only [ledger, overreturned, hrestocks, Prod.snd_add, List.count_nil, Nat.cast_zero] at hreturns
  split at hreturns <;> split at hreturns <;> omega

/-- On a replica set, without failing sweeps, the units of every product on sale, held or on their
way back keep their sum, stock is never negative, and no reservation is returned twice. -/
theorem stock_conserved {cfg : ServerConfig} (hreplica : cfg.deployment = .replicaSet)
    {c d : ServerPool} {as : List (Action Request)}
    (hrun : (server cfg).Run (fun c a => sweepsUnfailing c a) c as d) (hstart : c.threads = [])
    (hstock : ∀ x ∈ c.state.products.docs, 0 ≤ x.stock) (hrestocks : c.state.restocks = []) :
    (∀ p x, c.state.products.get? p = some x → ∃ y, d.state.products.get? p = some y ∧
      y.stock + heldUnits d.state.reservations p + inFlight d p =
        x.stock + heldUnits c.state.reservations p) ∧
    (∀ x ∈ d.state.products.docs, 0 ≤ x.stock) ∧
    d.state.restocks.Nodup := by
  have hstep : ∀ c a d, sweepsUnfailing c a → (server cfg).step c a = some d →
      (∀ t ∈ c.threads, t.prog.Issues t.label.Outside) →
      ∀ t ∈ d.threads, t.prog.Issues t.label.Outside := fun c a d _ hs hc =>
    System.step_issues (φ := Request.Outside) (handler_issues_label hreplica) hs hc
  have hcalls := hrun.with hstep (by simp [hstart])
  have hend := hrun.invariant hstep (by simp [hstart])
  have hledger : ∀ w r, Stocked c.state.products w → _ := fun w r hw =>
    ledger_run (w := w) (r := r) (hcalls.mono fun c a h => admitted_replicaSet h.1 h.2) hstart hw
  refine ⟨fun p x hx => ?_, ?_, ?_⟩
  · obtain ⟨hstocked, hsum⟩ := hledger (unitsOf p) 0 (stocked_unitsOf hx hstock)
    obtain ⟨y, hy⟩ := hstocked.known p (by simp [unitsOf])
    have hunits := congrArg Prod.fst hsum
    rw [Prod.fst_add, sum_headCredit_fst hend p] at hunits
    simp only [ledger, heldValue_unitsOf, stockValue_unitsOf hx, stockValue_unitsOf hy] at hunits
    exact ⟨y, hy, hunits⟩
  · exact (hledger 0 0 (stocked_zero hstock)).1.nonneg
  · refine List.nodup_iff_count_le_one.2 fun r => ?_
    exact count_restocks_le_one hrestocks (hledger 0 r (stocked_zero hstock)).2

/-- The sample checkout, and a sweep stopped where it has released the reservation and not yet
restocked the product. -/
def lateSweep : List (Action Request) :=
  [.spawn (sampleCheckout 0), .act 0, .spawn (.sweep 1000000 10), .act 1, .act 1, .act 1, .act 1]

theorem stock_conserved_lateSweep :
    ∃ d, (server (sampleConfig .replicaSet)).play sweepsUnfailing ⟨sampleDb, []⟩ lateSweep = some d ∧
      (∃ y, d.state.products.get? 0 = some y ∧
        y.stock + heldUnits d.state.reservations 0 + inFlight d 0 = 5) ∧
      d.state.restocks.Nodup := by
  obtain ⟨d, hd⟩ := Option.isSome_iff_exists.1 (by decide +kernel :
    ((server (sampleConfig .replicaSet)).play sweepsUnfailing ⟨sampleDb, []⟩ lateSweep).isSome)
  have hstock : ∀ x ∈ sampleDb.products.docs, 0 ≤ x.stock := by decide +kernel
  obtain ⟨hunits, -, hnodup⟩ := stock_conserved rfl (System.Run.of_play hd) rfl hstock rfl
  obtain ⟨y, hy, hsum⟩ := hunits 0 _ rfl
  exact ⟨d, hd, ⟨y, hy, hsum.trans rfl⟩, hnodup⟩

end Ecommerce
