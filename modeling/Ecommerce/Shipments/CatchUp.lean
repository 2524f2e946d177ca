import Ecommerce.Orders.PaidOnly
import Ecommerce.Shipments.Forward

/-!
# Fulfilment follows the shipments

Upserts of an order's shipments run at the same time, each with its own copy of the order. What an
upsert writes to the order it has derived from the shipments at one instant, so the order is never
ahead of them. And whoever stores the last shipment reads them all afterwards, so the order catches up.
-/

namespace Ecommerce

open Effect Effect.Collection

/-! ## The derived rank -/

/-- The seller of each product, if there is such a product. -/
abbrev Sellers := ObjectId → Option (Option ObjectId)

def Db.sellerOf (s : Db) : Sellers := fun id => (s.products.get? id).map (·.seller)

/-- The shipments of an order. -/
def Db.shipmentsOf (s : Db) (k : ObjectId) : List Shipment := s.shipments.filter (·.order == k)

/-- The rank at which a line is covered, by the shipment of its seller or of the whole order. -/
def coverRank (sellers : Sellers) (shipments : List Shipment) (item : OrderItem) : Nat :=
  max (rankFor shipments none) (match sellers item.product with
    | some (some seller) => rankFor shipments (some seller)
    | _ => 0)

/-- The rank that `derivedOrderRank` comes to. -/
def derivedRank (sellers : Sellers) (items : List OrderItem) (shipments : List Shipment) : Option Nat :=
  leastRank (items.map (coverRank sellers shipments))

theorem lineRank_eq {products : List Product} {sellers : Sellers} {item : OrderItem}
    (h : (products.find? (·.id == item.product)).map (·.seller) = sellers item.product)
    (shipments : List Shipment) : lineRank products shipments item = coverRank sellers shipments item := by
  unfold lineRank coverRank
  rw [← h]
  cases products.find? (·.id == item.product) with
  | none => rfl
  | some product => cases hseller : product.seller <;> simp [hseller]

theorem rankFor_le (shipments : List Shipment) (seller : Option ObjectId) :
    rankFor shipments seller ≤ 3 := by
  unfold rankFor
  split
  · next shipment _ => cases shipment.status <;> simp [ORDER_RANK_FOR_SHIPMENT]
  · exact Nat.zero_le _

theorem coverRank_le (sellers : Sellers) (shipments : List Shipment) (item : OrderItem) :
    coverRank sellers shipments item ≤ 3 := by
  unfold coverRank
  refine max_le (rankFor_le _ _) ?_
  split
  · exact rankFor_le _ _
  · exact Nat.zero_le _

theorem foldl_min_le (r : Nat) (rs : List Nat) : rs.foldl min r ≤ r ∧ ∀ x ∈ rs, rs.foldl min r ≤ x := by
  induction rs generalizing r with
  | nil => exact ⟨le_refl _, nofun⟩
  | cons y ys ih =>
    obtain ⟨hr, hys⟩ := ih (min r y)
    refine ⟨hr.trans (min_le_left _ _), fun x hx => ?_⟩
    rcases List.mem_cons.1 hx with rfl | hx
    · exact hr.trans (min_le_right _ _)
    · exact hys x hx

/-- The least rank is a lower bound. -/
theorem leastRank_le {ranks : List Nat} {n : Nat} (h : leastRank ranks = some n) :
    ∀ r ∈ ranks, n ≤ r := by
  cases ranks with
  | nil => cases h
  | cons r rs =>
    obtain rfl := Option.some_inj.1 h
    intro x hx
    rcases List.mem_cons.1 hx with rfl | hx
    · exact (foldl_min_le _ _).1
    · exact (foldl_min_le _ _).2 x hx

theorem leastRank_pos {ranks : List Nat} {n : Nat} (h : leastRank ranks = some n) :
    ∃ r, r ∈ ranks := by
  cases ranks with
  | nil => cases h
  | cons r rs => exact ⟨r, List.mem_cons_self⟩

theorem derivedRank_le {sellers : Sellers} {items : List OrderItem} {shipments : List Shipment} {n : Nat}
    (h : derivedRank sellers items shipments = some n) : n ≤ 3 := by
  obtain ⟨r, hr⟩ := leastRank_pos h
  obtain ⟨item, -, rfl⟩ := List.mem_map.1 hr
  exact (leastRank_le h _ hr).trans (coverRank_le _ _ _)

/-- Every line is covered at the derived rank. -/
theorem derivedRank_covers {sellers : Sellers} {items : List OrderItem} {shipments : List Shipment}
    {n : Nat} (h : derivedRank sellers items shipments = some n) :
    ∀ item ∈ items, n ≤ coverRank sellers shipments item := fun _ hitem =>
  leastRank_le h _ (List.mem_map_of_mem hitem)

/-- Without shipments no line has got anywhere. -/
theorem derivedRank_nil {sellers : Sellers} {items : List OrderItem} {n : Nat}
    (h : derivedRank sellers items [] = some n) : n = 0 := by
  obtain ⟨r, hr⟩ := leastRank_pos h
  obtain ⟨item, -, rfl⟩ := List.mem_map.1 hr
  have hnone : ∀ seller, rankFor [] seller = 0 := fun _ => rfl
  refine Nat.le_zero.1 ((leastRank_le h _ hr).trans ?_)
  simp only [coverRank, hnone]
  split <;> exact le_refl 0

theorem FULFILMENT_RANK_of_rank {n : Nat} {status : OrderStatus} (h : STATUS_FOR_RANK[n]? = some status) :
    FULFILMENT_RANK status = some n := by
  obtain _ | _ | _ | _ | n := n <;> cases h <;> rfl

theorem STATUS_FOR_RANK_of_le {n : Nat} (h : n ≤ 3) : ∃ status, STATUS_FOR_RANK[n]? = some status :=
  ⟨_, List.getElem?_eq_getElem (Nat.lt_succ_of_le h)⟩

/-! ## Replies -/

/-- Products are reported with their sellers. -/
def Truthful (sellers : Sellers) : (o : DbOp) → Except ApiError o.Reply → Prop
  | .productSellers ids, .ok products =>
    ∀ id ∈ ids, (products.find? (·.id == id)).map (·.seller) = sellers id
  | _, _ => True

theorem exec_sellerOf (o : DbOp) (s : Db) : (mongo.exec o s).2.sellerOf = s.sellerOf := by
  have hupdate : ∀ (id : ObjectId) (delta : ℤ),
      (fun k => ((s.products.update id (Product.incStock delta)).get? k).map (·.seller)) = s.sellerOf := by
    intro id delta
    funext k
    rw [get?_update]
    split
    · rw [Option.map_map]
      rfl
    · rfl
  cases o with
  | productReserve id tenant quantity =>
    simp only [mongo, Db.exec]
    split
    · split
      · exact hupdate _ _
      · rfl
    · rfl
  | productUnreserve id quantity => exact hupdate _ _
  | productRestock r => exact hupdate _ _
  | _ =>
    first
    | rfl
    | (simp only [mongo, Db.exec]; split <;> first | rfl | (split <;> rfl))

theorem exec_truthful (o : DbOp) (s : Db) : Truthful s.sellerOf o (mongo.exec o s).1 := by
  cases o with
  | productSellers ids =>
    intro id hid
    show ((s.products.docs.filter fun p => ids.contains p.id).find? (·.id == id)).map _ =
      (s.products.docs.find? _).map _
    rw [List.find?_filter]
    congr 2
    funext p
    cases hp : p.id == id with
    | false => simp
    | true =>
      obtain rfl := eq_of_beq hp
      simpa using hid
  | _ => trivial

/-- What `derivedOrderRank` computes of a faithful reply. -/
theorem leastRank_eq {sellers : Sellers} {items : List OrderItem} {products : List Product}
    (h : ∀ id ∈ items.map (·.product), (products.find? (·.id == id)).map (·.seller) = sellers id)
    (shipments : List Shipment) :
    leastRank (items.map (lineRank products shipments)) = derivedRank sellers items shipments := by
  unfold derivedRank
  congr 1
  exact List.map_congr_left fun item hitem => lineRank_eq (h _ (List.mem_map_of_mem hitem)) shipments

/-! ## Catching up -/

/-- The order lags behind these shipments of it: it has not been cancelled since it was read, and its
rank is lower than the derived one. -/
structure Lagging (sellers : Sellers) (shipments : List Shipment) (read : Order) (s : Db) : Prop where
  known : s.sellerOf = sellers
  stored : s.shipmentsOf read.id = shipments
  behind : ∃ o n m, s.orders.get? read.id = some o ∧ StatusPath read.status o.status ∧
    derivedRank sellers read.items shipments = some n ∧ FULFILMENT_RANK o.status = some m ∧ m < n

theorem canTransitionOrder_of_rank : ∀ src ∈ SHIPPABLE_STATUSES, ∀ dst ∈ STATUS_FOR_RANK,
    (FULFILMENT_RANK src).getD 0 < (FULFILMENT_RANK dst).getD 0 → canTransitionOrder src dst := by
  decide

theorem mem_behindStatuses {status : OrderStatus} {m n : Nat} (h : FULFILMENT_RANK status = some m)
    (hlt : m < n) : (behindStatuses n).contains status := by
  unfold behindStatuses
  cases status <;> simp_all [FULFILMENT_RANK, STATUS_FOR_RANK]

theorem mem_SHIPPABLE_rank {status : OrderStatus} (h : status ∈ SHIPPABLE_STATUSES) :
    ∃ r, FULFILMENT_RANK status = some r := by
  cases status <;> simp_all [SHIPPABLE_STATUSES, FULFILMENT_RANK]

/-- The write that ends an upsert takes a lagging order out of it. -/
theorem advance_not_lagging {sellers : Sellers} {shipments : List Shipment} {read : Order} {n : Nat}
    (hn : derivedRank sellers read.items shipments = some n) {status : OrderStatus}
    (hstatus : STATUS_FOR_RANK[n]? = some status) (now : Time) {s : Db}
    (h : Lagging sellers shipments read s) :
    ¬ Lagging sellers shipments read
      (mongo.exec (.orderUpdate (.advance read.id (behindStatuses n) status) now) s).2 := by
  obtain ⟨o, n', m, ho, -, hn', hm, hlt⟩ := h.behind
  obtain rfl := Option.some_inj.1 (hn.symm.trans hn')
  have hguard : (OrderUpdate.advance read.id (behindStatuses n) status).guard o :=
    mem_behindStatuses hm hlt
  obtain ⟨o', ho', -, heq⟩ | ⟨hno, -⟩ :=
    exec_orderUpdate (.advance read.id (behindStatuses n) status) now s
  · rw [heq]
    rintro ⟨-, -, x, n'', m', hx, -, hn'', hm', hlt'⟩
    obtain rfl := Option.some_inj.1 (hn.symm.trans hn'')
    have hafter : x.status = status := by
      have hget := (get?_update_self s.orders read.id
        ((OrderUpdate.advance read.id (behindStatuses n) status).patch now)).symm.trans hx
      rw [ho] at hget
      exact (Option.some_inj.1 hget) ▸ rfl
    rw [hafter, FULFILMENT_RANK_of_rank hstatus] at hm'
    exact absurd (Option.some_inj.1 hm') hlt'.ne'
  · rw [hno o ho] at hguard
    cases hguard

/-- What follows the derivation of a rank. -/
def advanceTo (read : Order) (now : Time) (rank : Option Nat) : MongoM Unit :=
  match rank.bind (STATUS_FOR_RANK[·]?) with
  | none => return ()
  | some nextStatus =>
    let nextRank := (FULFILMENT_RANK nextStatus).getD 0
    if ((FULFILMENT_RANK read.status).map (fun r : Nat => (r : ℤ))).getD (-1) < nextRank ∧
        canTransitionOrder read.status nextStatus then
      db (.orderUpdate (.advance read.id (behindStatuses nextRank) nextStatus) now) >>= fun _ => return ()
    else return ()

/-- Once its shipment is stored, an upsert does not leave the order behind the shipments that it then
reads. -/
theorem advanceOrder_ends {read : Order} (hread : read.status ∈ SHIPPABLE_STATUSES) (now : Time)
    (sellers : Sellers) (shipments : List Shipment) :
    (advanceOrder read now).Ends mongo (Lagging sellers shipments read) := by
  intro s₁ h₁ _ s₂ h₂ _
  have hproducts := exec_truthful (.productSellers (read.items.map (·.product))) s₁
  rw [h₁.known] at hproducts
  obtain ⟨o, n, m, -, hpath, hn, hm, hlt⟩ := h₂.behind
  have hrank : leastRank (read.items.map (lineRank
      (s₁.products.docs.filter fun p => (read.items.map (·.product)).contains p.id)
      (s₂.shipmentsOf read.id))) = some n := by
    rw [leastRank_eq hproducts, h₂.stored, hn]
  obtain ⟨status, hstatus⟩ := STATUS_FOR_RANK_of_le (derivedRank_le hn)
  have hnext := FULFILMENT_RANK_of_rank hstatus
  obtain ⟨r, hr⟩ := mem_SHIPPABLE_rank hread
  have hrm : r ≤ m := by
    rcases hpath.rank hr with hcancelled | ⟨m', hm', hle⟩
    · rw [hcancelled] at hm
      cases hm
    · obtain rfl := Option.some_inj.1 (hm.symm.trans hm')
      exact hle
  have hcan : canTransitionOrder read.status status := by
    refine canTransitionOrder_of_rank _ hread _ (List.mem_of_getElem? hstatus) ?_
    rw [hr, hnext]
    exact hrm.trans_lt hlt
  show Prog.Ends mongo _ (advanceTo read now (leastRank (read.items.map (lineRank
    (s₁.products.docs.filter fun p => (read.items.map (·.product)).contains p.id)
    (s₂.shipmentsOf read.id)))))
  rw [hrank, advanceTo, Option.bind_some, hstatus]
  dsimp only
  rw [if_pos (by rw [hr, hnext]; exact ⟨Int.ofNat_lt.2 (hrm.trans_lt hlt), hcan⟩), hnext]
  refine Prog.ends_perform_bind (S := Mongo) fun s h h' => ?_
  exact absurd h' (advance_not_lagging hn hstatus now h)

/-! ## What an upsert goes through -/

/-- The write of an order, if it is one, sets the status of a rank. -/
def DbOp.Advances (k : ObjectId) (rank : Option Nat) (o : DbOp) : Prop :=
  o.WritesOrders → ∃ n status now, rank = some n ∧ STATUS_FOR_RANK[n]? = some status ∧
    o = .orderUpdate (.advance k (behindStatuses n) status) now

/-- A read of the order's shipments, from which all that is written is derived. -/
def Derives {α : Type} (k : ObjectId) (sellers : Sellers) (items : List OrderItem) :
    (o : DbOp) → Except ApiError o.Reply → MongoM α → Prop
  | .shipmentsOf k', .ok shipments, p =>
    k' = k ∧ p.Issues (DbOp.Advances k (derivedRank sellers items shipments))
  | _, .error _, p => p.Issues fun o : DbOp => ¬ o.WritesOrders
  | _, _, _ => False

theorem Derives.bind {α β : Type} {k : ObjectId} {sellers : Sellers} {items : List OrderItem} {o : DbOp}
    {r : Except ApiError o.Reply} {p : MongoM α} {f : α → MongoM β} (h : Derives k sellers items o r p)
    (hwrites : ∀ a, (f a).Issues fun o : DbOp => ¬ o.WritesOrders) :
    Derives k sellers items o r (p >>= f) := by
  cases r with
  | error e => cases o <;> exact Prog.Issues.bind h hwrites
  | ok reply =>
    cases o with
    | shipmentsOf k' =>
      exact ⟨h.1, h.2.bind fun a => (hwrites a).mono fun _ ho hwrites => absurd hwrites ho⟩
    | _ => exact h.elim

/-- A read that fails is followed by no write. -/
theorem Derives.of_failed {α : Type} {k : ObjectId} {sellers : Sellers} {items : List OrderItem}
    {o : DbOp} (hne : ∀ k', o ≠ .shipmentsOf k') {r : Except ApiError o.Reply} {p : MongoM α}
    (h : Derives k sellers items o r p) : p.Issues fun o : DbOp => ¬ o.WritesOrders := by
  cases r with
  | error e => cases o <;> exact h
  | ok reply =>
    cases o with
    | shipmentsOf k' => exact absurd rfl (hne k')
    | _ => exact h.elim

def DbOp.StoresNone (o : DbOp) : Prop := ∀ shipment existing, o ≠ .shipmentUpsert shipment existing

/-- The write of a shipment, after which the order does not stay behind. -/
def Stores {α : Type} (read : Order) : (o : DbOp) → Except ApiError o.Reply → MongoM α → Prop
  | .shipmentUpsert shipment _, r, p => shipment.order = read.id ∧ p.Issues DbOp.StoresNone ∧
    ∀ stored : Shipment, r = .ok (some stored) →
      ∀ sellers shipments, p.Ends mongo (Lagging sellers shipments read)
  | _, _, _ => False

theorem Stores.bind {α β : Type} {read : Order} {o : DbOp} {r : Except ApiError o.Reply} {p : MongoM α}
    {f : α → MongoM β} (h : Stores read o r p) (hf : ∀ a, (f a).Issues DbOp.StoresNone) :
    Stores read o r (p >>= f) := by
  cases o with
  | shipmentUpsert shipment existing =>
    exact ⟨h.1, h.2.1.bind hf, fun stored hstored sellers shipments =>
      (h.2.2 stored hstored sellers shipments).bind⟩
  | _ => exact h.elim

theorem DbOp.Quiet.storesNone {o : DbOp} (h : o.Quiet) : o.StoresNone := by
  rintro shipment existing rfl
  exact h

theorem advance_issues (read : Order) (now : Time) (rank : Option Nat) :
    (advanceTo read now rank).Issues (DbOp.Advances read.id rank) := by
  unfold advanceTo
  split
  · trivial
  · next status hstatus =>
    obtain ⟨n, hn, hn'⟩ := Option.bind_eq_some_iff.1 hstatus
    dsimp only
    split
    · refine (issues_db fun _ => ⟨n, status, now, hn, hn', ?_⟩).bind fun _ => trivial
      rw [FULFILMENT_RANK_of_rank hn']
      rfl
    · trivial

theorem advanceOrder_derives (read : Order) (now : Time) (sellers : Sellers) :
    (advanceOrder read now).Until (Truthful sellers) (fun o : DbOp => ¬ o.WritesOrders)
      (Derives read.id sellers read.items) := by
  refine .inl ⟨not_false, fun r₁ h₁ => ?_⟩
  cases r₁ with
  | error e => trivial
  | ok products =>
    refine .inr fun r₂ _ => ?_
    cases r₂ with
    | error e => exact trivial
    | ok shipments =>
      exact ⟨rfl, leastRank_eq h₁ shipments ▸ advance_issues read now _⟩

theorem advanceOrder_storesNone (read : Order) (now : Time) :
    (advanceOrder read now).Issues DbOp.StoresNone :=
  advanceOrder_issues_of read now (by simp [DbOp.StoresNone]) (by simp [DbOp.StoresNone])
    (by simp [DbOp.StoresNone])

theorem publishEvent_storesNone (event : DomainEvent) : (publishEvent event).Issues DbOp.StoresNone :=
  issues_db (by simp [DbOp.StoresNone])

/-- After the order has been read: nothing, unless it can be shipped. -/
theorem upsertShipment_goesOn (req : AuthedRequest) (k : ObjectId) (value : ShipmentInput) (now : Time) :
    ∃ kont, upsertShipment req k value now =
      .call (S := Mongo) (.orderFindOne ⟨k, req.tenant, none⟩) kont ∧
      ∀ r, (∃ e, kont r = .done (.error e)) ∨ ∃ order : Order, r = .ok (some order) ∧
        order.status ∈ SHIPPABLE_STATUSES ∧
        ∀ sellers, (kont r).Until (Truthful sellers) (fun o : DbOp => ¬ o.WritesOrders)
            (Derives order.id sellers order.items) ∧
          (kont r).Until (Truthful sellers) DbOp.StoresNone (Stores order) := by
  refine ⟨_, rfl, fun r => ?_⟩
  cases r with
  | error e => exact .inl ⟨_, rfl⟩
  | ok found =>
    cases found with
    | none => exact .inl ⟨_, rfl⟩
    | some order =>
      dsimp only [Prog.bind, Prog.bind_ok]
      split
      · exact .inl ⟨_, rfl⟩
      · next hcheck =>
        have hshippable : order.status ∈ SHIPPABLE_STATUSES := by
          by_contra h
          exact hcheck (.inr (by simpa using h))
        have hseller := shipmentSeller_issues req order
        refine .inr ⟨order, rfl, hshippable, fun sellers => ⟨?_, ?_⟩⟩
        · refine (hseller.mono fun _ h => h.not_writesOrders).until_bind fun seller => ?_
          refine Prog.until_perform_bind (S := Mongo) not_false fun existing _ => ?_
          split
          · trivial
          · refine Prog.until_perform_bind (S := Mongo) not_false fun stored _ => ?_
            cases stored with
            | none => trivial
            | some shipment =>
              refine (advanceOrder_derives order now sellers).bind (fun o r q h => ?_) fun _ => ?_
              · exact h.bind fun _ => (issues_db not_false).bind fun _ => trivial
              · exact (issues_db not_false).bind fun _ => trivial
        · refine (hseller.mono fun _ h => h.storesNone).until_bind fun seller => ?_
          refine Prog.until_perform_bind (S := Mongo) (by simp [DbOp.StoresNone]) fun existing _ => ?_
          split
          · trivial
          · refine .inr fun r _ => ⟨rfl, ?_, ?_⟩
            · cases r with
              | error e => trivial
              | ok stored =>
                cases stored with
                | none => trivial
                | some shipment =>
                  exact (advanceOrder_storesNone order now).bind fun _ =>
                    (publishEvent_storesNone _).bind fun _ => trivial
            · rintro shipment rfl sellers shipments
              exact (advanceOrder_ends hshippable now sellers shipments).bind

theorem handler_shipment_goesOn (cfg : ServerConfig) (req : AuthedRequest) (k : ObjectId)
    (value : ShipmentInput) (now : Time) :
    ∃ kont : Except ApiError (Option Order) → MongoM Response,
      Request.handler cfg (.shipment req k value now) =
        .call (S := Mongo.tx ApiError) (.op (.orderFindOne ⟨k, req.tenant, none⟩))
          (fun r => (kont r).embed) ∧
      ∀ r, (∃ e, kont r = .done e) ∨ ∃ order : Order, r = .ok (some order) ∧
        order.status ∈ SHIPPABLE_STATUSES ∧
        ∀ sellers, (kont r).Until (Truthful sellers) (fun o : DbOp => ¬ o.WritesOrders)
            (Derives order.id sellers order.items) ∧
          (kont r).Until (Truthful sellers) DbOp.StoresNone (Stores order) := by
  obtain ⟨kont, hkont, hrest⟩ := upsertShipment_goesOn req k value now
  refine ⟨fun r => Response.shipment <$> kont r, ?_, fun r => ?_⟩
  · show (Response.shipment <$> upsertShipment req k value now).embed = _
    rw [hkont]
    rfl
  · rcases hrest r with ⟨e, he⟩ | ⟨order, hr, hshippable, hgoes⟩
    · exact .inl ⟨.error e, by simp only [he]; rfl⟩
    · exact .inr ⟨order, hr, hshippable, fun sellers =>
        ⟨(hgoes sellers).1.bind (fun _ _ _ h => h.bind fun _ => trivial) fun _ => trivial,
          (hgoes sellers).2.bind (fun _ _ _ h => h.bind fun _ => trivial) fun _ => trivial⟩⟩

/-! ## Runs -/

/-- The order as it has become since it was read. -/
def Order.Follows (read o : Order) : Prop := o.items = read.items ∧ StatusPath read.status o.status

/-- The order keeps its items, and its status moves along the table. -/
def FollowsOn (a b : Order) : Prop :=
  a.items = b.items ∧ (a.status = b.status ∨ StatusEdge a.status b.status)

theorem FollowsOn.refl (o : Order) : FollowsOn o o := ⟨rfl, .inl rfl⟩

theorem OrderUpdate.Legal.followsOn {u : OrderUpdate} (hu : u.Legal) : u.Respects FollowsOn := by
  intro now o hguard
  refine ⟨?_, hu.edge hguard now⟩
  cases u <;> rfl

theorem Order.Follows.on {read a b : Order} (hmove : FollowsOn a b) (h : read.Follows a) :
    read.Follows b := by
  refine ⟨hmove.1.symm.trans h.1, ?_⟩
  rcases hmove.2 with hsame | hedge
  · exact hsame ▸ h.2
  · exact h.2.tail hedge

/-- An upsert of the order, once it has read it: it goes on to store its shipment, and it has read the
order's shipments before it writes to the order. -/
structure Going (cfg : ServerConfig) (start : ServerPool) (sellers : Sellers) (as : List (Action Request))
    (s : Db) (j : Nat) (k : ObjectId) (q : MongoM Response) (read : Order) : Prop where
  id : read.id = k
  shippable : read.status ∈ SHIPPABLE_STATUSES
  follows : OrderHas read.Follows k s
  stores : q.Until (Truthful sellers) DbOp.StoresNone (Stores read)
  derives : q.Until (Truthful sellers) (fun o : DbOp => ¬ o.WritesOrders) (Derives k sellers read.items) ∨
    ∃ before after e, as = before ++ .act j :: after ∧
      (server cfg).Run (fun _ _ => True) start before e ∧ e.state.sellerOf = sellers ∧
      q.Issues (DbOp.Advances k (derivedRank sellers read.items (e.state.shipmentsOf k)))

/-- No upsert fails midway. -/
def Unfailing (c : ServerPool) (a : Action Request) : Prop :=
  ∀ j req k value now p, c.threads[j]? = some ⟨.shipment req k value now, p⟩ → a ≠ .fault j ∧ a ≠ .kill j

/-- Only upserts store shipments. -/
def Request.Ships (request : Request) (o : TxOp Mongo ApiError) : Prop :=
  (∀ req k value now, request ≠ .shipment req k value now) → o.Within DbOp.StoresNone

theorem handler_ships (cfg : ServerConfig) (request : Request) :
    (request.handler cfg).Issues request.Ships := by
  by_cases hship : ∃ req k value now, request = .shipment req k value now
  · obtain ⟨req, k, value, now, rfl⟩ := hship
    exact Prog.issues_of_forall (fun _ h => absurd rfl (h req k value now)) _
  · have hnot : ∀ req k value now, request ≠ .shipment req k value now :=
      fun req k value now h => hship ⟨req, k, value, now, h⟩
    exact handler_issues_unshipped hnot (fun o ho _ shipment existing => ho.writes_no_shipment _ _)
      fun _ _ _ hp _ => hp.mono fun o ho shipment existing => ho.writes_no_shipment _ _

/-- The upserts in flight. -/
structure Upserts (cfg : ServerConfig) (start : ServerPool) (sellers : Sellers)
    (as : List (Action Request)) (c : ServerPool) : Prop where
  run : (server cfg).Run (fun _ _ => True) start as c
  known : c.state.sellerOf = sellers
  moves : ∀ t ∈ c.threads,
    t.prog.Issues fun o => ∀ s, OrdersMove FollowsOn s (mongo.transactional.exec o s).2
  ships : ∀ t ∈ c.threads, t.prog.Issues t.label.Ships
  going : ∀ j req k value now p, c.threads[j]? = some ⟨.shipment req k value now, p⟩ →
    p = Request.handler cfg (.shipment req k value now) ∨ (∃ r, p = .done r) ∨
      ∃ q read, p = q.embed ∧ Going cfg start sellers as c.state j k q read

theorem transactional_sellerOf (o : TxOp Mongo ApiError) (s : Db) :
    (mongo.transactional.exec o s).2.sellerOf = s.sellerOf := by
  refine Machine.transactional_keeps (M := mongo) (φ := fun _ => True)
    (I := fun x => x.sellerOf = s.sellerOf) (fun o _ x hx => (exec_sellerOf o x).trans hx) o ?_ s rfl
  cases o with
  | op o => trivial
  | txn work => exact Prog.issues_of_forall (fun _ => trivial) work

section Steps

variable {cfg : ServerConfig} {start c d : ServerPool} {sellers : Sellers}
variable {as : List (Action Request)} {a : Action Request}

theorem step_sellerOf (hstep : (server cfg).step c a = some d) : d.state.sellerOf = c.state.sellerOf := by
  obtain ⟨l, rfl, rfl⟩ | ⟨i, l, o, k, ht, ⟨-, rfl⟩ | ⟨-, rfl⟩ | ⟨-, rfl⟩⟩ := (server cfg).step_cases hstep
  · rfl
  · exact transactional_sellerOf o c.state
  · rfl
  · rfl

/-- What another request does leaves an upsert going. -/
theorem Going.other {s t : Db} {j : Nat} {k : ObjectId} {q : MongoM Response} {read : Order}
    (h : Going cfg start sellers as s j k q read) (hkeep : KeepsNumbers s t)
    (hmove : OrdersMove FollowsOn s t) : Going cfg start sellers (as ++ [a]) t j k q read where
  id := h.id
  shippable := h.shippable
  follows := h.follows.move (fun _ _ hmove hfollows => hfollows.on hmove) hkeep hmove
  stores := h.stores
  derives := h.derives.imp_right fun ⟨before, after, e, has, hbefore⟩ =>
    ⟨before, after ++ [a], e, by rw [has, List.append_assoc, List.cons_append], hbefore⟩

/-- What an upsert does next keeps it going. -/
theorem Going.act {j : Nat} {k : ObjectId} {o : DbOp}
    {kont : Except ApiError o.Reply → MongoM Response} {read : Order}
    (h : Going cfg start sellers as c.state j k (.call o kont) read)
    (hrun : (server cfg).Run (fun _ _ => True) start as c) (hknown : c.state.sellerOf = sellers)
    (hkeep : KeepsNumbers c.state d.state) (hmove : OrdersMove FollowsOn c.state d.state) :
    Going cfg start sellers (as ++ [.act j]) d.state j k (kont (mongo.exec o c.state).1) read where
  id := h.id
  shippable := h.shippable
  follows := h.follows.move (fun _ _ hmove hfollows => hfollows.on hmove) hkeep hmove
  stores := by
    have htruthful : Truthful sellers o (mongo.exec o c.state).1 := hknown ▸ exec_truthful o c.state
    rcases h.stores with ⟨-, hnext⟩ | hturn
    · exact hnext _ htruthful
    · have hstores := hturn _ htruthful
      cases o with
      | shipmentUpsert shipment existing => exact hstores.2.1.until
      | _ => exact hstores.elim
  derives := by
    have htruthful : Truthful sellers o (mongo.exec o c.state).1 := hknown ▸ exec_truthful o c.state
    rcases h.derives with (⟨-, hnext⟩ | hturn) | ⟨before, after, e, has, hbefore, he, hissues⟩
    · exact .inl (hnext _ htruthful)
    · have hderives := hturn _ htruthful
      cases o with
      | shipmentsOf k' =>
        obtain ⟨rfl, hissues⟩ := hderives
        exact .inr ⟨as, [], c, rfl, hrun, hknown, hissues⟩
      | _ => exact .inl (hderives.of_failed fun _ h => by cases h).until
    · exact .inr ⟨before, after ++ [.act j], e, by rw [has, List.append_assoc, List.cons_append],
        hbefore, he, hissues.2 _⟩

theorem embed_eq_call {q : MongoM Response} {o : (Mongo.tx ApiError).Op}
    {kont : Except ApiError ((Mongo.tx ApiError).Reply o) → Handler Response}
    (h : q.embed = .call (S := Mongo.tx ApiError) o kont) :
    ∃ (o' : DbOp) (kont' : Except ApiError o'.Reply → MongoM Response), q = .call (S := Mongo) o' kont' ∧
      (.call (S := Mongo.tx ApiError) o kont : Handler Response) =
        .call (S := Mongo.tx ApiError) (.op o') fun r => (kont' r).embed := by
  cases q with
  | done r => cases h
  | call o' kont' => exact ⟨o', kont', rfl, h.symm⟩

theorem Upserts.step (h : Upserts cfg start sellers as c) (hstep : (server cfg).step c a = some d)
    (hunfailing : Unfailing c a) : Upserts cfg start sellers (as ++ [a]) d := by
  have hkeep := step_keepsNumbers hstep
  have hmove := step_ordersMove hstep FollowsOn.refl h.moves
  refine ⟨h.run.snoc trivial hstep, (step_sellerOf hstep).trans h.known, ?_,
    System.step_issues (handler_ships cfg) hstep h.ships, ?_⟩
  · exact System.step_issues (φ := fun _ o => ∀ s, OrdersMove FollowsOn s
      (mongo.transactional.exec o s).2)
      (handler_ordersMove FollowsOn.refl (fun _ hu => hu.followsOn) cfg) hstep h.moves
  intro j req k value now p hp
  obtain ⟨p₀, hp₀⟩ | rfl := System.step_new hstep hp
  swap
  · exact .inl rfl
  -- The thread stays where it is, or it makes its next call.
  obtain ⟨hfault, hkill⟩ := hunfailing j req k value now p₀ hp₀
  obtain ⟨-, -, -, hd⟩ | ⟨o, k', hcall, ⟨rfl, hstate, hd⟩ | ⟨ha, -⟩ | ⟨ha, -⟩⟩ :=
    (server cfg).step_thread hstep hp₀
  · obtain rfl := (Thread.mk.inj (Option.some_inj.1 (hp.symm.trans hd))).2
    rcases h.going j req k value now p hp₀ with rfl | hdone | ⟨q, read, rfl, hgoing⟩
    · exact .inl rfl
    · exact .inr (.inl hdone)
    · exact .inr (.inr ⟨q, read, rfl, hgoing.other hkeep hmove⟩)
  · obtain rfl := (Thread.mk.inj (Option.some_inj.1 (hp.symm.trans hd))).2
    rcases h.going j req k value now p₀ hp₀ with rfl | ⟨r, rfl⟩ | ⟨q, read, rfl, hgoing⟩
    · obtain ⟨kont, hcode, hgoes⟩ := handler_shipment_goesOn cfg req k value now
      cases hcall.symm.trans hcode
      have hread : d.state = c.state := hstate
      rcases hgoes (mongo.exec (.orderFindOne ⟨k, req.tenant, none⟩) c.state).1 with
        ⟨e, he⟩ | ⟨order, hr, hshippable, hboth⟩
      · exact .inr (.inl ⟨e, congrArg Prog.embed he⟩)
      · obtain ⟨hfound, -⟩ := Option.filter_eq_some_iff.1 (Except.ok.inj hr)
        have hid : order.id = k := get?_key hfound
        obtain ⟨hderives, hstores⟩ := hboth sellers
        refine .inr (.inr ⟨_, order, rfl, hid, hshippable, ?_, hstores, .inl (hid ▸ hderives)⟩)
        rw [hread]
        refine ⟨get?_lt hfound, fun x hx => ?_⟩
        obtain rfl := Option.some_inj.1 (hfound.symm.trans hx)
        exact ⟨rfl, Relation.ReflTransGen.refl⟩
    · cases hcall
    · obtain ⟨o', kont', rfl, hsame⟩ := embed_eq_call hcall
      cases hsame
      exact .inr (.inr ⟨_, read, rfl, hgoing.act h.run h.known hkeep hmove⟩)
  · exact absurd ha hfault
  · exact absurd ha hkill

/-! ## The last upsert -/

theorem exec_shipmentUpsert_cases (shipment : Shipment) (existing : Option ShipmentStatus) (s : Db) :
    ((mongo.exec (.shipmentUpsert shipment existing) s).1 = .ok (some shipment) ∧
      ∀ k, shipment.order ≠ k →
        (mongo.exec (.shipmentUpsert shipment existing) s).2.shipmentsOf k = s.shipmentsOf k) ∨
    (mongo.exec (.shipmentUpsert shipment existing) s).2 = s := by
  have hreplaced : ∀ k, shipment.order ≠ k → ∀ rows : List Shipment,
      (rows.map fun x => if hits shipment existing x then shipment else x).filter (·.order == k) =
        rows.filter (·.order == k) := by
    intro k hk rows
    induction rows with
    | nil => rfl
    | cons x rows ih =>
      rw [List.map_cons, List.filter_cons, List.filter_cons, ih]
      by_cases hx : hits shipment existing x
      · have horder : x.order = shipment.order := by
          simp only [hits, Bool.and_eq_true, beq_iff_eq] at hx
          exact hx.1.1
        simp [hx, horder, hk]
      · simp [hx]
  simp only [mongo, Db.exec]
  split
  · exact .inl ⟨rfl, fun k hk => hreplaced k hk s.shipments⟩
  · split
    · refine .inl ⟨rfl, fun k hk => ?_⟩
      show (s.shipments ++ [shipment]).filter (·.order == k) = _
      rw [List.filter_append, List.filter_cons_of_neg (by simpa using hk), List.filter_nil,
        List.append_nil]
      rfl
    · exact .inr rfl

/-- The shipments of an order stay as they are, or an upsert of the order stores one, and then it does
not leave the order behind. -/
theorem Upserts.stores (h : Upserts cfg start sellers as c) (hstep : (server cfg).step c a = some d)
    (k : ObjectId) : d.state.shipmentsOf k = c.state.shipmentsOf k ∨
      ∃ (j : Nat) (req : AuthedRequest) (value : ShipmentInput) (now : Time) (q : MongoM Response)
        (read : Order), d.threads[j]? = some ⟨.shipment req k value now, q.embed⟩ ∧
        read.id = k ∧ read.status ∈ SHIPPABLE_STATUSES ∧ OrderHas read.Follows k c.state ∧
        ∀ sellers shipments, q.Ends mongo (Lagging sellers shipments read) := by
  obtain ⟨l, rfl, rfl⟩ | ⟨j, l, o, kont, ht, ⟨-, rfl⟩ | ⟨-, rfl⟩ | ⟨-, rfl⟩⟩ := (server cfg).step_cases hstep
  · exact .inl rfl
  · have hmem := List.mem_of_getElem? ht
    by_cases hship : ∃ req k' value now, l = .shipment req k' value now
    · obtain ⟨req, k', value, now, rfl⟩ := hship
      rcases h.going j req k' value now _ ht with hcode | ⟨r, hr⟩ | ⟨q, read, hq, hgoing⟩
      · obtain ⟨kont', hcode', -⟩ := handler_shipment_goesOn cfg req k' value now
        cases hcode.trans hcode'
        exact .inl rfl
      · cases hr
      · obtain ⟨o, kont', rfl, hsame⟩ := embed_eq_call hq.symm
        cases hsame
        by_cases hstore : ∃ shipment existing, o = .shipmentUpsert shipment existing
        · obtain ⟨shipment, existing, rfl⟩ := hstore
          rcases hgoing.stores with ⟨hno, -⟩ | hturn
          · exact absurd rfl (hno shipment existing)
          · obtain ⟨horder, -, hends⟩ := hturn _ (h.known ▸ exec_truthful _ c.state)
            rcases exec_shipmentUpsert_cases shipment existing c.state with ⟨hreply, hsame⟩ | hsame
            · by_cases hk : k' = k
              · subst hk
                refine .inr ⟨j, req, value, now, _, read, List.getElem?_set_self
                  (List.getElem?_eq_some_iff.1 ht).1, hgoing.id, hgoing.shippable, hgoing.follows,
                  hends shipment hreply⟩
              · refine .inl (hsame k ?_)
                rw [horder, hgoing.id]
                exact hk
            · exact .inl (congrArg (Db.shipmentsOf · k) hsame)
        · refine .inl (congrArg (List.filter _) (exec_shipments (fun shipment existing h => ?_) c.state))
          exact hstore ⟨shipment, existing, h⟩
    · have hquiet : o.Within DbOp.StoresNone := by
        refine (h.ships _ hmem).1 fun req k' value now hl => hship ⟨req, k', value, now, hl⟩
      refine .inl (congrArg (List.filter _) ?_)
      exact Machine.transactional_keeps (M := mongo) (I := fun s => s.shipments = c.state.shipments)
        (fun o ho s hs => (exec_shipments ho s).trans hs) o hquiet c.state rfl
  · exact .inl rfl
  · exact .inl rfl

/-- An order that lags behind did so before, unless its shipments have changed. -/
theorem Lagging.before {shipments : List Shipment} {read : Order} {s t : Db}
    (h : Lagging sellers shipments read t) (hread : read.status ∈ SHIPPABLE_STATUSES)
    (hfollows : OrderHas read.Follows read.id s) (hknown : t.sellerOf = s.sellerOf)
    (hsame : t.shipmentsOf read.id = s.shipmentsOf read.id) (hkeep : KeepsNumbers s t)
    (hmove : OrdersMove FollowsOn s t) : Lagging sellers shipments read s := by
  refine ⟨hknown.symm.trans h.known, hsame.symm.trans h.stored, ?_⟩
  obtain ⟨o', n, m', ho', -, hn, hm', hlt⟩ := h.behind
  cases ho : s.orders.get? read.id with
  | none => cases (hkeep.2 _ hfollows.1 ho).symm.trans ho'
  | some o =>
    obtain ⟨-, hpath⟩ := hfollows.2 o ho
    rcases (hmove _ o o' ho ho').2 with hstatus | hedge
    · exact ⟨o, n, m', rfl, hpath, hn, hstatus ▸ hm', hlt⟩
    · obtain ⟨r, hr⟩ := mem_SHIPPABLE_rank hread
      rcases hpath.rank hr with hcancelled | ⟨m, hm, -⟩
      · rw [hcancelled] at hedge
        cases hedge
      · rcases hedge.rank hm with hcancelled | ⟨m'', hm'', hmm⟩
        · rw [hcancelled] at hm'
          cases hm'
        · obtain rfl := Option.some_inj.1 (hm'.symm.trans hm'')
          exact ⟨o, n, m, rfl, hpath, hn, hm, hmm.trans hlt⟩

/-- If the order lags behind its shipments, an upsert is on its way that does not leave it there. -/
def Owed (sellers : Sellers) (k : ObjectId) (c : ServerPool) : Prop :=
  c.state.shipmentsOf k = [] ∨ ∃ read : Order, read.id = k ∧ read.status ∈ SHIPPABLE_STATUSES ∧
    OrderHas read.Follows k c.state ∧ (Lagging sellers (c.state.shipmentsOf k) read c.state →
      ∃ (j : Nat) (req : AuthedRequest) (value : ShipmentInput) (now : Time) (q : MongoM Response),
        c.threads[j]? = some ⟨.shipment req k value now, q.embed⟩ ∧
          q.Ends mongo (Lagging sellers (c.state.shipmentsOf k) read))

theorem Owed.step {k : ObjectId} (h : Owed sellers k c) (hupserts : Upserts cfg start sellers as c)
    (hstep : (server cfg).step c a = some d) (hunfailing : Unfailing c a) : Owed sellers k d := by
  have hkeep := step_keepsNumbers hstep
  have hmove := step_ordersMove hstep FollowsOn.refl hupserts.moves
  rcases hupserts.stores hstep k with hsame | ⟨j, req, value, now, q, read, hd, hid, hread, hfollows, hends⟩
  · unfold Owed
    rw [hsame]
    rcases h with hnil | ⟨read, rfl, hread, hfollows, hends⟩
    · exact .inl hnil
    refine .inr ⟨read, rfl, hread, hfollows.move (fun _ _ hmove hfollows => hfollows.on hmove) hkeep hmove,
      fun hlag => ?_⟩
    have hbefore := hlag.before hread hfollows (step_sellerOf hstep) hsame hkeep hmove
    obtain ⟨j, req, value, now, q, hj, hq⟩ := hends hbefore
    obtain ⟨hfault, hkill⟩ := hunfailing j req _ value now _ hj
    obtain ⟨-, -, -, hd⟩ | ⟨o, kont, hcall, ⟨rfl, hstate, hd⟩ | ⟨ha, -⟩ | ⟨ha, -⟩⟩ :=
      (server cfg).step_thread hstep hj
    · exact ⟨j, req, value, now, q, hd, hq⟩
    · obtain ⟨o', kont', rfl, hsame⟩ := embed_eq_call hcall
      cases hsame
      exact ⟨j, req, value, now, _, hd, hq c.state hbefore (hstate ▸ hlag)⟩
    · exact absurd ha hfault
    · exact absurd ha hkill
  · exact .inr ⟨read, hid, hread, hfollows.move (fun _ _ hmove hfollows => hfollows.on hmove) hkeep hmove,
      fun _ => ⟨j, req, value, now, q, hd, hends _ _⟩⟩

/-- A status that an upsert writes is of a rank at which every line was covered when the upsert read the
shipments. -/
theorem Upserts.written (h : Upserts cfg start sellers as c) {i : Nat} {req : AuthedRequest}
    {k : ObjectId} {value : ShipmentInput} {now : Time} {p : Handler Response}
    (hstep : (server cfg).step c (.act i) = some d)
    (hp : c.threads[i]? = some ⟨.shipment req k value now, p⟩) {k' : ObjectId} {o o' : Order}
    (ho : c.state.orders.get? k' = some o) (ho' : d.state.orders.get? k' = some o')
    (hwrite : o'.status ≠ o.status) :
    k' = k ∧ ∃ r before after e, FULFILMENT_RANK o'.status = some r ∧ as = before ++ .act i :: after ∧
      (server cfg).Run (fun _ _ => True) start before e ∧
      ∀ item ∈ o.items, r ≤ lineRank e.state.products.docs (e.state.shipmentsOf k) item := by
  have hsame : d.state.orders = c.state.orders → False := by
    intro hsame
    rw [hsame] at ho'
    exact hwrite (Option.some_inj.1 (ho'.symm.trans ho) ▸ rfl)
  obtain ⟨hne, -⟩ | ⟨op, kont, hcall, ⟨-, hstate, -⟩ | ⟨hne, -⟩ | ⟨hne, -⟩⟩ :=
    (server cfg).step_thread hstep hp
  · exact absurd rfl hne
  · rcases h.going i req k value now p hp with rfl | ⟨r, rfl⟩ | ⟨q, read, rfl, hgoing⟩
    · obtain ⟨kont', hcode, -⟩ := handler_shipment_goesOn cfg req k value now
      cases hcall.symm.trans hcode
      exact (hsame (congrArg Db.orders hstate)).elim
    · cases hcall
    · obtain ⟨op, kont', rfl, hembed⟩ := embed_eq_call hcall
      cases hembed
      have hwrites : op.WritesOrders := by
        by_contra hno
        exact hsame ((congrArg Db.orders hstate).trans (exec_orders hno c.state).1)
      rcases hgoing.derives with (⟨hno, -⟩ | hturn) | ⟨before, after, e, has, hbefore, he, hissues⟩
      · exact absurd hwrites hno
      · have hderives := hturn _ (h.known ▸ exec_truthful op c.state)
        cases op with
        | orderUpdate u now' =>
          rcases exec_orderUpdate u now' c.state with ⟨x, -, -, heq⟩ | ⟨-, heq⟩ <;>
            rw [heq] at hderives <;> exact hderives.elim
        | orderCreate draft now' => exact hderives.elim
        | orderDelete id => exact hderives.elim
        | _ => exact hwrites.elim
      · obtain ⟨n, status, now', hn, hstatus, rfl⟩ := hissues.1 hwrites
        obtain ⟨x, hx, -, heq⟩ | ⟨-, heq⟩ :=
          exec_orderUpdate (.advance k (behindStatuses n) status) now' c.state
        · have horders : d.state.orders = c.state.orders.update k
              ((OrderUpdate.advance k (behindStatuses n) status).patch now') :=
            congrArg Db.orders (hstate.trans (congrArg Prod.snd heq))
          rw [horders, get?_update] at ho'
          split at ho'
          · next hk =>
            subst hk
            refine ⟨rfl, n, before, after, e, ?_, has, hbefore, fun item hitem => ?_⟩
            · rw [ho] at ho'
              obtain rfl := Option.some_inj.1 ho'
              exact FULFILMENT_RANK_of_rank hstatus
            · have hread : item ∈ read.items := (hgoing.follows.2 o ho).1 ▸ hitem
              have hcovers := derivedRank_covers hn item hread
              rw [← he] at hcovers
              exact hcovers.trans_eq (lineRank_eq rfl _).symm
          · exact absurd (Option.some_inj.1 (ho'.symm.trans ho) ▸ rfl) hwrite
        · exact (hsame (congrArg Db.orders (hstate.trans (congrArg Prod.snd heq)))).elim
  · cases hne
  · cases hne

/-- Once all upserts of the order have ended, it does not lag behind its shipments. -/
theorem Owed.caughtUp {k : ObjectId} (h : Owed sellers k c) (hknown : c.state.sellerOf = sellers)
    (hended : ∀ t ∈ c.threads, (∃ req value now, t.label = .shipment req k value now) →
      t.prog.head? = none) {o : Order} (ho : c.state.orders.get? k = some o)
    (hopen : o.status ≠ .cancelled) {n : Nat}
    (hn : leastRank (o.items.map (lineRank c.state.products.docs (c.state.shipmentsOf k))) = some n) :
    n = 0 ∨ ∃ m, FULFILMENT_RANK o.status = some m ∧ n ≤ m := by
  have hderived : derivedRank sellers o.items (c.state.shipmentsOf k) = some n := by
    rw [← hn]
    exact (leastRank_eq (fun id _ => congrFun hknown id) _).symm
  rcases h with hnil | ⟨read, rfl, hread, hfollows, hends⟩
  · rw [hnil] at hderived
    exact .inl (derivedRank_nil hderived)
  · right
    obtain ⟨hitems, hpath⟩ := hfollows.2 o ho
    obtain ⟨r, hr⟩ := mem_SHIPPABLE_rank hread
    rcases hpath.rank hr with hcancelled | ⟨m, hm, -⟩
    · exact absurd hcancelled hopen
    · refine ⟨m, hm, not_lt.1 fun hlt => ?_⟩
      obtain ⟨j, req, value, now, q, hj, hq⟩ := hends
        ⟨hknown, rfl, o, n, m, ho, hpath, hitems ▸ hderived, hm, hlt⟩
      have hhead := hended _ (List.mem_of_getElem? hj) ⟨req, value, now, rfl⟩
      cases q with
      | done r => exact hq
      | call o kont => cases hhead

end Steps

/-- Along runs in which no upsert fails midway, orders lag behind only while an upsert is on it. -/
theorem run_upserts {cfg : ServerConfig} {start c : ServerPool} {as : List (Action Request)}
    (hstart : start.threads = []) (hnone : start.state.shipments = [])
    (hrun : (server cfg).Run Unfailing start as c) :
    Upserts cfg start start.state.sellerOf as c ∧ ∀ k, Owed start.state.sellerOf k c := by
  refine hrun.induct (P := fun as c => Upserts cfg start start.state.sellerOf as c ∧
    ∀ k, Owed start.state.sellerOf k c) ?_ ?_
  · refine ⟨⟨.nil start, rfl, ?_, ?_, ?_⟩, fun k => .inl ?_⟩
    · simp [hstart]
    · simp [hstart]
    · simp [hstart]
    · rw [Db.shipmentsOf, hnone]
      rfl
  · rintro as d a e hrun hunfailing hstep ⟨hupserts, howed⟩
    exact ⟨hupserts.step hstep hunfailing, fun k => (howed k).step hupserts hstep hunfailing⟩

/-- Upserts that do not fail midway keep an order and its shipments together. Each status that an upsert
writes was derived at an instant of that upsert at which every line was covered at that rank or more.
And once the upserts of an order have ended, its rank is at least the derived one, unless it has been
cancelled. -/
theorem fulfilment_follows_shipments {cfg : ServerConfig} {start c : ServerPool}
    {as : List (Action Request)} (hstart : start.threads = []) (hnone : start.state.shipments = [])
    (hrun : (server cfg).Run Unfailing start as c) :
    (∀ i d req k value now p k' o o', (server cfg).step c (.act i) = some d →
      c.threads[i]? = some ⟨.shipment req k value now, p⟩ → c.state.orders.get? k' = some o →
      d.state.orders.get? k' = some o' → o'.status ≠ o.status →
        k' = k ∧ ∃ r before after e, FULFILMENT_RANK o'.status = some r ∧
          as = before ++ .act i :: after ∧ (server cfg).Run (fun _ _ => True) start before e ∧
          ∀ item ∈ o.items, r ≤ lineRank e.state.products.docs (e.state.shipmentsOf k) item) ∧
    ∀ k o n, (∀ t ∈ c.threads, (∃ req value now, t.label = .shipment req k value now) →
        t.prog.head? = none) →
      c.state.orders.get? k = some o → o.status ≠ .cancelled →
      leastRank (o.items.map (lineRank c.state.products.docs (c.state.shipmentsOf k))) = some n →
        n = 0 ∨ ∃ m, FULFILMENT_RANK o.status = some m ∧ n ≤ m := by
  obtain ⟨hupserts, howed⟩ := run_upserts hstart hnone hrun
  refine ⟨fun i d req k value now p k' o o' hstep hp ho ho' hwrite =>
    hupserts.written hstep hp ho ho' hwrite, fun k o n hended ho hopen hn => ?_⟩
  exact (howed k).caughtUp hupserts.known hended ho hopen hn

/-- The paid sample order, and two admins' upserts that race. -/
def racingUpserts : List (Action Request) :=
  [.spawn (sampleCheckout 0), .act 0, .spawn (.webhook (sampleDelivery "e") 1), .act 1, .act 1, .act 1,
    .act 1, .spawn (.shipment ⟨9, .admin, "t"⟩ 0 ⟨.pending⟩ 2), .act 2, .act 2, .act 2,
    .spawn (.shipment ⟨9, .admin, "t"⟩ 0 ⟨.inTransit⟩ 3), .act 3, .act 3, .act 3, .act 3, .act 2, .act 2,
    .act 3, .act 3, .act 3, .act 2, .act 2]

/-- Both run to their end: the order is as far as its shipment. -/
theorem fulfilment_follows_shipments_race :
    ∃ c : ServerPool, ∃ o, (server (sampleConfig .replicaSet)).Run Unfailing ⟨sampleDb, []⟩
        racingUpserts c ∧
      c.state.orders.get? 0 = some o ∧
      leastRank (o.items.map (lineRank c.state.products.docs (c.state.shipmentsOf 0))) = some 2 ∧
      (2 = 0 ∨ ∃ m, FULFILMENT_RANK o.status = some m ∧ 2 ≤ m) := by
  obtain ⟨c, hc, h⟩ := (Option.any_eq_true _ _).1 (by decide +kernel :
    ((server (sampleConfig .replicaSet)).play
        (fun _ a => a.unfailing) ⟨sampleDb, []⟩
        racingUpserts).any fun c =>
      decide (∀ t ∈ c.threads.drop 2, t.prog.head?.isNone) &&
      decide ((c.threads.take 2).map (·.label) =
        [sampleCheckout 0, .webhook (sampleDelivery "e") 1]) &&
      (c.state.orders.get? 0).any fun o => decide (o.status ≠ .cancelled ∧
        leastRank (o.items.map (lineRank c.state.products.docs (c.state.shipmentsOf 0))) = some 2))
  simp only [Bool.and_eq_true, decide_eq_true_eq, Option.any_eq_true] at h
  obtain ⟨⟨hended, hothers⟩, o, ho, hopen, hrank⟩ := h
  have hrun : (server (sampleConfig .replicaSet)).Run Unfailing ⟨sampleDb, []⟩ racingUpserts c := by
    refine (System.Run.of_play hc).mono fun _ a ha j _ _ _ _ _ _ => ⟨?_, ?_⟩
    · rintro rfl
      cases ha
    · rintro rfl
      cases ha
  refine ⟨c, o, hrun, ho, hrank, (fulfilment_follows_shipments rfl rfl hrun).2 0 o 2 ?_ ho hopen hrank⟩
  rintro t ht ⟨req, value, now, hlabel⟩
  rw [← List.take_append_drop 2 c.threads] at ht
  rcases List.mem_append.1 ht with ht | ht
  · have hmem : t.label ∈ (c.threads.take 2).map (·.label) := List.mem_map_of_mem ht
    rw [hothers, hlabel] at hmem
    simp [sampleCheckout] at hmem
  · exact Option.isNone_iff_eq_none.1 (hended t ht)

end Ecommerce
