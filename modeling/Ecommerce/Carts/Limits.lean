import Ecommerce.Effect.Noted
import Ecommerce.Model.CartEdits

/-!
# The quantity of a line

The schema of a cart line admits quantities from 1 to 999. An update in place is not checked against
it, so `addItem` checks the limit on a cart that it reads before. That check holds for the increment
unless another request has raised the line in between.
-/

namespace Ecommerce

open Effect Effect.Collection

/-! ## Lines -/

/-- The quantity of the product in the customer's cart, which is 0 without a line. -/
def Db.quantityOf (db : Db) (user : ObjectId) (tenant : String) (product : ObjectId) : ℕ :=
  existingQuantity (db.cartOf user tenant) product

theorem Db.get?_cartOf {s : Db} {user : ObjectId} {tenant : String} {c : Cart}
    (h : s.cartOf user tenant = some c) : s.carts.get? c.id = some c :=
  get?_eq_some.2 ⟨List.mem_of_find?_eq_some h, rfl⟩

theorem Db.quantityOf_some {s : Db} {user : ObjectId} {tenant : String} {c : Cart}
    (h : s.cartOf user tenant = some c) (product : ObjectId) :
    s.quantityOf user tenant product = existingQuantity (some c) product := by
  rw [Db.quantityOf, h]

/-- A line after `$inc` is an old one, or the first of the product with the quantity added. -/
theorem mem_addToLine {product : ObjectId} {quantity : ℕ+} {items : List CartItem} {item : CartItem}
    (h : item ∈ addToLine product quantity items) :
    item ∈ items ∨ ∃ old, items.find? (·.product == product) = some old ∧
      item = { old with quantity := old.quantity + quantity } := by
  induction items with
  | nil => cases h
  | cons first rest ih =>
    rw [addToLine] at h
    split at h
    · next hfirst =>
      rcases List.mem_cons.1 h with rfl | h
      · exact .inr ⟨first, by simp [hfirst], rfl⟩
      · exact .inl (List.mem_cons_of_mem _ h)
    · next hfirst =>
      rcases List.mem_cons.1 h with rfl | h
      · exact .inl List.mem_cons_self
      · obtain h | ⟨old, hold, rfl⟩ := ih h
        · exact .inl (List.mem_cons_of_mem _ h)
        · exact .inr ⟨old, by simpa [hfirst] using hold, rfl⟩

theorem addToLine_mem {product : ObjectId} (quantity : ℕ+) {items : List CartItem} {old : CartItem}
    (h : items.find? (·.product == product) = some old) :
    { old with quantity := old.quantity + quantity } ∈ addToLine product quantity items := by
  induction items with
  | nil => cases h
  | cons first rest ih =>
    rw [addToLine]
    split
    · next hfirst =>
      obtain rfl : first = old := by simpa [hfirst] using h
      exact List.mem_cons_self
    · next hfirst => exact List.mem_cons_of_mem _ (ih (by simpa [hfirst] using h))

/-- A line after `$set` is an old one, or has the quantity that was set. -/
theorem mem_setLine {product : ObjectId} {quantity : ℕ+} {items : List CartItem} {item : CartItem}
    (h : item ∈ setLine product quantity items) : item ∈ items ∨ item.quantity = quantity := by
  induction items with
  | nil => cases h
  | cons first rest ih =>
    rw [setLine] at h
    split at h
    · rcases List.mem_cons.1 h with rfl | h
      · exact .inr rfl
      · exact .inl (List.mem_cons_of_mem _ h)
    · rcases List.mem_cons.1 h with rfl | h
      · exact .inl List.mem_cons_self
      · exact (ih h).imp_left (List.mem_cons_of_mem _)

/-- The schema admits the quantity. -/
def CartItem.Admitted (item : CartItem) : Prop := 1 ≤ (item.quantity : ℕ) ∧ (item.quantity : ℕ) ≤ 999

/-- Every stored line has a quantity that the schema admits. -/
def Db.LinesAdmitted (db : Db) : Prop := ∀ cart ∈ db.carts.docs, ∀ item ∈ cart.items, item.Admitted

theorem CartItem.admitted {item : CartItem} (h : (item.quantity : ℕ) ≤ 999) : item.Admitted :=
  ⟨item.quantity.pos, h⟩

/-- Patching a cart keeps the lines admitted if the patched cart has such lines. -/
theorem Db.LinesAdmitted.update {s t : Db} {c : Cart} {f : Patch Cart} (h : s.LinesAdmitted)
    (hc : s.carts.get? c.id = some c) (hcarts : t.carts = s.carts.update c.id f)
    (hitems : ∀ item ∈ (f.run c).items, item ∈ c.items ∨ (item.quantity : ℕ) ≤ 999) :
    t.LinesAdmitted := by
  intro cart hcart item hitem
  rw [hcarts] at hcart
  obtain ⟨hcart, -⟩ | rfl := (mem_update hc).1 hcart
  · exact h cart hcart item hitem
  · obtain hold | hle := hitems item hitem
    · exact h c (get?_eq_some.1 hc).1 item hold
    · exact CartItem.admitted hle

theorem Db.LinesAdmitted.insert {s t : Db} {c : Cart} (h : s.LinesAdmitted)
    (hkey : Keyed.key c = s.carts.next) (hcarts : t.carts = s.carts.insert c hkey)
    (hitems : ∀ item ∈ c.items, (item.quantity : ℕ) ≤ 999) : t.LinesAdmitted := by
  intro cart hcart item hitem
  rw [hcarts] at hcart
  obtain hcart | rfl := mem_insert.1 hcart
  · exact h cart hcart item hitem
  · exact CartItem.admitted (hitems item hitem)

/-! ## What a request has read -/

section Requests

variable (customer : AuthedRequest)

/-- What a request of the customer issues, given the cart that it has read. -/
def mayEdit : EditMongo.Op → Option (Option Cart) → Prop
  | .inl (.inl (.cartFindOne user tenant)), _ => user = customer.user ∧ tenant = customer.tenant
  | .inl (.inr (.cartIncrement user tenant product quantity)), read
  | .inl (.inr (.cartPush user tenant product quantity)), read =>
    user = customer.user ∧ tenant = customer.tenant ∧
      ∃ found, read = some found ∧ existingQuantity found product + quantity ≤ 999
  | .inr (.cartSet user tenant _ quantity), _ =>
    user = customer.user ∧ tenant = customer.tenant ∧ quantity ≤ 999
  | .inl (.inr (.productFindOne _ _)), _ | .inl (.inr (.cartFindById _)), _ => True
  | _, _ => False

/-- The cart that a request has read. -/
def noteRead : (o : EditMongo.Op) → Except ApiError (EditMongo.Reply o) → Option (Option Cart) →
    Option (Option Cart)
  | .inl (.inl (.cartFindOne _ _)), .ok found, _ => some found
  | _, _, read => read

def readMemo : Memo EditMongo ApiError (Option (Option Cart)) where
  note := noteRead
  may := mayEdit customer
  allows _ _ := True

variable {customer}

theorem readMemo_fault (o : EditMongo.Op) (e : ApiError) (read : Option (Option Cart)) :
    (readMemo customer).note o (.error e) read = read := by
  rcases o with (o | o) | o <;> cases o <;> rfl

theorem addQuantity_reads {product : ObjectId} {quantity : ℕ+} {found : Option Cart}
    (h : existingQuantity found product + quantity ≤ 999) (attempts : Nat) :
    (readMemo customer).Tracks (fun _ read => read = some found)
      (CartRepository.addQuantity customer.user customer.tenant product quantity attempts).inl
      (some found) := by
  have hmay : customer.user = customer.user ∧ customer.tenant = customer.tenant ∧
      ∃ found', some found = some found' ∧ existingQuantity found' product + quantity ≤ 999 :=
    ⟨rfl, rfl, found, rfl, h⟩
  induction attempts with
  | zero => exact rfl
  | succ attempts ih =>
    refine ⟨hmay, fun r _ => ?_⟩
    obtain e | (_ | incremented) := r
    · exact rfl
    · refine ⟨hmay, fun r _ => ?_⟩
      obtain e | (_ | cart) := r
      · by_cases he : e = .duplicateKey
        · subst he
          exact ih
        · simp only [CartRepository.retryDuplicate, Prog.catching, if_neg he]
          exact rfl
      · exact ih
      · exact rfl
    · exact rfl

theorem addItem_reads (body : CartItemBody) :
    (readMemo customer).Tracks (fun _ _ => True)
      (Ecommerce.addItem customer body.productId body.quantity).inl none := by
  refine ⟨trivial, fun r _ => ?_⟩
  obtain e | (_ | product) := r
  · trivial
  · trivial
  refine ⟨⟨rfl, rfl⟩, fun r _ => ?_⟩
  obtain e | found := r
  · trivial
  show (readMemo customer).Tracks _ (Prog.inl (ite _ _ (ite _ _ _))) (some found)
  split
  · trivial
  split
  · trivial
  next hlimit =>
  refine Memo.Tracks.inl_bind ((addQuantity_reads (Nat.le_of_not_lt hlimit) 3).weaken ?_)
  intro r read _
  cases r with
  | ok cart => exact ⟨trivial, fun r _ => by cases r <;> trivial⟩
  | error e => trivial

theorem updateItem_reads (body : CartItemBody) :
    (readMemo customer).Tracks (fun _ _ => True)
      (Ecommerce.updateItem customer body.productId body.quantity) none := by
  refine ⟨trivial, fun r _ => ?_⟩
  obtain e | (_ | product) := r
  · trivial
  · trivial
  show (readMemo customer).Tracks _ (ite _ _ _) none
  split
  · trivial
  refine ⟨⟨rfl, rfl, body.le_max⟩, fun r _ => ?_⟩
  obtain e | (_ | cart) := r
  · trivial
  · trivial
  exact ⟨trivial, fun r _ => by cases r <;> trivial⟩

theorem QuantityRequest.reads (request : QuantityRequest) :
    (readMemo customer).Tracks (fun _ _ => True) (request.code customer) none := by
  cases request with
  | addItem body => exact addItem_reads body
  | updateItem body => exact updateItem_reads body

/-- A call keeps the lines admitted, an increment where it finds room for its quantity. -/
theorem exec_linesAdmitted {o : EditMongo.Op} {read : Option (Option Cart)} {s : Db}
    (hmay : mayEdit customer o read) (h : s.LinesAdmitted)
    (hfits : ∀ product quantity,
      o = .inl (.inr (.cartIncrement customer.user customer.tenant product quantity)) →
        s.quantityOf customer.user customer.tenant product + quantity ≤ 999) :
    (editMongo.exec o s).2.LinesAdmitted := by
  rcases o with (o | o) | o
  · cases o with
    | cartFindOne user tenant => exact h
    | _ => exact hmay.elim
  · cases o with
    | productFindOne id tenant => exact h
    | cartFindById id => exact h
    | cartIncrement user tenant product quantity =>
      obtain ⟨rfl, rfl, -⟩ := hmay
      have hroom := hfits product quantity rfl
      simp only [editMongo, cartMongo, Machine.sum, CartCall.exec]
      split
      · next c hcart =>
        split
        · refine h.update (Db.get?_cartOf hcart) rfl fun item hitem => ?_
          obtain hold | ⟨old, hold, rfl⟩ := mem_addToLine hitem
          · exact .inl hold
          · rw [Db.quantityOf_some hcart] at hroom
            simp only [existingQuantity, Option.bind_some, hold] at hroom
            exact .inr hroom
        · exact h
      · exact h
    | cartPush user tenant product quantity =>
      obtain ⟨rfl, rfl, found, -, hle⟩ := hmay
      have hquantity : (quantity : ℕ) ≤ 999 := (Nat.le_add_left _ _).trans hle
      simp only [editMongo, cartMongo, Machine.sum, CartCall.exec]
      split
      · next c hcart =>
        split
        · exact h
        · refine h.update (Db.get?_cartOf hcart) rfl fun item hitem => ?_
          refine (List.mem_append.1 hitem).imp_right fun hnew => ?_
          rw [List.mem_singleton.1 hnew]
          exact hquantity
      · refine h.insert (key_newCart ..) rfl fun item hitem => ?_
        rw [List.mem_singleton.1 hitem]
        exact hquantity
  · cases o with
    | cartSet user tenant product quantity =>
      obtain ⟨rfl, rfl, hle⟩ := hmay
      simp only [editMongo, Machine.sum, CartEdit.exec]
      split
      · next c hcart =>
        split
        · refine h.update (Db.get?_cartOf hcart) rfl fun item hitem => ?_
          refine (mem_setLine hitem).imp_right fun hset => ?_
          rw [hset]
          exact hle
        · exact h
      · exact h
    | _ => exact hmay.elim

end Requests

/-! ## Runs -/

section Runs

variable (customer : AuthedRequest)

/-- A run of the requests of the customer, whatever fails. -/
abbrev QuantityRun : QuantityPool → List (Action QuantityRequest) → QuantityPool → Prop :=
  (quantityServer customer).Run fun _ _ => True

/-- An increment that finds more of the product than its request has read still has room for its
quantity. -/
def RacesFit (c : QuantityPool) (as : List (Action QuantityRequest)) : Prop :=
  ∀ (before middle after : List (Action QuantityRequest)) (i : Nat) (c₁ c₂ : QuantityPool)
    (product : ObjectId) (quantity : ℕ+),
    as = before ++ .act i :: (middle ++ .act i :: after) → QuantityRun customer c before c₁ →
    c₁.head? i = some (.inl (.inl (.cartFindOne customer.user customer.tenant))) →
    QuantityRun customer c₁ (.act i :: middle) c₂ →
    c₂.head? i =
      some (.inl (.inr (.cartIncrement customer.user customer.tenant product quantity))) →
    c₁.state.quantityOf customer.user customer.tenant product <
      c₂.state.quantityOf customer.user customer.tenant product →
    c₂.state.quantityOf customer.user customer.tenant product + quantity ≤ 999

variable {customer} {c d e : QuantityPool} {as : List (Action QuantityRequest)}

theorem RacesFit.of_append {bs : List (Action QuantityRequest)} (h : RacesFit customer c (as ++ bs)) :
    RacesFit customer c as := by
  rintro before middle after i c₁ c₂ product quantity rfl
  exact h before middle (after ++ bs) i c₁ c₂ product quantity (by simp)

/-- Along a run every request has a memo, and what it has read was read at some step. -/
theorem quantity_noted (hstart : c.threads = []) (hrun : QuantityRun customer c as d) :
    ∃ reads, (readMemo customer).Minutes (fun _ _ _ => True) d reads ∧
      ∀ i read found, reads[i]? = some read → read = some found →
        Memo.NotedAt (readMemo customer) (quantityServer customer) (fun _ _ => True) id c as d i found :=
  Memo.noted id QuantityRequest.reads (fun _ _ => trivial) (fun _ => trivial)
    (fun _ _ _ _ _ => trivial) (fun _ => rfl) (fun o read => readMemo_fault o _ read) hstart hrun

/-- Every increment has room for its quantity, as long as those that were raced have. -/
theorem increment_fits (hstart : c.threads = []) (hrun : QuantityRun customer c as d) {i : Nat}
    (hraces : RacesFit customer c (as ++ [.act i])) {product : ObjectId} {quantity : ℕ+}
    (hhead : d.head? i =
      some (.inl (.inr (.cartIncrement customer.user customer.tenant product quantity)))) :
    d.state.quantityOf customer.user customer.tenant product + quantity ≤ 999 := by
  obtain ⟨gs, hminutes, hnoted⟩ := quantity_noted hstart hrun
  obtain ⟨read, hi, -, -, found, rfl, hchecked⟩ := hminutes.head hhead
  obtain ⟨before, middle, e, o, read, rfl, hbefore, hread, hmay, hnot, hfound, hmiddle⟩ :=
    hnoted i _ found hi rfl
  -- Only the request's own read notes a cart.
  have hfind : o = .inl (.inl (.cartFindOne customer.user customer.tenant)) ∧
      found = e.state.cartOf customer.user customer.tenant := by
    rcases o with (o | o) | o
    · cases o with
      | cartFindOne user tenant =>
        obtain ⟨rfl, rfl⟩ := hmay
        exact ⟨rfl, (Option.some_inj.1 hfound).symm⟩
      | _ => exact hmay.elim
    · cases o <;> exact absurd hfound hnot
    · cases o <;> exact absurd hfound hnot
  obtain ⟨rfl, rfl⟩ := hfind
  by_cases hraced : e.state.quantityOf customer.user customer.tenant product <
      d.state.quantityOf customer.user customer.tenant product
  · exact hraces before middle [] i e d product quantity (by simp) hbefore hread hmiddle hhead hraced
  · exact (Nat.add_le_add_right (Nat.le_of_not_lt hraced) _).trans hchecked

/-- A run whose raced increments fit ends with admitted lines. -/
theorem linesAdmitted (hstart : c.threads = []) (hlines : c.state.LinesAdmitted)
    (hrun : QuantityRun customer c as d) (hraces : RacesFit customer c as) : d.state.LinesAdmitted := by
  refine hrun.induct (P := fun as d => RacesFit customer c as → d.state.LinesAdmitted)
    (fun _ => hlines) ?_ hraces
  intro as d a e hrun _ hs ih hraces
  have hd := ih hraces.of_append
  obtain ⟨l, rfl, rfl⟩ | ⟨i, l, o, k, ht, ⟨rfl, rfl⟩ | ⟨rfl, rfl⟩ | ⟨rfl, rfl⟩⟩ :=
    System.step_cases _ hs
  · exact hd
  · have hhead : d.head? i = some o := by simp [Pool.head?, ht, Prog.head?]
    obtain ⟨gs, hminutes, -⟩ := quantity_noted hstart hrun
    obtain ⟨read, -, hmay⟩ := hminutes.head hhead
    refine exec_linesAdmitted hmay hd ?_
    rintro product quantity rfl
    exact increment_fits hstart hrun hraces hhead
  · exact hd
  · exact hd

/-- A request that is about to make a call can make it. -/
theorem head_steps (customer : AuthedRequest) {d : QuantityPool} {i : Nat} {o : EditMongo.Op} (h : d.head? i = some o) :
    ∃ e, (quantityServer customer).step d (.act i) = some e ∧ e.state = (editMongo.exec o d.state).2 := by
  obtain ⟨⟨l, p⟩, ht, hp⟩ := Option.bind_eq_some_iff.1 h
  cases p with
  | done r => cases hp
  | call o' k =>
    obtain rfl := Option.some_inj.1 hp
    exact ⟨_, by simp only [System.step, ht]; rfl, rfl⟩

/-- After an increment that has found the product, there is a line of the sum. -/
theorem increment_line {s : Db} {user : ObjectId} {tenant : String} {product : ObjectId}
    (quantity : ℕ+) (h : 0 < s.quantityOf user tenant product) :
    ∃ cart ∈ (editMongo.exec (.inl (.inr (.cartIncrement user tenant product quantity))) s).2.carts.docs,
      ∃ item ∈ cart.items, (item.quantity : ℕ) = s.quantityOf user tenant product + quantity := by
  cases hcart : s.cartOf user tenant with
  | none => simp [Db.quantityOf, hcart, existingQuantity] at h
  | some c =>
    rw [Db.quantityOf_some hcart] at h ⊢
    cases hfind : c.items.find? (·.product == product) with
    | none => simp [existingQuantity, hfind] at h
    | some old =>
      have hhas : c.has product :=
        List.any_eq_true.2 ⟨old, List.mem_of_find?_eq_some hfind, by simpa using List.find?_some hfind⟩
      refine ⟨(Cart.increment product quantity).run c, ?_, _, addToLine_mem quantity hfind, ?_⟩
      · simp only [editMongo, cartMongo, Machine.sum, CartCall.exec, hcart, if_pos hhas]
        exact (mem_update (Db.get?_cartOf hcart)).2 (.inr rfl)
      · simp [existingQuantity, hfind]

/-- Every line stays admitted along a run exactly when the increments that were raced have room for
their quantity. -/
theorem quantities_admitted (hstart : c.threads = []) (hlines : c.state.LinesAdmitted)
    (hrun : QuantityRun customer c as d) :
    (∀ before after e, as = before ++ after → QuantityRun customer c before e → e.state.LinesAdmitted) ↔
      RacesFit customer c as := by
  constructor
  · intro hall before middle after i c₁ c₂ product quantity has hbefore hread hmiddle hhead hraced
    obtain ⟨e, hs, hstate⟩ := head_steps customer hhead
    have hreach : QuantityRun customer c (before ++ .act i :: middle ++ [.act i]) e :=
      (hbefore.append hmiddle).snoc trivial hs
    obtain ⟨cart, hcart, item, hitem, hsum⟩ :=
      increment_line quantity (Nat.zero_lt_of_lt hraced)
    rw [← hsum]
    rw [← hstate] at hcart
    exact (hall _ after e (by simp [has]) hreach cart hcart item hitem).2
  · rintro hraces before after e rfl hbefore
    exact linesAdmitted hstart hlines hbefore hraces.of_append

end Runs

/-- A shop with mugs for everyone, and nothing in the carts. -/
def stockedDb : Db :=
  { (∅ : Db) with
    products := (∅ : Collection Product).insert ⟨0, "t", none, "mug", 10, 5000, true, none⟩ rfl }

theorem stockedDb_linesAdmitted : stockedDb.LinesAdmitted := nofun

/-- Two requests for 600 mugs each. The second reads the cart once the first has written its line. -/
def addedInTurn : List (Action QuantityRequest) :=
  [.spawn (.addItem ⟨0, 600, by decide⟩), .spawn (.addItem ⟨0, 600, by decide⟩),
    .act 0, .act 0, .act 0, .act 0, .act 1, .act 1]

theorem quantities_admitted_addedInTurn :
    ∃ d, QuantityRun sampleUser ⟨stockedDb, []⟩ addedInTurn d ∧ d.state.quantityOf 1 "t" 0 = 600 ∧
      ((∀ before after e, addedInTurn = before ++ after →
          QuantityRun sampleUser ⟨stockedDb, []⟩ before e → e.state.LinesAdmitted) ↔
        RacesFit sampleUser ⟨stockedDb, []⟩ addedInTurn) := by
  obtain ⟨d, hd, h⟩ := (Option.any_eq_true _ _).1 (by decide +kernel :
    ((quantityServer sampleUser).play (fun _ _ => true) ⟨stockedDb, []⟩ addedInTurn).any fun d =>
      decide (d.state.quantityOf 1 "t" 0 = 600))
  have hrun : QuantityRun sampleUser ⟨stockedDb, []⟩ addedInTurn d :=
    (System.Run.of_play hd).mono fun _ _ _ => trivial
  exact ⟨d, hrun, of_decide_eq_true h, quantities_admitted rfl stockedDb_linesAdmitted hrun⟩

/-- Two requests for 600 mugs each, that both read the cart before either has written its line. -/
def addedAtOnce : List (Action QuantityRequest) :=
  [.spawn (.addItem ⟨0, 600, by decide⟩), .spawn (.addItem ⟨0, 600, by decide⟩),
    .act 0, .act 0, .act 1, .act 1, .act 0, .act 0, .act 1]

/-- Both are checked against an empty cart, and the line ends at 1200. -/
theorem quantities_admitted_counterexample :
    ¬ ∀ as d, QuantityRun sampleUser ⟨stockedDb, []⟩ as d → d.state.LinesAdmitted := by
  obtain ⟨d, hd, h⟩ := (Option.any_eq_true _ _).1 (by decide +kernel :
    ((quantityServer sampleUser).play (fun _ a => a.unfailing) ⟨stockedDb, []⟩ addedAtOnce).any fun d =>
      decide (∃ cart ∈ d.state.carts.docs, ∃ item ∈ cart.items, (item.quantity : ℕ) = 1200))
  obtain ⟨cart, hcart, item, hitem, hquantity⟩ := of_decide_eq_true h
  intro hall
  have hle := (hall _ d ((System.Run.of_play hd).mono fun _ _ _ => trivial) cart hcart item hitem).2
  omega

end Ecommerce
