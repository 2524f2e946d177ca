import Ecommerce.Carts.Notes

/-!
# Cart units

A unit that a customer has added is in the cart until a checkout clears it, and in an order of that
checkout from then on, as long as every checkout clears the lines that it has read. The balance of
cart and orders against the notes of the requests in flight is kept by every step.
-/

namespace Ecommerce

open Effect Effect.Collection

/-! ## Counting -/

/-- The units of a product on some lines. -/
def lineUnits (items : List CartItem) (product : ObjectId) : ℕ :=
  (items.map fun item => if item.product = product then (item.quantity : ℕ) else 0).sum

@[simp] theorem lineUnits_nil (product : ObjectId) : lineUnits [] product = 0 := rfl

theorem lineUnits_cons (item : CartItem) (items : List CartItem) (product : ObjectId) :
    lineUnits (item :: items) product = lineUnits [item] product + lineUnits items product := by
  simp [lineUnits]

theorem lineUnits_append (items items' : List CartItem) (product : ObjectId) :
    lineUnits (items ++ items') product = lineUnits items product + lineUnits items' product := by
  simp [lineUnits]

theorem lineUnits_addToLine {items : List CartItem} {added : ObjectId} (quantity : ℕ+)
    (h : items.any (·.product == added)) (product : ObjectId) :
    lineUnits (addToLine added quantity items) product =
      lineUnits items product + lineUnits [⟨added, quantity⟩] product := by
  induction items with
  | nil => simp at h
  | cons item rest ih =>
    rw [addToLine]
    split
    · next hitem =>
      subst hitem
      by_cases hproduct : item.product = product
      · simp [lineUnits, hproduct]
        omega
      · simp [lineUnits, hproduct]
    · next hitem =>
      rw [lineUnits_cons, ih (by simpa [hitem] using h), lineUnits_cons item rest, Nat.add_assoc]

/-- The units of a product in the customer's cart. -/
def Db.inCart (db : Db) (customer : AuthedRequest) (product : ObjectId) : ℕ :=
  match db.cartOf customer.user customer.tenant with
  | some cart => lineUnits cart.items product
  | none => 0

/-- The units of a product in orders. -/
def Db.ordered (db : Db) (product : ObjectId) : ℕ :=
  db.orders.sum fun order => lineUnits order.lines product

/-- The units of a product that a request asks to add. -/
def CartRequest.adds (product : ObjectId) : CartRequest → ℕ
  | .addItem added quantity => lineUnits [⟨added, quantity⟩] product
  | .checkout .. => 0

/-- A request of the customer, at the point it has reached. -/
abbrev CartThread := Thread CartMongo ApiError CartResponse CartRequest

/-- The units that a request has added, and has said so. -/
def reportedBy (product : ObjectId) (t : CartThread) : ℕ :=
  match t.prog.result? with
  | some (.ok _) => t.label.adds product
  | _ => 0

/-- The units that a request was to add that has ended in an error. -/
def refusedBy (product : ObjectId) (t : CartThread) : ℕ :=
  match t.prog.result? with
  | some (.error _) => t.label.adds product
  | _ => 0

/-! ## The schedule -/

/-- Any call may fail but the deletion of an order, and no request is cut off. -/
def Tolerated (c : CartPool) : Action CartRequest → Prop
  | .spawn _ | .act _ => True
  | .fault i => ∀ id, c.head? i ≠ some (.inl (.orderDelete id))
  | .kill _ => False

section Schedule

variable (limits : Limits) (customer : AuthedRequest)

/-- A cart that a checkout clears has the lines that the checkout has read. -/
def ClearsWhatItRead (c : CartPool) (as : List (Action CartRequest)) : Prop :=
  ∀ (before middle after : List (Action CartRequest)) (i : Nat) (c₁ c₂ : CartPool) (cart : Cart),
    as = before ++ .act i :: (middle ++ .act i :: after) →
    (cartServer limits customer).Run Tolerated c before c₁ →
    c₁.head? i = some (.inl (.cartFindOne customer.user customer.tenant)) →
    (cartServer limits customer).Run Tolerated c₁ (.act i :: middle) c₂ →
    c₂.head? i = some (.inl (.cartClear cart.id cart.version)) →
    c₂.state.carts.get? cart.id = some cart →
    (c₁.state.cartOf customer.user customer.tenant).map Cart.items = some cart.items

/-- Whether the cart that a request clears in one state has the lines that it read in another. -/
def clearsLines (c₁ c₂ : CartPool) (i : Nat) : Bool :=
  match c₁.head? i, c₂.head? i with
  | some (.inl (.cartFindOne user tenant)), some (.inl (.cartClear id version)) =>
    (c₂.state.carts.get? id).all fun cart =>
      cart.version != version ||
        decide ((c₁.state.cartOf user tenant).map Cart.items = some cart.items)
  | _, _ => true

/-- The same for every pair of calls of a request along a schedule. -/
def clearsAlong (c : CartPool) (as : List (Action CartRequest)) : Bool :=
  (List.range as.length).all fun n => (List.range n).all fun m =>
    match as[m]?, as[n]? with
    | some (.act i), some (.act j) =>
      i != j || ((cartServer limits customer).play (fun _ _ => true) c (as.take m)).all fun c₁ =>
        ((cartServer limits customer).play (fun _ _ => true) c (as.take n)).all fun c₂ =>
          clearsLines c₁ c₂ i
    | _, _ => true

variable {limits customer}

/-- It can be found out by playing the schedule. -/
theorem ClearsWhatItRead.of_clearsAlong {c : CartPool} {as : List (Action CartRequest)}
    (h : clearsAlong limits customer c as) : ClearsWhatItRead limits customer c as := by
  intro before middle after i c₁ c₂ cart has hbefore hfind hmiddle hclear hget
  have has' : as = (before ++ .act i :: middle) ++ .act i :: after := by simp [has]
  have hm : as[before.length]? = some (.act i) := by simp [has]
  have hn : as[(before ++ .act i :: middle).length]? = some (.act i) := by
    rw [has', List.getElem?_append_right le_rfl]
    simp
  have hearlier : as.take before.length = before := by rw [has, List.take_left]
  have hlater : as.take (before ++ .act i :: middle).length = before ++ .act i :: middle := by
    rw [has', List.take_left]
  rw [clearsAlong, List.all_eq_true] at h
  have hall := h (before ++ .act i :: middle).length (by simp [has])
  rw [List.all_eq_true] at hall
  have hpair := hall before.length (by simp)
  rw [hm, hn, hearlier, hlater, hbefore.play_eq, (hbefore.append hmiddle).play_eq] at hpair
  simpa [clearsLines, hfind, hclear, hget] using hpair

end Schedule

/-! ## What a call does -/

/-- What a call does to carts and orders, and what is noted of it. -/
inductive Moves (customer : AuthedRequest) (s : Db) (g : CartNote) :
    CartMongo.Op → Db → CartNote → Prop where
  | reads {t} (hsame : t = s) : Moves customer s g
      (.inl (.cartFindOne customer.user customer.tenant)) t
      { g with cart := s.cartOf customer.user customer.tenant }
  | passes {o t} (hcarts : t.carts = s.carts) (horders : t.orders = s.orders) : Moves customer s g o t g
  | creates {o t order} (hnone : g.order = none) (hopen : g.cleared = false)
      (hkey : Keyed.key order = s.orders.next) (hcarts : t.carts = s.carts)
      (horders : t.orders = s.orders.insert order hkey) :
      Moves customer s g o t { g with order := some order }
  | deletes {o t order} (horder : g.order = some order) (hopen : g.cleared = false)
      (hcarts : t.carts = s.carts) (horders : t.orders = s.orders.erase order.id) :
      Moves customer s g o t { g with order := none }
  | clears {t cart order c} (hcart : g.cart = some cart) (horder : g.order = some order)
      (hopen : g.cleared = false) (hlines : order.lines = cart.items)
      (hget : s.carts.get? cart.id = some c) (hversion : c.version = cart.version)
      (hcarts : t.carts = s.carts.update cart.id Cart.clear) (horders : t.orders = s.orders) :
      Moves customer s g (.inl (.cartClear cart.id cart.version)) t { g with cleared := true }
  | adds {o t item c} {f : Patch Cart} (hadded : g.added = none)
      (hcart : s.cartOf customer.user customer.tenant = some c)
      (howner : ∀ c, (f.run c).user = c.user ∧ (f.run c).tenant = c.tenant)
      (hunits : ∀ product,
        lineUnits (f.run c).items product = lineUnits c.items product + lineUnits [item] product)
      (hcarts : t.carts = s.carts.update c.id f) (horders : t.orders = s.orders) :
      Moves customer s g o t { g with added := some item }
  | opens {o t item c} (hadded : g.added = none)
      (hcart : s.cartOf customer.user customer.tenant = none)
      (hkey : Keyed.key c = s.carts.next) (huser : c.user = customer.user)
      (htenant : c.tenant = customer.tenant) (hitems : c.items = [item])
      (hcarts : t.carts = s.carts.insert c hkey) (horders : t.orders = s.orders) :
      Moves customer s g o t { g with added := some item }

section Moves

variable {customer : AuthedRequest} {s t : Db} {g g' : CartNote} {o : CartMongo.Op}

theorem execDb_moves {o : DbOp} (hmay : CartNote.mayDb customer o g) (s : Db) :
    Moves customer s g (.inl o) (mongo.exec o s).2 (CartNote.noteDb o (mongo.exec o s).1 g) := by
  cases o with
  | cartFindOne user tenant =>
    obtain ⟨rfl, rfl⟩ := hmay
    exact .reads rfl
  | orderCreate draft now =>
    obtain ⟨hnone, hopen, -⟩ := hmay
    exact .creates hnone hopen (draft.key_order _ now) rfl rfl
  | orderDelete id =>
    obtain ⟨hopen, order, horder, rfl⟩ := hmay
    exact .deletes horder hopen rfl rfl
  | cartClear id version =>
    obtain ⟨hopen, cart, order, hcart, rfl, rfl, horder, hlines⟩ := hmay
    simp only [mongo, Db.exec]
    split
    · next c hget =>
      split
      · next hversion => exact .clears hcart horder hopen hlines hget hversion rfl rfl
      · exact .passes rfl rfl
    · exact .passes rfl rfl
  | productReserve id tenant quantity =>
    simp only [mongo, Db.exec]
    split
    · split <;> exact .passes rfl rfl
    · exact .passes rfl rfl
  | couponClaim id usageLimit =>
    simp only [mongo, Db.exec]
    split
    · split <;> exact .passes rfl rfl
    · exact .passes rfl rfl
  | couponUnclaim id =>
    simp only [mongo, Db.exec]
    split
    · split <;> exact .passes rfl rfl
    · exact .passes rfl rfl
  | redemptionCreate redemption =>
    simp only [mongo, Db.exec]
    split <;> exact .passes rfl rfl
  | _ => first | exact .passes rfl rfl | exact hmay.elim

theorem execCart_moves {o : CartCall} (hmay : CartNote.mayCart customer o g) (s : Db) :
    Moves customer s g (.inr o) (o.exec s).2 (CartNote.noteCart o (o.exec s).1 g) := by
  cases o with
  | productFindOne id tenant => exact .passes rfl rfl
  | cartFindById id => exact .passes rfl rfl
  | cartIncrement user tenant product quantity =>
    obtain ⟨rfl, rfl, hadded⟩ := hmay
    simp only [CartCall.exec]
    split
    · next c hcart =>
      split
      · next hhas =>
        exact .adds hadded hcart (fun _ => ⟨rfl, rfl⟩) (lineUnits_addToLine quantity hhas) rfl rfl
      · exact .passes rfl rfl
    · exact .passes rfl rfl
  | cartPush user tenant product quantity =>
    obtain ⟨rfl, rfl, hadded⟩ := hmay
    simp only [CartCall.exec]
    split
    · next c hcart =>
      split
      · exact .passes rfl rfl
      · exact .adds hadded hcart (fun _ => ⟨rfl, rfl⟩) (lineUnits_append c.items _) rfl rfl
    · next hcart => exact .opens hadded hcart (key_newCart ..) rfl rfl rfl rfl rfl

/-- What a request can do by its next call. -/
theorem cartMongo_moves (hmay : (cartMemo customer).may o g) (s : Db) :
    Moves customer s g o (cartMongo.exec o s).2 ((cartMemo customer).note o (cartMongo.exec o s).1 g) := by
  cases o with
  | inl o => exact execDb_moves hmay s
  | inr o => exact execCart_moves hmay s

/-- The cart of the customer once the collection has been patched. -/
theorem cartOf_update {c : Cart} {f : Patch Cart}
    (howner : ∀ c, (f.run c).user = c.user ∧ (f.run c).tenant = c.tenant)
    (hcarts : t.carts = s.carts.update c.id f)
    (hcart : s.cartOf customer.user customer.tenant = some c) :
    t.cartOf customer.user customer.tenant = some (f.run c) := by
  have hfind := find?_update s.carts c.id (f := f)
    (p := fun x => x.user == customer.user && x.tenant == customer.tenant)
    fun x => by simp [howner x]
  rw [Db.cartOf] at hcart
  rw [Db.cartOf, hcarts, hfind, hcart]
  simp [Keyed.key]

/-- The cart of the customer once it has been inserted. -/
theorem cartOf_insert {c : Cart} (hkey : Keyed.key c = s.carts.next) (huser : c.user = customer.user)
    (htenant : c.tenant = customer.tenant) (hcarts : t.carts = s.carts.insert c hkey)
    (hcart : s.cartOf customer.user customer.tenant = none) :
    t.cartOf customer.user customer.tenant = some c := by
  rw [Db.cartOf] at hcart
  rw [Db.cartOf, hcarts, Collection.insert, List.find?_append, hcart]
  simp [huser, htenant]

/-- The note of a request is true of the database: its order is there, and the cart it has read is
still the customer's. -/
structure CartNote.Holds (customer : AuthedRequest) (s : Db) (g : CartNote) : Prop where
  order : ∀ order, g.order = some order → s.orders.get? order.id = some order
  cart : ∀ cart, g.cart = some cart →
    ∃ c, s.cartOf customer.user customer.tenant = some c ∧ c.id = cart.id

/-- The customer keeps the cart, by its key. -/
theorem Moves.cartOf (h : Moves customer s g o t g') {c : Cart}
    (hc : s.cartOf customer.user customer.tenant = some c) :
    ∃ c', t.cartOf customer.user customer.tenant = some c' ∧ c'.id = c.id := by
  have hsame : t.carts = s.carts → t.cartOf customer.user customer.tenant = some c := by
    intro hcarts
    rw [Db.cartOf, hcarts]
    exact hc
  cases h with
  | reads hsame => exact ⟨c, hsame ▸ hc, rfl⟩
  | passes hcarts => exact ⟨c, hsame hcarts, rfl⟩
  | creates _ _ _ hcarts => exact ⟨c, hsame hcarts, rfl⟩
  | deletes _ _ hcarts => exact ⟨c, hsame hcarts, rfl⟩
  | @clears _ cart order x _ _ _ _ hget _ hcarts _ =>
    have hfind := find?_update s.carts cart.id (f := Cart.clear)
      (p := fun x => x.user == customer.user && x.tenant == customer.tenant) fun _ => rfl
    refine ⟨_, (by rw [Db.cartOf, hcarts]; exact hfind.trans (congrArg _ hc)), ?_⟩
    dsimp only
    split <;> rfl
  | adds _ hcart howner _ hcarts _ =>
    obtain rfl := Option.some_inj.1 (hc.symm.trans hcart)
    exact ⟨_, cartOf_update howner hcarts hcart, Patch.key_run _ c⟩
  | opens _ hcart => simp [hcart] at hc

/-- What is noted of other requests stays true, whose orders are others. -/
theorem CartNote.Holds.other {x : CartNote} (hx : x.Holds customer s) (hmove : Moves customer s g o t g')
    (hne : ∀ order order', x.order = some order → g.order = some order' → order.id ≠ order'.id) :
    x.Holds customer t := by
  refine ⟨fun order horder => ?_, fun cart hcart => ?_⟩
  · have hget := hx.order order horder
    cases hmove with
    | reads hsame => rwa [hsame]
    | passes _ horders => rwa [horders]
    | creates _ _ hkey _ horders =>
      rw [horders, get?_insert, if_neg (get?_lt hget).ne]
      exact hget
    | deletes horder' _ _ horders =>
      rw [horders, get?_erase, if_neg (hne _ _ horder horder')]
      exact hget
    | clears _ _ _ _ _ _ _ horders => rwa [horders]
    | adds _ _ _ _ _ horders => rwa [horders]
    | opens _ _ _ _ _ _ _ horders => rwa [horders]
  · obtain ⟨c, hc, hid⟩ := hx.cart cart hcart
    obtain ⟨c', hc', hid'⟩ := hmove.cartOf hc
    exact ⟨c', hc', hid'.trans hid⟩

/-- What is noted of a call is true. -/
theorem CartNote.Holds.own (hg : g.Holds customer s) (hmove : Moves customer s g o t g') :
    g'.Holds customer t := by
  have hcart : ∀ cart, g.cart = some cart →
      ∃ c, t.cartOf customer.user customer.tenant = some c ∧ c.id = cart.id := by
    intro cart hcart
    obtain ⟨c, hc, hid⟩ := hg.cart cart hcart
    obtain ⟨c', hc', hid'⟩ := hmove.cartOf hc
    exact ⟨c', hc', hid'.trans hid⟩
  cases hmove with
  | reads hsame =>
    subst hsame
    exact ⟨hg.order, fun cart hcart => ⟨cart, hcart, rfl⟩⟩
  | passes _ horders => exact ⟨horders ▸ hg.order, hcart⟩
  | @creates _ _ order _ _ hkey _ horders =>
    refine ⟨fun x hx => ?_, hcart⟩
    obtain rfl := Option.some_inj.1 hx
    rw [horders, get?_insert]
    exact if_pos hkey
  | deletes =>
    refine ⟨fun x hx => ?_, hcart⟩
    cases hx
  | clears _ _ _ _ _ _ _ horders => exact ⟨horders ▸ hg.order, hcart⟩
  | adds _ _ _ _ _ horders => exact ⟨horders ▸ hg.order, hcart⟩
  | opens _ _ _ _ _ _ _ horders => exact ⟨horders ▸ hg.order, hcart⟩

/-! ## The balance -/

/-- The units that a note accounts for: of an order whose lines are still in the cart, and of a line
that was added. -/
def CartNote.debt (product : ObjectId) (g : CartNote) : ℤ :=
  (if g.cleared then 0 else match g.order with
    | some order => (lineUnits order.lines product : ℤ)
    | none => 0) +
  match g.added with
  | some item => (lineUnits [item] product : ℤ)
  | none => 0

theorem Db.inCart_some {c : Cart} (h : s.cartOf customer.user customer.tenant = some c)
    (product : ObjectId) : s.inCart customer product = lineUnits c.items product := by
  rw [Db.inCart, h]

/-- A call moves units between cart, orders and its note, as long as a cart that is cleared has the
lines that were read. -/
theorem Moves.balance (hmove : Moves customer s g o t g') (hg : g.Holds customer s)
    (hread : ∀ cart c, o = .inl (.cartClear cart.id cart.version) → g.cart = some cart →
      s.carts.get? cart.id = some c → c.version = cart.version → c.items = cart.items)
    (product : ObjectId) :
    (t.inCart customer product + t.ordered product : ℤ) - g'.debt product =
      s.inCart customer product + s.ordered product - g.debt product := by
  have hsame : ∀ {t : Db}, t.carts = s.carts → t.inCart customer product = s.inCart customer product := by
    intro t hcarts
    rw [Db.inCart, Db.inCart, Db.cartOf, Db.cartOf, hcarts]
  have hordered : ∀ {t : Db}, t.orders = s.orders → t.ordered product = s.ordered product := by
    intro t horders
    rw [Db.ordered, Db.ordered, horders]
  cases hmove with
  | reads hsame =>
    subst hsame
    rfl
  | passes hcarts horders => rw [hsame hcarts, hordered horders]
  | @creates _ _ order hnone hopen hkey hcarts horders =>
    have hsum : t.ordered product = s.ordered product + lineUnits order.lines product := by
      rw [Db.ordered, horders, sum_insert]
      rfl
    rw [hsame hcarts, hsum]
    simp [CartNote.debt, hnone, hopen]
    ring
  | @deletes _ _ order horder hopen hcarts horders =>
    have hsum : t.ordered product + lineUnits order.lines product = s.ordered product := by
      rw [Db.ordered, horders]
      exact sum_erase (hg.order order horder) _
    rw [hsame hcarts, ← hsum]
    simp [CartNote.debt, horder, hopen]
    ring
  | @clears _ cart order c hcart horder hopen hlines hget hversion hcarts horders =>
    obtain ⟨c', hc', hid⟩ := hg.cart cart hcart
    obtain rfl : c' = c := by
      have hmem : s.carts.get? cart.id = some c' :=
        get?_eq_some.2 ⟨List.mem_of_find?_eq_some hc', hid⟩
      exact Option.some_inj.1 (hmem.symm.trans hget)
    have hcleared := cartOf_update (t := t) (f := Cart.clear) (fun _ => ⟨rfl, rfl⟩)
      (by rw [hcarts, hid]) hc'
    rw [Db.inCart_some hcleared, Db.inCart_some hc', hordered horders,
      hread cart c' rfl hcart hget hversion, ← hlines]
    simp [CartNote.debt, horder, hopen, Cart.clear]
  | @adds _ _ item c f hadded hcart howner hunits hcarts horders =>
    rw [Db.inCart_some (cartOf_update howner hcarts hcart), Db.inCart_some hcart, hordered horders,
      hunits product]
    simp [CartNote.debt, hadded]
    ring
  | @opens _ _ item c hadded hcart hkey huser htenant hitems hcarts horders =>
    have hzero : s.inCart customer product = 0 := by rw [Db.inCart, hcart]
    rw [Db.inCart_some (cartOf_insert hkey huser htenant hcarts hcart), hzero, hordered horders, hitems]
    simp [CartNote.debt, hadded]
    ring

end Moves

/-! ## Runs -/

section Runs

variable {limits : Limits} {customer : AuthedRequest}

/-- The database allows the replies that it gives. -/
theorem exec_allows (o : CartMongo.Op) (s : Db) : (cartMemo customer).allows o (cartMongo.exec o s).1 := by
  rcases o with o | o
  · cases o with
    | productReserve id tenant quantity =>
      show CartNote.allowsDb _ (Db.exec (.productReserve id tenant quantity) s).1
      simp only [Db.exec]
      split
      · next hget =>
        split
        · exact get?_key hget
        · trivial
      · trivial
    | orderCreate draft now => exact rfl
    | orderDelete id => trivial
    | _ => exact trivial
  · cases o with
    | productFindOne id tenant =>
      show CartNote.allowsCart _ (CartCall.exec (.productFindOne id tenant) s).1
      simp only [CartCall.exec]
      cases hget : (s.products.get? id).filter _ with
      | none => trivial
      | some product => exact get?_key (Option.filter_eq_some_iff.1 hget).1
    | _ => exact trivial

/-- A call that fails is not noted. -/
theorem note_fault (o : CartMongo.Op) (e : ApiError) (g : CartNote) :
    (cartMemo customer).note o (.error e) g = g := by
  rcases o with o | o <;> cases o <;> rfl

/-- The note of a cart that was read at some point of the run by thread `i`. -/
def ReadAt (limits : Limits) (customer : AuthedRequest) (c : CartPool) (as : List (Action CartRequest))
    (d : CartPool) (i : Nat) (cart : Cart) : Prop :=
  ∃ before middle e, as = before ++ .act i :: middle ∧
    (cartServer limits customer).Run Tolerated c before e ∧
    e.head? i = some (.inl (.cartFindOne customer.user customer.tenant)) ∧
    e.state.cartOf customer.user customer.tenant = some cart ∧
    (cartServer limits customer).Run Tolerated e (.act i :: middle) d

/-- The books of a run: the notes of its requests, and the balance of cart and orders. -/
structure Books (limits : Limits) (customer : AuthedRequest) (c : CartPool)
    (as : List (Action CartRequest)) (d : CartPool) (gs : List CartNote) : Prop where
  minutes : (cartMemo customer).Minutes CartRequest.Ends d gs
  holds : ∀ (i : Nat) (g : CartNote), gs[i]? = some g → g.Holds customer d.state
  apart : ∀ (i j : Nat) (g g' : CartNote), i ≠ j → gs[i]? = some g → gs[j]? = some g' → ∀ order order',
    g.order = some order → g'.order = some order' → order.id ≠ order'.id
  balance : ∀ product, (d.state.inCart customer product + d.state.ordered product : ℤ) =
    c.state.inCart customer product + c.state.ordered product +
      (gs.map (CartNote.debt product)).sum
  read : ∀ (i : Nat) (g : CartNote) (cart : Cart), gs[i]? = some g → g.cart = some cart → ReadAt limits customer c as d i cart

variable {c d e : CartPool} {as : List (Action CartRequest)} {a : Action CartRequest}

theorem ReadAt.snoc {i : Nat} {cart : Cart} (h : ReadAt limits customer c as d i cart)
    (ha : Tolerated d a) (hs : (cartServer limits customer).step d a = some e) :
    ReadAt limits customer c (as ++ [a]) e i cart := by
  obtain ⟨before, middle, x, rfl, hbefore, hhead, hcart, hmiddle⟩ := h
  exact ⟨before, middle ++ [a], x, by simp, hbefore, hhead, hcart, hmiddle.snoc ha hs⟩

namespace Books

variable {gs : List CartNote}

/-- A request is started. -/
theorem start (h : Books limits customer c as d gs) (ha : Tolerated d a)
    (hs : (cartServer limits customer).step d a = some e)
    (hminutes : (cartMemo customer).Minutes CartRequest.Ends e (gs ++ [.blank]))
    (hstate : e.state = d.state) : Books limits customer c (as ++ [a]) e (gs ++ [.blank]) := by
  have hold : ∀ (i : Nat) (g : CartNote), (gs ++ [CartNote.blank])[i]? = some g →
      gs[i]? = some g ∨ g = .blank := by
    intro i g hg
    by_cases hlt : i < gs.length
    · exact .inl (by rwa [List.getElem?_append_left hlt] at hg)
    · rw [List.getElem?_append_right (Nat.not_lt.1 hlt)] at hg
      exact .inr (List.mem_singleton.1 (List.mem_of_getElem? hg))
  refine ⟨hminutes, fun i g hg => ?_, fun i j g g' hij hg hg' order order' ho ho' => ?_,
    fun product => ?_, fun i g cart hg hcart => ?_⟩
  · rw [hstate]
    obtain hg | rfl := hold i g hg
    · exact h.holds i g hg
    · exact ⟨fun _ ho => absurd ho (by simp [CartNote.blank]), fun _ ho => absurd ho (by simp [CartNote.blank])⟩
  · obtain hg | rfl := hold i g hg
    · obtain hg' | rfl := hold j g' hg'
      · exact h.apart i j g g' hij hg hg' order order' ho ho'
      · cases ho'
    · cases ho
  · rw [hstate, h.balance product]
    simp [CartNote.debt, CartNote.blank]
  · obtain hg | rfl := hold i g hg
    · exact (h.read i g cart hg hcart).snoc ha hs
    · cases hcart

/-- A call of a request fails. -/
theorem fault (h : Books limits customer c as d gs) (ha : Tolerated d a)
    (hs : (cartServer limits customer).step d a = some e)
    (hminutes : (cartMemo customer).Minutes CartRequest.Ends e gs) (hstate : e.state = d.state) :
    Books limits customer c (as ++ [a]) e gs where
  minutes := hminutes
  holds i g hg := hstate ▸ h.holds i g hg
  apart := h.apart
  balance product := hstate ▸ h.balance product
  read i g cart hg hcart := (h.read i g cart hg hcart).snoc ha hs

/-- A request makes its next call. -/
theorem call (h : Books limits customer c as d gs) {i : Nat}
    (hrun : (cartServer limits customer).Run Tolerated c as d)
    (hs : (cartServer limits customer).step d (.act i) = some e) {o : CartMongo.Op}
    {g g' : CartNote} (hi : gs[i]? = some g) (hhead : d.head? i = some o)
    (hminutes : (cartMemo customer).Minutes CartRequest.Ends e (gs.set i g'))
    (hmove : Moves customer d.state g o e.state g')
    (hclear : ∀ cart x, o = .inl (.cartClear cart.id cart.version) → g.cart = some cart →
      d.state.carts.get? cart.id = some x → x.version = cart.version → x.items = cart.items) :
    Books limits customer c (as ++ [.act i]) e (gs.set i g') := by
  obtain ⟨hlt, hgi⟩ := List.getElem?_eq_some_iff.1 hi
  have hset : ∀ (j : Nat) (x : CartNote), (gs.set i g')[j]? = some x →
      (j = i ∧ x = g') ∨ (j ≠ i ∧ gs[j]? = some x) := by
    intro j x hx
    by_cases hij : i = j
    · subst hij
      rw [List.getElem?_set_self hlt] at hx
      exact .inl ⟨rfl, (Option.some_inj.1 hx).symm⟩
    · rw [List.getElem?_set_ne hij] at hx
      exact .inr ⟨fun h => hij h.symm, hx⟩
  -- The order of the moving request is its own: an old one, or one with a new key.
  have hnew : ∀ (j : Nat) (x : CartNote), j ≠ i → gs[j]? = some x → ∀ order order',
      g'.order = some order → x.order = some order' → order.id ≠ order'.id := by
    intro j x hj hx order order' ho ho'
    have hold : g.order = some order → order.id ≠ order'.id := fun ho =>
      h.apart i j g x hj.symm hi hx order order' ho ho'
    cases hmove with
    | creates _ _ hkey =>
      obtain rfl := Option.some_inj.1 ho
      have hlt := get?_lt ((h.holds j x hx).order order' ho')
      exact fun hid => absurd (hid.symm.trans hkey) hlt.ne
    | deletes => cases ho
    | reads => exact hold ho
    | passes => exact hold ho
    | clears => exact hold ho
    | adds => exact hold ho
    | opens => exact hold ho
  refine ⟨hminutes, fun j x hx => ?_, fun j k x y hjk hx hy order order' ho ho' => ?_,
    fun product => ?_, fun j x cart hx hcart => ?_⟩
  · obtain ⟨rfl, rfl⟩ | ⟨hj, hx⟩ := hset j x hx
    · exact (h.holds j g hi).own hmove
    · exact (h.holds j x hx).other hmove (h.apart j i x g hj hx hi)
  · obtain ⟨rfl, rfl⟩ | ⟨hj, hx'⟩ := hset j x hx
    · obtain ⟨rfl, -⟩ | ⟨hk, hy'⟩ := hset k y hy
      · exact absurd rfl hjk
      · exact hnew k y hk hy' order order' ho ho'
    · obtain ⟨rfl, rfl⟩ | ⟨hk, hy'⟩ := hset k y hy
      · exact (hnew j x hj hx' order' order ho' ho).symm
      · exact h.apart j k x y hjk hx' hy' order order' ho ho'
  · have hbalance := hmove.balance (h.holds i g hi) hclear product
    have hsum : ((gs.set i g').map (CartNote.debt product)).sum =
        (gs.map (CartNote.debt product)).sum + (g'.debt product - g.debt product) := by
      rw [List.map_set, List.sum_set', dif_pos (by simpa using hlt), List.getElem_map, hgi]
      ring
    have hbefore := h.balance product
    rw [hsum]
    linarith
  · obtain ⟨rfl, rfl⟩ | ⟨hj, hx⟩ := hset j x hx
    · have hold : g.cart = some cart → ReadAt limits customer c (as ++ [.act j]) e j cart := fun hcart =>
        (h.read j g cart hi hcart).snoc trivial hs
      cases hmove with
      | reads => exact ⟨as, [], d, rfl, hrun, hhead, hcart, .cons trivial hs (.nil e)⟩
      | creates => exact hold hcart
      | deletes => exact hold hcart
      | passes => exact hold hcart
      | clears => exact hold hcart
      | adds => exact hold hcart
      | opens => exact hold hcart
    · exact (h.read j x cart hx hcart).snoc trivial hs

end Books

/-- Books can be kept along every run that clears what it has read. -/
theorem books (hstart : c.threads = []) (hrun : (cartServer limits customer).Run Tolerated c as d)
    (hread : ClearsWhatItRead limits customer c as) : ∃ gs, Books limits customer c as d gs := by
  refine hrun.induct (P := fun as d => ClearsWhatItRead limits customer c as →
    ∃ gs, Books limits customer c as d gs) (fun _ => ?_) ?_ hread
  · refine ⟨[], ?_, by simp, by simp, by simp, by simp⟩
    rw [Memo.Minutes, hstart]
    exact .nil
  · intro as d a e hrun ha hs ih hread
    obtain ⟨gs, hbooks⟩ := ih fun before middle after i c₁ c₂ cart has =>
      hread before middle (after ++ [a]) i c₁ c₂ cart (by simp [has])
    have hact : ∀ o, (cartMemo customer).allows o ((cartServer limits customer).machine.exec o d.state).1 :=
      fun o => exec_allows o d.state
    obtain ⟨gs', hminutes, ⟨-, -, rfl, hstate⟩ | ⟨i, o, g, hhead, hi, hmay, hmove⟩⟩ :=
      hbooks.minutes.step (fun l _ => code_tracks limits l) hs hact
        (by
          rintro i o rfl hhead
          rcases o with o | o
          · cases o with
            | orderDelete id => exact ha id hhead
            | _ => trivial
          · cases o <;> trivial)
        (by
          rintro i rfl
          exact ha.elim)
    · exact ⟨_, hbooks.start ha hs hminutes hstate⟩
    · obtain ⟨rfl, hstate, rfl⟩ | ⟨hstate, rfl⟩ | ⟨hstate, rfl⟩ := hmove
      · refine ⟨_, hbooks.call hrun hs hi hhead hminutes ?_ ?_⟩
        · rw [hstate]
          exact cartMongo_moves hmay d.state
        · rintro cart x rfl hcart hget hversion
          obtain ⟨before, middle, c₁, rfl, hbefore, hfind, hfound, hmiddle⟩ :=
            hbooks.read i g cart hi hcart
          have hid : x.id = cart.id := get?_key hget
          have hsame := hread before middle [] i c₁ d x (by simp) hbefore hfind hmiddle
            (by rw [hid, hversion]; exact hhead) (by rw [hid]; exact hget)
          rw [hfound] at hsame
          exact (Option.some_inj.1 hsame).symm
      · have hself : gs.set i ((cartMemo customer).note o (.error cartMongo.fault) g) = gs := by
          obtain ⟨hlt, rfl⟩ := List.getElem?_eq_some_iff.1 hi
          rw [note_fault]
          exact List.set_getElem_self hlt
        exact ⟨gs, hbooks.fault ha hs (hself ▸ hminutes) hstate⟩
      · exact ⟨_, hbooks.fault ha hs hminutes hstate⟩

/-! ## No unit is lost -/

/-- A note whose request has ended accounts for the units that the request has reported, and maybe
for some that it was refused after they were written. -/
theorem debt_ended {t : CartThread} {g : CartNote}
    (h : (cartMemo customer).Tracks (CartRequest.Ends t.label) t.prog g)
    (hend : t.prog.head?.isNone) (product : ObjectId) :
    ∃ n ≤ refusedBy product t, g.debt product = reportedBy product t + n := by
  obtain ⟨l, p⟩ := t
  cases p with
  | call o k => cases hend
  | done r =>
    simp only [refusedBy, reportedBy, Prog.result?]
    cases l with
    | checkout value now =>
      refine ⟨0, Nat.zero_le _, ?_⟩
      obtain e | (result | cart) := r
      · rw [show g = _ from h]
        rfl
      · rw [show g = _ from h]
        rfl
      · exact h.elim
    | addItem added quantity =>
      obtain e | response := r
      · obtain h | h := h
        · exact ⟨0, Nat.zero_le _, by rw [h]; rfl⟩
        · exact ⟨lineUnits [⟨added, quantity⟩] product, le_rfl, by rw [h]; rfl⟩
      · refine ⟨0, Nat.zero_le _, ?_⟩
        rw [show g = _ from h]
        simp [CartNote.debt, CartRequest.adds]

theorem debts_ended {ts : List CartThread} {gs : List CartNote}
    (h : List.Forall₂ (fun t g => (cartMemo customer).Tracks (CartRequest.Ends t.label) t.prog g) ts gs)
    (hend : ∀ t ∈ ts, t.prog.head?.isNone) (product : ObjectId) :
    ∃ n ≤ (ts.map (refusedBy product)).sum,
      (gs.map (CartNote.debt product)).sum = (ts.map (reportedBy product)).sum + (n : ℤ) := by
  induction h with
  | nil => exact ⟨0, le_rfl, rfl⟩
  | @cons t g ts gs hhead _ ih =>
    obtain ⟨ht, hrest⟩ := List.forall_mem_cons.1 hend
    obtain ⟨m, hm, hdebt⟩ := debt_ended hhead ht product
    obtain ⟨n, hn, hdebts⟩ := ih hrest
    refine ⟨m + n, by simpa using Nat.add_le_add hm hn, ?_⟩
    rw [List.map_cons, List.sum_cons, hdebt, hdebts, List.map_cons, List.sum_cons]
    push_cast
    ring

/-- When all requests have ended, and every checkout that cleared the cart found there what it had
read, the cart and the orders hold what they held at the start and what has been added since. The
units `n` were written by requests that failed afterwards, on reading the cart again. -/
theorem units_kept (hstart : c.threads = [])
    (hrun : (cartServer limits customer).Run Tolerated c as d)
    (hread : ClearsWhatItRead limits customer c as) (hend : d.Quiescent) (product : ObjectId) :
    ∃ n ≤ (d.threads.map (refusedBy product)).sum,
      d.state.inCart customer product + d.state.ordered product =
        c.state.inCart customer product + c.state.ordered product +
          (d.threads.map (reportedBy product)).sum + n := by
  obtain ⟨gs, hbooks⟩ := books hstart hrun hread
  obtain ⟨n, hn, hdebts⟩ := debts_ended hbooks.minutes hend product
  refine ⟨n, hn, ?_⟩
  have hbalance := hbooks.balance product
  rw [hdebts] at hbalance
  omega

end Runs

/-- Another mug is added to the sample cart, and then all three are checked out. -/
def addedBefore : List (Action CartRequest) :=
  [.spawn (.addItem 0 1), .act 0, .act 0, .act 0, .act 0,
    .spawn (.checkout ⟨⟨"a", none, "c", "s", "p", "x"⟩, "manual", none⟩ 0),
    .act 1, .act 1, .act 1, .act 1, .act 1, .act 1]

theorem units_kept_addedBefore :
    ∃ d : CartPool, (cartServer ⟨15, 30⟩ sampleUser).Run Tolerated ⟨sampleDb, []⟩ addedBefore d ∧
      d.threads.map (reportedBy 0) = [1, 0] ∧
      ∃ n ≤ (d.threads.map (refusedBy 0)).sum, d.state.inCart sampleUser 0 + d.state.ordered 0 =
        sampleDb.inCart sampleUser 0 + sampleDb.ordered 0 + (d.threads.map (reportedBy 0)).sum + n := by
  obtain ⟨d, hd, h⟩ := (Option.any_eq_true _ _).1 (by decide +kernel :
    ((cartServer ⟨15, 30⟩ sampleUser).play
        (fun _ a => a.unfailing) ⟨sampleDb, []⟩
        addedBefore).any fun d =>
      decide d.Quiescent && decide (d.threads.map (reportedBy 0) = [1, 0]))
  simp only [Bool.and_eq_true, decide_eq_true_eq] at h
  have hrun : (cartServer ⟨15, 30⟩ sampleUser).Run Tolerated ⟨sampleDb, []⟩ addedBefore d :=
    (System.Run.of_play hd).mono fun _ a ha => by cases a <;> trivial
  have hread : ClearsWhatItRead ⟨15, 30⟩ sampleUser ⟨sampleDb, []⟩ addedBefore :=
    .of_clearsAlong (by decide +kernel)
  exact ⟨d, hrun, h.2, units_kept rfl hrun hread h.1 0⟩

/-- The two mugs of the sample cart are checked out. Another one is added after the cart has been
read, and the checkout goes on. -/
def addedMeanwhile : List (Action CartRequest) :=
  [.spawn (.checkout ⟨⟨"a", none, "c", "s", "p", "x"⟩, "manual", none⟩ 0), .act 0,
    .spawn (.addItem 0 1), .act 1, .act 1, .act 1, .act 1,
    .act 0, .act 0, .act 0, .act 0, .act 0]

/-- Both requests succeed. The third mug is in neither the cart nor an order. -/
theorem units_kept_counterexample :
    ∃ d : CartPool, (cartServer ⟨15, 30⟩ sampleUser).Run Tolerated ⟨sampleDb, []⟩ addedMeanwhile d ∧
      d.Quiescent ∧ d.threads.map (reportedBy 0) = [0, 1] ∧ d.threads.map (refusedBy 0) = [0, 0] ∧
      sampleDb.inCart sampleUser 0 = 2 ∧ sampleDb.ordered 0 = 0 ∧
      d.state.inCart sampleUser 0 = 0 ∧ d.state.ordered 0 = 2 := by
  obtain ⟨d, hd, h⟩ := (Option.any_eq_true _ _).1 (by decide +kernel :
    ((cartServer ⟨15, 30⟩ sampleUser).play
        (fun _ a => a.unfailing) ⟨sampleDb, []⟩
        addedMeanwhile).any fun d =>
      decide d.Quiescent && decide (d.threads.map (reportedBy 0) = [0, 1] ∧
        d.threads.map (refusedBy 0) = [0, 0] ∧ sampleDb.inCart sampleUser 0 = 2 ∧
        sampleDb.ordered 0 = 0 ∧ d.state.inCart sampleUser 0 = 0 ∧ d.state.ordered 0 = 2))
  simp only [Bool.and_eq_true, decide_eq_true_eq] at h
  refine ⟨d, (System.Run.of_play hd).mono fun _ a ha => ?_, h.1, h.2⟩
  cases a <;> trivial

end Ecommerce
