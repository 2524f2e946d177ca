import Ecommerce.Carts.Limits

/-!
# One cart, one line

The unique index allows one cart for each user and tenant. A product gets a second line neither by
an increment, which changes a line that is there, nor by a push, whose filter asks for a cart without
one. An operation on carts that returns has been applied once.
-/

namespace Ecommerce

open Effect Effect.Collection

/-- There is at most one cart for a user and tenant, and in a cart one line at most for a product. -/
structure Db.CartsUnique (db : Db) : Prop where
  cart : ∀ a ∈ db.carts.docs, ∀ b ∈ db.carts.docs, a.user = b.user → a.tenant = b.tenant → a = b
  line : ∀ cart ∈ db.carts.docs, (cart.items.map CartItem.product).Nodup

/-! ## What a call writes -/

theorem map_product_addToLine (product : ObjectId) (quantity : ℕ+) (items : List CartItem) :
    (addToLine product quantity items).map CartItem.product = items.map CartItem.product := by
  induction items with
  | nil => rfl
  | cons item rest ih =>
    rw [addToLine]
    split
    · rfl
    · rw [List.map_cons, List.map_cons, ih]

theorem map_product_setLine (product : ObjectId) (quantity : ℕ+) (items : List CartItem) :
    (setLine product quantity items).map CartItem.product = items.map CartItem.product := by
  induction items with
  | nil => rfl
  | cons item rest ih =>
    rw [setLine]
    split
    · rfl
    · rw [List.map_cons, List.map_cons, ih]

theorem nodup_push {product : ObjectId} {quantity : ℕ+} {c : Cart} (hhas : ¬ c.has product)
    (h : (c.items.map CartItem.product).Nodup) :
    (((Cart.push product quantity).run c).items.map CartItem.product).Nodup := by
  have hnew : product ∉ c.items.map CartItem.product := by
    intro hmem
    obtain ⟨item, hitem, rfl⟩ := List.mem_map.1 hmem
    exact hhas (List.any_eq_true.2 ⟨item, hitem, by simp⟩)
  rw [Cart.push, List.map_append, List.nodup_append_comm]
  exact List.nodup_cons.2 ⟨hnew, h⟩

/-- What a call does to the carts. -/
inductive CartWrite (s t : Db) : Prop where
  | same (hcarts : t.carts = s.carts)
  | patch (id : ObjectId) (f : Patch Cart) (hcarts : t.carts = s.carts.update id f)
      (howner : ∀ c, (f.run c).user = c.user ∧ (f.run c).tenant = c.tenant)
      (hlines : ∀ c, s.carts.get? id = some c → (c.items.map CartItem.product).Nodup →
        ((f.run c).items.map CartItem.product).Nodup)
  | insert (c : Cart) (hkey : Keyed.key c = s.carts.next) (hcarts : t.carts = s.carts.insert c hkey)
      (hnone : s.cartOf c.user c.tenant = none) (hlines : (c.items.map CartItem.product).Nodup)

/-- Such a write keeps carts and lines unique. -/
theorem CartWrite.unique {s t : Db} (h : CartWrite s t) (hs : s.CartsUnique) : t.CartsUnique := by
  cases h with
  | same hcarts => exact ⟨hcarts ▸ hs.cart, hcarts ▸ hs.line⟩
  | patch id f hcarts howner hlines =>
    have hmem : ∀ b ∈ t.carts.docs, ∃ a ∈ s.carts.docs, b = if Keyed.key a == id then f.run a else a := by
      intro b hb
      rw [hcarts, update, mem_modify] at hb
      obtain ⟨a, ha, rfl⟩ := hb
      exact ⟨a, ha, rfl⟩
    have hsame : ∀ a : Cart, (if Keyed.key a == id then f.run a else a).user = a.user ∧
        (if Keyed.key a == id then f.run a else a).tenant = a.tenant := by
      intro a
      split
      · exact howner a
      · exact ⟨rfl, rfl⟩
    refine ⟨fun x hx y hy huser htenant => ?_, fun x hx => ?_⟩
    · obtain ⟨a, ha, rfl⟩ := hmem x hx
      obtain ⟨b, hb, rfl⟩ := hmem y hy
      rw [(hsame a).1, (hsame b).1] at huser
      rw [(hsame a).2, (hsame b).2] at htenant
      rw [hs.cart a ha b hb huser htenant]
    · obtain ⟨a, ha, rfl⟩ := hmem x hx
      split
      · next hkey => exact hlines a (get?_eq_some.2 ⟨ha, by simpa using hkey⟩) (hs.line a ha)
      · exact hs.line a ha
  | insert c hkey hcarts hnone hlines =>
    have hother : ∀ a ∈ s.carts.docs, a.user = c.user → a.tenant ≠ c.tenant := by
      intro a ha huser htenant
      have hno := List.find?_eq_none.1 hnone a ha
      simp [huser, htenant] at hno
    refine ⟨fun x hx y hy huser htenant => ?_, fun x hx => ?_⟩
    · rw [hcarts] at hx hy
      obtain hx | hx := mem_insert.1 hx <;> obtain hy | hy := mem_insert.1 hy
      · exact hs.cart x hx y hy huser htenant
      · exact absurd (hy ▸ htenant) (hother x hx (hy ▸ huser))
      · exact absurd (hx ▸ htenant).symm (hother y hy (hx ▸ huser).symm)
      · rw [hx, hy]
    · rw [hcarts] at hx
      obtain hx | rfl := mem_insert.1 hx
      · exact hs.line x hx
      · exact hlines

/-- Checkouts write a cart only to clear it. -/
theorem execDb_cartWrite (o : DbOp) (s : Db) : CartWrite s (mongo.exec o s).2 := by
  cases o with
  | cartClear id version =>
    simp only [mongo, Db.exec]
    split
    · split
      · exact .patch id Cart.clear rfl (fun _ => ⟨rfl, rfl⟩) fun _ _ _ => List.nodup_nil
      · exact .same rfl
    · exact .same rfl
  | _ =>
    refine .same ?_
    simp only [mongo, Db.exec] <;> (repeat' split) <;> rfl

theorem execCart_cartWrite (o : CartCall) (s : Db) : CartWrite s (o.exec s).2 := by
  cases o with
  | productFindOne id tenant => exact .same rfl
  | cartFindById id => exact .same rfl
  | cartIncrement user tenant product quantity =>
    simp only [CartCall.exec]
    split
    · split
      · refine .patch _ _ rfl (fun _ => ⟨rfl, rfl⟩) fun c _ hc => ?_
        exact (map_product_addToLine product quantity c.items).symm ▸ hc
      · exact .same rfl
    · exact .same rfl
  | cartPush user tenant product quantity =>
    simp only [CartCall.exec]
    split
    · next c hcart =>
      split
      · exact .same rfl
      · next hhas =>
        refine .patch _ _ rfl (fun _ => ⟨rfl, rfl⟩) fun c' hc' hlines => ?_
        obtain rfl := Option.some_inj.1 ((Db.get?_cartOf hcart).symm.trans hc')
        exact nodup_push hhas hlines
    · next hnone => exact .insert _ (key_newCart ..) rfl hnone (List.nodup_singleton _)

theorem execEdit_cartWrite (o : CartEdit) (s : Db) : CartWrite s (o.exec s).2 := by
  cases o with
  | cartSet user tenant product quantity =>
    simp only [CartEdit.exec]
    split
    · split
      · refine .patch _ _ rfl (fun _ => ⟨rfl, rfl⟩) fun c _ hc => ?_
        exact (map_product_setLine product quantity c.items).symm ▸ hc
      · exact .same rfl
    · exact .same rfl
  | cartPull user tenant product =>
    simp only [CartEdit.exec]
    split
    · exact .patch _ _ rfl (fun _ => ⟨rfl, rfl⟩) fun c _ hc =>
        hc.sublist (List.filter_sublist.map CartItem.product)
    · exact .same rfl
  | cartEmpty user tenant =>
    simp only [CartEdit.exec]
    split
    · exact .patch _ _ rfl (fun _ => ⟨rfl, rfl⟩) fun _ _ _ => List.nodup_nil
    · next hnone => exact .insert _ (key_emptyCart ..) rfl hnone List.nodup_nil

/-- Every call keeps carts and lines unique, and so does a transaction. -/
theorem exec_cartsUnique (o : EditMongo.Op) (s : Db) (h : s.CartsUnique) :
    (editMongo.exec o s).2.CartsUnique := by
  rcases o with (o | o) | o
  · exact (execDb_cartWrite o s).unique h
  · exact (execCart_cartWrite o s).unique h
  · exact (execEdit_cartWrite o s).unique h

/-! ## What has been added -/

/-- An operation that adds. -/
def CartWork.isAdd : CartWork → Bool
  | .addQuantity .. => true
  | _ => false

/-- What an operation adds to the line of a product. -/
def CartWork.adds (user : ObjectId) (tenant : String) (product : ObjectId) : CartWork → ℕ
  | .addQuantity user' tenant' product' quantity =>
    if user' = user ∧ tenant' = tenant ∧ product' = product then quantity else 0
  | _ => 0

/-- An operation on carts, at the point it has reached. -/
abbrev StoreThread := Thread (EditMongo.tx ApiError) ApiError CartOutcome CartWork

/-- What an operation that has returned has added to the line of a product. -/
def addedBy (user : ObjectId) (tenant : String) (product : ObjectId) (t : StoreThread) : ℕ :=
  match t.prog.result? with
  | some (.ok _) => t.label.adds user tenant product
  | _ => 0

/-- The note of an operation: which it is, and whether it has added its quantity. -/
structure AddNote where
  work : CartWork
  added : Bool

namespace AddNote

/-- What the note accounts for. -/
def amount (user : ObjectId) (tenant : String) (product : ObjectId) (g : AddNote) : ℕ :=
  if g.added then g.work.adds user tenant product else 0

/-- An adding operation tries to add its own quantity, until it has. -/
def may : (EditMongo.tx ApiError).Op → AddNote → Prop
  | .op (.inl (.inr (.cartIncrement user tenant product quantity))), g
  | .op (.inl (.inr (.cartPush user tenant product quantity))), g =>
    g = ⟨.addQuantity user tenant product quantity, false⟩
  | _, g => g.work.isAdd = false

def note : (o : (EditMongo.tx ApiError).Op) → Except ApiError ((EditMongo.tx ApiError).Reply o) →
    AddNote → AddNote
  | .op (.inl (.inr (.cartIncrement ..))), .ok (some _), g
  | .op (.inl (.inr (.cartPush ..))), .ok (some _), g => { g with added := true }
  | _, _, g => g

theorem note_error (o : (EditMongo.tx ApiError).Op) (e : ApiError) (g : AddNote) :
    note o (.error e) g = g := by
  rcases o with ((o | o) | o) | w
  · rfl
  · cases o <;> rfl
  · rfl
  · rfl

@[simp] theorem note_work (o : (EditMongo.tx ApiError).Op)
    (r : Except ApiError ((EditMongo.tx ApiError).Reply o)) (g : AddNote) : (note o r g).work = g.work := by
  unfold note
  split <;> rfl

/-- Before a call an adding operation has not added. -/
theorem pending {o : (EditMongo.tx ApiError).Op} {g : AddNote} (h : may o g) (hadd : g.work.isAdd) :
    g.added = false := by
  unfold may at h
  split at h
  · exact h ▸ rfl
  · exact h ▸ rfl
  · simp [hadd] at h

end AddNote

/-- The memo of an operation on carts. -/
def addMemo : Memo (EditMongo.tx ApiError) ApiError AddNote where
  note := AddNote.note
  may := AddNote.may
  allows _ _ := True

/-- An operation that adds has done so exactly if it returns. -/
def CartWork.Ends (work : CartWork) (r : Except ApiError CartOutcome) (g : AddNote) : Prop :=
  g.work = work ∧ (work.isAdd → g.added = r.isOk)

theorem tracks_work {work : CartWork} {p : Prog (EditMongo.tx ApiError) ApiError CartOutcome}
    {g : AddNote} (h : addMemo.Tracks work.Ends p g) : g.work = work := by
  induction p generalizing g with
  | done r => exact h.1
  | call o k ih => exact (AddNote.note_work o _ g).symm.trans (ih (.error .database) (h.2 _ trivial))

/-- An operation that is cut off before a call has not added. -/
theorem ends_cut {work : CartWork} {o : (EditMongo.tx ApiError).Op}
    {k : Except ApiError ((EditMongo.tx ApiError).Reply o) →
      Prog (EditMongo.tx ApiError) ApiError CartOutcome}
    {g : AddNote} {e : ApiError} (h : addMemo.Tracks work.Ends (.call o k) g) : work.Ends (.error e) g := by
  have hwork := tracks_work h
  exact ⟨hwork, fun hadd => AddNote.pending h.1 (hwork ▸ hadd)⟩

/-- Calls that add nothing. -/
def AddsNothing : (EditMongo.tx ApiError).Op → Prop
  | .op (.inl (.inr _)) => False
  | _ => True

theorem addQuantity_adds (user : ObjectId) (tenant : String) (product : ObjectId) (quantity : ℕ+)
    (attempts : Nat) :
    addMemo.Tracks (CartWork.Ends (.addQuantity user tenant product quantity))
      (((CartOutcome.cart ∘ some) <$>
        CartRepository.addQuantity user tenant product quantity attempts).inl.embed)
      ⟨.addQuantity user tenant product quantity, false⟩ := by
  induction attempts with
  | zero => exact ⟨rfl, fun _ => rfl⟩
  | succ attempts ih =>
    refine ⟨rfl, fun r _ => ?_⟩
    obtain e | (_ | incremented) := r
    · exact ⟨rfl, fun _ => rfl⟩
    · refine ⟨rfl, fun r _ => ?_⟩
      obtain e | (_ | cart) := r
      · by_cases he : e = .duplicateKey
        · subst he
          exact ih
        · simp only [CartRepository.retryDuplicate, Prog.catching, if_neg he]
          exact ⟨rfl, fun _ => rfl⟩
      · exact ih
      · exact ⟨rfl, fun _ => rfl⟩
    · exact ⟨rfl, fun _ => rfl⟩

/-- Programs of calls that add nothing, of operations that do not add. -/
theorem tracks_addsNothing {work : CartWork} (hwork : work.isAdd = false)
    {p : Prog (EditMongo.tx ApiError) ApiError CartOutcome} (h : p.Issues AddsNothing) :
    addMemo.Tracks work.Ends p ⟨work, false⟩ := by
  refine Memo.tracks_still (h.mono fun o ho => ?_) fun r => ⟨rfl, fun h => by simp [hwork] at h⟩
  rcases o with ((o | o) | o) | w
  · exact ⟨hwork, fun r => rfl⟩
  · exact ho.elim
  · exact ⟨hwork, fun r => rfl⟩
  · exact ⟨hwork, fun r => rfl⟩

theorem CartWork.tracks (deployment : Deployment) (limits : Limits) (work : CartWork) :
    addMemo.Tracks work.Ends (work.code deployment limits) ⟨work, false⟩ := by
  cases work with
  | addQuantity user tenant productId quantity => exact addQuantity_adds user tenant productId quantity 3
  | updateExistingItem user tenant productId quantity =>
    exact tracks_addsNothing rfl ⟨trivial, fun r => by cases r <;> trivial⟩
  | removeItem user tenant productId =>
    exact tracks_addsNothing rfl ⟨trivial, fun r => by cases r <;> trivial⟩
  | clear user tenant => exact tracks_addsNothing rfl ⟨trivial, fun r => by cases r <;> trivial⟩
  | checkout req value now =>
    refine tracks_addsNothing rfl (Prog.Issues.map ?_)
    generalize Ecommerce.checkout deployment limits req value now = p
    induction p with
    | done r => trivial
    | call o k ih => cases o <;> exact ⟨trivial, ih⟩

/-! ## The quantity of a line -/

section Quantity

variable {s t : Db} {owner : ObjectId} {home : String} {c : Cart}

/-- Patching the cart of one customer leaves those of the others. -/
theorem quantityOf_patch {f : Patch Cart} (hcart : s.cartOf owner home = some c)
    (howner : ∀ c, (f.run c).user = c.user ∧ (f.run c).tenant = c.tenant)
    (hcarts : t.carts = s.carts.update c.id f) (user : ObjectId) (tenant : String) (product : ObjectId) :
    t.quantityOf user tenant product =
      if user = owner ∧ tenant = home then existingQuantity (some (f.run c)) product
      else s.quantityOf user tenant product := by
  have hfind : t.cartOf user tenant =
      (s.cartOf user tenant).map fun a => if Keyed.key a == c.id then f.run a else a := by
    rw [Db.cartOf, Db.cartOf, hcarts]
    exact find?_update s.carts c.id fun x => by simp [howner x]
  split
  · next hown =>
    obtain ⟨rfl, rfl⟩ := hown
    rw [Db.quantityOf, hfind, hcart]
    simp [Keyed.key]
  · next hother =>
    rw [Db.quantityOf, hfind, Db.quantityOf]
    cases ha : s.cartOf user tenant with
    | none => rfl
    | some a =>
      have hid : Keyed.key a ≠ c.id := by
        intro hid
        have hget := Db.get?_cartOf hcart
        obtain rfl := Option.some_inj.1 ((Db.get?_cartOf ha).symm.trans ((show a.id = c.id from hid) ▸ hget))
        have hc := List.find?_some hcart
        have ha := List.find?_some ha
        simp only [Bool.and_eq_true, beq_iff_eq] at hc ha
        exact hother ⟨ha.1.symm.trans hc.1, ha.2.symm.trans hc.2⟩
      simp [hid]

/-- A new cart leaves the others. -/
theorem quantityOf_insert (hnone : s.cartOf c.user c.tenant = none) (hkey : Keyed.key c = s.carts.next)
    (hcarts : t.carts = s.carts.insert c hkey) (user : ObjectId) (tenant : String) (product : ObjectId) :
    t.quantityOf user tenant product =
      if user = c.user ∧ tenant = c.tenant then existingQuantity (some c) product
      else s.quantityOf user tenant product := by
  have hfind : t.cartOf user tenant = (s.cartOf user tenant).or
      (if user = c.user ∧ tenant = c.tenant then some c else none) := by
    rw [Db.cartOf, Db.cartOf, hcarts, Collection.insert, List.find?_append]
    congr 1
    by_cases hown : user = c.user ∧ tenant = c.tenant
    · rw [if_pos hown, List.find?_singleton, if_pos]
      rw [hown.1, hown.2, beq_self_eq_true, beq_self_eq_true, Bool.and_self]
    · rw [if_neg hown, List.find?_singleton, if_neg]
      rw [Bool.and_eq_true, beq_iff_eq, beq_iff_eq]
      exact fun h => hown ⟨h.1.symm, h.2.symm⟩
  rw [Db.quantityOf, hfind]
  split
  · next hown =>
    obtain ⟨rfl, rfl⟩ := hown
    rw [hnone]
    rfl
  · rw [Option.or_none, Db.quantityOf]

theorem existingQuantity_cons (c : Cart) (item : CartItem) (rest : List CartItem) (product : ObjectId) :
    existingQuantity (some { c with items := item :: rest }) product =
      if item.product = product then (item.quantity : ℕ)
      else existingQuantity (some { c with items := rest }) product := by
  by_cases h : item.product = product <;> simp [existingQuantity, h]

theorem existingQuantity_increment {added : ObjectId} (quantity : ℕ+) (hhas : c.has added)
    (product : ObjectId) : existingQuantity (some ((Cart.increment added quantity).run c)) product =
      existingQuantity (some c) product + if added = product then (quantity : ℕ) else 0 := by
  obtain ⟨id, user, tenant, items, version⟩ := c
  show existingQuantity (some ⟨id, user, tenant, addToLine added quantity items, version⟩) product = _
  induction items with
  | nil => simp [Cart.has] at hhas
  | cons item rest ih =>
    rw [addToLine]
    split
    · next hitem =>
      rw [existingQuantity_cons ⟨id, user, tenant, [], version⟩,
        existingQuantity_cons ⟨id, user, tenant, [], version⟩, hitem]
      split
      · rfl
      · rfl
    · next hitem =>
      rw [existingQuantity_cons ⟨id, user, tenant, [], version⟩,
        existingQuantity_cons ⟨id, user, tenant, [], version⟩, ih (by simpa [Cart.has, hitem] using hhas)]
      split
      · next hproduct => rw [if_neg fun h => hitem (hproduct.trans h.symm), Nat.add_zero]
      · rfl

theorem existingQuantity_push {added : ObjectId} (quantity : ℕ+) (hhas : ¬ c.has added)
    (product : ObjectId) : existingQuantity (some ((Cart.push added quantity).run c)) product =
      existingQuantity (some c) product + if added = product then (quantity : ℕ) else 0 := by
  have hnone : c.items.find? (·.product == added) = none := by
    rw [List.find?_eq_none]
    intro item hitem hadded
    exact hhas (List.any_eq_true.2 ⟨item, hitem, hadded⟩)
  simp only [existingQuantity, Cart.push, Option.bind_some, List.find?_append]
  by_cases hadded : added = product
  · subst hadded
    simp [hnone]
  · rw [List.find?_singleton, if_neg (by simpa using hadded), Option.or_none, if_neg hadded, Nat.add_zero]

/-- Adding to the cart of a customer. -/
theorem quantityOf_adds {f : Patch Cart} {added : ObjectId} {quantity : ℕ+}
    (hcart : s.cartOf owner home = some c)
    (howner : ∀ c, (f.run c).user = c.user ∧ (f.run c).tenant = c.tenant)
    (hcarts : t.carts = s.carts.update c.id f)
    (hadds : ∀ product, existingQuantity (some (f.run c)) product =
      existingQuantity (some c) product + if added = product then (quantity : ℕ) else 0)
    (user : ObjectId) (tenant : String) (product : ObjectId) :
    t.quantityOf user tenant product = s.quantityOf user tenant product +
      (CartWork.addQuantity owner home added quantity).adds user tenant product := by
  rw [quantityOf_patch hcart howner hcarts]
  split
  · next hown =>
    obtain ⟨rfl, rfl⟩ := hown
    rw [hadds, Db.quantityOf_some hcart]
    simp [CartWork.adds]
  · next hother =>
    have hnot : ¬(owner = user ∧ home = tenant ∧ added = product) := fun h => hother ⟨h.1.symm, h.2.1.symm⟩
    rw [CartWork.adds, if_neg hnot, Nat.add_zero]

theorem quantityOf_opens {added : ObjectId} {quantity : ℕ+} (hnone : s.cartOf owner home = none)
    (hcarts : t.carts = s.carts.insert (newCart s.carts.next owner home added quantity) (key_newCart ..))
    (user : ObjectId) (tenant : String) (product : ObjectId) :
    t.quantityOf user tenant product = s.quantityOf user tenant product +
      (CartWork.addQuantity owner home added quantity).adds user tenant product := by
  rw [quantityOf_insert hnone _ hcarts]
  split
  · next hown =>
    have hzero : s.quantityOf user tenant product = 0 := by
      rw [Db.quantityOf, show s.cartOf user tenant = none by rw [hown.1, hown.2]; exact hnone]
      rfl
    rw [hzero, hown.1, hown.2]
    by_cases hadded : added = product <;> simp [existingQuantity, newCart, CartWork.adds, hadded]
  · next hother =>
    have hnot : ¬(owner = user ∧ home = tenant ∧ added = product) := fun h => hother ⟨h.1.symm, h.2.1.symm⟩
    rw [CartWork.adds, if_neg hnot, Nat.add_zero]

/-- A call of an adding operation changes a line by what the operation notes as added. -/
theorem exec_adds {o : (EditMongo.tx ApiError).Op} {g : AddNote} (hadd : g.work.isAdd)
    (hmay : AddNote.may o g) (s : Db) (user : ObjectId) (tenant : String) (product : ObjectId) :
    (editMongo.transactional.exec o s).2.quantityOf user tenant product + g.amount user tenant product =
      s.quantityOf user tenant product +
        (AddNote.note o (editMongo.transactional.exec o s).1 g).amount user tenant product := by
  have hnot : g.work.isAdd ≠ false := by simp [hadd]
  rcases o with ((o | o) | o) | w
  · exact absurd hmay hnot
  · cases o with
    | productFindOne id tenant => exact absurd hmay hnot
    | cartFindById id => exact absurd hmay hnot
    | cartIncrement owner home added quantity =>
      obtain rfl : g = ⟨.addQuantity owner home added quantity, false⟩ := hmay
      simp only [editMongo, cartMongo, Machine.sum, Machine.transactional, CartCall.exec]
      split
      · next c hcart =>
        split
        · next hhas =>
          simpa [AddNote.note, AddNote.amount] using quantityOf_adds hcart (fun _ => ⟨rfl, rfl⟩) rfl
            (existingQuantity_increment quantity hhas) user tenant product
        · rfl
      · rfl
    | cartPush owner home added quantity =>
      obtain rfl : g = ⟨.addQuantity owner home added quantity, false⟩ := hmay
      simp only [editMongo, cartMongo, Machine.sum, Machine.transactional, CartCall.exec]
      split
      · next c hcart =>
        split
        · rfl
        · next hhas =>
          simpa [AddNote.note, AddNote.amount] using quantityOf_adds hcart (fun _ => ⟨rfl, rfl⟩) rfl
            (existingQuantity_push quantity hhas) user tenant product
      · next hnone =>
        simpa [AddNote.note, AddNote.amount] using quantityOf_opens hnone rfl user tenant product
  · exact absurd hmay hnot
  · exact absurd hmay hnot

end Quantity

section Runs

variable {deployment : Deployment} {limits : Limits} {c d : StorePool} {as : List (Action CartWork)}
variable {admits : StorePool → Action CartWork → Prop}

theorem cartsUnique (hcarts : c.state.CartsUnique)
    (hrun : (cartStore deployment limits).Run admits c as d) : d.state.CartsUnique := by
  refine hrun.invariant (P := fun c => c.state.CartsUnique) (fun c a d _ hs hc => ?_) hcarts
  obtain ⟨l, rfl, rfl⟩ | ⟨i, l, o, k, ht, ⟨-, rfl⟩ | ⟨-, rfl⟩ | ⟨-, rfl⟩⟩ := System.step_cases _ hs
  · exact hc
  · exact Machine.transactional_keeps (φ := fun _ => True) (fun o _ => exec_cartsUnique o) o
      (by cases o with
        | op o => trivial
        | txn work => exact Prog.issues_of_forall (fun _ => trivial) work) _ hc
  · exact hc
  · exact hc


/-! ## Sums -/

/-- The notes of adding operations, and what they have added to the lines so far. -/
structure Tallied (c : StorePool) (d : StorePool) (gs : List AddNote) : Prop where
  minutes : addMemo.Minutes CartWork.Ends d gs
  adds : ∀ g ∈ gs, g.work.isAdd
  total : ∀ user tenant product, (d.state.quantityOf user tenant product : ℤ) =
    c.state.quantityOf user tenant product + (gs.map fun g => (g.amount user tenant product : ℤ)).sum

/-- A call goes into its note and into the line. -/
theorem Tallied.call {e : StorePool} {gs : List AddNote} {i : Nat} {o : (EditMongo.tx ApiError).Op}
    {g : AddNote} (h : Tallied c d gs) (hi : gs[i]? = some g) (hmay : AddNote.may o g)
    (hstate : e.state = (editMongo.transactional.exec o d.state).2)
    (hminutes : addMemo.Minutes CartWork.Ends e
      (gs.set i (AddNote.note o (editMongo.transactional.exec o d.state).1 g))) :
    Tallied c e (gs.set i (AddNote.note o (editMongo.transactional.exec o d.state).1 g)) := by
  have hadd := h.adds g (List.mem_of_getElem? hi)
  obtain ⟨hlt, rfl⟩ := List.getElem?_eq_some_iff.1 hi
  refine ⟨hminutes, fun x hx => ?_, fun user tenant product => ?_⟩
  · rcases List.mem_or_eq_of_mem_set hx with hx | rfl
    · exact h.adds x hx
    · rw [AddNote.note_work]
      exact hadd
  · have hcall := exec_adds hadd hmay d.state user tenant product
    rw [hstate, List.map_set, List.sum_set', dif_pos (by simpa using hlt), List.getElem_map]
    have htotal := h.total user tenant product
    omega

theorem tallied (hstart : c.threads = []) (hrun : (cartStore deployment limits).Run admits c as d)
    (hadds : ∀ t ∈ d.threads, t.label.isAdd) : ∃ gs, Tallied c d gs := by
  refine hrun.induct (P := fun _ d => (∀ t ∈ d.threads, t.label.isAdd) → ∃ gs, Tallied c d gs)
    (fun _ => ⟨[], by rw [Memo.Minutes, hstart]; exact .nil, by simp, by simp⟩) ?_ hadds
  intro as d a e _ _ hs ih hadds
  have hbefore : ∀ t ∈ d.threads, t.label.isAdd := by
    rintro ⟨l, p⟩ ht
    obtain ⟨i, hi⟩ := List.mem_iff_getElem?.1 ht
    obtain ⟨p', hp', -⟩ := System.step_stays hs hi
    exact hadds ⟨l, p'⟩ (List.mem_of_getElem? hp')
  obtain ⟨gs, h⟩ := ih hbefore
  obtain ⟨gs', hminutes, ⟨l, rfl, rfl, hstate⟩ | ⟨i, o, g, -, hi, hmay, hmove⟩⟩ :=
    h.minutes.step (fun work _ => CartWork.tracks deployment limits work) hs (fun _ => trivial) (fun _ _ _ _ => trivial)
      (fun _ _ l o k g => ends_cut)
  · refine ⟨_, hminutes, fun g hg => ?_, fun user tenant product => ?_⟩
    · rcases List.mem_append.1 hg with hg | hg
      · exact h.adds g hg
      · obtain rfl := List.mem_singleton.1 hg
        obtain rfl := Option.some_inj.1 hs
        exact hadds ⟨l, _⟩ (List.mem_append_right _ (List.mem_singleton_self _))
    · rw [hstate, h.total user tenant product]
      simp [AddNote.amount]
  · obtain ⟨-, hstate, rfl⟩ | ⟨hstate, rfl⟩ | ⟨hstate, rfl⟩ := hmove
    · exact ⟨_, h.call hi hmay hstate hminutes⟩
    · have hself : gs.set i (addMemo.note o (.error (cartStore deployment limits).machine.fault) g) = gs := by
        obtain ⟨hlt, rfl⟩ := List.getElem?_eq_some_iff.1 hi
        rw [show addMemo.note o (.error _) gs[i] = gs[i] from AddNote.note_error o _ _]
        exact List.set_getElem_self hlt
      exact ⟨gs, hself ▸ hminutes, h.adds, hstate ▸ h.total⟩
    · exact ⟨_, hminutes, h.adds, hstate ▸ h.total⟩

/-- An operation has added what its note accounts for. -/
theorem amount_addedBy {t : StoreThread} {g : AddNote} (h : addMemo.Tracks (CartWork.Ends t.label) t.prog g)
    (hadd : g.work.isAdd) (user : ObjectId) (tenant : String) (product : ObjectId) :
    g.amount user tenant product = addedBy user tenant product t := by
  obtain ⟨l, p⟩ := t
  obtain rfl : g.work = l := tracks_work h
  cases p with
  | call o k =>
    have hpending := AddNote.pending h.1 hadd
    simp [AddNote.amount, addedBy, Prog.result?, hpending]
  | done r =>
    have hdone : g.added = r.isOk := h.2 hadd
    cases r <;> simp [AddNote.amount, addedBy, Prog.result?, hdone, Except.isOk, Except.toBool]

theorem Tallied.sum {gs : List AddNote} (h : Tallied c d gs) (user : ObjectId) (tenant : String)
    (product : ObjectId) : d.state.quantityOf user tenant product =
      c.state.quantityOf user tenant product + (d.threads.map (addedBy user tenant product)).sum := by
  have hamounts : ∀ {ts : List StoreThread} {gs : List AddNote},
      List.Forall₂ (fun t g => addMemo.Tracks (CartWork.Ends t.label) t.prog g) ts gs →
      (∀ g ∈ gs, g.work.isAdd) →
        (gs.map fun g => (g.amount user tenant product : ℤ)).sum =
          (ts.map (addedBy user tenant product)).sum := by
    intro ts gs hall hadds
    induction hall with
    | nil => rfl
    | cons hhead _ ih =>
      obtain ⟨hadd, hrest⟩ := List.forall_mem_cons.1 hadds
      rw [List.map_cons, List.sum_cons, ih hrest, amount_addedBy hhead hadd]
      simp
  have htotal := h.total user tenant product
  rw [hamounts h.minutes h.adds] at htotal
  exact_mod_cast htotal

/-- The line of a product is the one that is found. -/
theorem Db.CartsUnique.quantityOf_line {s : Db} (h : s.CartsUnique) {cart : Cart}
    (hcart : cart ∈ s.carts.docs) {item : CartItem} (hitem : item ∈ cart.items) :
    s.quantityOf cart.user cart.tenant item.product = item.quantity := by
  have hfound : s.cartOf cart.user cart.tenant = some cart := by
    cases hfind : s.cartOf cart.user cart.tenant with
    | none => simpa using List.find?_eq_none.1 hfind cart hcart
    | some c =>
      have hc := List.find?_some hfind
      simp only [Bool.and_eq_true, beq_iff_eq] at hc
      rw [h.cart c (List.mem_of_find?_eq_some hfind) cart hcart hc.1 hc.2]
  have hline : ∀ {items : List CartItem}, (items.map CartItem.product).Nodup → item ∈ items →
      items.find? (·.product == item.product) = some item := by
    intro items hnodup hmem
    induction items with
    | nil => cases hmem
    | cons first rest ih =>
      obtain ⟨hfirst, hrest⟩ := List.nodup_cons.1 hnodup
      rcases List.mem_cons.1 hmem with rfl | hmem
      · simp
      · have hne : first.product ≠ item.product := fun heq => hfirst (heq ▸ List.mem_map_of_mem hmem)
        simp [hne, ih hrest hmem]
  rw [Db.quantityOf_some hfound, existingQuantity, Option.bind_some, hline (h.line cart hcart) hitem]

/-- Whatever operations run on the carts, a customer has one cart at most, with one line at most for
a product. If they only add, the line has the quantities of all that have returned. -/
theorem cart_lines (hstart : c.threads = []) (hcarts : c.state.CartsUnique)
    (hrun : (cartStore deployment limits).Run (fun _ _ => True) c as d) :
    d.state.CartsUnique ∧
      (∀ cart ∈ d.state.carts.docs, ∀ item ∈ cart.items,
        (item.quantity : ℕ) = d.state.quantityOf cart.user cart.tenant item.product) ∧
      ((∀ t ∈ d.threads, t.label.isAdd) → ∀ user tenant product,
        d.state.quantityOf user tenant product = c.state.quantityOf user tenant product +
          (d.threads.map (addedBy user tenant product)).sum) := by
  have hunique := cartsUnique hcarts hrun
  refine ⟨hunique, fun cart hcart item hitem => (hunique.quantityOf_line hcart hitem).symm,
    fun hadds user tenant product => ?_⟩
  obtain ⟨gs, h⟩ := tallied hstart hrun hadds
  exact h.sum user tenant product

end Runs

theorem stockedDb_cartsUnique : stockedDb.CartsUnique :=
  ⟨fun _ h => absurd h List.not_mem_nil, fun _ h => absurd h List.not_mem_nil⟩

/-- Two operations add to a cart that does not exist yet. Both find no line, the second push is
rejected for the line of the first, and its operation goes on with an increment. -/
def addedTogether : List (Action CartWork) :=
  [.spawn (.addQuantity 1 "t" 0 2), .spawn (.addQuantity 1 "t" 0 3),
    .act 0, .act 1, .act 0, .act 1, .act 1]

theorem cart_lines_addedTogether :
    ∃ d : StorePool, d.threads.map (addedBy 1 "t" 0) = [2, 3] ∧ d.state.CartsUnique ∧
      (∀ cart ∈ d.state.carts.docs, ∀ item ∈ cart.items,
        (item.quantity : ℕ) = d.state.quantityOf cart.user cart.tenant item.product) ∧
      ((∀ t ∈ d.threads, t.label.isAdd) → ∀ user tenant product,
        d.state.quantityOf user tenant product = stockedDb.quantityOf user tenant product +
          (d.threads.map (addedBy user tenant product)).sum) := by
  obtain ⟨d, hd, h⟩ := (Option.any_eq_true _ _).1 (by decide +kernel :
    ((cartStore .standalone ⟨15, 30⟩).play (fun _ _ => true) ⟨stockedDb, []⟩ addedTogether).any fun d =>
      decide (d.threads.map (addedBy 1 "t" 0) = [2, 3]))
  exact ⟨d, of_decide_eq_true h, cart_lines rfl stockedDb_cartsUnique
    ((System.Run.of_play hd).mono fun _ _ _ => trivial)⟩

end Ecommerce
