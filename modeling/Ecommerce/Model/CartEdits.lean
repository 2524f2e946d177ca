import Ecommerce.Model.Carts

/-!
# Editing a cart

The rest of `repositories/CartRepository.ts`: changing the quantity of a line, removing a line and
emptying the cart, each an atomic update, and `CartService.updateItem`. They run next to the adding
of items and to checkouts, in a transaction or without one.
-/

namespace Ecommerce

open Effect

/-! ## Calls -/

/-- The calls of cart requests that `addItem` does not make. -/
inductive CartEdit where
  /-- `Cart.findOneAndUpdate({ user, tenant, "items.product": product },
  { $set: { "items.$.quantity": quantity } })` -/
  | cartSet (user : ObjectId) (tenant : String) (product : ObjectId) (quantity : ℕ+)
  /-- `Cart.findOneAndUpdate({ user, tenant }, { $pull: { items: { product } } })` -/
  | cartPull (user : ObjectId) (tenant : String) (product : ObjectId)
  /-- `Cart.findOneAndUpdate({ user, tenant }, { $set: { items: [] } }, { upsert: true })` -/
  | cartEmpty (user : ObjectId) (tenant : String)
  deriving DecidableEq

/-- What each call replies. -/
def CartEdit.Reply : CartEdit → Type
  | cartSet _ _ _ _ => Option Cart
  | cartPull _ _ _ => Option Cart
  | cartEmpty _ _ => Cart

def CartEdits : Signature := ⟨CartEdit, CartEdit.Reply⟩

/-- The calls of checkouts and of all cart requests. -/
abbrev EditMongo : Signature := CartMongo.sum CartEdits

/-- `$set` of the quantity at the first line of the product. -/
def setLine (product : ObjectId) (quantity : ℕ+) : List CartItem → List CartItem
  | [] => []
  | item :: rest =>
    if item.product = product then { item with quantity := quantity } :: rest
    else item :: setLine product quantity rest

namespace Cart

def setQuantity (product : ObjectId) (quantity : ℕ+) : Patch Cart :=
  ⟨fun c => { c with items := setLine product quantity c.items }, fun _ => rfl⟩

def pull (product : ObjectId) : Patch Cart :=
  ⟨fun c => { c with items := c.items.filter (·.product != product) }, fun _ => rfl⟩

def empty : Patch Cart := ⟨fun c => { c with items := [] }, fun _ => rfl⟩

end Cart

/-- The document that an upsert without lines inserts. -/
def emptyCart (id user : ObjectId) (tenant : String) : Cart := ⟨id, user, tenant, [], 0⟩

theorem key_emptyCart (id user : ObjectId) (tenant : String) :
    Keyed.key (emptyCart id user tenant) = id := rfl

/-- The effect and the reply of each call. -/
def CartEdit.exec : (o : CartEdit) → Db → Except ApiError o.Reply × Db
  | .cartSet user tenant product quantity, db =>
    match db.cartOf user tenant with
    | some c =>
      if c.has product then
        (.ok (some ((Cart.setQuantity product quantity).run c)),
          { db with carts := db.carts.update c.id (Cart.setQuantity product quantity) })
      else (.ok none, db)
    | none => (.ok none, db)
  | .cartPull user tenant product, db =>
    match db.cartOf user tenant with
    | some c =>
      (.ok (some ((Cart.pull product).run c)),
        { db with carts := db.carts.update c.id (Cart.pull product) })
    | none => (.ok none, db)
  | .cartEmpty user tenant, db =>
    match db.cartOf user tenant with
    | some c => (.ok (Cart.empty.run c), { db with carts := db.carts.update c.id Cart.empty })
    | none =>
      (.ok (emptyCart db.carts.next user tenant),
        { db with carts :=
          db.carts.insert (emptyCart db.carts.next user tenant) (key_emptyCart ..) })

/-- The database with all the calls. -/
def editMongo : Machine EditMongo ApiError Db := cartMongo.sum ⟨CartEdit.exec, .database⟩

abbrev EditM := Prog EditMongo ApiError

/-- A call that only editing makes. -/
def editCall (o : CartEdit) : EditM o.Reply := Prog.perform (S := EditMongo) (.inr o)

/-! ## The repository -/

namespace CartRepository

variable (user : ObjectId) (tenant : String)

def updateExistingItem (productId : ObjectId) (quantity : ℕ+) : EditM (Option Cart) :=
  editCall (.cartSet user tenant productId quantity)

def removeItem (productId : ObjectId) : EditM (Option Cart) :=
  editCall (.cartPull user tenant productId)

def clear : EditM Cart := editCall (.cartEmpty user tenant)

end CartRepository

/-- An operation of the repository, or a checkout. -/
inductive CartWork where
  | addQuantity (user : ObjectId) (tenant : String) (productId : ObjectId) (quantity : ℕ+)
  | updateExistingItem (user : ObjectId) (tenant : String) (productId : ObjectId) (quantity : ℕ+)
  | removeItem (user : ObjectId) (tenant : String) (productId : ObjectId)
  | clear (user : ObjectId) (tenant : String)
  | checkout (req : AuthedRequest) (value : CheckoutInput) (now : Time)
  deriving DecidableEq

/-- What it returns. -/
inductive CartOutcome where
  | cart (cart : Option Cart)
  | checkout (result : CheckoutResult)
  deriving DecidableEq

/-- Each operation, a checkout in a transaction where the deployment has them. -/
def CartWork.code (deployment : Deployment) (limits : Limits) :
    CartWork → Prog (EditMongo.tx ApiError) ApiError CartOutcome
  | .addQuantity user tenant productId quantity =>
    ((CartOutcome.cart ∘ some) <$> CartRepository.addQuantity user tenant productId quantity 3).inl.embed
  | .updateExistingItem user tenant productId quantity =>
    (CartOutcome.cart <$> CartRepository.updateExistingItem user tenant productId quantity).embed
  | .removeItem user tenant productId =>
    (CartOutcome.cart <$> CartRepository.removeItem user tenant productId).embed
  | .clear user tenant => ((CartOutcome.cart ∘ some) <$> CartRepository.clear user tenant).embed
  | .checkout req value now =>
    CartOutcome.checkout <$> (Ecommerce.checkout deployment limits req value now).inlTx.inlTx

/-- The operations on carts as a system of interleaved programs. -/
def cartStore (deployment : Deployment) (limits : Limits) :
    System (EditMongo.tx ApiError) ApiError CartOutcome Db CartWork where
  machine := editMongo.transactional
  code := CartWork.code deployment limits

/-- The operations on carts at work. -/
abbrev StorePool := Pool (EditMongo.tx ApiError) ApiError CartOutcome Db CartWork

/-! ## The service -/

/-- What `cartItemSchema` admits. -/
structure CartItemBody where
  productId : ObjectId
  quantity : ℕ+
  le_max : quantity ≤ 999
  deriving DecidableEq

/-- `CartService.updateItem`. -/
def updateItem (req : AuthedRequest) (productId : ObjectId) (quantity : ℕ+) : EditM (Option Cart) := do
  match (← (cartCall (.productFindOne productId req.tenant)).inl : Option Product) with
  | none => throw (CustomeErrorHandler.notFound "Product not found")
  | some product =>
    if product.stock < quantity then throw (CustomeErrorHandler.badRequest "Insufficient stock")
    else do
      match (← CartRepository.updateExistingItem req.user req.tenant product.id quantity) with
      | none => throw (CustomeErrorHandler.notFound "Cart item not found")
      | some cart => (cartCall (.cartFindById cart.id)).inl

/-- A request that changes the quantity of an item. -/
inductive QuantityRequest where
  | addItem (body : CartItemBody)
  | updateItem (body : CartItemBody)
  deriving DecidableEq

def QuantityRequest.code (customer : AuthedRequest) : QuantityRequest → EditM (Option Cart)
  | .addItem body => (Ecommerce.addItem customer body.productId body.quantity).inl
  | .updateItem body => Ecommerce.updateItem customer body.productId body.quantity

/-- The requests of one customer as a system of interleaved handlers. -/
def quantityServer (customer : AuthedRequest) :
    System EditMongo ApiError (Option Cart) Db QuantityRequest where
  machine := editMongo
  code := QuantityRequest.code customer

abbrev QuantityPool := Pool EditMongo ApiError (Option Cart) Db QuantityRequest

end Ecommerce
