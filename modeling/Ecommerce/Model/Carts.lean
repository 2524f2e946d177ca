import Ecommerce.Effect.Memo
import Ecommerce.Model.Server

/-!
# Carts

`repositories/CartRepository.ts` and `services/CartService.ts`, as far as adding an item goes, next
to the checkouts of the same customer on a standalone server. An added line is written by an atomic
update that leaves Mongoose's version key alone. The checkout lock is left out: it only removes
interleavings of checkouts.
-/

namespace Ecommerce

open Effect

/-- The calls of `addItem` that checkout does not make. -/
inductive CartCall where
  /-- `Product.findOne({ _id, tenant, isActive: true, deletedAt: null })` -/
  | productFindOne (id : ObjectId) (tenant : String)
  /-- `Cart.findOneAndUpdate({ user, tenant, "items.product": product },
  { $inc: { "items.$.quantity": quantity } })` -/
  | cartIncrement (user : ObjectId) (tenant : String) (product : ObjectId) (quantity : ℕ+)
  /-- `Cart.findOneAndUpdate({ user, tenant, "items.product": { $ne: product } },
  { $push: { items: { product, quantity } } }, { upsert: true })` -/
  | cartPush (user : ObjectId) (tenant : String) (product : ObjectId) (quantity : ℕ+)
  /-- `Cart.findById(id)` -/
  | cartFindById (id : ObjectId)
  deriving DecidableEq

/-- What each call replies. -/
def CartCall.Reply : CartCall → Type
  | productFindOne _ _ => Option Product
  | cartIncrement _ _ _ _ => Option Cart
  | cartPush _ _ _ _ => Option Cart
  | cartFindById _ => Option Cart

def CartCalls : Signature := ⟨CartCall, CartCall.Reply⟩

/-- The calls of checkouts and of `addItem`. -/
abbrev CartMongo : Signature := Mongo.sum CartCalls

/-! ## Lines -/

/-- `$inc` at the first line of the product. -/
def addToLine (product : ObjectId) (quantity : ℕ+) : List CartItem → List CartItem
  | [] => []
  | item :: rest =>
    if item.product = product then { item with quantity := item.quantity + quantity } :: rest
    else item :: addToLine product quantity rest

namespace Cart

def has (c : Cart) (product : ObjectId) : Bool := c.items.any (·.product == product)

def increment (product : ObjectId) (quantity : ℕ+) : Patch Cart :=
  ⟨fun c => { c with items := addToLine product quantity c.items }, fun _ => rfl⟩

def push (product : ObjectId) (quantity : ℕ+) : Patch Cart :=
  ⟨fun c => { c with items := c.items ++ [⟨product, quantity⟩] }, fun _ => rfl⟩

end Cart

/-! ## Effects -/

/-- The cart of a user; by the unique index there is one at most. -/
def Db.cartOf (db : Db) (user : ObjectId) (tenant : String) : Option Cart :=
  db.carts.docs.find? fun c => c.user == user && c.tenant == tenant

/-- The document that an upsert inserts. -/
def newCart (id user : ObjectId) (tenant : String) (product : ObjectId) (quantity : ℕ+) : Cart :=
  ⟨id, user, tenant, [⟨product, quantity⟩], 0⟩

theorem key_newCart (id user : ObjectId) (tenant : String) (product : ObjectId) (quantity : ℕ+) :
    Keyed.key (newCart id user tenant product quantity) = id := rfl

/-- The effect and the reply of each call. -/
def CartCall.exec : (o : CartCall) → Db → Except ApiError o.Reply × Db
  | .productFindOne id tenant, db =>
    (.ok ((db.products.get? id).filter fun p => p.tenant == tenant && p.isActive && p.deletedAt.isNone),
      db)
  | .cartIncrement user tenant product quantity, db =>
    match db.cartOf user tenant with
    | some c =>
      if c.has product then
        (.ok (some ((Cart.increment product quantity).run c)),
          { db with carts := db.carts.update c.id (Cart.increment product quantity) })
      else (.ok none, db)
    | none => (.ok none, db)
  | .cartPush user tenant product quantity, db =>
    match db.cartOf user tenant with
    | some c =>
      -- The filter does not match, so the upsert inserts a second cart, which the index rejects.
      if c.has product then (.error .duplicateKey, db)
      else
        (.ok (some ((Cart.push product quantity).run c)),
          { db with carts := db.carts.update c.id (Cart.push product quantity) })
    | none =>
      (.ok (some (newCart db.carts.next user tenant product quantity)),
        { db with carts :=
          db.carts.insert (newCart db.carts.next user tenant product quantity) (key_newCart ..) })
  | .cartFindById id, db => (.ok (db.carts.get? id), db)

/-- The database with both kinds of calls. -/
def cartMongo : Machine CartMongo ApiError Db := mongo.sum ⟨CartCall.exec, .database⟩

/-! ## Adding an item -/

abbrev CartM := Prog CartMongo ApiError

/-- A call of checkout's. -/
def dbCall (o : DbOp) : CartM o.Reply := Prog.perform (S := CartMongo) (.inl o)

/-- A call of `addItem`'s own. -/
def cartCall (o : CartCall) : CartM o.Reply := Prog.perform (S := CartMongo) (.inr o)

namespace CartRepository

variable (user : ObjectId) (tenant : String) (productId : ObjectId) (quantity : ℕ+)

/-- A concurrent first insert of the cart surfaces as a duplicate-key error and is retried. -/
def retryDuplicate (err : ApiError) : CartM (Option Cart) :=
  if err = .duplicateKey then return none else throw err

/-- Increments an existing line, otherwise pushes a new one; with the attempts that are left. -/
def addQuantity : Nat → CartM Cart
  | 0 => throw (.app 500 "Could not add the item to the cart after concurrent updates")
  | attempts + 1 => do
    match (← cartCall (.cartIncrement user tenant productId quantity) : Option Cart) with
    | some incremented => return incremented
    | none =>
      let pushed : Option Cart ←
        (cartCall (.cartPush user tenant productId quantity)).catching retryDuplicate
      match pushed with
      | some cart => return cart
      | none => addQuantity attempts

end CartRepository

/-- The quantity of the product that is in the cart already. -/
def existingQuantity (cart : Option Cart) (product : ObjectId) : Nat :=
  match cart.bind fun c => c.items.find? (·.product == product) with
  | some item => item.quantity
  | none => 0

/-- `CartService.addItem`. The checks of stock and quantity are advisory. -/
def addItem (req : AuthedRequest) (productId : ObjectId) (quantity : ℕ+) : CartM (Option Cart) := do
  match (← cartCall (.productFindOne productId req.tenant) : Option Product) with
  | none => throw (CustomeErrorHandler.notFound "Product not found")
  | some product => do
    let currentCart : Option Cart ← dbCall (.cartFindOne req.user req.tenant)
    let requestedQuantity := existingQuantity currentCart product.id + quantity
    if product.stock < requestedQuantity then throw (CustomeErrorHandler.badRequest "Insufficient stock")
    else if 999 < requestedQuantity then
      throw (CustomeErrorHandler.badRequest "Quantity per item cannot exceed 999")
    else do
      let cart ← CartRepository.addQuantity req.user req.tenant product.id quantity 3
      cartCall (.cartFindById cart.id)

/-! ## One customer -/

/-- What the customer may ask for. -/
inductive CartRequest where
  | checkout (value : CheckoutInput) (now : Time)
  | addItem (productId : ObjectId) (quantity : ℕ+)
  deriving DecidableEq

inductive CartResponse where
  | checkout (result : CheckoutResult)
  | cart (cart : Option Cart)
  deriving DecidableEq

/-- The handlers on a standalone server. -/
def CartRequest.code (limits : Limits) (customer : AuthedRequest) : CartRequest → CartM CartResponse
  | .checkout value now =>
    CartResponse.checkout <$> (executeCheckout limits customer value now false).inl
  | .addItem productId quantity => CartResponse.cart <$> Ecommerce.addItem customer productId quantity

/-- The requests of one customer as a system of interleaved handlers. -/
def cartServer (limits : Limits) (customer : AuthedRequest) :
    System CartMongo ApiError CartResponse Db CartRequest where
  machine := cartMongo
  code := CartRequest.code limits customer

/-- The requests of one customer at work. -/
abbrev CartPool := Pool CartMongo ApiError CartResponse Db CartRequest

end Ecommerce
