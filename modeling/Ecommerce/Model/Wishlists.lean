import Ecommerce.Model.Reviews

/-!
# Wishlists

`controllers/wishlistController.ts`. A user has one document of a tenant, which lists products by their
ids, and every reply shows the products themselves.
-/

namespace Ecommerce

open Effect

/-! ## Documents -/

structure Wishlist where
  id : ObjectId
  user : ObjectId
  tenant : String
  products : List ObjectId
  deriving DecidableEq, Repr

instance : Keyed Wishlist := ⟨Wishlist.id⟩

/-- A product with its picture. -/
structure PicturedProduct extends RatedProduct where
  image : String
  deriving DecidableEq, Repr

instance : Keyed PicturedProduct := ⟨fun p => p.id⟩

/-- A product with the fields of `PRODUCT_FIELDS`. -/
structure WishlistProduct where
  id : ObjectId
  name : String
  price : ℚ
  image : String
  stock : ℤ
  ratingAverage : ℚ
  ratingCount : ℕ
  deriving DecidableEq, Repr

def PicturedProduct.wished (p : PicturedProduct) : WishlistProduct :=
  ⟨p.id, p.name, p.price, p.image, p.stock, p.ratingAverage, p.ratingCount⟩

structure WishlistDb where
  products : Collection PicturedProduct
  wishlists : Collection Wishlist

/-- `$addToSet` -/
def Wishlist.add (product : ObjectId) : Patch Wishlist :=
  ⟨fun w => { w with products := if product ∈ w.products then w.products else w.products ++ [product] },
    fun _ => rfl⟩

/-- `$pull` -/
def Wishlist.pull (product : ObjectId) : Patch Wishlist :=
  ⟨fun w => { w with products := w.products.filter (· ≠ product) }, fun _ => rfl⟩

/-- The document that an upsert inserts. -/
def newWishlist (id user : ObjectId) (tenant : String) (product : ObjectId) : Wishlist := ⟨id, user, tenant, [product]⟩

theorem key_newWishlist (id user : ObjectId) (tenant : String) (product : ObjectId) :
    Keyed.key (newWishlist id user tenant product) = id := rfl

/-! ## Calls -/

inductive WishlistCall where
  /-- `Product.exists({ _id, tenant, isActive: true, deletedAt: null })` -/
  | productExists (id : ObjectId) (tenant : String)
  /-- `Wishlist.findOne({ user, tenant })` -/
  | wishlistFindOne (user : ObjectId) (tenant : String)
  /-- `Wishlist.findOneAndUpdate({ user, tenant }, { $addToSet }, { upsert: true, new: true })` -/
  | wishlistAdd (user : ObjectId) (tenant : String) (product : ObjectId)
  /-- `Wishlist.findOneAndUpdate({ user, tenant }, { $pull }, { new: true })` -/
  | wishlistPull (user : ObjectId) (tenant : String) (product : ObjectId)
  /-- `populate("products", PRODUCT_FIELDS)` -/
  | populate (ids : List ObjectId)
  deriving DecidableEq

/-- What each call replies. -/
def WishlistCall.Reply : WishlistCall → Type
  | productExists _ _ => Bool
  | wishlistFindOne _ _ => Option Wishlist
  | wishlistAdd _ _ _ => Wishlist
  | wishlistPull _ _ _ => Option Wishlist
  | populate _ => List WishlistProduct

def WishlistMongo : Signature := ⟨WishlistCall, WishlistCall.Reply⟩

/-- The document of the user in the tenant. -/
def WishlistDb.find (db : WishlistDb) (user : ObjectId) (tenant : String) : Option Wishlist :=
  db.wishlists.docs.find? fun w => w.user == user && w.tenant == tenant

/-- The effect and the reply of each call. -/
def WishlistCall.exec : (o : WishlistCall) → WishlistDb → Except ApiError o.Reply × WishlistDb
  | .productExists id tenant, db =>
    (.ok (((db.products.get? id).filter fun p =>
      p.tenant == tenant && p.isActive && p.deletedAt.isNone).isSome), db)
  | .wishlistFindOne user tenant, db => (.ok (db.find user tenant), db)
  | .wishlistAdd user tenant product, db =>
    match db.find user tenant with
    | some w =>
      (.ok ((Wishlist.add product).run w), { db with wishlists := db.wishlists.update w.id (Wishlist.add product) })
    | none =>
      (.ok (newWishlist db.wishlists.next user tenant product),
        { db with wishlists :=
          db.wishlists.insert (newWishlist db.wishlists.next user tenant product) (key_newWishlist ..) })
  | .wishlistPull user tenant product, db =>
    match db.find user tenant with
    | some w =>
      (.ok (some ((Wishlist.pull product).run w)),
        { db with wishlists := db.wishlists.update w.id (Wishlist.pull product) })
    | none => (.ok none, db)
  | .populate ids, db => (.ok ((ids.filterMap db.products.get?).map PicturedProduct.wished), db)

def wishlistMongo : Machine WishlistMongo ApiError WishlistDb := ⟨WishlistCall.exec, .database⟩

/-! ## The controller -/

abbrev WishlistM := Prog WishlistMongo ApiError

def wishlistCall (o : WishlistCall) : WishlistM o.Reply := Prog.perform (S := WishlistMongo) o

/-- What is sent of a document, or of none. -/
def showWishlist (wishlist : Option Wishlist) : WishlistM (List WishlistProduct) :=
  match wishlist with
  | some w => wishlistCall (.populate w.products)
  | none => return []

inductive WishlistRequest where
  | show (req : AuthedRequest)
  | add (req : AuthedRequest) (productId : ObjectId)
  | remove (req : AuthedRequest) (productId : ObjectId)
  deriving DecidableEq

def WishlistRequest.handler : WishlistRequest → WishlistM (List WishlistProduct)
  | .show req => do
    let wishlist : Option Wishlist ← wishlistCall (.wishlistFindOne req.user req.tenant)
    showWishlist wishlist
  | .add req productId => do
    let product : Bool ← wishlistCall (.productExists productId req.tenant)
    if !product then throw (CustomeErrorHandler.notFound "Product not found")
    else do
      let wishlist : Wishlist ← wishlistCall (.wishlistAdd req.user req.tenant productId)
      showWishlist (some wishlist)
  | .remove req productId => do
    let wishlist : Option Wishlist ← wishlistCall (.wishlistPull req.user req.tenant productId)
    showWishlist wishlist

/-- The requests as a system of interleaved handlers. -/
def wishlistServer : System WishlistMongo ApiError (List WishlistProduct) WishlistDb WishlistRequest where
  machine := wishlistMongo
  code := WishlistRequest.handler

abbrev WishlistPool := Pool WishlistMongo ApiError (List WishlistProduct) WishlistDb WishlistRequest

end Ecommerce
