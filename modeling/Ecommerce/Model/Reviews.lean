import Ecommerce.Effect.Memo
import Ecommerce.Model.Orders

/-!
# Reviews

`ReviewController.create` of `controllers/reviewController.ts`, with the totals that it keeps on the
product. A review is saved, then all published reviews of the product are aggregated, then the
product's totals are overwritten, each by a call of its own. Averages are exact.
-/

namespace Ecommerce

open Effect

/-! ## Documents -/

inductive ReviewStatus where
  | published | hidden | flagged
  deriving DecidableEq, Repr

/-- What `reviewSchema` admits. -/
structure ReviewBody where
  rating : ℕ
  title : Option String
  comment : Option String
  one_le : 1 ≤ rating
  le_five : rating ≤ 5
  deriving DecidableEq

structure Review where
  id : ObjectId
  user : ObjectId
  tenant : String
  product : ObjectId
  rating : ℕ
  title : Option String
  comment : Option String
  status : ReviewStatus
  deriving DecidableEq, Repr

instance : Keyed Review := ⟨Review.id⟩

/-- A product with its totals. -/
structure RatedProduct extends Product where
  ratingAverage : ℚ
  ratingCount : ℕ
  deriving DecidableEq, Repr

instance : Keyed RatedProduct := ⟨fun p => p.id⟩

/-- The collections that reviewing reads and writes. -/
structure ReviewDb where
  products : Collection RatedProduct
  orders : Collection Order
  reviews : Collection Review

/-- A row of the aggregation. -/
structure Rating where
  average : ℚ
  count : ℕ
  deriving DecidableEq, Repr

/-! ## Calls -/

inductive ReviewCall where
  /-- `Product.exists({ _id, tenant, isActive: true, deletedAt: null })` -/
  | productExists (id : ObjectId) (tenant : String)
  /-- `Order.exists({ user, tenant, "items.product": product, status: { $in: [...] } })` -/
  | orderExists (user : ObjectId) (tenant : String) (product : ObjectId)
  /-- `Review.findOneAndUpdate({ user, tenant, product }, { ...value, tenant, status: "published" },
  { upsert: true, new: true, runValidators: true })` -/
  | reviewUpsert (user : ObjectId) (tenant : String) (product : ObjectId) (value : ReviewBody)
  /-- `Review.aggregate` over the published reviews of the product -/
  | reviewAggregate (product : ObjectId)
  /-- `Product.updateOne({ _id }, { $set: { ratingAverage, ratingCount } })` -/
  | productSetRating (id : ObjectId) (rating : Rating)
  deriving DecidableEq

/-- What each call replies. -/
def ReviewCall.Reply : ReviewCall → Type
  | productExists _ _ => Bool
  | orderExists _ _ _ => Bool
  | reviewUpsert _ _ _ _ => Review
  | reviewAggregate _ => List Rating
  | productSetRating _ _ => Unit

def ReviewMongo : Signature := ⟨ReviewCall, ReviewCall.Reply⟩

/-- The orders that make a purchaser. -/
def PURCHASED : List OrderStatus := [.confirmed, .processing, .shipped, .delivered]

namespace ReviewDb

/-- The published reviews of a product. -/
def published (db : ReviewDb) (product : ObjectId) : List Review :=
  db.reviews.docs.filter fun r => r.product == product && r.status == .published

/-- `$avg` of the ratings. -/
def averageOf (reviews : List Review) : ℚ :=
  (reviews.map fun r => (r.rating : ℚ)).sum / reviews.length

/-- `$match` and `$group`: one row, or none without reviews. -/
def aggregate (db : ReviewDb) (product : ObjectId) : List Rating :=
  match db.published product with
  | [] => []
  | reviews => [⟨averageOf reviews, reviews.length⟩]

end ReviewDb

def Review.save (value : ReviewBody) : Patch Review :=
  ⟨fun r => { r with
    rating := value.rating
    title := value.title.or r.title
    comment := value.comment.or r.comment
    status := .published }, fun _ => rfl⟩

/-- The document that an upsert inserts. -/
def newReview (id user : ObjectId) (tenant : String) (product : ObjectId) (value : ReviewBody) : Review :=
  ⟨id, user, tenant, product, value.rating, value.title, value.comment, .published⟩

theorem key_newReview (id user : ObjectId) (tenant : String) (product : ObjectId) (value : ReviewBody) :
    Keyed.key (newReview id user tenant product value) = id := rfl

def RatedProduct.setRating (rating : Rating) : Patch RatedProduct :=
  ⟨fun p => { p with ratingAverage := rating.average, ratingCount := rating.count }, fun _ => rfl⟩

/-- The effect and the reply of each call. -/
def ReviewCall.exec : (o : ReviewCall) → ReviewDb → Except ApiError o.Reply × ReviewDb
  | .productExists id tenant, db =>
    (.ok (((db.products.get? id).filter fun p =>
      p.tenant == tenant && p.isActive && p.deletedAt.isNone).isSome), db)
  | .orderExists user tenant product, db =>
    (.ok (db.orders.docs.any fun o => o.user == user && o.tenant == tenant &&
      o.items.any (·.product == product) && PURCHASED.contains o.status), db)
  | .reviewUpsert user tenant product value, db =>
    match db.reviews.docs.find? fun r => r.user == user && r.tenant == tenant && r.product == product with
    | some r =>
      (.ok ((Review.save value).run r), { db with reviews := db.reviews.update r.id (Review.save value) })
    | none =>
      (.ok (newReview db.reviews.next user tenant product value),
        { db with reviews :=
          db.reviews.insert (newReview db.reviews.next user tenant product value) (key_newReview ..) })
  | .reviewAggregate product, db => (.ok (db.aggregate product), db)
  | .productSetRating id rating, db =>
    (.ok (), { db with products := db.products.update id (RatedProduct.setRating rating) })

def reviewMongo : Machine ReviewMongo ApiError ReviewDb := ⟨ReviewCall.exec, .database⟩

/-! ## The controller -/

abbrev ReviewM := Prog ReviewMongo ApiError

def reviewCall (o : ReviewCall) : ReviewM o.Reply := Prog.perform (S := ReviewMongo) o

def recalculateRating (productId : ObjectId) : ReviewM Unit := do
  let stats : List Rating ← reviewCall (.reviewAggregate productId)
  reviewCall (.productSetRating productId (stats.head?.getD ⟨0, 0⟩))

/-- The rest of `create`, for a purchaser. -/
def saveReview (req : AuthedRequest) (productId : ObjectId) (value : ReviewBody) : ReviewM Review := do
  let review : Review ← reviewCall (.reviewUpsert req.user req.tenant productId value)
  recalculateRating productId
  return review

/-- `ReviewController.create`, once the body is valid. -/
def createReview (req : AuthedRequest) (productId : ObjectId) (value : ReviewBody) : ReviewM Review :=
  Prog.catching (do
    let product : Bool ← reviewCall (.productExists productId req.tenant)
    if !product then throw (CustomeErrorHandler.notFound "Product not found")
    else do
      let purchased : Bool ← reviewCall (.orderExists req.user req.tenant productId)
      if !purchased then
        throw (CustomeErrorHandler.forbidden "Only verified purchasers can review this product")
      else saveReview req productId value)
    fun err =>
      if err = .duplicateKey then throw (CustomeErrorHandler.badRequest "Review already exists")
      else throw err

/-- A request to create or update a review. -/
structure ReviewRequest where
  req : AuthedRequest
  productId : ObjectId
  value : ReviewBody
  deriving DecidableEq

/-- The requests as a system of interleaved handlers. -/
def reviewServer : System ReviewMongo ApiError Review ReviewDb ReviewRequest where
  machine := reviewMongo
  code r := createReview r.req r.productId r.value

abbrev ReviewPool := Pool ReviewMongo ApiError Review ReviewDb ReviewRequest

end Ecommerce
