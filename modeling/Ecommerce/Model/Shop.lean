import Ecommerce.Effect.Pool
import Ecommerce.Model.Cache
import Ecommerce.Model.Orders

/-!
# Editing and listing products

`create`, `update`, `delete` and `list` of `services/ProductService.ts` over `repositories/ProductRepository.ts`
and the memory cache, as programs of one process. The database calls and the cache calls are separate
steps; the two database calls of a list are sent together and may be served in either order.
-/

namespace Ecommerce

open Effect

/-! ## Documents -/

structure ProductVariant where
  size : Option String
  color : Option String
  sku : Option String
  price : Option ℚ
  stock : ℤ
  deriving DecidableEq, Repr

/-- A product as the catalogue has it. -/
structure CatalogProduct where
  id : ObjectId
  tenant : String
  seller : Option ObjectId
  name : String
  description : String
  price : ℚ
  size : Option String
  category : Option String
  sku : Option String
  stock : ℤ
  isActive : Bool
  variants : List ProductVariant
  image : String
  deletedAt : Option Time
  createdAt : Time
  deriving DecidableEq, Repr

instance : Keyed CatalogProduct := ⟨CatalogProduct.id⟩

/-- The fields that a request can set. -/
structure ProductInput where
  name : Option String
  description : Option String
  price : Option ℚ
  size : Option String
  category : Option String
  sku : Option String
  stock : Option ℤ
  isActive : Option Bool
  variants : Option (List ProductVariant)
  deriving DecidableEq, Repr

/-- `pickAllowedFields("product", role, value)`. -/
def pickAllowedFields (role : Role) (value : ProductInput) : ProductInput :=
  match role with
  | .admin => value
  | .seller => { value with isActive := none }
  | .user => ⟨none, none, none, none, none, none, none, none, none⟩

/-- The document `{ ...allowedValue, image: filePath, seller: user._id, tenant }`. -/
structure ProductDraft where
  value : ProductInput
  image : String
  seller : ObjectId
  tenant : String
  deriving DecidableEq, Repr

/-- The fields that the schema requires are there. -/
def ProductDraft.complete (d : ProductDraft) : Bool :=
  d.value.name.any (· ≠ "") && d.value.price.isSome && d.image ≠ ""

/-- A complete draft with the defaults of the schema. -/
def ProductDraft.record (d : ProductDraft) (now : Time) (id : ObjectId) : CatalogProduct where
  id := id
  tenant := d.tenant
  seller := some d.seller
  name := d.value.name.getD ""
  description := d.value.description.getD ""
  price := d.value.price.getD 0
  size := d.value.size
  category := d.value.category
  sku := d.value.sku
  stock := d.value.stock.getD 0
  isActive := d.value.isActive.getD true
  variants := d.value.variants.getD []
  image := d.image
  deletedAt := none
  createdAt := now

theorem ProductDraft.key_record (d : ProductDraft) (now : Time) (id : ObjectId) :
    Keyed.key (d.record now id) = id := rfl

/-- The update `{ ...allowedValue, ...(filePath && { image: filePath }) }`. -/
def CatalogProduct.patch (value : ProductInput) (filePath : Option String) : Patch CatalogProduct :=
  ⟨fun p => { p with
    name := value.name.getD p.name
    description := value.description.getD p.description
    price := value.price.getD p.price
    size := value.size.or p.size
    category := value.category.or p.category
    sku := value.sku.or p.sku
    stock := value.stock.getD p.stock
    isActive := value.isActive.getD p.isActive
    variants := value.variants.getD p.variants
    image := (filePath.filter (· ≠ "")).getD p.image }, fun _ => rfl⟩

def CatalogProduct.softDelete (now : Time) : Patch CatalogProduct :=
  ⟨fun p => { p with deletedAt := some now, isActive := false }, fun _ => rfl⟩

/-- The filter of `update`. -/
structure UpdateFilter where
  id : ObjectId
  tenant : String
  /-- A seller reaches its own products only. -/
  seller : Option ObjectId
  deriving DecidableEq, Repr

def UpdateFilter.accepts (filter : UpdateFilter) (p : CatalogProduct) : Bool :=
  p.tenant == filter.tenant && p.deletedAt.isNone && filter.seller.all fun s => p.seller == some s

/-! ## The process -/

/-- How the process is set up, and what it is given from outside. -/
structure ShopConfig where
  cache : CacheConfig
  dates : DateText
  /-- `new RegExp(source, "i").test(text)`. -/
  test : (source : List UInt16) → (text : String) → Bool
  /-- The order in which the database lists rows for a sort. -/
  arrange : (sort : String) → List CatalogProduct → List CatalogProduct
  arrange_perm : ∀ sort rows, (arrange sort rows).Perm rows

/-- What the filter of `list` selects. -/
def ProductFilter.selects (cfg : ShopConfig) (filter : ProductFilter) (p : CatalogProduct) : Bool :=
  p.isActive && p.tenant == filter.tenant && p.deletedAt.isNone &&
    filter.createdBefore.all (fun before => decide (p.createdAt < before)) &&
    (filter.categories.isEmpty || filter.categories.any fun c => p.category == some c) &&
    filter.minPrice.all (fun min => decide (min ≤ p.price)) &&
    filter.maxPrice.all (fun max => decide (p.price ≤ max)) &&
    filter.search.all fun source =>
      cfg.test source p.name || cfg.test source p.description ||
        p.category.any (cfg.test source) || p.sku.any (cfg.test source)

/-- What a product list gives back. -/
abbrev ProductList := ListResult CatalogProduct

/-- The products, and the cache of the process. -/
structure Shop where
  products : Collection CatalogProduct
  memoryCache : CacheMap ProductList

inductive ShopCall where
  /-- `Product.create` -/
  | productCreate (draft : ProductDraft) (now : Time)
  /-- `Product.findOneAndUpdate(filter, update, { new: true, runValidators: true })` -/
  | productUpdateOne (filter : UpdateFilter) (value : ProductInput) (filePath : Option String)
  /-- `Product.findOneAndUpdate({ _id, tenant }, { $set: { deletedAt, isActive: false } })` -/
  | productSoftDelete (id : ObjectId) (tenant : String) (now : Time)
  /-- `Product.find(filter).sort(sort).skip(skip).limit(limit)` -/
  | productFindList (filter : ProductFilter) (sort : String) (skip limit : ℤ)
  /-- `Product.countDocuments(filter)` -/
  | productCount (filter : ProductFilter)
  /-- A call of `cache` at a time. -/
  | cache (now : Time) (op : CacheOp ProductList)
  deriving DecidableEq

/-- What each call replies. -/
def ShopCall.Reply : ShopCall → Type
  | productCreate _ _ => CatalogProduct
  | productUpdateOne _ _ _ => Option CatalogProduct
  | productSoftDelete _ _ _ => Option CatalogProduct
  | productFindList _ _ _ _ => List CatalogProduct
  | productCount _ => Nat
  | cache _ _ => Option ProductList

def ShopCalls : Signature := ⟨ShopCall, ShopCall.Reply⟩

/-- The repository over the products as they are. -/
def Shop.repository (cfg : ShopConfig) (shop : Shop) : ProductRepository CatalogProduct where
  findList filter sort skip limit :=
    ((cfg.arrange sort (shop.products.docs.filter (filter.selects cfg))).drop skip.toNat).take limit.toNat
  count filter := (shop.products.docs.filter (filter.selects cfg)).length

/-- The effect and the reply of each call. -/
def ShopCall.exec (cfg : ShopConfig) : (o : ShopCall) → Shop → Except ApiError o.Reply × Shop
  | .productCreate draft now, shop =>
    if !draft.complete then (.error .database, shop)
    else if draft.value.sku.isSome && shop.products.docs.any fun q => q.sku == draft.value.sku then
      (.error .duplicateKey, shop)
    else
      (.ok (draft.record now shop.products.next),
        { shop with products := shop.products.insert (draft.record now shop.products.next) (draft.key_record ..) })
  | .productUpdateOne filter value filePath, shop =>
    match shop.products.get? filter.id with
    | some p =>
      let updated := (CatalogProduct.patch value filePath).run p
      if !filter.accepts p then (.ok none, shop)
      else if updated.sku.isSome &&
          shop.products.docs.any fun q => q.id != p.id && q.sku == updated.sku then
        (.error .duplicateKey, shop)
      else
        (.ok (some updated),
          { shop with products := shop.products.update filter.id (CatalogProduct.patch value filePath) })
    | none => (.ok none, shop)
  | .productSoftDelete id tenant now, shop =>
    match shop.products.get? id with
    | some p =>
      if p.tenant = tenant then
        (.ok (some ((CatalogProduct.softDelete now).run p)),
          { shop with products := shop.products.update id (CatalogProduct.softDelete now) })
      else (.ok none, shop)
    | none => (.ok none, shop)
  | .productFindList filter sort skip limit, shop =>
    (.ok ((shop.repository cfg).findList filter sort skip limit), shop)
  | .productCount filter, shop => (.ok ((shop.repository cfg).count filter), shop)
  | .cache now op, shop =>
    (.ok (op.exec cfg.cache.CACHE_MAX_ENTRIES now shop.memoryCache).1,
      { shop with memoryCache := (op.exec cfg.cache.CACHE_MAX_ENTRIES now shop.memoryCache).2 })

def shopMachine (cfg : ShopConfig) : Machine ShopCalls ApiError Shop := ⟨ShopCall.exec cfg, .database⟩

/-! ## The service -/

abbrev ShopM := Prog ShopCalls ApiError

def shopCall (o : ShopCall) : ShopM o.Reply := Prog.perform (S := ShopCalls) o

namespace ProductService

def create (now : Time) (req : AuthedRequest) (value : ProductInput) (filePath : String) :
    ShopM CatalogProduct := do
  let allowedValue := pickAllowedFields req.role value
  let document : CatalogProduct ←
    shopCall (.productCreate ⟨allowedValue, filePath, req.user, req.tenant⟩ now)
  let _ : Option ProductList ← shopCall (.cache now (.del "products:"))
  return document

def update (now : Time) (req : AuthedRequest) (id : ObjectId) (value : ProductInput)
    (filePath : Option String) : ShopM CatalogProduct := do
  let allowedValue := pickAllowedFields req.role value
  let filter : UpdateFilter := ⟨id, req.tenant, if req.role = .seller then some req.user else none⟩
  match (← shopCall (.productUpdateOne filter allowedValue filePath) : Option CatalogProduct) with
  | none => throw (CustomeErrorHandler.notFound "Product not found")
  | some document => do
    let _ : Option ProductList ← shopCall (.cache now (.del "products:"))
    return document

def delete (now : Time) (tenant : String) (id : ObjectId) : ShopM CatalogProduct := do
  match (← shopCall (.productSoftDelete id tenant now) : Option CatalogProduct) with
  | none => throw (CustomeErrorHandler.notFound "Product not found")
  | some document => do
    let _ : Option ProductList ← shopCall (.cache now (.del "products:"))
    return document

/-- The call of `findList` for a query. -/
def findList (cfg : ShopConfig) (tenant : String) (query : Query) : ShopCall :=
  let useCursor := truthy (query "cursor")
  let pagination := buildPagination query
  let sort := buildSort (query "sortBy") (query "order") ["name", "price", "createdAt", "stock"] "-createdAt"
  .productFindList (productFilter cfg.dates tenant query) (if useCursor then "-createdAt" else sort)
    (if useCursor then 0 else pagination.skip) (if useCursor then limitParam query else pagination.limit)

/-- Both database calls of a list, and what they reply. -/
def readList (cfg : ShopConfig) (tenant : String) (query : Query) (countFirst : Bool) :
    ShopM (List CatalogProduct × Nat) := do
  let countCall := ShopCall.productCount (productFilter cfg.dates tenant query)
  if countFirst then do
    let total : Nat ← shopCall countCall
    let data : List CatalogProduct ← shopCall (findList cfg tenant query)
    return (data, total)
  else do
    let data : List CatalogProduct ← shopCall (findList cfg tenant query)
    let total : Nat ← shopCall countCall
    return (data, total)

/-- `list`, which reads the cache at one time and stores the result at a later one. -/
def list (cfg : ShopConfig) (now storedAt : Time) (tenant : String) (query : Query) (countFirst : Bool) :
    ShopM ProductList := do
  let key := cacheKey tenant query
  match (← shopCall (.cache now (.get key)) : Option ProductList) with
  | some cached => return cached
  | none => do
    let (data, total) ← readList cfg tenant query countFirst
    let result := listUncached cfg.dates CatalogProduct.createdAt ⟨fun _ _ _ _ => data, fun _ => total⟩
      tenant query
    let _ : Option ProductList ←
      shopCall (.cache storedAt (.set key result cfg.cache.CACHE_TTL_SECONDS))
    return result

end ProductService

/-- A call of the service, with the times at which it asks for the time. -/
inductive ShopRequest where
  | create (now : Time) (req : AuthedRequest) (value : ProductInput) (filePath : String)
  | update (now : Time) (req : AuthedRequest) (id : ObjectId) (value : ProductInput)
    (filePath : Option String)
  | delete (now : Time) (tenant : String) (id : ObjectId)
  | list (now storedAt : Time) (tenant : String) (query : Query) (countFirst : Bool)

inductive ShopResponse where
  | document (document : CatalogProduct)
  | list (result : ProductList)

def ShopRequest.code (cfg : ShopConfig) : ShopRequest → ShopM ShopResponse
  | .create now req value filePath =>
    ShopResponse.document <$> ProductService.create now req value filePath
  | .update now req id value filePath =>
    ShopResponse.document <$> ProductService.update now req id value filePath
  | .delete now tenant id => ShopResponse.document <$> ProductService.delete now tenant id
  | .list now storedAt tenant query countFirst =>
    ShopResponse.list <$> ProductService.list cfg now storedAt tenant query countFirst

/-- The calls as a system of interleaved programs. -/
def shopServer (cfg : ShopConfig) : System ShopCalls ApiError ShopResponse Shop ShopRequest where
  machine := shopMachine cfg
  code := ShopRequest.code cfg

abbrev ShopPool := Pool ShopCalls ApiError ShopResponse Shop ShopRequest

end Ecommerce
