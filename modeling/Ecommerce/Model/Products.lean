import Ecommerce.Text.Json
import Ecommerce.Model.JavaScript
import Ecommerce.Model.Documents

/-!
# Product lists

`ProductService.list` with `utils/pagination.ts`, up to the memory cache.

The catalogue does not change here, so that the repository is a pair of functions of what it is
asked. The keys of the query are looked up in the query object. A query value is what Express's
parser makes of it: a text, an array or an object. `Date` is given by its two functions on texts.
-/

namespace Ecommerce

open Text

abbrev QueryValue := Json

/-- `req.query`. -/
abbrev Query := String → Option QueryValue

/-- `new Date(text)`, unless it is invalid, and `toISOString`. -/
structure DateText where
  parse : String → Option Time
  toISOString : Time → String

/-! ## Values of a query -/

mutual

/-- `String(value)`. -/
def textOf : QueryValue → String
  | .str text => text
  | .arr values => ",".intercalate (textsOf values)
  | .obj _ => "[object Object]"

def textsOf : List QueryValue → List String
  | [] => []
  | v :: vs => textOf v :: textsOf vs

end

/-- `Boolean(value)`. -/
def truthy : Option QueryValue → Bool
  | none => false
  | some (.str text) => text ≠ ""
  | some _ => true

def asString : Option QueryValue → Option String
  | some (.str text) => some text
  | _ => none

/-- `Number(value)`, if it is finite: what rounds beyond the largest double is not. -/
def finiteNumber (value : Option QueryValue) : Option ℚ :=
  value.bind fun v => (jsNumber (textOf v)).filter fun q => |q| < 2 ^ 1024 - 2 ^ 970

/-- `Number.parseInt(text, 10)`. -/
def parseInt (text : String) : Option ℤ :=
  let cs := text.toList.dropWhile isJsSpace
  let digits (cs : List Char) : Option Nat :=
    if (cs.takeWhile Char.isDigit).isEmpty then none else readDigits 10 0 (cs.takeWhile Char.isDigit)
  match cs with
  | '-' :: cs => (digits cs).map fun n => -(n : ℤ)
  | '+' :: cs => (digits cs).map fun n => (n : ℤ)
  | cs => (digits cs).map fun n => (n : ℤ)

/-- `Number.parseInt(asString(value) ?? "", 10) || fallback`. -/
def intParam (value : Option QueryValue) (fallback : ℤ) : ℤ :=
  match parseInt ((asString value).getD "") with
  | some n => if n = 0 then fallback else n
  | none => fallback

/-! ## Pagination -/

structure Pagination where
  page : ℤ
  limit : ℤ
  skip : ℤ
  deriving DecidableEq, Repr

/-- The page size that both kinds of pagination read. -/
def limitParam (query : Query) : ℤ := min (max (intParam (query "limit") 20) 1) 100

def buildPagination (query : Query) : Pagination :=
  let page := max (intParam (query "page") 1) 1
  let limit := limitParam query
  { page, limit, skip := (page - 1) * limit }

def ALLOWED_SORT_DIRECTIONS : List String := ["asc", "desc", "1", "-1"]

def buildSort (sortBy order : Option QueryValue) (allowedFields : List String) (fallback : String) : String :=
  match sortBy with
  | some (.str field) =>
    if field ∈ allowedFields then
      let order := (order.map textOf).getD "undefined"
      let safeOrder := if jsToLowerCase order ∈ ALLOWED_SORT_DIRECTIONS then order else "asc"
      (if jsToLowerCase safeOrder = "desc" ∨ safeOrder = "-1" then "-" else "") ++ field
    else fallback
  | _ => fallback

/-- The instant before which a cursor asks for products, if it is a date. -/
def cursorFilter (dates : DateText) (query : Query) : Option Time :=
  ((asString (query "cursor")).filter (· ≠ "")).bind dates.parse

/-- The `createdAt` of the last row as a text, if there are rows. -/
def nextCursorFrom {Row : Type} (dates : DateText) (createdAt : Row → Time) (items : List Row) : Option String :=
  items.getLast?.map fun row => dates.toISOString (createdAt row)

/-! ## ProductService.list -/

/-- The conditions of the filter that a query can choose. -/
structure ProductFilter where
  tenant : String
  createdBefore : Option Time
  categories : List String
  minPrice : Option ℚ
  maxPrice : Option ℚ
  /-- The source of the regular expression that a text field has to match. -/
  search : Option (List UInt16)
  deriving DecidableEq, Repr

def categoriesOf : Option QueryValue → List String
  | some (.arr values) => values.filterMap fun v => (asString (some v)).filter (· ≠ "")
  | value => ((asString value).filter (· ≠ "")).toList

/-- The replacement of `/[.*+?^${}()|[\]\\]/g` by `\\$&`: the characters of the class get a backslash. -/
def escapePattern (text : List UInt16) : List UInt16 :=
  text.flatMap fun u =>
    if (utf16 ".*+?^$\x7b\x7d()|[]\\".toList).contains u then utf16 ['\\'] ++ [u] else [u]

/-- The source of the regular expression for a search text. -/
def searchPattern (q : List UInt16) : List UInt16 := escapePattern (q.take 100)

def productFilter (dates : DateText) (tenant : String) (query : Query) : ProductFilter where
  tenant := tenant
  createdBefore := cursorFilter dates query
  categories := categoriesOf (query "category")
  minPrice := if truthy (query "minPrice") || truthy (query "maxPrice") then finiteNumber (query "minPrice") else none
  maxPrice := if truthy (query "minPrice") || truthy (query "maxPrice") then finiteNumber (query "maxPrice") else none
  search := ((asString (query "q")).filter (· ≠ "")).map fun q => searchPattern (utf16 q.toList)

/-- The repository over a catalogue that does not change. -/
structure ProductRepository (Row : Type) where
  findList : ProductFilter → (sort : String) → (skip limit : ℤ) → List Row
  count : ProductFilter → Nat

structure ListMeta where
  page : ℤ
  limit : ℤ
  total : Nat
  pages : ℤ
  nextCursor : Option String
  deriving DecidableEq, Repr

structure ListResult (Row : Type) where
  data : List Row
  listMeta : ListMeta
  deriving DecidableEq, Repr

/-- What `list` does on a cache miss, up to storing the result. -/
def listUncached {Row : Type} (dates : DateText) (createdAt : Row → Time) (repository : ProductRepository Row)
    (tenant : String) (query : Query) : ListResult Row :=
  let useCursor := truthy (query "cursor")
  let pagination := buildPagination query
  let sort := buildSort (query "sortBy") (query "order") ["name", "price", "createdAt", "stock"] "-createdAt"
  let filter := productFilter dates tenant query
  let limit := if useCursor then limitParam query else pagination.limit
  let data := repository.findList filter (if useCursor then "-createdAt" else sort)
    (if useCursor then 0 else pagination.skip) limit
  let total := repository.count filter
  { data
    listMeta := {
      page := pagination.page
      limit
      total
      pages := ⌈(total : ℚ) / pagination.limit⌉
      nextCursor := if useCursor then nextCursorFrom dates createdAt data else none } }

/-! ## Following the cursor -/

/-- A catalogue: its rows, when they were created, and which of them a filter selects, the cursor
apart. -/
structure Catalogue (Row : Type) where
  rows : List Row
  createdAt : Row → Time
  selects : ProductFilter → Row → Bool

def Catalogue.matching {Row : Type} (catalogue : Catalogue Row) (filter : ProductFilter) : List Row :=
  catalogue.rows.filter fun row =>
    catalogue.selects { filter with createdBefore := none } row &&
      filter.createdBefore.all fun before => decide (catalogue.createdAt row < before)

/-- The repository over a catalogue, with the order in which the database lists rows for a sort. -/
def Catalogue.repository {Row : Type} (catalogue : Catalogue Row)
    (arrange : (sort : String) → List Row → List Row) : ProductRepository Row where
  findList filter sort skip limit :=
    ((arrange sort (catalogue.matching filter)).drop skip.toNat).take limit.toNat
  count filter := (catalogue.matching filter).length

/-- The query with another cursor. -/
def withCursor (query : Query) (cursor : String) : Query :=
  fun key => if key = "cursor" then some (.str cursor) else query key

/-- The pages a client gets from a cursor on, until `nextCursor` is null. The database may list rows
that compare equal in another order each time. -/
def followCursor {Row : Type} (dates : DateText) (catalogue : Catalogue Row)
    (arrange : Nat → (sort : String) → List Row → List Row) (tenant : String) (query : Query) :
    (fuel number : Nat) → (cursor : String) → Option (List (List Row))
  | 0, _, _ => none
  | fuel + 1, number, cursor =>
    let result := listUncached dates catalogue.createdAt (catalogue.repository (arrange number)) tenant
      (withCursor query cursor)
    match result.listMeta.nextCursor with
    | none => some [result.data]
    | some next =>
      (followCursor dates catalogue arrange tenant query fuel (number + 1) next).map (result.data :: ·)

/-! ## The key of a list -/

def LIST_QUERY_KEYS : List String :=
  ["page", "limit", "cursor", "sortBy", "order", "category", "minPrice", "maxPrice", "q"]

/-- The parameters that are part of the key. -/
def keyParams (query : Query) : List (String × QueryValue) :=
  LIST_QUERY_KEYS.filterMap fun key => (query key).map fun value => (key, value)

def cacheKey (tenant : String) (query : Query) : String :=
  "products:" ++ tenant ++ ":" ++ String.ofList (Json.stringify (.obj (keyParams query)))

structure CacheConfig where
  CACHE_MAX_ENTRIES : Nat
  CACHE_TTL_SECONDS : ℤ

end Ecommerce
