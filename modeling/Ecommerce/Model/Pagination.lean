import Ecommerce.Model.Products
import Ecommerce.Numbers.Binary64

/-!
# Page, limit and skip

`buildPagination` with any defaults, on the language's own numbers. `parseInt` reads the number that is
nearest to the integer that a text writes.
-/

namespace Ecommerce

namespace Doubles

open Numbers (Number)

/-- `value || fallback` -/
def orElse (value : Option Number) (fallback : Number) : Number := (value.filter Number.truthy).getD fallback

/-- `Number.parseInt(text, 10)`. -/
def parseInt (text : String) : Number := ((Ecommerce.parseInt text).map fun n : ℤ => Number.ofRat n).getD .nan

structure PaginationDefaults where
  limit : Option Number
  maxLimit : Option Number

structure Pagination where
  page : Number
  limit : Number
  skip : Number

def buildPagination (query : Query) (defaults : PaginationDefaults) : Pagination :=
  let maxLimit := orElse defaults.maxLimit (.ofRat 100)
  let page := (orElse (some (parseInt ((asString (query "page")).getD ""))) (.ofRat 1)).max (.ofRat 1)
  let limit :=
    ((orElse (some (parseInt ((asString (query "limit")).getD ""))) (orElse defaults.limit (.ofRat 20))).max
      (.ofRat 1)).min maxLimit
  { page, limit, skip := (page.sub (.ofRat 1)).mul limit }

end Doubles

end Ecommerce
