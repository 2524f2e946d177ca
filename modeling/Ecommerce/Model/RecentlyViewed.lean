import Ecommerce.Model.JavaScript

/-!
# Recently viewed products

`RecentlyViewedStore` of the frontend, next to the session storage of its tab. Storage may fail, a
reload makes a new store, and somebody may write to the storage.
-/

namespace Ecommerce

def RECENTLY_VIEWED_MAX : Nat := 12

/-- What the store can tell of a parsed value: the texts of an array, or that it is none. -/
inductive ParsedIds where
  /-- An item that is not a text is none. -/
  | array (items : List (Option String))
  | other
  deriving DecidableEq, Repr

/-- `JSON.stringify` of texts, and `JSON.parse`, which may throw. -/
structure IdsJson where
  stringify : List String → String
  parse : String → Option ParsedIds
  parse_stringify : ∀ ids, parse (stringify ids) = some (.array (ids.map some))

/-- `/^[0-9a-f]{24}$/i`. -/
def isIdText (text : String) : Bool :=
  text.toList.length == 24 && text.toList.all fun c => (digitValue c).isSome

/-- The store of the page that is loaded, and the storage of the tab. -/
structure RecentlyViewed where
  ids : List String
  stored : Option String
  deriving DecidableEq, Repr

inductive ViewEvent where
  /-- A call of `record`, and whether the storage can be written. -/
  | record (id : String) (writable : Bool)
  | clear (writable : Bool)
  /-- The page is loaded again, and the storage can be read or not. -/
  | reload (readable : Bool)
  /-- Something else writes to the storage. -/
  | tamper (text : String)
  deriving DecidableEq, Repr

namespace RecentlyViewed

variable (json : IdsJson)

/-- `read`: an absent text is `"[]"`. -/
def read (stored : Option String) : List String :=
  match stored with
  | none => []
  | some text =>
    match json.parse text with
    | some (.array items) => ((items.filterMap id).filter isIdText).take RECENTLY_VIEWED_MAX
    | _ => []

def write (writable : Bool) (ids : List String) (s : RecentlyViewed) : RecentlyViewed :=
  { ids, stored := if writable then some (json.stringify ids) else s.stored }

def record (id : String) (writable : Bool) (s : RecentlyViewed) : RecentlyViewed :=
  write json writable ((id :: s.ids.filter (· ≠ id)).take RECENTLY_VIEWED_MAX) s

def clear (writable : Bool) (s : RecentlyViewed) : RecentlyViewed := write json writable [] s

/-- A store that is made for the tab. -/
def load (readable : Bool) (stored : Option String) : RecentlyViewed :=
  { ids := if readable then read json stored else [], stored }

def step (s : RecentlyViewed) : ViewEvent → Option RecentlyViewed
  | .record id writable => some (s.record json id writable)
  | .clear writable => some (s.clear json writable)
  | .reload readable => some (load json readable s.stored)
  | .tamper text => some { s with stored := some text }

end RecentlyViewed

end Ecommerce
