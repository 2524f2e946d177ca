import Ecommerce.Model.Database
import Ecommerce.Model.JavaScript

/-!
# The search box

`SearchBoxComponent` of the frontend: what is typed passes `debounceTime`, `distinctUntilChanged` and
`switchMap`, and the products that a lookup finds are suggested. Replies arrive in any order, and the
shopper may submit, pick a suggestion or navigate at any time.
-/

namespace Ecommerce

def SUGGEST_MIN_LENGTH : Nat := 2

def SUGGEST_DEBOUNCE_MS : Nat := 250

/-- A suggested product, with what the box reads of it. -/
structure SuggestedProduct where
  id : ObjectId
  name : String
  deriving DecidableEq, Repr

/-- A call of `suggest`. The outcome is what it has found, or that it has failed. -/
structure SuggestLookup where
  q : String
  category : String
  outcome : Option (Option (List SuggestedProduct))
  deriving DecidableEq, Repr

/-- What a lookup suggests once it has ended: a failed one suggests nothing. -/
def SuggestLookup.items (lookup : SuggestLookup) : List SuggestedProduct :=
  (lookup.outcome.bind id).getD []

/-- A navigation of the router. -/
inductive SearchRoute where
  | results (q category : Option String)
  | product (id : ObjectId)
  deriving DecidableEq, Repr

structure SearchBox where
  /-- The value of the control is a product just after one was picked. -/
  query : String ⊕ SuggestedProduct
  scope : String
  suggestions : List SuggestedProduct
  /-- What `debounceTime` holds back, and for how long. -/
  held : Option (String × Nat)
  /-- What `distinctUntilChanged` let through last. -/
  settled : Option String
  /-- The lookups so far. -/
  lookups : List SuggestLookup
  /-- The lookup that `switchMap` is subscribed to. -/
  current : Option Nat
  navigations : List SearchRoute
  deriving DecidableEq, Repr

inductive SearchEvent where
  /-- The shopper changes the text. -/
  | type (text : String)
  /-- The autocomplete puts a product into the control. -/
  | pick (product : SuggestedProduct)
  | setScope (category : String)
  | elapse (ms : Nat)
  /-- Lookup `n` ends, with products or with an error. -/
  | reply (n : Nat) (outcome : Option (List SuggestedProduct))
  | submit
  | openProduct (product : SuggestedProduct)
  /-- A navigation has ended, on a results page with the parameters or elsewhere. -/
  | navigated (results : Option (Option String × Option String))
  deriving DecidableEq, Repr

namespace SearchBox

def lengthOf (text : String) : Nat := (utf16 text.toList).length

/-- `value || null`. -/
def orNull (value : String) : Option String := if value = "" then none else some value

/-- `syncFromUrl`, which emits no change. -/
def syncFromUrl (results : Option (Option String × Option String)) (s : SearchBox) : SearchBox :=
  match results with
  | some (q, category) => { s with query := .inl (q.getD ""), scope := category.getD "" }
  | none => { s with query := .inl "", scope := "" }

/-- The box as it is constructed on a page. -/
def load (results : Option (Option String × Option String)) : SearchBox :=
  syncFromUrl results
    { query := .inl "", scope := "", suggestions := [], held := none, settled := none, lookups := [],
      current := none, navigations := [] }

/-- `switchMap`: the lookup before is given up. A text that is too short asks nobody. -/
def switchTo (q : String) (s : SearchBox) : SearchBox :=
  if lengthOf q < SUGGEST_MIN_LENGTH then { s with current := none, suggestions := [] }
  else { s with
    current := some s.lookups.length
    lookups := s.lookups ++ [⟨q, s.scope, none⟩] }

/-- What `debounceTime` emits goes on unless it is what it was before. -/
def settle (q : String) (s : SearchBox) : SearchBox :=
  if s.settled = some q then { s with held := none }
  else switchTo q { s with held := none, settled := some q }

def elapse (ms : Nat) (s : SearchBox) : SearchBox :=
  match s.held with
  | some (q, left) => if left ≤ ms then settle q s else { s with held := some (q, left - ms) }
  | none => s

/-- The end of a lookup, which is noticed only if `switchMap` has not given it up. -/
def reply (n : Nat) (lookup : SuggestLookup) (s : SearchBox) : SearchBox :=
  if s.current = some n then
    { s with lookups := s.lookups.set n lookup, current := none, suggestions := lookup.items }
  else { s with lookups := s.lookups.set n lookup }

def submit (s : SearchBox) : SearchBox :=
  let q := match s.query with
    | .inl value => jsTrim value
    | .inr product => product.name
  { s with suggestions := [], navigations := s.navigations ++ [.results (orNull q) (orNull s.scope)] }

def openProduct (product : SuggestedProduct) (s : SearchBox) : SearchBox :=
  { s with query := .inl "", suggestions := [], navigations := s.navigations ++ [.product product.id] }

def step (s : SearchBox) : SearchEvent → Option SearchBox
  | .type text => some { s with query := .inl text, held := some (jsTrim text, SUGGEST_DEBOUNCE_MS) }
  | .pick product => some { s with query := .inr product }
  | .setScope category => some { s with scope := category }
  | .elapse ms => some (s.elapse ms)
  | .reply n outcome =>
    match s.lookups[n]? with
    | some ⟨q, category, none⟩ => some (s.reply n ⟨q, category, some outcome⟩)
    | _ => none
  | .submit => some s.submit
  | .openProduct product => some (s.openProduct product)
  | .navigated results => some (s.syncFromUrl results)

end SearchBox

end Ecommerce
