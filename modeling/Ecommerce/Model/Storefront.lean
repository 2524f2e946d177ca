import Ecommerce.Model.CartEdits
import Mathlib.Data.Finset.Erase
import Mathlib.Data.Finset.Insert

/-!
# The cart in the browser

`CartStore` of the frontend, next to the server that answers its requests. The server processes requests one
at a time, in any order, and the responses arrive in any order.

A request is assumed to act for the user that was signed in when it was sent. What `authInterceptor` does with
a 401, a second request with the access token of whoever is signed in by then, is left out.
-/

namespace Ecommerce

inductive LoadState where
  | idle | loading | ready | error
  deriving DecidableEq, Repr

/-- The requests of `CartApi`. -/
inductive CartCommand where
  | load
  | add (product : ObjectId) (quantity : ℕ+)
  | setQuantity (product : ObjectId) (quantity : ℕ+)
  | remove (product : ObjectId)
  | clear
  deriving DecidableEq

namespace CartCommand

/-- What the server makes of the lines of a cart. -/
def apply : CartCommand → List CartItem → List CartItem
  | load, items => items
  | add product quantity, items =>
    if items.any (·.product == product) then addToLine product quantity items else items ++ [⟨product, quantity⟩]
  | setQuantity product quantity, items => setLine product quantity items
  | remove product, items => items.filter (·.product != product)
  | clear, _ => []

/-- The product whose controls are disabled. -/
def product? : CartCommand → Option ObjectId
  | add product _ | setQuantity product _ | remove product => some product
  | load | clear => none

end CartCommand

/-- A request, with the reply once the server has processed it and the number of requests that the server
had processed before. -/
structure CartSending where
  user : Option ObjectId
  command : CartCommand
  reply : Option (Nat × List CartItem)
  done : Bool
  deriving DecidableEq

/-- The store, the carts on the server and the requests between them. -/
structure Storefront where
  cart : List CartItem
  status : LoadState
  busy : Finset ObjectId
  signedIn : Option ObjectId
  sendings : List CartSending
  carts : ObjectId → List CartItem
  processed : Nat
  /-- History: the request that was answered last succeeded. -/
  succeeded : Bool

namespace Storefront

def setSending (n : Nat) (r : CartSending) (s : Storefront) : Storefront :=
  { s with sendings := s.sendings.set n r }

/-- A call of the store. -/
def call (command : CartCommand) (s : Storefront) : Storefront :=
  { s with
    status := if command = .load then .loading else s.status
    busy := (command.product?).elim s.busy fun product => insert product s.busy
    sendings := s.sendings ++ [⟨s.signedIn, command, none, false⟩] }

/-- `reset` -/
def reset (s : Storefront) : Storefront := { s with cart := [], status := .idle }

/-- `AuthService` has a user, or none, and the effect of the store runs if `isAuthenticated` changed. -/
def authenticate (user : Option ObjectId) (s : Storefront) : Storefront :=
  let t := { s with signedIn := user }
  if user.isSome = s.signedIn.isSome then t else if user.isSome then t.call .load else t.reset

/-- A store that is made while a user, or nobody, is signed in. Its effect runs once. -/
def start (carts : ObjectId → List CartItem) (user : Option ObjectId) : Storefront :=
  let s : Storefront := ⟨[], .idle, ∅, user, [], carts, 0, false⟩
  if user.isSome then s.call .load else s.reset

/-- The server processes a request. -/
def process (n : Nat) (r : CartSending) (user : ObjectId) (s : Storefront) : Storefront :=
  let items := r.command.apply (s.carts user)
  { s.setSending n { r with reply := some (s.processed, items) } with
    carts := Function.update s.carts user items
    processed := s.processed + 1 }

/-- `finalize` -/
def finalize (n : Nat) (r : CartSending) (s : Storefront) : Storefront :=
  { s.setSending n { r with done := true } with
    busy := (r.command.product?).elim s.busy s.busy.erase }

/-- A response arrives. -/
def respond (n : Nat) (r : CartSending) (items : List CartItem) (s : Storefront) : Storefront :=
  { s.finalize n r with
    cart := items
    status := if r.command = .clear then s.status else .ready
    succeeded := true }

/-- A request fails, on the server or on the way. -/
def fail (n : Nat) (r : CartSending) (s : Storefront) : Storefront :=
  { s.finalize n r with
    status := if r.command = .load then .error else s.status
    succeeded := false }

end Storefront

inductive StorefrontEvent where
  | call (command : CartCommand)
  | signIn (user : ObjectId)
  | signOut
  | process (n : Nat)
  | respond (n : Nat)
  | fail (n : Nat)
  deriving DecidableEq

namespace Storefront

/-- A request that is not answered yet. -/
def outstanding (n : Nat) (s : Storefront) : Option CartSending := s.sendings[n]?.filter fun r => !r.done

/-- What an event leaves. The server accepts each request at most once, and only with a user's token. -/
def step (s : Storefront) : StorefrontEvent → Option Storefront
  | .call command => some (s.call command)
  | .signIn user => some (s.authenticate (some user))
  | .signOut => some (s.authenticate none)
  | .process n =>
    (s.sendings[n]?.filter fun r => r.reply.isNone).bind fun r => r.user.map fun user => s.process n r user
  | .respond n => (s.outstanding n).bind fun r => r.reply.map fun reply => s.respond n r reply.2
  | .fail n => (s.outstanding n).map fun r => s.fail n r

end Storefront

end Ecommerce
