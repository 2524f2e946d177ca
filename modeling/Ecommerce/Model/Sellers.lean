import Ecommerce.Model.Amounts
import Mathlib.Data.List.Sort

/-!
# The dashboard of a seller

`controllers/sellerController.ts`, over the products and the orders that are stored. What `select` leaves
out of the documents is read by nothing here. The amounts are added up in double precision; a stored price
is the number that is nearest to it.
-/

namespace Ecommerce

open Numbers (Number)

/-- A stored order, with its timestamp. -/
structure PlacedOrder where
  order : Order
  createdAt : Time
  deriving DecidableEq, Repr

/-- Orders a seller still has to ship. -/
def FULFILLABLE_STATUSES : List OrderStatus := [.confirmed, .processing, .shipped]

structure SellerOrderSummary where
  id : ObjectId
  status : OrderStatus
  paymentStatus : PaymentStatus
  createdAt : Time
  items : List OrderItem
  sellerSubtotal : Number
  shippingAddress : Option Address

structure SellerDashboard where
  productCount : Nat
  recentOrders : List SellerOrderSummary
  revenue : Number
  lowStock : List Product

namespace SellerController

/-- `Product.find({ seller, tenant, deletedAt: null })` -/
def findProducts (seller : ObjectId) (tenant : String) (products : List Product) : List Product :=
  products.filter fun p => p.seller == some seller && p.tenant == tenant && p.deletedAt.isNone

/-- `Order.find({ tenant, "items.product": { $in: productIds } }).sort("-createdAt")` -/
def findOrders (tenant : String) (productIds : List ObjectId) (orders : List PlacedOrder) : List PlacedOrder :=
  (orders.filter fun o => o.order.tenant == tenant && o.order.items.any fun item =>
    productIds.contains item.product).insertionSort fun a b => b.createdAt ≤ a.createdAt

/-- `toCents(item.price) * item.quantity` -/
def lineAmount (item : OrderItem) : Number := (Doubles.toCents (.ofRat item.price)).mul (.ofRat (item.quantity : Nat))

/-- An order as the seller sees it: its own lines, and the address while it has to ship a paid order. -/
def summary (ownIds : List ObjectId) (o : PlacedOrder) : SellerOrderSummary :=
  let items := o.order.items.filter fun item => ownIds.contains item.product
  let mustFulfil := o.order.paymentStatus == .paid && FULFILLABLE_STATUSES.contains o.order.status
  { id := o.order.id
    status := o.order.status
    paymentStatus := o.order.paymentStatus
    createdAt := o.createdAt
    items := items
    sellerSubtotal := Doubles.fromCents (items.foldl (fun sum item => sum.add (lineAmount item)) (.ofRat 0))
    shippingAddress := if mustFulfil then some o.order.shippingAddress else none }

/-- `dashboard` -/
def dashboard (seller : ObjectId) (tenant : String) (storedProducts : List Product)
    (storedOrders : List PlacedOrder) : SellerDashboard :=
  let products := findProducts seller tenant storedProducts
  let ownIds := products.map Product.id
  let orders := (findOrders tenant ownIds storedOrders).take 50
  let recentOrders := orders.map (summary ownIds)
  let paidOrders := recentOrders.filter fun o => o.paymentStatus == .paid
  { productCount := products.length
    recentOrders := recentOrders
    revenue := Doubles.fromCents (paidOrders.foldl (fun sum o => sum.add (Doubles.toCents o.sellerSubtotal)) (.ofRat 0))
    lowStock := products.filter fun p => p.stock ≤ 5 }

end SellerController

end Ecommerce
