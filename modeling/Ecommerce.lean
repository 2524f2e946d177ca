import Ecommerce.Orders.Recovery
import Ecommerce.Stock.Compensation
import Ecommerce.Orders.Rollback
import Ecommerce.Payments.Redelivery
import Ecommerce.Auth.SignOut
import Ecommerce.Auth.StepUp
import Ecommerce.Auth.Rotation
import Ecommerce.Orders.Fulfilment
import Ecommerce.Shipments.Forward
import Ecommerce.Orders.PaidOnly
import Ecommerce.Orders.Outbox
import Ecommerce.Shipments.CatchUp
import Ecommerce.Orders.Shipped
import Ecommerce.Checkout.AtMostOnce
import Ecommerce.Checkout.Retries
import Ecommerce.Carts.Units
import Ecommerce.Coupons.Accounting
import Ecommerce.Security.SignedUrls
import Ecommerce.Audit.Unbroken
import Ecommerce.Orders.Totals
import Ecommerce.Products.Cache
import Ecommerce.Products.Cursor
import Ecommerce.Inventory.Sweep
import Ecommerce.Orders.Consistency
import Ecommerce.Payments.SignedText
import Ecommerce.Products.Lru
import Ecommerce.Carts.Lines
import Ecommerce.Reviews.Totals
import Ecommerce.Products.Freshness
import Ecommerce.Requests.Sanitised
import Ecommerce.Security.PrivateAddresses
import Ecommerce.Security.UrlGuard
import Ecommerce.Products.Search
import Ecommerce.Streams.Accounting
import Ecommerce.Locks.Ownership
import Ecommerce.Orders.Refunds
import Ecommerce.Sellers.Revenue
import Ecommerce.Security.TrustedProxies
import Ecommerce.Frontend.SingleFlight
import Ecommerce.Frontend.SignedOut
import Ecommerce.Frontend.CartShown
import Ecommerce.Paging.Offset
import Ecommerce.Orders.Exactness
import Ecommerce.Payments.Replays
import Ecommerce.Observability.Metrics
import Ecommerce.Tenants.Isolation
import Ecommerce.Orders.Records
import Ecommerce.Auth.Accounts
import Ecommerce.Products.Catalogue
import Ecommerce.Frontend.Suggestions
import Ecommerce.Frontend.Viewed
import Ecommerce.Security.ApiKeys
import Ecommerce.Reviews.Verified
import Ecommerce.Auth.Deletion
import Ecommerce.Config.Env
import Ecommerce.Wishlists.History
