import Ecommerce.Text.Json
import Ecommerce.Model.Payments

/-!
# Raw bodies

`express.json` in strict mode with `middlewares/rawBody.ts`, and the payload that
`PaymentController.webhook` passes on. A byte order mark is stripped before the text is looked at.
-/

namespace Ecommerce

open Text

/-- White space in front of a JSON text. -/
def isJsonSpace (c : Char) : Bool := c == ' ' || c == '\t' || c == '\n' || c == '\r'

/-- The text behind a byte order mark. -/
def withoutMark : List Char → List Char
  | '\ufeff' :: cs => cs
  | cs => cs

/-- In strict mode the first character that is not white space opens an object or an array. -/
def strictJson (text : String) : Bool :=
  ((withoutMark text.toList).find? fun c => !isJsonSpace c).any fun c => c == '\x7b' || c == '['

/-- What the parsers have made of the body of a request: `req.rawBody`, which `express.json` alone sets,
and `req.body`. -/
structure ParsedBody where
  rawBody : Option String
  body : Option Json

/-- `express.json` lets objects and arrays through only, and the other parsers make objects. -/
structure ParsedBody.Accepted (b : ParsedBody) : Prop where
  strict : ∀ text, b.rawBody = some text → strictJson text
  object : ∀ value, b.rawBody = none → b.body = some value → ∃ fields, value = .obj fields

/-- `req.rawBody || JSON.stringify(req.body || {})`. -/
def ParsedBody.rawPayload (b : ParsedBody) : String :=
  orElseText b.rawBody (String.ofList (Json.stringify (b.body.getD (.obj []))))

/-- `signPayload`, before the digest is written in hex. -/
def signPayload (cfg : WebhookConfig) (payload timestamp : String) : List Nat :=
  cfg.hmac cfg.WEBHOOK_SECRET (signedText timestamp payload)

end Ecommerce
