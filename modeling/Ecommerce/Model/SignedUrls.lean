import Ecommerce.Model.JavaScript
import Ecommerce.Model.Database

/-!
# Signed URLs

`createSignedUrl` and `verifySignedUrl` of `services/securityService.ts`, with the two endpoints of
`controllers/platformController.ts` and the tenant that `middlewares/tenantContext.ts` reads and
`middlewares/auth.ts` overrules.

HMAC-SHA256 is a parameter. A URL is kept as its parts, which the client reads from its path and its
query.
-/

namespace Ecommerce

structure SignedUrlConfig where
  SIGNED_URL_SECRET : String
  SIGNED_URL_TTL_SECONDS : Nat
  DEFAULT_TENANT : String
  /-- `crypto.createHmac("sha256", secret).update(text).digest()`. -/
  hmac : String → String → List UInt8

/-- The tenant of a request before `auth`, from its `X-Tenant-Id` header. -/
def tenantContext (DEFAULT_TENANT : String) (header : Option String) : String :=
  let tenant := jsTrim (jsToLowerCase (orElseText header DEFAULT_TENANT))
  if tenant = "" then DEFAULT_TENANT else tenant

/-! ## The service -/

/-- The hex digits of bytes. -/
def hexOfBytes : List UInt8 → List Char
  | [] => []
  | b :: bs => (b.toNat / 16).digitChar :: (b.toNat % 16).digitChar :: hexOfBytes bs

/-- The text under the signature. -/
def signedUrlPayload (path tenant subject expires : String) : String :=
  path ++ "." ++ tenant ++ "." ++ subject ++ "." ++ expires

def urlSignature (cfg : SignedUrlConfig) (payload : String) : String :=
  String.ofList (hexOfBytes (cfg.hmac cfg.SIGNED_URL_SECRET payload))

structure SignedUrl where
  path : String
  tenant : String
  subject : String
  expires : ℤ
  signature : String
  deriving DecidableEq, Repr

def createSignedUrl (cfg : SignedUrlConfig) (now : Time) (path tenant : String)
    (subject : Option String) : SignedUrl :=
  let expires := now / 1000 + cfg.SIGNED_URL_TTL_SECONDS
  { path, tenant, expires
    subject := orElseText subject ""
    signature := urlSignature cfg
      (signedUrlPayload path tenant (orElseText subject "") (toString expires)) }

/-- The query parameters of a validation that are strings. -/
structure SignedUrlQuery where
  path : Option String
  tenant : Option String
  subject : Option String
  expires : Option String
  signature : Option String
  deriving DecidableEq, Repr

/-- The text of a parameter inside a template literal. -/
def templateText (value : Option String) : String := value.getD "undefined"

/-- `Number(text) < bound`. -/
def numberBelow (text : String) (bound : ℤ) : Bool :=
  match jsNumber text with
  | some q => decide (q < bound)
  | none => jsTrim text == "-Infinity"

def SignedUrlQuery.payload (q : SignedUrlQuery) : String :=
  signedUrlPayload (templateText q.path) (templateText q.tenant) (orElseText q.subject "")
    (templateText q.expires)

def verifySignedUrl (cfg : SignedUrlConfig) (now : Time) (q : SignedUrlQuery) : Bool :=
  match q.expires.filter (· ≠ "") with
  | none => false
  | some expires =>
    if numberBelow expires (now / 1000) then false
    else
      bufferFromHex (orElseText q.signature "").toList ==
        bufferFromHex (urlSignature cfg q.payload).toList

/-! ## The endpoints -/

def isNameChar (c : Char) : Bool :=
  ('a' ≤ c && c ≤ 'z') || ('A' ≤ c && c ≤ 'Z') || ('0' ≤ c && c ≤ '9') || c == '_' || c == '.' || c == '-'

/-- Names of at least one character with a slash between them, after the first slash. -/
def isPathTail : (atStart : Bool) → List Char → Bool
  | atStart, [] => !atStart
  | atStart, c :: cs =>
    if c = '/' then !atStart && isPathTail true cs else isNameChar c && isPathTail false cs

/-- `/^\/uploads(\/[\w.-]+)*$/`. -/
def isUploadPath (path : String) : Bool :=
  match path.toList with
  | '/' :: 'u' :: 'p' :: 'l' :: 'o' :: 'a' :: 'd' :: 's' :: rest =>
    match rest with
    | [] => true
    | '/' :: tail => isPathTail true tail
    | _ => false
  | _ => false

/-- `text.includes("..")`. -/
def includesDotDot : List Char → Bool
  | a :: b :: cs => (a == '.' && b == '.') || includesDotDot (b :: cs)
  | _ => false

/-- A request for a signature: the text of the signed-in user's id, its role and stored tenant, the
tenant header and the two parameters of the query. -/
structure SignRequest where
  userId : String
  role : Role
  userTenant : Option String
  tenantHeader : Option String
  path : Option String
  subject : Option String
  deriving DecidableEq, Repr

/-- `req.tenant` behind `auth`, `user.tenant || req.tenant`. -/
def SignRequest.tenant (cfg : SignedUrlConfig) (req : SignRequest) : String :=
  orElseText req.userTenant (tenantContext cfg.DEFAULT_TENANT req.tenantHeader)

/-- `PlatformController.signedUrl`. -/
def signedUrl (cfg : SignedUrlConfig) (now : Time) (req : SignRequest) : Except ApiError SignedUrl :=
  let path := orElseText req.path "/uploads"
  if !isUploadPath path || includesDotDot path.toList then
    .error (CustomeErrorHandler.badRequest "Only /uploads paths can be signed")
  else
    match req.subject.filter (· ≠ "") with
    | some requested =>
      if requested ≠ req.userId ∧ req.role ≠ .admin then
        .error (CustomeErrorHandler.forbidden "Cannot sign URLs for another subject")
      else
        .ok (createSignedUrl cfg now path (req.tenant cfg) (some requested))
    | none => .ok (createSignedUrl cfg now path (req.tenant cfg) (some req.userId))

/-- `PlatformController.validateSignedUrl`: what its answer carries as `valid`. -/
def validateSignedUrl (cfg : SignedUrlConfig) (now : Time) (q : SignedUrlQuery) : Bool :=
  verifySignedUrl cfg now q

end Ecommerce
