import Ecommerce.Effect.Pool
import Ecommerce.Model.Auth

/-!
# API keys

`createScopedApiKey` of `services/securityService.ts` and the `apiKeyAuth` middleware, with the calls of
`platformController.ts` that use them. The random bytes of keys come from a source that never repeats
itself.
-/

namespace Ecommerce

open Effect

/-! ## Documents -/

inductive ApiKeyStatus where
  | active | revoked
  deriving DecidableEq, Repr

structure ApiKey where
  id : ObjectId
  name : String
  keyHash : String
  tenant : String
  scopes : List String
  status : ApiKeyStatus
  lastUsedAt : Option Time
  expiresAt : Option Time
  createdBy : Option ObjectId
  deriving DecidableEq, Repr

instance : Keyed ApiKey := ⟨ApiKey.id⟩

structure ApiKeyDraft where
  name : String
  tenant : String
  scopes : List String
  createdBy : ObjectId
  expiresAt : Option Time
  keyHash : String
  deriving DecidableEq, Repr

def ApiKeyDraft.record (d : ApiKeyDraft) (id : ObjectId) : ApiKey where
  id := id
  name := d.name
  keyHash := d.keyHash
  tenant := d.tenant
  scopes := d.scopes
  status := .active
  lastUsedAt := none
  expiresAt := d.expiresAt
  createdBy := some d.createdBy

def ApiKey.used (now : Time) : Patch ApiKey := ⟨fun k => { k with lastUsedAt := some now }, fun _ => rfl⟩

/-- A key as it is listed, without its hash. -/
structure ListedApiKey where
  id : ObjectId
  name : String
  tenant : String
  scopes : List String
  status : ApiKeyStatus
  lastUsedAt : Option Time
  expiresAt : Option Time
  createdBy : Option ObjectId
  deriving DecidableEq, Repr

def ApiKey.listed (k : ApiKey) : ListedApiKey :=
  ⟨k.id, k.name, k.tenant, k.scopes, k.status, k.lastUsedAt, k.expiresAt, k.createdBy⟩

/-- `nextBytes` is the number of the next random bytes. -/
structure ApiKeyDb where
  apiKeys : Collection ApiKey
  nextBytes : Nat
  deriving DecidableEq

/-- `crypto.randomBytes(32).toString("hex")` by its number, and the digest. -/
structure ApiKeyConfig where
  randomHex : Nat → String
  sha256 : String → String

/-! ## Calls -/

inductive ApiKeyOp where
  /-- `crypto.randomBytes` -/
  | randomBytes
  /-- `ApiKey.create` -/
  | apiKeyCreate (draft : ApiKeyDraft)
  /-- `ApiKey.findOne({ keyHash, status: "active" })` -/
  | apiKeyFindOne (keyHash : String)
  /-- `apiKey.save()` with another `lastUsedAt` -/
  | apiKeySave (id : ObjectId) (lastUsedAt : Time)
  /-- `ApiKey.find({ tenant })` -/
  | apiKeyFind (tenant : String)
  deriving DecidableEq

def ApiKeyOp.Reply : ApiKeyOp → Type
  | randomBytes => Nat
  | apiKeyCreate _ => ApiKey
  | apiKeyFindOne _ => Option ApiKey
  | apiKeySave _ _ => Unit
  | apiKeyFind _ => List ApiKey

def ApiKeyOps : Signature := ⟨ApiKeyOp, ApiKeyOp.Reply⟩

def ApiKeyOp.exec : (o : ApiKeyOp) → ApiKeyDb → Except ApiError o.Reply × ApiKeyDb
  | .randomBytes, s => (.ok s.nextBytes, { s with nextBytes := s.nextBytes + 1 })
  | .apiKeyCreate draft, s =>
    if s.apiKeys.docs.any fun k => k.keyHash == draft.keyHash then (.error .duplicateKey, s)
    else
      (.ok (draft.record s.apiKeys.next),
        { s with apiKeys := s.apiKeys.insert (draft.record s.apiKeys.next) rfl })
  | .apiKeyFindOne keyHash, s =>
    (.ok (s.apiKeys.docs.find? fun k => k.keyHash == keyHash && k.status == .active), s)
  | .apiKeySave id lastUsedAt, s =>
    (.ok (), { s with apiKeys := s.apiKeys.update id (ApiKey.used lastUsedAt) })
  | .apiKeyFind tenant, s => (.ok (s.apiKeys.docs.filter fun k => k.tenant == tenant), s)

def apiKeyMachine : Machine ApiKeyOps ApiError ApiKeyDb := ⟨ApiKeyOp.exec, .database⟩

/-! ## Requests -/

abbrev ApiKeyM := Prog ApiKeyOps ApiError

def apiKeyCall (o : ApiKeyOp) : ApiKeyM o.Reply := Prog.perform (S := ApiKeyOps) o

def createApiKeyValue (cfg : ApiKeyConfig) (bytes : Nat) : String := "ek_" ++ cfg.randomHex bytes

def hashApiKeyValue (cfg : ApiKeyConfig) (value : String) : String := cfg.sha256 value

def createScopedApiKey (cfg : ApiKeyConfig) (name tenant : String) (scopes : List String) (createdBy : ObjectId)
    (expiresAt : Option Time) : ApiKeyM (ApiKey × String) := do
  let bytes : Nat ← apiKeyCall .randomBytes
  let key := createApiKeyValue cfg bytes
  let apiKey : ApiKey ← apiKeyCall
    (.apiKeyCreate ⟨name, tenant, scopes, createdBy, expiresAt, hashApiKeyValue cfg key⟩)
  return (apiKey, key)

/-- `apiKeyAuth(...requiredScopes)`, up to the key and the tenant that it gives the request. -/
def apiKeyAuth (cfg : ApiKeyConfig) (requiredScopes : List String) (rawKey : Option String) (now : Time) :
    ApiKeyM (ApiKey × String) := do
  match rawKey.filter (· ≠ "") with
  | none => throw (CustomeErrorHandler.unAuthorized "API key required")
  | some rawKey => do
    match (← apiKeyCall (.apiKeyFindOne (hashApiKeyValue cfg rawKey)) : Option ApiKey) with
    | none => throw (CustomeErrorHandler.unAuthorized "Invalid API key")
    | some apiKey =>
      if apiKey.expiresAt.any fun expiresAt => decide (expiresAt < now) then
        throw (CustomeErrorHandler.unAuthorized "Invalid API key")
      else if requiredScopes.all fun scope => apiKey.scopes.contains scope then do
        let _ : Unit ← apiKeyCall (.apiKeySave apiKey.id now)
        return ((ApiKey.used now).run apiKey, apiKey.tenant)
      else throw (CustomeErrorHandler.forbidden "API key scope denied")

/-- An administrator creates or lists keys, or an integration calls with a key. -/
inductive ApiKeyRequest where
  | create (tenant : String) (user : ObjectId) (name : String) (scopes : List String) (expiresAt : Option Time)
  | list (tenant : String)
  | integration (requiredScopes : List String) (rawKey : Option String) (now : Time)
  deriving DecidableEq

inductive ApiKeyResponse where
  | created (id : ObjectId) (key : String) (scopes : List String)
  | listed (keys : List ListedApiKey)
  | authorized (apiKey : ApiKey) (tenant : String)
  deriving DecidableEq

def ApiKeyRequest.code (cfg : ApiKeyConfig) : ApiKeyRequest → ApiKeyM ApiKeyResponse
  | .create tenant user name scopes expiresAt => do
    let (apiKey, key) ← createScopedApiKey cfg name tenant scopes user expiresAt
    return .created apiKey.id key apiKey.scopes
  | .list tenant => do
    let keys : List ApiKey ← apiKeyCall (.apiKeyFind tenant)
    return .listed (keys.map ApiKey.listed)
  | .integration requiredScopes rawKey now => do
    let (apiKey, tenant) ← apiKeyAuth cfg requiredScopes rawKey now
    return .authorized apiKey tenant

/-- The requests as a system of interleaved programs. -/
def apiKeyServer (cfg : ApiKeyConfig) : System ApiKeyOps ApiError ApiKeyResponse ApiKeyDb ApiKeyRequest where
  machine := apiKeyMachine
  code := ApiKeyRequest.code cfg

abbrev ApiKeyPool := Pool ApiKeyOps ApiError ApiKeyResponse ApiKeyDb ApiKeyRequest

end Ecommerce
