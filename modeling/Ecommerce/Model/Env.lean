import Ecommerce.Model.Maps
import Ecommerce.Model.TrustProxy

/-!
# The environment

`parseEnv` of `config/env.schema.ts`, from what `baseSchema` makes of the variables on.
-/

namespace Ecommerce

inductive NodeEnv where
  | development | test | production
  deriving DecidableEq, Repr

inductive SecretKey where
  | JWT_SECRET | REFRESH_SECRET | WEBHOOK_SECRET | SERVICE_JWT_SECRET | SIGNED_URL_SECRET
  deriving DecidableEq, Repr

def SecretKey.name : SecretKey → String
  | JWT_SECRET => "JWT_SECRET"
  | REFRESH_SECRET => "REFRESH_SECRET"
  | WEBHOOK_SECRET => "WEBHOOK_SECRET"
  | SERVICE_JWT_SECRET => "SERVICE_JWT_SECRET"
  | SIGNED_URL_SECRET => "SIGNED_URL_SECRET"

def SECRET_KEYS : List SecretKey :=
  [.JWT_SECRET, .REFRESH_SECRET, .WEBHOOK_SECRET, .SERVICE_JWT_SECRET, .SIGNED_URL_SECRET]

def MIN_SECRET_LENGTH : Nat := 32

def KNOWN_PLACEHOLDERS : List String := [
  "change-this-access-token-secret",
  "change-this-refresh-token-secret",
  "replace-this-webhook-secret",
  "replace-this-service-token-secret",
  "replace-this-signed-url-secret",
  "replace-with-a-long-random-access-token-secret",
  "replace-with-a-different-long-random-refresh-token-secret",
  "replace-with-a-long-random-webhook-signing-secret",
  "replace-with-a-long-random-service-auth-secret",
  "replace-with-a-long-random-signed-url-secret"]

/-- What is wrong with a variable. -/
structure EnvProblem where
  path : String
  message : String
  deriving DecidableEq, Repr

/-- A line of an `EnvValidationError`. -/
def EnvProblem.text (p : EnvProblem) : String := p.path ++ ": " ++ p.message

/-- The part of the parsed variables that `parseEnv` looks at. Texts are trimmed. -/
structure ParsedVariables where
  NODE_ENV : NodeEnv
  APP_PORT : Nat
  APP_IP_ADDRESS : String
  APP_URL : Option String
  DEBUG_MODE : Bool
  DB_URL : Option String
  secret : SecretKey → Option String
  TRUST_PROXY : String

/-- The configuration that the variables make. -/
structure Env where
  NODE_ENV : NodeEnv
  APP_PORT : Nat
  APP_IP_ADDRESS : String
  APP_URL : String
  DEBUG_MODE : Bool
  DB_URL : String
  secret : SecretKey → String
  TRUST_PROXY : TrustProxy

namespace ParsedVariables

variable (v : ParsedVariables)

def isProduction : Bool := v.NODE_ENV == .production

/-- The secret as it is set. An empty text is none. -/
def given (key : SecretKey) : Option String := (v.secret key).filter (· ≠ "")

/-- What the first loop finds wrong with a secret. -/
def secretProblems (key : SecretKey) : List EnvProblem :=
  match v.given key with
  | none => if v.isProduction then [⟨key.name, "is required in production"⟩] else []
  | some value =>
    if KNOWN_PLACEHOLDERS.contains value then
      [⟨key.name, "is a published placeholder value; generate a real secret"⟩]
    else if v.isProduction && decide ((utf16 value.toList).length < MIN_SECRET_LENGTH) then
      [⟨key.name, "must be at least " ++ toString MIN_SECRET_LENGTH ++ " characters in production"⟩]
    else []

end ParsedVariables

/-- The first loop. `draws` counts the random values that it has taken. -/
structure SecretsRead where
  secrets : SecretKey → String
  problems : List EnvProblem
  draws : Nat

def readSecret (v : ParsedVariables) (randomHex : Nat → String) (s : SecretsRead) (key : SecretKey) :
    SecretsRead where
  secrets := Function.update s.secrets key ((v.given key).getD (randomHex s.draws))
  problems := s.problems ++ v.secretProblems key
  draws := if (v.given key).isNone then s.draws + 1 else s.draws

/-- The second loop, with the last key that had each value. -/
structure SecretsSeen where
  seen : JsMap String SecretKey
  problems : List EnvProblem

def seeSecret (secrets : SecretKey → String) (s : SecretsSeen) (key : SecretKey) : SecretsSeen where
  seen := s.seen.set (secrets key) key
  problems :=
    match s.seen.get (secrets key) with
    | some other => s.problems ++ [⟨key.name, "must differ from " ++ other.name⟩]
    | none => s.problems

def readSecrets (v : ParsedVariables) (randomHex : Nat → String) : SecretsRead :=
  SECRET_KEYS.foldl (readSecret v randomHex) ⟨fun _ => "", [], 0⟩

def seeSecrets (secrets : SecretKey → String) : SecretsSeen :=
  SECRET_KEYS.foldl (seeSecret secrets) ⟨JsMap.empty, []⟩

/-- What is wrong apart from the secrets. -/
def ParsedVariables.otherProblems (v : ParsedVariables) : List EnvProblem :=
  (if ((v.DB_URL.filter (· ≠ "")).isNone && v.isProduction) then [⟨"DB_URL", "is required in production"⟩] else []) ++
  (if v.isProduction && v.DEBUG_MODE then [⟨"DEBUG_MODE", "must be false in production"⟩] else []) ++
  (match parseTrustProxy v.TRUST_PROXY with
    | .error error => [⟨"TRUST_PROXY", error⟩]
    | _ => [])

/-- All problems, in the order in which they are reported. -/
def envProblems (v : ParsedVariables) (randomHex : Nat → String) : List EnvProblem :=
  (readSecrets v randomHex).problems ++ (seeSecrets (readSecrets v randomHex).secrets).problems ++ v.otherProblems

/-- Without a slash at the end. -/
def dropSlash (url : String) : String :=
  if url.toList.getLast? = some '/' then String.ofList url.toList.dropLast else url

/-- The configuration or the problems. The random values stand for `crypto.randomBytes(48)`. -/
def parseEnv (v : ParsedVariables) (randomHex : Nat → String) : Except (List String) Env :=
  if (envProblems v randomHex).isEmpty then
    .ok {
      NODE_ENV := v.NODE_ENV
      APP_PORT := v.APP_PORT
      APP_IP_ADDRESS := v.APP_IP_ADDRESS
      APP_URL := dropSlash ((v.APP_URL.filter (· ≠ "")).getD
        ("http://" ++ v.APP_IP_ADDRESS ++ ":" ++ toString v.APP_PORT))
      DEBUG_MODE := v.DEBUG_MODE
      DB_URL := v.DB_URL.getD "mongodb://127.0.0.1:27017/ecommerce_rest_api"
      secret := (readSecrets v randomHex).secrets
      TRUST_PROXY := parseTrustProxy v.TRUST_PROXY }
  else .error ((envProblems v randomHex).map EnvProblem.text)

end Ecommerce
