import Ecommerce.Effect.Pool
import Ecommerce.Model.Database

/-!
# Sessions

`services/AuthService.ts`, `repositories/AuthRepository.ts`, the session functions of
`services/securityService.ts` and the `auth` middleware, over the collections they use. Signed
tokens name the row of their session, and rows are shared by a user's sign-ins on one device.
-/

namespace Ecommerce

open Effect

namespace CustomeErrorHandler

def alreadyExist (message : String) : ApiError := .app 409 message
def wrongCredentials : ApiError := .app 401 "Username or Password is wrong!"
def serverError (message : String) : ApiError := .app 500 message

end CustomeErrorHandler

/-! ## Documents -/

structure User where
  id : ObjectId
  name : String
  email : String
  password : String
  role : Role
  tenant : String
  isActive : Bool
  deletedAt : Option Time
  deriving DecidableEq, Repr

structure UserSession where
  id : ObjectId
  user : ObjectId
  refreshToken : Option ObjectId
  deviceId : String
  userAgent : Option String
  ip : String
  riskScore : Nat
  stepUpRequired : Bool
  lastSeenAt : Time
  revokedAt : Option Time
  deriving DecidableEq, Repr

/-- `token` is the digest of the token, or the raw token on rows older than hashing. -/
structure RefreshTokenRecord where
  id : ObjectId
  token : String
  user : ObjectId
  expiresAt : Time
  revokedAt : Option Time
  deriving DecidableEq, Repr

inductive SignalSeverity where
  | info | low | medium | high | critical
  deriving DecidableEq, Repr

/-- The signals of a sign-in. -/
inductive AuthSignal where
  | loginFailed | loginSucceeded
  deriving DecidableEq, Repr

structure SecuritySignal where
  type : AuthSignal
  severity : SignalSeverity
  user : Option ObjectId
  tenant : String
  ip : String
  createdAt : Time
  deriving DecidableEq, Repr

inductive TenantStatus where
  | active | suspended | closed
  deriving DecidableEq, Repr

/-- The part of a tenant that a sign-up depends on. -/
structure SignupTenant where
  key : String
  status : TenantStatus
  allowSelfSignup : Option Bool
  deriving DecidableEq, Repr

instance : Keyed User := ⟨User.id⟩
instance : Keyed UserSession := ⟨UserSession.id⟩
instance : Keyed RefreshTokenRecord := ⟨RefreshTokenRecord.id⟩

/-- `nextId` is the next value of `crypto.randomUUID`, of which no two are equal. -/
structure AuthDb where
  users : Collection User
  sessions : Collection UserSession
  refreshTokens : Collection RefreshTokenRecord
  signals : List SecuritySignal
  tenants : List SignupTenant
  nextId : Nat
  deriving DecidableEq

/-! ## Tokens -/

inductive TokenType where
  | access | refresh
  deriving DecidableEq, Repr

/-- The `sid` of a token: the text of a session's id, or something else. -/
inductive SidClaim where
  | session (id : ObjectId)
  | other
  deriving DecidableEq, Repr

/-- `AccessTokenClaims`. -/
structure AccessTokenClaims where
  _id : ObjectId
  role : Option Role
  typ : Option TokenType
  sid : Option SidClaim
  deriving DecidableEq, Repr

/-- The `jsonwebtoken` package. A signature covers the claims, so a token that verifies has the
claims it was signed with. -/
structure Jwt where
  /-- The claims, the lifetime in milliseconds, the secret, the time and the `jwtid`. -/
  sign : AccessTokenClaims → Nat → String → Time → Nat → String
  /-- The token, the secret and the time. -/
  verify : String → String → Time → Option AccessTokenClaims
  verify_sign : ∀ claims expiry secret now jwtid secret' now' claims',
    verify (sign claims expiry secret now jwtid) secret' now' = some claims' → claims' = claims

/-- The configuration, and the packages that are not modelled. -/
structure AuthConfig where
  JWT_SECRET : String
  REFRESH_SECRET : String
  ACCESS_TOKEN_TTL : Nat
  REFRESH_TOKEN_TTL : Nat
  DEFAULT_TENANT : String
  jwt : Jwt
  /-- `bcrypt.hash`, with the salt it draws. -/
  hash : String → Nat → String
  /-- `bcrypt.compare`. -/
  compare : String → String → Bool
  sha256 : String → String

/-! ## Calls -/

/-- What `trackSession` sets on the row of a device. -/
structure SessionDraft where
  user : ObjectId
  deviceId : String
  userAgent : Option String
  ip : String
  riskScore : Nat
  stepUpRequired : Bool
  lastSeenAt : Time
  deriving DecidableEq, Repr

def SessionDraft.session (d : SessionDraft) (id : ObjectId) : UserSession where
  id := id
  user := d.user
  refreshToken := none
  deviceId := d.deviceId
  userAgent := d.userAgent
  ip := d.ip
  riskScore := d.riskScore
  stepUpRequired := d.stepUpRequired
  lastSeenAt := d.lastSeenAt
  revokedAt := none

/-- Signing in again on a device reopens its session row, which a logout had revoked. -/
def SessionDraft.reopen (d : SessionDraft) : Patch UserSession :=
  ⟨fun s => { s with
    userAgent := d.userAgent <|> s.userAgent
    ip := d.ip
    riskScore := d.riskScore
    stepUpRequired := d.stepUpRequired
    lastSeenAt := d.lastSeenAt
    revokedAt := none }, fun _ => rfl⟩

structure UserDraft where
  name : String
  email : String
  password : String
  tenant : String
  deriving DecidableEq, Repr

def UserDraft.record (d : UserDraft) (id : ObjectId) : User where
  id := id
  name := d.name
  email := d.email
  password := d.password
  role := .user
  tenant := d.tenant
  isActive := true
  deletedAt := none

structure RefreshTokenDraft where
  token : String
  user : ObjectId
  expiresAt : Time
  deriving DecidableEq, Repr

def RefreshTokenDraft.record (d : RefreshTokenDraft) (id : ObjectId) : RefreshTokenRecord where
  id := id
  token := d.token
  user := d.user
  expiresAt := d.expiresAt
  revokedAt := none

/-- The individual database calls, and the drawing of a random id. -/
inductive AuthOp where
  /-- `crypto.randomUUID()` -/
  | randomUUID
  /-- `Tenant.findOne({ key })` -/
  | tenantFindOne (key : String)
  /-- `User.findOne({ email, isActive: true, deletedAt: null })` -/
  | userFindByEmail (email : String)
  /-- `User.findOne({ _id, isActive: true, deletedAt: null })` -/
  | userFindById (id : ObjectId)
  /-- `User.exists({ email })` -/
  | userExistsByEmail (email : String)
  /-- `User.create` -/
  | userCreate (draft : UserDraft)
  /-- `SecuritySignal.create` -/
  | signalCreate (signal : SecuritySignal)
  /-- `SecuritySignal.countDocuments({ type: "auth.login_failed", ip, createdAt: { $gte } })` -/
  | signalCountFailed (ip : String) (since : Time)
  /-- `UserSession.findOneAndUpdate({ user, deviceId }, { $set, $unset: { revokedAt } }, upsert)` -/
  | sessionTrack (draft : SessionDraft)
  /-- `UserSession.updateOne({ _id }, { $set: { refreshToken, lastSeenAt } })` -/
  | sessionLink (id : ObjectId) (refreshToken : ObjectId) (now : Time)
  /-- `UserSession.findOne({ user, refreshToken }).select("_id")` -/
  | sessionOfToken (user : ObjectId) (refreshToken : ObjectId)
  /-- `UserSession.exists({ _id, revokedAt: { $exists: true } })`, also by user -/
  | sessionRevoked (id : ObjectId) (user : Option ObjectId)
  /-- `UserSession.updateOne({ _id, user }, { $set: { revokedAt } })` -/
  | sessionRevoke (id : ObjectId) (user : ObjectId) (now : Time)
  /-- `UserSession.findOne({ _id, user, revokedAt: { $exists: false } }).select("stepUpRequired")` -/
  | sessionStepUp (id : ObjectId) (user : ObjectId)
  /-- `RefreshToken.create` -/
  | refreshCreate (draft : RefreshTokenDraft)
  /-- `RefreshToken.findOneAndUpdate(unused and unexpired, { $set: { revokedAt } })` -/
  | refreshConsume (tokenLookup : List String) (now : Time)
  /-- `RefreshToken.deleteOne({ token, user })` -/
  | refreshDelete (tokenLookup : List String) (user : ObjectId)
  deriving DecidableEq

/-- What each call replies. -/
def AuthOp.Reply : AuthOp → Type
  | randomUUID => Nat
  | tenantFindOne _ => Option SignupTenant
  | userFindByEmail _ => Option User
  | userFindById _ => Option User
  | userExistsByEmail _ => Bool
  | userCreate _ => User
  | signalCreate _ => Unit
  | signalCountFailed _ _ => Nat
  | sessionTrack _ => UserSession
  | sessionLink _ _ _ => Unit
  | sessionOfToken _ _ => Option ObjectId
  | sessionRevoked _ _ => Bool
  | sessionRevoke _ _ _ => Unit
  | sessionStepUp _ _ => Option Bool
  | refreshCreate _ => RefreshTokenRecord
  | refreshConsume _ _ => Option RefreshTokenRecord
  | refreshDelete _ _ => Unit

/-- The calls as a signature. -/
def AuthMongo : Signature := ⟨AuthOp, AuthOp.Reply⟩

instance : DecidableEq AuthMongo.Op := inferInstanceAs (DecidableEq AuthOp)

namespace UserSession

def link (refreshToken : ObjectId) (now : Time) : Patch UserSession :=
  ⟨fun s => { s with refreshToken := some refreshToken, lastSeenAt := now }, fun _ => rfl⟩

def revoke (now : Time) : Patch UserSession := ⟨fun s => { s with revokedAt := some now }, fun _ => rfl⟩

end UserSession

def RefreshTokenRecord.revoke (now : Time) : Patch RefreshTokenRecord :=
  ⟨fun r => { r with revokedAt := some now }, fun _ => rfl⟩

namespace AuthDb

/-- The row of a user's device. -/
def sessionFor (db : AuthDb) (user : ObjectId) (deviceId : String) : Option UserSession :=
  db.sessions.docs.find? fun s => s.user == user && s.deviceId == deviceId

/-- The effect and the reply of each call. -/
def exec : (o : AuthOp) → AuthDb → Except ApiError o.Reply × AuthDb
  | .randomUUID, db => (.ok db.nextId, { db with nextId := db.nextId + 1 })
  | .tenantFindOne key, db => (.ok (db.tenants.find? (·.key == key)), db)
  | .userFindByEmail email, db =>
    (.ok (db.users.docs.find? fun u => u.email == email && u.isActive && u.deletedAt.isNone), db)
  | .userFindById id, db =>
    (.ok ((db.users.get? id).filter fun u => u.isActive && u.deletedAt.isNone), db)
  | .userExistsByEmail email, db => (.ok (db.users.docs.any (·.email == email)), db)
  | .userCreate draft, db =>
    if db.users.docs.any (·.email == draft.email) then (.error .duplicateKey, db)
    else (.ok (draft.record db.users.next),
      { db with users := db.users.insert (draft.record db.users.next) rfl })
  | .signalCreate signal, db => (.ok (), { db with signals := db.signals ++ [signal] })
  | .signalCountFailed ip since, db =>
    (.ok (db.signals.countP fun s =>
      s.type == .loginFailed && s.ip == ip && decide (since ≤ s.createdAt)), db)
  | .sessionTrack draft, db =>
    match db.sessionFor draft.user draft.deviceId with
    | some s => (.ok (draft.reopen.run s), { db with sessions := db.sessions.update s.id draft.reopen })
    | none => (.ok (draft.session db.sessions.next),
      { db with sessions := db.sessions.insert (draft.session db.sessions.next) rfl })
  | .sessionLink id refreshToken now, db =>
    (.ok (), { db with sessions := db.sessions.update id (UserSession.link refreshToken now) })
  | .sessionOfToken user refreshToken, db =>
    (.ok ((db.sessions.docs.find? fun s =>
      s.user == user && s.refreshToken == some refreshToken).map (·.id)), db)
  | .sessionRevoked id user, db =>
    (.ok ((db.sessions.get? id).any fun s => user.all (· == s.user) && s.revokedAt.isSome), db)
  | .sessionRevoke id user now, db =>
    (.ok (), { db with
      sessions := db.sessions.modify (fun s => s.id == id && s.user == user)
        (UserSession.revoke now) })
  | .sessionStepUp id user, db =>
    (.ok (((db.sessions.get? id).filter fun s => s.user == user && s.revokedAt.isNone).map
      (·.stepUpRequired)), db)
  | .refreshCreate draft, db =>
    if db.refreshTokens.docs.any (·.token == draft.token) then (.error .duplicateKey, db)
    else (.ok (draft.record db.refreshTokens.next),
      { db with refreshTokens :=
        db.refreshTokens.insert (draft.record db.refreshTokens.next) rfl })
  | .refreshConsume tokenLookup now, db =>
    match db.refreshTokens.docs.find? fun r =>
        tokenLookup.contains r.token && r.revokedAt.isNone && decide (now < r.expiresAt) with
    | some r => (.ok (some ((RefreshTokenRecord.revoke now).run r)),
      { db with refreshTokens := db.refreshTokens.update r.id (RefreshTokenRecord.revoke now) })
    | none => (.ok none, db)
  | .refreshDelete tokenLookup user, db =>
    match db.refreshTokens.docs.find? fun r => tokenLookup.contains r.token && r.user == user with
    | some r => (.ok (), { db with refreshTokens := db.refreshTokens.erase r.id })
    | none => (.ok (), db)

end AuthDb

/-- The collections as a machine. -/
def authMongo : Machine AuthMongo ApiError AuthDb where
  exec := AuthDb.exec
  fault := .database

/-- A function that issues calls one at a time. -/
abbrev AuthM := Prog AuthMongo ApiError

/-- A single call. -/
def authDb (o : AuthOp) : AuthM o.Reply := Prog.perform (S := AuthMongo) o

/-! ## Signing in -/

/-- What the functions read of an HTTP request. -/
structure AuthHttp where
  deviceId : Option String
  userAgent : Option String
  ip : String
  deriving DecidableEq, Repr

/-- `/^[A-Za-z0-9._:-]{1,128}$/` -/
def isDeviceLabel (s : String) : Bool :=
  decide (1 ≤ s.length ∧ s.length ≤ 128) &&
    s.toList.all fun c => c.isAlphanum || "._:-".toList.contains c

/-- Names the session row of the device: the `X-Device-Id` it sends, or a hash. -/
def deviceIdFor (cfg : AuthConfig) (req : AuthHttp) : String :=
  match (req.deviceId.filter (· ≠ "")).filter (isDeviceLabel ·) with
  | some claimed => claimed
  | none => cfg.sha256 ((req.userAgent.filter (· ≠ "")).getD "unknown" ++ ":" ++ req.ip)

def trackSession (cfg : AuthConfig) (user : ObjectId) (req : AuthHttp) (now : Time) :
    AuthM UserSession := do
  let recentFailedLogins : Nat ← authDb (.signalCountFailed req.ip (now - 30 * 60 * 1000))
  let riskScore := if 5 ≤ recentFailedLogins then 80 else 10
  authDb (.sessionTrack {
    user := user
    deviceId := deviceIdFor cfg req
    userAgent := req.userAgent.map fun text => String.ofList (text.toList.take 300)
    ip := req.ip
    riskScore := riskScore
    stepUpRequired := decide (70 ≤ riskScore)
    lastSeenAt := now })

structure TokenPair where
  access_token : String
  refresh_token : String
  deriving DecidableEq, Repr

/-- The claims of both tokens, without their type. -/
def tokenPayload (user : User) (sessionId : Option ObjectId) (typ : TokenType) : AccessTokenClaims where
  _id := user.id
  role := some user.role
  typ := some typ
  sid := sessionId.map .session

def createTokenPair (cfg : AuthConfig) (user : User) (sessionId : Option ObjectId) (now : Time) :
    AuthM TokenPair := do
  let accessId : Nat ← authDb .randomUUID
  let refreshId : Nat ← authDb .randomUUID
  return {
    access_token := cfg.jwt.sign (tokenPayload user sessionId .access) cfg.ACCESS_TOKEN_TTL
      cfg.JWT_SECRET now accessId
    refresh_token := cfg.jwt.sign (tokenPayload user sessionId .refresh) cfg.REFRESH_TOKEN_TTL
      cfg.REFRESH_SECRET now refreshId }

/-- The row of a refresh token holds its digest. -/
def createRefreshToken (cfg : AuthConfig) (token : String) (user : ObjectId) (now : Time) :
    AuthM RefreshTokenRecord :=
  authDb (.refreshCreate ⟨cfg.sha256 token, user, now + cfg.REFRESH_TOKEN_TTL⟩)

def tokenLookup (cfg : AuthConfig) (token : String) : List String := [cfg.sha256 token, token]

/-- Creates (or reuses, per device) the session first, so its id can be signed into both tokens. -/
def startSession (cfg : AuthConfig) (user : User) (req : AuthHttp) (now : Time) :
    AuthM (TokenPair × UserSession) := do
  let session ← trackSession cfg user.id req now
  let tokens ← createTokenPair cfg user (some session.id) now
  let savedRefreshToken ← createRefreshToken cfg tokens.refresh_token user.id now
  authDb (.sessionLink session.id savedRefreshToken.id now)
  return (tokens, session)

structure LoginInput where
  email : String
  password : String
  deriving DecidableEq, Repr

structure LoginResult where
  tokens : TokenPair
  step_up_required : Bool
  deriving DecidableEq, Repr

/-- `AuthService.login`. -/
def login (cfg : AuthConfig) (value : LoginInput) (tenant : String) (req : AuthHttp) (now : Time) :
    AuthM LoginResult := do
  match (← authDb (.userFindByEmail value.email) : Option User) with
  | none =>
    authDb (.signalCreate ⟨.loginFailed, .medium, none, tenant, req.ip, now⟩)
    throw CustomeErrorHandler.wrongCredentials
  | some user =>
    if ¬ cfg.compare value.password user.password then
      authDb (.signalCreate ⟨.loginFailed, .medium, some user.id, tenant, req.ip, now⟩)
      throw CustomeErrorHandler.wrongCredentials
    else
      let (tokens, session) ← startSession cfg user req now
      authDb (.signalCreate ⟨.loginSucceeded, if session.stepUpRequired then .medium else .info,
        some user.id, tenant, req.ip, now⟩)
      return ⟨tokens, session.stepUpRequired⟩

/-- Who may sign up for a tenant. -/
def assertSelfSignupAllowed (cfg : AuthConfig) (tenantKey : String) : AuthM Unit := do
  let tenant : Option SignupTenant ← authDb (.tenantFindOne tenantKey)
  let implicitDefault := tenant.isNone && tenantKey == cfg.DEFAULT_TENANT
  let open' := tenant.any fun t => t.status == .active && t.allowSelfSignup != some false
  if !implicitDefault && !open' then
    throw (CustomeErrorHandler.forbidden "Registration is not available for this store")
  return ()

structure RegisterInput where
  name : String
  email : String
  password : String
  deriving DecidableEq, Repr

/-- `AuthService.register`. -/
def register (cfg : AuthConfig) (value : RegisterInput) (tenant : String) (req : AuthHttp)
    (now : Time) : AuthM TokenPair := do
  assertSelfSignupAllowed cfg tenant
  let taken : Bool ← authDb (.userExistsByEmail value.email)
  if taken then throw (CustomeErrorHandler.alreadyExist "This email is already taken.")
  let salt : Nat ← authDb .randomUUID
  let user : User ← authDb (.userCreate
    ⟨value.name, value.email, cfg.hash value.password salt, tenant⟩)
  let (tokens, _) ← startSession cfg user req now
  return tokens

/-! ## Refreshing and signing out -/

def invalidRefreshToken : ApiError := CustomeErrorHandler.unAuthorized "Invalid refresh token"

/-- The session of a refresh token, by its claim, or by the row that holds it. -/
def sessionOf (claims : AccessTokenClaims) (user refreshToken : ObjectId) :
    AuthM (Option ObjectId) :=
  match claims.sid with
  | some (.session id) => return some id
  -- A text that is no id fails to be cast when it is looked up.
  | some .other => throw .database
  | none => authDb (.sessionOfToken user refreshToken)

/-- The end of a rotation, once the session is known not to be signed out. -/
def rotate (cfg : AuthConfig) (user : User) (sessionId : Option ObjectId) (now : Time) :
    AuthM TokenPair := do
  let tokens ← createTokenPair cfg user sessionId now
  let savedRefreshToken ← createRefreshToken cfg tokens.refresh_token user.id now
  sessionId.forM fun id => authDb (.sessionLink id savedRefreshToken.id now)
  return tokens

/-- `AuthService.refresh`. -/
def refresh (cfg : AuthConfig) (refreshTokenValue : String) (now : Time) : AuthM TokenPair :=
  match cfg.jwt.verify refreshTokenValue cfg.REFRESH_SECRET now with
  | none => throw invalidRefreshToken
  | some claims =>
    if claims.typ.any (· != .refresh) then throw invalidRefreshToken
    else do
      -- Rotation: the presented token is revoked atomically, so it can be exchanged exactly once.
      match (← authDb (.refreshConsume (tokenLookup cfg refreshTokenValue) now) :
        Option RefreshTokenRecord) with
      | none => throw invalidRefreshToken
      | some refreshToken =>
        if refreshToken.user ≠ claims._id then throw invalidRefreshToken
        else
          match (← authDb (.userFindById claims._id) : Option User) with
          | none => throw (CustomeErrorHandler.unAuthorized "No user found!")
          | some user =>
            let sessionId ← sessionOf claims user.id refreshToken.id
            match sessionId with
            | none => rotate cfg user none now
            | some id =>
              -- A signed-out session cannot be revived with a token that leaked or was kept.
              let revoked : Bool ← authDb (.sessionRevoked id none)
              if revoked then throw invalidRefreshToken
              else rotate cfg user (some id) now

/-- Who an authenticated request acts for. -/
structure AuthContext where
  user : ObjectId
  role : Role
  email : String
  name : String
  tenant : String
  sessionId : Option ObjectId
  deriving DecidableEq, Repr

/-- `Promise.all` of two calls, with the order in which the database takes them. -/
def both {α β : Type} (leftFirst : Bool) (p : AuthM α) (q : AuthM β) : AuthM (α × β) :=
  if leftFirst then do
    let a ← p
    let b ← q
    return (a, b)
  else do
    let b ← q
    let a ← p
    return (a, b)

/-- The session a token is bound to, of which the middleware asks whether it is signed out. -/
def revokedSession (claims : AccessTokenClaims) : AuthM Bool :=
  match claims.sid with
  | some (.session id) => authDb (.sessionRevoked id (some claims._id))
  | _ => return false

/-- The `auth` middleware, for the token after `Bearer`. -/
def auth (cfg : AuthConfig) (userFirst : Bool) (token : String) (now : Time) : AuthM AuthContext :=
  match cfg.jwt.verify token cfg.JWT_SECRET now with
  | none => throw (CustomeErrorHandler.unAuthorized "unAuthorized")
  | some claims =>
    if claims.typ.any (· != .access) ∨ claims.sid = some .other then
      throw (CustomeErrorHandler.unAuthorized "unAuthorized")
    else
      let reads : AuthM (Option User × Bool) :=
        both userFirst (authDb (.userFindById claims._id)) (revokedSession claims)
      reads.attempt >>= fun
        | .error _ => throw (CustomeErrorHandler.unAuthorized "unAuthorized")
        | .ok (none, _) =>
          throw (CustomeErrorHandler.unAuthorized "Account is inactive or does not exist")
        | .ok (some user, revoked) =>
          if revoked then throw (CustomeErrorHandler.unAuthorized "Session has been signed out")
          else return {
            user := user.id
            role := user.role
            email := user.email
            name := user.name
            tenant := user.tenant
            sessionId := match claims.sid with
              | some (.session id) => some id
              | _ => none }

/-- The `stepUpAuth` middleware, which runs behind `auth`. A token without a session, or whose session
is gone or revoked, counts as risky. -/
def stepUpAuth (ctx : AuthContext) : AuthM Unit := do
  let session : Option Bool ← match ctx.sessionId with
    | some id => authDb (.sessionStepUp id ctx.user)
    | none => pure none
  if session.getD true then throw (CustomeErrorHandler.forbidden "Step-up authentication required")
  else return ()

/-- `AuthService.logout`. -/
def logout (cfg : AuthConfig) (refreshToken : String) (ctx : AuthContext) (now : Time) : AuthM Unit := do
  authDb (.refreshDelete (tokenLookup cfg refreshToken) ctx.user)
  ctx.sessionId.forM fun id => authDb (.sessionRevoke id ctx.user now)

/-! ## The server -/

/-- A request that concerns sessions, with the time it takes as now. -/
inductive AuthCall where
  | register (value : RegisterInput) (tenant : String) (req : AuthHttp) (now : Time)
  | login (value : LoginInput) (tenant : String) (req : AuthHttp) (now : Time)
  | refresh (token : String) (now : Time)
  /-- a route behind `auth`, with the access token it is sent -/
  | access (token : String) (userFirst : Bool) (now : Time)
  | logout (token : String) (userFirst : Bool) (refreshToken : String) (now : Time)
  deriving DecidableEq

inductive AuthReply where
  | tokens (pair : TokenPair)
  | login (result : LoginResult)
  | access (ctx : AuthContext)
  | signedOut
  deriving DecidableEq, Repr

/-- `CustomeErrorHandler` errors reach the client, any other is a server error. -/
def orServerError {α : Type} (message : String) (p : AuthM α) : AuthM α :=
  p.catching fun
    | .app status text => throw (.app status text)
    | _ => throw (CustomeErrorHandler.serverError message)

/-- The handler of each request. -/
def AuthCall.handler (cfg : AuthConfig) : AuthCall → AuthM AuthReply
  | .register value tenant req now => AuthReply.tokens <$> Ecommerce.register cfg value tenant req now
  | .login value tenant req now =>
    AuthReply.login <$> orServerError "An error occurred while logging in"
      (Ecommerce.login cfg value tenant req now)
  | .refresh token now =>
    AuthReply.tokens <$> (Ecommerce.refresh cfg token now).catching fun _ => throw invalidRefreshToken
  | .access token userFirst now => AuthReply.access <$> auth cfg userFirst token now
  | .logout token userFirst refreshToken now => do
    let ctx ← auth cfg userFirst token now
    (Ecommerce.logout cfg refreshToken ctx now).catching
      fun _ => throw (CustomeErrorHandler.serverError "Something went wrong in the database")
    return .signedOut

/-- The requests as a system of interleaved handlers. -/
def authServer (cfg : AuthConfig) : System AuthMongo ApiError AuthReply AuthDb AuthCall where
  machine := authMongo
  code := AuthCall.handler cfg

/-- The server at work on its sessions. -/
abbrev AuthPool := Pool AuthMongo ApiError AuthReply AuthDb AuthCall

end Ecommerce
