import Ecommerce.Effect.Pool
import Ecommerce.Model.Database

/-!
# Idempotent checkouts

`middlewares/idempotency.ts` in front of the checkout route, with the process-local lock of
`infra/locks/distributedLock.ts` that the route's handler takes, and the `CheckoutAttempt` of the
frontend that chooses the keys.

What the checkout itself answers under the lock is part of the request. The clock is part of the
state, and a history that no call reads records the runs of the handler.
-/

namespace Ecommerce

open Effect

namespace CustomeErrorHandler

def toManyRequest (message : String) : ApiError := .app 429 message

end CustomeErrorHandler

/-! ## Documents -/

/-- The envelope that `successResponse` and `errorResponse` send. -/
inductive Payload where
  | success (message data : String)
  | error (message code : String)
  deriving DecidableEq, Repr

/-- A response: its status and its body. -/
structure Answer where
  statusCode : Nat
  payload : Option Payload
  deriving DecidableEq, Repr

inductive KeyStatus where
  | processing | completed | failed
  deriving DecidableEq, Repr

structure IdempotencyKeyRecord where
  id : ObjectId
  key : String
  user : ObjectId
  route : String
  requestHash : String
  response : Option Payload
  statusCode : Option Nat
  status : KeyStatus
  createdAt : Time
  expiresAt : Time
  deriving DecidableEq, Repr

instance : Keyed IdempotencyKeyRecord := ⟨IdempotencyKeyRecord.id⟩

/-- An entry of the lock table of one process. -/
structure Lock where
  process : Nat
  key : String
  token : Nat
  expiresAt : Time
  deriving DecidableEq, Repr

/-- A run of the handler, under the record that let it start, with the outcome that was persisted. -/
structure HandlerRun where
  record : ObjectId
  key : String
  user : ObjectId
  route : String
  requestHash : String
  answer : Option Answer
  deriving DecidableEq, Repr

/-- The key records and the lock tables, with the time. -/
structure KeyDb where
  clock : Time
  keys : Collection IdempotencyKeyRecord
  locks : List Lock
  nextToken : Nat
  /-- History: the runs of the handler, oldest first. -/
  runs : List HandlerRun
  deriving DecidableEq

instance : EmptyCollection KeyDb := ⟨⟨0, ∅, [], 0, []⟩⟩

/-! ## Calls -/

/-- What the middleware passes to `IdempotencyKey.create`. -/
structure KeyDraft where
  key : String
  user : ObjectId
  route : String
  requestHash : String
  ttl : ℤ
  deriving DecidableEq, Repr

def KeyDraft.record (d : KeyDraft) (id : ObjectId) (now : Time) : IdempotencyKeyRecord where
  id := id
  key := d.key
  user := d.user
  route := d.route
  requestHash := d.requestHash
  response := none
  statusCode := none
  status := .processing
  createdAt := now
  expiresAt := now + d.ttl

theorem KeyDraft.key_record (d : KeyDraft) (id : ObjectId) (now : Time) :
    Keyed.key (d.record id now) = id := rfl

def KeyDraft.run (d : KeyDraft) (id : ObjectId) : HandlerRun :=
  ⟨id, d.key, d.user, d.route, d.requestHash, none⟩

/-- The individual calls, with their arguments. -/
inductive KeyOp where
  /-- `IdempotencyKey.findOne({ key, user, route })` -/
  | keyFindOne (key : String) (user : ObjectId) (route : String)
  /-- `Date.now()` -/
  | dateNow
  /-- `IdempotencyKey.deleteOne({ _id, status: "processing" })` -/
  | keyDeleteProcessing (id : ObjectId)
  /-- `IdempotencyKey.create`, after which the handler runs -/
  | keyCreate (draft : KeyDraft)
  /-- `record.deleteOne()` -/
  | keyDelete (id : ObjectId) (outcome : Answer)
  /-- `Object.assign(record, { response, statusCode, status: "completed" }).save()` -/
  | keySave (id : ObjectId) (outcome : Answer)
  /-- `acquireLock`, in one process -/
  | acquireLock (process : Nat) (key : String) (ttlMs : ℤ)
  /-- `releaseLock`, in one process -/
  | releaseLock (process : Nat) (key : String) (token : Nat)
  /-- Time passes. -/
  | tick (ms : Nat)
  deriving DecidableEq

/-- What each call replies. -/
def KeyOp.Reply : KeyOp → Type
  | keyFindOne _ _ _ => Option IdempotencyKeyRecord
  | dateNow => Time
  | keyDeleteProcessing _ => Unit
  | keyCreate _ => IdempotencyKeyRecord
  | keyDelete _ _ => Unit
  | keySave _ _ => Unit
  | acquireLock _ _ _ => Option Nat
  | releaseLock _ _ _ => Bool
  | tick _ => Unit

/-- The calls as a signature. -/
def KeyMongo : Signature := ⟨KeyOp, KeyOp.Reply⟩

instance : DecidableEq KeyMongo.Op := inferInstanceAs (DecidableEq KeyOp)

/-- The key that the unique index of the collection is on. -/
def IdempotencyKeyRecord.isFor (r : IdempotencyKeyRecord) (key : String) (user : ObjectId)
    (route : String) : Bool :=
  r.key == key && r.user == user && r.route == route

def IdempotencyKeyRecord.complete (outcome : Answer) : Patch IdempotencyKeyRecord :=
  ⟨fun r => { r with
    response := outcome.payload, statusCode := some outcome.statusCode, status := .completed },
    fun _ => rfl⟩

/-- The run under the record has ended with the outcome. -/
def HandlerRun.settle (id : ObjectId) (outcome : Answer) (run : HandlerRun) : HandlerRun :=
  if run.record = id then { run with answer := some outcome } else run

namespace KeyDb

/-- The unexpired lock of a process. -/
def lockOf (db : KeyDb) (process : Nat) (key : String) : Option Lock :=
  db.locks.find? fun l => l.process == process && l.key == key

/-- The effect and the reply of each call. -/
def exec : (o : KeyOp) → KeyDb → Except ApiError o.Reply × KeyDb
  | .keyFindOne key user route, db => (.ok (db.keys.docs.find? (·.isFor key user route)), db)
  | .dateNow, db => (.ok db.clock, db)
  | .keyDeleteProcessing id, db =>
    match db.keys.get? id with
    | some r =>
      if r.status = .processing then (.ok (), { db with keys := db.keys.erase id }) else (.ok (), db)
    | none => (.ok (), db)
  | .keyCreate d, db =>
    if db.keys.docs.any (·.isFor d.key d.user d.route) then (.error .duplicateKey, db)
    else
      (.ok (d.record db.keys.next db.clock), { db with
        keys := db.keys.insert (d.record db.keys.next db.clock) (d.key_record _ _)
        runs := db.runs ++ [d.run db.keys.next] })
  | .keyDelete id outcome, db =>
    (.ok (), { db with
      keys := db.keys.erase id, runs := db.runs.map (HandlerRun.settle id outcome) })
  | .keySave id outcome, db =>
    match db.keys.get? id with
    | some _ => (.ok (), { db with
        keys := db.keys.update id (IdempotencyKeyRecord.complete outcome)
        runs := db.runs.map (HandlerRun.settle id outcome) })
    | none => (.error .database, db)
  | .acquireLock process key ttlMs, db =>
    match db.lockOf process key with
    | some l =>
      if db.clock < l.expiresAt then (.ok none, db)
      else (.ok (some db.nextToken), { db with
        locks := ⟨process, key, db.nextToken, db.clock + ttlMs⟩ ::
          db.locks.filter fun l => !(l.process == process && l.key == key)
        nextToken := db.nextToken + 1 })
    | none => (.ok (some db.nextToken), { db with
        locks := ⟨process, key, db.nextToken, db.clock + ttlMs⟩ :: db.locks
        nextToken := db.nextToken + 1 })
  | .releaseLock process key token, db =>
    match db.lockOf process key with
    | some l =>
      if l.token = token then (.ok true, { db with
        locks := db.locks.filter fun l => !(l.process == process && l.key == key) })
      else (.ok false, db)
    | none => (.ok false, db)
  | .tick ms, db => (.ok (), { db with clock := db.clock + ms })

end KeyDb

/-- The key records as a machine. -/
def keyMongo : Machine KeyMongo ApiError KeyDb where
  exec := KeyDb.exec
  fault := .database

/-- A function that issues calls one at a time. -/
abbrev KeyM := Prog KeyMongo ApiError

/-- A single call. -/
def keyDb (o : KeyOp) : KeyM o.Reply := Prog.perform (S := KeyMongo) o

/-! ## The route -/

/-- A "processing" key older than this is treated as abandoned. -/
def STALE_PROCESSING_MS : ℤ := 2 * 60 * 1000

structure IdempotencyConfig where
  IDEMPOTENCY_TTL_HOURS : ℤ
  sha256 : String → String

/-- An outcome of a handler; HTTP knows no status below 100. -/
abbrev Outcome := { answer : Answer // 100 ≤ answer.statusCode }

/-- A request to the checkout route, and what comes of it where the code is not modelled: the process
that serves it, the answer when validation fails, and what the checkout answers under the lock. -/
structure CheckoutPost where
  key : Option String
  user : ObjectId
  tenant : String
  /-- The body as `JSON.stringify` gives it. -/
  body : String
  process : Nat
  invalid : Option Outcome
  outcome : Outcome
  deriving DecidableEq

/-- `req.route.path`. -/
def CHECKOUT_ROUTE : String := "/orders/checkout"

/-- The key of the checkout lock, and the time it is taken for. -/
def CheckoutPost.lock (post : CheckoutPost) : String :=
  "checkout:" ++ post.tenant ++ ":" ++ toString post.user

def CHECKOUT_LOCK_MS : ℤ := 30000

/-- `LockedError`, as the error handler answers it. -/
def lockedAnswer : Outcome := ⟨⟨423, some (.error "Resource is locked" "LOCKED")⟩, by decide⟩

/-- `OrderController.checkout` with the error handler: the request is validated, then served under the
lock. -/
def checkoutHandler (post : CheckoutPost) : KeyM Outcome :=
  match post.invalid with
  | some answer => return answer
  | none => do
    match (← keyDb (.acquireLock post.process post.lock CHECKOUT_LOCK_MS) : Option Nat) with
    | none => return lockedAnswer
    | some token => do
      let _released : Bool ← keyDb (.releaseLock post.process post.lock token)
      return post.outcome

/-- What the middleware comes to before the handler: a stored outcome, or a record to run under. -/
inductive Entry where
  | replay (answer : Answer)
  | begin (record : IdempotencyKeyRecord)

section Middleware

variable (cfg : IdempotencyConfig) (key : String) (post : CheckoutPost)

def CheckoutPost.draft : KeyDraft where
  key := key
  user := post.user
  route := CHECKOUT_ROUTE
  requestHash := cfg.sha256 post.body
  ttl := cfg.IDEMPOTENCY_TTL_HOURS * 60 * 60 * 1000

def createKey : KeyM Entry := do
  let record : IdempotencyKeyRecord ← keyDb (.keyCreate (post.draft cfg key))
  return .begin record

/-- `res.status(existing.statusCode || 200).json(existing.response)`. -/
def IdempotencyKeyRecord.replay (existing : IdempotencyKeyRecord) : Answer where
  statusCode := (existing.statusCode.filter (· ≠ 0)).getD 200
  payload := existing.response

/-- What is done about a record that is there already. -/
def enterExisting (existing : IdempotencyKeyRecord) : KeyM Entry :=
  if existing.requestHash ≠ cfg.sha256 post.body then
    throw (CustomeErrorHandler.badRequest "Idempotency key reused with a different payload")
  else if existing.status = .completed then
    return .replay existing.replay
  else do
    let now : Time ← keyDb .dateNow
    if now - existing.createdAt < STALE_PROCESSING_MS then
      throw (CustomeErrorHandler.toManyRequest "Request with this idempotency key is still processing")
    else do
      keyDb (.keyDeleteProcessing existing.id)
      createKey cfg key post

/-- A write that the unique index rejects answers 429. -/
def orDuplicate (e : ApiError) : KeyM Entry :=
  if e = .duplicateKey then throw (CustomeErrorHandler.toManyRequest "Duplicate idempotency request")
  else throw e

/-- The `try` block of the middleware, up to `next()`. -/
def enter : KeyM Entry :=
  Prog.catching (do
    match (← keyDb (.keyFindOne key post.user CHECKOUT_ROUTE) : Option IdempotencyKeyRecord) with
    | some existing => enterExisting cfg key post existing
    | none => createKey cfg key post) orDuplicate

/-- The `res.json` of the middleware: the outcome is persisted before the response leaves. A failure
is logged. -/
def persist (record : ObjectId) (outcome : Answer) : KeyM Unit :=
  (if 500 ≤ outcome.statusCode then keyDb (.keyDelete record outcome)
    else keyDb (.keySave record outcome) : KeyM Unit).catching fun _ => return ()

/-- `next()`: the handler, whose answer passes through `persist`. -/
def runHandler (record : ObjectId) : KeyM Answer := do
  let outcome : Outcome ← checkoutHandler post
  persist record outcome.1
  return outcome.1

/-- `idempotency`, and the handler behind it. -/
def idempotency : KeyM Answer :=
  match post.key with
  | none => throw (CustomeErrorHandler.badRequest "A valid Idempotency-Key header is required")
  | some key =>
    if key.length < 16 ∨ 120 < key.length then
      throw (CustomeErrorHandler.badRequest "A valid Idempotency-Key header is required")
    else do
      match ← enter cfg key post with
      | .replay answer => return answer
      | .begin record => runHandler post record.id

end Middleware

/-! ## The server -/

/-- What happens at the route: a request, or that time passes. -/
inductive KeyRequest where
  | checkout (post : CheckoutPost)
  | tick (ms : Nat)
  deriving DecidableEq

/-- The code behind each; only requests are answered. -/
def KeyRequest.code (cfg : IdempotencyConfig) : KeyRequest → KeyM (Option Answer)
  | .checkout post => some <$> idempotency cfg post
  | .tick ms => do
    keyDb (.tick ms)
    return none

/-- The route as a system of interleaved requests. -/
def keyServer (cfg : IdempotencyConfig) :
    System KeyMongo ApiError (Option Answer) KeyDb KeyRequest where
  machine := keyMongo
  code := KeyRequest.code cfg

/-- The route at work. -/
abbrev KeyPool := Pool KeyMongo ApiError (Option Answer) KeyDb KeyRequest

/-- A configuration to try the route on, whose hash function keeps the text it hashes. -/
def sampleIdempotency : IdempotencyConfig := ⟨24, id⟩

/-- A checkout of user 1 that succeeds when it is let under the lock. -/
def samplePost (key : String) : CheckoutPost where
  key := some key
  user := 1
  tenant := "t"
  body := "form"
  process := 0
  invalid := none
  outcome := ⟨⟨201, some (.success "Order created" "order")⟩, by decide⟩

/-! ## The client -/

/-- `toAppError`: the status that the error handler answers with. -/
def ApiError.status : ApiError → Nat
  | .app status _ => status
  | .validation => 422
  | .duplicateKey => 409
  | .version => 409
  | .database => 500

/-- The status that the client sees. -/
def statusOf : Except ApiError (Option Answer) → Nat
  | .ok (some answer) => answer.statusCode
  | .ok none => 200
  | .error e => e.status

/-- The numbered results of `crypto.randomUUID()`. -/
structure KeySource where
  randomUUID : Nat → String
  length : ∀ n, (randomUUID n).length = 36

namespace KeySource

variable (source : KeySource)

/-- `newKey`. -/
def newKey (n : Nat) : String := "chk-" ++ source.randomUUID n

/-- The results drawn so far do not repeat. -/
def Distinct (drawn : Nat) : Prop :=
  ∀ m n, m < drawn → n < drawn → source.randomUUID m = source.randomUUID n → m = n

end KeySource

/-- Two identifiers, to try the client with. -/
def sampleKeys : KeySource where
  randomUUID n := if n = 0 then "0f8fad5b-d9cb-469f-a165-70867728950e"
    else "7c9e6679-7425-40de-944b-e07fc1f90ae7"
  length n := by split <;> rfl

/-- `CheckoutAttempt`, with the number of the next key. -/
structure CheckoutAttempt where
  key : String
  body : Option String
  drawn : Nat
  deriving DecidableEq, Repr

namespace CheckoutAttempt

variable (source : KeySource)

def new : CheckoutAttempt := ⟨source.newKey 0, none, 1⟩

def reset (attempt : CheckoutAttempt) : CheckoutAttempt :=
  ⟨source.newKey attempt.drawn, none, attempt.drawn + 1⟩

/-- The attempt after `keyFor`, whose `key` it returns; the body is serialized. -/
def keyFor (attempt : CheckoutAttempt) (body : String) : CheckoutAttempt :=
  if attempt.body.any (· ≠ body) then
    ⟨source.newKey attempt.drawn, some body, attempt.drawn + 1⟩
  else { attempt with body := some body }

/-- Whether the next submit may reuse the key. -/
def retryable (status : Nat) : Bool := status == 0 || status == 423 || status == 429 || 500 ≤ status

def failed (attempt : CheckoutAttempt) (status : Nat) : CheckoutAttempt :=
  if retryable status then attempt else attempt.reset source

/-- What `CheckoutComponent` does with the answer: `reset` on success, else `failed`. -/
def answered (attempt : CheckoutAttempt) (status : Nat) : CheckoutAttempt :=
  if 200 ≤ status ∧ status < 300 then attempt.reset source else attempt.failed source status

end CheckoutAttempt
end Ecommerce
