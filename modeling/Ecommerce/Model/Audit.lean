import Ecommerce.Chain.Linked
import Ecommerce.Model.JavaScript
import Ecommerce.Model.Database

/-!
# The tamper-proof audit log

`utils/auditLogger.ts`: `appendAuditEntry`, which reads the newest entry and creates the next one, and
`writeTamperProofAudit`, which runs one call of a process after the other and tries again after a
duplicate key. SHA-256 and `JSON.stringify` are parameters, and the metadata is any type.

Each process is a queue of calls. What runs in between is one database operation of the first of
them. The number of a call and the outcomes are a history that no call reads.
-/

namespace Ecommerce

open Chain

variable {M : Type}

/-! ## Documents -/

/-- What is hashed, in the order of its keys. -/
structure AuditBody (M : Type) where
  sequence : Nat
  action : String
  actor : Option ObjectId
  tenant : String
  requestId : Option String
  ip : Option String
  metadata : M
  previousHash : String
  deriving DecidableEq, Repr

/-- An entry of the log, with the process and the number of the call that wrote it. -/
structure AuditEntry (M : Type) where
  body : AuditBody M
  hash : String
  createdAt : Time
  writer : Nat × Nat
  deriving DecidableEq, Repr

structure AuditConfig (M : Type) where
  /-- `crypto.createHash("sha256").update(text).digest("hex")`. -/
  sha256 : String → String
  /-- `JSON.stringify` of the body of an entry. -/
  stringify : AuditBody M → String

def AuditConfig.digest (cfg : AuditConfig M) (body : AuditBody M) : String := cfg.sha256 (cfg.stringify body)

/-- The check of the chain that the log is made for. -/
def auditScheme (cfg : AuditConfig M) : Scheme (AuditEntry M) (AuditBody M) String where
  body := AuditEntry.body
  head := AuditEntry.hash
  position := AuditBody.sequence
  previous := AuditBody.previousHash
  digest := cfg.digest
  genesis := "GENESIS"

/-! ## appendAuditEntry -/

/-- The parts of a request that the log records. -/
structure AuditRequest where
  requestId : Option String
  /-- The user's id and tenant. -/
  user : Option (ObjectId × String)
  ip : Option String
  tenant : Option String
  deriving DecidableEq, Repr

/-- The arguments of `writeTamperProofAudit`. -/
structure AuditCall (M : Type) where
  action : String
  req : AuditRequest
  metadata : M
  deriving DecidableEq, Repr

/-- `AuditLog.findOne().sort("-sequence")`. -/
def newestEntry : List (AuditEntry M) → Option (AuditEntry M)
  | [] => none
  | e :: es =>
    match newestEntry es with
    | some b => if b.body.sequence < e.body.sequence then some e else some b
    | none => some e

/-- The body of the entry after `last`. -/
def nextAuditBody (last : Option (AuditEntry M)) (call : AuditCall M) : AuditBody M where
  sequence := (last.elim 0 fun e => e.body.sequence) + 1
  action := call.action
  actor := call.req.user.map (·.1)
  tenant := orElseText call.req.tenant (orElseText (call.req.user.map (·.2)) "default")
  requestId := call.req.requestId.filter (· ≠ "")
  ip := call.req.ip.filter (· ≠ "")
  metadata := call.metadata
  previousHash := orElseText (last.map (·.hash)) "GENESIS"

/-- `AuditLog.create`, under the unique indexes on the sequence and on the hash. -/
def createAuditEntry (log : List (AuditEntry M)) (e : AuditEntry M) : Except ApiError (List (AuditEntry M)) :=
  if log.any fun d => d.body.sequence == e.body.sequence || d.hash == e.hash then .error .duplicateKey
  else .ok (log ++ [e])

/-! ## writeTamperProofAudit -/

def MAX_ATTEMPTS : Nat := 5

/-- Where a call stands: before it reads the newest entry, or before it creates the one after it. -/
inductive AuditPhase (M : Type) where
  | finding
  | creating (last : Option (AuditEntry M))
  deriving DecidableEq, Repr

/-- A call whose turn has come. -/
structure RunningAudit (M : Type) where
  number : Nat
  call : AuditCall M
  attempt : Nat
  phase : AuditPhase M
  deriving DecidableEq, Repr

structure AuditProcess (M : Type) where
  /-- The number of calls so far. -/
  calls : Nat
  running : Option (RunningAudit M)
  /-- The calls that wait for the promise chain. -/
  waiting : List (Nat × AuditCall M)
  outcomes : List (Nat × Except ApiError Unit)

def AuditProcess.initial : AuditProcess M := ⟨0, none, [], []⟩

structure AuditState (M : Type) where
  log : List (AuditEntry M)
  processes : Nat → AuditProcess M

def AuditState.initial : AuditState M := ⟨[], fun _ => .initial⟩

def AuditState.setProcess (s : AuditState M) (p : Nat) (P : AuditProcess M) : AuditState M :=
  { s with processes := fun q => if q = p then P else s.processes q }

/-- The call whose turn it is, and those behind it. -/
def AuditProcess.next? (P : AuditProcess M) : Option (RunningAudit M × List (Nat × AuditCall M)) :=
  match P.running with
  | some r => some (r, P.waiting)
  | none =>
    match P.waiting with
    | [] => none
    | (n, call) :: rest => some (⟨n, call, 1, .finding⟩, rest)

/-- The promise of a call settles, and the chain goes on whatever the outcome is. -/
def AuditProcess.settle (P : AuditProcess M) (r : RunningAudit M) (rest : List (Nat × AuditCall M))
    (outcome : Except ApiError Unit) : AuditProcess M :=
  { P with running := none, waiting := rest, outcomes := P.outcomes ++ [(r.number, outcome)] }

/-- The `catch` around `appendAuditEntry`. -/
def AuditProcess.caught (P : AuditProcess M) (r : RunningAudit M) (rest : List (Nat × AuditCall M))
    (err : ApiError) : AuditProcess M :=
  if err ≠ .duplicateKey ∨ MAX_ATTEMPTS ≤ r.attempt then P.settle r rest (.error err)
  else { P with running := some { r with attempt := r.attempt + 1, phase := .finding }, waiting := rest }

inductive AuditAction (M : Type) where
  /-- A process calls `writeTamperProofAudit`. -/
  | call (process : Nat) (call : AuditCall M)
  /-- The next database operation of a process goes through. -/
  | step (process : Nat) (now : Time)
  /-- The next database operation of a process fails, with another error than a duplicate key. -/
  | fault (process : Nat)
  /-- A process ends, with all its calls. A new one takes its place. -/
  | restart (process : Nat)

/-- The entry that a running call creates after `last`. -/
def RunningAudit.entry (cfg : AuditConfig M) (process : Nat) (now : Time) (r : RunningAudit M)
    (last : Option (AuditEntry M)) : AuditEntry M where
  body := nextAuditBody last r.call
  hash := cfg.digest (nextAuditBody last r.call)
  createdAt := now
  writer := (process, r.number)

/-- What one action does, if it can happen. -/
def auditStep (cfg : AuditConfig M) (s : AuditState M) : AuditAction M → Option (AuditState M)
  | .call p call =>
    let P := s.processes p
    some (s.setProcess p { P with calls := P.calls + 1, waiting := P.waiting ++ [(P.calls, call)] })
  | .step p now =>
    let P := s.processes p
    P.next?.map fun (r, rest) =>
      match r.phase with
      | .finding =>
        s.setProcess p { P with running := some { r with phase := .creating (newestEntry s.log) }, waiting := rest }
      | .creating last =>
        match createAuditEntry s.log (r.entry cfg p now last) with
        | .ok log => { s.setProcess p (P.settle r rest (.ok ())) with log }
        | .error err => s.setProcess p (P.caught r rest err)
  | .fault p =>
    let P := s.processes p
    P.next?.map fun (r, rest) => s.setProcess p (P.caught r rest .database)
  | .restart p =>
    let P := s.processes p
    some (s.setProcess p { P with running := none, waiting := [] })

/-- The state after a list of actions. -/
def auditRun (cfg : AuditConfig M) (s : AuditState M) (as : List (AuditAction M)) : Option (AuditState M) :=
  as.foldlM (auditStep cfg) s

end Ecommerce
