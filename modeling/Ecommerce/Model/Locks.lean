import Ecommerce.Model.Cache
import Ecommerce.Model.Database

/-!
# Locks of one process

`infra/locks/distributedLock.ts`. The clock is part of the state, and so are the tokens drawn so far and
the bodies that `withDistributedLock` has started.
-/

namespace Ecommerce

/-- What `locks` stores under a key. -/
structure LockEntry where
  token : String
  expiresAt : Time
  deriving DecidableEq, Repr

/-- A run of `fn`: what the call of `withDistributedLock` keeps while it awaits it. That the lock was found
free at `checkedAt` and expires at `expiresAt` is history. -/
structure LockedBody where
  key : String
  token : String
  checkedAt : Time
  expiresAt : Time
  running : Bool
  deriving DecidableEq, Repr

/-- The lock table of a process. -/
structure LockTable where
  clock : Time
  locks : JsMap String LockEntry
  /-- How many tokens were drawn. -/
  drawn : Nat
  bodies : List LockedBody

namespace LockTable

def new : LockTable := ⟨0, JsMap.empty, 0, []⟩

/-- `new LockedError()` -/
def lockedError : ApiError := .app 423 "Resource is locked"

section

variable (randomUUID : Nat → String)

/-- `acquireLock`, whose second reading of the clock comes `waited` after the first. -/
def acquireLock (key : String) (ttlMs : ℤ) (waited : Nat) (s : LockTable) : Option String × LockTable :=
  let existing := s.locks.get key
  if existing.any fun existing => existing.expiresAt > s.clock then (none, s)
  else
    let token := randomUUID s.drawn
    let clock := s.clock + waited
    (some token,
      { s with clock := clock, locks := s.locks.set key ⟨token, clock + ttlMs⟩, drawn := s.drawn + 1 })

/-- `releaseLock` -/
def releaseLock (key token : String) (s : LockTable) : Bool × LockTable :=
  if (s.locks.get key).map LockEntry.token ≠ some token then (false, s)
  else (true, { s with locks := s.locks.delete key })

/-- `withDistributedLock`, until it awaits `fn`. -/
def withDistributedLock (key : String) (ttlMs : ℤ) (waited : Nat) (s : LockTable) :
    Except ApiError Unit × LockTable :=
  match s.acquireLock randomUUID key ttlMs waited with
  | (none, t) => (.error lockedError, t)
  | (some token, t) =>
    -- `if (!token)` takes an empty token for a failure too.
    if token = "" then (.error lockedError, t)
    else (.ok (), { t with bodies := t.bodies ++ [⟨key, token, s.clock, t.clock + ttlMs, true⟩] })

end

/-- `withDistributedLock`, from when `fn` has returned or thrown. -/
def settle (n : Nat) (body : LockedBody) (s : LockTable) : LockTable :=
  let t := (s.releaseLock body.key body.token).2
  { t with bodies := t.bodies.set n { body with running := false } }

end LockTable

inductive LockEvent where
  /-- Time passes. -/
  | tick (ms : Nat)
  | acquireLock (key : String) (ttlMs : ℤ) (waited : Nat)
  | releaseLock (key token : String)
  | withDistributedLock (key : String) (ttlMs : ℤ) (waited : Nat)
  /-- The body of a call of `withDistributedLock` is done. -/
  | settle (n : Nat)
  deriving DecidableEq, Repr

namespace LockEvent

/-- What an event leaves. A token of `withDistributedLock` does not leave that function, so no other call
passes it, and each body is done once. -/
def step (randomUUID : Nat → String) (s : LockTable) : LockEvent → Option LockTable
  | tick ms => some { s with clock := s.clock + ms }
  | acquireLock key ttlMs waited => some (s.acquireLock randomUUID key ttlMs waited).2
  | releaseLock key token =>
    if token ∈ s.bodies.map LockedBody.token then none else some (s.releaseLock key token).2
  | withDistributedLock key ttlMs waited => some (s.withDistributedLock randomUUID key ttlMs waited).2
  | settle n => (s.bodies[n]?.filter LockedBody.running).map fun body => s.settle n body

/-- The call of `acquireLock` that an event makes. -/
def acquires : LockEvent → Option (String × ℤ × Nat)
  | acquireLock key ttlMs waited => some (key, ttlMs, waited)
  | withDistributedLock key ttlMs waited => some (key, ttlMs, waited)
  | _ => none

/-- The call of `releaseLock` that an event makes. -/
def releases (s : LockTable) : LockEvent → Option (String × String)
  | releaseLock key token => some (key, token)
  | settle n => s.bodies[n]?.map fun body => (body.key, body.token)
  | _ => none

end LockEvent

end Ecommerce
