import Ecommerce.Model.Cache

/-!
# Concurrent event streams

`infra/sse/streamLimiter.ts`, from which `PlatformController.stream` takes a slot for each stream. The
functions that `acquire` returns are closures: the state holds what each of them captured, in the order
in which they were returned.
-/

namespace Ecommerce

structure StreamLimits where
  perUser : Nat
  global : Nat
  deriving DecidableEq, Repr

/-- A release function: the user and the flag that it captures. -/
structure ReleaseFn where
  userId : String
  released : Bool
  deriving DecidableEq, Repr

/-- A `StreamLimiter`, with the release functions that it has returned. -/
structure StreamLimiter where
  perUser : JsMap String ℤ
  total : ℤ
  releases : List ReleaseFn

namespace StreamLimiter

/-- `new StreamLimiter(limits)` -/
def new : StreamLimiter := ⟨JsMap.empty, 0, []⟩

/-- `acquire`. The release function is given by its number. -/
def acquire (limits : StreamLimits) (userId : String) (s : StreamLimiter) : Option Nat × StreamLimiter :=
  let current := (s.perUser.get userId).getD 0
  if current ≥ limits.perUser ∨ s.total ≥ limits.global then (none, s)
  else
    (some s.releases.length,
      { perUser := s.perUser.set userId (current + 1)
        total := s.total + 1
        releases := s.releases ++ [⟨userId, false⟩] })

/-- A call of release function `k`. -/
def release (k : Nat) (fn : ReleaseFn) (s : StreamLimiter) : StreamLimiter :=
  if fn.released then s
  else
    let remaining := (s.perUser.get fn.userId).getD 1 - 1
    { perUser :=
        if remaining > 0 then s.perUser.set fn.userId remaining else s.perUser.delete fn.userId
      total := s.total - 1
      releases := s.releases.set k { fn with released := true } }

/-- `stats` -/
def stats (s : StreamLimiter) : ℤ × Nat := (s.total, s.perUser.size)

/-- `countFor` -/
def countFor (userId : String) (s : StreamLimiter) : ℤ := (s.perUser.get userId).getD 0

end StreamLimiter

/-- A call of `acquire`, or of one of the functions that it has returned. -/
inductive StreamCall where
  | acquire (userId : String)
  | release (k : Nat)
  deriving DecidableEq, Repr

/-- What a call leaves. A function that was not returned cannot be called. -/
def StreamCall.step (limits : StreamLimits) (s : StreamLimiter) : StreamCall → Option StreamLimiter
  | .acquire userId => some (s.acquire limits userId).2
  | .release k => s.releases[k]?.map fun fn => s.release k fn

end Ecommerce
