import Mathlib.Control.Basic

/-!
# Programs over atomic operations

A program is a tree of operations and replies. Each operation is atomic and its reply may be
an exception; what lies between two operations is pure. The same tree can be run alone, run
with failing operations, or interleaved with other programs one operation at a time.
-/

namespace Effect

universe u

/-- The operations a program may issue, each with the type of its reply. -/
structure Signature where
  Op : Type u
  Reply : Op → Type

/-- A program that ends with a result, or issues an operation and goes on with the reply. -/
inductive Prog (S : Signature.{u}) (ε α : Type) : Type u where
  | done (r : Except ε α)
  | call (o : S.Op) (k : Except ε (S.Reply o) → Prog S ε α)

namespace Prog

variable {S : Signature.{u}} {ε α β γ : Type}

/-- Sequencing. An exception skips what follows. -/
def bind : Prog S ε α → (α → Prog S ε β) → Prog S ε β
  | .done (.ok a), f => f a
  | .done (.error e), _ => .done (.error e)
  | .call o k, f => .call o fun r => (k r).bind f

/-- `try p catch h`. -/
def catching : Prog S ε α → (ε → Prog S ε α) → Prog S ε α
  | .done (.ok a), _ => .done (.ok a)
  | .done (.error e), h => h e
  | .call o k, h => .call o fun r => (k r).catching h

/-- The outcome of `p` as a value. -/
def attempt : Prog S ε α → Prog S ε (Except ε α)
  | .done r => .done (.ok r)
  | .call o k => .call o fun r => (k r).attempt

/-- A single operation. -/
def perform (o : S.Op) : Prog S ε (S.Reply o) := .call o .done

instance : Monad (Prog S ε) where
  pure a := .done (.ok a)
  bind := bind

instance : MonadExceptOf ε (Prog S ε) where
  throw e := .done (.error e)
  tryCatch := catching

theorem bind_def (p : Prog S ε α) (f : α → Prog S ε β) : p >>= f = p.bind f := rfl

@[simp] theorem bind_ok (a : α) (f : α → Prog S ε β) : (done (.ok a) : Prog S ε α).bind f = f a :=
  rfl

@[simp] theorem bind_error (e : ε) (f : α → Prog S ε β) :
    (done (.error e) : Prog S ε α).bind f = .done (.error e) := rfl

@[simp] theorem bind_call (o : S.Op) (k : Except ε (S.Reply o) → Prog S ε α)
    (f : α → Prog S ε β) : (call o k).bind f = .call o fun r => (k r).bind f := rfl

theorem bind_pure (p : Prog S ε α) : p.bind (fun a => .done (.ok a)) = p := by
  induction p with
  | done r => cases r <;> rfl
  | call o k ih => simp only [bind_call, ih]

theorem bind_assoc (p : Prog S ε α) (f : α → Prog S ε β) (g : β → Prog S ε γ) :
    (p.bind f).bind g = p.bind fun a => (f a).bind g := by
  induction p with
  | done r => cases r <;> rfl
  | call o k ih => simp only [bind_call, ih]

end Prog
end Effect
