import Ecommerce.Effect.Prog

/-!
# Running a program on a store

A machine gives each operation its atomic effect. `eval` runs a program alone. `faulty` turns a
machine into one whose operations fail at scheduled positions, leaving the store as it was, and
`transactional` adds an operation that runs a whole program as one step, or not at all.
-/

namespace Effect

universe u v

/-- The effect of each operation, and the exception raised by one that fails. -/
structure Machine (S : Signature.{u}) (ε : Type) (σ : Type v) where
  exec : (o : S.Op) → σ → Except ε (S.Reply o) × σ
  fault : ε

variable {S : Signature.{u}} {ε α β : Type} {σ : Type v}

namespace Prog

/-- Run a program alone, every operation succeeding. -/
def eval (M : Machine S ε σ) : Prog S ε α → σ → Except ε α × σ
  | .done r, s => (r, s)
  | .call o k, s => (k (M.exec o s).1).eval M (M.exec o s).2

variable (M : Machine S ε σ)

@[simp] theorem eval_done (r : Except ε α) (s : σ) : (done r : Prog S ε α).eval M s = (r, s) := rfl

@[simp] theorem eval_call (o : S.Op) (k : Except ε (S.Reply o) → Prog S ε α) (s : σ) :
    (call o k).eval M s = (k (M.exec o s).1).eval M (M.exec o s).2 := rfl

theorem eval_bind (p : Prog S ε α) (f : α → Prog S ε β) (s : σ) :
    (p.bind f).eval M s =
      match p.eval M s with
      | (.ok a, t) => (f a).eval M t
      | (.error e, t) => (.error e, t) := by
  induction p generalizing s with
  | done r => cases r <;> rfl
  | call o k ih => exact ih _ _

/-- A sequence returns when both its parts do. -/
theorem eval_bind_ok {M : Machine S ε σ} {p : Prog S ε α} {f : α → Prog S ε β} {s t : σ} {b : β} :
    (p >>= f).eval M s = (.ok b, t) ↔
      ∃ a u, p.eval M s = (.ok a, u) ∧ (f a).eval M u = (.ok b, t) := by
  rw [bind_def, eval_bind]
  rcases p.eval M s with ⟨r | a, u⟩
  · simp
  · constructor
    · exact fun h => ⟨a, u, rfl, h⟩
    · rintro ⟨_, _, ⟨⟩, h⟩
      exact h

/-- A single operation and what follows it. -/
theorem eval_perform_bind {M : Machine S ε σ} {o : S.Op} {f : S.Reply o → Prog S ε β} {s t : σ}
    {a : S.Reply o} (h : M.exec o s = (.ok a, t)) : (perform o >>= f).eval M s = (f a).eval M t := by
  show ((Prog.done (M.exec o s).1).bind f).eval M (M.exec o s).2 = _
  rw [h]
  rfl

theorem eval_attempt (p : Prog S ε α) (s : σ) :
    p.attempt.eval M s = (.ok (p.eval M s).1, (p.eval M s).2) := by
  induction p generalizing s with
  | done r => rfl
  | call o k ih => exact ih _ _

/-- A relation on stores that each operation keeps is kept by a whole run. -/
theorem eval_induct {R : σ → σ → Prop} (hrefl : ∀ s, R s s)
    (htrans : ∀ {s t u}, R s t → R t u → R s u) (hexec : ∀ o s, R s (M.exec o s).2)
    (p : Prog S ε α) (s : σ) : R s (p.eval M s).2 := by
  induction p generalizing s with
  | done r => exact hrefl s
  | call o k ih => exact htrans (hexec o s) (ih _ _)

end Prog

/-! ## Failing operations -/

/-- Which operations fail, by position in the run and by operation. -/
abbrev Faults (S : Signature.{u}) := Nat → S.Op → Bool

/-- No operation fails. -/
def Faults.never : Faults S := fun _ _ => false

/-- Only the operation at position `n` fails. -/
def Faults.at (n : Nat) : Faults S := fun i _ => i == n

/-- The schedule after one operation. -/
def Faults.tail (φ : Faults S) : Faults S := fun i => φ (i + 1)

@[simp] theorem Faults.tail_never : (Faults.never : Faults S).tail = .never := rfl

namespace Machine

/-- A failing operation replies with the fault and leaves the store unchanged. -/
def faulty (M : Machine S ε σ) : Machine S ε (Faults S × σ) where
  exec o s :=
    if s.1 0 o then (.error M.fault, s.1.tail, s.2)
    else ((M.exec o s.2).1, s.1.tail, (M.exec o s.2).2)
  fault := M.fault

end Machine

namespace Prog

/-- Run a program alone under a schedule of failures. -/
def run (M : Machine S ε σ) (p : Prog S ε α) (φ : Faults S) (s : σ) : Except ε α × σ :=
  ((p.eval M.faulty (φ, s)).1, (p.eval M.faulty (φ, s)).2.2)

theorem eval_faulty_never (M : Machine S ε σ) (p : Prog S ε α) (s : σ) :
    p.eval M.faulty (.never, s) = ((p.eval M s).1, .never, (p.eval M s).2) := by
  induction p generalizing s with
  | done r => rfl
  | call o k ih => simpa [Machine.faulty, Faults.never] using ih _ _

@[simp] theorem run_never (M : Machine S ε σ) (p : Prog S ε α) (s : σ) :
    p.run M .never s = p.eval M s := by
  simp [run, eval_faulty_never]

end Prog

/-! ## Transactions -/

/-- Operations of the store, together with whole programs run as one step. -/
inductive TxOp (S : Signature.{0}) (ε : Type) : Type 1 where
  | op (o : S.Op)
  | txn {β : Type} (work : Prog S ε β)

/-- The reply of a store operation, or the result of the program run as one step. -/
def TxOp.Reply {S : Signature.{0}} {ε : Type} : TxOp S ε → Type
  | .op o => S.Reply o
  | @TxOp.txn _ _ β _ => β

/-- The signature with transactions. -/
def Signature.tx (S : Signature.{0}) (ε : Type) : Signature.{1} where
  Op := TxOp S ε
  Reply := TxOp.Reply

variable {T : Signature.{0}}

/-- A transaction commits the writes of a program that returns, and none of one that throws. -/
def Machine.transactional (M : Machine T ε σ) : Machine (T.tx ε) ε σ where
  exec
    | .op o, s => M.exec o s
    | .txn work, s =>
      match work.eval M s with
      | (.ok b, t) => (.ok b, t)
      | (.error e, _) => (.error e, s)
  fault := M.fault

/-- A program outside a transaction, each operation on its own. -/
def Prog.embed : Prog T ε α → Prog (T.tx ε) ε α
  | .done r => .done r
  | .call o k => .call (.op o) fun r => (k r).embed

theorem Prog.eval_embed (M : Machine T ε σ) (p : Prog T ε α) (s : σ) :
    p.embed.eval M.transactional s = p.eval M s := by
  induction p generalizing s with
  | done r => rfl
  | call o k ih => exact ih _ _

end Effect
