import Ecommerce.Effect.Calls

/-!
# Interrupted programs

`Reaches` names the stores in which a program run alone issues its operations. A program that
catches nothing ends with the first operation that fails, in the store it has reached there, so
what an interrupted run leaves behind is read off `Reaches` and no schedule of failures is needed.
-/

namespace Effect

universe u v

variable {S : Signature.{u}} {ε α β : Type} {σ : Type v} {M : Machine S ε σ}

namespace Prog

/-- Run alone, the program comes to issue `o` in the store `t`. -/
def Reaches (M : Machine S ε σ) : Prog S ε α → σ → S.Op → σ → Prop
  | .done _, _, _, _ => False
  | .call o k, s, o', t => (o' = o ∧ t = s) ∨ (k (M.exec o s).1).Reaches M (M.exec o s).2 o' t

@[simp] theorem not_reaches_done {r : Except ε α} {s t : σ} {o : S.Op} :
    ¬ (done r : Prog S ε α).Reaches M s o t := id

@[simp] theorem not_reaches_pure {a : α} {s t : σ} {o : S.Op} :
    ¬ (pure a : Prog S ε α).Reaches M s o t := id

@[simp] theorem not_reaches_throw {e : ε} {s t : σ} {o : S.Op} :
    ¬ (throw e : Prog S ε α).Reaches M s o t := id

@[simp] theorem reaches_perform {o o' : S.Op} {s t : σ} :
    (perform o : Prog S ε (S.Reply o)).Reaches M s o' t ↔ o' = o ∧ t = s :=
  ⟨fun h => h.elim id False.elim, .inl⟩

/-- A sequence is interrupted in its first part, or in its second after the first has returned. -/
theorem reaches_bind {p : Prog S ε α} {f : α → Prog S ε β} {s t : σ} {o : S.Op} :
    (p >>= f).Reaches M s o t ↔
      p.Reaches M s o t ∨ ∃ a u, p.eval M s = (.ok a, u) ∧ (f a).Reaches M u o t := by
  rw [bind_def]
  induction p generalizing s with
  | done r =>
    cases r with
    | ok a =>
      constructor
      · intro h
        exact .inr ⟨a, s, rfl, h⟩
      · rintro (h | ⟨_, _, ⟨⟩, h⟩)
        · exact h.elim
        · exact h
    | error e =>
      constructor
      · intro h
        exact h.elim
      · rintro (h | ⟨_, _, ⟨⟩, _⟩)
        exact h
  | call o' k ih =>
    simp only [bind_call, Reaches, ih, eval_call, or_assoc]

theorem reaches_perform_bind {o o' : S.Op} {f : S.Reply o → Prog S ε β} {s t u : σ}
    {a : S.Reply o} (h : M.exec o s = (.ok a, u)) :
    (perform o >>= f).Reaches M s o' t ↔ (o' = o ∧ t = s) ∨ (f a).Reaches M u o' t := by
  show (_ ∨ ((Prog.done (M.exec o s).1).bind f).Reaches M (M.exec o s).2 o' t) ↔ _
  rw [h]
  rfl

/-- Bounds on the operations of a program and what they keep of the store hold wherever it is
interrupted. -/
theorem Issues.reaches {φ : S.Op → Prop} {I : σ → Prop} {p : Prog S ε α} (h : p.Issues φ)
    (hexec : ∀ o, φ o → ∀ s, I s → I (M.exec o s).2) {s t : σ} {o : S.Op} (hs : I s)
    (hreach : p.Reaches M s o t) : φ o ∧ I t := by
  induction p generalizing s with
  | done r => exact hreach.elim
  | call o' k ih =>
    rcases hreach with ⟨rfl, rfl⟩ | hreach
    · exact ⟨h.1, hs⟩
    · exact ih _ (h.2 _) (hexec o' h.1 s hs) hreach

/-! ## Schedules of failures -/

/-- The operation at which a schedule of failures first strikes. -/
def struck (M : Machine S ε σ) : Prog S ε α → Faults S → σ → Option S.Op
  | .done _, _, _ => none
  | .call o k, φ, s =>
    if φ 0 o then some o else (k (M.exec o s).1).struck M φ.tail (M.exec o s).2

theorem struck_call {o : S.Op} {k : Except ε (S.Reply o) → Prog S ε α} (φ : Faults S) (s : σ) :
    (call o k).struck M φ s =
      if φ 0 o then some o else (k (M.exec o s).1).struck M φ.tail (M.exec o s).2 := rfl

/-- A sequence is struck in its first part, or in its second after the first has returned. -/
theorem struck_bind (p : Prog S ε α) (f : α → Prog S ε β) (φ : Faults S) (s : σ) :
    (p >>= f).struck M φ s = (p.struck M φ s).or
      (match p.eval M.faulty (φ, s) with
        | (.ok a, ψ, t) => (f a).struck M ψ t
        | (.error _, _) => none) := by
  rw [bind_def]
  induction p generalizing φ s with
  | done r => cases r <;> rfl
  | call o k ih =>
    rw [bind_call, struck_call, struck_call, eval_call]
    by_cases hstrike : φ 0 o
    · simp [hstrike]
    · simp only [hstrike, if_false, Bool.false_eq_true, Machine.faulty]
      exact ih _ φ.tail _

theorem struck_attempt (p : Prog S ε α) (φ : Faults S) (s : σ) :
    p.attempt.struck M φ s = p.struck M φ s := by
  induction p generalizing φ s with
  | done r => rfl
  | call o k ih =>
    show (if φ 0 o then some o else (k (M.exec o s).1).attempt.struck M φ.tail (M.exec o s).2) = _
    rw [ih, struck_call]

/-- A failing operation ends the program with the fault. -/
def Halts (M : Machine S ε σ) : Prog S ε α → Prop
  | .done _ => True
  | .call _ k => k (.error M.fault) = .done (.error M.fault) ∧ ∀ r, (k r).Halts M

@[simp] theorem halts_done (r : Except ε α) : (done r : Prog S ε α).Halts M := trivial

@[simp] theorem halts_pure (a : α) : (pure a : Prog S ε α).Halts M := trivial

@[simp] theorem halts_throw (e : ε) : (throw e : Prog S ε α).Halts M := trivial

@[simp] theorem halts_perform (o : S.Op) : (perform o : Prog S ε (S.Reply o)).Halts M :=
  ⟨rfl, fun _ => trivial⟩

theorem Halts.bind {p : Prog S ε α} {f : α → Prog S ε β} (h : p.Halts M)
    (hf : ∀ a, (f a).Halts M) : (p >>= f).Halts M := by
  rw [bind_def]
  induction p with
  | done r =>
    cases r with
    | ok a => exact hf a
    | error e => trivial
  | call o k ih => exact ⟨by simp only [h.1, bind_error], fun r => ih r (h.2 r)⟩

theorem run_call {o : S.Op} {k : Except ε (S.Reply o) → Prog S ε α} (φ : Faults S) (s : σ) :
    (call o k).run M φ s =
      if φ 0 o then (k (.error M.fault)).run M φ.tail s
      else (k (M.exec o s).1).run M φ.tail (M.exec o s).2 := by
  simp only [run, eval_call, Machine.faulty]
  split <;> rfl

/-- Under a schedule of failures a program that halts does as it does alone, or it ends with the
fault in the store in which it has issued the operation that fails. -/
theorem Halts.run {p : Prog S ε α} (h : p.Halts M) (φ : Faults S) (s : σ) :
    (p.struck M φ s = none ∧ p.run M φ s = p.eval M s) ∨
      ∃ o t, p.struck M φ s = some o ∧ p.Reaches M s o t ∧
        p.run M φ s = (.error M.fault, t) := by
  induction p generalizing φ s with
  | done r => exact .inl ⟨rfl, rfl⟩
  | call o k ih =>
    rw [run_call, struck]
    split
    · refine .inr ⟨o, s, rfl, .inl ⟨rfl, rfl⟩, ?_⟩
      rw [h.1]
      rfl
    · obtain ⟨hnone, heval⟩ | ⟨o', t, hsome, hreach, herr⟩ := ih _ (h.2 _) φ.tail (M.exec o s).2
      · exact .inl ⟨hnone, heval⟩
      · exact .inr ⟨o', t, hsome, .inr hreach, herr⟩

/-- A program that halts and yet returns has not been struck. -/
theorem Halts.run_ok {p : Prog S ε α} (h : p.Halts M) {φ : Faults S} {s t : σ} {a : α}
    (hrun : p.run M φ s = (.ok a, t)) : p.struck M φ s = none ∧ p.eval M s = (.ok a, t) := by
  obtain ⟨hnone, heval⟩ | ⟨o, u, -, -, herr⟩ := h.run φ s
  · exact ⟨hnone, heval ▸ hrun⟩
  · cases herr.symm.trans hrun

/-- A schedule that strikes a program shows what it leaves behind. -/
theorem Halts.run_struck {p : Prog S ε α} (h : p.Halts M) {φ : Faults S} {s : σ} {o : S.Op}
    (hstruck : p.struck M φ s = some o) :
    ∃ t, p.Reaches M s o t ∧ p.run M φ s = (.error M.fault, t) := by
  obtain ⟨hnone, -⟩ | ⟨o', t, hsome, hreach, herr⟩ := h.run φ s
  · cases hnone.symm.trans hstruck
  · obtain rfl : o' = o := Option.some_inj.1 (hsome.symm.trans hstruck)
    exact ⟨t, hreach, herr⟩

/-- What the operations of a program keep of the store, it keeps under every schedule. -/
theorem Issues.run {φ : S.Op → Prop} {I : σ → Prop} {p : Prog S ε α} (hp : p.Issues φ)
    (hexec : ∀ o, φ o → ∀ s, I s → I (M.exec o s).2) (ψ : Faults S) {s : σ} (hs : I s) :
    I (p.run M ψ s).2 := by
  refine Issues.eval (M := M.faulty) (I := fun x => I x.2) hp (fun o ho x hx => ?_) hs
  simp only [Machine.faulty]
  split
  · exact hx
  · exact hexec o ho x.2 hx

/-- A sequence that returns under a schedule has returned in both its parts. -/
theorem run_bind_ok {p : Prog S ε α} {f : α → Prog S ε β} {φ : Faults S} {s t : σ} {b : β}
    (h : (p >>= f).run M φ s = (.ok b, t)) :
    ∃ a u ψ, p.run M φ s = (.ok a, u) ∧ (f a).run M ψ u = (.ok b, t) := by
  simp only [bind_def, Prog.run, eval_bind] at h ⊢
  generalize p.eval M.faulty (φ, s) = out at h ⊢
  obtain ⟨e | a, ψ, u⟩ := out
  · cases h
  · exact ⟨a, u, ψ, rfl, h⟩

/-- A sequence whose second part always returns has thrown in its first part. -/
theorem run_bind_error {p : Prog S ε α} {f : α → Prog S ε β} {φ : Faults S} {s t : σ} {e : ε}
    (hf : ∀ a ψ u, ∃ b v, (f a).run M ψ u = (.ok b, v))
    (h : (p >>= f).run M φ s = (.error e, t)) :
    p.run M φ s = (.error e, t) ∧ (p >>= f).struck M φ s = p.struck M φ s := by
  rw [bind_def] at h ⊢
  induction p generalizing φ s with
  | done r =>
    cases r with
    | ok a =>
      obtain ⟨b, v, hb⟩ := hf a φ s
      cases hb.symm.trans h
    | error e' =>
      obtain ⟨rfl, rfl⟩ : e' = e ∧ s = t := by simpa [Prog.run] using h
      exact ⟨rfl, rfl⟩
  | call o k ih =>
    rw [bind_call, run_call] at h
    rw [bind_call, run_call, Prog.struck, Prog.struck]
    by_cases hstrike : φ 0 o
    · rw [if_pos hstrike] at h
      simp only [hstrike, if_true, and_true]
      exact (ih _ h).1
    · rw [if_neg hstrike] at h
      simp only [hstrike, if_false, Bool.false_eq_true]
      exact ih _ h

/-! ## Repeated attempts -/

/-- The store after programs have run one after the other, each under its schedule. -/
def attempts {τ : Type} (M : Machine S ε σ) (call : τ → Prog S ε α) (as : List (τ × Faults S))
    (s : σ) : σ :=
  as.foldl (fun s a => ((call a.1).run M a.2 s).2) s

theorem attempts_keeps {τ : Type} {call : τ → Prog S ε α} {I : σ → Prop}
    (hkeep : ∀ a φ s, I s → I ((call a).run M φ s).2) (as : List (τ × Faults S)) {s : σ}
    (hs : I s) : I (attempts M call as s) := by
  induction as generalizing s with
  | nil => exact hs
  | cons a as ih => exact ih (hkeep a.1 a.2 s hs)

/-- Attempts that all ended in an exception, with the operations at which they were struck. -/
inductive Failing {τ : Type} (M : Machine S ε σ) (call : τ → Prog S ε α) :
    σ → List S.Op → σ → Prop where
  | nil (s) : Failing M call s [] s
  | cons {s t u a φ e os} : (call a).run M φ s = (.error e, t) → Failing M call t os u →
      Failing M call s (((call a).struck M φ s).toList ++ os) u

/-! ## Outside of transactions -/

variable {T : Signature.{0}} {N : Machine T ε σ}

theorem embed_bind (p : Prog T ε α) (f : α → Prog T ε β) :
    (p >>= f).embed = p.embed >>= fun a => (f a).embed := by
  show (p.bind f).embed = p.embed.bind fun a => (f a).embed
  induction p with
  | done r => cases r <;> rfl
  | call o k ih => exact congrArg (Prog.call (TxOp.op o)) (funext fun r => ih r)

theorem Halts.embed {p : Prog T ε α} (h : p.Halts N) : p.embed.Halts N.transactional := by
  induction p with
  | done r => trivial
  | call o k ih =>
    refine ⟨?_, fun r => ih r (h.2 r)⟩
    show (k (.error N.fault)).embed = .done (.error N.fault)
    rw [h.1]
    rfl

theorem reaches_embed {p : Prog T ε α} {s t : σ} {o : TxOp T ε} :
    p.embed.Reaches N.transactional s o t ↔ ∃ o', o = .op o' ∧ p.Reaches N s o' t := by
  induction p generalizing s with
  | done r => exact ⟨fun h => h.elim, fun ⟨_, _, h⟩ => h.elim⟩
  | call o' k ih =>
    have hrest := ih (N.exec o' s).1 (s := (N.exec o' s).2)
    constructor
    · rintro (⟨rfl, rfl⟩ | h)
      · exact ⟨o', rfl, .inl ⟨rfl, rfl⟩⟩
      · obtain ⟨o'', ho, hreach⟩ := hrest.1 h
        exact ⟨o'', ho, .inr hreach⟩
    · rintro ⟨o'', rfl, ⟨rfl, rfl⟩ | h⟩
      · exact .inl ⟨rfl, rfl⟩
      · exact .inr (hrest.2 ⟨o'', rfl, h⟩)

end Prog
end Effect
