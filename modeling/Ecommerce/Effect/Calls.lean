import Ecommerce.Effect.Pool

/-!
# What a program may issue

`Issues` bounds the operations a program can come to, whatever the replies. An invariant that
every such operation keeps is kept by every run of a pool. `Ends` is the liveness side: a program
that ends a condition cannot stop while the condition still holds whenever it looks.
-/

namespace Effect

universe u v w

namespace Prog

variable {S : Signature.{u}} {ε α β : Type}

/-- Every operation the program can come to issue is one of these. -/
def Issues (φ : S.Op → Prop) : Prog S ε α → Prop
  | .done _ => True
  | .call o k => φ o ∧ ∀ r, (k r).Issues φ

variable {φ ψ : S.Op → Prop} {p : Prog S ε α}

@[simp] theorem issues_done (r : Except ε α) : (done r : Prog S ε α).Issues φ := trivial

@[simp] theorem issues_call {o : S.Op} {k : Except ε (S.Reply o) → Prog S ε α} :
    (call o k).Issues φ ↔ φ o ∧ ∀ r, (k r).Issues φ := Iff.rfl

@[simp] theorem issues_pure (a : α) : (pure a : Prog S ε α).Issues φ := trivial

@[simp] theorem issues_throw (e : ε) : (throw e : Prog S ε α).Issues φ := trivial

theorem issues_perform {o : S.Op} (h : φ o) : (perform o : Prog S ε (S.Reply o)).Issues φ :=
  ⟨h, fun _ => trivial⟩

theorem issues_of_forall (h : ∀ o, φ o) (p : Prog S ε α) : p.Issues φ := by
  induction p with
  | done r => trivial
  | call o k ih => exact ⟨h o, ih⟩

theorem Issues.mono (h : p.Issues φ) (himp : ∀ o, φ o → ψ o) : p.Issues ψ := by
  induction p with
  | done r => trivial
  | call o k ih => exact ⟨himp o h.1, fun r => ih r (h.2 r)⟩

theorem Issues.and (h : p.Issues φ) (h' : p.Issues ψ) : p.Issues fun o => φ o ∧ ψ o := by
  induction p with
  | done r => trivial
  | call o k ih => exact ⟨⟨h.1, h'.1⟩, fun r => ih r (h.2 r) (h'.2 r)⟩

theorem Issues.bind {f : α → Prog S ε β} (h : p.Issues φ) (hf : ∀ a, (f a).Issues φ) :
    (p >>= f).Issues φ := by
  rw [bind_def]
  induction p with
  | done r =>
    cases r with
    | ok a => exact hf a
    | error e => trivial
  | call o k ih => exact ⟨h.1, fun r => ih r (h.2 r)⟩

/-- Whatever the replies, what the program returns satisfies this. -/
def Yields (ψ : α → Prop) : Prog S ε α → Prop
  | .done (.ok a) => ψ a
  | .done (.error _) => True
  | .call _ k => ∀ r, (k r).Yields ψ

theorem Yields.bind {ψ : α → Prop} {χ : β → Prop} {f : α → Prog S ε β} (h : p.Yields ψ)
    (hf : ∀ a, ψ a → (f a).Yields χ) : (p >>= f).Yields χ := by
  rw [bind_def]
  induction p with
  | done r =>
    cases r with
    | ok a => exact hf a h
    | error e => trivial
  | call o k ih => exact fun r => ih r (h r)

theorem Yields.eval {σ : Type v} {M : Machine S ε σ} {ψ : α → Prop} (h : p.Yields ψ) {s t : σ}
    {a : α} (heval : p.eval M s = (.ok a, t)) : ψ a := by
  induction p generalizing s with
  | done r =>
    obtain ⟨rfl, rfl⟩ := Prod.mk.inj heval
    exact h
  | call o k ih => exact ih _ (h _) heval

theorem yields_true (p : Prog S ε α) : p.Yields fun _ => True := by
  induction p with
  | done r => cases r <;> trivial
  | call o k ih => exact fun r => ih r

theorem Yields.embed {T : Signature.{0}} {ψ : α → Prop} {p : Prog T ε α} (h : p.Yields ψ) :
    p.embed.Yields ψ := by
  induction p with
  | done r => cases r <;> exact h
  | call o k ih => exact fun r => ih r (h r)

/-- Sequencing, when what follows depends on the first program's result. -/
theorem Issues.bind_of_yields {ψ : α → Prop} {f : α → Prog S ε β} (h : p.Issues φ)
    (hp : p.Yields ψ) (hf : ∀ a, ψ a → (f a).Issues φ) : (p >>= f).Issues φ := by
  rw [bind_def]
  induction p with
  | done r =>
    cases r with
    | ok a => exact hf a hp
    | error e => trivial
  | call o k ih => exact ⟨h.1, fun r => ih r (h.2 r) (hp r)⟩

theorem Issues.map {f : α → β} (h : p.Issues φ) : (f <$> p).Issues φ := h.bind fun _ => trivial

theorem Issues.catching {f : ε → Prog S ε α} (h : p.Issues φ) (hf : ∀ e, (f e).Issues φ) :
    (p.catching f).Issues φ := by
  induction p with
  | done r =>
    cases r with
    | ok a => trivial
    | error e => exact hf e
  | call o k ih => exact ⟨h.1, fun r => ih r (h.2 r)⟩

theorem Issues.attempt (h : p.Issues φ) : p.attempt.Issues φ := by
  induction p with
  | done r => trivial
  | call o k ih => exact ⟨h.1, fun r => ih r (h.2 r)⟩

/-- As long as each reply is one that `A` allows, what the program returns satisfies this. -/
def YieldsIf (A : (o : S.Op) → Except ε (S.Reply o) → Prop) (ψ : α → Prop) : Prog S ε α → Prop
  | .done (.ok a) => ψ a
  | .done (.error _) => True
  | .call o k => ∀ r, A o r → (k r).YieldsIf A ψ

section YieldsIf

variable {A : (o : S.Op) → Except ε (S.Reply o) → Prop}

theorem YieldsIf.bind {ψ : α → Prop} {χ : β → Prop} {f : α → Prog S ε β} (h : p.YieldsIf A ψ)
    (hf : ∀ a, ψ a → (f a).YieldsIf A χ) : (p >>= f).YieldsIf A χ := by
  rw [bind_def]
  induction p with
  | done r =>
    cases r with
    | ok a => exact hf a h
    | error e => trivial
  | call o k ih => exact fun r hr => ih r (h r hr)

theorem YieldsIf.catching {ψ : α → Prop} {f : ε → Prog S ε α} (h : p.YieldsIf A ψ)
    (hf : ∀ e, (f e).YieldsIf A ψ) : (p.catching f).YieldsIf A ψ := by
  induction p with
  | done r =>
    cases r with
    | ok a => exact h
    | error e => exact hf e
  | call o k ih => exact fun r hr => ih r (h r hr)

theorem YieldsIf.attempt {ψ : α → Prop} (h : p.YieldsIf A ψ) :
    p.attempt.YieldsIf A fun r => ∀ a, r = .ok a → ψ a := by
  induction p with
  | done r =>
    rintro a rfl
    exact h
  | call o k ih => exact fun r hr => ih r (h r hr)

theorem yieldsIf_perform {o : S.Op} {ψ : S.Reply o → Prop} (h : ∀ a, A o (.ok a) → ψ a) :
    (perform o : Prog S ε (S.Reply o)).YieldsIf A ψ := by
  intro r hr
  cases r with
  | ok a => exact h a hr
  | error e => trivial

theorem yieldsIf_true (p : Prog S ε α) : p.YieldsIf A fun _ => True := by
  induction p with
  | done r => cases r <;> trivial
  | call o k ih => exact fun r _ => ih r

/-- As long as each reply is one that `A` allows, every operation is one of these. -/
def IssuesIf (A : (o : S.Op) → Except ε (S.Reply o) → Prop) (φ : S.Op → Prop) : Prog S ε α → Prop
  | .done _ => True
  | .call o k => φ o ∧ ∀ r, A o r → (k r).IssuesIf A φ

theorem Issues.issuesIf (h : p.Issues φ) : p.IssuesIf A φ := by
  induction p with
  | done r => trivial
  | call o k ih => exact ⟨h.1, fun r _ => ih r (h.2 r)⟩

theorem IssuesIf.bind {f : α → Prog S ε β} (h : p.IssuesIf A φ) (hf : ∀ a, (f a).IssuesIf A φ) :
    (p >>= f).IssuesIf A φ := by
  rw [bind_def]
  induction p with
  | done r =>
    cases r with
    | ok a => exact hf a
    | error e => trivial
  | call o k ih => exact ⟨h.1, fun r hr => ih r (h.2 r hr)⟩

/-- A single operation, and what follows a reply that `A` allows. -/
theorem issuesIf_perform_bind {o : S.Op} {f : S.Reply o → Prog S ε β} (ho : φ o)
    (hf : ∀ a, A o (.ok a) → (f a).IssuesIf A φ) : (perform o >>= f).IssuesIf A φ := by
  refine ⟨ho, fun r hr => ?_⟩
  cases r with
  | ok a => exact hf a hr
  | error e => trivial

/-- Operations in `φ`, until one after which the program goes on as `turn` says. -/
def Until (A : (o : S.Op) → Except ε (S.Reply o) → Prop) (φ : S.Op → Prop)
    (turn : (o : S.Op) → Except ε (S.Reply o) → Prog S ε α → Prop) : Prog S ε α → Prop
  | .done _ => True
  | .call o k => (φ o ∧ ∀ r, A o r → (k r).Until A φ turn) ∨ ∀ r, A o r → turn o r (k r)

theorem Issues.until {turn : (o : S.Op) → Except ε (S.Reply o) → Prog S ε α → Prop}
    (h : p.Issues φ) : p.Until A φ turn := by
  induction p with
  | done r => trivial
  | call o k ih => exact .inl ⟨h.1, fun r _ => ih r (h.2 r)⟩

theorem Issues.until_bind {turn : (o : S.Op) → Except ε (S.Reply o) → Prog S ε β → Prop}
    {f : α → Prog S ε β} (h : p.Issues φ) (hf : ∀ a, (f a).Until A φ turn) :
    (p >>= f).Until A φ turn := by
  rw [bind_def]
  induction p with
  | done r =>
    cases r with
    | ok a => exact hf a
    | error e => trivial
  | call o k ih => exact .inl ⟨h.1, fun r _ => ih r (h.2 r)⟩

theorem until_perform_bind {turn : (o : S.Op) → Except ε (S.Reply o) → Prog S ε β → Prop}
    {o : S.Op} {f : S.Reply o → Prog S ε β} (ho : φ o) (hf : ∀ a, A o (.ok a) → (f a).Until A φ turn) :
    (perform o >>= f).Until A φ turn := by
  refine .inl ⟨ho, fun r hr => ?_⟩
  cases r with
  | ok a => exact hf a hr
  | error e => trivial

theorem Until.bind {turn : (o : S.Op) → Except ε (S.Reply o) → Prog S ε α → Prop}
    {turn' : (o : S.Op) → Except ε (S.Reply o) → Prog S ε β → Prop} {f : α → Prog S ε β}
    (h : p.Until A φ turn) (hturn : ∀ o r q, turn o r q → turn' o r (q >>= f))
    (hf : ∀ a, (f a).Issues φ) : (p >>= f).Until A φ turn' := by
  rw [bind_def]
  induction p with
  | done r =>
    cases r with
    | ok a => exact (hf a).until
    | error e => trivial
  | call o k ih =>
    rcases h with ⟨ho, hk⟩ | hk
    · exact .inl ⟨ho, fun r hr => ih r (hk r hr)⟩
    · exact .inr fun r hr => hturn o r _ (hk r hr)

end YieldsIf

/-- What holds of the store before a program runs and is kept by its operations holds after. -/
theorem Issues.eval {σ : Type v} {M : Machine S ε σ} {I : σ → Prop} (h : p.Issues φ)
    (hexec : ∀ o, φ o → ∀ s, I s → I (M.exec o s).2) {s : σ} (hs : I s) : I (p.eval M s).2 := by
  induction p generalizing s with
  | done r => exact hs
  | call o k ih => exact ih _ (h.2 _) (hexec o h.1 s hs)

/-- As long as the condition holds whenever the program issues an operation, one of its
operations ends the condition. -/
def Ends {σ : Type v} (M : Machine S ε σ) (K : σ → Prop) : Prog S ε α → Prop
  | .done _ => False
  | .call o k => ∀ s, K s → K (M.exec o s).2 → (k (M.exec o s).1).Ends M K

variable {σ : Type v} {M : Machine S ε σ} {K : σ → Prop}

/-- A single operation that replies while the condition lasts, and what follows. -/
theorem ends_perform_bind {o : S.Op} {f : S.Reply o → Prog S ε β}
    (h : ∀ s, K s → K (M.exec o s).2 → ∃ a, (M.exec o s).1 = .ok a ∧ (f a).Ends M K) :
    (perform o >>= f).Ends M K := by
  intro s hs hs'
  obtain ⟨a, ha, hends⟩ := h s hs hs'
  rw [ha]
  exact hends

theorem Ends.bind {f : α → Prog S ε β} (h : p.Ends M K) : (p.bind f).Ends M K := by
  induction p with
  | done r => exact h.elim
  | call o k ih => exact fun s hs hs' => ih _ (h s hs hs')

theorem Ends.catching {f : ε → Prog S ε α} (h : p.Ends M K) : (p.catching f).Ends M K := by
  induction p with
  | done r => exact h.elim
  | call o k ih => exact fun s hs hs' => ih _ (h s hs hs')

end Prog

/-! ## Transactions -/

section Transactions

variable {T : Signature.{0}} {ε α : Type} {σ : Type v} {φ : T.Op → Prop}

/-- The operation, or every operation inside the transaction, is one of these. -/
def TxOp.Within (φ : T.Op → Prop) : TxOp T ε → Prop
  | .op o => φ o
  | .txn work => work.Issues φ

/-- The operation is one of these, outside of a transaction. -/
def TxOp.Single (φ : T.Op → Prop) : TxOp T ε → Prop
  | .op o => φ o
  | .txn _ => False

theorem Prog.Issues.embed_single {p : Prog T ε α} (h : p.Issues φ) :
    (p.embed : Prog (T.tx ε) ε α).Issues (TxOp.Single φ) := by
  induction p with
  | done r => trivial
  | call o k ih => exact ⟨h.1, fun r => ih r (h.2 r)⟩

theorem Prog.Issues.embed {p : Prog T ε α} (h : p.Issues φ) :
    (p.embed : Prog (T.tx ε) ε α).Issues (TxOp.Within φ) :=
  h.embed_single.mono fun o ho => by
    cases o with
    | op o => exact ho
    | txn work => exact ho.elim

theorem Prog.IssuesIf.embed {A : (o : T.Op) → Except ε (T.Reply o) → Prop}
    {A' : (o : TxOp T ε) → Except ε o.Reply → Prop} (hA : ∀ o r, A' (.op o) r → A o r)
    {p : Prog T ε α} (h : p.IssuesIf A φ) :
    (p.embed : Prog (T.tx ε) ε α).IssuesIf A' (TxOp.Within φ) := by
  induction p with
  | done r => trivial
  | call o k ih => exact ⟨h.1, fun r hr => ih r (h.2 r (hA o r hr))⟩

theorem Prog.Ends.embed {M : Machine T ε σ} {K : σ → Prop} {p : Prog T ε α} (h : p.Ends M K) :
    p.embed.Ends M.transactional K := by
  induction p with
  | done r => exact h
  | call o k ih => exact fun s hs hs' => ih _ (h s hs hs')

/-- What the operations keep, a transaction keeps. -/
theorem Machine.transactional_keeps {M : Machine T ε σ} {I : σ → Prop}
    (hexec : ∀ o, φ o → ∀ s, I s → I (M.exec o s).2) (o : TxOp T ε) (ho : o.Within φ) (s : σ)
    (hs : I s) : I (M.transactional.exec o s).2 := by
  cases o with
  | op o => exact hexec o ho s hs
  | txn work =>
    have hkeep := Prog.Issues.eval (M := M) ho hexec hs
    simp only [transactional]
    split
    · next heq => simpa [heq] using hkeep
    · exact hs

end Transactions

/-! ## Pools -/

section Pools

variable {S : Signature.{u}} {ε α : Type} {σ : Type v} {L : Type w} {sys : System S ε α σ L}
variable {admits : Pool S ε α σ L → Action L → Prop}

/-- What started programs may issue stays within bounds that depend on their labels. -/
theorem System.step_issues {φ : L → S.Op → Prop} (hcode : ∀ l, (sys.code l).Issues (φ l))
    {c d : Pool S ε α σ L} {a : Action L} (hs : sys.step c a = some d)
    (hc : ∀ t ∈ c.threads, t.prog.Issues (φ t.label)) :
    ∀ t ∈ d.threads, t.prog.Issues (φ t.label) := by
  obtain ⟨l, rfl, rfl⟩ | ⟨i, l, o, k, ht, hmove⟩ := sys.step_cases hs
  · intro t ht
    rcases List.mem_append.1 ht with ht | ht
    · exact hc t ht
    · obtain rfl := List.mem_singleton.1 ht
      exact hcode l
  · have hk := (hc _ (List.mem_of_getElem? ht)).2
    obtain ⟨rfl, rfl⟩ | ⟨rfl, rfl⟩ | ⟨rfl, rfl⟩ := hmove <;> intro t ht' <;>
      rcases List.mem_or_eq_of_mem_set ht' with ht' | rfl
    all_goals first | exact hc t ht' | exact hk _ | trivial

/-- The operation a thread issues next is within the bounds of its label. -/
theorem Pool.head?_issues {φ : L → S.Op → Prop} {c : Pool S ε α σ L} {i : Nat} {o : S.Op}
    (hc : ∀ t ∈ c.threads, t.prog.Issues (φ t.label)) (hhead : c.head? i = some o) :
    ∃ t, c.threads[i]? = some t ∧ φ t.label o := by
  obtain ⟨⟨l, p⟩, ht, hp⟩ := Option.bind_eq_some_iff.1 hhead
  cases p with
  | done r => simp [Prog.head?] at hp
  | call o' k =>
    obtain rfl : o' = o := by simpa [Prog.head?] using hp
    exact ⟨_, ht, (hc _ (List.mem_of_getElem? ht)).1⟩

/-- An invariant kept by the operations that programs may issue is kept by every step. -/
theorem System.step_keeps {φ : S.Op → Prop} {I : σ → Prop}
    (hexec : ∀ o, φ o → ∀ s, I s → I (sys.machine.exec o s).2) {c d : Pool S ε α σ L}
    {a : Action L} (hs : sys.step c a = some d) (hc : ∀ t ∈ c.threads, t.prog.Issues φ)
    (hI : I c.state) : I d.state := by
  obtain ⟨l, rfl, rfl⟩ | ⟨i, l, o, k, ht, ⟨-, rfl⟩ | ⟨-, rfl⟩ | ⟨-, rfl⟩⟩ := sys.step_cases hs
  · exact hI
  · exact hexec o (hc _ (List.mem_of_getElem? ht)).1 _ hI
  · exact hI
  · exact hI

/-- It holds along every run. -/
theorem System.Run.issues {φ : S.Op → Prop} {I : σ → Prop}
    (hcode : ∀ l, (sys.code l).Issues φ)
    (hexec : ∀ o, φ o → ∀ s, I s → I (sys.machine.exec o s).2)
    {c d : Pool S ε α σ L} {as : List (Action L)} (h : sys.Run admits c as d)
    (hc : ∀ t ∈ c.threads, t.prog.Issues φ) (hI : I c.state) :
    I d.state ∧ ∀ t ∈ d.threads, t.prog.Issues φ :=
  h.invariant (P := fun c => I c.state ∧ ∀ t ∈ c.threads, t.prog.Issues φ)
    (fun _ _ _ _ hs hP => ⟨System.step_keeps hexec hs hP.2 hP.1,
      System.step_issues (φ := fun _ => φ) hcode hs hP.2⟩) ⟨hI, hc⟩

/-- What one thread may issue stays within bounds. -/
theorem System.Run.thread_issues {φ : S.Op → Prop} {c d : Pool S ε α σ L} {as : List (Action L)}
    (h : sys.Run admits c as d) {i : Nat} {l : L} {p p' : Prog S ε α}
    (hp : c.threads[i]? = some ⟨l, p⟩) (hissues : p.Issues φ)
    (hp' : d.threads[i]? = some ⟨l, p'⟩) : p'.Issues φ := by
  have hkeep : ∃ p, d.threads[i]? = some ⟨l, p⟩ ∧ p.Issues φ := by
    refine h.invariant (P := fun c => ∃ p, c.threads[i]? = some ⟨l, p⟩ ∧ p.Issues φ) ?_
      ⟨p, hp, hissues⟩
    rintro c a d - hs ⟨p, hp, hissues⟩
    obtain ⟨-, -, -, hd⟩ | ⟨o, k, rfl, ⟨-, -, hd⟩ | ⟨-, -, hd⟩ | ⟨-, -, hd⟩⟩ := sys.step_thread hs hp
    · exact ⟨_, hd, hissues⟩
    · exact ⟨_, hd, hissues.2 _⟩
    · exact ⟨_, hd, hissues.2 _⟩
    · exact ⟨_, hd, trivial⟩
  obtain ⟨q, hq, hφ⟩ := hkeep
  exact (Thread.mk.inj (Option.some_inj.1 (hp'.symm.trans hq))).2 ▸ hφ

/-- While an invariant answers every operation as `A` allows, what the chosen threads return is as
their programs promise under such replies. -/
theorem System.Run.yieldsIf {A : (o : S.Op) → Except ε (S.Reply o) → Prop} {ψ : α → Prop}
    {I : σ → Prop} {C : Nat → L → Prop}
    (hcode : ∀ i l, C i l → (sys.code l).YieldsIf A ψ)
    (hreply : ∀ o s, I s → A o (sys.machine.exec o s).1) (hfault : ∀ o, A o (.error sys.machine.fault))
    (hI : ∀ c a d, admits c a → sys.step c a = some d → I c.state → I d.state)
    {c d : Pool S ε α σ L} {as : List (Action L)} (h : sys.Run admits c as d) (hc : I c.state)
    (hthreads : ∀ i l p, c.threads[i]? = some ⟨l, p⟩ → C i l → p.YieldsIf A ψ)
    {i : Nat} {l : L} {p : Prog S ε α} (hp : d.threads[i]? = some ⟨l, p⟩) (hi : C i l) :
    p.YieldsIf A ψ := by
  refine (h.invariant (P := fun c => I c.state ∧
    ∀ i l p, c.threads[i]? = some ⟨l, p⟩ → C i l → p.YieldsIf A ψ) ?_ ⟨hc, hthreads⟩).2 i l p hp hi
  rintro c a d ha hs ⟨hIc, hthreads⟩
  refine ⟨hI c a d ha hs hIc, fun i l p hp hi => ?_⟩
  obtain ⟨p', hp'⟩ | rfl := System.step_new hs hp
  · have hyields := hthreads i l p' hp' hi
    obtain ⟨-, -, -, hd⟩ | ⟨o, k, rfl, ⟨-, -, hd⟩ | ⟨-, -, hd⟩ | ⟨-, -, hd⟩⟩ := sys.step_thread hs hp' <;>
      obtain rfl := (Thread.mk.inj (Option.some_inj.1 (hp.symm.trans hd))).2
    · exact hyields
    · exact hyields _ (hreply o c.state hIc)
    · exact hyields _ (hfault o)
    · trivial
  · exact hcode i l hi

end Pools
end Effect
