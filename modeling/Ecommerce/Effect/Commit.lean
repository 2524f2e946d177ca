import Ecommerce.Effect.Calls

/-!
# Programs that commit last

Such a program issues quiet operations until one of its transactions commits, and throws no
exception after that. If it ends in an exception it has left the store alone, whatever other
programs did meanwhile.
-/

namespace Effect

universe w

namespace Prog

universe u

variable {S : Signature.{u}} {ε α β : Type}

/-- Whatever the replies, the program ends without an exception. -/
def Succeeds : Prog S ε α → Prop
  | .done r => ∃ a, r = .ok a
  | .call _ k => ∀ r, (k r).Succeeds

theorem Succeeds.bind {p : Prog S ε α} {f : α → Prog S ε β} (h : p.Succeeds)
    (hf : ∀ a, (f a).Succeeds) : (p >>= f).Succeeds := by
  rw [bind_def]
  induction p with
  | done r =>
    obtain ⟨a, rfl⟩ := h
    exact hf a
  | call o k ih => exact fun r => ih r (h r)

theorem Succeeds.catching (p : Prog S ε α) {f : ε → Prog S ε α} (hf : ∀ e, (f e).Succeeds) :
    (p.catching f).Succeeds := by
  induction p with
  | done r =>
    cases r with
    | ok a => exact ⟨a, rfl⟩
    | error e => exact hf e
  | call o k ih => exact fun r => ih r

theorem Succeeds.eval {σ : Type w} {M : Machine S ε σ} {p : Prog S ε α} (h : p.Succeeds) (s : σ) :
    ∃ a t, p.eval M s = (.ok a, t) := by
  induction p generalizing s with
  | done r =>
    obtain ⟨a, rfl⟩ := h
    exact ⟨a, s, rfl⟩
  | call o k ih => exact ih _ (h _) _

theorem Succeeds.run {σ : Type w} {M : Machine S ε σ} {p : Prog S ε α} (h : p.Succeeds)
    (φ : Faults S) (s : σ) : ∃ a t, p.run M φ s = (.ok a, t) := by
  obtain ⟨a, t, heval⟩ := h.eval (M := M.faulty) (φ, s)
  exact ⟨a, t.2, by simp only [Prog.run, heval]⟩

variable {T : Signature.{0}} {quiet : T.Op → Prop}

theorem Succeeds.embed {p : Prog T ε α} (h : p.Succeeds) :
    (p.embed : Prog (T.tx ε) ε α).Succeeds := by
  induction p with
  | done r => exact h
  | call o k ih => exact fun r => ih r (h r)

/-- Quiet operations until a transaction commits, and no exception after that. -/
def CommitsLast (quiet : T.Op → Prop) : Prog (T.tx ε) ε α → Prop
  | .done _ => True
  | .call (.op o) k => quiet o ∧ ∀ r, (k r).CommitsLast quiet
  | .call (.txn _) k => (∀ b, (k (.ok b)).Succeeds) ∧ ∀ e, (k (.error e)).CommitsLast quiet

theorem commitsLast_bind {p : Prog T ε α} {f : α → Prog (T.tx ε) ε β} (h : p.Issues quiet)
    (hf : ∀ a, (f a).CommitsLast quiet) : (p.embed >>= f).CommitsLast quiet := by
  rw [bind_def]
  induction p with
  | done r =>
    cases r with
    | ok a => exact hf a
    | error e => trivial
  | call o k ih => exact ⟨h.1, fun r => ih r (h.2 r)⟩

theorem commitsLast_txn {work : Prog T ε α} {f : α → Prog (T.tx ε) ε β}
    (hf : ∀ a, (f a).Succeeds) :
    (Prog.perform (S := T.tx ε) (.txn work) >>= f).CommitsLast quiet :=
  ⟨hf, fun _ => trivial⟩

theorem CommitsLast.map {p : Prog (T.tx ε) ε α} {f : α → β} (h : p.CommitsLast quiet) :
    (f <$> p).CommitsLast quiet := by
  show (p.bind _).CommitsLast quiet
  induction p with
  | done r => cases r <;> trivial
  | call o k ih =>
    cases o with
    | op o => exact ⟨h.1, fun r => ih r (h.2 r)⟩
    | txn work =>
      exact ⟨fun b => Succeeds.bind (h.1 b) fun a => ⟨f a, rfl⟩, fun e => ih _ (h.2 e)⟩

end Prog

/-! ## Runs -/

section Runs

variable {T : Signature.{0}} {ε α : Type} {σ : Type} {L : Type w} {M : Machine T ε σ}
variable {sys : System (T.tx ε) ε α σ L} {quiet : T.Op → Prop} {same : σ → σ → Prop} {l : L} {i : Nat}
variable {admits : Pool (T.tx ε) ε α σ L → Action L → Prop}

/-- Thread `i` runs a program of the label that satisfies this. -/
def Pool.At (c : Pool (T.tx ε) ε α σ L) (i : Nat) (l : L) (P : Prog (T.tx ε) ε α → Prop) : Prop :=
  ∃ p, c.threads[i]? = some ⟨l, p⟩ ∧ P p

/-- A thread that can no longer throw does not, unless it is stopped. -/
theorem Pool.At.succeeds_run {c d : Pool (T.tx ε) ε α σ L} {as : List (Action L)}
    (hkill : ∀ c p, c.threads[i]? = some ⟨l, p⟩ → ¬ admits c (.kill i))
    (hrun : sys.Run admits c as d) (h : c.At i l Prog.Succeeds) : d.At i l Prog.Succeeds := by
  refine hrun.invariant (P := fun c => c.At i l Prog.Succeeds) ?_ h
  rintro c a d ha hs ⟨p, hp, hsucceeds⟩
  obtain ⟨-, -, -, hd⟩ | ⟨o, k, rfl, hmove⟩ := sys.step_thread hs hp
  · exact ⟨p, hd, hsucceeds⟩
  · obtain ⟨-, -, hd⟩ | ⟨-, -, hd⟩ | ⟨rfl, -, -⟩ := hmove
    · exact ⟨_, hd, hsucceeds _⟩
    · exact ⟨_, hd, hsucceeds _⟩
    · exact absurd ha (hkill c _ hp)

/-- A thread that commits last, at any time: it has not committed, or it can no longer throw. -/
def Prog.Committing (quiet : T.Op → Prop) (p : Prog (T.tx ε) ε α) : Prop :=
  p.CommitsLast quiet ∨ p.Succeeds

theorem Pool.At.committing_step {c d : Pool (T.tx ε) ε α σ L} {a : Action L} (hs : sys.step c a = some d)
    (h : c.At i l (Prog.Committing quiet)) (hkill : a ≠ .kill i) :
    d.At i l (Prog.Committing quiet) := by
  obtain ⟨p, hp, hcommitting⟩ := h
  obtain ⟨-, -, -, hd⟩ | ⟨o, k, rfl, hmove⟩ := sys.step_thread hs hp
  · exact ⟨p, hd, hcommitting⟩
  · have hk : ∀ r, (k r).Committing quiet := by
      intro r
      rcases hcommitting with h | h
      · cases o with
        | op o => exact .inl (h.2 r)
        | txn work =>
          cases r with
          | ok b => exact .inr (h.1 b)
          | error e => exact .inl (h.2 e)
      · exact .inr (h r)
    obtain ⟨-, -, hd⟩ | ⟨-, -, hd⟩ | ⟨rfl, -, -⟩ := hmove
    · exact ⟨_, hd, hk _⟩
    · exact ⟨_, hd, hk _⟩
    · exact absurd rfl hkill

/-- The operation of such a thread leaves the store alone, or the thread can no longer throw. -/
theorem Pool.At.committing_act (hmachine : sys.machine = M.transactional)
    (hrefl : ∀ s, same s s) (hquiet : ∀ o, quiet o → ∀ s, same s (M.exec o s).2)
    {c d : Pool (T.tx ε) ε α σ L} (hs : sys.step c (.act i) = some d)
    (h : c.At i l (Prog.Committing quiet)) :
    same c.state d.state ∨ d.At i l Prog.Succeeds := by
  obtain ⟨p, hp, hcommitting⟩ := h
  obtain ⟨hne, -⟩ | ⟨o, k, rfl, hmove⟩ := sys.step_thread hs hp
  · exact absurd rfl hne
  obtain ⟨-, hstate, hd⟩ | ⟨hne, -⟩ | ⟨hne, -⟩ := hmove
  · rw [hmachine] at hstate hd
    rcases hcommitting with h | h
    · cases o with
      | op o =>
        left
        rw [hstate]
        exact hquiet o h.1 c.state
      | txn work =>
        simp only [Machine.transactional] at hstate hd
        split at hstate
        · next b t heq => exact .inr ⟨_, hd, by rw [heq]; exact h.1 b⟩
        · exact .inl (hstate ▸ hrefl _)
    · exact .inr ⟨_, hd, h _⟩
  · cases hne
  · cases hne

/-- A thread that commits last and ends in an exception has left the store alone at each of its
operations, whatever the other threads did. -/
theorem System.Run.unchanged_of_error (hmachine : sys.machine = M.transactional)
    (hcode : (sys.code l).CommitsLast quiet) (hrefl : ∀ s, same s s)
    (hquiet : ∀ o, quiet o → ∀ s, same s (M.exec o s).2)
    (hkill : ∀ c p, c.threads[i]? = some ⟨l, p⟩ → ¬ admits c (.kill i))
    {c c' d' d : Pool (T.tx ε) ε α σ L} {as bs : List (Action L)} (hstart : c.threads = [])
    (hbefore : sys.Run admits c as c') (hs : sys.step c' (.act i) = some d')
    (hafter : sys.Run admits d' bs d) {e : ε} (hend : d.threads[i]? = some ⟨l, .done (.error e)⟩) :
    same c'.state d'.state := by
  have hinv : ∀ p, c'.threads[i]? = some ⟨l, p⟩ → p.Committing quiet := by
    refine hbefore.invariant (P := fun c => ∀ p, c.threads[i]? = some ⟨l, p⟩ → p.Committing quiet)
      (fun c a d ha hs hc p hp => ?_) (by simp [hstart])
    obtain ⟨p', hp'⟩ | rfl := sys.step_new hs hp
    · obtain ⟨q, hq, hcommitting⟩ := Pool.At.committing_step hs ⟨p', hp', hc p' hp'⟩
        (fun h => hkill c p' hp' (h ▸ ha))
      obtain rfl : q = p := by simpa [hp] using hq.symm
      exact hcommitting
    · exact .inl hcode
  -- The thread that moves is the one that ends in the exception.
  obtain ⟨⟨l', p⟩, hp⟩ : ∃ t, c'.threads[i]? = some t := by
    cases ht : c'.threads[i]? with
    | none => simp [step, ht] at hs
    | some t => exact ⟨t, rfl⟩
  obtain rfl : l' = l := by
    have hrun : sys.Run (fun _ _ => True) c' (.act i :: bs) d :=
      .cons trivial hs (hafter.mono fun _ _ _ => trivial)
    obtain ⟨p', hp'⟩ := hrun.thread hp
    cases hend.symm.trans hp'
    rfl
  obtain h | h := Pool.At.committing_act hmachine hrefl hquiet hs ⟨p, hp, hinv p hp⟩
  · exact h
  · obtain ⟨q, hq, hsucceeds⟩ := h.succeeds_run hkill hafter
    obtain rfl : q = .done (.error e) := by simpa [hend] using hq.symm
    obtain ⟨a, ha⟩ := hsucceeds
    cases ha

end Runs
end Effect
