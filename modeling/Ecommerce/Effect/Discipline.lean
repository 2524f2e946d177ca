import Ecommerce.Effect.Calls
import Mathlib.Algebra.BigOperators.Group.List.Basic

/-!
# A discipline for interleaved programs

A program follows a discipline when each of its operations, issued in any state that other
programs of the discipline may have reached, keeps the invariant and does what it guarantees.
On the way the program carries an account: what the store loses in worth by an operation the
program gains, so the worth of the store and the accounts of all programs add up to a constant.
-/

namespace Effect

universe u v w

/-- What the programs of a pool rely on (`grows`) and guarantee (`gives`). `may` and `mayFail`
restrict the states in which an operation is taken to succeed or to fail; `holds` ties the account
to the operation a program is about to issue. -/
structure Discipline (S : Signature.{u}) (σ : Type v) (γ : Type) where
  Inv : σ → Prop
  grows : σ → σ → Prop
  gives : S.Op → σ → σ → Prop
  may : S.Op → σ → Prop
  mayFail : S.Op → σ → Prop
  worth : σ → γ
  holds : S.Op → γ → Prop
  refl : ∀ s, grows s s
  trans : ∀ {s t u}, grows s t → grows t u → grows s u
  gives_grows : ∀ {o s t}, gives o s t → grows s t

variable {S : Signature.{u}} {ε α β : Type} {σ : Type v} {γ : Type} {L : Type w}
variable [AddCommMonoid γ]

namespace Discipline

/-- The program follows the discipline from the state on, holding the account, and `Q` relates
its result to the account and the state at its end. -/
def Follows (D : Discipline S σ γ) (M : Machine S ε σ) (Q : Except ε α → γ → σ → Prop) :
    Prog S ε α → γ → σ → Prop
  | .done r, g, s => ∀ t, D.grows s t → D.Inv t → Q r g t
  | .call o k, g, s =>
    D.holds o g ∧ ∀ t, D.grows s t → D.Inv t →
      (D.may o t → D.Inv (M.exec o t).2 ∧ D.gives o t (M.exec o t).2 ∧
        ∃ g', D.worth (M.exec o t).2 + g' = D.worth t + g ∧
          D.Follows M Q (k (M.exec o t).1) g' (M.exec o t).2) ∧
      (D.mayFail o t → D.Follows M Q (k (.error M.fault)) g t)

variable {D : Discipline S σ γ} {M : Machine S ε σ} {Q R : Except ε α → γ → σ → Prop}

theorem Follows.mono {p : Prog S ε α} {g : γ} {s t : σ} (h : D.Follows M Q p g s)
    (hst : D.grows s t) : D.Follows M Q p g t := by
  cases p with
  | done r => exact fun u htu hu => h u (D.trans hst htu) hu
  | call o k => exact ⟨h.1, fun u htu hu => h.2 u (D.trans hst htu) hu⟩

theorem Follows.weaken {p : Prog S ε α} {g : γ} {s : σ} (h : D.Follows M Q p g s)
    (himp : ∀ r g t, D.grows s t → D.Inv t → Q r g t → R r g t) : D.Follows M R p g s := by
  induction p generalizing g s with
  | done r => exact fun t hst ht => himp r g t hst ht (h t hst ht)
  | call o k ih =>
    refine ⟨h.1, fun t hst ht => ⟨fun hm => ?_, fun hf => ?_⟩⟩
    · obtain ⟨hinv, hgive, g', hw, hk⟩ := (h.2 t hst ht).1 hm
      refine ⟨hinv, hgive, g', hw, ih _ hk fun r g u hu => ?_⟩
      exact himp r g u (D.trans hst (D.trans (D.gives_grows hgive) hu))
    · exact ih _ ((h.2 t hst ht).2 hf) fun r g u hu => himp r g u (D.trans hst hu)

/-- Sequencing: what follows the first program starts from any state it may end in. -/
theorem Follows.bind {p : Prog S ε α} {f : α → Prog S ε β} {g : γ} {s : σ}
    {Q : Except ε β → γ → σ → Prop} {P : α → γ → σ → Prop}
    (hp : D.Follows M (fun r g t => match r with
      | .ok a => P a g t
      | .error e => Q (.error e) g t) p g s)
    (hf : ∀ a g t, D.grows s t → D.Inv t → P a g t → D.Follows M Q (f a) g t) (hs : D.Inv s) :
    D.Follows M Q (p.bind f) g s := by
  induction p generalizing g s with
  | done r =>
    cases r with
    | ok a => exact hf a g s (D.refl s) hs (hp s (D.refl s) hs)
    | error e => exact hp
  | call o k ih =>
    refine ⟨hp.1, fun t hst ht => ⟨fun hm => ?_, fun hfail => ?_⟩⟩
    · obtain ⟨hinv, hgive, g', hw, hk⟩ := (hp.2 t hst ht).1 hm
      refine ⟨hinv, hgive, g', hw, ih _ hk (fun a g u hu => ?_) hinv⟩
      exact hf a g u (D.trans hst (D.trans (D.gives_grows hgive) hu))
    · exact ih _ ((hp.2 t hst ht).2 hfail) (fun a g u hu => hf a g u (D.trans hst hu)) ht

/-- Run alone, a program that follows the discipline ends as its postcondition says. -/
theorem Follows.eval {p : Prog S ε α} {g : γ} {s : σ} (h : D.Follows M Q p g s) (hs : D.Inv s)
    (hmay : p.Issues fun o => ∀ t, D.may o t) :
    D.Inv (p.eval M s).2 ∧ D.grows s (p.eval M s).2 ∧
      ∃ g', D.worth (p.eval M s).2 + g' = D.worth s + g ∧ Q (p.eval M s).1 g' (p.eval M s).2 := by
  induction p generalizing g s with
  | done r => exact ⟨hs, D.refl s, g, rfl, h s (D.refl s) hs⟩
  | call o k ih =>
    obtain ⟨hinv, hgive, g', hw, hk⟩ := (h.2 s (D.refl s) hs).1 (hmay.1 s)
    obtain ⟨hinv', hgrow', g'', hw', hq⟩ := ih _ hk hinv (hmay.2 _)
    exact ⟨hinv', D.trans (D.gives_grows hgive) hgrow', g'', hw'.trans hw, hq⟩

/-! ## Rules -/

/-- The postcondition of a program that ends with an empty account. -/
def Settled : Except ε α → γ → σ → Prop := fun _ g _ => g = 0

theorem settled_done {r : Except ε α} {s : σ} :
    D.Follows M Settled (.done r : Prog S ε α) 0 s := fun _ _ _ => rfl

/-- One operation and what follows it. If the operation fails, nothing follows. -/
theorem Follows.perform {o : S.Op} {f : S.Reply o → Prog S ε α} {g : γ} {s : σ}
    (hholds : D.holds o g) (hfail : ∀ t, D.mayFail o t → g = 0)
    (hact : ∀ t, D.grows s t → D.Inv t → D.may o t → ∀ r t', M.exec o t = (r, t') →
      D.Inv t' ∧ D.gives o t t' ∧ ∃ g', D.worth t' + g' = D.worth t + g ∧
        D.Follows M Settled (Prog.done r >>= f) g' t') :
    D.Follows M Settled (Prog.perform o >>= f) g s :=
  ⟨hholds, fun t hst ht => ⟨fun hm => hact t hst ht hm _ _ rfl, fun hf _ _ _ => hfail t hf⟩⟩

/-- Sequencing of programs that end with empty accounts. -/
theorem Follows.settle {p : Prog S ε α} {f : α → Prog S ε β} {g : γ} {s : σ}
    (hp : D.Follows M Settled p g s)
    (hf : ∀ a t, D.grows s t → D.Inv t → D.Follows M Settled (f a) 0 t) (hs : D.Inv s) :
    D.Follows M Settled (p >>= f) g s := by
  refine Follows.bind (P := fun _ g _ => g = 0) (hp.weaken ?_) ?_ hs
  · intro r g t _ _ hg
    cases r <;> exact hg
  · rintro a g t hst ht rfl
    exact hf a t hst ht

theorem Follows.map {p : Prog S ε α} {f : α → β} {g : γ} {s : σ}
    (hp : D.Follows M Settled p g s) (hs : D.Inv s) : D.Follows M Settled (f <$> p) g s :=
  hp.settle (fun _ _ _ _ => settled_done) hs

/-- The outcome of a program as a value. -/
theorem Follows.attempt {p : Prog S ε α} {g : γ} {s : σ}
    {Q : Except ε (Except ε α) → γ → σ → Prop}
    (h : D.Follows M (fun r g t => Q (.ok r) g t) p g s) : D.Follows M Q p.attempt g s := by
  induction p generalizing g s with
  | done r => exact h
  | call o k ih =>
    refine ⟨h.1, fun t hst ht => ⟨fun hm => ?_, fun hf => ih _ ((h.2 t hst ht).2 hf)⟩⟩
    obtain ⟨hinv, hgive, g', hw, hk⟩ := (h.2 t hst ht).1 hm
    exact ⟨hinv, hgive, g', hw, ih _ hk⟩

/-- An operation that leaves the worth alone and needs no account. -/
structure Neutral (D : Discipline S σ γ) (M : Machine S ε σ) (o : S.Op) : Prop where
  holds : D.holds o 0
  inv : ∀ t, D.Inv t → D.Inv (M.exec o t).2
  gives : ∀ t, D.Inv t → D.gives o t (M.exec o t).2
  worth : ∀ t, D.Inv t → D.worth (M.exec o t).2 = D.worth t

/-- Programs of neutral operations follow the discipline with an empty account throughout. -/
theorem follows_neutral {p : Prog S ε α} {s : σ} (h : p.Issues (D.Neutral M))
    (hQ : ∀ r t, D.grows s t → D.Inv t → Q r 0 t) : D.Follows M Q p 0 s := by
  induction p generalizing s with
  | done r => exact hQ r
  | call o k ih =>
    refine ⟨h.1.holds, fun t hst ht => ⟨fun _ => ?_, fun _ => ?_⟩⟩
    · refine ⟨h.1.inv t ht, h.1.gives t ht, 0, by rw [h.1.worth t ht], ih _ (h.2 _) ?_⟩
      exact fun r u hu => hQ r u (D.trans hst (D.trans (D.gives_grows (h.1.gives t ht)) hu))
    · exact ih _ (h.2 _) fun r u hu => hQ r u (D.trans hst hu)

/-- Neutral operations first, and what follows depends on their result. -/
theorem Follows.neutral_bind {p : Prog S ε α} {f : α → Prog S ε β} {s : σ} {ψ : α → Prop}
    (h : p.Issues (D.Neutral M)) (hp : p.Yields ψ)
    (hf : ∀ a t, ψ a → D.grows s t → D.Inv t → D.Follows M Settled (f a) 0 t) (hs : D.Inv s) :
    D.Follows M Settled (p >>= f) 0 s := by
  rw [Prog.bind_def]
  induction p generalizing s with
  | done r =>
    cases r with
    | ok a => exact hf a s hp (D.refl s) hs
    | error e => exact settled_done
  | call o k ih =>
    refine ⟨h.1.holds, fun t hst ht => ⟨fun _ => ?_, fun _ => ?_⟩⟩
    · have hinv := h.1.inv t ht
      refine ⟨hinv, h.1.gives t ht, 0, by rw [h.1.worth t ht], ih _ (h.2 _) (hp _) ?_ hinv⟩
      exact fun a u ha hu => hf a u ha (D.trans hst (D.trans (D.gives_grows (h.1.gives t ht)) hu))
    · exact ih _ (h.2 _) (hp _) (fun a u ha hu => hf a u ha (D.trans hst hu)) ht

theorem settled_neutral {p : Prog S ε α} {s : σ} (h : p.Issues (D.Neutral M)) :
    D.Follows M Settled p 0 s := follows_neutral h fun _ _ _ _ => rfl

/-! ## Transactions -/

section Transactions

variable {T : Signature.{0}} {D : Discipline T σ γ} {M : Machine T ε σ}

/-- The discipline of programs that also issue transactions. A transaction starts and ends with an
empty account; it may fail at any time. -/
def tx (D : Discipline T σ γ) (ε : Type) : Discipline (T.tx ε) σ γ where
  Inv := D.Inv
  grows := D.grows
  gives
    | .op o, s, t => D.gives o s t
    | .txn _, s, t => D.grows s t
  may
    | .op o, s => D.may o s
    | .txn _, _ => True
  mayFail
    | .op o, s => D.mayFail o s
    | .txn _, _ => True
  worth := D.worth
  holds
    | .op o, g => D.holds o g
    | .txn _, g => g = 0
  refl := D.refl
  trans := D.trans
  gives_grows {o _ _} h := by
    cases o with
    | op o => exact D.gives_grows h
    | txn work => exact h

theorem Follows.embed {Q : Except ε α → γ → σ → Prop} {p : Prog T ε α} {g : γ} {s : σ}
    (h : D.Follows M Q p g s) : (D.tx ε).Follows M.transactional Q p.embed g s := by
  induction p generalizing g s with
  | done r => exact h
  | call o k ih =>
    refine ⟨h.1, fun t hst ht => ⟨fun hm => ?_, fun hf => ih _ ((h.2 t hst ht).2 hf)⟩⟩
    obtain ⟨hinv, hgive, g', hw, hk⟩ := (h.2 t hst ht).1 hm
    exact ⟨hinv, hgive, g', hw, ih _ hk⟩

theorem Neutral.tx {o : T.Op} (h : D.Neutral M o) : (D.tx ε).Neutral M.transactional (.op o) where
  holds := h.holds
  inv := h.inv
  gives := h.gives
  worth := h.worth

theorem issues_neutral_tx {p : Prog T ε α} (h : p.Issues (D.Neutral M)) :
    p.embed.Issues ((D.tx ε).Neutral M.transactional) :=
  h.embed_single.mono fun o ho => by
    cases o with
    | op o => exact ho.tx
    | txn work => exact ho.elim

/-- A program run as one step only has to settle when it commits. -/
theorem settled_txn {work : Prog T ε α} {s : σ}
    (h : ∀ t, D.Inv t → D.Follows M (fun r g _ => ∀ a, r = .ok a → g = 0) work 0 t)
    (hmay : work.Issues fun o => ∀ t, D.may o t) :
    (D.tx ε).Follows M.transactional Settled
      (Prog.perform (S := T.tx ε) (.txn work)) 0 s := by
  refine ⟨rfl, fun t _ ht => ⟨fun _ => ?_, fun _ => settled_done⟩⟩
  obtain ⟨hinv, hgrow, g', hw, hq⟩ := (h t ht).eval ht hmay
  simp only [Machine.transactional]
  split
  · next b u heq =>
    simp only [heq] at hinv hgrow hw hq
    obtain rfl := hq b rfl
    exact ⟨hinv, hgrow, 0, hw, settled_done⟩
  · exact ⟨ht, D.refl t, 0, rfl, settled_done⟩

end Transactions

/-! ## Pools -/

/-- Every thread follows the discipline with its own account. -/
structure Governs (D : Discipline S σ γ) (M : Machine S ε σ)
    (Q : L → Except ε α → γ → σ → Prop) (c : Pool S ε α σ L) (gs : List γ) : Prop where
  inv : D.Inv c.state
  follows : List.Forall₂ (fun t g => D.Follows M (Q t.label) t.prog g c.state) c.threads gs

variable {Q : L → Except ε α → γ → σ → Prop} {sys : System S ε α σ L}

/-- The steps a discipline accounts for: started programs follow it with an empty account,
operations succeed and fail where it says so, and a program is stopped only where its end would
be accepted. -/
structure Admitted (D : Discipline S σ γ) (sys : System S ε α σ L)
    (Q : L → Except ε α → γ → σ → Prop) (c : Pool S ε α σ L) (a : Action L) : Prop where
  spawn : ∀ l, a = .spawn l → D.Inv c.state → D.Follows sys.machine (Q l) (sys.code l) 0 c.state
  act : ∀ i o, a = .act i → c.head? i = some o → D.may o c.state
  fault : ∀ i o, a = .fault i → c.head? i = some o → D.mayFail o c.state
  kill : ∀ i t g, a = .kill i → c.threads[i]? = some t →
    D.Follows sys.machine (Q t.label) t.prog g c.state →
    ∀ u, D.grows c.state u → D.Inv u → Q t.label (.error sys.machine.fault) g u

/-- Replacing one member of a related list, and what it does to the sum of the accounts. -/
private theorem forall₂_set {τ : Type w} {R R' : τ → γ → Prop} {ts : List τ} {gs : List γ}
    (h : List.Forall₂ R ts gs) (himp : ∀ t g, R t g → R' t g) {i : Nat} {t : τ}
    (hi : ts[i]? = some t) :
    ∃ g rest, R t g ∧ gs.sum = g + rest ∧ ∀ t' g', R' t' g' →
      List.Forall₂ R' (ts.set i t') (gs.set i g') ∧ (gs.set i g').sum = g' + rest := by
  induction h generalizing i with
  | nil => simp at hi
  | @cons a b ts gs hab hrest ih =>
    cases i with
    | zero =>
      obtain rfl : a = t := by simpa using hi
      exact ⟨b, gs.sum, hab, by simp, fun t' g' ht' =>
        ⟨.cons ht' (hrest.imp fun _ _ => himp _ _), by simp⟩⟩
    | succ i =>
      obtain ⟨g, rest, hg, hsum, hset⟩ := ih (by simpa using hi)
      refine ⟨g, b + rest, hg, by simp [hsum, add_left_comm], fun t' g' ht' => ?_⟩
      obtain ⟨hall, hsum'⟩ := hset t' g' ht'
      exact ⟨.cons (himp _ _ hab) hall, by simp [hsum', add_left_comm]⟩

theorem Governs.step {c d : Pool S ε α σ L} {a : Action L} {gs : List γ}
    (h : D.Governs sys.machine Q c gs) (ha : D.Admitted sys Q c a) (hs : sys.step c a = some d) :
    D.grows c.state d.state ∧ ∃ gs', D.Governs sys.machine Q d gs' ∧
      D.worth d.state + gs'.sum = D.worth c.state + gs.sum := by
  obtain ⟨hinv, hall⟩ := h
  obtain ⟨l, rfl, rfl⟩ | ⟨i, l, o, k, ht, hmove⟩ := sys.step_cases hs
  · refine ⟨D.refl _, gs ++ [0], ⟨hinv, ?_⟩, by simp⟩
    exact List.rel_append hall (.cons (ha.spawn l rfl hinv) .nil)
  have hhead : c.head? i = some o := by simp [Pool.head?, ht, Prog.head?]
  obtain ⟨rfl, rfl⟩ | ⟨rfl, rfl⟩ | ⟨rfl, rfl⟩ := hmove
  · have hgrow : ∀ g, D.Follows sys.machine (Q l) (.call o k) g c.state →
        D.grows c.state (sys.machine.exec o c.state).2 := fun g hg =>
      D.gives_grows ((hg.2 _ (D.refl _) hinv).1 (ha.act i o rfl hhead)).2.1
    obtain ⟨g, rest, hg, -, -⟩ := forall₂_set hall (fun _ _ => id) ht
    obtain ⟨g, rest, hg, hsum, hset⟩ := forall₂_set hall
      (fun t g ht => Follows.mono (t := (sys.machine.exec o c.state).2) ht (hgrow _ hg)) ht
    obtain ⟨hinv', hgive', g', hw, hk⟩ := (hg.2 _ (D.refl _) hinv).1 (ha.act i o rfl hhead)
    obtain ⟨hall', hsum'⟩ := hset ⟨l, k _⟩ g' hk
    refine ⟨D.gives_grows hgive', _, ⟨hinv', hall'⟩, ?_⟩
    calc _ = D.worth (sys.machine.exec o c.state).2 + g' + rest := by rw [hsum', add_assoc]
      _ = D.worth c.state + gs.sum := by rw [hw, hsum, add_assoc]
  · obtain ⟨g, rest, hg, hsum, hset⟩ := forall₂_set hall (fun _ _ => id) ht
    obtain ⟨hall', hsum'⟩ := hset ⟨l, k (.error sys.machine.fault)⟩ g
      ((hg.2 _ (D.refl _) hinv).2 (ha.fault i o rfl hhead))
    exact ⟨D.refl _, _, ⟨hinv, hall'⟩, by rw [hsum', hsum]⟩
  · obtain ⟨g, rest, hg, hsum, hset⟩ := forall₂_set hall (fun _ _ => id) ht
    obtain ⟨hall', hsum'⟩ := hset ⟨l, .done (.error sys.machine.fault)⟩ g
      (ha.kill i ⟨l, .call o k⟩ g rfl ht hg)
    exact ⟨D.refl _, _, ⟨hinv, hall'⟩, by rw [hsum', hsum]⟩

/-- What the operation a thread issues does to the store is what it guarantees. -/
theorem Governs.gives {c : Pool S ε α σ L} {i : Nat} {o : S.Op} {gs : List γ}
    (h : D.Governs sys.machine Q c gs) (ha : D.Admitted sys Q c (.act i))
    (hhead : c.head? i = some o) : D.gives o c.state (sys.machine.exec o c.state).2 := by
  obtain ⟨hinv, hall⟩ := h
  obtain ⟨⟨l, p⟩, ht, hp⟩ := Option.bind_eq_some_iff.1 hhead
  cases p with
  | done r => simp [Prog.head?] at hp
  | call o' k =>
    obtain rfl : o' = o := by simpa [Prog.head?] using hp
    obtain ⟨g, -, hg, -, -⟩ := forall₂_set hall (fun _ _ => id) ht
    exact ((hg.2 _ (D.refl _) hinv).1 (ha.act i o' rfl hhead)).2.1

/-- Along a run the invariant holds, the store grows, and worth and accounts keep their sum. -/
theorem Governs.run {c d : Pool S ε α σ L} {as : List (Action L)} {gs : List γ}
    (h : D.Governs sys.machine Q c gs) (hr : sys.Run (D.Admitted sys Q) c as d) :
    D.grows c.state d.state ∧ ∃ gs', D.Governs sys.machine Q d gs' ∧
      D.worth d.state + gs'.sum = D.worth c.state + gs.sum := by
  induction hr generalizing gs with
  | nil c => exact ⟨D.refl _, gs, h, rfl⟩
  | cons ha hs _ ih =>
    obtain ⟨hgrow, gs', h', hw⟩ := h.step ha hs
    obtain ⟨hgrow', gs'', h'', hw'⟩ := ih h'
    exact ⟨D.trans hgrow hgrow', gs'', h'', hw'.trans hw⟩

end Discipline
end Effect
