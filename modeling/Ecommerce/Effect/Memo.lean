import Ecommerce.Effect.Calls
import Mathlib.Data.List.Forall2

/-!
# Remembering what a program has done

A memo is built up from the operations that a program issues and the replies it gets. What the
program may issue next depends on its memo, whatever the store and the other programs are. A pool
of such programs has one memo for each of its threads.

Two signatures over one store are put together with `Signature.sum`.
-/

namespace Effect

universe u v w

/-! ## Two signatures -/

/-- The operations of both signatures. -/
def Signature.sum (S T : Signature.{0}) : Signature.{0} where
  Op := S.Op ⊕ T.Op
  Reply
    | .inl o => S.Reply o
    | .inr o => T.Reply o

section Sum

variable {S T : Signature.{0}} {ε α β : Type} {σ : Type v}

/-- Two machines on the same store. -/
def Machine.sum (M : Machine S ε σ) (N : Machine T ε σ) : Machine (S.sum T) ε σ where
  exec
    | .inl o, s => M.exec o s
    | .inr o, s => N.exec o s
  fault := M.fault

/-- A program of the first signature. -/
def Prog.inl : Prog S ε α → Prog (S.sum T) ε α
  | .done r => .done r
  | .call o k => .call (.inl o) fun r => (k r).inl

theorem Prog.inl_bind (p : Prog S ε α) (f : α → Prog S ε β) :
    ((p >>= f).inl : Prog (S.sum T) ε β) = p.inl >>= fun a => (f a).inl := by
  induction p with
  | done r => cases r <;> rfl
  | call o k ih => exact congrArg (Prog.call (S := S.sum T) (.inl o)) (funext ih)

/-- The same with the transactions of the first signature. -/
def Prog.inlTx : Prog (S.tx ε) ε α → Prog ((S.sum T).tx ε) ε α
  | .done r => .done r
  | .call (.op o) k => .call (.op (.inl o)) fun r => (k r).inlTx
  | .call (.txn work) k => .call (.txn work.inl) fun r => (k r).inlTx

end Sum

/-! ## Memos -/

variable {S : Signature.{u}} {ε α β γ : Type} {σ : Type v} {L : Type w}

/-- How a memo is built up, what it lets a program issue, and the replies that can be relied on. -/
structure Memo (S : Signature.{u}) (ε γ : Type) where
  note : (o : S.Op) → Except ε (S.Reply o) → γ → γ
  may : S.Op → γ → Prop
  allows : (o : S.Op) → Except ε (S.Reply o) → Prop

namespace Memo

/-- From the memo on, the program issues only what its memo lets it, and ends as `Q` says. -/
def Tracks (G : Memo S ε γ) (Q : Except ε α → γ → Prop) : Prog S ε α → γ → Prop
  | .done r, g => Q r g
  | .call o k, g => G.may o g ∧ ∀ r, G.allows o r → G.Tracks Q (k r) (G.note o r g)

variable {G : Memo S ε γ} {Q : Except ε α → γ → Prop}

theorem Tracks.weaken {R : Except ε α → γ → Prop} {p : Prog S ε α} {g : γ} (h : G.Tracks Q p g)
    (himp : ∀ r g, Q r g → R r g) : G.Tracks R p g := by
  induction p generalizing g with
  | done r => exact himp r g h
  | call o k ih => exact ⟨h.1, fun r hr => ih r (h.2 r hr)⟩

/-- Sequencing: what follows the first program starts from any memo it may end with. -/
theorem Tracks.bind {p : Prog S ε α} {f : α → Prog S ε β} {g : γ} {Q : Except ε β → γ → Prop}
    (hp : G.Tracks (fun r g => match r with
      | .ok a => G.Tracks Q (f a) g
      | .error e => Q (.error e) g) p g) : G.Tracks Q (p.bind f) g := by
  induction p generalizing g with
  | done r =>
    cases r with
    | ok a => exact hp
    | error e => exact hp
  | call o k ih => exact ⟨hp.1, fun r hr => ih r (hp.2 r hr)⟩

/-- The code goes on with the value of a reply. -/
theorem Tracks.done_bind {a : α} {f : α → Prog S ε β} {g : γ} {Q : Except ε β → γ → Prop}
    (h : G.Tracks Q (f a) g) : G.Tracks Q ((Prog.done (.ok a)).bind f) g := h

theorem Tracks.attempt {Q : Except ε (Except ε α) → γ → Prop} {p : Prog S ε α} {g : γ}
    (h : G.Tracks (fun r g => Q (.ok r) g) p g) : G.Tracks Q p.attempt g := by
  induction p generalizing g with
  | done r => exact h
  | call o k ih => exact ⟨h.1, fun r hr => ih r (h.2 r hr)⟩

theorem Tracks.catching {p : Prog S ε α} {f : ε → Prog S ε α} {g : γ}
    (h : G.Tracks (fun r g => match r with
      | .ok a => Q (.ok a) g
      | .error e => G.Tracks Q (f e) g) p g) : G.Tracks Q (p.catching f) g := by
  induction p generalizing g with
  | done r =>
    cases r with
    | ok a => exact h
    | error e => exact h
  | call o k ih => exact ⟨h.1, fun r hr => ih r (h.2 r hr)⟩

/-- An operation that may always be issued and that no memo notes. -/
def Unnoted (G : Memo S ε γ) (o : S.Op) : Prop := ∀ g, G.may o g ∧ ∀ r, G.note o r g = g

/-- Programs of operations that leave the memo as it is. -/
theorem tracks_still {p : Prog S ε α} {g : γ}
    (h : p.Issues fun o => G.may o g ∧ ∀ r, G.note o r g = g) (hQ : ∀ r, Q r g) : G.Tracks Q p g := by
  induction p with
  | done r => exact hQ r
  | call o k ih =>
    refine ⟨h.1.1, fun r _ => ?_⟩
    rw [h.1.2 r]
    exact ih r (h.2 r)

theorem tracks_unnoted {p : Prog S ε α} {g : γ} (h : p.Issues G.Unnoted) (hQ : ∀ r, Q r g) :
    G.Tracks Q p g :=
  tracks_still (h.mono fun _ ho => ho g) hQ

/-- What they return is as they promise. -/
theorem tracks_unnoted_yields {p : Prog S ε α} {g : γ} {ψ : α → Prop} (h : p.Issues G.Unnoted)
    (hp : p.Yields ψ) (hQ : ∀ a, ψ a → Q (.ok a) g) (hE : ∀ e, Q (.error e) g) : G.Tracks Q p g := by
  induction p with
  | done r =>
    cases r with
    | ok a => exact hQ a hp
    | error e => exact hE e
  | call o k ih =>
    refine ⟨(h.1 g).1, fun r _ => ?_⟩
    rw [(h.1 g).2 r]
    exact ih r (h.2 r) (hp r)

/-- What every operation keeps of the memo. -/
theorem tracks_invariant {φ : S.Op → Prop} {P : γ → Prop} {p : Prog S ε α} {g : γ} (h : p.Issues φ)
    (hmay : ∀ o g, φ o → P g → G.may o g) (hnote : ∀ o r g, φ o → P g → P (G.note o r g))
    (hQ : ∀ r g, P g → Q r g) (hg : P g) : G.Tracks Q p g := by
  induction p generalizing g with
  | done r => exact hQ r g hg
  | call o k ih => exact ⟨hmay o g h.1 hg, fun r _ => ih r (h.2 r) (hnote o r g h.1 hg)⟩

/-- What a program returns is as it promises, besides. -/
theorem Tracks.yields {p : Prog S ε α} {g : γ} {ψ : α → Prop} (h : G.Tracks Q p g) (hp : p.Yields ψ) :
    G.Tracks (fun r g => Q r g ∧ ∀ a, r = .ok a → ψ a) p g := by
  induction p generalizing g with
  | done r =>
    refine ⟨h, ?_⟩
    rintro a rfl
    exact hp
  | call o k ih => exact ⟨h.1, fun r hr => ih r (h.2 r hr) (hp r)⟩

/-- Under the replies that are relied on, the program issues what its memo lets it. -/
theorem Tracks.issuesIf {φ : S.Op → Prop} {p : Prog S ε α} {g : γ} (h : G.Tracks Q p g)
    (hmay : ∀ o g, G.may o g → φ o) : p.IssuesIf G.allows φ := by
  induction p generalizing g with
  | done r => trivial
  | call o k ih => exact ⟨hmay o g h.1, fun r hr => ih r (h.2 r hr)⟩

/-- Run alone, a program keeps what its operations keep of the memo and the store. -/
theorem Tracks.eval {M : Machine S ε σ} {I : γ → σ → Prop} {p : Prog S ε α} {g : γ} {s : σ}
    (h : G.Tracks Q p g) (hallows : ∀ o s, G.allows o (M.exec o s).1)
    (hexec : ∀ o g s, G.may o g → I g s → I (G.note o (M.exec o s).1 g) (M.exec o s).2) (hs : I g s) :
    ∃ g', Q (p.eval M s).1 g' ∧ I g' (p.eval M s).2 := by
  induction p generalizing g s with
  | done r => exact ⟨g, h, hs⟩
  | call o k ih => exact ih _ (h.2 _ (hallows o s)) (hexec o g s h.1 hs)

/-- A program of single operations, among programs that also issue transactions. -/
theorem Tracks.embed {T : Signature.{0}} {G : Memo T ε γ} {G' : Memo (T.tx ε) ε γ}
    {Q : Except ε α → γ → Prop} (hnote : ∀ o r g, G'.note (.op o) r g = G.note o r g)
    (hmay : ∀ o g, G.may o g → G'.may (.op o) g)
    (hallows : ∀ o r, G'.allows (.op o) r → G.allows o r) {p : Prog T ε α} {g : γ}
    (h : G.Tracks Q p g) : G'.Tracks Q p.embed g := by
  induction p generalizing g with
  | done r => exact h
  | call o k ih =>
    refine ⟨hmay o g h.1, fun r hr => ?_⟩
    rw [hnote o r g]
    exact ih r (h.2 r (hallows o r hr))

/-- A program of the first of two signatures. -/
theorem Tracks.inl {S T : Signature.{0}} {Q : Except ε α → γ → Prop} {G : Memo S ε γ} {G' : Memo (S.sum T) ε γ}
    (hnote : ∀ o r g, G'.note (.inl o) r g = G.note o r g)
    (hmay : ∀ o g, G.may o g → G'.may (.inl o) g)
    (hallows : ∀ o r, G'.allows (.inl o) r → G.allows o r) {p : Prog S ε α} {g : γ}
    (h : G.Tracks Q p g) : G'.Tracks Q (p.inl : Prog (S.sum T) ε α) g := by
  induction p generalizing g with
  | done r => exact h
  | call o k ih =>
    refine ⟨hmay o g h.1, fun r hr => ?_⟩
    rw [hnote o r g]
    exact ih r (h.2 r (hallows o r hr))

theorem Tracks.inl_bind {S T : Signature.{0}} {G : Memo (S.sum T) ε γ} {p : Prog S ε α}
    {f : α → Prog S ε β} {g : γ} {Q : Except ε β → γ → Prop}
    (hp : G.Tracks (fun r g => match r with
      | .ok a => G.Tracks Q (f a).inl g
      | .error e => Q (.error e) g) p.inl g) : G.Tracks Q (p >>= f).inl g := by
  rw [Prog.inl_bind]
  exact hp.bind

/-! ## Pools -/

/-- What stands in a list after an entry is added. -/
theorem getElem?_snoc_cases {γ : Type w} {gs : List γ} {g x : γ} {j : Nat} (h : (gs ++ [g])[j]? = some x) :
    gs[j]? = some x ∨ x = g := by
  rw [List.getElem?_append] at h
  split at h
  · exact .inl h
  · exact .inr (List.mem_singleton.1 (List.mem_of_getElem? h))

/-- What stands in a list after an entry is replaced. -/
theorem getElem?_set_cases {γ : Type w} {gs : List γ} {g x : γ} {i j : Nat} (h : (gs.set i g)[j]? = some x) :
    (j = i ∧ x = g) ∨ (j ≠ i ∧ gs[j]? = some x) := by
  by_cases hij : i = j
  · subst hij
    obtain ⟨hlt, hx⟩ := List.getElem?_eq_some_iff.1 h
    exact .inl ⟨rfl, by simpa using hx.symm⟩
  · rw [List.getElem?_set_ne hij] at h
    exact .inr ⟨fun h => hij h.symm, h⟩

/-- What one of the others satisfies, it still does when the `i`th is replaced. -/
theorem exists_mem_set {P : γ → Prop} {gs : List γ} {i : Nat} {g g' : γ} (hi : gs[i]? = some g)
    (h : ∃ x ∈ gs, P x) (hkeeps : P g → P g') : ∃ x ∈ gs.set i g', P x := by
  obtain ⟨x, hx, hP⟩ := h
  obtain ⟨j, hj⟩ := List.mem_iff_getElem?.1 hx
  have hlt : i < gs.length := (List.getElem?_eq_some_iff.1 hi).1
  by_cases hij : i = j
  · subst hij
    obtain rfl := Option.some_inj.1 (hi.symm.trans hj)
    exact ⟨g', List.mem_set hlt g', hkeeps hP⟩
  · have hset : (gs.set i g')[j]? = some x := (List.getElem?_set_ne hij).trans hj
    exact ⟨x, List.mem_of_getElem? hset, hP⟩

/-- Every thread has a memo of its own, and goes on from it. -/
def Minutes (G : Memo S ε γ) (Q : L → Except ε α → γ → Prop) (c : Pool S ε α σ L) (gs : List γ) :
    Prop :=
  List.Forall₂ (fun t g => G.Tracks (Q t.label) t.prog g) c.threads gs

variable {Q : L → Except ε α → γ → Prop} {sys : System S ε α σ L}
variable {start : L → γ}

/-- A thread goes on from the memo in its place. -/
theorem Minutes.memo {c : Pool S ε α σ L} {gs : List γ} (h : G.Minutes Q c gs) {i : Nat}
    {t : Thread S ε α L} (ht : c.threads[i]? = some t) :
    ∃ g, gs[i]? = some g ∧ G.Tracks (Q t.label) t.prog g := by
  obtain ⟨hlt, rfl⟩ := List.getElem?_eq_some_iff.1 ht
  have hlt' : i < gs.length := h.length_eq ▸ hlt
  exact ⟨gs[i], List.getElem?_eq_getElem hlt', List.Forall₂.get h hlt hlt'⟩

/-- What a thread issues next is what its memo lets it. -/
theorem Minutes.head {c : Pool S ε α σ L} {gs : List γ} (h : G.Minutes Q c gs) {i : Nat} {o : S.Op}
    (ho : c.head? i = some o) : ∃ g, gs[i]? = some g ∧ G.may o g := by
  obtain ⟨⟨l, p⟩, ht, hp⟩ := Option.bind_eq_some_iff.1 ho
  obtain ⟨g, hg, htracks⟩ := h.memo ht
  cases p with
  | done r => cases hp
  | call o' k =>
    obtain rfl := Option.some_inj.1 hp
    exact ⟨g, hg, htracks.1⟩

/-- Once no program has an operation left, every memo is one to end with. -/
theorem Minutes.ended {c : Pool S ε α σ L} {gs : List γ} (h : G.Minutes Q c gs) (hend : c.Quiescent) :
    ∀ g ∈ gs, ∃ l r, Q l r g := by
  intro g hg
  obtain ⟨i, hi, rfl⟩ := List.mem_iff_getElem.1 hg
  have hlt : i < c.threads.length := h.length_eq.symm ▸ hi
  have htracks : G.Tracks (Q c.threads[i].label) c.threads[i].prog gs[i] := List.Forall₂.get h hlt hi
  have hdone := hend c.threads[i] (List.getElem_mem hlt)
  revert htracks hdone
  cases c.threads[i].prog with
  | done r => exact fun hr _ => ⟨_, r, hr⟩
  | call o k => exact fun _ hnone => by cases hnone

/-- Replacing a thread and its memo. -/
theorem Minutes.set {c : Pool S ε α σ L} {gs : List γ} (h : G.Minutes Q c gs) {i : Nat}
    {t : Thread S ε α L} {g : γ} (ht : G.Tracks (Q t.label) t.prog g) :
    List.Forall₂ (fun t g => G.Tracks (Q t.label) t.prog g) (c.threads.set i t) (gs.set i g) := by
  rw [List.forall₂_iff_get]
  refine ⟨by simp [h.length_eq], fun j hj hj' => ?_⟩
  by_cases hij : i = j
  · subst hij
    simpa using ht
  · have := h.get (by simpa using hj) (by simpa using hj')
    simpa [List.getElem_set_ne hij] using this

/-- What a step does to the memos: a new thread gets one of its own, and the thread that moves adds to
its own. -/
theorem Minutes.step {c d : Pool S ε α σ L} {a : Action L} {gs : List γ} (h : G.Minutes Q c gs)
    (hcode : ∀ l, a = .spawn l → G.Tracks (Q l) (sys.code l) (start l)) (hs : sys.step c a = some d)
    (hact : ∀ o, G.allows o (sys.machine.exec o c.state).1)
    (hfault : ∀ i o, a = .fault i → c.head? i = some o → G.allows o (.error sys.machine.fault))
    (hkill : ∀ i, a = .kill i → ∀ l o k g, G.Tracks (Q l) (.call o k) g →
      Q l (.error sys.machine.fault) g) :
    ∃ gs', G.Minutes Q d gs' ∧
      ((∃ l, a = .spawn l ∧ gs' = gs ++ [start l] ∧ d.state = c.state) ∨
        ∃ i o g, c.head? i = some o ∧ gs[i]? = some g ∧ G.may o g ∧
          ((a = .act i ∧ d.state = (sys.machine.exec o c.state).2 ∧
              gs' = gs.set i (G.note o (sys.machine.exec o c.state).1 g)) ∨
            (d.state = c.state ∧ gs' = gs.set i (G.note o (.error sys.machine.fault) g)) ∨
            (d.state = c.state ∧ gs' = gs))) := by
  obtain ⟨l, rfl, rfl⟩ | ⟨i, l, o, k, ht, hmove⟩ := sys.step_cases hs
  · exact ⟨gs ++ [start l], List.rel_append h (.cons (hcode l rfl) .nil), .inl ⟨l, rfl, rfl, rfl⟩⟩
  have hhead : c.head? i = some o := by simp [Pool.head?, ht, Prog.head?]
  obtain ⟨hlt, hti⟩ := List.getElem?_eq_some_iff.1 ht
  have hlen : i < gs.length := h.length_eq ▸ hlt
  have hi : G.Tracks (Q l) (.call o k) gs[i] := by
    have := h.get hlt hlen
    simpa [hti] using this
  have hget : gs[i]? = some gs[i] := List.getElem?_eq_getElem hlen
  obtain ⟨rfl, rfl⟩ | ⟨rfl, rfl⟩ | ⟨rfl, rfl⟩ := hmove
  · exact ⟨_, h.set (t := ⟨l, _⟩) (hi.2 _ (hact o)), .inr ⟨i, o, gs[i], hhead, hget, hi.1,
      .inl ⟨rfl, rfl, rfl⟩⟩⟩
  · exact ⟨_, h.set (t := ⟨l, _⟩) (hi.2 _ (hfault i o rfl hhead)), .inr ⟨i, o, gs[i], hhead, hget,
      hi.1, .inr (.inl ⟨rfl, rfl⟩)⟩⟩
  · have hset := h.set (i := i) (t := ⟨l, .done (.error sys.machine.fault)⟩) (g := gs[i])
      (hkill i rfl l o k gs[i] hi)
    rw [List.set_getElem_self] at hset
    exact ⟨gs, hset, .inr ⟨i, o, gs[i], hhead, hget, hi.1, .inr (.inr ⟨rfl, rfl⟩)⟩⟩

end Memo
end Effect
