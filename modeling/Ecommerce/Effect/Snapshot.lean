import Ecommerce.Effect.Memo

/-!
# Snapshot isolation

A transaction works on a view of its own, which starts as a snapshot of the store. When it commits,
what it has changed goes into the store, unless the store has changed there as well: then it is
dropped, and its work is run again on a new snapshot. Keys that are given out are never given out
again, in the store or in any view.

`Isolated` collects what an invariant of the store has to satisfy so that no interleaving of
transactions breaks it.
-/

namespace Effect

universe v w

/-- How a store is shared: `share s t` gives out no key that `t` has given out, `conflicts s v t`
says that the view `v` of the snapshot `s` cannot be committed to `t`, and `merge s v t` commits it. -/
structure Sharing (σ : Type v) where
  share : σ → σ → σ
  conflicts : σ → σ → σ → Bool
  merge : σ → σ → σ → σ

/-- An open transaction. -/
structure Txn (σ : Type v) where
  id : Nat
  snapshot : σ
  view : σ

/-- A store with its open transactions, and the number of the next one. -/
structure Snapshots (σ : Type v) where
  store : σ
  txns : List (Txn σ)
  next : Nat

inductive SnapOp (S : Signature.{0}) where
  | start
  | within (id : Nat) (o : S.Op)
  | commit (id : Nat)
  | abort (id : Nat)

/-- The reply of an operation within a transaction, or whether the transaction was committed. -/
def SnapOp.Reply {S : Signature.{0}} : SnapOp S → Type
  | start => Nat
  | within _ o => S.Reply o
  | commit _ => Bool
  | abort _ => Unit

/-- The signature of transactions. -/
def Signature.snap (S : Signature.{0}) : Signature.{0} := ⟨SnapOp S, SnapOp.Reply⟩

variable {S : Signature.{0}} {ε α γ : Type} {σ : Type v} {L : Type w}

namespace Snapshots

variable (s : Snapshots σ) (id : Nat)

def find? : Option (Txn σ) := s.txns.find? (·.id == id)

def close : Snapshots σ := { s with txns := s.txns.filter (·.id != id) }

def setView (view : σ) : Snapshots σ :=
  { s with txns := s.txns.map fun t => if t.id == id then { t with view := view } else t }

theorem find?_close (j : Nat) : (s.close id).find? j = if j = id then none else s.find? j := by
  simp only [close, find?, List.find?_filter]
  by_cases hj : j = id
  · subst hj
    rw [if_pos rfl, List.find?_eq_none]
    simp
  · rw [if_neg hj]
    congr 1
    funext t
    by_cases ht : t.id = j
    · simp [ht, hj]
    · simp [ht]

theorem find?_setView (view : σ) (j : Nat) :
    (s.setView id view).find? j =
      (s.find? j).map fun t => if j = id then { t with view := view } else t := by
  simp only [setView, find?, List.find?_map]
  have hpred : ((fun t : Txn σ => t.id == j) ∘ fun t => if t.id == id then { t with view := view } else t) =
      fun t => t.id == j := by
    funext t
    simp only [Function.comp]
    split <;> rfl
  rw [hpred]
  cases h : s.txns.find? fun t => t.id == j with
  | none => rfl
  | some t =>
    have hid : t.id = j := by simpa using List.find?_some h
    simp [hid]

end Snapshots

/-- A machine whose operations are issued within transactions. -/
def Machine.snap (M : Machine S ε σ) (H : Sharing σ) : Machine S.snap ε (Snapshots σ) where
  exec
    | .start, s =>
      (.ok s.next, { s with txns := ⟨s.next, s.store, s.store⟩ :: s.txns, next := s.next + 1 })
    | .within id o, s =>
      match s.find? id with
      | some t =>
        ((M.exec o (H.share t.view s.store)).1,
          { s.setView id (M.exec o (H.share t.view s.store)).2 with
            store := H.share s.store (M.exec o (H.share t.view s.store)).2 })
      | none => (.error M.fault, s)
    | .commit id, s =>
      match s.find? id with
      | some t =>
        if H.conflicts t.snapshot t.view s.store then (.ok false, s.close id)
        else (.ok true, { s.close id with store := H.merge t.snapshot t.view s.store })
      | none => (.error M.fault, s)
    | .abort id, s => (.ok (), s.close id)
  fault := M.fault

/-! ## Running work in a transaction -/

/-- The program within a transaction. -/
def Prog.within (id : Nat) : Prog S ε α → Prog S.snap ε α
  | .done r => .done r
  | .call o k => .call (.within id o) fun r => (k r).within id

section WithTransaction

variable (transient : ε → Bool) (expired : ε) (work : Prog S ε α)

/-- Drop a transaction after an exception. One that is transient is followed by another attempt. -/
def abandon (id : Nat) (e : ε) (again : Prog S.snap ε α) : Prog S.snap ε α := do
  let _aborted : Unit ← Prog.perform (S := S.snap) (.abort id)
  if transient e then again else throw e

/-- Run the work in a transaction. After a conflict it is run again in a new transaction, as often as
there are attempts left. -/
def withTransaction : Nat → Prog S.snap ε α
  | 0 => throw expired
  | attempts + 1 => do
    let id : Nat ← Prog.perform (S := S.snap) .start
    match ← (work.within id).attempt with
    | .error e => abandon transient id e (withTransaction attempts)
    | .ok a =>
      let committed : Except ε Bool ← (Prog.perform (S := S.snap) (.commit id)).attempt
      match committed with
      | .ok true => return a
      | .ok false => withTransaction attempts
      | .error e => abandon transient id e (withTransaction attempts)

end WithTransaction

/-! ## What a transaction has done -/

/-- The memo that work starts with, and the open transaction with the memo it has come to. -/
structure TxnMemo (γ : Type) where
  start : γ
  now : Option (Nat × γ)

namespace Memo

variable (G : Memo S ε γ) (ready : γ → Prop)

/-- The memo of a program that runs work in transactions, which commits work that is `ready`. -/
def snap : Memo S.snap ε (TxnMemo γ) where
  note
    | .start, .ok id, g => { g with now := some (id, g.start) }
    | .within _ o, r, g => { g with now := g.now.map fun x => (x.1, G.note o r x.2) }
    | .commit _, .ok _, g => { g with now := none }
    | .abort _, .ok _, g => { g with now := none }
    | _, _, g => g
  may
    | .start, g => g.now = none
    | .within id o, g => ∃ x, g.now = some (id, x) ∧ G.may o x
    | .commit id, g => ∃ x, g.now = some (id, x) ∧ ready x
    | .abort id, g => ∃ x, g.now = some (id, x)
  allows
    | .within _ o, r => G.allows o r
    | _, _ => True

variable {G ready}

theorem Tracks.within {Q : Except ε α → γ → Prop} {p : Prog S ε α} {start x : γ} {id : Nat}
    (h : G.Tracks Q p x) :
    (G.snap ready).Tracks (fun r g => ∃ y, g = ⟨start, some (id, y)⟩ ∧ Q r y) (p.within id)
      ⟨start, some (id, x)⟩ := by
  induction p generalizing x with
  | done r => exact ⟨x, rfl, h⟩
  | call o k ih => exact ⟨⟨x, rfl, h.1⟩, fun r hr => ih r (h.2 r hr)⟩

section WithTransaction

variable {transient : ε → Bool} {expired : ε} {start : γ}

theorem tracks_abandon {again : Prog S.snap ε α} {id : Nat} {e : ε} {x : γ}
    (h : (G.snap ready).Tracks (fun _ _ => True) again ⟨start, none⟩) :
    (G.snap ready).Tracks (fun _ _ => True) (abandon transient id e again) ⟨start, some (id, x)⟩ := by
  refine ⟨⟨x, rfl⟩, fun r _ => ?_⟩
  cases r with
  | error e => trivial
  | ok _ =>
    show (G.snap ready).Tracks _ (ite _ _ _) _
    split
    · exact h
    · trivial

/-- Work that is ready whenever it returns is committed when it is ready. -/
theorem tracks_withTransaction {work : Prog S ε α}
    (h : G.Tracks (fun r g => ∀ a, r = .ok a → ready g) work start) (attempts : Nat) :
    (G.snap ready).Tracks (fun _ _ => True) (withTransaction transient expired work attempts)
      ⟨start, none⟩ := by
  induction attempts with
  | zero => trivial
  | succ attempts ih =>
    refine ⟨rfl, fun r _ => ?_⟩
    cases r with
    | error e => trivial
    | ok id =>
      show (G.snap ready).Tracks _ (Prog.bind (work.within id).attempt _) ⟨start, some (id, start)⟩
      refine Tracks.bind (Tracks.attempt (h.within.weaken ?_))
      rintro r g ⟨x, rfl, hx⟩
      cases r with
      | error e => exact tracks_abandon ih
      | ok a =>
        refine ⟨⟨x, rfl, hx a rfl⟩, fun r _ => ?_⟩
        obtain e | (_ | _) := r
        · exact tracks_abandon ih
        · exact ih
        · trivial

end WithTransaction
end Memo

/-! ## Invariants of the store -/

/-- An invariant of the store that transactions keep. `Behind` relates a snapshot to the later store,
and `View` the note of a transaction to its snapshot and its view. -/
structure Isolated (G : Memo S ε γ) (ready : γ → Prop) (M : Machine S ε σ) (H : Sharing σ)
    (start : L → γ) (Inv : σ → Prop) (Behind : σ → σ → Prop) (View : γ → σ → σ → Prop) : Prop where
  refl : ∀ s, Behind s s
  share : ∀ {s t} v, Behind s t → Behind s (H.share t v)
  shareInv : ∀ {t} v, Inv t → Inv (H.share t v)
  start : ∀ l s, View (start l) s s
  allows : ∀ o s, G.allows o (M.exec o s).1
  allowsFault : ∀ o, G.allows o (.error M.fault)
  exec : ∀ {o g s v} t, G.may o g → View g s v →
    View (G.note o (M.exec o (H.share v t)).1 g) s (M.exec o (H.share v t)).2
  fault : ∀ {o g s v}, View g s v → View (G.note o (.error M.fault) g) s v
  commit : ∀ {g s v t}, Inv s → Inv t → Behind s t → View g s v → ready g →
    H.conflicts s v t = false → Inv (H.merge s v t) ∧ ∀ u, Behind u t → Behind u (H.merge s v t)

namespace Isolated

variable {G : Memo S ε γ} {ready : γ → Prop} {M : Machine S ε σ} {H : Sharing σ} {start : L → γ}
variable {Inv : σ → Prop} {Behind : σ → σ → Prop} {View : γ → σ → σ → Prop}

/-- The store, the snapshots and the views, with what has been noted of the transactions. -/
structure Holds (start : L → γ) (Inv : σ → Prop) (Behind : σ → σ → Prop) (View : γ → σ → σ → Prop)
    (s : Snapshots σ) (gs : List (TxnMemo γ)) : Prop where
  inv : Inv s.store
  starts : ∀ (i : Nat) (x : TxnMemo γ), gs[i]? = some x → ∃ l, x.start = start l
  txns : ∀ t ∈ s.txns, t.id < s.next ∧ Inv t.snapshot ∧ Behind t.snapshot s.store
  view : ∀ (i : Nat) (x : TxnMemo γ) (id : Nat) (g : γ), gs[i]? = some x → x.now = some (id, g) →
    ∃ t, s.find? id = some t ∧ View g t.snapshot t.view
  apart : ∀ (i j : Nat) (x y : TxnMemo γ), i ≠ j → gs[i]? = some x → gs[j]? = some y →
    ∀ p q, x.now = some p → y.now = some q → p.1 ≠ q.1

variable {s s' : Snapshots σ} {gs : List (TxnMemo γ)}

/-- A step of one transaction that leaves the others where they are. -/
theorem Holds.set (h : Holds start Inv Behind View s gs) {i : Nat} {x x' : TxnMemo γ}
    (hi : gs[i]? = some x) (hinv : Inv s'.store) (hx : x'.start = x.start)
    (htxns : ∀ t ∈ s'.txns, t.id < s'.next ∧ Inv t.snapshot ∧ Behind t.snapshot s'.store)
    (hview : ∀ id g, x'.now = some (id, g) → ∃ t, s'.find? id = some t ∧ View g t.snapshot t.view)
    (hothers : ∀ id, (∀ p, x.now = some p → p.1 ≠ id) → id < s.next → s'.find? id = s.find? id)
    (hnew : ∀ p, x'.now = some p → (∃ q, x.now = some q ∧ q.1 = p.1) ∨ s.next ≤ p.1) :
    Holds start Inv Behind View s' (gs.set i x') := by
  have hlt := (List.getElem?_eq_some_iff.1 hi).1
  have hset : ∀ (j : Nat) (y : TxnMemo γ), (gs.set i x')[j]? = some y →
      (j = i ∧ y = x') ∨ (j ≠ i ∧ gs[j]? = some y) := by
    intro j y hy
    by_cases hij : i = j
    · subst hij
      rw [List.getElem?_set_self hlt] at hy
      exact .inl ⟨rfl, (Option.some_inj.1 hy).symm⟩
    · rw [List.getElem?_set_ne hij] at hy
      exact .inr ⟨fun h => hij h.symm, hy⟩
  have hold : ∀ (j : Nat) (y : TxnMemo γ) (q : Nat × γ), gs[j]? = some y → y.now = some q →
      q.1 < s.next := by
    intro j y q hj hy
    obtain ⟨t, ht, -⟩ := h.view j y q.1 q.2 hj hy
    have hid : t.id = q.1 := by simpa [Snapshots.find?] using List.find?_some ht
    exact hid ▸ (h.txns t (List.mem_of_find?_eq_some ht)).1
  have hapart : ∀ (j : Nat) (y : TxnMemo γ), j ≠ i → gs[j]? = some y → ∀ p q, x'.now = some p →
      y.now = some q → p.1 ≠ q.1 := by
    intro j y hj hy p q hp hq
    obtain ⟨p', hp', hsame⟩ | hge := hnew p hp
    · exact hsame ▸ h.apart i j x y hj.symm hi hy p' q hp' hq
    · exact Nat.ne_of_gt (Nat.lt_of_lt_of_le (hold j y q hy hq) hge)
  refine ⟨hinv, fun j y hy => ?_, htxns, fun j y id g hy hnow => ?_,
    fun j k y z hjk hy hz p q hp hq => ?_⟩
  · obtain ⟨rfl, rfl⟩ | ⟨-, hy⟩ := hset j y hy
    · obtain ⟨l, hl⟩ := h.starts j x hi
      exact ⟨l, hx.trans hl⟩
    · exact h.starts j y hy
  · obtain ⟨rfl, rfl⟩ | ⟨hj, hy⟩ := hset j y hy
    · exact hview id g hnow
    · obtain ⟨t, ht, hv⟩ := h.view j y id g hy hnow
      refine ⟨t, ?_, hv⟩
      rw [hothers id (fun p hp => h.apart i j x y hj.symm hi hy p (id, g) hp hnow)
        (hold j y (id, g) hy hnow)]
      exact ht
  · obtain ⟨rfl, rfl⟩ | ⟨hj, hy'⟩ := hset j y hy
    · obtain ⟨rfl, -⟩ | ⟨hk, hz'⟩ := hset k z hz
      · exact absurd rfl hjk
      · exact hapart k z hk hz' p q hp hq
    · obtain ⟨rfl, rfl⟩ | ⟨hk, hz'⟩ := hset k z hz
      · exact (hapart j y hj hy' q p hq hp).symm
      · exact h.apart j k y z hjk hy' hz' p q hp hq

/-- A new program has no transaction yet. -/
theorem Holds.spawn (h : Holds start Inv Behind View s gs) (l : L) :
    Holds start Inv Behind View s (gs ++ [⟨start l, none⟩]) := by
  have hold : ∀ (i : Nat) (x : TxnMemo γ), (gs ++ [⟨start l, none⟩])[i]? = some x →
      gs[i]? = some x ∨ x = ⟨start l, none⟩ := by
    intro i x hx
    by_cases hlt : i < gs.length
    · exact .inl (by rwa [List.getElem?_append_left hlt] at hx)
    · rw [List.getElem?_append_right (Nat.not_lt.1 hlt)] at hx
      exact .inr (List.mem_singleton.1 (List.mem_of_getElem? hx))
  refine ⟨h.inv, fun i x hx => ?_, h.txns, fun i x id g hx hnow => ?_,
    fun i j x y hij hx hy p q hp hq => ?_⟩
  · obtain hx | rfl := hold i x hx
    · exact h.starts i x hx
    · exact ⟨l, rfl⟩
  · obtain hx | rfl := hold i x hx
    · exact h.view i x id g hx hnow
    · cases hnow
  · obtain hx | rfl := hold i x hx
    · obtain hy | rfl := hold j y hy
      · exact h.apart i j x y hij hx hy p q hp hq
      · cases hq
    · cases hp

/-- Closing a transaction. -/
theorem Holds.close (h : Holds start Inv Behind View s gs) {i : Nat} {x : TxnMemo γ} {id : Nat} {g : γ}
    (hi : gs[i]? = some x) (hnow : x.now = some (id, g)) (hclose : s'.txns = (s.close id).txns)
    (hnext : s'.next = s.next) (hinv : Inv s'.store)
    (hbehind : ∀ u, Behind u s.store → Behind u s'.store) :
    Holds start Inv Behind View s' (gs.set i { x with now := none }) := by
  refine h.set hi hinv rfl (fun t ht => ?_) nofun (fun j hj _ => ?_) nofun
  · rw [hclose] at ht
    obtain ⟨hlt, hsnapshot, hb⟩ := h.txns t (List.mem_of_mem_filter ht)
    exact ⟨hnext ▸ hlt, hsnapshot, hbehind _ hb⟩
  · have hfind := s.find?_close id j
    rw [if_neg (hj _ hnow).symm] at hfind
    rw [← hfind, Snapshots.find?, Snapshots.find?, hclose]

/-- What an operation does. -/
theorem Holds.exec (hiso : Isolated G ready M H start Inv Behind View)
    (h : Holds start Inv Behind View s gs) {i : Nat} {x : TxnMemo γ} {o : S.snap.Op}
    (hi : gs[i]? = some x) (hmay : (G.snap ready).may o x) :
    Holds start Inv Behind View ((M.snap H).exec o s).2
      (gs.set i ((G.snap ready).note o ((M.snap H).exec o s).1 x)) := by
  cases o with
  | start =>
    refine h.set hi h.inv rfl (fun t ht => ?_) (fun id g hnow => ?_) (fun id _ hlt => ?_)
      fun p hp => .inr ?_
    · rcases List.mem_cons.1 ht with rfl | ht
      · exact ⟨Nat.lt_succ_self _, h.inv, hiso.refl _⟩
      · obtain ⟨hlt, hrest⟩ := h.txns t ht
        exact ⟨Nat.lt_succ_of_lt hlt, hrest⟩
    · cases hnow
      obtain ⟨l, hl⟩ := h.starts i x hi
      exact ⟨⟨s.next, s.store, s.store⟩, List.find?_cons_of_pos (by simp), hl ▸ hiso.start l s.store⟩
    · exact List.find?_cons_of_neg (by simpa using Nat.ne_of_gt hlt)
    · cases hp
      exact Nat.le_refl _
  | within id o =>
    obtain ⟨g, hnow, hg⟩ := hmay
    obtain ⟨t, ht, hv⟩ := h.view i x id g hi hnow
    simp only [Machine.snap, ht, Memo.snap, hnow, Option.map_some]
    refine h.set hi (hiso.shareInv _ h.inv) rfl (fun u hu => ?_) (fun j g' hnow' => ?_)
      (fun j hj _ => ?_) fun p hp => .inl ⟨_, hnow, ?_⟩
    · obtain ⟨u', hu', rfl⟩ := List.mem_map.1 hu
      obtain ⟨hlt, hsnapshot, hb⟩ := h.txns u' hu'
      split
      · exact ⟨hlt, hsnapshot, hiso.share _ hb⟩
      · exact ⟨hlt, hsnapshot, hiso.share _ hb⟩
    · cases hnow'
      refine ⟨_, (s.find?_setView id _ id).trans (by rw [ht]; exact congrArg _ (if_pos rfl)), ?_⟩
      exact hiso.exec s.store hg hv
    · refine (s.find?_setView id _ j).trans ?_
      cases s.find? j with
      | none => rfl
      | some u => exact congrArg _ (if_neg (hj _ hnow).symm)
    · cases hp
      rfl
  | commit id =>
    obtain ⟨g, hnow, hready⟩ := hmay
    obtain ⟨t, ht, hv⟩ := h.view i x id g hi hnow
    obtain ⟨-, hsnapshot, hb⟩ := h.txns t (List.mem_of_find?_eq_some ht)
    simp only [Machine.snap, ht]
    split
    · exact h.close hi hnow rfl rfl h.inv fun _ hu => hu
    · next hconflicts =>
      obtain ⟨hinv, hbehind⟩ := hiso.commit hsnapshot h.inv hb hv hready (by simpa using hconflicts)
      exact h.close hi hnow rfl rfl hinv hbehind
  | abort id =>
    obtain ⟨g, hnow⟩ := hmay
    exact h.close hi hnow rfl rfl h.inv fun _ hu => hu

/-- What a failing operation does. -/
theorem Holds.fault (hiso : Isolated G ready M H start Inv Behind View)
    (h : Holds start Inv Behind View s gs) {i : Nat} {x : TxnMemo γ} {o : S.snap.Op}
    (hi : gs[i]? = some x) :
    Holds start Inv Behind View s (gs.set i ((G.snap ready).note o (.error M.fault) x)) := by
  have hself : Holds start Inv Behind View s (gs.set i x) := by
    obtain ⟨hlt, rfl⟩ := List.getElem?_eq_some_iff.1 hi
    rwa [List.set_getElem_self]
  cases o with
  | within id o =>
    refine h.set hi h.inv rfl h.txns (fun j g hnow => ?_) (fun _ _ _ => rfl) fun p hp => .inl ?_
    · obtain ⟨⟨k, g'⟩, hnow', heq⟩ := Option.map_eq_some_iff.1 hnow
      cases heq
      obtain ⟨t, ht, hv⟩ := h.view i x k g' hi hnow'
      exact ⟨t, ht, hiso.fault hv⟩
    · obtain ⟨q, hq, rfl⟩ := Option.map_eq_some_iff.1 hp
      exact ⟨q, hq, rfl⟩
  | start => exact hself
  | commit id => exact hself
  | abort id => exact hself

variable {sys : System S.snap ε α (Snapshots σ) L}

/-- The invariant holds of the store along every run. -/
theorem invariant (hiso : Isolated G ready M H start Inv Behind View) (hmachine : sys.machine = M.snap H)
    (hcode : ∀ l, (G.snap ready).Tracks (fun _ _ => True) (sys.code l) ⟨start l, none⟩)
    {admits : Pool S.snap ε α (Snapshots σ) L → Action L → Prop}
    {c d : Pool S.snap ε α (Snapshots σ) L} {as : List (Action L)} (hthreads : c.threads = [])
    (htxns : c.state.txns = []) (hinv : Inv c.state.store) (hrun : sys.Run admits c as d) :
    Inv d.state.store := by
  have hholds := hrun.invariant (P := fun c => ∃ gs,
    (G.snap ready).Minutes (fun _ _ _ => True) c gs ∧ Holds start Inv Behind View c.state gs) ?_ ?_
  · obtain ⟨gs, -, hd⟩ := hholds
    exact hd.inv
  · rintro c a d - hs ⟨gs, hminutes, hc⟩
    have hallows : ∀ o, (G.snap ready).allows o ((M.snap H).exec o c.state).1 := by
      intro o
      cases o with
      | within id o =>
        simp only [Machine.snap, Memo.snap]
        split
        · exact hiso.allows o _
        · exact hiso.allowsFault o
      | _ => trivial
    have hfault : ∀ o, (G.snap ready).allows o (.error M.fault) := by
      intro o
      cases o with
      | within id o => exact hiso.allowsFault o
      | _ => trivial
    have hstep := hminutes.step (fun l _ => hcode l) hs (by rw [hmachine]; exact hallows)
      (by rw [hmachine]; exact fun _ o _ _ => hfault o) fun _ _ _ _ _ _ _ => trivial
    rw [hmachine] at hstep
    obtain ⟨gs', hgs', ⟨l, -, rfl, hstate⟩ | ⟨i, o, x, -, hi, hmay, hmove⟩⟩ := hstep
    · exact ⟨_, hgs', hstate ▸ hc.spawn l⟩
    · obtain ⟨-, hstate, rfl⟩ | ⟨hstate, rfl⟩ | ⟨hstate, rfl⟩ := hmove
      · exact ⟨_, hgs', hstate ▸ hc.exec hiso hi hmay⟩
      · exact ⟨_, hgs', hstate ▸ hc.fault hiso hi⟩
      · exact ⟨_, hgs', hstate ▸ hc⟩
  · exact ⟨[], by rw [Memo.Minutes, hthreads]; exact .nil, hinv, by simp, by simp [htxns], by simp,
      by simp⟩

end Isolated
end Effect
