import Ecommerce.Effect.Memo
import Mathlib.Order.Nat

/-!
# When something was noted

What a memo holds was noted at some step of the run, by a call of the thread whose memo it is. So a
condition on a later call can be stated about the state in which an earlier call of the same thread
was made.
-/

namespace Effect

universe u v w

namespace Memo

variable {S : Signature.{u}} {ε α β γ : Type} {σ : Type v} {L : Type w}

/-- A call of thread `i` along the schedule noted `b` in the field. -/
def NotedAt (G : Memo S ε γ) (sys : System S ε α σ L) (admits : Pool S ε α σ L → Action L → Prop)
    (field : γ → Option β) (c : Pool S ε α σ L) (as : List (Action L)) (d : Pool S ε α σ L) (i : Nat)
    (b : β) : Prop :=
  ∃ before middle e o g, as = before ++ .act i :: middle ∧ sys.Run admits c before e ∧
    e.head? i = some o ∧ G.may o g ∧ field g ≠ some b ∧
    field (G.note o (sys.machine.exec o e.state).1 g) = some b ∧ sys.Run admits e (.act i :: middle) d

variable {G : Memo S ε γ} {Q : L → Except ε α → γ → Prop} {sys : System S ε α σ L}
variable {admits : Pool S ε α σ L → Action L → Prop} {start : L → γ}
variable {c d e : Pool S ε α σ L} {as : List (Action L)} {a : Action L} {i : Nat} {b : β}

theorem NotedAt.snoc {field : γ → Option β} (h : NotedAt G sys admits field c as d i b) (ha : admits d a)
    (hs : sys.step d a = some e) : NotedAt G sys admits field c (as ++ [a]) e i b := by
  obtain ⟨before, middle, x, o, g, rfl, hbefore, hhead, hmay, hnot, hfield, hmiddle⟩ := h
  exact ⟨before, middle ++ [a], x, o, g, by simp, hbefore, hhead, hmay, hnot, hfield, hmiddle.snoc ha hs⟩

/-- Along a run there are memos of all threads, and what their fields hold was noted by a call. The replies
that are relied on may be those of stores that a run can reach. -/
theorem noted_within {I : σ → Prop} (field : γ → Option β) (hcode : ∀ l, G.Tracks (Q l) (sys.code l) (start l))
    (hallows : ∀ o s, I s → G.allows o (sys.machine.exec o s).1)
    (hfault : ∀ o, G.allows o (.error sys.machine.fault))
    (hkill : ∀ l o k g, G.Tracks (Q l) (.call o k) g → Q l (.error sys.machine.fault) g)
    (hblank : ∀ l, field (start l) = none)
    (hsilent : ∀ o g, field (G.note o (.error sys.machine.fault) g) = field g)
    (hI : ∀ o s, I s → I (sys.machine.exec o s).2) (hstart : I c.state)
    (hthreads : c.threads = []) (hrun : sys.Run admits c as d) :
    I d.state ∧ ∃ gs, G.Minutes Q d gs ∧ ∀ i g b, gs[i]? = some g → field g = some b →
      NotedAt G sys admits field c as d i b := by
  refine hrun.induct (P := fun as d => I d.state ∧ ∃ gs, G.Minutes Q d gs ∧ ∀ i g b, gs[i]? = some g →
    field g = some b → NotedAt G sys admits field c as d i b) ?_ ?_
  · exact ⟨hstart, [], by rw [Minutes, hthreads]; exact .nil, by simp⟩
  · rintro as d a e hrun ha hs ⟨hd, gs, hminutes, hnoted⟩
    obtain ⟨gs', hminutes', ⟨l, -, rfl, hstate⟩ | ⟨i, o, g, hhead, hi, hmay, hmove⟩⟩ :=
      hminutes.step (fun l _ => hcode l) hs (fun o => hallows o d.state hd) (fun _ o _ _ => hfault o)
        fun _ _ => hkill
    · refine ⟨hstate ▸ hd, _, hminutes', fun j x b hx hb => ?_⟩
      obtain hx | rfl := getElem?_snoc_cases hx
      · exact (hnoted j x b hx hb).snoc ha hs
      · rw [hblank] at hb
        cases hb
    · have hold : ∀ {g'}, gs' = gs.set i g' → (∀ b, field g' = some b →
          NotedAt G sys admits field c (as ++ [a]) e i b) → ∃ gs, G.Minutes Q e gs ∧ ∀ i g b,
            gs[i]? = some g → field g = some b → NotedAt G sys admits field c (as ++ [a]) e i b := by
        rintro g' rfl hg'
        refine ⟨_, hminutes', fun j x b hx hb => ?_⟩
        obtain ⟨rfl, rfl⟩ | ⟨-, hx⟩ := getElem?_set_cases hx
        · exact hg' b hb
        · exact (hnoted j x b hx hb).snoc ha hs
      obtain ⟨rfl, hstate, hgs⟩ | ⟨hstate, hgs⟩ | ⟨hstate, rfl⟩ := hmove
      · refine ⟨hstate ▸ hI o d.state hd, hold hgs fun b hb => ?_⟩
        by_cases hbefore : field g = some b
        · exact (hnoted i g b hi hbefore).snoc ha hs
        · exact ⟨as, [], d, o, g, rfl, hrun, hhead, hmay, hbefore, hb, .cons ha hs (.nil e)⟩
      · refine ⟨hstate ▸ hd, hold hgs fun b hb => ?_⟩
        rw [hsilent] at hb
        exact (hnoted i g b hi hb).snoc ha hs
      · exact ⟨hstate ▸ hd, _, hminutes', fun j x b hx hb => (hnoted j x b hx hb).snoc ha hs⟩

/-- The same where replies are relied on whatever the store. -/
theorem noted (field : γ → Option β) (hcode : ∀ l, G.Tracks (Q l) (sys.code l) (start l))
    (hallows : ∀ o s, G.allows o (sys.machine.exec o s).1)
    (hfault : ∀ o, G.allows o (.error sys.machine.fault))
    (hkill : ∀ l o k g, G.Tracks (Q l) (.call o k) g → Q l (.error sys.machine.fault) g)
    (hblank : ∀ l, field (start l) = none)
    (hsilent : ∀ o g, field (G.note o (.error sys.machine.fault) g) = field g)
    (hthreads : c.threads = []) (hrun : sys.Run admits c as d) :
    ∃ gs, G.Minutes Q d gs ∧ ∀ i g b, gs[i]? = some g → field g = some b →
      NotedAt G sys admits field c as d i b :=
  (noted_within (I := fun _ => True) field hcode (fun o s _ => hallows o s) hfault hkill hblank hsilent
    (fun _ _ _ => trivial) trivial hthreads hrun).2

/-- What its calls keep of the memo of a thread, holds along a run. -/
theorem Tracks.run {R : Except ε α → γ → Prop} {P : γ → Prop} (hrun : sys.Run admits c as d)
    (hallows : ∀ o s, G.allows o (sys.machine.exec o s).1)
    (hfault : ∀ o, G.allows o (.error sys.machine.fault)) (hkill : ∀ g, R (.error sys.machine.fault) g)
    (hkeep : ∀ o r g, G.may o g → P g → P (G.note o r g)) {l : L} {p : Prog S ε α} {g : γ}
    (hp : c.threads[i]? = some ⟨l, p⟩) (htracks : G.Tracks R p g) (hg : P g) :
    ∃ p' g', d.threads[i]? = some ⟨l, p'⟩ ∧ G.Tracks R p' g' ∧ P g' := by
  refine hrun.invariant
    (P := fun c => ∃ p g, c.threads[i]? = some ⟨l, p⟩ ∧ G.Tracks R p g ∧ P g) ?_ ⟨p, g, hp, htracks, hg⟩
  rintro c a d _ hs ⟨p, g, hp, htracks, hg⟩
  obtain ⟨-, -, -, hd⟩ | ⟨o, k, rfl, ⟨-, -, hd⟩ | ⟨-, -, hd⟩ | ⟨-, -, hd⟩⟩ := sys.step_thread hs hp
  · exact ⟨p, g, hd, htracks, hg⟩
  · exact ⟨_, _, hd, htracks.2 _ (hallows o c.state), hkeep o _ g htracks.1 hg⟩
  · exact ⟨_, _, hd, htracks.2 _ (hfault o), hkeep o _ g htracks.1 hg⟩
  · exact ⟨_, g, hd, hkill g, hg⟩

end Memo

/-! ## Steps by their position -/

namespace System

variable {S : Signature.{u}} {ε α β γ : Type} {σ : Type v} {L : Type w} {sys : System S ε α σ L}
variable {admits : Pool S ε α σ L → Action L → Prop} {c d e : Pool S ε α σ L}
variable {as bs : List (Action L)} {a : Action L} {n i : Nat} {o : S.Op}

/-- Step `n` of the schedule is call `o` of thread `i`. -/
def CallsAt (sys : System S ε α σ L) (admits : Pool S ε α σ L → Action L → Prop) (c : Pool S ε α σ L)
    (as : List (Action L)) (n i : Nat) (o : S.Op) : Prop :=
  as[n]? = some (.act i) ∧ ∃ e, sys.Run admits c (as.take n) e ∧ e.head? i = some o

theorem CallsAt.lt (h : sys.CallsAt admits c as n i o) : n < as.length :=
  (List.getElem?_eq_some_iff.1 h.1).1

theorem CallsAt.append (h : sys.CallsAt admits c as n i o) (bs : List (Action L)) :
    sys.CallsAt admits c (as ++ bs) n i o := by
  have hlt := h.lt
  refine ⟨(List.getElem?_append_left hlt).trans h.1, ?_⟩
  rw [List.take_append_of_le_length hlt.le]
  exact h.2

/-- A call of a longer schedule is one of its beginning, or a later one. -/
theorem CallsAt.snoc_cases (hrun : sys.Run admits c as d) (h : sys.CallsAt admits c (as ++ [a]) n i o) :
    sys.CallsAt admits c as n i o ∨ (n = as.length ∧ a = .act i ∧ d.head? i = some o) := by
  have hlt := h.lt
  rw [List.length_append, List.length_singleton] at hlt
  obtain ⟨hstep, e, he, hhead⟩ := h
  rcases Nat.lt_succ_iff_lt_or_eq.1 hlt with hlt | rfl
  · rw [List.take_append_of_le_length hlt.le] at he
    exact .inl ⟨(List.getElem?_append_left hlt).symm.trans hstep, e, he, hhead⟩
  · rw [List.take_left] at he
    rw [List.getElem?_append_right le_rfl, Nat.sub_self] at hstep
    obtain rfl := Option.some_inj.1 (he.play_eq.symm.trans hrun.play_eq)
    exact .inr ⟨rfl, Option.some_inj.1 hstep, hhead⟩

/-- At one step there is one call. -/
theorem CallsAt.unique {j : Nat} {o' : S.Op} (h : sys.CallsAt admits c as n i o)
    (h' : sys.CallsAt admits c as n j o') : i = j ∧ o = o' := by
  obtain ⟨hi, e, he, ho⟩ := h
  obtain ⟨hj, e', he', ho'⟩ := h'
  obtain rfl := Action.act.inj (Option.some_inj.1 (hi.symm.trans hj))
  obtain rfl := Option.some_inj.1 (he.play_eq.symm.trans he'.play_eq)
  exact ⟨rfl, Option.some_inj.1 (ho.symm.trans ho')⟩

/-- The state before a step of a run. -/
theorem Run.before (h : sys.Run admits c as d) (n : Nat) : ∃ e, sys.Run admits c (as.take n) e := by
  rw [← List.take_append_drop n as] at h
  generalize as.take n = before at h
  generalize as.drop n = after at h
  induction before generalizing c with
  | nil => exact ⟨c, .nil c⟩
  | cons a before ih =>
    cases h with
    | cons ha hs hrest =>
      obtain ⟨e, he⟩ := ih hrest
      exact ⟨e, .cons ha hs he⟩

/-- A run from one position to a later one. -/
theorem Run.between {m : Nat} (hmn : m ≤ n) (hd : sys.Run admits c (as.take m) d)
    (he : sys.Run admits c (as.take n) e) : sys.Run admits d ((as.take n).drop m) e := by
  have htake : (as.take n).take m = as.take m := by rw [List.take_take, Nat.min_eq_left hmn]
  have hwhole : as.take m ++ (as.take n).drop m = as.take n := htake ▸ List.take_append_drop m (as.take n)
  exact hd.rest (hwhole.symm ▸ he)

/-- A call in the first steps of a schedule. -/
theorem CallsAt.take {m : Nat} (h : sys.CallsAt admits c as n i o) (hnm : n < m) :
    sys.CallsAt admits c (as.take m) n i o := by
  refine ⟨(List.getElem?_take_of_lt hnm).trans h.1, ?_⟩
  rw [List.take_take, Nat.min_eq_left hnm.le]
  exact h.2

theorem CallsAt.of_take {m : Nat} (h : sys.CallsAt admits c (as.take m) n i o) :
    sys.CallsAt admits c as n i o := by
  have := h.append (as.drop m)
  rwa [List.take_append_drop] at this

/-- What a step does to the store: nothing, or what the call of the thread does that moves. -/
theorem step_state (hs : sys.step c a = some d) :
    (d.state = c.state ∧ ∀ i o, a = .act i → c.head? i ≠ some o) ∨
      ∃ i o, a = .act i ∧ c.head? i = some o ∧ d.state = (sys.machine.exec o c.state).2 := by
  obtain ⟨l, rfl, rfl⟩ | ⟨i, l, o, k, ht, ⟨rfl, rfl⟩ | ⟨rfl, rfl⟩ | ⟨rfl, rfl⟩⟩ := sys.step_cases hs
  · exact .inl ⟨rfl, by simp⟩
  · exact .inr ⟨i, o, rfl, by simp [Pool.head?, ht, Prog.head?], rfl⟩
  · exact .inl ⟨rfl, by simp⟩
  · exact .inl ⟨rfl, by simp⟩

/-- The step by which a call is made. -/
theorem CallsAt.step (h : sys.CallsAt admits c as n i o) (hd : sys.Run admits c (as.take n) d)
    (he : sys.Run admits c (as.take (n + 1)) e) : d.head? i = some o ∧ sys.step d (.act i) = some e := by
  obtain ⟨hstep, x, hx, hhead⟩ := h
  obtain rfl := Option.some_inj.1 (hx.play_eq.symm.trans hd.play_eq)
  refine ⟨hhead, ?_⟩
  rw [List.take_add_one, hstep] at he
  cases hd.rest he with
  | cons _ hs hrest =>
    cases hrest
    exact hs

/-- A thread that can make a call has been started. -/
theorem head?_lt (h : c.head? i = some o) : i < c.threads.length := by
  obtain ⟨t, ht, -⟩ := Option.bind_eq_some_iff.1 h
  exact (List.getElem?_eq_some_iff.1 ht).1

theorem Run.length_le (h : sys.Run admits c as d) : c.threads.length ≤ d.threads.length := by
  refine h.invariant (P := fun e => c.threads.length ≤ e.threads.length) (fun x a y _ hs hx => ?_) le_rfl
  obtain ⟨l, rfl, rfl⟩ | ⟨i, l, o, k, ht, ⟨-, rfl⟩ | ⟨-, rfl⟩ | ⟨-, rfl⟩⟩ := sys.step_cases hs
  · exact hx.trans (by simp)
  · exact hx.trans_eq (List.length_set ..).symm
  · exact hx.trans_eq (List.length_set ..).symm
  · exact hx.trans_eq (List.length_set ..).symm

end System

/-- The labels of the programs that have been started. -/
def Pool.labels {S : Signature.{u}} {ε α : Type} {σ : Type v} {L : Type w} (c : Pool S ε α σ L) : List L :=
  c.threads.map (·.label)

/-- A step forgets no program. -/
theorem System.labels_subset {S : Signature.{u}} {ε α : Type} {σ : Type v} {L : Type w}
    {sys : System S ε α σ L} {c d : Pool S ε α σ L} {a : Action L} (hs : sys.step c a = some d) :
    c.labels ⊆ d.labels := by
  intro l hl
  obtain ⟨⟨l, p⟩, ht, rfl⟩ := List.mem_map.1 hl
  obtain ⟨i, hi⟩ := List.mem_iff_getElem?.1 ht
  obtain ⟨p', hp', -⟩ := step_stays hs hi
  exact List.mem_map.2 ⟨_, List.mem_of_getElem? hp', rfl⟩

/-- What holds of the store and of every memo, whatever the other programs do, holds along every run. The
labels are of the programs that have been started, of which there are only ever more. -/
theorem Memo.run_backed {S : Signature.{u}} {ε α γ : Type} {σ : Type v} {L : Type w} {G : Memo S ε γ}
    {Q : L → Except ε α → γ → Prop} {sys : System S ε α σ L} {admits : Pool S ε α σ L → Action L → Prop}
    {start : L → γ} {I : List L → σ → Prop} {B : List L → γ → σ → Prop}
    (hcode : ∀ l, G.Tracks (Q l) (sys.code l) (start l))
    (hallows : ∀ o s, G.allows o (sys.machine.exec o s).1)
    (hfault : ∀ o, G.allows o (.error sys.machine.fault) ∧ ∀ g, G.note o (.error sys.machine.fault) g = g)
    (hkill : ∀ l g, Q l (.error sys.machine.fault) g)
    (hmore : ∀ ls ls' s, ls ⊆ ls' → I ls s → I ls' s ∧ ∀ g, B ls g s → B ls' g s)
    (hbegin : ∀ ls l s, l ∈ ls → I ls s → B ls (start l) s)
    (hexec : ∀ ls o g s, G.may o g → B ls g s → I ls s → I ls (sys.machine.exec o s).2 ∧
      B ls (G.note o (sys.machine.exec o s).1 g) (sys.machine.exec o s).2 ∧
      ∀ g', B ls g' s → B ls g' (sys.machine.exec o s).2)
    {c d : Pool S ε α σ L} {as : List (Action L)} (hstart : c.threads = []) (hI : I [] c.state)
    (hrun : sys.Run admits c as d) :
    I d.labels d.state ∧ ∃ gs, G.Minutes Q d gs ∧ ∀ g ∈ gs, B d.labels g d.state := by
  refine hrun.invariant (P := fun d => I d.labels d.state ∧ ∃ gs, G.Minutes Q d gs ∧
    ∀ g ∈ gs, B d.labels g d.state) ?_ ⟨by simpa [Pool.labels, hstart] using hI, [], by simp [Minutes, hstart], by simp⟩
  rintro c a d - hstep ⟨hs, gs, hminutes, hbacked⟩
  have hsub := System.labels_subset hstep
  obtain ⟨gs', hminutes', ⟨l, rfl, rfl, hstate⟩ | ⟨i, o, g, -, hi, hmay, hmove⟩⟩ :=
    hminutes.step (fun l _ => hcode l) hstep (fun o => hallows o _) (fun _ o _ _ => (hfault o).1)
      fun _ _ l _ _ g _ => hkill l g
  · obtain ⟨hI', hB⟩ := hmore _ _ c.state hsub hs
    obtain rfl := Option.some_inj.1 hstep
    refine ⟨hI', _, hminutes', fun g hg => ?_⟩
    rcases List.mem_append.1 hg with hg | hg
    · exact hB g (hbacked g hg)
    · rw [List.mem_singleton.1 hg]
      exact hbegin _ l _ (List.mem_map.2 ⟨_, List.mem_append_right _ (List.mem_singleton_self _), rfl⟩) hI'
  · have hg := hbacked g (List.mem_of_getElem? hi)
    obtain ⟨-, hstate, rfl⟩ | ⟨hstate, rfl⟩ | ⟨hstate, rfl⟩ := hmove
    · obtain ⟨hs', hnoted, hothers⟩ := hexec _ o g c.state hmay hg hs
      obtain ⟨hI', hB⟩ := hmore _ _ _ hsub hs'
      refine ⟨hstate.symm ▸ hI', _, hminutes', fun x hx => ?_⟩
      rcases List.mem_or_eq_of_mem_set hx with hx | rfl
      · exact hstate.symm ▸ hB x (hothers x (hbacked x hx))
      · exact hstate.symm ▸ hB _ hnoted
    · obtain ⟨hI', hB⟩ := hmore _ _ c.state hsub hs
      refine ⟨hstate.symm ▸ hI', _, hminutes', fun x hx => ?_⟩
      rcases List.mem_or_eq_of_mem_set hx with hx | rfl
      · exact hstate.symm ▸ hB x (hbacked x hx)
      · rw [hstate, (hfault o).2 g]
        exact hB g hg
    · obtain ⟨hI', hB⟩ := hmore _ _ c.state hsub hs
      exact ⟨hstate.symm ▸ hI', _, hminutes', fun x hx => hstate.symm ▸ hB x (hbacked x hx)⟩

/-- Programs that start after some point, next to whatever runs there. What every operation keeps holds of
the store, and what holds of a new memo and is kept by every operation holds of the memos of the late
programs. -/
theorem Memo.run_late {S : Signature.{u}} {ε α γ : Type} {σ : Type v} {L : Type w} {G : Memo S ε γ}
    {Q : L → Except ε α → γ → Prop} {sys : System S ε α σ L} {admits : Pool S ε α σ L → Action L → Prop}
    {start : L → γ} {I : σ → Prop} {B : γ → σ → Prop}
    (hcode : ∀ l, G.Tracks (Q l) (sys.code l) (start l))
    (hallows : ∀ o s, G.allows o (sys.machine.exec o s).1)
    (hfault : ∀ o, G.allows o (.error sys.machine.fault) ∧ ∀ g, G.note o (.error sys.machine.fault) g = g)
    (hkill : ∀ l g, Q l (.error sys.machine.fault) g)
    (hbegin : ∀ l s, I s → B (start l) s)
    (hstore : ∀ o s, I s → I (sys.machine.exec o s).2 ∧ ∀ g, B g s → B g (sys.machine.exec o s).2)
    (hexec : ∀ o g s, G.may o g → I s → B g s → B (G.note o (sys.machine.exec o s).1 g) (sys.machine.exec o s).2)
    {c d : Pool S ε α σ L} {as : List (Action L)} (hI : I c.state) (hrun : sys.Run admits c as d) :
    I d.state ∧ ∀ i t, c.threads.length ≤ i → d.threads[i]? = some t →
      ∃ g, B g d.state ∧ G.Tracks (Q t.label) t.prog g := by
  refine hrun.invariant (P := fun d => I d.state ∧ ∀ i t, c.threads.length ≤ i → d.threads[i]? = some t →
    ∃ g, B g d.state ∧ G.Tracks (Q t.label) t.prog g) ?_
    ⟨hI, fun i t hi ht => absurd (List.getElem?_eq_some_iff.1 ht).1 (Nat.not_lt.2 hi)⟩
  rintro d a e - hstep ⟨hd, hlate⟩
  obtain ⟨l, rfl, rfl⟩ | ⟨j, l, o, k, hj, hmove⟩ := sys.step_cases hstep
  · refine ⟨hd, fun i t hi ht => ?_⟩
    rcases Memo.getElem?_snoc_cases ht with ht | rfl
    · exact hlate i t hi ht
    · exact ⟨start l, hbegin l _ hd, hcode l⟩
  obtain ⟨-, rfl⟩ | ⟨-, rfl⟩ | ⟨-, rfl⟩ := hmove
  · obtain ⟨he, hkeeps⟩ := hstore o d.state hd
    refine ⟨he, fun i t hi ht => ?_⟩
    rcases Memo.getElem?_set_cases ht with ⟨rfl, rfl⟩ | ⟨-, ht⟩
    · obtain ⟨g, hg, hmay, htracks⟩ := hlate i _ hi hj
      exact ⟨_, hexec o g d.state hmay hd hg, htracks _ (hallows o _)⟩
    · obtain ⟨g, hg, htracks⟩ := hlate i t hi ht
      exact ⟨g, hkeeps g hg, htracks⟩
  · refine ⟨hd, fun i t hi ht => ?_⟩
    rcases Memo.getElem?_set_cases ht with ⟨rfl, rfl⟩ | ⟨-, ht⟩
    · obtain ⟨g, hg, -, htracks⟩ := hlate i _ hi hj
      have hafter := htracks _ (hfault o).1
      rw [(hfault o).2 g] at hafter
      exact ⟨g, hg, hafter⟩
    · exact hlate i t hi ht
  · refine ⟨hd, fun i t hi ht => ?_⟩
    rcases Memo.getElem?_set_cases ht with ⟨rfl, rfl⟩ | ⟨-, ht⟩
    · obtain ⟨g, hg, -⟩ := hlate i _ hi hj
      exact ⟨g, hg, hkill l g⟩
    · exact hlate i t hi ht

/-- The call by which something was noted, by its position. -/
theorem Memo.NotedAt.callsAt {S : Signature.{u}} {ε α β γ : Type} {σ : Type v} {L : Type w}
    {G : Memo S ε γ} {sys : System S ε α σ L} {admits : Pool S ε α σ L → Action L → Prop}
    {field : γ → Option β} {c d : Pool S ε α σ L} {as : List (Action L)} {i : Nat} {b : β}
    (h : Memo.NotedAt G sys admits field c as d i b) :
    ∃ n o e g, sys.CallsAt admits c as n i o ∧ sys.Run admits c (as.take n) e ∧ e.head? i = some o ∧
      field g ≠ some b ∧ field (G.note o (sys.machine.exec o e.state).1 g) = some b := by
  obtain ⟨before, middle, e, o, g, rfl, hbefore, hhead, -, hnot, hfield, -⟩ := h
  have htake : (before ++ Action.act i :: middle).take before.length = before := List.take_left
  exact ⟨before.length, o, e, g, ⟨by simp, e, htake.symm ▸ hbefore, hhead⟩, htake.symm ▸ hbefore, hhead,
    hnot, hfield⟩

end Effect
