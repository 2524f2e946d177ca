import Ecommerce.Effect.Machine
import Mathlib.Data.List.Basic

/-!
# Interleaving

A pool is a store with the programs that run on it. A step starts a program, lets one program
issue its next operation, makes that operation fail, or stops a program for good between two
operations. A run is a sequence of such steps, each admitted in the state it starts from.
-/

namespace Effect

universe u v w

/-- The programs of a system, named by labels, and the machine they run on. -/
structure System (S : Signature.{u}) (ε α : Type) (σ : Type v) (L : Type w) where
  machine : Machine S ε σ
  code : L → Prog S ε α

/-- A started program, at the point it has reached. -/
structure Thread (S : Signature.{u}) (ε α : Type) (L : Type w) where
  label : L
  prog : Prog S ε α

/-- A store shared by started programs. -/
structure Pool (S : Signature.{u}) (ε α : Type) (σ : Type v) (L : Type w) where
  state : σ
  threads : List (Thread S ε α L)

/-- One scheduling step. Threads are named by their position. -/
inductive Action (L : Type w) where
  | spawn (l : L)
  | act (i : Nat)
  | fault (i : Nat)
  | kill (i : Nat)

/-- The step of a run in which nothing fails. -/
def Action.unfailing {L : Type w} : Action L → Bool
  | .spawn _ | .act _ => true
  | .fault _ | .kill _ => false

variable {S : Signature.{u}} {ε α : Type} {σ : Type v} {L : Type w}

/-- The operation a program issues next. -/
def Prog.head? : Prog S ε α → Option S.Op
  | .done _ => none
  | .call o _ => some o

/-- What a program returned or threw, once it has ended. -/
def Prog.result? : Prog S ε α → Option (Except ε α)
  | .done r => some r
  | .call _ _ => none

namespace Pool

/-- No program has an operation left to issue. -/
def Quiescent (c : Pool S ε α σ L) : Prop := ∀ t ∈ c.threads, t.prog.head?.isNone

instance (c : Pool S ε α σ L) : Decidable c.Quiescent :=
  inferInstanceAs (Decidable (∀ t ∈ c.threads, t.prog.head?.isNone))

/-- The program whose thread a step moves. -/
def mover (c : Pool S ε α σ L) : Action L → Option L
  | .spawn _ => none
  | .act i | .fault i | .kill i => c.threads[i]?.map (·.label)

/-- The operation thread `i` issues next. -/
def head? (c : Pool S ε α σ L) (i : Nat) : Option S.Op :=
  c.threads[i]?.bind fun t => t.prog.head?

end Pool

namespace System

variable (sys : System S ε α σ L)

/-- The pool after a step, when the step can be taken. -/
def step (c : Pool S ε α σ L) : Action L → Option (Pool S ε α σ L)
  | .spawn l => some { c with threads := c.threads ++ [⟨l, sys.code l⟩] }
  | .act i =>
    match c.threads[i]? with
    | some ⟨l, .call o k⟩ =>
      some ⟨(sys.machine.exec o c.state).2,
        c.threads.set i ⟨l, k (sys.machine.exec o c.state).1⟩⟩
    | _ => none
  | .fault i =>
    match c.threads[i]? with
    | some ⟨l, .call _ k⟩ =>
      some { c with threads := c.threads.set i ⟨l, k (.error sys.machine.fault)⟩ }
    | _ => none
  | .kill i =>
    match c.threads[i]? with
    | some ⟨l, .call _ _⟩ =>
      some { c with threads := c.threads.set i ⟨l, .done (.error sys.machine.fault)⟩ }
    | _ => none

/-- What a step can do: every case names the thread that moves. -/
theorem step_cases {c d : Pool S ε α σ L} {a : Action L} (h : sys.step c a = some d) :
    (∃ l, a = .spawn l ∧ d = { c with threads := c.threads ++ [⟨l, sys.code l⟩] }) ∨
    (∃ i l o k, c.threads[i]? = some ⟨l, .call o k⟩ ∧
      ((a = .act i ∧ d = ⟨(sys.machine.exec o c.state).2,
          c.threads.set i ⟨l, k (sys.machine.exec o c.state).1⟩⟩) ∨
        (a = .fault i ∧
          d = { c with threads := c.threads.set i ⟨l, k (.error sys.machine.fault)⟩ }) ∨
        (a = .kill i ∧
          d = { c with threads := c.threads.set i ⟨l, .done (.error sys.machine.fault)⟩ }))) := by
  cases a with
  | spawn l => exact .inl ⟨l, rfl, by simpa [step] using h.symm⟩
  | act i =>
    simp only [step] at h
    split at h
    · next l o k ht => exact .inr ⟨i, l, o, k, ht, .inl ⟨rfl, by simpa using h.symm⟩⟩
    · cases h
  | fault i =>
    simp only [step] at h
    split at h
    · next l o k ht => exact .inr ⟨i, l, o, k, ht, .inr (.inl ⟨rfl, by simpa using h.symm⟩)⟩
    · cases h
  | kill i =>
    simp only [step] at h
    split at h
    · next l o k ht => exact .inr ⟨i, l, o, k, ht, .inr (.inr ⟨rfl, by simpa using h.symm⟩)⟩
    · cases h

/-- What a step does to one thread: it stays as it is, or it is the one that moves. -/
theorem step_thread {c d : Pool S ε α σ L} {a : Action L} (h : sys.step c a = some d) {i : Nat}
    {l : L} {p : Prog S ε α} (hp : c.threads[i]? = some ⟨l, p⟩) :
    (a ≠ .act i ∧ a ≠ .fault i ∧ a ≠ .kill i ∧ d.threads[i]? = some ⟨l, p⟩) ∨
    (∃ o k, p = .call o k ∧
      ((a = .act i ∧ d.state = (sys.machine.exec o c.state).2 ∧
          d.threads[i]? = some ⟨l, k (sys.machine.exec o c.state).1⟩) ∨
        (a = .fault i ∧ d.state = c.state ∧
          d.threads[i]? = some ⟨l, k (.error sys.machine.fault)⟩) ∨
        (a = .kill i ∧ d.state = c.state ∧
          d.threads[i]? = some ⟨l, .done (.error sys.machine.fault)⟩))) := by
  have hlt : i < c.threads.length := (List.getElem?_eq_some_iff.1 hp).1
  obtain ⟨l', rfl, rfl⟩ | ⟨j, l', o, k, ht, hmove⟩ := sys.step_cases h
  · exact .inl ⟨nofun, nofun, nofun, by rw [List.getElem?_append_left hlt, hp]⟩
  · by_cases hij : j = i
    · subst hij
      obtain ⟨rfl, rfl⟩ : l' = l ∧ Prog.call o k = p := by simpa [ht] using hp
      refine .inr ⟨o, k, rfl, ?_⟩
      obtain ⟨rfl, rfl⟩ | ⟨rfl, rfl⟩ | ⟨rfl, rfl⟩ := hmove
      · exact .inl ⟨rfl, rfl, List.getElem?_set_self hlt⟩
      · exact .inr (.inl ⟨rfl, rfl, List.getElem?_set_self hlt⟩)
      · exact .inr (.inr ⟨rfl, rfl, List.getElem?_set_self hlt⟩)
    · obtain ⟨rfl, rfl⟩ | ⟨rfl, rfl⟩ | ⟨rfl, rfl⟩ := hmove <;>
        exact .inl ⟨by simp [hij], by simp [hij], by simp [hij],
          by rw [List.getElem?_set_ne hij, hp]⟩

/-- A run whose every step is admitted where it is taken. -/
inductive Run (admits : Pool S ε α σ L → Action L → Prop) :
    Pool S ε α σ L → List (Action L) → Pool S ε α σ L → Prop where
  | nil (c) : Run admits c [] c
  | cons {c d e a as} : admits c a → sys.step c a = some d → Run admits d as e →
      Run admits c (a :: as) e

variable {sys} {admits : Pool S ε α σ L → Action L → Prop}

/-- An invariant of every admitted step holds along every run. -/
theorem Run.invariant {P : Pool S ε α σ L → Prop}
    (hstep : ∀ c a d, admits c a → sys.step c a = some d → P c → P d)
    {c d : Pool S ε α σ L} {as : List (Action L)} (h : sys.Run admits c as d) (hc : P c) : P d := by
  induction h with
  | nil c => exact hc
  | cons ha hs _ ih => exact ih (hstep _ _ _ ha hs hc)

/-- A thread keeps its place and its label. -/
theorem Run.thread {c d : Pool S ε α σ L} {as : List (Action L)} (h : sys.Run admits c as d)
    {i : Nat} {l : L} {p : Prog S ε α} (hp : c.threads[i]? = some ⟨l, p⟩) :
    ∃ p', d.threads[i]? = some ⟨l, p'⟩ := by
  refine h.invariant (P := fun c => ∃ p, c.threads[i]? = some ⟨l, p⟩) ?_ ⟨p, hp⟩
  rintro c a d _ hs ⟨p, hp⟩
  obtain ⟨-, -, -, hd⟩ | ⟨o, k, -, ⟨-, -, hd⟩ | ⟨-, -, hd⟩ | ⟨-, -, hd⟩⟩ := sys.step_thread hs hp <;>
    exact ⟨_, hd⟩

/-- A started thread was there before, or it is the one that the step starts. -/
theorem step_new {c d : Pool S ε α σ L} {a : Action L} (h : sys.step c a = some d) {i : Nat}
    {l : L} {p : Prog S ε α} (hd : d.threads[i]? = some ⟨l, p⟩) :
    (∃ p', c.threads[i]? = some ⟨l, p'⟩) ∨ p = sys.code l := by
  obtain ⟨l', rfl, rfl⟩ | ⟨j, l', o, k, ht, hmove⟩ := sys.step_cases h
  · by_cases hlt : i < c.threads.length
    · exact .inl ⟨p, by rw [← hd, List.getElem?_append_left hlt]⟩
    · have hmem := List.mem_of_getElem?
        ((List.getElem?_append_right (Nat.not_lt.1 hlt)).symm.trans hd)
      cases List.mem_singleton.1 hmem
      exact .inr rfl
  · left
    by_cases hij : j = i
    · subst hij
      have hlt := (List.getElem?_eq_some_iff.1 ht).1
      obtain ⟨rfl, rfl⟩ | ⟨rfl, rfl⟩ | ⟨rfl, rfl⟩ := hmove <;>
        (obtain ⟨rfl, -⟩ := by simpa [List.getElem?_set_self hlt] using hd) <;> exact ⟨_, ht⟩
    · obtain ⟨rfl, rfl⟩ | ⟨rfl, rfl⟩ | ⟨rfl, rfl⟩ := hmove <;>
        exact ⟨p, by rw [← hd, List.getElem?_set_ne hij]⟩

/-- Along a run, the steps start from states that satisfy an invariant. -/
theorem Run.with {P : Pool S ε α σ L → Prop}
    (hstep : ∀ c a d, admits c a → sys.step c a = some d → P c → P d)
    {c d : Pool S ε α σ L} {as : List (Action L)} (h : sys.Run admits c as d) (hc : P c) :
    sys.Run (fun c a => admits c a ∧ P c) c as d := by
  induction h with
  | nil c => exact .nil c
  | cons ha hs _ ih => exact .cons ⟨ha, hc⟩ hs (ih (hstep _ _ _ ha hs hc))

theorem Run.mono {admits' : Pool S ε α σ L → Action L → Prop}
    (himp : ∀ c a, admits c a → admits' c a)
    {c d : Pool S ε α σ L} {as : List (Action L)} (h : sys.Run admits c as d) :
    sys.Run admits' c as d := by
  induction h with
  | nil c => exact .nil c
  | cons ha hs _ ih => exact .cons (himp _ _ ha) hs ih

theorem Run.append {c d e : Pool S ε α σ L} {as bs : List (Action L)} (h : sys.Run admits c as d)
    (h' : sys.Run admits d bs e) : sys.Run admits c (as ++ bs) e := by
  induction h with
  | nil c => exact h'
  | cons ha hs _ ih => exact .cons ha hs (ih h')

theorem Run.snoc {c d e : Pool S ε α σ L} {as : List (Action L)} {a : Action L}
    (h : sys.Run admits c as d) (ha : admits d a) (hs : sys.step d a = some e) :
    sys.Run admits c (as ++ [a]) e :=
  h.append (.cons ha hs (.nil e))

/-- The rest of a run, after some of its steps. -/
theorem Run.rest {admits' : Pool S ε α σ L → Action L → Prop} {c d e : Pool S ε α σ L}
    {as bs : List (Action L)} (h : sys.Run admits' c as d) (hwhole : sys.Run admits c (as ++ bs) e) :
    sys.Run admits d bs e := by
  induction h with
  | nil c => exact hwhole
  | cons _ hs _ ih =>
    cases hwhole with
    | cons _ hs' hrest =>
      obtain rfl := Option.some_inj.1 (hs.symm.trans hs')
      exact ih hrest

/-- Induction over a run by its last step. -/
theorem Run.induct {c : Pool S ε α σ L} {P : List (Action L) → Pool S ε α σ L → Prop}
    (hnil : P [] c) (hsnoc : ∀ as d a e, sys.Run admits c as d → admits d a →
      sys.step d a = some e → P as d → P (as ++ [a]) e)
    {as : List (Action L)} {d : Pool S ε α σ L} (h : sys.Run admits c as d) : P as d := by
  have key : ∀ {c' as' d'}, sys.Run admits c' as' d' → ∀ pre, sys.Run admits c pre c' → P pre c' →
      P (pre ++ as') d' := by
    intro c' as' d' h'
    induction h' with
    | nil c' =>
      intro pre _ hpre
      rwa [List.append_nil]
    | cons ha hs _ ih =>
      intro pre hrun hpre
      have hnext := ih _ (hrun.snoc ha hs) (hsnoc _ _ _ _ hrun ha hs hpre)
      rwa [List.append_assoc] at hnext
  exact key h [] (.nil c) hnil

/-- A thread that has begun took its first step at some point of the run. -/
theorem Run.begun {c d : Pool S ε α σ L} {as : List (Action L)} (hstart : c.threads = [])
    (h : sys.Run admits c as d) {i : Nat} {l : L} {p : Prog S ε α}
    (hp : d.threads[i]? = some ⟨l, p⟩) :
    p = sys.code l ∨ ∃ before a after e e' p', as = before ++ a :: after ∧
      sys.Run admits c before e ∧ e.threads[i]? = some ⟨l, sys.code l⟩ ∧
      (a = .act i ∨ a = .fault i ∨ a = .kill i) ∧ sys.step e a = some e' ∧
      e'.threads[i]? = some ⟨l, p'⟩ ∧ sys.Run admits e' after d := by
  refine h.induct (P := fun as d => ∀ p, d.threads[i]? = some ⟨l, p⟩ → p = sys.code l ∨
    ∃ before a after e e' p', as = before ++ a :: after ∧ sys.Run admits c before e ∧
      e.threads[i]? = some ⟨l, sys.code l⟩ ∧ (a = .act i ∨ a = .fault i ∨ a = .kill i) ∧
      sys.step e a = some e' ∧ e'.threads[i]? = some ⟨l, p'⟩ ∧ sys.Run admits e' after d) ?_ ?_ p hp
  · intro p hp
    simp [hstart] at hp
  · intro as d a e hrun ha hs ih p hp
    obtain ⟨p₀, hp₀⟩ | rfl := step_new hs hp
    · rcases ih p₀ hp₀ with rfl | ⟨before, b, after, f, f', p', rfl, hbefore, hf, hb, hsf, hp', hafter⟩
      · obtain ⟨-, -, -, he⟩ | ⟨o, k, -, hmove⟩ := step_thread sys hs hp₀
        · exact .inl (Thread.mk.inj (Option.some_inj.1 (hp.symm.trans he))).2
        · have hmoves : a = .act i ∨ a = .fault i ∨ a = .kill i := by
            rcases hmove with ⟨h, -⟩ | ⟨h, -⟩ | ⟨h, -⟩ <;> simp [h]
          exact .inr ⟨as, a, [], d, e, p, rfl, hrun, hp₀, hmoves, hs, hp, .nil e⟩
      · exact .inr ⟨before, b, after ++ [a], f, f', p', by simp, hbefore, hf, hb, hsf, hp',
          hafter.snoc ha hs⟩
    · exact .inl rfl

/-- A thread stays where it is, and stays done. -/
theorem step_stays {c d : Pool S ε α σ L} {a : Action L} (hs : sys.step c a = some d) {i : Nat} {l : L}
    {p : Prog S ε α} (hp : c.threads[i]? = some ⟨l, p⟩) :
    ∃ p', d.threads[i]? = some ⟨l, p'⟩ ∧ ∀ r, p = .done r → p' = .done r := by
  obtain ⟨-, -, -, hd⟩ | ⟨o, k, rfl, ⟨-, -, hd⟩ | ⟨-, -, hd⟩ | ⟨-, -, hd⟩⟩ := sys.step_thread hs hp
  · exact ⟨p, hd, fun _ h => h⟩
  · exact ⟨_, hd, nofun⟩
  · exact ⟨_, hd, nofun⟩
  · exact ⟨_, hd, nofun⟩

theorem Run.stays_done {c d : Pool S ε α σ L} {as : List (Action L)} (h : sys.Run admits c as d)
    {i : Nat} {l : L} {r : Except ε α} (hp : c.threads[i]? = some ⟨l, .done r⟩) :
    d.threads[i]? = some ⟨l, .done r⟩ := by
  refine h.invariant (P := fun c => c.threads[i]? = some ⟨l, .done r⟩) ?_ hp
  intro c a d _ hs hp
  obtain ⟨p, hd, hdone⟩ := sys.step_stays hs hp
  rw [hd, hdone r rfl]

/-- A run whose steps are of some kind is a run that admits that kind only. -/
theorem Run.of_forall {Q : Action L → Prop} {c d : Pool S ε α σ L} {as : List (Action L)}
    (h : sys.Run admits c as d) (has : ∀ a ∈ as, Q a) :
    sys.Run (fun c a => admits c a ∧ Q a) c as d := by
  induction h with
  | nil c => exact .nil c
  | cons ha hs _ ih =>
    obtain ⟨hq, hrest⟩ := List.forall_mem_cons.1 has
    exact .cons ⟨ha, hq⟩ hs (ih hrest)

/-! ## Counting steps -/

/-- How many of the steps of a schedule are such. -/
def tally (sys : System S ε α σ L) (P : Pool S ε α σ L → Action L → Pool S ε α σ L → Bool) :
    Pool S ε α σ L → List (Action L) → Nat
  | _, [] => 0
  | c, a :: as =>
    match sys.step c a with
    | some d => (P c a d).toNat + tally sys P d as
    | none => 0

theorem Run.tally_snoc {P : Pool S ε α σ L → Action L → Pool S ε α σ L → Bool}
    {c d e : Pool S ε α σ L} {as : List (Action L)} {a : Action L} (h : sys.Run admits c as d)
    (hs : sys.step d a = some e) :
    sys.tally P c (as ++ [a]) = sys.tally P c as + (P d a e).toNat := by
  induction h with
  | nil c => simp [tally, hs]
  | cons _ hs' _ ih => simp [tally, hs', ih hs, Nat.add_assoc]

/-- Steps that end a condition for good happen once at most. -/
theorem Run.tally_once {P : Pool S ε α σ L → Action L → Pool S ε α σ L → Bool}
    {Q : Pool S ε α σ L → Prop} {c d : Pool S ε α σ L} {as : List (Action L)}
    (h : sys.Run admits c as d)
    (hfirst : ∀ c a d, admits c a → sys.step c a = some d → P c a d → ¬ Q c ∧ Q d)
    (hkeep : ∀ c a d, admits c a → sys.step c a = some d → Q c → Q d) :
    sys.tally P c as = 0 ∨ sys.tally P c as = 1 ∧ Q d := by
  refine h.induct (P := fun as d => sys.tally P c as = 0 ∨ sys.tally P c as = 1 ∧ Q d) (.inl rfl) ?_
  intro as d a e hrun ha hs ih
  rw [hrun.tally_snoc hs]
  cases hP : P d a e with
  | false =>
    rcases ih with hzero | ⟨hone, hQ⟩
    · exact .inl hzero
    · exact .inr ⟨hone, hkeep d a e ha hs hQ⟩
  | true =>
    obtain ⟨hnot, hQ⟩ := hfirst d a e ha hs hP
    rcases ih with hzero | ⟨-, hQ'⟩
    · exact .inr ⟨by rw [hzero]; rfl, hQ⟩
    · exact absurd hQ' hnot

/-! ## Playing a schedule -/

/-- The pool after a list of steps, when all of them are admitted and can be taken. -/
def play (sys : System S ε α σ L) (admits : Pool S ε α σ L → Action L → Bool)
    (c : Pool S ε α σ L) : List (Action L) → Option (Pool S ε α σ L)
  | [] => some c
  | a :: as => if admits c a then (sys.step c a).bind fun d => sys.play admits d as else none

theorem Run.of_play {admits : Pool S ε α σ L → Action L → Bool} {c d : Pool S ε α σ L}
    {as : List (Action L)} (h : sys.play admits c as = some d) :
    sys.Run (fun c a => admits c a) c as d := by
  induction as generalizing c with
  | nil =>
    obtain rfl : c = d := by simpa [play] using h
    exact .nil c
  | cons a as ih =>
    rw [play] at h
    split at h
    · next ha =>
      obtain ⟨e, hs, he⟩ := Option.bind_eq_some_iff.1 h
      exact .cons ha hs (ih he)
    · cases h

/-- Schedules have one outcome: a run is what playing its steps gives. -/
theorem Run.play_eq {c d : Pool S ε α σ L} {as : List (Action L)} (h : sys.Run admits c as d) :
    sys.play (fun _ _ => true) c as = some d := by
  induction h with
  | nil c => rfl
  | cons _ hs _ ih =>
    rw [play, if_pos rfl, hs]
    exact ih

end System
end Effect
