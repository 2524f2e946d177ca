import Ecommerce.Effect.Noted

/-!
# What the latest operation decides

Some operations make a fact about the store true, some make it false, and all others leave it alone. At
the end of a run the fact is what the latest of the former has made it.
-/

namespace Effect

universe u v w

variable {S : Signature.{u}} {ε α : Type} {σ : Type v} {L : Type w} {sys : System S ε α σ L}
variable {admits : Pool S ε α σ L → Action L → Prop} {c d e : Pool S ε α σ L} {as : List (Action L)} {a : Action L}

namespace System

/-- No call from a position on is such an operation. -/
def NoneFrom (sys : System S ε α σ L) (admits : Pool S ε α σ L → Action L → Prop) (c : Pool S ε α σ L)
    (as : List (Action L)) (n : Nat) (clears : S.Op → Prop) : Prop :=
  ∀ m i o, n ≤ m → sys.CallsAt admits c as m i o → ¬ clears o

/-- A call has made the fact true and none since has made it false, or none at all has. -/
def Latest (sys : System S ε α σ L) (admits : Pool S ε α σ L → Action L → Prop) (c : Pool S ε α σ L)
    (as : List (Action L)) (holds : σ → Prop) (sets clears : S.Op → Prop) : Prop :=
  (∃ n i o, sys.CallsAt admits c as n i o ∧ sets o ∧ sys.NoneFrom admits c as (n + 1) clears) ∨
    (holds c.state ∧ sys.NoneFrom admits c as 0 clears)

variable {holds : σ → Prop} {sets clears : S.Op → Prop}

theorem noneFrom_length (n : Nat) (hn : as.length ≤ n) : sys.NoneFrom admits c as n clears :=
  fun _ _ _ hm hcall => absurd hcall.lt (Nat.not_lt.2 (hn.trans hm))

/-- A step that makes no such call leaves it at that. -/
theorem noneFrom_snoc_iff (hrun : sys.Run admits c as d) {n : Nat}
    (hstep : ∀ i o, a = .act i → d.head? i = some o → ¬ clears o) :
    sys.NoneFrom admits c (as ++ [a]) n clears ↔ sys.NoneFrom admits c as n clears := by
  constructor
  · intro h m i o hm hcall
    exact h m i o hm (hcall.append [a])
  · intro h m i o hm hcall
    rcases hcall.snoc_cases hrun with hcall | ⟨-, ha, hhead⟩
    · exact h m i o hm hcall
    · exact hstep i o ha hhead

theorem callsAt_snoc_act (hrun : sys.Run admits c as d) {i : Nat} {o : S.Op} (hhead : d.head? i = some o) :
    sys.CallsAt admits c (as ++ [.act i]) as.length i o := by
  refine ⟨by simp, d, ?_, hhead⟩
  rw [List.take_left]
  exact hrun

/-- A call that makes the fact true is the latest. -/
theorem Latest.of_sets (hrun : sys.Run admits c as d) {i : Nat} {o : S.Op} (hhead : d.head? i = some o)
    (ho : sets o) : sys.Latest admits c (as ++ [.act i]) holds sets clears :=
  .inl ⟨as.length, i, o, callsAt_snoc_act hrun hhead, ho, noneFrom_length _ (by simp)⟩

/-- After one that makes it false, it is not. -/
theorem not_latest_of_clears (hrun : sys.Run admits c as d) {i : Nat} {o : S.Op} (hhead : d.head? i = some o)
    (ho : clears o) (hnot : ¬ sets o) : ¬ sys.Latest admits c (as ++ [.act i]) holds sets clears := by
  have hcall := callsAt_snoc_act hrun hhead
  rintro (⟨n, j, o', hset, ho', hnone⟩ | ⟨-, hnone⟩)
  · rcases Nat.lt_or_ge n as.length with hlt | hge
    · exact hnone as.length i o hlt hcall ho
    · have hn : n = as.length := by
        have hlt := hset.lt
        rw [List.length_append, List.length_singleton] at hlt
        omega
      subst hn
      obtain ⟨-, rfl⟩ := hcall.unique hset
      exact hnot ho'
  · exact hnone as.length i o (Nat.zero_le _) hcall ho

/-- Any other step leaves it as it was. -/
theorem latest_snoc_iff (hrun : sys.Run admits c as d)
    (hstep : ∀ i o, a = .act i → d.head? i = some o → ¬ sets o ∧ ¬ clears o) :
    sys.Latest admits c (as ++ [a]) holds sets clears ↔ sys.Latest admits c as holds sets clears := by
  have hnone : ∀ n, sys.NoneFrom admits c (as ++ [a]) n clears ↔ sys.NoneFrom admits c as n clears :=
    fun n => noneFrom_snoc_iff hrun fun i o ha hhead => (hstep i o ha hhead).2
  constructor
  · rintro (⟨n, i, o, hcall, ho, h⟩ | ⟨hc, h⟩)
    · rcases hcall.snoc_cases hrun with hcall | ⟨-, ha, hhead⟩
      · exact .inl ⟨n, i, o, hcall, ho, (hnone _).1 h⟩
      · exact absurd ho (hstep i o ha hhead).1
    · exact .inr ⟨hc, (hnone _).1 h⟩
  · rintro (⟨n, i, o, hcall, ho, h⟩ | ⟨hc, h⟩)
    · exact .inl ⟨n, i, o, hcall.append [a], ho, (hnone _).2 h⟩
    · exact .inr ⟨hc, (hnone _).2 h⟩

/-- The fact at the end of a run, where an invariant of the store lets operations decide it. -/
theorem run_latest {I : σ → Prop} (holds : σ → Prop) (sets clears : S.Op → Prop)
    (hI : ∀ o s, I s → I (sys.machine.exec o s).2)
    (hsets : ∀ o s, I s → sets o → holds (sys.machine.exec o s).2)
    (hclears : ∀ o s, I s → clears o → ¬ holds (sys.machine.exec o s).2)
    (hothers : ∀ o s, I s → ¬ sets o → ¬ clears o → (holds (sys.machine.exec o s).2 ↔ holds s))
    (hstart : I c.state) (hrun : sys.Run admits c as d) :
    I d.state ∧ (holds d.state ↔ sys.Latest admits c as holds sets clears) := by
  refine hrun.induct (P := fun as d => I d.state ∧ (holds d.state ↔ sys.Latest admits c as holds sets clears)) ?_ ?_
  · refine ⟨hstart, fun h => .inr ⟨h, noneFrom_length _ le_rfl⟩, ?_⟩
    rintro (⟨n, i, o, hcall, -⟩ | ⟨h, -⟩)
    · exact absurd hcall.lt (Nat.not_lt_zero n)
    · exact h
  · rintro as d a e hrun - hs ⟨hd, hlatest⟩
    obtain ⟨hstate, hquiet⟩ | ⟨i, o, rfl, hhead, hstate⟩ := step_state hs
    · rw [hstate, latest_snoc_iff hrun fun i o ha hhead => absurd hhead (hquiet i o ha)]
      exact ⟨hd, hlatest⟩
    rw [hstate]
    refine ⟨hI o d.state hd, ?_⟩
    by_cases hset : sets o
    · exact iff_of_true (hsets o d.state hd hset) (.of_sets hrun hhead hset)
    by_cases hclear : clears o
    · exact iff_of_false (hclears o d.state hd hclear) (not_latest_of_clears hrun hhead hclear hset)
    rw [hothers o d.state hd hset hclear, hlatest, latest_snoc_iff hrun]
    rintro j o' ⟨⟩ hhead'
    obtain rfl := Option.some_inj.1 (hhead.symm.trans hhead')
    exact ⟨hset, hclear⟩

end System
end Effect
