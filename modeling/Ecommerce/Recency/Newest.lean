import Mathlib.Data.List.Nodup

/-!
# The newest of a history

A history lists what was used, newest first and with repetitions. Of each value only the newest use
counts, and a bounded list that moves what is used to its front is a prefix of that.
-/

namespace Recency

variable {α : Type*} [DecidableEq α]

/-- The values of a history in the order of their newest uses. -/
def newest : List α → List α
  | [] => []
  | a :: history => a :: (newest history).filter (· ≠ a)

/-- A list with a value moved or put to its front. -/
def toFront (capacity : Nat) (a : α) (l : List α) : List α := (a :: l.filter (· ≠ a)).take capacity

variable {a : α} {l : List α}

theorem newest_nodup (history : List α) : (newest history).Nodup := by
  induction history with
  | nil => exact List.nodup_nil
  | cons a history ih =>
    refine List.nodup_cons.2 ⟨fun hmem => ?_, ih.filter _⟩
    simpa using (List.mem_filter.1 hmem).2

/-- What has no repetitions is as it is. -/
theorem newest_of_nodup (h : l.Nodup) : newest l = l := by
  induction l with
  | nil => rfl
  | cons a l ih =>
    obtain ⟨hnot, hl⟩ := List.nodup_cons.1 h
    rw [newest, ih hl]
    congr 1
    exact List.filter_eq_self.2 fun b hb => by
      have hne : b ≠ a := by
        rintro rfl
        exact hnot hb
      simpa using hne

theorem filter_take (h : l.Nodup) (n : Nat) :
    ((l.take (n + 1)).filter (· ≠ a)).take n = (l.filter (· ≠ a)).take n := by
  induction l generalizing n with
  | nil => rfl
  | cons b l ih =>
    obtain ⟨hnot, hl⟩ := List.nodup_cons.1 h
    by_cases hb : b = a
    · subst hb
      have hsame (k : List α) (hk : k ⊆ l) : k.filter (· ≠ b) = k := by
        refine List.filter_eq_self.2 fun c hc => ?_
        have hne : c ≠ b := by
          rintro rfl
          exact hnot (hk hc)
        simpa using hne
      rw [List.take_succ_cons, List.filter_cons_of_neg (by simp), List.filter_cons_of_neg (by simp),
        hsame _ (List.take_subset n l), hsame _ (List.Subset.refl l), List.take_take, Nat.min_self]
    · rw [List.take_succ_cons, List.filter_cons_of_pos (by simpa using hb),
        List.filter_cons_of_pos (by simpa using hb)]
      cases n with
      | zero => rfl
      | succ n => rw [List.take_succ_cons, List.take_succ_cons, ih hl n]

/-- A bounded list misses nothing by having been cut before. -/
theorem toFront_take_newest (capacity : Nat) (a : α) (history : List α) :
    toFront capacity a ((newest history).take capacity) = (newest (a :: history)).take capacity := by
  cases capacity with
  | zero => rfl
  | succ n =>
    rw [toFront, newest, List.take_succ_cons, List.take_succ_cons, filter_take (newest_nodup history)]

end Recency
