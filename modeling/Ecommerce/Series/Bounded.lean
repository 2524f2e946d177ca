import Mathlib.Algebra.BigOperators.Group.Finset.Basic
import Mathlib.Algebra.GroupWithZero.Nat
import Mathlib.Algebra.Order.BigOperators.Group.Finset
import Mathlib.Data.List.Induction

/-!
# Counting in a bounded number of series

Labels are counted in a table of series. A label that is not in the table is entered as long as the table has
room, and is counted under the overflow series afterwards, which takes a place in the table itself.

## Main definitions

* `Series.firsts labels`: the distinct labels, in the order in which they occur.
* `Series.table capacity overflow labels`: the series there are after some labels.
* `Series.Fits capacity overflow labels`: the overflow series is not needed, or it is one of the first labels.
-/

namespace Series

variable {K : Type*} [DecidableEq K] {capacity : ℕ} {overflow : K} {labels : List K} {label key : K}

/-! ## Distinct labels -/

/-- The list with one more key, unless it is there. -/
def enter (keys : List K) (key : K) : List K := if key ∈ keys then keys else keys ++ [key]

theorem mem_enter {keys : List K} : label ∈ enter keys key ↔ label ∈ keys ∨ label = key := by
  rw [enter]
  split <;> grind

theorem nodup_enter {keys : List K} (h : keys.Nodup) : (enter keys key).Nodup := by
  rw [enter]
  split
  · exact h
  · next hkey =>
    rw [List.nodup_append]
    refine ⟨h, List.nodup_singleton key, ?_⟩
    rintro a ha b hb rfl
    exact hkey (List.mem_singleton.1 hb ▸ ha)

/-- The distinct labels, in the order in which they first occur. -/
def firsts (labels : List K) : List K := labels.foldl enter []

theorem firsts_concat (labels : List K) (label : K) :
    firsts (labels ++ [label]) = enter (firsts labels) label := by simp [firsts]

theorem mem_firsts : label ∈ firsts labels ↔ label ∈ labels := by
  induction labels using List.reverseRecOn with
  | nil => rfl
  | append_singleton labels l ih => rw [firsts_concat, mem_enter, ih, List.mem_append, List.mem_singleton]

theorem nodup_firsts (labels : List K) : (firsts labels).Nodup := by
  induction labels using List.reverseRecOn with
  | nil => exact List.nodup_nil
  | append_singleton labels l ih =>
    rw [firsts_concat]
    exact nodup_enter ih

theorem firsts_of_nodup (h : labels.Nodup) : firsts labels = labels := by
  induction labels using List.reverseRecOn with
  | nil => rfl
  | append_singleton labels l ih =>
    obtain ⟨hlabels, -, hnew⟩ := List.nodup_append.1 h
    rw [firsts_concat, ih hlabels, enter, if_neg fun hmem => hnew l hmem l (List.mem_singleton_self l) rfl]

/-- Every label is counted once. -/
theorem sum_count_firsts (labels : List K) : ((firsts labels).map labels.count).sum = labels.length := by
  have hsame : (firsts labels).toFinset = labels.toFinset := by
    ext label
    rw [List.mem_toFinset, List.mem_toFinset, mem_firsts]
  rw [← List.sum_toFinset _ (nodup_firsts labels), hsame]
  exact List.sum_toFinset_count_eq_length labels

/-- Counters that stop at a limit have counted all just if none has reached more. -/
theorem sum_min_count_firsts_iff (limit : ℕ) (labels : List K) :
    ((firsts labels).map fun label => min (labels.count label) limit).sum = labels.length ↔
      ∀ label, labels.count label ≤ limit := by
  rw [← sum_count_firsts labels, ← List.sum_toFinset _ (nodup_firsts labels),
    ← List.sum_toFinset _ (nodup_firsts labels), Finset.sum_eq_sum_iff_of_le fun _ _ => min_le_left _ _]
  constructor
  · intro h label
    by_cases hmem : label ∈ labels
    · exact min_eq_left_iff.1 (h label (List.mem_toFinset.2 (mem_firsts.2 hmem)))
    · rw [List.count_eq_zero_of_not_mem hmem]
      exact Nat.zero_le limit
  · exact fun h label _ => min_eq_left (h label)

/-! ## The table -/

/-- The series that a label is counted under while the table has some series. -/
def seriesFor (capacity : ℕ) (overflow : K) (keys : List K) (label : K) : K :=
  if label ∈ keys ∨ keys.length < capacity then label else overflow

/-- The series there are after some labels. -/
def table (capacity : ℕ) (overflow : K) (labels : List K) : List K :=
  labels.foldl (fun keys label => enter keys (seriesFor capacity overflow keys label)) []

/-- The first labels to occur, as many as there is room for. -/
def early (capacity : ℕ) (labels : List K) : List K := (firsts labels).take capacity

/-- The series that a label is counted under among some labels. -/
def seriesAmong (capacity : ℕ) (overflow : K) (labels : List K) (label : K) : K :=
  if label ∈ early capacity labels then label else overflow

/-- There is room for all labels, or the overflow series is one of the first to occur. -/
def Fits (capacity : ℕ) (overflow : K) (labels : List K) : Prop :=
  (firsts labels).length ≤ capacity ∨ overflow ∈ early capacity labels

instance : Decidable (Fits capacity overflow labels) := inferInstanceAs (Decidable (_ ∨ _))

theorem table_concat (labels : List K) (label : K) : table capacity overflow (labels ++ [label]) =
    enter (table capacity overflow labels) (seriesFor capacity overflow (table capacity overflow labels) label) := by
  simp [table]

theorem early_concat (labels : List K) (label : K) : early capacity (labels ++ [label]) =
    if label ∈ labels ∨ capacity ≤ (firsts labels).length then early capacity labels
    else firsts labels ++ [label] := by
  rw [early, firsts_concat, enter]
  by_cases hmem : label ∈ labels
  · rw [if_pos (mem_firsts.2 hmem), if_pos (.inl hmem), early]
  · rw [if_neg (mt mem_firsts.1 hmem)]
    split
    · next h => rw [List.take_append_of_le_length (h.resolve_left hmem), early]
    · next h =>
      rw [not_or, not_le] at h
      exact List.take_of_length_le (by simp; omega)

theorem early_of_le (h : (firsts labels).length ≤ capacity) : early capacity labels = firsts labels :=
  List.take_of_length_le h

theorem length_early_of_lt (h : capacity < (firsts labels).length) : (early capacity labels).length = capacity := by
  rw [early, List.length_take]
  omega

/-- More labels make no label an early one that was not. -/
theorem mem_early_concat (hmem : key ∈ labels) :
    key ∈ early capacity (labels ++ [label]) ↔ key ∈ early capacity labels := by
  rw [early_concat]
  split
  · rfl
  · next h =>
    rw [not_or, not_le] at h
    have hne : key ≠ label := fun heq => h.1 (heq ▸ hmem)
    rw [early_of_le h.2.le, List.mem_append, List.mem_singleton]
    exact or_iff_left hne

/-- A new label is an early one while there is room. -/
theorem mem_early_last : label ∈ early capacity (labels ++ [label]) ↔
    label ∈ early capacity labels ∨ (firsts labels).length < capacity := by
  rw [early_concat]
  split
  · next h =>
    refine (or_iff_left_of_imp fun hroom => ?_).symm
    rw [early_of_le hroom.le, mem_firsts]
    exact h.resolve_right hroom.not_ge
  · next h =>
    rw [not_or, not_le] at h
    exact iff_of_true (List.mem_append_right _ (List.mem_singleton_self label)) (.inr h.2)

theorem seriesAmong_concat (hmem : key ∈ labels) :
    seriesAmong capacity overflow (labels ++ [label]) key = seriesAmong capacity overflow labels key := by
  simp only [seriesAmong, mem_early_concat hmem]

/-- The table has the first labels, and the overflow series once there have been more. -/
theorem table_eq (labels : List K) : table capacity overflow labels =
    if (firsts labels).length ≤ capacity then firsts labels else enter (early capacity labels) overflow := by
  induction labels using List.reverseRecOn with
  | nil => simp [table, firsts]
  | append_singleton labels label ih =>
    rw [table_concat, ih, firsts_concat]
    by_cases hle : (firsts labels).length ≤ capacity
    · rw [if_pos hle]
      by_cases hroom : label ∈ firsts labels ∨ (firsts labels).length < capacity
      · rw [seriesFor, if_pos hroom, if_pos]
        rw [enter]
        split <;> grind
      · -- The table is full, and the label is new.
        have hlength : (enter (firsts labels) label).length = capacity + 1 := by
          rw [enter, if_neg fun hmem => hroom (.inl hmem)]
          grind
        have hfull : capacity ≤ (firsts labels).length := not_lt.1 fun hlt => hroom (.inr hlt)
        rw [seriesFor, if_neg hroom, if_neg (by omega), early_concat, if_pos (.inr hfull), early_of_le hle]
    · have hlt := not_le.1 hle
      have hmore : ¬ (enter (firsts labels) label).length ≤ capacity := by
        rw [enter]
        split <;> grind
      have hthere : seriesFor capacity overflow (enter (early capacity labels) overflow) label ∈
          enter (early capacity labels) overflow := by
        have hlength := length_early_of_lt hlt
        rw [seriesFor]
        split <;> grind [enter]
      rw [if_neg hle, if_neg hmore, early_concat, if_pos (.inr hlt.le), enter, if_pos hthere]

example : table 2 9 [0, 1, 2, 3, 0] = [0, 1, 9] ∧ table 2 9 [0, 9, 2, 3, 0] = [0, 9] := by decide

/-- The table has no more series than there is room for just if the labels fit. -/
theorem length_table_le_iff (labels : List K) :
    (table capacity overflow labels).length ≤ capacity ↔ Fits capacity overflow labels := by
  rw [table_eq, Fits]
  split
  · next hle => exact iff_of_true hle (.inl hle)
  · next hgt =>
    have hlength := length_early_of_lt (not_le.1 hgt)
    rw [or_iff_right hgt, enter]
    split
    · next hmem => exact iff_of_true hlength.le hmem
    · next hmem => exact iff_of_false (by simp [hlength]) hmem

/-! ## What is counted where -/

/-- The series under which each of the labels is counted. -/
def counted (capacity : ℕ) (overflow : K) (labels : List K) : List K :=
  labels.map (seriesAmong capacity overflow labels)

/-- A label is counted under the same series whatever follows. -/
theorem seriesFor_table (labels : List K) (label : K) :
    seriesFor capacity overflow (table capacity overflow labels) label =
      seriesAmong capacity overflow (labels ++ [label]) label := by
  rw [table_eq, seriesFor]
  simp only [seriesAmong, mem_early_last]
  by_cases hle : (firsts labels).length ≤ capacity
  · rw [if_pos hle, early_of_le hle]
  · have hlength := length_early_of_lt (not_le.1 hle)
    have hfull : ¬ (enter (early capacity labels) overflow).length < capacity := by
      rw [enter]
      split <;> simp [hlength]
    have hroom : ¬ (firsts labels).length < capacity := fun hlt => hle hlt.le
    rw [if_neg hle]
    simp only [or_iff_left hfull, or_iff_left hroom, mem_enter]
    by_cases hoverflow : label = overflow
    · simp [hoverflow]
    · simp [hoverflow]

theorem counted_concat (labels : List K) (label : K) : counted capacity overflow (labels ++ [label]) =
    counted capacity overflow labels ++ [seriesFor capacity overflow (table capacity overflow labels) label] := by
  rw [counted, counted, List.map_append, seriesFor_table, List.map_singleton]
  congr 1
  exact List.map_congr_left fun key hkey => seriesAmong_concat hkey

/-- The table has the series that labels are counted under. -/
theorem table_eq_firsts (labels : List K) :
    table capacity overflow labels = firsts (counted capacity overflow labels) := by
  induction labels using List.reverseRecOn with
  | nil => rfl
  | append_singleton labels label ih => rw [table_concat, counted_concat, firsts_concat, ← ih]

end Series
