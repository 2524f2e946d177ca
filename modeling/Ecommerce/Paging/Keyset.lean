import Mathlib.Data.List.Sort
import Mathlib.Data.Int.Order.Basic

/-!
# Keyset pagination with a strict cursor

Rows are listed by a descending key, one page after the other. The next page holds rows whose key is
below that of the last row of the page before. Rows that share that key and did not fit on the page
are skipped.

## Main results

* `Visits.subperm` — the pages hold no row twice.
* `Visits.perm_iff` — they hold all rows exactly if no page ends between two rows of one key.
-/

namespace Keyset

variable {α τ : Type*} {L : Nat}

/-- No page ends between two rows of one key. -/
def NoTies (L : Nat) (keys : List τ) : Prop :=
  ∀ k a b, 1 ≤ k → keys[k * L - 1]? = some a → keys[k * L]? = some b → a ≠ b

/-- What comes after the first page has the ties between its own pages, and the first one. -/
theorem noTies_iff (hL : 1 ≤ L) {ks : List τ} :
    NoTies L ks ↔ (∀ a b, ks[L - 1]? = some a → ks[L]? = some b → a ≠ b) ∧ NoTies L (ks.drop L) := by
  have hindex : ∀ k, 1 ≤ k → (ks.drop L)[k * L - 1]? = ks[(k + 1) * L - 1]? ∧
      (ks.drop L)[k * L]? = ks[(k + 1) * L]? := by
    intro k hk
    have hpos : 1 ≤ k * L := Nat.mul_pos hk hL
    rw [List.getElem?_drop, List.getElem?_drop, Nat.succ_mul]
    exact ⟨congrArg (ks[·]?) (by omega), congrArg (ks[·]?) (by omega)⟩
  constructor
  · intro h
    refine ⟨fun a b ha hb => h 1 a b le_rfl (by simpa using ha) (by simpa using hb), fun k a b hk ha hb => ?_⟩
    exact h (k + 1) a b (by omega) ((hindex k hk).1 ▸ ha) ((hindex k hk).2 ▸ hb)
  · rintro ⟨hfirst, hrest⟩ k a b hk ha hb
    obtain rfl | hk' := Nat.eq_or_lt_of_le hk
    · exact hfirst a b (by simpa using ha) (by simpa using hb)
    · obtain ⟨k, rfl⟩ : ∃ j, k = j + 1 := ⟨k - 1, by omega⟩
      have hk : 1 ≤ k := by omega
      exact hrest k a b hk ((hindex k hk).1.symm ▸ ha) ((hindex k hk).2.symm ▸ hb)

variable [LinearOrder τ]

/-- An order in which the rows may be listed. -/
structure Lists (key : α → τ) (rows listed : List α) : Prop where
  perm : listed.Perm rows
  sorted : listed.Pairwise fun a b => key b ≤ key a

/-- The keys, the greatest first. -/
def descending (keys : List τ) : List τ := keys.insertionSort (· ≥ ·)

/-- The pages of at most `L` rows, up to the first empty one. Each page lists the rows that are left
in an order of its own. -/
inductive Visits (key : α → τ) (L : Nat) : List α → List (List α) → Prop
  | last : Visits key L [] [[]]
  | page {rows listed : List α} {row : α} {rest : List (List α)} (hlists : Lists key rows listed)
      (hrow : (listed.take L).getLast? = some row)
      (hrest : Visits key L (rows.filter fun r => key r < key row) rest) :
      Visits key L rows (listed.take L :: rest)

variable {key : α → τ} {rows listed : List α} {pages : List (List α)}

/-- Whatever the order, the keys are listed in the same way. -/
theorem Lists.keys_eq (h : Lists key rows listed) : listed.map key = descending (rows.map key) := by
  refine @List.Perm.eq_of_pairwise _ (· ≥ ·) _ _ (fun a b _ _ hab hba => le_antisymm hba hab)
    (List.pairwise_map.2 h.sorted) (List.pairwise_insertionSort _ _) ?_
  exact (h.perm.map key).trans (List.perm_insertionSort _ _).symm

section Page

variable {row : α}

theorem Lists.le_of_mem_take (h : Lists key rows listed) (hrow : (listed.take L).getLast? = some row) :
    ∀ r ∈ listed.take L, key row ≤ key r := by
  obtain ⟨init, hinit⟩ := List.getLast?_eq_some_iff.1 hrow
  have hsorted : (init ++ [row]).Pairwise fun a b => key b ≤ key a :=
    hinit ▸ h.sorted.sublist (List.take_sublist _ _)
  intro r hr
  rw [hinit] at hr
  obtain hr | hr := List.mem_append.1 hr
  · exact (List.pairwise_append.1 hsorted).2.2 r hr row (by simp)
  · rw [List.mem_singleton.1 hr]

/-- The rows that a strict cursor leaves are among those after the page. -/
theorem Lists.filter_perm (h : Lists key rows listed) (hrow : (listed.take L).getLast? = some row) :
    (rows.filter fun r => key r < key row).Perm ((listed.drop L).filter fun r => key r < key row) := by
  have htake : (listed.take L).filter (fun r => decide (key r < key row)) = [] := by
    refine List.filter_eq_nil_iff.2 fun r hr => ?_
    simpa using h.le_of_mem_take hrow r hr
  have hperm := (h.perm.symm.filter fun r => decide (key r < key row))
  rw [← List.take_append_drop L listed, List.filter_append, htake, List.nil_append] at hperm
  simpa using hperm

/-- A page ends between two rows of one key exactly if some row after it has the key of its last one. -/
theorem Lists.first_iff (h : Lists key rows listed) (hL : 1 ≤ L)
    (hrow : (listed.take L).getLast? = some row) :
    (∀ a b, (listed.map key)[L - 1]? = some a → (listed.map key)[L]? = some b → a ≠ b) ↔
      ∀ r ∈ listed.drop L, key r < key row := by
  obtain hle | hlt := Nat.lt_or_ge L listed.length
  · have hlast : listed[L - 1]? = some row := by
      rw [List.getLast?_eq_getElem?, List.length_take, Nat.min_eq_left hle.le,
        List.getElem?_take_of_lt (by omega)] at hrow
      exact hrow
    have hnext : listed[L]? = some listed[L] := List.getElem?_eq_getElem hle
    have hdrop : listed.drop L = listed[L] :: listed.drop (L + 1) := List.drop_eq_getElem_cons hle
    have hrest : ∀ r ∈ listed.drop L, key r ≤ key listed[L] := by
      have hsorted := h.sorted.sublist (List.drop_sublist L listed)
      rw [hdrop] at hsorted ⊢
      intro r hr
      obtain rfl | hr := List.mem_cons.1 hr
      · exact le_rfl
      · exact (List.pairwise_cons.1 hsorted).1 r hr
    have hle' : key listed[L] ≤ key row := by
      have := List.pairwise_iff_getElem.1 h.sorted (L - 1) L (by omega) hle (by omega)
      rwa [(List.getElem_eq_iff _).2 hlast] at this
    simp only [List.getElem?_map, hlast, hnext, Option.map_some, Option.some.injEq]
    constructor
    · intro hne r hr
      exact (hrest r hr).trans_lt (lt_of_le_of_ne hle' (hne _ _ rfl rfl).symm)
    · rintro hall a b rfl rfl heq
      exact (hall _ (by rw [hdrop]; exact List.mem_cons_self)).ne heq.symm
  · have hnone : (listed.map key)[L]? = none := by simpa using hlt
    have hdrop : listed.drop L = [] := List.drop_eq_nil_iff.2 hlt
    simp [hnone, hdrop]

end Page

theorem Visits.subperm (h : Visits key L rows pages) : pages.flatten.Subperm rows := by
  induction h with
  | last => simp
  | @page rows listed row rest hlists hrow hrest ih =>
    have hrest' : rest.flatten.Subperm (listed.drop L) :=
      ih.trans ((hlists.filter_perm hrow).subperm.trans (List.filter_sublist.subperm))
    have := (List.subperm_append_left (listed.take L)).2 hrest'
    rw [List.take_append_drop] at this
    exact this.trans hlists.perm.subperm

/-- The pages hold every row exactly once if and only if no page would end between two rows of one
key. -/
theorem Visits.perm_iff (hL : 1 ≤ L) (h : Visits key L rows pages) :
    pages.flatten.Perm rows ↔ NoTies L (descending (rows.map key)) := by
  induction h with
  | last =>
    simp [NoTies, descending]
  | @page rows listed row rest hlists hrow hrest ih =>
    have hfilter := hlists.filter_perm hrow
    have hrestsub := hrest.subperm.trans hfilter.subperm
    have htotal : (listed.take L ++ listed.drop L).Perm rows := by
      rw [List.take_append_drop]
      exact hlists.perm
    have hkeys : (∀ r ∈ listed.drop L, key r < key row) →
        (listed.drop L).map key = descending ((rows.filter fun r => key r < key row).map key) := by
      intro hall
      rw [List.filter_eq_self.2 fun r hr => decide_eq_true (hall r hr)] at hfilter
      exact Lists.keys_eq ⟨hfilter.symm, hlists.sorted.sublist (List.drop_sublist _ _)⟩
    rw [← hlists.keys_eq, noTies_iff hL, hlists.first_iff hL hrow, ← List.map_drop, List.flatten_cons]
    constructor
    · intro hperm
      -- Nothing is lost, so the strict cursor leaves everything after the page.
      have hdrop : rest.flatten.Perm (listed.drop L) :=
        (List.perm_append_left_iff _).1 (hperm.trans htotal.symm)
      have hlength := hrestsub.length_le
      rw [hdrop.length_eq] at hlength
      have hall : ∀ r ∈ listed.drop L, key r < key row := fun r hr => by
        have heq := List.filter_sublist.eq_of_length_le hlength
        exact of_decide_eq_true (List.filter_eq_self.1 heq r hr)
      rw [List.filter_eq_self.2 fun r hr => decide_eq_true (hall r hr)] at hfilter
      exact ⟨hall, hkeys hall ▸ ih.1 (hdrop.trans hfilter.symm)⟩
    · rintro ⟨hall, hties⟩
      have hdrop := ih.2 (hkeys hall ▸ hties)
      rw [List.filter_eq_self.2 fun r hr => decide_eq_true (hall r hr)] at hfilter
      exact ((hdrop.trans hfilter).append_left _).trans htotal

end Keyset
