import Mathlib.Algebra.BigOperators.Group.List.Basic
import Mathlib.Data.List.Nodup
import Mathlib.Tactic.Abel

/-!
# Collections of keyed documents

A collection holds documents in the order of their creation. Keys are given out by the
collection itself, so they are unique and a new document's key has never been used before.
Updates are patches, functions that leave the key alone.
-/

namespace Effect

/-- Documents with a key of their own. -/
class Keyed (α : Type) where
  key : α → Nat

open Keyed (key)

/-- A function on documents that keeps the key. -/
structure Patch (α : Type) [Keyed α] where
  run : α → α
  key_run : ∀ a, key (run a) = key a

/-- Documents under unique keys, with the next key to give out. -/
structure Collection (α : Type) [Keyed α] where
  docs : List α
  next : Nat
  nodup : (docs.map key).Nodup
  fresh : ∀ a ∈ docs, key a < next

namespace Collection

variable {α : Type} [Keyed α]

/-- The document under a key. -/
def get? (c : Collection α) (i : Nat) : Option α := c.docs.find? fun a => key a == i

/-- Patch every document that matches. -/
def modify (c : Collection α) (p : α → Bool) (f : Patch α) : Collection α where
  docs := c.docs.map fun a => if p a then f.run a else a
  next := c.next
  nodup := by
    have h : (c.docs.map fun a => if p a then f.run a else a).map key = c.docs.map key := by
      rw [List.map_map]
      exact List.map_congr_left fun a _ => by simp only [Function.comp]; split <;> simp [f.key_run]
    exact h ▸ c.nodup
  fresh := by
    intro b hb
    obtain ⟨a, ha, rfl⟩ := List.mem_map.1 hb
    have := c.fresh a ha
    split <;> simpa [f.key_run]

/-- Patch the document under a key. -/
def update (c : Collection α) (i : Nat) (f : Patch α) : Collection α :=
  c.modify (fun a => key a == i) f

/-- Add a document under the next key. -/
def insert (c : Collection α) (a : α) (h : key a = c.next) : Collection α where
  docs := c.docs ++ [a]
  next := c.next + 1
  nodup := by
    rw [List.map_append, List.nodup_append]
    refine ⟨c.nodup, by simp, ?_⟩
    intro i hi j hj
    obtain ⟨b, hb, rfl⟩ := List.mem_map.1 hi
    have := c.fresh b hb
    simp only [List.map_cons, List.map_nil, List.mem_singleton] at hj
    omega
  fresh := by
    intro b hb
    rcases List.mem_append.1 hb with hb | hb
    · have := c.fresh b hb
      omega
    · simp only [List.mem_singleton] at hb
      subst hb
      omega

/-- Remove the document under a key. -/
def erase (c : Collection α) (i : Nat) : Collection α where
  docs := c.docs.filter fun a => key a != i
  next := c.next
  nodup := c.nodup.sublist (List.filter_sublist.map key)
  fresh a ha := c.fresh a (List.mem_of_mem_filter ha)

@[ext] theorem ext {c d : Collection α} (hdocs : c.docs = d.docs) (hnext : c.next = d.next) :
    c = d := by
  cases c
  cases d
  simp_all

instance [DecidableEq α] : DecidableEq (Collection α) := fun c d =>
  decidable_of_iff (c.docs = d.docs ∧ c.next = d.next) <| by
    cases c; cases d; simp

instance : EmptyCollection (Collection α) where
  emptyCollection := ⟨[], 0, by simp, by simp⟩

/-! ## Lookup -/

theorem find?_key {l : List α} (hl : (l.map key).Nodup) {a : α} (ha : a ∈ l) :
    l.find? (fun b => key b == key a) = some a := by
  induction l with
  | nil => simp at ha
  | cons b l ih =>
    simp only [List.map_cons, List.nodup_cons] at hl
    rcases List.mem_cons.1 ha with rfl | ha
    · simp
    · have hne : key b ≠ key a := fun h => hl.1 (h ▸ List.mem_map_of_mem ha)
      simp [hne, ih hl.2 ha]

theorem get?_eq_some {c : Collection α} {i : Nat} {a : α} :
    c.get? i = some a ↔ a ∈ c.docs ∧ key a = i := by
  constructor
  · intro h
    exact ⟨List.mem_of_find?_eq_some h, by simpa using List.find?_some h⟩
  · rintro ⟨ha, rfl⟩
    exact find?_key c.nodup ha

theorem get?_key {c : Collection α} {i : Nat} {a : α} (h : c.get? i = some a) : key a = i :=
  (get?_eq_some.1 h).2

theorem get?_lt {c : Collection α} {i : Nat} {a : α} (h : c.get? i = some a) : i < c.next := by
  obtain ⟨ha, rfl⟩ := get?_eq_some.1 h
  exact c.fresh a ha

theorem get?_eq_none {c : Collection α} {i : Nat} :
    c.get? i = none ↔ ∀ a ∈ c.docs, key a ≠ i := by
  simp [get?, List.find?_eq_none]

@[simp] theorem get?_next (c : Collection α) : c.get? c.next = none :=
  get?_eq_none.2 fun a ha => (c.fresh a ha).ne

@[simp] theorem modify_next (c : Collection α) (p : α → Bool) (f : Patch α) :
    (c.modify p f).next = c.next := rfl

@[simp] theorem update_next (c : Collection α) (i : Nat) (f : Patch α) :
    (c.update i f).next = c.next := rfl

@[simp] theorem insert_next (c : Collection α) (a : α) (h : key a = c.next) :
    (c.insert a h).next = c.next + 1 := rfl

@[simp] theorem erase_next (c : Collection α) (i : Nat) : (c.erase i).next = c.next := rfl

theorem mem_modify {c : Collection α} {p : α → Bool} {f : Patch α} {b : α} :
    b ∈ (c.modify p f).docs ↔ ∃ a ∈ c.docs, (if p a then f.run a else a) = b := by
  simp [modify]

theorem mem_insert {c : Collection α} {a b : α} {h : key a = c.next} :
    b ∈ (c.insert a h).docs ↔ b ∈ c.docs ∨ b = a := by
  simp [insert]

theorem mem_erase {c : Collection α} {i : Nat} {b : α} :
    b ∈ (c.erase i).docs ↔ b ∈ c.docs ∧ key b ≠ i := by
  simp [erase]

theorem get?_modify (c : Collection α) (p : α → Bool) (f : Patch α) (i : Nat) :
    (c.modify p f).get? i = (c.get? i).map fun a => if p a then f.run a else a := by
  cases h : c.get? i with
  | none =>
    refine get?_eq_none.2 fun b hb => ?_
    obtain ⟨a, ha, rfl⟩ := mem_modify.1 hb
    have := get?_eq_none.1 h a ha
    split <;> simpa [f.key_run]
  | some a =>
    obtain ⟨ha, rfl⟩ := get?_eq_some.1 h
    refine get?_eq_some.2 ⟨mem_modify.2 ⟨a, ha, rfl⟩, ?_⟩
    dsimp only
    split <;> simp [f.key_run]

theorem get?_update (c : Collection α) (i j : Nat) (f : Patch α) :
    (c.update i f).get? j = if j = i then (c.get? j).map f.run else c.get? j := by
  rw [update, get?_modify]
  cases h : c.get? j with
  | none => simp
  | some a =>
    have := get?_key h
    by_cases hij : j = i <;> simp_all

theorem get?_update_self (c : Collection α) (i : Nat) (f : Patch α) :
    (c.update i f).get? i = (c.get? i).map f.run := by
  simp [get?_update]

theorem mem_update {c : Collection α} {i : Nat} {a : α} (h : c.get? i = some a) {f : Patch α}
    {b : α} : b ∈ (c.update i f).docs ↔ (b ∈ c.docs ∧ key b ≠ i) ∨ b = f.run a := by
  rw [update, mem_modify]
  constructor
  · rintro ⟨x, hx, rfl⟩
    by_cases hk : key x = i
    · obtain rfl : x = a := Option.some_inj.1 ((get?_eq_some.2 ⟨hx, hk⟩).symm.trans h)
      exact .inr (by simp [hk])
    · exact .inl (by simp [hk, hx])
  · rintro (⟨hb, hk⟩ | rfl)
    · exact ⟨b, hb, by simp [hk]⟩
    · exact ⟨a, (get?_eq_some.1 h).1, by simp [get?_key h]⟩

theorem get?_insert (c : Collection α) (a : α) (h : key a = c.next) (i : Nat) :
    (c.insert a h).get? i = if i = c.next then some a else c.get? i := by
  by_cases hi : i = c.next
  · subst hi
    rw [if_pos rfl]
    exact get?_eq_some.2 ⟨mem_insert.2 (.inr rfl), h⟩
  · rw [if_neg hi]
    cases hg : c.get? i with
    | none =>
      refine get?_eq_none.2 fun b hb => ?_
      rcases mem_insert.1 hb with hb | rfl
      · exact get?_eq_none.1 hg b hb
      · exact fun hb => hi (hb ▸ h)
    | some b =>
      obtain ⟨hb, hk⟩ := get?_eq_some.1 hg
      exact get?_eq_some.2 ⟨mem_insert.2 (.inl hb), hk⟩

theorem get?_insert_next (c : Collection α) (a : α) (h : key a = c.next) :
    (c.insert a h).get? c.next = some a := by
  simp [get?_insert]

theorem get?_erase (c : Collection α) (i j : Nat) :
    (c.erase i).get? j = if j = i then none else c.get? j := by
  by_cases hj : j = i
  · subst hj
    rw [if_pos rfl]
    exact get?_eq_none.2 fun b hb => (mem_erase.1 hb).2
  · rw [if_neg hj]
    cases hg : c.get? j with
    | none => exact get?_eq_none.2 fun b hb => get?_eq_none.1 hg b (mem_erase.1 hb).1
    | some b =>
      obtain ⟨hb, hk⟩ := get?_eq_some.1 hg
      exact get?_eq_some.2 ⟨mem_erase.2 ⟨hb, by omega⟩, hk⟩

/-- A search that a patch does not influence finds the patched document. -/
theorem find?_update (c : Collection α) (i : Nat) {f : Patch α} {p : α → Bool}
    (hp : ∀ a, p (f.run a) = p a) :
    (c.update i f).docs.find? p =
      (c.docs.find? p).map fun a => if key a == i then f.run a else a := by
  rw [update, modify, List.find?_map]
  congr 2
  funext a
  simp only [Function.comp]
  split
  · exact hp a
  · rfl

/-- A patch that is undone at once changes nothing. -/
theorem update_update_cancel (c : Collection α) (i : Nat) {f g : Patch α}
    (h : ∀ a, f.run (g.run a) = a) : (c.update i g).update i f = c := by
  refine ext ?_ rfl
  simp only [update, modify, List.map_map]
  refine (List.map_congr_left fun a _ => ?_).trans (List.map_id _)
  by_cases hi : key a = i
  · simp [hi, g.key_run, h]
  · simp [hi]

/-- A document that is removed at once leaves the others. -/
theorem erase_insert (c : Collection α) (a : α) (h : key a = c.next) :
    ((c.insert a h).erase c.next).docs = c.docs := by
  simp only [erase, insert, List.filter_append]
  rw [List.filter_cons_of_neg (by simp [h]), List.filter_nil, List.append_nil]
  refine List.filter_eq_self.2 fun b hb => ?_
  have hlt := c.fresh b hb
  simpa using hlt.ne

/-! ## Views of a collection -/

/-- Give out no key below `n`. -/
def raise (c : Collection α) (n : Nat) : Collection α where
  docs := c.docs
  next := max c.next n
  nodup := c.nodup
  fresh a ha := lt_of_lt_of_le (c.fresh a ha) (le_max_left _ _)

/-- Take the documents under some keys from another collection. -/
def overlay (p : Nat → Bool) (v c : Collection α) : Collection α where
  docs := c.docs.filter (fun a => !p (key a)) ++ v.docs.filter fun a => p (key a)
  next := max c.next v.next
  nodup := by
    rw [List.map_append, List.nodup_append]
    refine ⟨c.nodup.sublist (List.filter_sublist.map key), v.nodup.sublist (List.filter_sublist.map key),
      ?_⟩
    intro i hi j hj hij
    obtain ⟨a, ha, rfl⟩ := List.mem_map.1 hi
    obtain ⟨b, hb, rfl⟩ := List.mem_map.1 hj
    have hpa := (List.mem_filter.1 ha).2
    have hpb := (List.mem_filter.1 hb).2
    simp [hij, hpb] at hpa
  fresh a ha := by
    rcases List.mem_append.1 ha with ha | ha
    · exact lt_of_lt_of_le (c.fresh a (List.mem_of_mem_filter ha)) (le_max_left _ _)
    · exact lt_of_lt_of_le (v.fresh a (List.mem_of_mem_filter ha)) (le_max_right _ _)

theorem get?_overlay (p : Nat → Bool) (v c : Collection α) (i : Nat) :
    (overlay p v c).get? i = if p i then v.get? i else c.get? i := by
  have hfilter : ∀ (d : Collection α) (q : Nat → Bool),
      (d.docs.filter fun a => q (key a)).find? (fun a => key a == i) = if q i then d.get? i else none := by
    intro d q
    rw [List.find?_filter, get?]
    split
    · next hq =>
      congr 1
      funext a
      by_cases ha : key a = i <;> simp [ha, hq]
    · next hq =>
      rw [List.find?_eq_none]
      intro a _
      by_cases ha : key a = i <;> simp [ha, hq]
  rw [get?, overlay, List.find?_append, hfilter c fun n => !p n, hfilter v p]
  cases p i <;> simp

section Differences

variable [DecidableEq α]

/-- The document under a key is another one. -/
def differs (c d : Collection α) (i : Nat) : Bool := d.get? i != c.get? i

/-- Some document differs both in `v` and in `d`. -/
def clashes (c v d : Collection α) : Bool :=
  (c.docs ++ v.docs).any fun a => c.differs v (key a) && c.differs d (key a)

theorem get?_of_not_clashes {c v d : Collection α} (h : c.clashes v d = false) {i : Nat}
    (hi : v.get? i ≠ c.get? i) : d.get? i = c.get? i := by
  rw [clashes, List.any_eq_false] at h
  have hsome : ∃ a ∈ c.docs ++ v.docs, key a = i := by
    cases hc : c.get? i with
    | some a =>
      obtain ⟨ha, hk⟩ := get?_eq_some.1 hc
      exact ⟨a, List.mem_append_left _ ha, hk⟩
    | none =>
      obtain ⟨a, hv⟩ := Option.ne_none_iff_exists'.1 (hc ▸ hi)
      obtain ⟨ha, hk⟩ := get?_eq_some.1 hv
      exact ⟨a, List.mem_append_right _ ha, hk⟩
  obtain ⟨a, ha, rfl⟩ := hsome
  simpa [differs, hi] using h a ha

end Differences

/-! ## Sums over a collection -/

variable {A : Type} [AddCommMonoid A]

/-- The sum of a measure over all documents. -/
def sum (c : Collection α) (f : α → A) : A := (c.docs.map f).sum

theorem sum_insert (c : Collection α) (a : α) (h : key a = c.next) (f : α → A) :
    (c.insert a h).sum f = c.sum f + f a := by
  simp [sum, insert]

theorem sum_congr (c : Collection α) {f g : α → A} (h : ∀ a ∈ c.docs, f a = g a) :
    c.sum f = c.sum g := by
  rw [sum, List.map_congr_left h, sum]

private theorem sum_single_list {l : List α} (hl : (l.map key).Nodup) {a : α} (ha : a ∈ l)
    (m : α → A) (hm : ∀ b ∈ l, key b ≠ key a → m b = 0) : (l.map m).sum = m a := by
  induction l with
  | nil => simp at ha
  | cons b l ih =>
    simp only [List.map_cons, List.nodup_cons] at hl
    rcases List.mem_cons.1 ha with rfl | ha
    · have hzero : (l.map m).sum = 0 := List.sum_eq_zero fun x hx => by
        obtain ⟨b, hb, rfl⟩ := List.mem_map.1 hx
        exact hm b (by simp [hb]) fun h => hl.1 (h ▸ List.mem_map_of_mem hb)
      simp [hzero]
    · have hne : key b ≠ key a := fun h => hl.1 (h ▸ List.mem_map_of_mem ha)
      simp [hm b (by simp) hne, ih hl.2 ha fun c hc => hm c (by simp [hc])]

/-- A measure of a single document sums to its value there. -/
theorem sum_single {c : Collection α} {i : Nat} {a : α} (h : c.get? i = some a) (m : α → A)
    (hm : ∀ b ∈ c.docs, key b ≠ i → m b = 0) : c.sum m = m a := by
  obtain ⟨ha, rfl⟩ := get?_eq_some.1 h
  exact sum_single_list c.nodup ha m hm

private theorem sum_update_list {l : List α} (hl : (l.map key).Nodup) {a : α} (ha : a ∈ l)
    (f : α → α) (m : α → A) :
    (l.map fun b => m (if key b == key a then f b else b)).sum + m a = (l.map m).sum + m (f a) := by
  induction l with
  | nil => simp at ha
  | cons b l ih =>
    simp only [List.map_cons, List.nodup_cons] at hl
    rcases List.mem_cons.1 ha with rfl | ha
    · have hrest : (l.map fun b => m (if key b == key a then f b else b)) = l.map m := by
        refine List.map_congr_left fun b hb => ?_
        have hne : key b ≠ key a := fun h => hl.1 (h ▸ List.mem_map_of_mem hb)
        simp [hne]
      simp only [List.map_cons, beq_self_eq_true, if_true, List.sum_cons, hrest]
      abel
    · have hne : key b ≠ key a := fun h => hl.1 (h ▸ List.mem_map_of_mem ha)
      have := ih hl.2 ha
      simp only [List.map_cons, List.sum_cons, beq_eq_false_iff_ne.2 hne, Bool.false_eq_true,
        if_false, add_assoc, this]

private theorem sum_erase_list {l : List α} (hl : (l.map key).Nodup) {a : α} (ha : a ∈ l)
    (m : α → A) : ((l.filter fun b => key b != key a).map m).sum + m a = (l.map m).sum := by
  induction l with
  | nil => simp at ha
  | cons b l ih =>
    simp only [List.map_cons, List.nodup_cons] at hl
    rcases List.mem_cons.1 ha with rfl | ha
    · have hrest : (l.filter fun b => key b != key a) = l := by
        refine List.filter_eq_self.2 fun b hb => ?_
        have hne : key b ≠ key a := fun h => hl.1 (h ▸ List.mem_map_of_mem hb)
        simpa using hne
      rw [List.filter_cons_of_neg (by simp), hrest, List.map_cons, List.sum_cons, add_comm]
    · have hne : key b ≠ key a := fun h => hl.1 (h ▸ List.mem_map_of_mem ha)
      rw [List.filter_cons_of_pos (by simpa using hne), List.map_cons, List.map_cons, List.sum_cons,
        List.sum_cons, add_assoc, ih hl.2 ha]

/-- A document that is removed takes its share of the sum away. -/
theorem sum_erase {c : Collection α} {i : Nat} {a : α} (h : c.get? i = some a) (m : α → A) :
    (c.erase i).sum m + m a = c.sum m := by
  obtain ⟨ha, rfl⟩ := get?_eq_some.1 h
  exact sum_erase_list c.nodup ha m

/-- A patch of one document changes the sum by that document's change. -/
theorem sum_update {c : Collection α} {i : Nat} {a : α} (h : c.get? i = some a) (f : Patch α)
    (m : α → A) : (c.update i f).sum m + m a = c.sum m + m (f.run a) := by
  obtain ⟨ha, rfl⟩ := get?_eq_some.1 h
  simpa [sum, update, modify, Function.comp_def] using sum_update_list c.nodup ha f.run m

theorem update_of_get?_none {c : Collection α} {i : Nat} (h : c.get? i = none) (f : Patch α) :
    (c.update i f).docs = c.docs := by
  have hne := get?_eq_none.1 h
  rw [update, modify]
  conv_rhs => rw [← List.map_id c.docs]
  exact List.map_congr_left fun a ha => by simp [hne a ha]

end Collection
end Effect
