import Mathlib.Data.List.Nodup
import Mathlib.Data.Nat.Basic
import Mathlib.Order.Lattice

/-!
# Least recently used

A bounded list of entries with an expiry each, from the least to the most recently used one. What the
list holds is told from the history of the operations: an entry stays as long as it has not been
dropped for room, not been forgotten and not expired, and the order is that of the last uses. A history
has its latest operation first.

## Main results

* `after_pairwise` — the order of the list is the order of the last uses.
* `find_after` — what is found under a key is what was last put there, unless it is lost or expired.
* `used_lt_of_dropped` — what is dropped for room was used before all that stays.
-/

namespace Recency

variable {K V T : Type*}

/-- What is kept under a key, and until when. -/
structure Slot (K V T : Type*) where
  key : K
  value : V
  expiresAt : T

/-- The operations. -/
inductive Op (K V T : Type*) where
  | get (key : K)
  | put (slot : Slot K V T)
  | forget (matching : K → Bool)

variable [DecidableEq K]

/-- The entries under other keys. -/
def without (key : K) (slots : List (Slot K V T)) : List (Slot K V T) := slots.filter (·.key ≠ key)

/-- The entries with a new one, before any are dropped. -/
def added (slot : Slot K V T) (slots : List (Slot K V T)) : List (Slot K V T) :=
  without slot.key slots ++ [slot]

/-- The entries that are dropped for a new one. -/
def dropped (capacity : Nat) (slot : Slot K V T) (slots : List (Slot K V T)) : List (Slot K V T) :=
  (added slot slots).take ((added slot slots).length - capacity)

variable [LinearOrder T]

/-- What an operation at some time leaves. -/
def apply (capacity : Nat) (now : T) : Op K V T → List (Slot K V T) → List (Slot K V T)
  | .get key, slots =>
    match slots.find? (·.key = key) with
    | none => slots
    | some slot => if slot.expiresAt ≤ now then without key slots else without key slots ++ [slot]
  | .put slot, slots => (added slot slots).drop ((added slot slots).length - capacity)
  | .forget matching, slots => slots.filter fun slot => !matching slot.key

/-- What is found under a key at some time. -/
def find (now : T) (key : K) (slots : List (Slot K V T)) : Option V :=
  (slots.find? (·.key = key)).bind fun slot => if slot.expiresAt ≤ now then none else some slot.value

/-! ## Histories -/

/-- The entries after a history. -/
def after (capacity : Nat) : List (T × Op K V T) → List (Slot K V T)
  | [] => []
  | (now, op) :: earlier => apply capacity now op (after capacity earlier)

/-- The operation is a use of the key. -/
def Op.uses (key : K) : Op K V T → Bool
  | .get k => k = key
  | .put slot => slot.key = key
  | .forget _ => false

/-- The number of the last use of a key, or zero. -/
def used (key : K) : List (T × Op K V T) → Nat
  | [] => 0
  | (_, op) :: earlier => if op.uses key then earlier.length + 1 else used key earlier

/-- What was last put under a key. -/
def lastPut (key : K) : List (T × Op K V T) → Option (Slot K V T)
  | [] => none
  | (_, .put slot) :: earlier => if slot.key = key then some slot else lastPut key earlier
  | _ :: earlier => lastPut key earlier

/-- Since it was last put, what is under the key was dropped for room, or forgotten. -/
def Lost (capacity : Nat) (key : K) : List (T × Op K V T) → Prop
  | [] => False
  | (_, .get _) :: earlier => Lost capacity key earlier
  | (_, .put slot) :: earlier =>
    slot.key ≠ key ∧
      (key ∈ (dropped capacity slot (after capacity earlier)).map (·.key) ∨ Lost capacity key earlier)
  | (_, .forget matching) :: earlier => matching key ∨ Lost capacity key earlier

section Slots

variable {slots : List (Slot K V T)} {slot : Slot K V T} {key : K} {capacity : Nat} {now : T}

omit [LinearOrder T] in
theorem mem_without : slot ∈ without key slots ↔ slot ∈ slots ∧ slot.key ≠ key := by
  simp [without]

omit [LinearOrder T] in
theorem without_sublist (key : K) (slots : List (Slot K V T)) : (without key slots).Sublist slots :=
  List.filter_sublist

omit [LinearOrder T] in
/-- With keys of their own, the entry under a key is the one that is found. -/
theorem find?_eq_some (hnodup : (slots.map (·.key)).Nodup) (hmem : slot ∈ slots) :
    slots.find? (·.key = slot.key) = some slot := by
  induction slots with
  | nil => cases hmem
  | cons s rest ih =>
    rw [List.map_cons, List.nodup_cons] at hnodup
    rcases List.mem_cons.1 hmem with rfl | hmem
    · simp
    · have hne : s.key ≠ slot.key := fun h => hnodup.1 (h ▸ List.mem_map_of_mem hmem)
      rw [List.find?_cons_of_neg (by simpa using hne)]
      exact ih hnodup.2 hmem

omit [LinearOrder T] in
theorem added_nodup (hnodup : (slots.map (·.key)).Nodup) : ((added slot slots).map (·.key)).Nodup := by
  rw [added, List.map_append, List.nodup_append]
  refine ⟨hnodup.sublist ((without_sublist _ _).map _), by simp, ?_⟩
  rintro k hk k' hk' rfl
  obtain ⟨s, hs, rfl⟩ := List.mem_map.1 hk
  exact (mem_without.1 hs).2 (by simpa using hk')

theorem apply_nodup (hnodup : (slots.map (·.key)).Nodup) (op : Op K V T) :
    ((apply capacity now op slots).map (·.key)).Nodup := by
  cases op with
  | get key =>
    rw [apply]
    split
    · exact hnodup
    · next s hs =>
      split
      · exact hnodup.sublist ((without_sublist _ _).map _)
      · have hkey : s.key = key := by simpa using List.find?_some hs
        subst hkey
        exact added_nodup hnodup
  | put slot => exact (added_nodup hnodup).sublist ((List.drop_sublist _ _).map _)
  | forget matching => exact hnodup.sublist (List.filter_sublist.map _)

omit [LinearOrder T] in
theorem added_eq_dropped_append (capacity : Nat) (slot : Slot K V T) (slots : List (Slot K V T)) :
    added slot slots = dropped capacity slot slots ++
      (added slot slots).drop ((added slot slots).length - capacity) :=
  (List.take_append_drop _ _).symm

omit [LinearOrder T] in
theorem excess_le (hcapacity : 1 ≤ capacity) (slot : Slot K V T) (slots : List (Slot K V T)) :
    (without slot.key slots ++ [slot]).length - capacity ≤ (without slot.key slots).length := by
  rw [List.length_append, List.length_singleton]
  omega

/-- What is put is not dropped itself. -/
theorem mem_apply_put (hcapacity : 1 ≤ capacity) : slot ∈ apply capacity now (.put slot) slots := by
  rw [apply, added, List.drop_append_of_le_length (excess_le hcapacity _ _)]
  exact List.mem_append_right _ (by simp)

end Slots

section Histories

variable {h : List (T × Op K V T)} {capacity : Nat} {key : K} {slot : Slot K V T} {now : T}

theorem after_nodup (capacity : Nat) (h : List (T × Op K V T)) : ((after capacity h).map (·.key)).Nodup := by
  induction h with
  | nil => exact List.nodup_nil
  | cons event earlier ih => exact apply_nodup ih event.2

/-- The bound holds after every operation. -/
theorem after_length_le (capacity : Nat) (h : List (T × Op K V T)) : (after capacity h).length ≤ capacity := by
  induction h with
  | nil => exact Nat.zero_le _
  | cons event earlier ih =>
    obtain ⟨now, op⟩ := event
    cases op with
    | get key =>
      rw [after, apply]
      split
      · exact ih
      · next s hs =>
        have hless : (without key (after capacity earlier)).length < (after capacity earlier).length := by
          refine List.length_filter_lt_length_iff_exists.2 ⟨s, List.mem_of_find?_eq_some hs, ?_⟩
          simpa using List.find?_some hs
        split
        · exact hless.le.trans ih
        · rw [List.length_append, List.length_singleton]
          omega
    | put slot =>
      rw [after, apply, List.length_drop]
      omega
    | forget matching => exact (List.length_filter_le _ _).trans ih

omit [LinearOrder T] in
theorem used_le_length (key : K) (h : List (T × Op K V T)) : used key h ≤ h.length := by
  induction h with
  | nil => exact le_rfl
  | cons event earlier ih =>
    obtain ⟨now, op⟩ := event
    rw [used, List.length_cons]
    split
    · exact le_rfl
    · exact ih.trans (Nat.le_succ _)

omit [LinearOrder T] in
theorem used_cons_self {op : Op K V T} (hop : op.uses key) : used key ((now, op) :: h) = h.length + 1 := by
  rw [used, if_pos hop]

omit [LinearOrder T] in
theorem used_cons_other {op : Op K V T} (hop : ¬ op.uses key) : used key ((now, op) :: h) = used key h := by
  rw [used, if_neg hop]

omit [LinearOrder T] in
/-- Entries under other keys keep their order when one key is used. -/
theorem pairwise_used {op : Op K V T} {slots : List (Slot K V T)}
    (hslots : slots.Pairwise fun a b => used a.key h < used b.key h)
    (hother : ∀ s ∈ slots, ¬ op.uses s.key) :
    slots.Pairwise fun a b => used a.key ((now, op) :: h) < used b.key ((now, op) :: h) := by
  refine hslots.imp_of_mem fun ha hb hab => ?_
  rw [used_cons_other (hother _ ha), used_cons_other (hother _ hb)]
  exact hab

omit [LinearOrder T] in
/-- The entry that is used comes last. -/
theorem pairwise_used_append {op : Op K V T} {slots : List (Slot K V T)}
    (hslots : slots.Pairwise fun a b => used a.key h < used b.key h)
    (hother : ∀ s ∈ slots, ¬ op.uses s.key) (hslot : op.uses slot.key) :
    (slots ++ [slot]).Pairwise fun a b => used a.key ((now, op) :: h) < used b.key ((now, op) :: h) := by
  refine List.pairwise_append.2 ⟨pairwise_used hslots hother, List.pairwise_singleton _ _, ?_⟩
  intro a ha b hb
  obtain rfl := List.mem_singleton.1 hb
  rw [used_cons_other (hother a ha), used_cons_self hslot]
  exact Nat.lt_succ_of_le (used_le_length _ _)

omit [LinearOrder T] in
theorem added_pairwise {slots : List (Slot K V T)} (now : T) (slot : Slot K V T)
    (hslots : slots.Pairwise fun a b => used a.key h < used b.key h) :
    (added slot slots).Pairwise fun a b =>
      used a.key ((now, .put slot) :: h) < used b.key ((now, .put slot) :: h) := by
  refine pairwise_used_append (hslots.sublist (without_sublist _ _)) (fun s hs => ?_) (by simp [Op.uses])
  simpa [Op.uses, eq_comm] using (mem_without.1 hs).2

/-- The order of the entries is that of their last uses. -/
theorem after_pairwise (capacity : Nat) (h : List (T × Op K V T)) :
    (after capacity h).Pairwise fun a b => used a.key h < used b.key h := by
  induction h with
  | nil => exact .nil
  | cons event earlier ih =>
    obtain ⟨now, op⟩ := event
    cases op with
    | get key =>
      have hothers : ∀ s ∈ without key (after capacity earlier), ¬ (Op.get key : Op K V T).uses s.key := by
        intro s hs
        simpa [Op.uses, eq_comm] using (mem_without.1 hs).2
      rw [after, apply]
      split
      · next hnone =>
        refine pairwise_used ih fun s hs => ?_
        have hne := List.find?_eq_none.1 hnone s hs
        simpa [Op.uses, eq_comm] using hne
      · next s hs =>
        have hkey : s.key = key := by simpa using List.find?_some hs
        split
        · exact pairwise_used (ih.sublist (without_sublist _ _)) hothers
        · exact pairwise_used_append (ih.sublist (without_sublist _ _)) hothers (by simp [Op.uses, hkey])
    | put slot => exact (added_pairwise now slot ih).sublist (List.drop_sublist _ _)
    | forget matching =>
      exact pairwise_used (ih.sublist List.filter_sublist) fun s _ => by simp [Op.uses]

/-- What is dropped for room was used before all that stays, and it is not what was put. -/
theorem used_lt_of_dropped {s s' : Slot K V T} (hs : s ∈ dropped capacity slot (after capacity h))
    (hs' : s' ∈ after capacity ((now, .put slot) :: h)) :
    used s.key ((now, .put slot) :: h) < used s'.key ((now, .put slot) :: h) := by
  have hpairwise := added_pairwise now slot (after_pairwise capacity h)
  rw [added_eq_dropped_append capacity] at hpairwise
  exact (List.pairwise_append.1 hpairwise).2.2 s hs s' hs'

/-- A read brings no entry in. -/
theorem mem_of_mem_get {key : K} (hmem : slot ∈ after capacity ((now, .get key) :: h)) : slot ∈ after capacity h := by
  rw [after, apply] at hmem
  split at hmem
  · exact hmem
  · next s hs =>
    split at hmem
    · exact (mem_without.1 hmem).1
    · rcases List.mem_append.1 hmem with hmem | hmem
      · exact (mem_without.1 hmem).1
      · obtain rfl := List.mem_singleton.1 hmem
        exact List.mem_of_find?_eq_some hs

/-- An entry is what was last put under its key. -/
theorem lastPut_of_mem (hmem : slot ∈ after capacity h) : lastPut slot.key h = some slot := by
  induction h with
  | nil => cases hmem
  | cons event earlier ih =>
    obtain ⟨now, op⟩ := event
    cases op with
    | get key => exact ih (mem_of_mem_get hmem)
    | put s =>
      rcases List.mem_append.1 (List.mem_of_mem_drop hmem) with hmem | hmem
      · obtain ⟨hmem, hne⟩ := mem_without.1 hmem
        rw [lastPut, if_neg fun h => hne h.symm]
        exact ih hmem
      · obtain rfl := List.mem_singleton.1 hmem
        rw [lastPut, if_pos rfl]
    | forget matching => exact ih (List.mem_filter.1 hmem).1

/-- An entry is not lost. -/
theorem not_lost_of_mem (hmem : slot ∈ after capacity h) :
    ¬ Lost capacity slot.key h := by
  induction h with
  | nil => exact id
  | cons event earlier ih =>
    obtain ⟨now, op⟩ := event
    cases op with
    | get key => exact ih (mem_of_mem_get hmem)
    | put s =>
      rintro ⟨hne, hdropped | hlost⟩
      · obtain ⟨x, hx, hkey⟩ := List.mem_map.1 hdropped
        have hlt := used_lt_of_dropped hx hmem
        rw [hkey] at hlt
        exact lt_irrefl _ hlt
      · rcases List.mem_append.1 (List.mem_of_mem_drop hmem) with hmem | hmem
        · exact ih (mem_without.1 hmem).1 hlost
        · obtain rfl := List.mem_singleton.1 hmem
          exact hne rfl
    | forget matching =>
      obtain ⟨hmem, hkept⟩ := List.mem_filter.1 hmem
      rintro (hmatch | hlost)
      · simp [hmatch] at hkept
      · exact ih hmem hlost

/-- What was last put is an entry still, unless it is lost or expired by now. -/
theorem mem_of_lastPut (hcapacity : 1 ≤ capacity) (hput : lastPut key h = some slot)
    (hlost : ¬ Lost capacity key h) (hclock : ∀ event ∈ h, event.1 ≤ now) (hfresh : now < slot.expiresAt) :
    slot ∈ after capacity h ∧ slot.key = key := by
  induction h with
  | nil => cases hput
  | cons event earlier ih =>
    obtain ⟨time, op⟩ := event
    obtain ⟨htime, hearlier⟩ := List.forall_mem_cons.1 hclock
    cases op with
    | get k =>
      obtain ⟨hmem, hkey⟩ := ih hput hlost hearlier
      refine ⟨?_, hkey⟩
      rw [after, apply]
      split
      · exact hmem
      · next s hs =>
        have hsk : s.key = k := by simpa using List.find?_some hs
        by_cases hk : slot.key = k
        · have hsame : s = slot := by
            have hfound := find?_eq_some (after_nodup capacity earlier) hmem
            rw [hk] at hfound
            exact Option.some_inj.1 (hs.symm.trans hfound)
          subst hsame
          rw [if_neg (not_le.2 (htime.trans_lt hfresh))]
          exact List.mem_append_right _ (by simp)
        · have hrest := mem_without.2 ⟨hmem, hk⟩
          split
          · exact hrest
          · exact List.mem_append_left _ hrest
    | put s =>
      rw [lastPut] at hput
      split at hput
      · next hsk =>
        obtain rfl := Option.some_inj.1 hput
        exact ⟨mem_apply_put hcapacity, hsk⟩
      · next hne =>
        have hlost' : key ∉ (dropped capacity s (after capacity earlier)).map (·.key) ∧
            ¬ Lost capacity key earlier :=
          not_or.1 fun h => hlost ⟨hne, h⟩
        obtain ⟨hmem, hkey⟩ := ih hput hlost'.2 hearlier
        refine ⟨?_, hkey⟩
        have hadded : slot ∈ added s (after capacity earlier) :=
          List.mem_append_left _ (mem_without.2 ⟨hmem, fun h => hne (h.symm.trans hkey)⟩)
        rw [added_eq_dropped_append capacity] at hadded
        refine (List.mem_append.1 hadded).resolve_left fun hdropped => hlost'.1 ?_
        exact hkey ▸ List.mem_map_of_mem hdropped
    | forget matching =>
      obtain ⟨hmatch, hlost'⟩ := not_or.1 hlost
      obtain ⟨hmem, hkey⟩ := ih hput hlost' hearlier
      exact ⟨List.mem_filter.2 ⟨hmem, by simpa [hkey] using hmatch⟩, hkey⟩

/-- What is found is what was last put there, unless that is lost or expired. -/
theorem find_after (hcapacity : 1 ≤ capacity) (hclock : ∀ event ∈ h, event.1 ≤ now) {value : V} :
    find now key (after capacity h) = some value ↔
      ∃ slot, lastPut key h = some slot ∧ slot.value = value ∧ ¬ Lost capacity key h ∧ now < slot.expiresAt := by
  constructor
  · intro hfind
    obtain ⟨slot, hslot, hvalue⟩ := Option.bind_eq_some_iff.1 hfind
    have hkey : slot.key = key := by simpa using List.find?_some hslot
    have hmem := List.mem_of_find?_eq_some hslot
    subst hkey
    split at hvalue
    · cases hvalue
    · next hfresh =>
      exact ⟨slot, lastPut_of_mem hmem, Option.some_inj.1 hvalue, not_lost_of_mem hmem,
        not_le.1 hfresh⟩
  · rintro ⟨slot, hput, rfl, hlost, hfresh⟩
    obtain ⟨hmem, rfl⟩ := mem_of_lastPut hcapacity hput hlost hclock hfresh
    rw [find, find?_eq_some (after_nodup capacity h) hmem, Option.bind_some, if_neg (not_le.2 hfresh)]

end Histories

end Recency
