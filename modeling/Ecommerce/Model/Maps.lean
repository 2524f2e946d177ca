import Ecommerce.Model.Cache

/-!
# Reading a Map

What `get` finds after `set` and `delete`, and the entries as the keys with what `get` finds.
-/

namespace Ecommerce.JsMap

variable {K V : Type} [DecidableEq K]

theorem get_eq_some_iff {m : JsMap K V} {key : K} {value : V} :
    m.get key = some value ↔ (key, value) ∈ m.entries := by
  rw [get, Option.map_eq_some_iff]
  constructor
  · rintro ⟨⟨k, v⟩, hfind, rfl⟩
    obtain rfl : k = key := by simpa using List.find?_some hfind
    exact List.mem_of_find?_eq_some hfind
  · intro hmem
    obtain ⟨⟨k, v⟩, hfind⟩ : ∃ e, m.entries.find? (·.1 = key) = some e :=
      Option.isSome_iff_exists.1 (List.find?_isSome.2 ⟨_, hmem, by simp⟩)
    obtain rfl : k = key := by simpa using List.find?_some hfind
    have hsame := List.inj_on_of_nodup_map m.nodup (List.mem_of_find?_eq_some hfind) hmem rfl
    exact ⟨_, hfind, congrArg Prod.snd hsame⟩

theorem get_eq_none_iff {m : JsMap K V} {key : K} : m.get key = none ↔ key ∉ m.keys := by
  rw [get, Option.map_eq_none_iff, List.find?_eq_none]
  simp [keys]
  grind

theorem mem_keys_iff_get {m : JsMap K V} {key : K} : key ∈ m.keys ↔ ∃ value, m.get key = some value := by
  rw [← Option.isSome_iff_exists, ← Option.ne_none_iff_isSome, ne_eq, get_eq_none_iff, not_not]

theorem get_delete (m : JsMap K V) (key k : K) :
    (m.delete key).get k = if k = key then none else m.get k := by
  refine Option.ext fun v => ?_
  rw [get_eq_some_iff]
  split
  · next h => simp [delete, h]
  · next h => simp [delete, h, get_eq_some_iff]

theorem get_set (m : JsMap K V) (key : K) (value : V) (k : K) :
    (m.set key value).get k = if k = key then some value else m.get k := by
  refine Option.ext fun v => ?_
  rw [get_eq_some_iff]
  by_cases hkey : key ∈ m.keys
  · obtain ⟨w, hw⟩ := mem_keys_iff_get.1 hkey
    rw [get_eq_some_iff] at hw
    simp only [set, dif_pos hkey, List.mem_map]
    split
    · next h =>
      subst h
      grind
    · next h =>
      rw [get_eq_some_iff]
      grind
  · have hnone := get_eq_none_iff.2 hkey
    simp only [set, dif_neg hkey, List.mem_append, List.mem_singleton, ← get_eq_some_iff]
    grind

theorem keys_set (m : JsMap K V) (key : K) (value : V) :
    (m.set key value).keys = if key ∈ m.keys then m.keys else m.keys ++ [key] := by
  by_cases hkey : key ∈ m.keys
  · rw [if_pos hkey, set, dif_pos hkey, keys, keys, List.map_map]
    refine List.map_congr_left fun e _ => ?_
    by_cases he : e.1 = key <;> simp [he]
  · rw [if_neg hkey, set, dif_neg hkey, keys, List.map_append, ← keys]
    rfl

/-- The values of the entries, in their order. -/
theorem entries_map (m : JsMap K V) (default : V) :
    m.entries.map Prod.snd = m.keys.map fun key => (m.get key).getD default := by
  rw [keys, List.map_map]
  refine List.map_congr_left fun e he => ?_
  have hget : m.get e.1 = some e.2 := get_eq_some_iff.2 he
  simp [hget]

end Ecommerce.JsMap
