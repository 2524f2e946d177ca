import Ecommerce.Model.Cache
import Ecommerce.Recency.Lru
import Mathlib.Data.List.Induction

/-!
# The memory cache as an LRU list

The insertion order of the `Map` is the order of the last uses, since every hit and every set deletes
the key first. So the `Map` is the list of the least recently used entries.
-/

namespace Ecommerce

open Recency

variable {V : Type}

/-- An entry of the `Map` in the list. -/
def slotOf (e : String × CachedValue V) : Slot String V Time := ⟨e.1, e.2.value, e.2.expiresAt⟩

/-- The entries of the `Map`, from the least to the most recently used one. -/
def CacheMap.slots (m : CacheMap V) : List (Slot String V Time) := m.entries.map slotOf

/-- A call as an operation on the list. -/
def CacheOp.op (now : Time) : CacheOp V → Op String V Time
  | .get key => .get key
  | .set key value ttlSeconds => .put ⟨key, value, now + ttlSeconds * 1000⟩
  | .del keyPrefix => .forget fun key => key.startsWith keyPrefix

/-- The history of some calls, the latest one first. -/
def historyOf (calls : List (Time × CacheOp V)) : List (Time × Op String V Time) :=
  (calls.map fun call => (call.1, call.2.op call.1)).reverse

/-! ## One call -/

section Calls

variable {m : CacheMap V} {key : String} {now : Time}

theorem JsMap.set_of_not_mem {K W : Type} [DecidableEq K] {m : JsMap K W} {key : K} (h : key ∉ m.keys)
    (value : W) : (m.set key value).entries = m.entries ++ [(key, value)] := by
  rw [JsMap.set, dif_neg h]

theorem JsMap.not_mem_delete {K W : Type} [DecidableEq K] (m : JsMap K W) (key : K) :
    key ∉ (m.delete key).keys := by
  simp [JsMap.keys, JsMap.delete]

theorem slots_delete (m : CacheMap V) (key : String) : CacheMap.slots (m.delete key) = without key m.slots := by
  simp only [CacheMap.slots, JsMap.delete, without, List.filter_map]
  rfl

/-- Setting a key that was deleted puts it last. -/
theorem slots_set_delete (m : CacheMap V) (key : String) (entry : CachedValue V) :
    CacheMap.slots ((m.delete key).set key entry) = without key m.slots ++ [slotOf (key, entry)] := by
  rw [CacheMap.slots, JsMap.set_of_not_mem (m.not_mem_delete key), List.map_append, ← slots_delete]
  rfl

theorem find?_slots (m : CacheMap V) (key : String) :
    m.slots.find? (·.key = key) = (m.get key).map fun entry => slotOf (key, entry) := by
  rw [CacheMap.slots, List.find?_map, JsMap.get]
  cases hfind : m.entries.find? (·.1 = key) with
  | none =>
    have hnone : m.entries.find? ((fun s : Slot String V Time => decide (s.key = key)) ∘ slotOf) = none := hfind
    rw [hnone]
    rfl
  | some e =>
    have hsome : m.entries.find? ((fun s : Slot String V Time => decide (s.key = key)) ∘ slotOf) = some e := hfind
    have hkey : e.1 = key := by simpa using List.find?_some hfind
    rw [hsome, ← hkey]
    rfl

theorem cacheGet_slots (m : CacheMap V) (now : Time) (key : String) :
    (m.cacheGet now key).1 = find now key m.slots ∧
      (m.cacheGet now key).2.slots = apply 0 now (.get key) m.slots := by
  rw [CacheMap.cacheGet, find, apply, find?_slots]
  cases hget : m.get key with
  | none => exact ⟨rfl, rfl⟩
  | some entry =>
    simp only [Option.map_some, Option.bind_some]
    by_cases hexpired : entry.expiresAt ≤ now
    · have hslot : (slotOf (key, entry)).expiresAt ≤ now := hexpired
      rw [if_pos hexpired, if_pos hslot, if_pos hslot]
      exact ⟨rfl, slots_delete m key⟩
    · have hslot : ¬ (slotOf (key, entry)).expiresAt ≤ now := hexpired
      rw [if_neg hexpired, if_neg hslot, if_neg hslot]
      exact ⟨rfl, slots_set_delete m key entry⟩

/-- The loop drops the first entries, as many as there are too many. -/
theorem evictOldest_slots (CACHE_MAX_ENTRIES : Nat) (rounds : Nat) (m : CacheMap V) (h : m.size ≤ rounds) :
    (m.evictOldest CACHE_MAX_ENTRIES rounds).slots = m.slots.drop (m.slots.length - CACHE_MAX_ENTRIES) := by
  have hlength : m.slots.length = m.size := List.length_map _
  induction rounds generalizing m with
  | zero =>
    have hnil : m.slots = [] := List.length_eq_zero_iff.1 (by omega)
    rw [CacheMap.evictOldest, hnil, List.drop_nil]
  | succ rounds ih =>
    rw [CacheMap.evictOldest]
    split
    · next hmore =>
      obtain ⟨⟨k, entry⟩, rest, hentries⟩ : ∃ e rest, m.entries = e :: rest := by
        cases hentries : m.entries with
        | nil => simp [JsMap.size, hentries] at hmore
        | cons e rest => exact ⟨e, rest, rfl⟩
      have hdelete : (m.delete k).entries = rest := by
        have hnodup := m.nodup
        rw [hentries, List.map_cons, List.nodup_cons] at hnodup
        show m.entries.filter (·.1 ≠ k) = rest
        rw [hentries, List.filter_cons_of_neg (by simp)]
        refine List.filter_eq_self.2 fun e he => ?_
        have hmem : e.1 ∈ rest.map Prod.fst := List.mem_map_of_mem he
        have hne : e.1 ≠ k := fun hk => hnodup.1 (by rw [hk] at hmem; exact hmem)
        simpa using hne
      have hhead : m.keys.head? = some k := by simp [JsMap.keys, hentries]
      have hrest : CacheMap.slots (m.delete k) = rest.map slotOf := congrArg (List.map slotOf) hdelete
      have hsize : (m.delete k).size = rest.length := congrArg List.length hdelete
      have hall : m.size = rest.length + 1 := congrArg List.length hentries
      rw [hhead]
      dsimp only
      rw [ih (m.delete k) (by omega) (List.length_map _), hrest, CacheMap.slots, hentries, List.map_cons,
        List.length_cons, List.length_map]
      have hexcess : rest.length + 1 - CACHE_MAX_ENTRIES = rest.length - CACHE_MAX_ENTRIES + 1 := by omega
      rw [hexcess, List.drop_succ_cons]
    · next hroom =>
      have hzero : m.slots.length - CACHE_MAX_ENTRIES = 0 := by omega
      rw [hzero, List.drop_zero]

theorem cacheDel_slots (m : CacheMap V) (keyPrefix : String) :
    (m.cacheDel keyPrefix).slots = m.slots.filter fun slot => !slot.key.startsWith keyPrefix := by
  have hloop : ∀ (keys : List String) (m : CacheMap V),
      CacheMap.slots (keys.foldl (fun m key => if key.startsWith keyPrefix then m.delete key else m) m) =
        m.slots.filter fun slot => !(slot.key.startsWith keyPrefix && decide (slot.key ∈ keys)) := by
    intro keys
    induction keys with
    | nil => exact fun m => (List.filter_eq_self.2 fun _ _ => by simp).symm
    | cons key rest ih =>
      intro m
      rw [List.foldl_cons, ih]
      split
      · next hmatch =>
        rw [slots_delete, without, List.filter_filter]
        refine List.filter_congr fun slot _ => ?_
        by_cases hkey : slot.key = key
        · simp [hkey, hmatch]
        · simp [hkey]
      · next hmatch =>
        refine List.filter_congr fun slot _ => ?_
        by_cases hkey : slot.key = key
        · simp [hkey, hmatch]
        · simp [hkey]
  rw [CacheMap.cacheDel, hloop]
  refine List.filter_congr fun slot hslot => ?_
  obtain ⟨e, he, rfl⟩ := List.mem_map.1 hslot
  have hmem : (slotOf e).key ∈ m.keys := List.mem_map_of_mem he
  simp [hmem]

/-- A call does to the list what its operation does. -/
theorem exec_slots (CACHE_MAX_ENTRIES : Nat) (now : Time) (call : CacheOp V) (m : CacheMap V) :
    (call.exec CACHE_MAX_ENTRIES now m).2.slots = apply CACHE_MAX_ENTRIES now (call.op now) m.slots := by
  cases call with
  | get key => exact (cacheGet_slots m now key).2
  | set key value ttlSeconds =>
    have hadded := slots_set_delete m key ⟨value, now + ttlSeconds * 1000⟩
    show CacheMap.slots (CacheMap.evictOldest _ _ _) = _
    rw [evictOldest_slots _ _ _ le_rfl, hadded]
    rfl
  | del keyPrefix => exact cacheDel_slots m keyPrefix

/-- What a call leaves in the cache was there, or is what it stores. -/
theorem mem_exec_slots {CACHE_MAX_ENTRIES : Nat} {call : CacheOp V} {slot : Slot String V Time}
    (h : slot ∈ (call.exec CACHE_MAX_ENTRIES now m).2.slots) :
    (slot ∈ m.slots ∧ ∀ keyPrefix, call = .del keyPrefix → slot.key.startsWith keyPrefix = false) ∨
      ∃ ttlSeconds, call = .set slot.key slot.value ttlSeconds := by
  rw [exec_slots] at h
  cases call with
  | get key =>
    refine .inl ⟨?_, by rintro _ ⟨⟩⟩
    rw [CacheOp.op, apply] at h
    split at h
    · exact h
    · next found hfound =>
      split at h
      · exact (mem_without.1 h).1
      · rcases List.mem_append.1 h with h | h
        · exact (mem_without.1 h).1
        · rw [List.mem_singleton.1 h]
          exact List.mem_of_find?_eq_some hfound
  | set key value ttlSeconds =>
    rcases List.mem_append.1 (List.mem_of_mem_drop h) with h | h
    · exact .inl ⟨(mem_without.1 h).1, by rintro _ ⟨⟩⟩
    · obtain rfl := List.mem_singleton.1 h
      exact .inr ⟨ttlSeconds, rfl⟩
  | del keyPrefix =>
    obtain ⟨hmem, hkept⟩ := List.mem_filter.1 h
    refine .inl ⟨hmem, ?_⟩
    rintro _ ⟨⟩
    simpa using hkept

/-- What a hit returns is in the cache, under its key. -/
theorem mem_of_hit {value : V} (h : (m.cacheGet now key).1 = some value) :
    ∃ slot ∈ m.slots, slot.key = key ∧ slot.value = value := by
  rw [(cacheGet_slots m now key).1, find] at h
  obtain ⟨slot, hslot, hvalue⟩ := Option.bind_eq_some_iff.1 h
  refine ⟨slot, List.mem_of_find?_eq_some hslot, by simpa using List.find?_some hslot, ?_⟩
  split at hvalue
  · cases hvalue
  · exact Option.some_inj.1 hvalue

end Calls

/-! ## Sequences of calls -/

theorem historyOf_concat (calls : List (Time × CacheOp V)) (call : Time × CacheOp V) :
    historyOf (calls ++ [call]) = (call.1, call.2.op call.1) :: historyOf calls := by
  simp [historyOf]

theorem cacheAfter_concat (CACHE_MAX_ENTRIES : Nat) (calls : List (Time × CacheOp V))
    (call : Time × CacheOp V) :
    cacheAfter CACHE_MAX_ENTRIES (calls ++ [call]) =
      (call.2.exec CACHE_MAX_ENTRIES call.1 (cacheAfter CACHE_MAX_ENTRIES calls)).2 := by
  rw [cacheAfter, List.foldl_append]
  rfl

/-- The `Map` refines the list. -/
theorem cacheAfter_slots (CACHE_MAX_ENTRIES : Nat) (calls : List (Time × CacheOp V)) :
    (cacheAfter CACHE_MAX_ENTRIES calls).slots = after CACHE_MAX_ENTRIES (historyOf calls) := by
  induction calls using List.reverseRecOn with
  | nil => rfl
  | append_singleton calls call ih =>
    rw [cacheAfter_concat, historyOf_concat, exec_slots, ih]
    rfl

theorem mem_keys_iff {m : CacheMap V} {key : String} : key ∈ m.keys ↔ ∃ slot ∈ m.slots, slot.key = key := by
  constructor
  · intro h
    obtain ⟨e, he, rfl⟩ := List.mem_map.1 h
    exact ⟨slotOf e, List.mem_map_of_mem he, rfl⟩
  · rintro ⟨slot, hslot, rfl⟩
    obtain ⟨e, he, rfl⟩ := List.mem_map.1 hslot
    exact List.mem_map_of_mem he

/-- What a set evicts was used before all that stays, and it is not what was set. -/
theorem evicted_by_set {CACHE_MAX_ENTRIES : Nat} (hmax : 1 ≤ CACHE_MAX_ENTRIES)
    (calls : List (Time × CacheOp V)) (now : Time) (key : String) (value : V) (ttlSeconds : ℤ) :
    key ∈ (cacheAfter CACHE_MAX_ENTRIES (calls ++ [(now, .set key value ttlSeconds)])).keys ∧
      ∀ k ∈ (cacheAfter CACHE_MAX_ENTRIES calls).keys,
        k ∉ (cacheAfter CACHE_MAX_ENTRIES (calls ++ [(now, .set key value ttlSeconds)])).keys →
          ∀ k' ∈ (cacheAfter CACHE_MAX_ENTRIES (calls ++ [(now, .set key value ttlSeconds)])).keys,
            used k (historyOf (calls ++ [(now, .set key value ttlSeconds)])) <
              used k' (historyOf (calls ++ [(now, .set key value ttlSeconds)])) := by
  have hslots := cacheAfter_slots CACHE_MAX_ENTRIES (calls ++ [(now, .set key value ttlSeconds)])
  rw [historyOf_concat] at hslots ⊢
  have hset : (⟨key, value, now + ttlSeconds * 1000⟩ : Slot String V Time) ∈
      (cacheAfter CACHE_MAX_ENTRIES (calls ++ [(now, .set key value ttlSeconds)])).slots := by
    rw [hslots]
    exact mem_apply_put hmax
  refine ⟨mem_keys_iff.2 ⟨_, hset, rfl⟩, fun k hk hgone k' hk' => ?_⟩
  obtain ⟨slot, hslot, rfl⟩ := mem_keys_iff.1 hk
  obtain ⟨slot', hslot', rfl⟩ := mem_keys_iff.1 hk'
  have hne : slot.key ≠ key := fun h => hgone (mem_keys_iff.2 ⟨_, hset, h.symm⟩)
  rw [cacheAfter_slots] at hslot
  rw [hslots] at hslot'
  have hadded : slot ∈ added ⟨key, value, now + ttlSeconds * 1000⟩
      (after CACHE_MAX_ENTRIES (historyOf calls)) :=
    List.mem_append_left _ (mem_without.2 ⟨hslot, hne⟩)
  rw [added_eq_dropped_append CACHE_MAX_ENTRIES] at hadded
  have hdropped := (List.mem_append.1 hadded).resolve_right fun hkept =>
    hgone (mem_keys_iff.2 ⟨slot, hslots ▸ hkept, rfl⟩)
  exact used_lt_of_dropped hdropped hslot'

/-- The memory cache is an LRU map with expiry: the `Map` is the list of entries from the least to the
most recently used one, which is bounded; a call of `get` returns what was last set, unless that is
evicted, deleted or expired; and a call of `set` keeps what it sets and evicts the entries that were
used the longest ago. -/
theorem memory_cache_lru {CACHE_MAX_ENTRIES : Nat} (hmax : 1 ≤ CACHE_MAX_ENTRIES)
    (calls : List (Time × CacheOp V)) :
    (cacheAfter CACHE_MAX_ENTRIES calls).slots = after CACHE_MAX_ENTRIES (historyOf calls) ∧
    (cacheAfter CACHE_MAX_ENTRIES calls).slots.Pairwise
      (fun a b => used a.key (historyOf calls) < used b.key (historyOf calls)) ∧
    (cacheAfter CACHE_MAX_ENTRIES calls).size ≤ CACHE_MAX_ENTRIES ∧
    (∀ now key value, (∀ call ∈ calls, call.1 ≤ now) →
      (((CacheOp.get key).exec CACHE_MAX_ENTRIES now (cacheAfter CACHE_MAX_ENTRIES calls)).1 = some value ↔
        ∃ slot, lastPut key (historyOf calls) = some slot ∧ slot.value = value ∧
          ¬ Lost CACHE_MAX_ENTRIES key (historyOf calls) ∧ now < slot.expiresAt)) ∧
    ∀ now key value ttlSeconds,
      key ∈ (cacheAfter CACHE_MAX_ENTRIES (calls ++ [(now, .set key value ttlSeconds)])).keys ∧
      ∀ k ∈ (cacheAfter CACHE_MAX_ENTRIES calls).keys,
        k ∉ (cacheAfter CACHE_MAX_ENTRIES (calls ++ [(now, .set key value ttlSeconds)])).keys →
          ∀ k' ∈ (cacheAfter CACHE_MAX_ENTRIES (calls ++ [(now, .set key value ttlSeconds)])).keys,
            used k (historyOf (calls ++ [(now, .set key value ttlSeconds)])) <
              used k' (historyOf (calls ++ [(now, .set key value ttlSeconds)])) := by
  have hslots := cacheAfter_slots CACHE_MAX_ENTRIES calls
  refine ⟨hslots, hslots ▸ after_pairwise _ _, ?_, fun now key value hclock => ?_, evicted_by_set hmax calls⟩
  · have hlength := after_length_le CACHE_MAX_ENTRIES (historyOf calls)
    rw [← hslots, CacheMap.slots, List.length_map] at hlength
    exact hlength
  · have hevents : ∀ event ∈ historyOf calls, event.1 ≤ now := by
      intro event hevent
      obtain ⟨call, hcall, rfl⟩ := List.mem_map.1 (List.mem_reverse.1 hevent)
      exact hclock call hcall
    show (CacheMap.cacheGet now key _).1 = some value ↔ _
    rw [(cacheGet_slots _ now key).1, hslots]
    exact find_after hmax hevents

/-- Three keys in a cache for two: the one that was read stays. -/
def readBetween : List (Time × CacheOp Nat) :=
  [(0, .set "a" 1 10), (1, .set "b" 2 10), (2, .get "a"), (3, .set "c" 3 10)]

theorem memory_cache_lru_readBetween :
    (cacheAfter 2 readBetween).keys = ["a", "c"] ∧ (cacheAfter 2 readBetween).size ≤ 2 ∧
      (((CacheOp.get "a").exec 2 4 (cacheAfter 2 readBetween)).1 = some 1 ↔
        ∃ slot, lastPut "a" (historyOf readBetween) = some slot ∧ slot.value = 1 ∧
          ¬ Lost 2 "a" (historyOf readBetween) ∧ 4 < slot.expiresAt) := by
  obtain ⟨-, -, hsize, hget, -⟩ := memory_cache_lru (by decide : 1 ≤ 2) readBetween
  exact ⟨by decide +kernel, hsize, hget 4 "a" 1 (by decide)⟩

end Ecommerce
