import Ecommerce.Model.Products

/-!
# The memory cache

`utils/cache.ts` over a JavaScript `Map`, which lists its keys in the order in which they were first
set, and the lists that `ProductService.list` keeps there.
-/

namespace Ecommerce

/-! ## Map -/

/-- A `Map`: its entries in insertion order. -/
structure JsMap (K V : Type) where
  entries : List (K × V)
  nodup : (entries.map Prod.fst).Nodup

namespace JsMap

variable {K V : Type} [DecidableEq K]

def empty : JsMap K V := ⟨[], List.nodup_nil⟩

def size (m : JsMap K V) : Nat := m.entries.length

def keys (m : JsMap K V) : List K := m.entries.map Prod.fst

def get (m : JsMap K V) (key : K) : Option V := (m.entries.find? (·.1 = key)).map Prod.snd

def delete (m : JsMap K V) (key : K) : JsMap K V where
  entries := m.entries.filter (·.1 ≠ key)
  nodup := m.nodup.sublist (List.filter_sublist.map _)

/-- A key that is there keeps its place. -/
def set (m : JsMap K V) (key : K) (value : V) : JsMap K V :=
  if h : key ∈ m.keys then
    { entries := m.entries.map fun e => if e.1 = key then (key, value) else e
      nodup := by
        have hkeys : (m.entries.map fun e => if e.1 = key then (key, value) else e).map Prod.fst =
            m.entries.map Prod.fst := by
          rw [List.map_map]
          refine List.map_congr_left fun e _ => ?_
          by_cases he : e.1 = key <;> simp [he]
        rw [hkeys]
        exact m.nodup }
  else
    { entries := m.entries ++ [(key, value)]
      nodup := by
        rw [List.map_append, List.nodup_append]
        refine ⟨m.nodup, by simp, ?_⟩
        rintro k hk k' hk' rfl
        obtain rfl := List.mem_singleton.1 hk'
        exact h hk }

end JsMap

/-! ## cache -/

/-- An entry of `memoryCache`. -/
structure CachedValue (V : Type) where
  value : V
  expiresAt : Time

/-- `memoryCache`. -/
abbrev CacheMap (V : Type) := JsMap String (CachedValue V)

namespace CacheMap

variable {V : Type}

/-- `cache.get` -/
def cacheGet (now : Time) (key : String) (memoryCache : CacheMap V) : Option V × CacheMap V :=
  match memoryCache.get key with
  | none => (none, memoryCache)
  | some entry =>
    let memoryCache := memoryCache.delete key
    if entry.expiresAt ≤ now then (none, memoryCache)
    else (some entry.value, memoryCache.set key entry)

/-- The loop of `cache.set`, with as many rounds as there are entries at most. -/
def evictOldest (CACHE_MAX_ENTRIES : Nat) : Nat → CacheMap V → CacheMap V
  | 0, memoryCache => memoryCache
  | rounds + 1, memoryCache =>
    if CACHE_MAX_ENTRIES < memoryCache.size then
      match memoryCache.keys.head? with
      | none => memoryCache
      | some oldest => evictOldest CACHE_MAX_ENTRIES rounds (memoryCache.delete oldest)
    else memoryCache

/-- `cache.set` -/
def cacheSet (CACHE_MAX_ENTRIES : Nat) (now : Time) (key : String) (value : V) (ttlSeconds : ℤ)
    (memoryCache : CacheMap V) : CacheMap V :=
  let memoryCache := (memoryCache.delete key).set key ⟨value, now + ttlSeconds * 1000⟩
  evictOldest CACHE_MAX_ENTRIES memoryCache.size memoryCache

/-- `cache.del`. Deleting the key that the iteration is at does not disturb it. -/
def cacheDel (keyPrefix : String) (memoryCache : CacheMap V) : CacheMap V :=
  memoryCache.keys.foldl (fun m key => if key.startsWith keyPrefix then m.delete key else m) memoryCache

end CacheMap

/-- A call of the cache. -/
inductive CacheOp (V : Type) where
  | get (key : String)
  | set (key : String) (value : V) (ttlSeconds : ℤ)
  | del (keyPrefix : String)
  deriving DecidableEq

/-- What a call at some time returns and leaves. -/
def CacheOp.exec {V : Type} (CACHE_MAX_ENTRIES : Nat) (now : Time) :
    CacheOp V → CacheMap V → Option V × CacheMap V
  | .get key, memoryCache => memoryCache.cacheGet now key
  | .set key value ttlSeconds, memoryCache =>
    (none, memoryCache.cacheSet CACHE_MAX_ENTRIES now key value ttlSeconds)
  | .del keyPrefix, memoryCache => (none, memoryCache.cacheDel keyPrefix)

/-- The cache after calls at their times, one after the other. -/
def cacheAfter {V : Type} (CACHE_MAX_ENTRIES : Nat) (calls : List (Time × CacheOp V)) : CacheMap V :=
  calls.foldl (fun m call => (call.2.exec CACHE_MAX_ENTRIES call.1 m).2) JsMap.empty

/-! ## Lists -/

/-- `ProductService.list`, reading the cache at one time and storing the result at a later one. -/
def listProducts {Row : Type} (cfg : CacheConfig) (dates : DateText) (createdAt : Row → Time)
    (repository : ProductRepository Row) (now storedAt : Time) (tenant : String) (query : Query)
    (memoryCache : CacheMap (ListResult Row)) : ListResult Row × CacheMap (ListResult Row) :=
  let key := cacheKey tenant query
  match memoryCache.cacheGet now key with
  | (some cached, memoryCache) => (cached, memoryCache)
  | (none, memoryCache) =>
    let result := listUncached dates createdAt repository tenant query
    (result, memoryCache.cacheSet cfg.CACHE_MAX_ENTRIES storedAt key result cfg.CACHE_TTL_SECONDS)

end Ecommerce
