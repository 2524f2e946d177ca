import Ecommerce.Products.Lru

/-!
# The cache of product lists

Two calls of `list` share an entry of the cache only if they come from one tenant and agree in every
parameter that `list` reads. The tenant may be any text, also one with colons and braces in it: what
follows the tenant is the text of an object with the parameters of the key, and no such text ends in a
colon and another one.
-/

namespace Ecommerce

open Text

variable {Row : Type} {cfg : CacheConfig} {dates : DateText} {createdAt : Row → Time}
  {repository : ProductRepository Row} {tenant tenant' : String} {q q' : Query}

/-! ## Keys -/

theorem mem_keyParams {key : String} {value : QueryValue} :
    (key, value) ∈ keyParams q ↔ key ∈ LIST_QUERY_KEYS ∧ q key = some value := by
  simp only [keyParams, List.mem_filterMap, Option.map_eq_some_iff, Prod.mk.injEq]
  constructor
  · rintro ⟨k, hk, v, hv, rfl, rfl⟩
    exact ⟨hk, hv⟩
  · rintro ⟨hk, hv⟩
    exact ⟨key, hk, value, hv, rfl, rfl⟩

/-- The parameters of the key are those that are listed. -/
theorem eq_of_keyParams_eq (h : keyParams q = keyParams q') : ∀ key ∈ LIST_QUERY_KEYS, q key = q' key := by
  intro key hkey
  ext value
  constructor
  · intro hv
    exact (mem_keyParams.1 (h ▸ mem_keyParams.2 ⟨hkey, hv⟩)).2
  · intro hv
    exact (mem_keyParams.1 (h ▸ mem_keyParams.2 ⟨hkey, hv⟩)).2

theorem keys_begin_with_letters :
    ∀ key ∈ LIST_QUERY_KEYS, ∃ c cs, key.toList = c :: cs ∧ c.isAlpha := by
  intro key hkey
  have hletter : ∀ key ∈ LIST_QUERY_KEYS, key.toList.head?.any Char.isAlpha := by decide
  obtain ⟨c, hc, hletter⟩ := (Option.any_eq_true _ _).1 (hletter key hkey)
  obtain ⟨cs, hcs⟩ := List.head?_eq_some_iff.1 hc
  exact ⟨c, cs, hcs, hletter⟩

theorem keyParams_letters : ∀ f ∈ keyParams q, ∃ c cs, f.1.toList = c :: cs ∧ c.isAlpha :=
  fun _ hf => keys_begin_with_letters _ (mem_keyParams.1 hf).1

/-- A key determines the tenant, and the text of the parameters. -/
theorem cacheKey_inj (h : cacheKey tenant q = cacheKey tenant' q') :
    tenant = tenant' ∧ Json.stringify (.obj (keyParams q)) = Json.stringify (.obj (keyParams q')) := by
  have hchars : tenant.toList ++ ':' :: Json.stringify (.obj (keyParams q)) =
      tenant'.toList ++ ':' :: Json.stringify (.obj (keyParams q')) := by
    have := congrArg String.toList h
    simpa [cacheKey] using this
  obtain ⟨c, htenant, hrest⟩ | ⟨c, htenant, hrest⟩ := List.append_eq_append_iff.1 hchars
  · cases c with
    | nil => exact ⟨String.toList_inj.1 (by simpa using htenant.symm), by simpa using hrest⟩
    | cons x c =>
      obtain ⟨rfl, hsuffix⟩ := List.cons.inj hrest
      exact absurd hsuffix.symm (Json.obj_not_suffix keyParams_letters)
  · cases c with
    | nil => exact ⟨String.toList_inj.1 (by simpa using htenant), by simpa using hrest.symm⟩
    | cons x c =>
      obtain ⟨rfl, hsuffix⟩ := List.cons.inj hrest
      exact absurd hsuffix.symm (Json.obj_not_suffix keyParams_letters)

/-- `list` reads no parameter that is not part of the key. -/
theorem listUncached_congr (h : ∀ key ∈ LIST_QUERY_KEYS, q key = q' key) :
    listUncached dates createdAt repository tenant q = listUncached dates createdAt repository tenant q' := by
  have hpage := h "page" (by decide)
  have hlimit := h "limit" (by decide)
  have hcursor := h "cursor" (by decide)
  have hsortBy := h "sortBy" (by decide)
  have horder := h "order" (by decide)
  have hcategory := h "category" (by decide)
  have hmin := h "minPrice" (by decide)
  have hmax := h "maxPrice" (by decide)
  have hq := h "q" (by decide)
  simp only [listUncached, buildPagination, limitParam, productFilter, cursorFilter, hpage, hlimit, hcursor,
    hsortBy, horder, hcategory, hmin, hmax, hq]

/-! ## Runs -/

/-- A call of `list`, or an entry that leaves the cache. -/
inductive CacheEvent where
  | list (now storedAt : Time) (tenant : String) (query : Query)
  | evict (key : String)

/-- What the calls return, one after the other. -/
def listResponses (cfg : CacheConfig) (dates : DateText) (createdAt : Row → Time)
    (repository : ProductRepository Row) :
    CacheMap (ListResult Row) → List CacheEvent → List (ListResult Row)
  | _, [] => []
  | memoryCache, .list now storedAt tenant query :: events =>
    let (result, memoryCache) :=
      listProducts cfg dates createdAt repository now storedAt tenant query memoryCache
    result :: listResponses cfg dates createdAt repository memoryCache events
  | memoryCache, .evict key :: events =>
    listResponses cfg dates createdAt repository (memoryCache.delete key) events

/-- What they would return without the cache. -/
def uncachedResponses (dates : DateText) (createdAt : Row → Time) (repository : ProductRepository Row) :
    List CacheEvent → List (ListResult Row)
  | [] => []
  | .list _ _ tenant query :: events =>
    listUncached dates createdAt repository tenant query :: uncachedResponses dates createdAt repository events
  | .evict _ :: events => uncachedResponses dates createdAt repository events

/-- The queries of the calls. -/
def queriesOf (events : List CacheEvent) : List Query :=
  events.filterMap fun
    | .list _ _ _ query => some query
    | .evict _ => none

/-- Each entry holds what `list` returns for a call with its key. -/
def Faithful (dates : DateText) (createdAt : Row → Time) (repository : ProductRepository Row)
    (queries : List Query) (memoryCache : CacheMap (ListResult Row)) : Prop :=
  ∀ slot ∈ memoryCache.slots, ∃ tenant, ∃ q ∈ queries, slot.key = cacheKey tenant q ∧
    slot.value = listUncached dates createdAt repository tenant q

variable {queries : List Query} {memoryCache : CacheMap (ListResult Row)}

/-- A call of the cache leaves it faithful, unless it stores something. -/
theorem Faithful.exec (h : Faithful dates createdAt repository queries memoryCache) (CACHE_MAX_ENTRIES : Nat)
    (now : Time) (call : CacheOp (ListResult Row))
    (hset : ∀ key value ttlSeconds, call = .set key value ttlSeconds → ∃ tenant, ∃ q ∈ queries,
      key = cacheKey tenant q ∧ value = listUncached dates createdAt repository tenant q) :
    Faithful dates createdAt repository queries (call.exec CACHE_MAX_ENTRIES now memoryCache).2 := by
  intro slot hslot
  obtain ⟨hold, -⟩ | ⟨ttlSeconds, hcall⟩ := mem_exec_slots hslot
  · exact h slot hold
  · exact hset slot.key slot.value ttlSeconds hcall

theorem Faithful.delete (h : Faithful dates createdAt repository queries memoryCache) (key : String) :
    Faithful dates createdAt repository queries (memoryCache.delete key) := by
  intro slot hslot
  rw [slots_delete] at hslot
  exact h slot (Recency.mem_without.1 hslot).1

/-- Keys of the calls do not collide. -/
def KeysDiffer (queries : List Query) : Prop :=
  ∀ q ∈ queries, ∀ q' ∈ queries, Json.stringify (.obj (keyParams q)) = Json.stringify (.obj (keyParams q')) →
    keyParams q = keyParams q'

/-- A call returns what it would return without the cache, and what it stores is faithful. -/
theorem listProducts_faithful (hkeys : KeysDiffer queries) (hq : q ∈ queries) (now storedAt : Time)
    (h : Faithful dates createdAt repository queries memoryCache) :
    (listProducts cfg dates createdAt repository now storedAt tenant q memoryCache).1 =
        listUncached dates createdAt repository tenant q ∧
      Faithful dates createdAt repository queries
        (listProducts cfg dates createdAt repository now storedAt tenant q memoryCache).2 := by
  have hread : Faithful dates createdAt repository queries
      (memoryCache.cacheGet now (cacheKey tenant q)).2 :=
    h.exec cfg.CACHE_MAX_ENTRIES now (.get (cacheKey tenant q)) (by rintro _ _ _ ⟨⟩)
  unfold listProducts
  dsimp only
  split
  · next cached rest hget =>
    rw [hget] at hread
    obtain ⟨slot, hslot, hkey, rfl⟩ := mem_of_hit (congrArg Prod.fst hget)
    obtain ⟨tenant', q', hq', hkey', hvalue⟩ := h slot hslot
    obtain ⟨rfl, hjson⟩ := cacheKey_inj (hkey.symm.trans hkey')
    refine ⟨?_, hread⟩
    rw [hvalue]
    exact (listUncached_congr (eq_of_keyParams_eq (hkeys q hq q' hq' hjson))).symm
  · next rest hget =>
    rw [hget] at hread
    refine ⟨rfl, hread.exec cfg.CACHE_MAX_ENTRIES storedAt (.set (cacheKey tenant q)
      (listUncached dates createdAt repository tenant q) cfg.CACHE_TTL_SECONDS) ?_⟩
    rintro _ _ _ ⟨⟩
    exact ⟨tenant, q, hq, rfl, rfl⟩

theorem listResponses_eq (hkeys : KeysDiffer queries) {events : List CacheEvent}
    (hevents : queriesOf events ⊆ queries) (h : Faithful dates createdAt repository queries memoryCache) :
    listResponses cfg dates createdAt repository memoryCache events =
      uncachedResponses dates createdAt repository events := by
  induction events generalizing memoryCache with
  | nil => rfl
  | cons event events ih =>
    cases event with
    | list now storedAt tenant q =>
      obtain ⟨hq, hrest⟩ := List.cons_subset.1 hevents
      obtain ⟨hresult, hfaithful⟩ := listProducts_faithful hkeys hq now storedAt h
      exact congrArg₂ _ hresult (ih hrest hfaithful)
    | evict key => exact ih hevents (h.delete key)

/-- However calls of `list` come and entries expire or are evicted, while the catalogue stays as it is
every call returns what it would return without the cache: calls with one key come from one tenant and
agree in all parameters of the key, and `list` reads no others. -/
theorem list_cache_invisible {events : List CacheEvent} (hkeys : KeysDiffer (queriesOf events)) :
    listResponses cfg dates createdAt repository JsMap.empty events =
        uncachedResponses dates createdAt repository events ∧
      (∀ tenant q tenant' q', KeysDiffer [q, q'] → cacheKey tenant q = cacheKey tenant' q' →
        tenant = tenant' ∧ ∀ key ∈ LIST_QUERY_KEYS, q key = q' key) ∧
      ∀ tenant q q', (∀ key ∈ LIST_QUERY_KEYS, q key = q' key) →
        listUncached dates createdAt repository tenant q = listUncached dates createdAt repository tenant q' := by
  refine ⟨listResponses_eq hkeys (List.Subset.refl _) nofun, fun tenant q tenant' q' hdiffer hkey => ?_,
    fun _ _ _ h => listUncached_congr h⟩
  obtain ⟨htenant, hjson⟩ := cacheKey_inj hkey
  exact ⟨htenant, eq_of_keyParams_eq (hdiffer q (by simp) q' (by simp) hjson)⟩

/-- `?category=tea` -/
def teaQuery : Query := fun key => if key = "category" then some (.str "tea") else none

/-- A catalogue with one product for each tenant. -/
def tenantRepository : ProductRepository String where
  findList filter _ _ _ := [filter.tenant]
  count _ := 1

def exampleDates : DateText := ⟨fun _ => none, fun _ => ""⟩

/-- The second call is served from the cache. The tenant of the third looks like the key of the first. -/
def teaCalls : List CacheEvent :=
  [.list 0 0 "acme" teaQuery, .list 5 5 "acme" teaQuery, .list 6 6 "acme:\x7b\"category\":\"tea\"\x7d" teaQuery]

theorem list_cache_invisible_tea :
    (listResponses ⟨500, 60⟩ exampleDates (fun _ : String => 0) tenantRepository JsMap.empty teaCalls).map (·.data) =
      [["acme"], ["acme"], ["acme:\x7b\"category\":\"tea\"\x7d"]] := by
  have hkeys : KeysDiffer (queriesOf teaCalls) := by
    have hone : ∀ q ∈ queriesOf teaCalls, q = teaQuery := by simp [queriesOf, teaCalls]
    intro q hq q' hq' _
    rw [hone q hq, hone q' hq']
  rw [(list_cache_invisible hkeys).1]
  rfl

end Ecommerce
