import Ecommerce.Model.Maps
import Ecommerce.Model.Metrics
import Ecommerce.Series.Bounded

/-!
# Metric series

The tables of request metrics hold one entry for each series. The three of them stay in step, and they have
counted every request as long as no counter has reached `2 ^ 53`. The overflow series is created when the table
is full already, so that there is one series more than the ceiling, unless its label was among the first.
-/

namespace Ecommerce

open Numbers

namespace Metrics

variable {metrics : Metrics} {reqs : List FinishedRequest} {req : FinishedRequest} {keys : List String}
variable {table : JsMap String Number} {key : String}

/-- The series of what finds no room. -/
def overflowKey : String := "OTHER overflow 0"

def labels (reqs : List FinishedRequest) : List String := reqs.map keyFor

/-- The series under which each of the requests is counted. -/
def counted (reqs : List FinishedRequest) : List String := Series.counted MAX_SERIES overflowKey (labels reqs)

/-- The series of a request among others. -/
def seriesOf (reqs : List FinishedRequest) (req : FinishedRequest) : String :=
  Series.seriesAmong MAX_SERIES overflowKey (labels reqs) (keyFor req)

def failed (req : FinishedRequest) : Bool := (Number.ofRat 500).le req.statusCode

/-- The series under which each of the failures is counted. -/
def countedErrors (reqs : List FinishedRequest) : List String := (reqs.filter failed).map (seriesOf reqs)

theorem labels_concat (reqs : List FinishedRequest) (req : FinishedRequest) :
    labels (reqs ++ [req]) = labels reqs ++ [keyFor req] := by simp [labels]

theorem counted_eq (reqs : List FinishedRequest) : counted reqs = reqs.map (seriesOf reqs) := by
  rw [counted, Series.counted, labels, List.map_map]
  rfl

/-! ## Keys -/

/-- No label is the name of an inherited property: it has a blank. -/
theorem keyFor_notInherited (req : FinishedRequest) : OBJECT_PROTOTYPE.contains (keyFor req) = false := by
  have hblank : ' ' ∈ (keyFor req).toList := by simp [keyFor]
  have hnames : (OBJECT_PROTOTYPE.all fun name => !name.toList.contains ' ') = true := by decide +kernel
  rw [List.contains_eq_mem, decide_eq_false_iff_not]
  intro hmem
  simpa [hblank] using List.all_eq_true.1 hnames _ hmem

theorem boundedKey_eq (metrics : Metrics) (req : FinishedRequest) :
    metrics.boundedKey (keyFor req) =
      Series.seriesFor MAX_SERIES overflowKey metrics.requests.keys (keyFor req) := by
  have hkeys : metrics.requests.size = metrics.requests.keys.length := by simp [JsMap.size, JsMap.keys]
  rw [boundedKey, Series.seriesFor, JsMap.has, keyFor_notInherited, Bool.or_false, hkeys]
  simp [overflowKey]

/-! ## Counters -/

/-- The table counts how often each of the keys occurs. -/
def Tallies (table : JsMap String Number) (keys : List String) : Prop :=
  ∀ key, table.get key = if key ∈ keys then some (counter (keys.count key)) else none

theorem Tallies.orElse (h : Tallies table keys) (key : String) :
    Doubles.orElse (table.get key) (.ofRat 0) = counter (keys.count key) := by
  rw [h key]
  split
  · next hmem =>
    have htruthy := counter_truthy (List.count_pos_iff.2 hmem).ne'
    simp [Doubles.orElse, Option.filter, htruthy]
  · next hmem =>
    rw [List.count_eq_zero_of_not_mem hmem, counter_zero]
    rfl

theorem Tallies.increment (h : Tallies table keys) (key : String) :
    Tallies (Metrics.increment table key) (keys ++ [key]) := by
  intro k
  rw [Metrics.increment, JsMap.get_set, h.orElse, counter_add_one]
  by_cases hk : k = key
  · subst hk
    simp
  · rw [if_neg hk, h k]
    simp [hk, Ne.symm hk]

/-- What the tables are after some requests. -/
structure Tables (reqs : List FinishedRequest) (metrics : Metrics) : Prop where
  keys : metrics.requests.keys = Series.table MAX_SERIES overflowKey (labels reqs)
  requests : Tallies metrics.requests (counted reqs)
  latency : ∀ key, (metrics.latency.get key).map LatencyStats.count = metrics.requests.get key
  errors : Tallies metrics.errors (countedErrors reqs)

theorem seriesOf_concat {other : FinishedRequest} (hmem : other ∈ reqs) :
    seriesOf (reqs ++ [req]) other = seriesOf reqs other := by
  rw [seriesOf, labels_concat]
  exact Series.seriesAmong_concat (List.mem_map_of_mem hmem)

/-- A request is counted under the key that it finds. -/
theorem Tables.boundedKey (h : Tables reqs metrics) (req : FinishedRequest) :
    metrics.boundedKey (keyFor req) = seriesOf (reqs ++ [req]) req := by
  rw [boundedKey_eq, h.keys, Series.seriesFor_table, seriesOf, labels_concat]

theorem counted_concat (reqs : List FinishedRequest) (req : FinishedRequest) :
    counted (reqs ++ [req]) = counted reqs ++ [seriesOf (reqs ++ [req]) req] := by
  rw [counted_eq, counted_eq, List.map_append]
  congr 1
  exact List.map_congr_left fun other hmem => seriesOf_concat hmem

theorem countedErrors_concat (reqs : List FinishedRequest) (req : FinishedRequest) :
    countedErrors (reqs ++ [req]) =
      if failed req then countedErrors reqs ++ [seriesOf (reqs ++ [req]) req] else countedErrors reqs := by
  have hbefore : (reqs.filter failed).map (seriesOf (reqs ++ [req])) = countedErrors reqs :=
    List.map_congr_left fun other hmem => seriesOf_concat (List.mem_filter.1 hmem).1
  rw [countedErrors, List.filter_append, List.map_append, hbefore]
  cases hfailed : failed req <;> simp [hfailed]

/-- A count of latencies is the count of requests. -/
theorem Tables.latency_getD (h : Tables reqs metrics) (key : String) :
    ((metrics.latency.get key).getD ⟨.ofRat 0, .ofRat 0, .ofRat 0⟩).count =
      Doubles.orElse (metrics.requests.get key) (.ofRat 0) := by
  rw [h.requests.orElse key]
  have hget := h.requests key
  rw [← h.latency key] at hget
  cases hstats : metrics.latency.get key with
  | none =>
    rw [hstats] at hget
    split at hget
    · cases hget
    · next hmem => rw [List.count_eq_zero_of_not_mem hmem, counter_zero, Option.getD_none]
  | some stats =>
    rw [hstats] at hget
    split at hget
    · exact Option.some.inj hget
    · cases hget

/-- The tables stay in step over a request. -/
theorem Tables.recordRequest (h : Tables reqs metrics) (req : FinishedRequest) :
    Tables (reqs ++ [req]) (metrics.recordRequest req) := by
  have hkey := h.boundedKey req
  refine ⟨?_, ?_, fun key => ?_, ?_⟩ <;> simp only [Metrics.recordRequest]
  · rw [increment, JsMap.keys_set, boundedKey_eq, h.keys, labels_concat, Series.table_concat]
    rfl
  · rw [hkey, counted_concat]
    exact h.requests.increment _
  · rw [increment, JsMap.get_set, JsMap.get_set, ← h.latency_getD]
    split
    · rfl
    · exact h.latency key
  · rw [hkey, countedErrors_concat, failed]
    split
    · exact h.errors.increment _
    · exact h.errors

theorem tables_recorded (reqs : List FinishedRequest) : Tables reqs (recorded reqs) := by
  induction reqs using List.reverseRecOn with
  | nil =>
    refine ⟨rfl, fun key => ?_, fun key => ?_, fun key => ?_⟩ <;>
      simp [recorded, empty, JsMap.get, JsMap.empty, counted, Series.counted, labels, countedErrors]
  | append_singleton reqs req ih =>
    have hlast : recorded (reqs ++ [req]) = (recorded reqs).recordRequest req := by simp [recorded]
    rw [hlast]
    exact ih.recordRequest req

/-! ## What the tables say -/

/-- There are no more series than the ceiling, every request is counted, and the tables agree. -/
structure Conserves (reqs : List FinishedRequest) (metrics : Metrics) : Prop where
  bounded : metrics.requests.keys.length ≤ MAX_SERIES
  conserved : ∃ values : List ℚ, metrics.requests.entries.map (fun e => e.2.value?) = values.map some ∧
    values.sum = reqs.length
  latency : ∀ key, (metrics.latency.get key).map LatencyStats.count = metrics.requests.get key
  errors : ∀ key errors, metrics.errors.get key = some errors →
    ∃ requests, metrics.requests.get key = some requests ∧ errors.le requests = true

/-- Every failure is counted among the requests of its series. -/
theorem Tables.errors_le (h : Tables reqs metrics) {errors : Number} (hget : metrics.errors.get key = some errors) :
    ∃ requests, metrics.requests.get key = some requests ∧ errors.le requests = true := by
  have hsublist : (countedErrors reqs).Sublist (counted reqs) := by
    rw [counted_eq]
    exact List.filter_sublist.map _
  rw [h.errors key] at hget
  split at hget
  · next hmem =>
    obtain rfl := Option.some.inj hget
    exact ⟨_, by rw [h.requests key, if_pos (hsublist.subset hmem)], counter_le (hsublist.count_le key)⟩
  · cases hget

/-- What the counters of requests read, in their order. -/
def readings (reqs : List FinishedRequest) : List ℕ :=
  (Series.firsts (counted reqs)).map fun key => min ((counted reqs).count key) (2 ^ 53)

theorem Tables.values (h : Tables reqs metrics) : metrics.requests.entries.map (fun e => e.2.value?) =
    ((readings reqs).map Nat.cast).map some := by
  have hkeys : metrics.requests.keys = Series.firsts (counted reqs) := h.keys.trans (Series.table_eq_firsts _)
  have hentries := congrArg (List.map Number.value?) (metrics.requests.entries_map .nan)
  rw [List.map_map, List.map_map, hkeys] at hentries
  refine hentries.trans ?_
  rw [readings, List.map_map, List.map_map]
  refine List.map_congr_left fun key hmem => ?_
  have hget := h.requests key
  rw [if_pos (Series.mem_firsts.1 hmem)] at hget
  simp only [Function.comp_apply, hget, Option.getD_some, counter_value?]

theorem Tables.conserved_iff (h : Tables reqs metrics) :
    (∃ values : List ℚ, metrics.requests.entries.map (fun e => e.2.value?) = values.map some ∧
      values.sum = reqs.length) ↔ ∀ key, (counted reqs).count key ≤ 2 ^ 53 := by
  have hlength : (counted reqs).length = reqs.length := by rw [counted_eq, List.length_map]
  have hcast : ((readings reqs).map Nat.cast : List ℚ).sum = ((readings reqs).sum : ℕ) :=
    (Nat.cast_list_sum _).symm
  rw [← Series.sum_min_count_firsts_iff, hlength, h.values]
  constructor
  · rintro ⟨values, hvalues, hsum⟩
    obtain rfl := List.map_injective_iff.2 (Option.some_injective ℚ) hvalues
    exact Nat.cast_injective (hcast.symm.trans hsum)
  · intro hsum
    exact ⟨_, rfl, hcast.trans (congrArg Nat.cast hsum)⟩

/-- The series keep to the ceiling just if the overflow series is not needed or one of the first, and every
request is counted just if no series has more than `2 ^ 53`. -/
theorem recorded_conserves_iff (reqs : List FinishedRequest) :
    Conserves reqs (recorded reqs) ↔
      Series.Fits MAX_SERIES overflowKey (labels reqs) ∧ ∀ key, (counted reqs).count key ≤ 2 ^ 53 := by
  have htables := tables_recorded reqs
  have hbounded : (recorded reqs).requests.keys.length ≤ MAX_SERIES ↔
      Series.Fits MAX_SERIES overflowKey (labels reqs) := by
    rw [htables.keys]
    exact Series.length_table_le_iff (labels reqs)
  rw [← hbounded, ← htables.conserved_iff]
  constructor
  · exact fun h => ⟨h.bounded, h.conserved⟩
  · rintro ⟨hbound, hconserved⟩
    exact ⟨hbound, hconserved, htables.latency, fun key errors hget => htables.errors_le hget⟩

/-- A request for a route of its own, told from the others by the length of its path. -/
def routeRequest (n : ℕ) : FinishedRequest :=
  ⟨"GET", some (String.ofList (List.replicate n 'a')), .ofRat 200, .ofRat 1⟩

theorem keyFor_routeRequest (n : ℕ) : keyFor (routeRequest n) =
    "GET" ++ " " ++ String.ofList (List.replicate n 'a') ++ " " ++ toString (statusLabel (.ofRat 200)) := rfl

theorem keyFor_routeRequest_injective : Function.Injective fun n => keyFor (routeRequest n) := by
  intro n m h
  have hlength := congrArg String.length h
  simpa [keyFor_routeRequest] using hlength

theorem overflowKey_notMem (ns : List ℕ) : overflowKey ∉ labels (ns.map routeRequest) := by
  intro hmem
  rw [labels, List.map_map] at hmem
  obtain ⟨n, -, heq⟩ := List.mem_map.1 hmem
  have hhead := congrArg (fun key : String => key.toList.head?) heq
  simp [keyFor_routeRequest, overflowKey] at hhead

/-- One request for each of 2001 routes leaves 2001 series. -/
theorem recorded_conserves_manyRoutes :
    ¬ Conserves ((List.range 2001).map routeRequest) (recorded ((List.range 2001).map routeRequest)) := by
  intro h
  have hbound := h.bounded
  rw [(tables_recorded _).keys] at hbound
  have hlabels : (labels ((List.range 2001).map routeRequest)).Nodup := by
    rw [labels, List.map_map]
    exact List.nodup_range.map keyFor_routeRequest_injective
  obtain hle | hearly := (Series.length_table_le_iff _).1 hbound
  · rw [Series.firsts_of_nodup hlabels] at hle
    simp [labels, MAX_SERIES] at hle
  · exact overflowKey_notMem _ (Series.mem_firsts.1 (List.mem_of_mem_take hearly))

end Metrics

end Ecommerce
