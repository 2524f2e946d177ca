import Ecommerce.Model.Cache
import Ecommerce.Model.Pagination

/-!
# Request metrics

`recordRequest` of `observability/metrics.ts`, with its counts in the language's own numbers.
-/

namespace Ecommerce

open Numbers (Number)

/-! ## Objects as tables -/

/-- The properties that every object literal inherits. -/
def OBJECT_PROTOTYPE : List String :=
  ["constructor", "__defineGetter__", "__defineSetter__", "hasOwnProperty", "__lookupGetter__",
    "__lookupSetter__", "isPrototypeOf", "propertyIsEnumerable", "toString", "valueOf", "__proto__",
    "toLocaleString"]

/-- `key in object`, which finds inherited properties as well. -/
def JsMap.has {V : Type} (object : JsMap String V) (key : String) : Bool :=
  object.keys.contains key || OBJECT_PROTOTYPE.contains key

/-! ## Labels -/

def KNOWN_METHODS : List String := ["GET", "HEAD", "POST", "PUT", "PATCH", "DELETE", "OPTIONS"]

/-- Hard ceiling on distinct series, in case a future route template is itself unbounded. -/
def MAX_SERIES : Nat := 2000

/-- A request that has been answered. -/
structure FinishedRequest where
  method : String
  /-- `req.route?.path`, if it is a string -/
  path : Option String
  statusCode : Number
  durationMs : Number

/-- `status` of `keyFor` -/
def statusLabel : Number → Nat
  | .finite q _ => if q.isInt ∧ 100 ≤ q ∧ q ≤ 599 then q.num.toNat else 0
  | _ => 0

def keyFor (req : FinishedRequest) : String :=
  let template := req.path.getD "unmatched"
  let method := if KNOWN_METHODS.contains req.method then req.method else "OTHER"
  let status := statusLabel req.statusCode
  method ++ " " ++ template ++ " " ++ toString status

/-! ## Recording -/

structure LatencyStats where
  count : Number
  totalMs : Number
  maxMs : Number

/-- The tables of `metrics` that `recordRequest` writes. -/
structure Metrics where
  requests : JsMap String Number
  errors : JsMap String Number
  latency : JsMap String LatencyStats

namespace Metrics

/-- The tables when the process starts. -/
def empty : Metrics := ⟨JsMap.empty, JsMap.empty, JsMap.empty⟩

def boundedKey (metrics : Metrics) (key : String) : String :=
  if metrics.requests.has key ∨ metrics.requests.size < MAX_SERIES then key else "OTHER overflow 0"

/-- `table[key] = (table[key] || 0) + 1` -/
def increment (table : JsMap String Number) (key : String) : JsMap String Number :=
  table.set key ((Doubles.orElse (table.get key) (.ofRat 0)).add (.ofRat 1))

def recordRequest (metrics : Metrics) (req : FinishedRequest) : Metrics :=
  let key := metrics.boundedKey (keyFor req)
  let stats := (metrics.latency.get key).getD ⟨.ofRat 0, .ofRat 0, .ofRat 0⟩
  { requests := increment metrics.requests key
    latency := metrics.latency.set key {
      count := stats.count.add (.ofRat 1)
      totalMs := stats.totalMs.add req.durationMs
      maxMs := stats.maxMs.max req.durationMs }
    errors := if (Number.ofRat 500).le req.statusCode then increment metrics.errors key else metrics.errors }

/-- The tables after requests, one after the other. -/
def recorded (reqs : List FinishedRequest) : Metrics := reqs.foldl recordRequest empty

end Metrics

end Ecommerce
