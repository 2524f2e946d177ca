import Ecommerce.Model.Requests

/-!
# What reaches a controller

An object is rewritten in place, whatever it holds. An array is not, so the strings that are elements of
the body itself stay as they were sent. A form in several parts is read after the sanitisers have run.
-/

namespace Ecommerce

/-- One value occurs in another, at any depth. -/
inductive JsValue.Within (x : JsValue) : JsValue → Prop where
  | here : Within x x
  | element {elements : List JsValue} {value : JsValue} (hmem : value ∈ elements) (h : Within x value) :
    Within x (.array elements)
  | field {fields : List (String × JsValue)} {key : String} {value : JsValue} (hmem : (key, value) ∈ fields)
    (h : Within x value) : Within x (.object fields)

/-- A string is an element of an array, or of an array in it, with no object in between. -/
inductive JsValue.Listed (text : String) : JsValue → Prop where
  | here : Listed text (.string text)
  | element {elements : List JsValue} {value : JsValue} (hmem : value ∈ elements) (h : Listed text value) :
    Listed text (.array elements)

open JsValue

def CleanText (text : String) : Prop := ∀ c ∈ text.toList, CONTROL_CHARS c = false

def SafeKey (key : String) : Prop := key ∉ FORBIDDEN_KEYS ∧ key.startsWith "$" = false ∧ '.' ∉ key.toList

/-- No string at any depth has a control character, and no object at any depth an unsafe key. -/
structure Sanitised (v : JsValue) : Prop where
  texts : ∀ text, Within (.string text) v → CleanText text
  keys : ∀ fields, Within (.object fields) v → ∀ f ∈ fields, SafeKey f.1

theorem withoutControlChars_clean (text : String) : CleanText (withoutControlChars text) := by
  intro c hc
  rw [withoutControlChars, String.toList_ofList] at hc
  simpa using (List.mem_filter.1 hc).2

/-! ## Rewritten values -/

theorem within_sanitizeValue_string {text : String} {v : JsValue}
    (h : Within (.string text) (sanitizeValue v)) : CleanText text := by
  generalize hw : sanitizeValue v = w at h
  induction h generalizing v with
  | here =>
    cases v with
    | string t =>
      cases hw
      exact withoutControlChars_clean t
    | _ => cases hw
  | element hmem h ih =>
    cases v with
    | array elements =>
      cases hw
      rw [sanitizeElements_eq] at hmem
      obtain ⟨u, -, hu⟩ := List.mem_map.1 hmem
      exact ih hu
    | _ => cases hw
  | field hmem h ih =>
    cases v with
    | object fields =>
      cases hw
      obtain ⟨-, u, -, hu⟩ := mem_sanitizeFields.1 hmem
      exact ih hu.symm
    | _ => cases hw

theorem within_sanitizeValue_object {fields : List (String × JsValue)} {v : JsValue}
    (h : Within (.object fields) (sanitizeValue v)) : ∀ f ∈ fields, f.1 ∉ FORBIDDEN_KEYS := by
  generalize hw : sanitizeValue v = w at h
  induction h generalizing v with
  | here =>
    cases v with
    | object fs =>
      cases hw
      exact fun f hf => (mem_sanitizeFields.1 hf).1
    | _ => cases hw
  | element hmem h ih =>
    cases v with
    | array elements =>
      cases hw
      rw [sanitizeElements_eq] at hmem
      obtain ⟨u, -, hu⟩ := List.mem_map.1 hmem
      exact ih hu
    | _ => cases hw
  | field hmem h ih =>
    cases v with
    | object fs =>
      cases hw
      obtain ⟨-, u, -, hu⟩ := mem_sanitizeFields.1 hmem
      exact ih hu.symm
    | _ => cases hw

/-- Of the strings in what is left of a value, only those listed in it can be as they were sent. -/
theorem within_sanitizedInPlace_string {text : String} {v : JsValue}
    (h : Within (.string text) (sanitizedInPlace v)) : Listed text v ∨ CleanText text := by
  generalize hw : sanitizedInPlace v = w at h
  induction h generalizing v with
  | here =>
    cases v with
    | string t =>
      cases hw
      exact .inl .here
    | _ => cases hw
  | element hmem h ih =>
    cases v with
    | array elements =>
      cases hw
      rw [elementsInPlace_eq] at hmem
      obtain ⟨u, hu, hvalue⟩ := List.mem_map.1 hmem
      rcases ih hvalue with hlisted | hclean
      · exact .inl (.element hu hlisted)
      · exact .inr hclean
    | _ => cases hw
  | field hmem h ih =>
    cases v with
    | object fs =>
      cases hw
      obtain ⟨-, u, -, rfl⟩ := mem_sanitizeFields.1 hmem
      exact .inr (within_sanitizeValue_string h)
    | _ => cases hw

theorem JsValue.Listed.within {text : String} {v : JsValue} (h : Listed text v) :
    Within (.string text) (sanitizedInPlace v) := by
  induction h with
  | here => exact .here
  | element hmem h ih =>
    refine .element ?_ ih
    rw [elementsInPlace_eq]
    exact List.mem_map_of_mem hmem

theorem within_sanitizedInPlace_object {fields : List (String × JsValue)} {v : JsValue}
    (h : Within (.object fields) (sanitizedInPlace v)) : ∀ f ∈ fields, f.1 ∉ FORBIDDEN_KEYS := by
  generalize hw : sanitizedInPlace v = w at h
  induction h generalizing v with
  | here =>
    cases v with
    | object fs =>
      cases hw
      exact fun f hf => (mem_sanitizeFields.1 hf).1
    | _ => cases hw
  | element hmem h ih =>
    cases v with
    | array elements =>
      cases hw
      rw [elementsInPlace_eq] at hmem
      obtain ⟨u, -, hu⟩ := List.mem_map.1 hmem
      exact ih hu
    | _ => cases hw
  | field hmem h ih =>
    cases v with
    | object fs =>
      cases hw
      obtain ⟨-, u, -, rfl⟩ := mem_sanitizeFields.1 hmem
      exact within_sanitizeValue_object h
    | _ => cases hw

/-- What `sanitizeNoSql` lets through has neither operators nor paths among its keys. -/
theorem hasUnsafeKey_within {fields : List (String × JsValue)} {v : JsValue}
    (hv : hasUnsafeKey v = false) (h : Within (.object fields) v) :
    ∀ f ∈ fields, f.1.startsWith "$" = false ∧ '.' ∉ f.1.toList := by
  induction h with
  | here =>
    rw [hasUnsafeKey, anyUnsafeField_eq, List.any_eq_false] at hv
    intro f hf
    have hsafe := hv f hf
    simp only [Bool.or_eq_true, not_or, Bool.not_eq_true, List.contains_eq_mem, decide_eq_false_iff_not] at hsafe
    exact hsafe.1
  | element hmem h ih =>
    rw [hasUnsafeKey, anyUnsafeElement_eq, List.any_eq_false] at hv
    exact ih (by simpa using hv _ hmem)
  | field hmem h ih =>
    rw [hasUnsafeKey, anyUnsafeField_eq, List.any_eq_false] at hv
    have hsafe := hv _ hmem
    simp only [Bool.or_eq_true, not_or, Bool.not_eq_true] at hsafe
    exact ih hsafe.2

/-- A value that passes both sanitisers is clean up to the strings listed in it. -/
theorem sanitised_inPlace_iff {v : JsValue} (hv : hasUnsafeKey (sanitizedInPlace v) = false) :
    Sanitised (sanitizedInPlace v) ↔ ∀ text, Listed text v → CleanText text := by
  constructor
  · exact fun h text hlisted => h.texts text hlisted.within
  · intro h
    refine ⟨fun text hwithin => ?_, fun fields hwithin f hf => ?_⟩
    · rcases within_sanitizedInPlace_string hwithin with hlisted | hclean
      · exact h text hlisted
      · exact hclean
    · exact ⟨within_sanitizedInPlace_object hwithin f hf, hasUnsafeKey_within hv hwithin f hf⟩

theorem not_listed_object {text : String} {fields : List (String × JsValue)} :
    ¬ Listed text (.object fields) := nofun

/-! ## Requests -/

/-- What of a request has to be clean as it is sent: the strings listed in a JSON body, and a form in
several parts. -/
def SentClean (multer : List (String × String) → List (String × JsValue)) : SentBody → Prop
  | .json value => ∀ text, Listed text value → CleanText text
  | .multipart form => Sanitised (.object (multer form))
  | .empty | .urlencoded _ => True

/-- The middlewares of `server.ts` let a request through with its own query and body, sanitised in place,
and without operators in either. -/
theorem runMiddlewares_ok {r : IncomingRequest} {req : ParsedRequest} (h : runMiddlewares r = .ok req) :
    ∃ body, parseBody r.payload = .ok body ∧ req.body = sanitizedInPlace body ∧
      req.query = sanitizedInPlace (.object r.query) ∧ hasUnsafeKey req.body = false ∧
      hasUnsafeKey req.query = false := by
  rw [runMiddlewares] at h
  cases hpollution : preventParameterPollution r.query with
  | error e => rw [hpollution] at h; cases h
  | ok u =>
    cases hbody : parseBody r.payload with
    | error e => rw [hpollution, hbody] at h; cases h
    | ok body =>
      rw [hpollution, hbody] at h
      cases hsql : sanitizeNoSql (sanitizeInput ⟨body, .object r.query, .object []⟩) with
      | error e => simp [hsql, bind, Except.bind] at h
      | ok u =>
        simp only [hsql, bind, Except.bind, pure, Except.pure] at h
        cases h
        rw [sanitizeNoSql] at hsql
        split at hsql
        · cases hsql
        · next hsafe =>
          simp only [Bool.or_eq_true, not_or, Bool.not_eq_true] at hsafe
          exact ⟨body, rfl, rfl, rfl, hsafe.1.1, hsafe.1.2⟩

/-- A controller finds the query sanitised, and the body just if what the sanitisers do not reach of it was
clean as it was sent. -/
theorem inputs_sanitised (multer : List (String × String) → List (String × JsValue)) (r : IncomingRequest)
    (req : ParsedRequest) (haccepted : controllerRequest multer r = .ok req) :
    Sanitised req.body ∧ Sanitised req.query ↔ SentClean multer r.payload := by
  rw [controllerRequest] at haccepted
  cases hrun : runMiddlewares r with
  | error e => rw [hrun] at haccepted; cases haccepted
  | ok parsed =>
    rw [hrun] at haccepted
    cases haccepted
    obtain ⟨body, hparse, hbody, hquery, hsafeBody, hsafeQuery⟩ := runMiddlewares_ok hrun
    have hqueryClean : Sanitised parsed.query := by
      rw [hquery] at hsafeQuery ⊢
      exact (sanitised_inPlace_iff hsafeQuery).2 fun text h => absurd h not_listed_object
    rw [hbody] at hsafeBody
    have hiff := sanitised_inPlace_iff hsafeBody
    rw [← hbody] at hiff
    cases hpayload : r.payload with
    | empty =>
      rw [hpayload] at hparse
      cases hparse
      exact ⟨fun _ => trivial, fun _ => ⟨hiff.2 fun _ h => absurd h not_listed_object, hqueryClean⟩⟩
    | urlencoded form =>
      rw [hpayload] at hparse
      cases hparse
      exact ⟨fun _ => trivial, fun _ => ⟨hiff.2 fun _ h => absurd h not_listed_object, hqueryClean⟩⟩
    | multipart form => exact ⟨fun h => h.1, fun h => ⟨h, hqueryClean⟩⟩
    | json value =>
      have hvalue : body = value := by
        rw [hpayload] at hparse
        cases value <;> cases hparse <;> rfl
      subst hvalue
      exact ⟨fun h => hiff.1 h.1, fun h => ⟨hiff.2 h, hqueryClean⟩⟩

/-- A form in several parts with plain names, each given once. -/
def plainForm (form : List (String × String)) : List (String × JsValue) :=
  form.map fun f => (f.1, .string f.2)

/-- A body with a control character in the name of an item. -/
def dirtyItems : IncomingRequest where
  query := [("page", .string "1")]
  payload := .json (.object [("items", .array [.object [("name", .string "mug\x00"), ("__proto__", .null)]])])

theorem inputs_sanitised_dirtyItems :
    ∃ req, controllerRequest plainForm dirtyItems = .ok req ∧ Sanitised req.body ∧ Sanitised req.query := by
  have hok : (controllerRequest plainForm dirtyItems).isOk = true := by decide +kernel
  cases haccepted : controllerRequest plainForm dirtyItems with
  | error e => rw [haccepted] at hok; cases hok
  | ok req =>
    exact ⟨req, rfl, (inputs_sanitised plainForm dirtyItems req haccepted).2 fun text h =>
      absurd h not_listed_object⟩

/-- A body that is itself an array, with a control character in its only element. -/
def dirtyArray : IncomingRequest where
  query := []
  payload := .json (.array [.string "a\x00"])

/-- A product form with a control character and an operator. -/
def dirtyForm : IncomingRequest where
  query := []
  payload := .multipart [("name", "mug\x00"), ("$where", "1")]

/-- The element of the array, and the product form with both, reach the controller as they were sent. -/
theorem inputs_sanitised_counterexample :
    (∃ req, controllerRequest plainForm dirtyArray = .ok req ∧
      Within (.string "a\x00") req.body ∧ ¬ Sanitised req.body) ∧
    ∃ req, controllerRequest plainForm dirtyForm = .ok req ∧ ¬ CleanText "mug\x00" ∧
      req.body = .object [("name", .string "mug\x00"), ("$where", .string "1")] ∧ ¬ Sanitised req.body := by
  refine ⟨⟨_, rfl, .element List.mem_cons_self .here, fun h => ?_⟩, _, rfl, ?_, rfl, fun h => ?_⟩
  · exact absurd (h.texts _ (.element List.mem_cons_self .here) '\x00' (by decide)) (by decide)
  · exact fun h => absurd (h '\x00' (by decide)) (by decide)
  · exact absurd (h.texts _ (.field List.mem_cons_self .here) '\x00' (by decide)) (by decide)

end Ecommerce
