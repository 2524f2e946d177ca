import Mathlib.Data.Rat.Defs
import Mathlib.Tactic.Basic

/-!
# Request bodies on their way to a controller

`middlewares/preventParameterPollution.ts`, `middlewares/sanitizeInput.ts` and
`middlewares/sanitizeNoSql.ts`, in the order of `server.ts` around the body parsers, and the form reader
that `ProductController.store` and `update` run themselves.
-/

namespace Ecommerce

/-- A value that a body parser makes. -/
inductive JsValue where
  | null
  | bool (value : Bool)
  | number (value : ℚ)
  | string (text : String)
  | array (elements : List JsValue)
  | object (fields : List (String × JsValue))

/-! ## `sanitizeInput` -/

def FORBIDDEN_KEYS : List String := ["__proto__", "constructor", "prototype"]

def CONTROL_CHARS (c : Char) : Bool :=
  c ≤ '\x08' || c == '\x0b' || c == '\x0c' || ('\x0e' ≤ c && c ≤ '\x1f') || c == '\x7f'

/-- `value.replace(CONTROL_CHARS, "")`. -/
def withoutControlChars (text : String) : String :=
  String.ofList (text.toList.filter fun c => !CONTROL_CHARS c)

mutual

/-- What `sanitizeValue` returns. For an object this is the object itself, rewritten. -/
def sanitizeValue : JsValue → JsValue
  | .array elements => .array (sanitizeElements elements)
  | .object fields => .object (sanitizeFields fields)
  | .string text => .string (withoutControlChars text)
  | .null => .null
  | .bool value => .bool value
  | .number value => .number value

def sanitizeElements : List JsValue → List JsValue
  | [] => []
  | value :: rest => sanitizeValue value :: sanitizeElements rest

def sanitizeFields : List (String × JsValue) → List (String × JsValue)
  | [] => []
  | (key, value) :: rest =>
    if FORBIDDEN_KEYS.contains key then sanitizeFields rest
    else (key, sanitizeValue value) :: sanitizeFields rest

end

mutual

/-- What `sanitizeValue` leaves of its argument. An array keeps its elements, since `map` makes a new
one, and the objects among them are rewritten all the same. -/
def sanitizedInPlace : JsValue → JsValue
  | .array elements => .array (elementsInPlace elements)
  | .object fields => .object (sanitizeFields fields)
  | .string text => .string text
  | .null => .null
  | .bool value => .bool value
  | .number value => .number value

def elementsInPlace : List JsValue → List JsValue
  | [] => []
  | value :: rest => sanitizedInPlace value :: elementsInPlace rest

end

/-! ## `sanitizeNoSql` -/

mutual

def hasUnsafeKey : JsValue → Bool
  | .array elements => anyUnsafeElement elements
  | .object fields => anyUnsafeField fields
  | .string _ | .null | .bool _ | .number _ => false

def anyUnsafeElement : List JsValue → Bool
  | [] => false
  | value :: rest => hasUnsafeKey value || anyUnsafeElement rest

def anyUnsafeField : List (String × JsValue) → Bool
  | [] => false
  | (key, value) :: rest =>
    key.startsWith "$" || key.toList.contains '.' || hasUnsafeKey value || anyUnsafeField rest

end

theorem sanitizeElements_eq (elements : List JsValue) :
    sanitizeElements elements = elements.map sanitizeValue := by
  induction elements with
  | nil => rfl
  | cons value rest ih => rw [sanitizeElements, ih, List.map_cons]

theorem elementsInPlace_eq (elements : List JsValue) :
    elementsInPlace elements = elements.map sanitizedInPlace := by
  induction elements with
  | nil => rfl
  | cons value rest ih => rw [elementsInPlace, ih, List.map_cons]

theorem mem_sanitizeFields {fields : List (String × JsValue)} {key : String} {value : JsValue} :
    (key, value) ∈ sanitizeFields fields ↔
      key ∉ FORBIDDEN_KEYS ∧ ∃ v, (key, v) ∈ fields ∧ value = sanitizeValue v := by
  induction fields with
  | nil => simp [sanitizeFields]
  | cons field rest ih =>
    obtain ⟨k, v⟩ := field
    rw [sanitizeFields]
    split_ifs with hk
    · have hmem : k ∈ FORBIDDEN_KEYS := List.contains_iff_mem.1 hk
      rw [ih]
      constructor
      · rintro ⟨hsafe, u, hu, rfl⟩
        exact ⟨hsafe, u, List.mem_cons_of_mem _ hu, rfl⟩
      · rintro ⟨hsafe, u, hu, rfl⟩
        rcases List.mem_cons.1 hu with heq | hu
        · cases heq
          exact absurd hmem hsafe
        · exact ⟨hsafe, u, hu, rfl⟩
    · have hmem : k ∉ FORBIDDEN_KEYS := fun h => hk (List.contains_iff_mem.2 h)
      rw [List.mem_cons, ih]
      constructor
      · rintro (heq | ⟨hsafe, u, hu, rfl⟩)
        · cases heq
          exact ⟨hmem, v, List.mem_cons_self, rfl⟩
        · exact ⟨hsafe, u, List.mem_cons_of_mem _ hu, rfl⟩
      · rintro ⟨hsafe, u, hu, rfl⟩
        rcases List.mem_cons.1 hu with heq | hu
        · cases heq
          exact .inl rfl
        · exact .inr ⟨hsafe, u, hu, rfl⟩

theorem anyUnsafeElement_eq (elements : List JsValue) :
    anyUnsafeElement elements = elements.any hasUnsafeKey := by
  induction elements with
  | nil => rfl
  | cons value rest ih => rw [anyUnsafeElement, ih, List.any_cons]

theorem anyUnsafeField_eq (fields : List (String × JsValue)) :
    anyUnsafeField fields =
      fields.any fun f => f.1.startsWith "$" || f.1.toList.contains '.' || hasUnsafeKey f.2 := by
  induction fields with
  | nil => rfl
  | cons field rest ih => rw [anyUnsafeField, ih, List.any_cons]

/-! ## Requests -/

/-- A value of a urlencoded form: a name that is given more than once has several texts. -/
inductive FormValue where
  | one (text : String)
  | many (texts : List String)

def FormValue.toJs : FormValue → JsValue
  | .one text => .string text
  | .many texts => .array (texts.map .string)

/-- The body of a request by its content type. A form in several parts is a list of names with texts. -/
inductive SentBody where
  | empty
  | urlencoded (form : List (String × FormValue))
  | json (value : JsValue)
  | multipart (form : List (String × String))

structure IncomingRequest where
  query : List (String × JsValue)
  payload : SentBody

/-- `req`, as far as the sanitisers read and write it. -/
structure ParsedRequest where
  body : JsValue
  query : JsValue
  params : JsValue

/-- `express.urlencoded` and `express.json` in strict mode; what they do not parse is an empty object. -/
def parseBody : SentBody → Except String JsValue
  | .urlencoded form => .ok (.object (form.map fun f => (f.1, f.2.toJs)))
  | .json (.object fields) => .ok (.object fields)
  | .json (.array elements) => .ok (.array elements)
  | .json _ => .error "Unexpected token in JSON"
  | .empty | .multipart _ => .ok (.object [])

def isArray : JsValue → Bool
  | .array _ => true
  | _ => false

/-- The query keys that may be given more than once. -/
def allowlist : List String := ["category"]

def preventParameterPollution (query : List (String × JsValue)) : Except String Unit :=
  match query.find? fun f => isArray f.2 && !allowlist.contains f.1 with
  | some f => .error ("Duplicate query parameter is not allowed: " ++ f.1)
  | none => .ok ()

def sanitizeInput (req : ParsedRequest) : ParsedRequest where
  body := sanitizedInPlace req.body
  query := sanitizedInPlace req.query
  params := sanitizedInPlace req.params

def sanitizeNoSql (req : ParsedRequest) : Except String Unit :=
  if hasUnsafeKey req.body || hasUnsafeKey req.query || hasUnsafeKey req.params then
    .error "Unsafe query payload"
  else .ok ()

/-- The middlewares of `server.ts`. Route parameters are not known before a route is. -/
def runMiddlewares (r : IncomingRequest) : Except String ParsedRequest := do
  preventParameterPollution r.query
  let body ← parseBody r.payload
  let req := sanitizeInput { body := body, query := .object r.query, params := .object [] }
  sanitizeNoSql req
  pure req

/-- `handleMultiPartData` replaces the body by the fields that the form reader finds in a form in several
parts, and lets other requests through. -/
def handleMultiPartData (multer : List (String × String) → List (String × JsValue)) (payload : SentBody)
    (req : ParsedRequest) : ParsedRequest :=
  match payload with
  | .multipart form => { req with body := .object (multer form) }
  | _ => req

/-- What a controller finds in `req`. -/
def controllerRequest (multer : List (String × String) → List (String × JsValue)) (r : IncomingRequest) :
    Except String ParsedRequest := do
  let req ← runMiddlewares r
  pure (handleMultiPartData multer r.payload req)

end Ecommerce
