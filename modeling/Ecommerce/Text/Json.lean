import Mathlib.Data.List.Basic

/-!
# JSON texts of strings, arrays and objects

How `JSON.stringify` writes values that are made of strings, and how such a text is read from left to
right. Inside a string the reader waits for the quote that ends it. Outside it counts the brackets
that are open, and stops at what can stand outside of strings only in another kind of value.

## Main results

* `scan_stringify` — over the text of a value the count of open brackets does not change.
* `obj_not_suffix` — the text of an object does not end in a colon and the text of another object
  whose first key begins with a plain character.
-/

namespace Text

inductive Json where
  | str (text : String)
  | arr (values : List Json)
  | obj (fields : List (String × Json))

namespace Json

/-! ## Writing -/

/-- A character inside a quoted string. -/
def escape (c : Char) : List Char :=
  if c = '"' then ['\\', '"']
  else if c = '\\' then ['\\', '\\']
  else if c = '\x08' then ['\\', 'b']
  else if c = '\t' then ['\\', 't']
  else if c = '\n' then ['\\', 'n']
  else if c = '\x0c' then ['\\', 'f']
  else if c = '\r' then ['\\', 'r']
  else if c.toNat < 32 then
    ['\\', 'u', '0', '0', (c.toNat / 16).digitChar, (c.toNat % 16).digitChar]
  else [c]

def quoted (text : String) : List Char := '"' :: (text.toList.flatMap escape ++ ['"'])

mutual

def stringify : Json → List Char
  | .str text => quoted text
  | .arr [] => ['[', ']']
  | .arr (v :: vs) => '[' :: (stringify v ++ (stringifyValues vs ++ [']']))
  | .obj [] => ['\x7b', '\x7d']
  | .obj ((key, v) :: fs) => '\x7b' :: (quoted key ++ ':' :: (stringify v ++ (stringifyFields fs ++ ['\x7d'])))

/-- The values after the first one. -/
def stringifyValues : List Json → List Char
  | [] => []
  | v :: vs => ',' :: (stringify v ++ stringifyValues vs)

/-- The fields after the first one. -/
def stringifyFields : List (String × Json) → List Char
  | [] => []
  | (key, v) :: fs => ',' :: (quoted key ++ ':' :: (stringify v ++ stringifyFields fs))

end

/-! ## Reading -/

/-- Where a reader stands: outside of strings, in a string, after a backslash in a string, with the
number of open brackets; or at a character that cannot stand there. -/
inductive Reader where
  | out (depth : Nat)
  | str (depth : Nat)
  | esc (depth : Nat)
  | dead
  deriving DecidableEq, Repr

namespace Reader

def step : Reader → Char → Reader
  | .out d, c =>
    if c = '\x7b' ∨ c = '[' then .out (d + 1)
    else if c = '\x7d' ∨ c = ']' then (if d = 0 then .dead else .out (d - 1))
    else if c = '"' then .str d
    else if (c = ',' ∨ c = ':') ∧ d ≠ 0 then .out d
    else .dead
  | .str d, c => if c = '"' then .out d else if c = '\\' then .esc d else .str d
  | .esc d, _ => .str d
  | .dead, _ => .dead

def scan (s : Reader) (cs : List Char) : Reader := cs.foldl step s

variable {s : Reader} {d : Nat} {c : Char} {cs ds : List Char}

@[simp] theorem scan_nil : scan s [] = s := rfl

@[simp] theorem scan_cons : scan s (c :: cs) = scan (s.step c) cs := rfl

@[simp] theorem scan_append : scan s (cs ++ ds) = scan (scan s cs) ds := List.foldl_append

@[simp] theorem scan_dead (cs : List Char) : scan .dead cs = .dead := by
  induction cs with
  | nil => rfl
  | cons c cs ih => exact ih

@[simp] theorem step_open : (out d).step '\x7b' = .out (d + 1) := by simp [step]
@[simp] theorem step_openArray : (out d).step '[' = .out (d + 1) := by simp [step]
@[simp] theorem step_close : (out (d + 1)).step '\x7d' = .out d := by simp [step]
@[simp] theorem step_closeArray : (out (d + 1)).step ']' = .out d := by simp [step]
@[simp] theorem step_quote : (out d).step '"' = .str d := by simp [step]
@[simp] theorem step_comma : (out (d + 1)).step ',' = .out (d + 1) := by simp [step]
@[simp] theorem step_str_open : (str d).step '\x7b' = .str d := by simp [step]
@[simp] theorem step_str_quote : (str d).step '"' = .out d := by simp [step]
@[simp] theorem step_dead : dead.step c = .dead := rfl
@[simp] theorem step_colon : (out (d + 1)).step ':' = .out (d + 1) := by simp [step]

/-- A reader in a string passes an escaped character. -/
theorem scan_escape (c : Char) : scan (.str d) (escape c) = .str d := by
  unfold escape
  split_ifs <;> simp_all [step]

theorem scan_quoted (text : String) : scan (.out d) (quoted text) = .out d := by
  have hbody : ∀ cs : List Char, scan (.str d) (cs.flatMap escape) = .str d := by
    intro cs
    induction cs with
    | nil => rfl
    | cons c cs ih => rw [List.flatMap_cons, scan_append, scan_escape, ih]
  simp [quoted, hbody, step]

mutual

/-- The brackets of a value are closed at its end. -/
theorem scan_stringify : ∀ (v : Json) (d : Nat), scan (.out d) (stringify v) = .out d
  | .str text, d => scan_quoted text
  | .arr [], d => by simp [stringify]
  | .arr (v :: vs), d => by simp [stringify, scan_stringify v, scan_stringifyValues vs]
  | .obj [], d => by simp [stringify]
  | .obj ((key, v) :: fs), d => by simp [stringify, scan_quoted, scan_stringify v, scan_stringifyFields fs]

theorem scan_stringifyValues : ∀ (vs : List Json) (d : Nat), scan (.out (d + 1)) (stringifyValues vs) = .out (d + 1)
  | [], d => rfl
  | v :: vs, d => by simp [stringifyValues, scan_stringify v, scan_stringifyValues vs]

theorem scan_stringifyFields :
    ∀ (fs : List (String × Json)) (d : Nat), scan (.out (d + 1)) (stringifyFields fs) = .out (d + 1)
  | [], d => rfl
  | (key, v) :: fs, d => by simp [stringifyFields, scan_quoted, scan_stringify v, scan_stringifyFields fs]

end

/-- Outside of strings no letter can stand. -/
theorem step_letter (h : c.isAlpha) : (out d).step c = .dead := by
  have hne : ∀ x : Char, x.isAlpha = false → c ≠ x := by
    rintro x hx rfl
    simp [hx] at h
  simp [step, hne _ (by decide : '\x7b'.isAlpha = false), hne _ (by decide : '['.isAlpha = false),
    hne _ (by decide : '\x7d'.isAlpha = false), hne _ (by decide : ']'.isAlpha = false),
    hne _ (by decide : '"'.isAlpha = false), hne _ (by decide : ','.isAlpha = false),
    hne _ (by decide : ':'.isAlpha = false)]

theorem escape_letter (h : c.isAlpha) : escape c = [c] := by
  have hne : ∀ x : Char, x.isAlpha = false → c ≠ x := by
    rintro x hx rfl
    simp [hx] at h
  have hlow : ¬ c.toNat < 32 := by
    intro hlt
    have hall : ∀ n < 32, (Char.ofNat n).isAlpha = false := by decide
    have hcontrol := hall c.toNat hlt
    rw [Char.ofNat_toNat, h] at hcontrol
    cases hcontrol
  simp [escape, hlow, hne _ (by decide : '"'.isAlpha = false), hne _ (by decide : '\\'.isAlpha = false),
    hne _ (by decide : '\x08'.isAlpha = false), hne _ (by decide : '\t'.isAlpha = false),
    hne _ (by decide : '\n'.isAlpha = false), hne _ (by decide : '\x0c'.isAlpha = false),
    hne _ (by decide : '\r'.isAlpha = false)]

/-- A reader in a string takes the quote of the first key for the end of the string. -/
theorem scan_str_obj {fs : List (String × Json)} (hfs : ∀ f ∈ fs, ∃ c cs, f.1.toList = c :: cs ∧ c.isAlpha) :
    scan (.str d) (stringify (.obj fs)) = .str d ∨ scan (.str d) (stringify (.obj fs)) = .dead := by
  cases fs with
  | nil => exact .inl (by simp [stringify, step])
  | cons f fs =>
    obtain ⟨key, v⟩ := f
    obtain ⟨c, cs, hkey, hc⟩ := hfs _ List.mem_cons_self
    right
    simp only at hkey
    simp [stringify, quoted, hkey, escape_letter hc, step_letter hc]

end Reader

open Reader in
/-- The text of an object does not end in a colon and the text of another object whose keys begin with
letters: a reader that comes to the other object outside of strings has brackets open from before,
and one that comes to it in a string is left in a string, or at a letter. -/
theorem obj_not_suffix {x : List Char} {fs gs : List (String × Json)}
    (hfs : ∀ f ∈ fs, ∃ c cs, f.1.toList = c :: cs ∧ c.isAlpha) :
    x ++ ':' :: stringify (.obj fs) ≠ stringify (.obj gs) := by
  intro h
  have hscan : scan (scan (.out 0) x) (':' :: stringify (.obj fs)) = .out 0 := by
    rw [← scan_append, h, scan_stringify]
  rw [scan_cons] at hscan
  have hstr : ∀ d, scan (.str d) (stringify (.obj fs)) ≠ .out 0 := by
    intro d hd
    obtain h | h := scan_str_obj hfs (d := d) <;> rw [h] at hd <;> cases hd
  cases hx : scan (.out 0) x with
  | out d =>
    rw [hx] at hscan
    cases d with
    | zero => simp [step] at hscan
    | succ d =>
      rw [step_colon, scan_stringify] at hscan
      cases hscan
  | str d =>
    rw [hx] at hscan
    exact hstr d (by simpa [step] using hscan)
  | esc d =>
    rw [hx] at hscan
    exact hstr d hscan
  | dead =>
    rw [hx] at hscan
    simp [step] at hscan

end Json

end Text
