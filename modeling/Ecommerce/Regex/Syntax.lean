import Mathlib.Data.List.Basic
import Mathlib.Tactic.SplitIfs

/-!
# Patterns of ECMAScript regular expressions

The grammar of patterns without the `u` flag, over UTF-16 code units, as a recursive descent parser.
Look-behind and named groups are left out.

## Main definitions

* `Node` — what a pattern denotes.
* `parsePattern` — the pattern of a text, or nothing if it is not well formed.
-/

namespace Regex

/-- The code unit of a character in the basic plane. -/
def unit (c : Char) : UInt16 := UInt16.ofNat c.toNat

/-- A set of code units: ranges, or what is outside of them. -/
structure ClassItem where
  negated : Bool
  ranges : List (UInt16 × UInt16)
  deriving DecidableEq

inductive Node where
  | empty
  | char (u : UInt16)
  | any
  | cls (negated : Bool) (items : List ClassItem)
  | seq (first second : Node)
  | alt (first second : Node)
  | repeat (body : Node) (min : Nat) (max : Option Nat) (greedy : Bool)
  | group (index : Nat) (body : Node)
  | backreference (index : Nat)
  | lookahead (negated : Bool) (body : Node)
  | lineStart
  | lineEnd
  | wordBoundary (negated : Bool)
  deriving DecidableEq

/-- The characters that have a meaning of their own in a pattern. -/
def syntaxChars : List UInt16 := "^$\\.*+?()[]\x7b\x7d|".toList.map unit

/-! ## Escapes -/

def isDigit (u : UInt16) : Bool := unit '0' ≤ u && u ≤ unit '9'

def hexValue (u : UInt16) : Option Nat :=
  if isDigit u then some (u - unit '0').toNat
  else if unit 'a' ≤ u ∧ u ≤ unit 'f' then some ((u - unit 'a').toNat + 10)
  else if unit 'A' ≤ u ∧ u ≤ unit 'F' then some ((u - unit 'A').toNat + 10)
  else none

/-- A run of decimal digits, and what follows it. -/
def decimal : Nat → List UInt16 → Nat × List UInt16
  | acc, u :: us => if isDigit u then decimal (acc * 10 + (u - unit '0').toNat) us else (acc, u :: us)
  | acc, [] => (acc, [])

/-- A fixed number of hex digits. -/
def hexDigits : Nat → Nat → List UInt16 → Option (Nat × List UInt16)
  | 0, acc, us => some (acc, us)
  | n + 1, acc, u :: us => (hexValue u).bind fun d => hexDigits n (acc * 16 + d) us
  | _ + 1, _, [] => none

def digitItem (negated : Bool) : ClassItem := ⟨negated, [(unit '0', unit '9')]⟩

def wordItem (negated : Bool) : ClassItem :=
  ⟨negated, [(unit '0', unit '9'), (unit 'A', unit 'Z'), (unit '_', unit '_'), (unit 'a', unit 'z')]⟩

def spaceItem (negated : Bool) : ClassItem :=
  ⟨negated, [(0x9, 0xd), (0x20, 0x20), (0xa0, 0xa0), (0x1680, 0x1680), (0x2000, 0x200a), (0x2028, 0x2029),
    (0x202f, 0x202f), (0x205f, 0x205f), (0x3000, 0x3000), (0xfeff, 0xfeff)]⟩

/-- The classes that an escape names. -/
def escapedClass (u : UInt16) : Option ClassItem :=
  if u = unit 'd' then some (digitItem false)
  else if u = unit 'D' then some (digitItem true)
  else if u = unit 'w' then some (wordItem false)
  else if u = unit 'W' then some (wordItem true)
  else if u = unit 's' then some (spaceItem false)
  else if u = unit 'S' then some (spaceItem true)
  else none

/-- The unit that an escape stands for, behind the backslash. An escape without a meaning of its own stands
for the character itself. -/
def escapedUnit : List UInt16 → Option (UInt16 × List UInt16)
  | [] => none
  | u :: us =>
    if u = unit 'f' then some (0xc, us)
    else if u = unit 'n' then some (0xa, us)
    else if u = unit 'r' then some (0xd, us)
    else if u = unit 't' then some (0x9, us)
    else if u = unit 'v' then some (0xb, us)
    else if u = unit '0' then some (0, us)
    else if u = unit 'c' then
      match us with
      | l :: rest => if (hexValue l).isSome ∨ (unit 'G' ≤ l ∧ l ≤ unit 'Z') ∨ (unit 'g' ≤ l ∧ l ≤ unit 'z')
          then some (l % 32, rest) else none
      | [] => none
    else if u = unit 'x' then (hexDigits 2 0 us).map fun r => (UInt16.ofNat r.1, r.2)
    else if u = unit 'u' then (hexDigits 4 0 us).map fun r => (UInt16.ofNat r.1, r.2)
    else some (u, us)

/-! ## Classes -/

/-- One atom of a class: a unit that may bound a range, or a class of its own. -/
def classAtom : List UInt16 → Option ((UInt16 ⊕ ClassItem) × List UInt16)
  | [] => none
  | u :: us =>
    if u = unit '\\' then
      match us with
      | [] => none
      | e :: rest =>
        if e = unit 'b' then some (.inl 0x8, rest)
        else
          match escapedClass e with
          | some item => some (.inr item, rest)
          | none => (escapedUnit us).map fun r => (.inl r.1, r.2)
    else some (.inl u, us)

def atomItem : UInt16 ⊕ ClassItem → ClassItem
  | .inl u => ⟨false, [(u, u)]⟩
  | .inr item => item

/-- The items up to the closing bracket. -/
def classItems : Nat → List UInt16 → Option (List ClassItem × List UInt16)
  | 0, _ => none
  | _ + 1, [] => none
  | fuel + 1, u :: us =>
    if u = unit ']' then some ([], us)
    else do
      let (first, rest) ← classAtom (u :: us)
      match rest with
      | dash :: next :: _ =>
        if dash = unit '-' ∧ next ≠ unit ']' then do
          let (second, rest) ← classAtom rest.tail
          let (items, rest) ← classItems fuel rest
          match first, second with
          | .inl lo, .inl hi => if lo ≤ hi then some (⟨false, [(lo, hi)]⟩ :: items, rest) else none
          | _, _ => none
        else do
          let (items, rest) ← classItems fuel rest
          some (atomItem first :: items, rest)
      | _ => do
        let (items, rest) ← classItems fuel rest
        some (atomItem first :: items, rest)

/-! ## Quantifiers -/

/-- `*`, `+`, `?` or counts in braces. -/
def quantifierPrefix : List UInt16 → Option ((Nat × Option Nat) × List UInt16)
  | [] => none
  | u :: us =>
    if u = unit '*' then some ((0, none), us)
    else if u = unit '+' then some ((1, none), us)
    else if u = unit '?' then some ((0, some 1), us)
    else if u = unit '\x7b' ∧ us.head?.any isDigit then
      let (low, rest) := decimal 0 us
      match rest with
      | v :: rest =>
        if v = unit '\x7d' then some ((low, some low), rest)
        else if v = unit ',' then
          let (high, last) := decimal 0 rest
          match last with
          | w :: after =>
            if w = unit '\x7d' then
              if rest.head?.any isDigit then if low ≤ high then some ((low, some high), after) else none
              else some ((low, none), after)
            else none
          | [] => none
        else none
      | [] => none
    else none

/-- The atom with the quantifier behind it, if there is one. -/
def quantified (atom : Node) (us : List UInt16) : Node × List UInt16 :=
  match quantifierPrefix us with
  | none => (atom, us)
  | some ((min, max), rest) =>
    if rest.head? = some (unit '?') then (.repeat atom min max false, rest.tail)
    else (.repeat atom min max true, rest)

/-! ## Patterns -/

/-- What the parser returns: a node, the number of groups opened so far, and the rest of the text. -/
abbrev Parsed := Option (Node × Nat × List UInt16)

/-- An escape as an atom. -/
def escapeAtom (groups : Nat) (us : List UInt16) : Parsed :=
  match us with
  | [] => none
  | u :: rest =>
    if isDigit u ∧ u ≠ unit '0' then
      let (index, rest) := decimal 0 (u :: rest)
      some (.backreference index, groups, rest)
    else
      match escapedClass u with
      | some item => some (.cls false [item], groups, rest)
      | none => (escapedUnit us).map fun r => (.char r.1, groups, r.2)

mutual

def parseDisjunction : Nat → Nat → List UInt16 → Parsed
  | 0, _, _ => none
  | fuel + 1, groups, us => do
    let (first, groups, rest) ← parseAlternative fuel groups us
    match rest with
    | [] => some (first, groups, [])
    | u :: rest =>
      if u = unit '|' then do
        let (second, groups, rest) ← parseDisjunction fuel groups rest
        some (.alt first second, groups, rest)
      else some (first, groups, u :: rest)

def parseAlternative : Nat → Nat → List UInt16 → Parsed
  | 0, _, _ => none
  | _ + 1, groups, [] => some (.empty, groups, [])
  | fuel + 1, groups, u :: us =>
    if u = unit '|' ∨ u = unit ')' then some (.empty, groups, u :: us)
    else do
      let (term, groups, rest) ← parseTerm fuel groups u us
      let (terms, groups, rest) ← parseAlternative fuel groups rest
      some (.seq term terms, groups, rest)

/-- An assertion, or an atom with its quantifier. -/
def parseTerm : Nat → Nat → UInt16 → List UInt16 → Parsed
  | 0, _, _, _ => none
  | fuel + 1, groups, u, us =>
    if u = unit '^' then some (.lineStart, groups, us)
    else if u = unit '$' then some (.lineEnd, groups, us)
    else if u = unit '\\' ∧ us.head? = some (unit 'b') then some (.wordBoundary false, groups, us.tail)
    else if u = unit '\\' ∧ us.head? = some (unit 'B') then some (.wordBoundary true, groups, us.tail)
    else if u = unit '(' ∧ us.head? = some (unit '?') ∧ us.tail.head? = some (unit '=') then do
      let (body, groups, rest) ← parseDisjunction fuel groups us.tail.tail
      match rest with
      | v :: rest => if v = unit ')' then some (.lookahead false body, groups, rest) else none
      | [] => none
    else if u = unit '(' ∧ us.head? = some (unit '?') ∧ us.tail.head? = some (unit '!') then do
      let (body, groups, rest) ← parseDisjunction fuel groups us.tail.tail
      match rest with
      | v :: rest => if v = unit ')' then some (.lookahead true body, groups, rest) else none
      | [] => none
    else do
      let (atom, groups, rest) ← parseAtom fuel groups u us
      let (term, rest) := quantified atom rest
      some (term, groups, rest)

def parseAtom : Nat → Nat → UInt16 → List UInt16 → Parsed
  | 0, _, _, _ => none
  | fuel + 1, groups, u, us =>
    if u = unit '\\' then escapeAtom groups us
    else if u = unit '.' then some (.any, groups, us)
    else if u = unit '[' then
      let negated := us.head? = some (unit '^')
      (classItems (us.length + 1) (if negated then us.tail else us)).map fun r => (.cls negated r.1, groups, r.2)
    else if u = unit '(' then
      if us.head? = some (unit '?') then
        if us.tail.head? = some (unit ':') then do
          let (body, groups, rest) ← parseDisjunction fuel groups us.tail.tail
          match rest with
          | v :: rest => if v = unit ')' then some (body, groups, rest) else none
          | [] => none
        else none
      else do
        let (body, after, rest) ← parseDisjunction fuel (groups + 1) us
        match rest with
        | v :: rest => if v = unit ')' then some (.group (groups + 1) body, after, rest) else none
        | [] => none
    else if syntaxChars.contains u then none
    else some (.char u, groups, us)

end

/-- A pattern is a disjunction that takes all of the text. -/
def parsePattern (us : List UInt16) : Option Node :=
  match parseDisjunction (4 * us.length + 4) 0 us with
  | some (node, _, []) => some node
  | _ => none

/-! ## Literal patterns -/

/-- The units of a text one after the other. -/
def literal : List UInt16 → Node
  | [] => .empty
  | u :: us => .seq (.char u) (literal us)

/-- A backslash in front of every character that has a meaning of its own. -/
def escape (us : List UInt16) : List UInt16 :=
  us.flatMap fun u => if syntaxChars.contains u then [unit '\\', u] else [u]

@[simp] theorem escape_nil : escape [] = [] := rfl

theorem escape_cons (u : UInt16) (us : List UInt16) :
    escape (u :: us) = (if syntaxChars.contains u then [unit '\\', u] else [u]) ++ escape us := rfl

theorem length_le_escape (us : List UInt16) : us.length ≤ (escape us).length := by
  induction us with
  | nil => exact Nat.le_refl _
  | cons u us ih =>
    rw [escape_cons, List.length_append, List.length_cons]
    split_ifs
    · rw [List.length_cons, List.length_singleton]
      omega
    · rw [List.length_singleton]
      omega

/-- An escaped text does not begin with a quantifier. -/
theorem quantifierPrefix_escape (us : List UInt16) : quantifierPrefix (escape us) = none := by
  cases us with
  | nil => rfl
  | cons u us =>
    rw [escape_cons]
    split_ifs with hu
    · rfl
    · have hnot {c : Char} (hc : unit c ∈ syntaxChars) : u ≠ unit c := fun h =>
        hu (List.contains_iff_mem.2 (h ▸ hc))
      simp only [List.singleton_append, quantifierPrefix, if_neg (hnot (c := '*') (by decide)),
        if_neg (hnot (c := '+') (by decide)), if_neg (hnot (c := '?') (by decide)),
        hnot (c := '\x7b') (by decide), false_and, if_false]

theorem quantified_escape (atom : Node) (us : List UInt16) : quantified atom (escape us) = (atom, escape us) := by
  rw [quantified, quantifierPrefix_escape]

/-- An escaped character with a meaning of its own stands for itself. -/
theorem escapeAtom_syntax {u : UInt16} (hu : u ∈ syntaxChars) (groups : Nat) (rest : List UInt16) :
    escapeAtom groups (u :: rest) = some (.char u, groups, rest) := by
  have hplain : syntaxChars.Forall fun u => isDigit u = false ∧ escapedClass u = none ∧
      ['f', 'n', 'r', 't', 'v', '0', 'c', 'x', 'u'].Forall fun c => u ≠ unit c := by decide
  obtain ⟨hdigit, hclass, hletters⟩ := List.forall_iff_forall_mem.1 hplain u hu
  obtain ⟨hf, hn, hr, ht, hv, hzero, hc, hx, (hlast : u ≠ unit 'u')⟩ := hletters
  simp only [escapeAtom, hdigit, Bool.false_eq_true, false_and, if_false, hclass, escapedUnit, hf, hn, hr, ht, hv,
    hzero, hc, hx, hlast, Option.map_some]

theorem parseTerm_escaped {u : UInt16} (hu : u ∈ syntaxChars) (fuel groups : Nat) (us : List UInt16) :
    parseTerm (fuel + 2) groups (unit '\\') (u :: escape us) = some (.char u, groups, escape us) := by
  have hboundary : syntaxChars.Forall fun u => u ≠ unit 'b' ∧ u ≠ unit 'B' := by decide
  obtain ⟨hb, hB⟩ := List.forall_iff_forall_mem.1 hboundary u hu
  have hatom : parseAtom (fuel + 1) groups (unit '\\') (u :: escape us) = some (.char u, groups, escape us) := by
    rw [parseAtom, if_pos rfl, escapeAtom_syntax hu]
  rw [parseTerm, if_neg (by decide), if_neg (by decide), if_neg (by simpa using hb), if_neg (by simpa using hB),
    if_neg (fun h => absurd h.1 (by decide)), if_neg (fun h => absurd h.1 (by decide)), hatom]
  simp [quantified_escape]

theorem parseTerm_plain {u : UInt16} (hu : u ∉ syntaxChars) (fuel groups : Nat) (us : List UInt16) :
    parseTerm (fuel + 2) groups u (escape us) = some (.char u, groups, escape us) := by
  have hnot {c : Char} (hc : unit c ∈ syntaxChars) : u ≠ unit c := fun h => hu (h ▸ hc)
  have hatom : parseAtom (fuel + 1) groups u (escape us) = some (.char u, groups, escape us) := by
    rw [parseAtom, if_neg (hnot (by decide)), if_neg (hnot (by decide)), if_neg (hnot (by decide)),
      if_neg (hnot (by decide)), if_neg (by simpa using hu)]
  rw [parseTerm, if_neg (hnot (by decide)), if_neg (hnot (by decide)),
    if_neg (fun h => hnot (by decide) h.1), if_neg (fun h => hnot (by decide) h.1),
    if_neg (fun h => hnot (by decide) h.1), if_neg (fun h => hnot (by decide) h.1), hatom]
  simp [quantified_escape]

theorem parseAlternative_escape (us : List UInt16) {fuel : Nat} (hfuel : us.length + 3 ≤ fuel) (groups : Nat) :
    parseAlternative fuel groups (escape us) = some (literal us, groups, []) := by
  induction us generalizing fuel with
  | nil =>
    obtain ⟨fuel, rfl⟩ : ∃ n, fuel = n + 1 := ⟨fuel - 1, by omega⟩
    rw [escape_nil, parseAlternative]
    rfl
  | cons u us ih =>
    rw [List.length_cons] at hfuel
    obtain ⟨fuel, rfl⟩ : ∃ n, fuel = n + 3 := ⟨fuel - 3, by omega⟩
    have hrest : parseAlternative (fuel + 2) groups (escape us) = some (literal us, groups, []) := ih (by omega)
    rw [escape_cons]
    split_ifs with hu
    · have hterm := parseTerm_escaped (List.contains_iff_mem.1 hu) fuel groups us
      rw [List.cons_append, List.singleton_append, parseAlternative, if_neg (by decide), hterm]
      simp [hrest, literal]
    · have hmem : u ∉ syntaxChars := fun h => hu (List.contains_iff_mem.2 h)
      have hends : ¬ (u = unit '|' ∨ u = unit ')') := by
        rintro (rfl | rfl) <;> exact hmem (by decide)
      rw [List.singleton_append, parseAlternative, if_neg hends, parseTerm_plain hmem]
      simp [hrest, literal]

/-- An escaped text is a pattern, and denotes the text. -/
theorem parsePattern_escape (us : List UInt16) : parsePattern (escape us) = some (literal us) := by
  have hlength := length_le_escape us
  have hparse : parseDisjunction (4 * (escape us).length + 4) 0 (escape us) = some (literal us, 0, []) := by
    rw [parseDisjunction, parseAlternative_escape us (by omega)]
    rfl
  rw [parsePattern, hparse]

end Regex
