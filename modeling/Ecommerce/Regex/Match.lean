import Ecommerce.Regex.Syntax
import Mathlib.Tactic.SplitIfs

/-!
# Matching

The backtracking matcher of ECMAScript, in continuation style: a node is matched from a state, and what
follows is a function that is tried on every state the node can reach, in order.

## Main definitions

* `matcher` — a node as a matcher.
* `matchAt`, `exec` — the match at a position, and the first match in a text.
* `OccursAt` — a text stands at a position, up to what `canonicalize` identifies.
-/

namespace Regex

/-- What the flags fix: the units that are compared with one another are made alike first. -/
structure Mode where
  canonicalize : UInt16 → UInt16

/-- The `i` flag, for the upper case of each unit. -/
def Mode.ignoreCase (toUppercase : UInt16 → List UInt16) : Mode where
  canonicalize ch :=
    match toUppercase ch with
    | [cu] => if 128 ≤ ch ∧ cu < 128 then ch else cu
    | _ => ch

/-- The end of the match so far, and the captures. -/
structure State where
  endIndex : Nat
  captures : List (Nat × Nat × Nat)

abbrev Continuation := State → Option State

def isLineTerminator (u : UInt16) : Bool := [0xa, 0xd, 0x2028, 0x2029].contains u

def ClassItem.contains (mode : Mode) (item : ClassItem) (u : UInt16) : Bool :=
  (item.ranges.any fun range => (List.range (range.2.toNat - range.1.toNat + 1)).any fun i =>
    mode.canonicalize (UInt16.ofNat (range.1.toNat + i)) == mode.canonicalize u) != item.negated

def isWordUnit (us : List UInt16) (i : Nat) : Bool :=
  us[i]?.any fun u => (wordItem false).contains ⟨id⟩ u

/-- One unit that passes a test. -/
def matchUnit (input : List UInt16) (test : UInt16 → Bool) (c : Continuation) (x : State) : Option State :=
  match input[x.endIndex]? with
  | some u => if test u then c { x with endIndex := x.endIndex + 1 } else none
  | none => none

/-- The groups whose parentheses stand in a node. -/
def Node.groups : Node → List Nat
  | .group index body => index :: body.groups
  | .seq a b | .alt a b => a.groups ++ b.groups
  | .repeat body _ _ _ | .lookahead _ body => body.groups
  | .empty | .char _ | .any | .cls _ _ | .backreference _ | .lineStart | .lineEnd | .wordBoundary _ => []

/-- Repetitions of a matcher. A repetition beyond the minimum has to take something. -/
def repeatMatcher (m : Continuation → State → Option State) (groups : List Nat) (greedy : Bool) :
    Nat → Nat → Option Nat → Continuation → State → Option State
  | 0, _, _, _, _ => none
  | fuel + 1, min, max, c, x =>
    if max = some 0 then c x
    else
      let again : Continuation := fun y =>
        if min = 0 ∧ y.endIndex = x.endIndex then none
        else repeatMatcher m groups greedy fuel (min - 1) (max.map (· - 1)) c y
      let cleared := { x with captures := x.captures.filter fun capture => !groups.contains capture.1 }
      if min ≠ 0 then m again cleared
      else if greedy then (m again cleared).or (c x)
      else (c x).or (m again cleared)

/-- The text of a capture stands again. -/
def matchAgain (mode : Mode) (input : List UInt16) (range : Nat × Nat) (c : Continuation) (x : State) :
    Option State :=
  let length := range.2 - range.1
  if x.endIndex + length ≤ input.length ∧
      (List.range length).all fun i => (input[range.1 + i]?).map mode.canonicalize =
        (input[x.endIndex + i]?).map mode.canonicalize
  then c { x with endIndex := x.endIndex + length } else none

def matcher (mode : Mode) (input : List UInt16) : Node → Continuation → State → Option State
  | .empty, c, x => c x
  | .char u, c, x => matchUnit input (fun v => mode.canonicalize u == mode.canonicalize v) c x
  | .any, c, x => matchUnit input (fun v => !isLineTerminator v) c x
  | .cls negated items, c, x => matchUnit input (fun v => items.any (·.contains mode v) != negated) c x
  | .seq a b, c, x => matcher mode input a (fun y => matcher mode input b c y) x
  | .alt a b, c, x => (matcher mode input a c x).or (matcher mode input b c x)
  | .repeat body min max greedy, c, x =>
    repeatMatcher (matcher mode input body) body.groups greedy (min + (input.length - x.endIndex) + 1) min max c x
  | .group index body, c, x =>
    matcher mode input body (fun y => c { y with captures := (index, x.endIndex, y.endIndex) :: y.captures }) x
  | .backreference index, c, x =>
    match x.captures.find? fun capture => capture.1 == index with
    | some capture => matchAgain mode input capture.2 c x
    | none => c x
  | .lookahead negated body, c, x =>
    match matcher mode input body some x with
    | some y => if negated then none else c { x with captures := y.captures }
    | none => if negated then c x else none
  | .lineStart, c, x => if x.endIndex = 0 then c x else none
  | .lineEnd, c, x => if x.endIndex = input.length then c x else none
  | .wordBoundary negated, c, x =>
    let before := decide (0 < x.endIndex) && isWordUnit input (x.endIndex - 1)
    if (before != isWordUnit input x.endIndex) != negated then c x else none

/-- The end of the match that begins at a position. -/
def matchAt (mode : Mode) (node : Node) (input : List UInt16) (i : Nat) : Option Nat :=
  (matcher mode input node some ⟨i, []⟩).map State.endIndex

/-- The first match, with its end. -/
def exec (mode : Mode) (node : Node) (input : List UInt16) : Option (Nat × Nat) :=
  (List.range (input.length + 1)).findSome? fun i => (matchAt mode node input i).map (i, ·)

/-! ## Literal patterns -/

/-- The text stands in the input at a position. -/
def OccursAt (mode : Mode) (text input : List UInt16) (i : Nat) : Prop :=
  text.map mode.canonicalize <+: (input.drop i).map mode.canonicalize

instance (mode : Mode) (text input : List UInt16) (i : Nat) : Decidable (OccursAt mode text input i) := by
  unfold OccursAt
  infer_instance

variable {mode : Mode} {text input : List UInt16}

theorem occursAt_cons {u : UInt16} {i : Nat} :
    OccursAt mode (u :: text) input i ↔
      (∃ v, input[i]? = some v ∧ mode.canonicalize u = mode.canonicalize v) ∧ OccursAt mode text input (i + 1) := by
  unfold OccursAt
  rw [← List.drop_drop]
  cases hdrop : input.drop i with
  | nil =>
    have hnone : input[i]? = none := List.getElem?_eq_none (List.drop_eq_nil_iff.1 hdrop)
    simp [hnone]
  | cons v rest =>
    have hsome : input[i]? = some v := by
      rw [← List.head?_drop, hdrop, List.head?_cons]
    simp [hsome, List.cons_prefix_cons]

/-- A literal pattern takes its text, and leaves the rest to what follows. -/
theorem matcher_literal (text : List UInt16) (c : Continuation) (x : State) :
    matcher mode input (literal text) c x =
      if OccursAt mode text input x.endIndex then c { x with endIndex := x.endIndex + text.length } else none := by
  induction text generalizing x with
  | nil => simp [literal, matcher, OccursAt]
  | cons u us ih =>
    rw [literal, matcher, matcher, matchUnit]
    cases hu : input[x.endIndex]? with
    | none =>
      rw [if_neg]
      rw [occursAt_cons, hu]
      rintro ⟨⟨v, hv, -⟩, -⟩
      cases hv
    | some v =>
      by_cases hsame : mode.canonicalize u = mode.canonicalize v
      · have hocc : OccursAt mode (u :: us) input x.endIndex ↔ OccursAt mode us input (x.endIndex + 1) := by
          rw [occursAt_cons, hu]
          simp [hsame]
        simp only [hsame, beq_self_eq_true, if_true, ih, hocc, List.length_cons]
        rw [show x.endIndex + 1 + us.length = x.endIndex + (us.length + 1) by omega]
      · rw [if_neg]
        · simp [hsame]
        · rw [occursAt_cons, hu]
          rintro ⟨⟨w, hw, h⟩, -⟩
          cases hw
          exact hsame h

theorem matchAt_literal (text input : List UInt16) (i : Nat) :
    matchAt mode (literal text) input i = if OccursAt mode text input i then some (i + text.length) else none := by
  rw [matchAt, matcher_literal]
  split_ifs <;> rfl

theorem findSome?_range_eq_some {α : Type} {f : Nat → Option α} {n : Nat} {a : α} :
    (List.range n).findSome? f = some a ↔ ∃ i < n, f i = some a ∧ ∀ k < i, f k = none := by
  induction n with
  | zero => simp
  | succ n ih =>
    rw [List.range_succ, List.findSome?_append, Option.or_eq_some_iff, ih, List.findSome?_eq_none_iff]
    simp only [List.mem_range, List.findSome?_singleton]
    constructor
    · rintro (⟨i, hi, h⟩ | ⟨hnone, h⟩)
      · exact ⟨i, by omega, h⟩
      · exact ⟨n, by omega, h, hnone⟩
    · rintro ⟨i, hi, h, hnone⟩
      rcases Nat.lt_or_ge i n with hlt | hge
      · exact .inl ⟨i, hlt, h, hnone⟩
      · obtain rfl : i = n := by omega
        exact .inr ⟨hnone, h⟩

/-- The first match of a literal pattern is the first place of its text. -/
theorem exec_literal {i j : Nat} :
    exec mode (literal text) input = some (i, j) ↔
      OccursAt mode text input i ∧ i ≤ input.length ∧ j = i + text.length ∧
        ∀ k < i, ¬ OccursAt mode text input k := by
  have hmatch (k : Nat) : (matchAt mode (literal text) input k).map (k, ·) =
      if OccursAt mode text input k then some (k, k + text.length) else none := by
    rw [matchAt_literal]
    split_ifs <;> rfl
  have hnone (k : Nat) : (if OccursAt mode text input k then some (k, k + text.length) else none) = none ↔
      ¬ OccursAt mode text input k := by
    split_ifs with h <;> simp [h]
  simp only [exec, hmatch, findSome?_range_eq_some, hnone]
  constructor
  · rintro ⟨k, hk, hsome, hbefore⟩
    split_ifs at hsome with hoccurs
    cases hsome
    exact ⟨hoccurs, by omega, rfl, hbefore⟩
  · rintro ⟨hoccurs, hle, rfl, hbefore⟩
    exact ⟨i, by omega, by rw [if_pos hoccurs], hbefore⟩

end Regex
