import Ecommerce.Model.Products
import Ecommerce.Regex.Match

/-!
# Searching for a text

The characters that the service escapes are those with a meaning of their own in a pattern, so that the
pattern of a search is the text itself, wherever the text is cut.
-/

namespace Ecommerce

open Regex

theorem escapePattern_eq (text : List UInt16) : escapePattern text = escape text := by
  have hclass : syntaxChars.Forall (· ∈ utf16 ".*+?^$\x7b\x7d()|[]\\".toList) := by decide
  have hspecial : (utf16 ".*+?^$\x7b\x7d()|[]\\".toList).Forall (· ∈ syntaxChars) := by decide
  have hsame (u : UInt16) :
      (utf16 ".*+?^$\x7b\x7d()|[]\\".toList).contains u = syntaxChars.contains u := by
    rw [Bool.eq_iff_iff, List.contains_iff_mem, List.contains_iff_mem]
    exact ⟨List.forall_iff_forall_mem.1 hspecial u, List.forall_iff_forall_mem.1 hclass u⟩
  simp only [escapePattern, escape, hsame]
  rfl

/-- `new RegExp(source, "i").exec(text)`, with the place of the match and its end. -/
def execPattern (toUppercase : UInt16 → List UInt16) (source text : List UInt16) : Option (Nat × Nat) :=
  (parsePattern source).bind fun node => exec (.ignoreCase toUppercase) node text

/-- The pattern of a search text is well formed and denotes its first hundred units one after the other, so
that its matches are the places where these units stand, up to their case. -/
theorem search_literal (toUppercase : UInt16 → List UInt16) (q : List UInt16) :
    parsePattern (searchPattern q) = some (literal (q.take 100)) ∧
    (∀ text i, matchAt (.ignoreCase toUppercase) (literal (q.take 100)) text i =
      if OccursAt (.ignoreCase toUppercase) (q.take 100) text i then some (i + (q.take 100).length) else none) ∧
    ∀ text i j, execPattern toUppercase (searchPattern q) text = some (i, j) ↔
      OccursAt (.ignoreCase toUppercase) (q.take 100) text i ∧ i ≤ text.length ∧ j = i + (q.take 100).length ∧
        ∀ k < i, ¬ OccursAt (.ignoreCase toUppercase) (q.take 100) text k := by
  have hparse : parsePattern (searchPattern q) = some (literal (q.take 100)) := by
    rw [searchPattern, escapePattern_eq, parsePattern_escape]
  refine ⟨hparse, matchAt_literal (q.take 100), fun text i j => ?_⟩
  rw [execPattern, hparse, Option.bind_some]
  exact exec_literal

end Ecommerce
