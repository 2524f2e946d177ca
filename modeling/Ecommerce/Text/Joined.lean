import Mathlib.Data.List.Count

/-!
# Joined fields

Texts that are made by writing fields one after the other with a separator between them. The text
alone does not say where one field ends, since a field may hold the separator. It does once it is
known how often each field but the last holds it.

## Main definitions

* `joined sep fields last` — the fields, each followed by the separator, and then the last field.
-/

namespace Text

variable {α : Type*} {sep : α} {fs gs : List (List α)} {a a' b b' : List α}

/-- The fields, each followed by the separator, and then the last field. -/
def joined (sep : α) (fields : List (List α)) (last : List α) : List α :=
  fields.foldr (fun f rest => f ++ sep :: rest) last

@[simp] theorem joined_nil : joined sep [] b = b := rfl

@[simp] theorem joined_cons : joined sep (a :: fs) b = a ++ sep :: joined sep fs b := rfl

variable [DecidableEq α]

/-- Two splits of one text whose left parts hold the separator equally often are the same. -/
theorem append_cons_inj (h : a ++ sep :: b = a' ++ sep :: b')
    (hc : a.count sep = a'.count sep) : a = a' ∧ b = b' := by
  obtain ⟨c, rfl, hb⟩ | ⟨c, rfl, hb⟩ := List.append_eq_append_iff.1 h
  · cases c with
    | nil => simpa using hb
    | cons x c =>
      obtain ⟨rfl, -⟩ := List.cons.inj hb
      simp at hc
  · cases c with
    | nil => simpa using hb.symm
    | cons x c =>
      obtain ⟨rfl, -⟩ := List.cons.inj hb
      simp at hc

/-- The fields of a joined text, from the number of separators in each of them. -/
theorem joined_inj (h : joined sep fs b = joined sep gs b')
    (hc : fs.map (List.count sep) = gs.map (List.count sep)) : fs = gs ∧ b = b' := by
  induction fs generalizing gs with
  | nil =>
    obtain rfl : gs = [] := List.map_eq_nil_iff.1 hc.symm
    exact ⟨rfl, h⟩
  | cons f fs ih =>
    obtain _ | ⟨g, gs⟩ := gs
    · simp at hc
    obtain ⟨hf, hrest⟩ := List.cons.inj hc
    obtain ⟨rfl, ht⟩ := append_cons_inj h hf
    obtain ⟨rfl, rfl⟩ := ih ht hrest
    exact ⟨rfl, rfl⟩

end Text
