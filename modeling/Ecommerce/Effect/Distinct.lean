import Ecommerce.Effect.Collection

/-!
# Unique indexes

A field, or a tuple of fields, of which no two documents of a collection have the same value.
-/

namespace Effect

open Keyed

variable {α β : Type} [Keyed α]

namespace Collection

/-- No two documents agree on the field. -/
def DistinctBy (f : α → β) (c : Collection α) : Prop :=
  ∀ a ∈ c.docs, ∀ b ∈ c.docs, f a = f b → key a = key b

variable {f : α → β} {c : Collection α}

theorem DistinctBy.insert (h : c.DistinctBy f) {a : α} (hkey : key a = c.next)
    (hnew : ∀ b ∈ c.docs, f b ≠ f a) : (c.insert a hkey).DistinctBy f := by
  intro x hx y hy hxy
  rcases mem_insert.1 hx with hx | hx <;> rcases mem_insert.1 hy with hy | hy
  · exact h x hx y hy hxy
  · exact absurd (hy ▸ hxy) (hnew x hx)
  · exact absurd (hx ▸ hxy.symm) (hnew y hy)
  · rw [hx, hy]

theorem DistinctBy.modify (h : c.DistinctBy f) {p : α → Bool} {g : Patch α}
    (hg : ∀ a, f (g.run a) = f a) : (c.modify p g).DistinctBy f := by
  have hsame : ∀ a, f (if p a then g.run a else a) = f a ∧ key (if p a then g.run a else a) = key a := by
    intro a
    split
    · exact ⟨hg a, g.key_run a⟩
    · exact ⟨rfl, rfl⟩
  intro x hx y hy hxy
  obtain ⟨a, ha, rfl⟩ := mem_modify.1 hx
  obtain ⟨b, hb, rfl⟩ := mem_modify.1 hy
  rw [(hsame a).1, (hsame b).1] at hxy
  rw [(hsame a).2, (hsame b).2]
  exact h a ha b hb hxy

theorem DistinctBy.erase (h : c.DistinctBy f) {i : Nat} : (c.erase i).DistinctBy f :=
  fun x hx y hy hxy => h x (mem_erase.1 hx).1 y (mem_erase.1 hy).1 hxy

end Collection
end Effect
