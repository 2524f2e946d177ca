import Ecommerce.Network.Blocks
import Mathlib.Data.Finset.Card
import Mathlib.Order.Interval.Finset.Nat

/-!
# Covering all addresses

Two blocks are nested or have no address in common. So the blocks of a list cover every address just when
the sizes of the outermost ones add up to the number of addresses.

## Main definitions

* `Block.size` — the number of addresses of a block.
* `Block.Within` — a block lies in another one.
* `outermost` — the blocks of a list that lie in no other one, each once.
-/

namespace Network

variable {w : Nat} {b c : Block w} {a : BitVec w} {bs : List (Block w)}

namespace Block

/-- The number of addresses. -/
def size (b : Block w) : Nat := 2 ^ (w - b.bits)

/-- The base begins like that of a shorter prefix. -/
def Within (b c : Block w) : Prop := c.bits ≤ b.bits ∧ c.Contains b.base

instance (b c : Block w) : Decidable (b.Within c) := by
  unfold Within
  infer_instance

/-- Vectors with a prefix in common have the shorter ones in common. -/
theorem div_eq_of_le {m n k l : Nat} (hle : k ≤ l) (h : m / 2 ^ k = n / 2 ^ k) : m / 2 ^ l = n / 2 ^ l := by
  obtain ⟨d, rfl⟩ := Nat.exists_eq_add_of_le hle
  rw [Nat.pow_add, ← Nat.div_div_eq_div_mul, h, Nat.div_div_eq_div_mul]

theorem Within.contains (h : b.Within c) (ha : b.Contains a) : c.Contains a :=
  (div_eq_of_le (Nat.sub_le_sub_left h.1 w) ha).trans h.2

theorem Within.trans {d : Block w} (hbc : b.Within c) (hcd : c.Within d) : b.Within d :=
  ⟨hcd.1.trans hbc.1, hcd.contains hbc.2⟩

/-- Blocks with an address in common are nested. -/
theorem within_of_common (hbits : c.bits ≤ b.bits) (hb : b.Contains a) (hc : c.Contains a) : b.Within c := by
  refine ⟨hbits, ?_⟩
  have hprefix : a.toNat / 2 ^ (w - c.bits) = b.base.toNat / 2 ^ (w - c.bits) :=
    div_eq_of_le (Nat.sub_le_sub_left hbits w) hb
  exact hprefix.symm.trans hc

/-- The addresses, as numbers. -/
def addresses (b : Block w) : Finset Nat :=
  Finset.Ico (b.base.toNat / b.size * b.size) (b.base.toNat / b.size * b.size + b.size)

theorem size_pos (b : Block w) : 0 < b.size := Nat.two_pow_pos _

theorem mem_addresses {n : Nat} : n ∈ b.addresses ↔ n / b.size = b.base.toNat / b.size := by
  have hpos := b.size_pos
  rw [addresses, Finset.mem_Ico, Nat.div_eq_iff hpos]
  omega

@[simp] theorem card_addresses (b : Block w) : b.addresses.card = b.size := by
  simp [addresses]

theorem addresses_subset (b : Block w) : b.addresses ⊆ Finset.range (2 ^ w) := by
  intro n hn
  rw [mem_addresses] at hn
  have hsplit : 2 ^ w = b.size * 2 ^ (w - (w - b.bits)) := by
    rw [size, ← Nat.pow_add, Nat.add_sub_cancel' (Nat.sub_le w b.bits)]
  have hbase : b.base.toNat / b.size < 2 ^ (w - (w - b.bits)) := by
    rw [Nat.div_lt_iff_lt_mul b.size_pos, Nat.mul_comm, ← hsplit]
    exact b.base.isLt
  rw [Finset.mem_range, hsplit, Nat.mul_comm, ← Nat.div_lt_iff_lt_mul b.size_pos, hn]
  exact hbase

theorem toNat_mem_addresses : a.toNat ∈ b.addresses ↔ b.Contains a := mem_addresses

theorem disjoint_addresses (h : ¬ b.Within c ∧ ¬ c.Within b) : Disjoint b.addresses c.addresses := by
  refine Finset.disjoint_left.2 fun n hb hc => ?_
  have hlt : n < 2 ^ w := Finset.mem_range.1 (b.addresses_subset hb)
  have hnat : (BitVec.ofNat w n).toNat = n := by rw [BitVec.toNat_ofNat, Nat.mod_eq_of_lt hlt]
  rw [← hnat, toNat_mem_addresses] at hb hc
  obtain hle | hle := Nat.le_total c.bits b.bits
  · exact h.1 (within_of_common hle hb hc)
  · exact h.2 (within_of_common hle hc hb)

end Block

/-- The blocks that lie in no other one. -/
def outermost : List (Block w) → List (Block w)
  | [] => []
  | b :: bs =>
    if (outermost bs).any fun c => b.Within c then outermost bs
    else b :: (outermost bs).filter fun c => ¬ c.Within b

/-- They cover the same addresses. -/
theorem exists_outermost (bs : List (Block w)) (a : BitVec w) :
    (∃ b ∈ outermost bs, b.Contains a) ↔ ∃ b ∈ bs, b.Contains a := by
  induction bs with
  | nil => rfl
  | cons b bs ih =>
    have hcons : (∃ c ∈ b :: bs, c.Contains a) ↔ b.Contains a ∨ ∃ c ∈ outermost bs, c.Contains a := by
      rw [ih]
      simp
    rw [hcons, outermost]
    split
    · next hinside =>
      obtain ⟨c, hc, hwithin⟩ := List.any_eq_true.1 hinside
      have hb : b.Contains a → ∃ b ∈ outermost bs, b.Contains a := fun hb =>
        ⟨c, hc, (of_decide_eq_true hwithin).contains hb⟩
      exact ⟨.inr, fun h => h.elim hb id⟩
    · constructor
      · rintro ⟨c, hc, ha⟩
        obtain rfl | hc := List.mem_cons.1 hc
        · exact .inl ha
        · exact .inr ⟨c, List.mem_of_mem_filter hc, ha⟩
      · rintro (hb | ⟨c, hc, ha⟩)
        · exact ⟨b, List.mem_cons_self, hb⟩
        · by_cases hwithin : c.Within b
          · exact ⟨b, List.mem_cons_self, hwithin.contains ha⟩
          · have hkept : c ∈ (outermost bs).filter fun c => ¬ c.Within b :=
              List.mem_filter.2 ⟨hc, by simpa using hwithin⟩
            exact ⟨c, List.mem_cons_of_mem _ hkept, ha⟩

/-- None of them lies in another one. -/
theorem pairwise_outermost (bs : List (Block w)) :
    (outermost bs).Pairwise fun b c => ¬ b.Within c ∧ ¬ c.Within b := by
  induction bs with
  | nil => exact .nil
  | cons b bs ih =>
    rw [outermost]
    split
    · exact ih
    · next hnone =>
      refine List.pairwise_cons.2 ⟨fun c hc => ?_, ih.filter _⟩
      obtain ⟨hmem, hout⟩ := List.mem_filter.1 hc
      refine ⟨fun hwithin => hnone ?_, by simpa using hout⟩
      exact List.any_eq_true.2 ⟨c, hmem, by simpa using hwithin⟩

/-- The addresses of all blocks, as numbers. -/
def allAddresses : List (Block w) → Finset Nat
  | [] => ∅
  | b :: bs => b.addresses ∪ allAddresses bs

theorem mem_allAddresses {n : Nat} : n ∈ allAddresses bs ↔ ∃ b ∈ bs, n ∈ b.addresses := by
  induction bs with
  | nil => simp [allAddresses]
  | cons b bs ih => simp [allAddresses, ih]

theorem allAddresses_subset (bs : List (Block w)) : allAddresses bs ⊆ Finset.range (2 ^ w) := by
  intro n hn
  obtain ⟨b, -, hb⟩ := mem_allAddresses.1 hn
  exact b.addresses_subset hb

/-- Blocks apart from each other have as many addresses as their sizes say. -/
theorem card_allAddresses (h : bs.Pairwise fun b c => ¬ b.Within c ∧ ¬ c.Within b) :
    (allAddresses bs).card = (bs.map Block.size).sum := by
  induction bs with
  | nil => rfl
  | cons b bs ih =>
    obtain ⟨hb, hbs⟩ := List.pairwise_cons.1 h
    have hdisjoint : Disjoint b.addresses (allAddresses bs) := by
      refine Finset.disjoint_left.2 fun n hn hrest => ?_
      obtain ⟨c, hc, hnc⟩ := mem_allAddresses.1 hrest
      exact Finset.disjoint_left.1 (Block.disjoint_addresses (hb c hc)) hn hnc
    rw [allAddresses, Finset.card_union_of_disjoint hdisjoint, ih hbs, Block.card_addresses, List.map_cons,
      List.sum_cons]

/-- Some address is in no block just when the sizes of the outermost blocks fall short of the number of
addresses. -/
theorem exists_not_contains_iff (bs : List (Block w)) :
    (∃ a : BitVec w, ∀ b ∈ bs, ¬ b.Contains a) ↔ ((outermost bs).map Block.size).sum < 2 ^ w := by
  have hsubset := allAddresses_subset (outermost bs)
  rw [← card_allAddresses (pairwise_outermost bs)]
  constructor
  · rintro ⟨a, ha⟩
    have hnot : a.toNat ∉ allAddresses (outermost bs) := by
      intro hmem
      obtain ⟨b, hb, hcontains⟩ := mem_allAddresses.1 hmem
      obtain ⟨c, hc, hca⟩ := (exists_outermost bs a).1 ⟨b, hb, Block.toNat_mem_addresses.1 hcontains⟩
      exact ha c hc hca
    have hmore := Finset.card_lt_card (Finset.ssubset_iff_subset_ne.2
      ⟨hsubset, fun heq => hnot (heq ▸ Finset.mem_range.2 a.isLt)⟩)
    simpa using hmore
  · intro hless
    obtain ⟨n, hn, hnot⟩ := Finset.exists_mem_notMem_of_card_lt_card (hless.trans_eq (Finset.card_range _).symm)
    have hnat : (BitVec.ofNat w n).toNat = n := by
      rw [BitVec.toNat_ofNat, Nat.mod_eq_of_lt (Finset.mem_range.1 hn)]
    refine ⟨BitVec.ofNat w n, fun b hb hcontains => hnot ?_⟩
    obtain ⟨c, hc, hca⟩ := (exists_outermost bs _).2 ⟨b, hb, hcontains⟩
    rw [← Block.toNat_mem_addresses, hnat] at hca
    exact mem_allAddresses.2 ⟨c, hc, hca⟩

end Network
