import Ecommerce.Security.Digits
import Ecommerce.Network.Blocks

/-!
# IPv4 addresses

The dotted form of an address is the only text that `net.isIP` takes for it, and the mask arithmetic of
`inRange` is membership in a block.
-/

namespace Ecommerce

open Network

theorem v4Bytes_lt (a : BitVec 32) : ∀ n ∈ v4Bytes a, n < 256 := by
  have ha : a.toNat < 2 ^ 32 := a.isLt
  simp only [v4Bytes, List.forall_mem_cons, List.not_mem_nil, false_imp_iff, implies_true, and_true]
  omega

theorem splitOn_dottedV4 (a : BitVec 32) : (dottedV4 a).splitOn '.' = (v4Bytes a).map (Nat.toDigits 10) := by
  refine List.splitOn_intercalate '.' (fun part hpart => ?_) (by simp [v4Bytes])
  obtain ⟨n, -, rfl⟩ := List.mem_map.1 hpart
  exact not_mem_of_isDigits (isDigits_toDigits n) (by decide)

theorem ipv4ToInt_dottedV4 (a : BitVec 32) : ipv4ToInt (dottedV4 a) = some (a.toNat : ℤ) := by
  have hread (n : Nat) : readDigits 10 0 (Nat.toDigits 10 n) = some n :=
    readDigits_toDigits (by decide) (by decide) n
  rw [ipv4ToInt, splitOn_dottedV4]
  simp only [v4Bytes, List.map_cons, List.map_nil, List.foldl_cons, List.foldl_nil, hread, Option.bind_some,
    Option.map_some]
  congr 1
  omega

theorem dottedV4_inj {a b : BitVec 32} (h : dottedV4 a = dottedV4 b) : a = b := by
  have hvalue := congrArg ipv4ToInt h
  rw [ipv4ToInt_dottedV4, ipv4ToInt_dottedV4, Option.some.injEq, Nat.cast_inj] at hvalue
  exact BitVec.eq_of_toNat_eq hvalue

theorem isIPv4_dottedV4 (a : BitVec 32) : isIPv4 (dottedV4 a) = true := by
  rw [isIPv4, splitOn_dottedV4, Bool.and_eq_true, List.all_eq_true]
  refine ⟨by simp [v4Bytes], fun part hpart => ?_⟩
  obtain ⟨n, hn, rfl⟩ := List.mem_map.1 hpart
  exact isDecimalByte_toDigits (v4Bytes_lt a n hn)

theorem eq_dottedV4_of_isIPv4 {text : List Char} (h : isIPv4 text = true) : ∃ a, text = dottedV4 a := by
  rw [isIPv4, Bool.and_eq_true, List.all_eq_true, beq_iff_eq] at h
  obtain ⟨hlength, hbytes⟩ := h
  obtain ⟨p, q, r, s, hparts⟩ : ∃ p q r s, text.splitOn '.' = [p, q, r, s] := by
    generalize text.splitOn '.' = parts at hlength
    match parts with
    | [p, q, r, s] => exact ⟨p, q, r, s, rfl⟩
  rw [hparts] at hbytes
  obtain ⟨k, hk, rfl⟩ := eq_toDigits_of_isDecimalByte (hbytes p (by simp))
  obtain ⟨l, hl, rfl⟩ := eq_toDigits_of_isDecimalByte (hbytes q (by simp))
  obtain ⟨m, hm, rfl⟩ := eq_toDigits_of_isDecimalByte (hbytes r (by simp))
  obtain ⟨n, hn, rfl⟩ := eq_toDigits_of_isDecimalByte (hbytes s (by simp))
  refine ⟨BitVec.ofNat 32 (((k * 256 + l) * 256 + m) * 256 + n), ?_⟩
  have hjoin : ['.'].intercalate (text.splitOn '.') = text := List.intercalate_splitOn '.'
  rw [← hjoin, hparts, dottedV4]
  have hvalue : (BitVec.ofNat 32 (((k * 256 + l) * 256 + m) * 256 + n)).toNat =
      ((k * 256 + l) * 256 + m) * 256 + n := by
    rw [BitVec.toNat_ofNat]
    exact Nat.mod_eq_of_lt (by omega)
  simp only [v4Bytes, hvalue, List.map_cons, List.map_nil]
  congr <;> omega

theorem mem_dottedV4 {a : BitVec 32} {c : Char} (h : c ∈ dottedV4 a) : c = '.' ∨ c.isDigit = true := by
  have hdigits (n : Nat) : c ∈ Nat.toDigits 10 n → c.isDigit = true :=
    Nat.isDigit_of_mem_toDigits (by decide) (by decide)
  simp only [dottedV4, v4Bytes, List.map_cons, List.map_nil, List.intercalate, List.intersperse, List.flatten_cons,
    List.flatten_nil, List.mem_append, List.mem_singleton, List.not_mem_nil, or_false] at h
  grind

/-! ## Blocks -/

@[simp] theorem toUint32_toNat (a : BitVec 32) : toUint32 (some (a.toNat : ℤ)) = a := by
  simp [toUint32]

theorem inRange_dottedV4 (a base : BitVec 32) {bits : Nat} (hbits : bits ≤ 32) :
    inRange (some (a.toNat : ℤ)) (dottedV4 base) bits = true ↔ (⟨base, bits⟩ : Block 32).Contains a := by
  rw [inRange, ipv4ToInt_dottedV4, toUint32_toNat, toUint32_toNat, beq_iff_eq]
  split_ifs with hzero
  · subst hzero
    have ha : a.toNat / 2 ^ 32 = 0 := Nat.div_eq_of_lt a.isLt
    have hb : base.toNat / 2 ^ 32 = 0 := Nat.div_eq_of_lt base.isLt
    simp only [Block.Contains, Nat.sub_zero, ha, hb]
    exact ⟨fun _ => trivial, fun _ => by simp⟩
  · rw [Nat.mod_eq_of_lt (by omega), Block.contains_iff_mask]
    rfl

/-- The address lies in a block of the table. -/
def InPrivateV4 (a : BitVec 32) : Prop :=
  ∃ block : Block 32, (String.ofList (dottedV4 block.base), block.bits) ∈ PRIVATE_V4 ∧ block.Contains a

/-- The table, with its base addresses as numbers. -/
def privateBlocks : List (Block 32) :=
  [⟨0x00000000, 8⟩, ⟨0x0a000000, 8⟩, ⟨0x64400000, 10⟩, ⟨0x7f000000, 8⟩, ⟨0xa9fe0000, 16⟩, ⟨0xac100000, 12⟩,
    ⟨0xc0000000, 24⟩, ⟨0xc0a80000, 16⟩, ⟨0xc6120000, 15⟩, ⟨0xe0000000, 4⟩, ⟨0xf0000000, 4⟩]

theorem PRIVATE_V4_eq :
    PRIVATE_V4 = privateBlocks.map fun block => (String.ofList (dottedV4 block.base), block.bits) := by
  decide +kernel

theorem privateBlocks_bits : ∀ block ∈ privateBlocks, block.bits ≤ 32 := by decide

theorem inPrivateV4_iff {a : BitVec 32} : InPrivateV4 a ↔ ∃ block ∈ privateBlocks, block.Contains a := by
  rw [InPrivateV4, PRIVATE_V4_eq]
  constructor
  · rintro ⟨block, hmem, hcontains⟩
    obtain ⟨other, hother, heq⟩ := List.mem_map.1 hmem
    obtain ⟨htext, hbits⟩ := Prod.mk.inj heq
    have hbase : other.base = block.base := dottedV4_inj (String.ofList_injective htext)
    refine ⟨other, hother, ?_⟩
    rwa [Block.Contains, hbase, hbits]
  · rintro ⟨block, hmem, hcontains⟩
    exact ⟨block, List.mem_map.2 ⟨block, hmem, rfl⟩, hcontains⟩

theorem isPrivateV4_dottedV4 (a : BitVec 32) : isPrivateV4 (dottedV4 a) = true ↔ InPrivateV4 a := by
  rw [isPrivateV4, inPrivateV4_iff, PRIVATE_V4_eq, ipv4ToInt_dottedV4, List.any_eq_true]
  constructor
  · rintro ⟨entry, hentry, hrange⟩
    obtain ⟨block, hmem, rfl⟩ := List.mem_map.1 hentry
    rw [String.toList_ofList, inRange_dottedV4 _ _ (privateBlocks_bits block hmem)] at hrange
    exact ⟨block, hmem, hrange⟩
  · rintro ⟨block, hmem, hcontains⟩
    refine ⟨_, List.mem_map.2 ⟨block, hmem, rfl⟩, ?_⟩
    rw [String.toList_ofList, inRange_dottedV4 _ _ (privateBlocks_bits block hmem)]
    exact hcontains

theorem isPrivateAddress_dottedV4 (a : BitVec 32) : isPrivateAddress (dottedV4 a) = true ↔ InPrivateV4 a := by
  have hversion : isIP (dottedV4 a) = 4 := by rw [isIP, if_pos (isIPv4_dottedV4 a)]
  rw [← isPrivateV4_dottedV4, isPrivateAddress, hversion, if_pos rfl]

end Ecommerce
