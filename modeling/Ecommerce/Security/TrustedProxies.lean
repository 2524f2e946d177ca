import Ecommerce.Model.TrustProxy
import Ecommerce.Network.Cover
import Ecommerce.Security.PrivateAddresses

/-!
# Whom a list of proxies trusts

An entry covers the addresses of a block. A list that is accepted may cover all of them: whether it does is
a matter of the sizes of its outermost blocks.
-/

namespace Ecommerce

open Network

/-! ## Reading addresses -/

/-- The address that a dotted quad writes. -/
def readV4 (address : List Char) : BitVec 32 := toUint32 (ipv4ToInt address)

/-- The address that colon-separated groups write, without the zone. -/
def readV6 (address : List Char) : BitVec 128 :=
  BitVec.ofNat 128 ((ipv6Groups (address.takeWhile (· ≠ '%'))).foldl
    (fun n group => n * 65536 + (group.getD 0).toNat) 0)

theorem WritesV6.readV6 {text : List Char} {a : BitVec 128} (h : WritesV6 text a) : readV6 text = a := by
  have hzone : text.takeWhile (· ≠ '%') = text := by
    refine List.takeWhile_eq_self_iff.2 fun c hc => ?_
    have hne : c ≠ '%' := fun heq => GroupsText.no_zone h (heq ▸ hc)
    simpa using hne
  have hgroups : ipv6Groups text = groupValues (v6Groups a) := GroupsText.ipv6Groups h
  have hlt := a.isLt
  rw [Ecommerce.readV6, hzone, hgroups]
  apply BitVec.eq_of_toNat_eq
  simp only [groupValues, v6Groups, List.map_cons, List.map_nil, List.foldl_cons, List.foldl_nil,
    Option.getD_some, Int.toNat_natCast, BitVec.toNat_ofNat]
  omega

/-! ## Coverage -/

/-- What the names of `TRUST_PROXY_PRESETS` stand for. -/
structure ProxyPresets where
  v4 : String → List (Block 32)
  v6 : String → List (Block 128)

/-- The block that an address or a subnet of a version stands for. -/
def subnetOf {w : Nat} (version : Nat) (read : List Char → BitVec w) (entry : String) : Option (Block w) :=
  match entry.toList.splitOn '/' with
  | [address] => if isIP address = version then some ⟨read address, w⟩ else none
  | [address, bits] =>
    if isIP address = version then (readDigits 10 0 bits).map fun n => ⟨read address, n⟩ else none
  | _ => none

/-- The blocks of IPv4 addresses that an entry covers. -/
def v4Blocks (presets : ProxyPresets) (entry : String) : List (Block 32) :=
  if entry ∈ TRUST_PROXY_PRESETS then presets.v4 entry else (subnetOf 4 readV4 entry).toList

/-- The blocks of IPv6 addresses that an entry covers. -/
def v6Blocks (presets : ProxyPresets) (entry : String) : List (Block 128) :=
  if entry ∈ TRUST_PROXY_PRESETS then presets.v6 entry else (subnetOf 6 readV6 entry).toList

def CoversV4 (presets : ProxyPresets) (entry : String) (a : BitVec 32) : Prop :=
  ∃ block ∈ v4Blocks presets entry, block.Contains a

def CoversV6 (presets : ProxyPresets) (entry : String) (a : BitVec 128) : Prop :=
  ∃ block ∈ v6Blocks presets entry, block.Contains a

theorem isIP_cases (text : List Char) : isIP text = 0 ∨ isIP text = 4 ∨ isIP text = 6 := by
  rw [isIP]
  split
  · exact .inr (.inl rfl)
  · split <;> (try split) <;> simp

/-- An address or a subnet that is accepted stands for a block of one of the versions. -/
theorem subnetOf_of_isAddressOrSubnet {entry : String} (h : isAddressOrSubnet entry = true) :
    (∃ block, subnetOf 4 readV4 entry = some block ∧ block.bits ≤ 32) ∨
      ∃ block, subnetOf 6 readV6 entry = some block ∧ block.bits ≤ 128 := by
  simp only [isAddressOrSubnet] at h
  split at h
  · next address hsplit =>
    simp only [subnetOf, hsplit]
    obtain hversion | hversion | hversion := isIP_cases address
    · simp [hversion] at h
    · exact .inl ⟨⟨readV4 address, 32⟩, by simp [hversion], le_rfl⟩
    · exact .inr ⟨⟨readV6 address, 128⟩, by simp [hversion], le_rfl⟩
  · next address bits hsplit =>
    simp only [subnetOf, hsplit]
    simp only [Bool.and_eq_true, Option.any_eq_true, decide_eq_true_eq] at h
    obtain ⟨⟨hvalid, -⟩, n, hn, hle⟩ := h
    obtain hversion | hversion | hversion := isIP_cases address
    · simp [hversion] at hvalid
    · exact .inl ⟨⟨readV4 address, n⟩, by simp [hversion, hn], by simpa [hversion] using hle⟩
    · exact .inr ⟨⟨readV6 address, n⟩, by simp [hversion, hn], by simpa [hversion] using hle⟩
  · cases h

/-- The entries of a list that is accepted. -/
theorem entries_of_parseTrustProxy {raw : String} {entries : List String}
    (h : parseTrustProxy raw = .list entries) :
    ∀ entry ∈ entries, entry ∈ TRUST_PROXY_PRESETS ∨ isAddressOrSubnet entry = true := by
  simp only [parseTrustProxy] at h
  split_ifs at h with _ _ _ _ hvalid
  obtain rfl := TrustProxy.list.inj h
  intro entry hentry
  have hnot := List.filter_eq_nil_iff.1 (List.isEmpty_iff.1 hvalid) entry hentry
  by_cases hpreset : entry ∈ TRUST_PROXY_PRESETS
  · exact .inl hpreset
  · refine .inr ?_
    simpa [hpreset] using hnot

theorem exists_uncovered_iff {w : Nat} (blocks : String → List (Block w)) (entries : List String) :
    (∃ a : BitVec w, ∀ entry ∈ entries, ¬ ∃ block ∈ blocks entry, block.Contains a) ↔
      ((outermost (entries.flatMap blocks)).map Block.size).sum < 2 ^ w := by
  rw [← exists_not_contains_iff]
  refine exists_congr fun a => ⟨fun h block hblock hcontains => ?_, fun h entry hentry => ?_⟩
  · obtain ⟨entry, hentry, hmem⟩ := List.mem_flatMap.1 hblock
    exact h entry hentry ⟨block, hmem, hcontains⟩
  · rintro ⟨block, hblock, hcontains⟩
    exact h block (List.mem_flatMap.2 ⟨entry, hentry, hblock⟩) hcontains

/-- A list that is accepted has presets, addresses and subnets as entries. It leaves an address of each
version uncovered just when the sizes of the outermost blocks that it names, of either version, add up to
less than the number of addresses. -/
theorem trusted_proxies (presets : ProxyPresets) (raw : String) (entries : List String)
    (haccepted : parseTrustProxy raw = .list entries) :
    (∀ entry ∈ entries, entry ∈ TRUST_PROXY_PRESETS ∨
      (∃ block, subnetOf 4 readV4 entry = some block ∧ block.bits ≤ 32) ∨
      ∃ block, subnetOf 6 readV6 entry = some block ∧ block.bits ≤ 128) ∧
    ((∃ a, ∀ entry ∈ entries, ¬ CoversV4 presets entry a) ∧ (∃ a, ∀ entry ∈ entries, ¬ CoversV6 presets entry a) ↔
      ((outermost (entries.flatMap (v4Blocks presets))).map Block.size).sum < 2 ^ 32 ∧
        ((outermost (entries.flatMap (v6Blocks presets))).map Block.size).sum < 2 ^ 128) := by
  refine ⟨fun entry hentry => ?_, ?_⟩
  · exact (entries_of_parseTrustProxy haccepted entry hentry).imp_right subnetOf_of_isAddressOrSubnet
  · exact and_congr (exists_uncovered_iff (v4Blocks presets) entries)
      (exists_uncovered_iff (v6Blocks presets) entries)

/-- The ranges of the presets, as the documentation of `trust proxy` lists them. -/
def documentedPresets : ProxyPresets where
  v4
    | "loopback" => [⟨0x7f000001, 8⟩]
    | "linklocal" => [⟨0xa9fe0000, 16⟩]
    | "uniquelocal" => [⟨0x0a000000, 8⟩, ⟨0xac100000, 12⟩, ⟨0xc0a80000, 16⟩]
    | _ => []
  v6
    | "loopback" => [⟨1, 128⟩]
    | "linklocal" => [⟨0xfe800000000000000000000000000000, 10⟩]
    | "uniquelocal" => [⟨0xfc000000000000000000000000000000, 7⟩]
    | _ => []

/-- A list of proxies near the server trusts some addresses only. -/
theorem trusted_proxies_local :
    ∃ a, ∀ entry ∈ ["loopback", "10.0.0.0/8", "fd00::/8", "192.0.2.1"], ¬ CoversV4 documentedPresets entry a :=
  ((trusted_proxies documentedPresets "Loopback, 10.0.0.0/8, fd00::/8, 192.0.2.1" _
    (by decide +kernel)).2.2 (by decide +kernel)).1

/-- The subnet of all IPv4 addresses is accepted. -/
theorem trusted_proxies_everyone :
    parseTrustProxy "0.0.0.0/0" = .list ["0.0.0.0/0"] ∧
      ¬ ∃ a, ∀ entry ∈ ["0.0.0.0/0"], ¬ CoversV4 documentedPresets entry a := by
  refine ⟨by decide +kernel, ?_⟩
  rintro ⟨a, ha⟩
  have hall : (v4Blocks documentedPresets "0.0.0.0/0").any (·.bits == 0) := by decide +kernel
  obtain ⟨block, hblock, hbits⟩ := List.any_eq_true.1 hall
  refine ha "0.0.0.0/0" (List.mem_singleton_self _) ⟨block, hblock, ?_⟩
  have hbase := block.base.isLt
  have haddress := a.isLt
  rw [Block.Contains, beq_iff_eq.1 hbits, Nat.div_eq_of_lt haddress, Nat.div_eq_of_lt hbase]

end Ecommerce
