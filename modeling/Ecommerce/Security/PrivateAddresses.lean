import Ecommerce.Security.IPv6

/-!
# Private addresses

`ipv6Groups` reads the eight groups of every text of an IPv6 address: a dotted quad is rewritten to two
groups in place, and the double colon is filled with zeros. So `isPrivateAddress` depends on the address
alone.
-/

namespace Ecommerce

/-! ## Dotted quads -/

theorem trailingQuad_none {text : List Char} (h : '.' ∉ text) : trailingQuad text = none := by
  induction text with
  | nil => rfl
  | cons c cs ih =>
    obtain ⟨-, hcs⟩ := not_or.1 (mt List.mem_cons.2 h)
    rw [trailingQuad, List.splitOn_eq_singleton h, if_neg (by simp), ih hcs]

theorem mem_of_all_isDigits {text : List Char} (h : (text.splitOn '.').all isDigits = true) {c : Char}
    (hc : c ∈ text) : c = '.' ∨ c.isDigit = true := by
  have hjoin : ['.'].intercalate (text.splitOn '.') = text := List.intercalate_splitOn '.'
  rw [← hjoin] at hc
  generalize text.splitOn '.' = parts at h hc
  rw [List.all_eq_true] at h
  induction parts with
  | nil => cases hc
  | cons part parts ih =>
    have hpart : c ∈ part → c.isDigit = true := by
      intro hmem
      have hdigits := h part List.mem_cons_self
      rw [isDigits, Bool.and_eq_true, List.all_eq_true] at hdigits
      exact hdigits.2 c hmem
    cases parts with
    | nil => exact .inr (hpart (by simpa using hc))
    | cons next parts =>
      rw [List.intercalate_cons_cons, List.mem_append, List.mem_append, List.mem_singleton] at hc
      rcases hc with (hc | hc) | hc
      · exact .inr (hpart hc)
      · exact .inl hc
      · exact ih (fun p hp => h p (List.mem_cons_of_mem _ hp)) hc

theorem dottedV4_ne_nil (a : BitVec 32) : dottedV4 a ≠ [] := by
  intro hnil
  have hparts := splitOn_dottedV4 a
  rw [hnil] at hparts
  simp [v4Bytes] at hparts

theorem dot_mem_dottedV4 (a : BitVec 32) : '.' ∈ dottedV4 a := by
  by_contra hdot
  have hparts := splitOn_dottedV4 a
  rw [List.splitOn_eq_singleton hdot] at hparts
  simp [v4Bytes] at hparts

/-- What stands before a quad: groups, each with its colon, and no dots. -/
def BeforeQuad (text : List Char) : Prop := '.' ∉ text ∧ ∀ h : text ≠ [], text.getLast h = ':'

theorem BeforeQuad.tail {c : Char} {cs : List Char} (h : BeforeQuad (c :: cs)) : BeforeQuad cs := by
  refine ⟨fun hdot => h.1 (List.mem_cons_of_mem _ hdot), fun hne => ?_⟩
  rw [← h.2 (List.cons_ne_nil c cs), List.getLast_cons hne]

theorem BeforeQuad.colon_mem {text : List Char} (h : BeforeQuad text) (hne : text ≠ []) : ':' ∈ text := by
  rw [← h.2 hne]
  exact List.getLast_mem hne

theorem BeforeQuad.nil : BeforeQuad [] := ⟨List.not_mem_nil, fun h => absurd rfl h⟩

theorem BeforeQuad.group {before part : List Char} (h : BeforeQuad before) (hpart : '.' ∉ part) :
    BeforeQuad (before ++ (part ++ [':'])) := by
  refine ⟨fun hdot => ?_, fun _ => by simp⟩
  simp only [List.mem_append, List.mem_singleton] at hdot
  rcases hdot with hdot | hdot | hdot
  · exact h.1 hdot
  · exact hpart hdot
  · cases hdot

theorem trailingQuad_append {before : List Char} (h : BeforeQuad before) (a : BitVec 32) :
    trailingQuad (before ++ dottedV4 a) = some (dottedV4 a) := by
  induction before with
  | nil =>
    have hsplit := splitOn_dottedV4 a
    cases hquad : dottedV4 a with
    | nil => exact absurd hquad (dottedV4_ne_nil a)
    | cons c cs =>
      rw [hquad] at hsplit
      rw [List.nil_append, trailingQuad, hsplit, if_pos]
      refine ⟨by simp [v4Bytes], ?_⟩
      rw [List.all_map, List.all_eq_true]
      exact fun n _ => isDigits_toDigits n
  | cons c cs ih =>
    have hnot : ¬ (((c :: cs ++ dottedV4 a).splitOn '.').all isDigits = true) := by
      intro hdigits
      have hcolon : ':' ∈ c :: cs ++ dottedV4 a := List.mem_append_left _ (h.colon_mem (List.cons_ne_nil _ _))
      rcases mem_of_all_isDigits hdigits hcolon with hc | hc <;> cases hc
    rw [List.cons_append] at hnot ⊢
    rw [trailingQuad, if_neg fun hquad => hnot hquad.2, ih h.tail]

theorem replaceFirst_append {before : List Char} (h : '.' ∉ before) (a : BitVec 32) (text : List Char) :
    replaceFirst (dottedV4 a) text (before ++ dottedV4 a) = before ++ text := by
  induction before with
  | nil =>
    cases hquad : dottedV4 a with
    | nil => exact absurd hquad (dottedV4_ne_nil a)
    | cons c cs =>
      have hprefix : (c :: cs).isPrefixOf (c :: cs) = true := List.isPrefixOf_iff_prefix.2 (List.prefix_refl _)
      rw [List.nil_append, replaceFirst, if_pos hprefix, List.drop_length, List.append_nil, List.nil_append]
  | cons c cs ih =>
    have hcs : '.' ∉ cs := fun hdot => h (List.mem_cons_of_mem _ hdot)
    -- The first dot of the rest stands further right than that of the quad.
    have hnot : ¬ (dottedV4 a).isPrefixOf (c :: (cs ++ dottedV4 a)) = true := by
      rw [List.isPrefixOf_iff_prefix, ← List.cons_append]
      rintro ⟨rest, hrest⟩
      have hfirst := congrArg (List.idxOf '.') hrest
      rw [List.idxOf_append_of_mem (dot_mem_dottedV4 a), List.idxOf_append_of_notMem h, List.length_cons] at hfirst
      omega
    rw [List.cons_append, replaceFirst, if_neg hnot, ih hcs, List.cons_append]

theorem withoutQuad_none {text : List Char} (h : '.' ∉ text) : withoutQuad text = text := by
  rw [withoutQuad, trailingQuad_none h]

/-- The two groups that stand for a quad. -/
def quadGroups (a : BitVec 32) : List (List Char) := [numberText 16 (a >>> 16), numberText 16 (a &&& 0xffff)]

theorem groupText_numberText {n : BitVec 32} (h : n.toNat < 65536) : GroupText (numberText 16 n) n.toNat := by
  refine ⟨?_, ?_, readDigits_toDigits (by decide) (by decide) _⟩
  · exact Nat.length_toDigits_pos
  · exact (Nat.length_toDigits_le_iff (by decide) (by decide)).2 (by omega)

theorem toNat_high (a : BitVec 32) : (a >>> 16).toNat = a.toNat / 65536 := by
  rw [BitVec.toNat_ushiftRight, Nat.shiftRight_eq_div_pow]

theorem toNat_low (a : BitVec 32) : (a &&& 0xffff).toNat = a.toNat % 65536 := by
  rw [BitVec.toNat_and]
  exact Nat.and_two_pow_sub_one_eq_mod a.toNat 16

theorem quadGroups_text (a : BitVec 32) :
    List.Forall₂ GroupText (quadGroups a) [a.toNat / 65536, a.toNat % 65536] := by
  have ha : a.toNat < 2 ^ 32 := a.isLt
  refine .cons ?_ (.cons ?_ .nil)
  · rw [← toNat_high]
    exact groupText_numberText (by rw [toNat_high]; omega)
  · rw [← toNat_low]
    exact groupText_numberText (by rw [toNat_low]; omega)

theorem withoutQuad_append {before : List Char} (h : BeforeQuad before) (a : BitVec 32) :
    withoutQuad (before ++ dottedV4 a) = before ++ joinColons (quadGroups a) := by
  rw [withoutQuad, trailingQuad_append h]
  dsimp only
  rw [ipv4ToInt_dottedV4, toUint32_toNat, replaceFirst_append h.1, quadGroups, joinColons_cons_cons,
    joinColons_singleton]

/-- Parts that may end in a quad are rewritten to groups, whatever groups stand before them. -/
theorem Parts.withoutQuad {parts : List (List Char)} {gs : List Nat} (h : Parts parts gs) :
    ∃ groups, List.Forall₂ GroupText groups gs ∧ ∀ before, BeforeQuad before →
      Ecommerce.withoutQuad (before ++ joinColons parts) = before ++ joinColons groups := by
  induction h with
  | nil =>
    refine ⟨[], .nil, fun before hbefore => ?_⟩
    exact withoutQuad_none (by simpa using hbefore.1)
  | quad a =>
    refine ⟨quadGroups a, quadGroups_text a, fun before hbefore => ?_⟩
    rw [joinColons_singleton]
    exact withoutQuad_append hbefore a
  | @group part g parts gs h hs ih =>
    obtain ⟨groups, hgroups, hrewrite⟩ := ih
    refine ⟨part :: groups, .cons h hgroups, fun before hbefore => ?_⟩
    have hdot : '.' ∉ part := h.not_mem (by decide)
    cases hs with
    | nil =>
      cases hgroups
      rw [joinColons_singleton]
      exact withoutQuad_none fun hmem => (List.mem_append.1 hmem).elim hbefore.1 hdot
    | group h' hs' =>
      cases hgroups
      simpa using hrewrite _ (hbefore.group hdot)
    | quad a =>
      cases hgroups
      simpa using hrewrite _ (hbefore.group hdot)

/-! ## Reading the groups -/

theorem digitValue_isDigit {c : Char} (h : c.isDigit = true) : (digitValue c).isSome = true := by
  have hrange : '0' ≤ c ∧ c ≤ '9' := by
    simp only [Char.isDigit, Bool.and_eq_true, decide_eq_true_eq] at h
    exact h
  rw [digitValue, if_pos hrange, Option.isSome_some]

theorem Parts.chars {parts : List (List Char)} {gs : List Nat} (h : Parts parts gs) {part : List Char}
    (hpart : part ∈ parts) {c : Char} (hc : c ∈ part) : c = '.' ∨ (digitValue c).isSome = true := by
  induction h with
  | nil => cases hpart
  | group h hs ih =>
    rcases List.mem_cons.1 hpart with rfl | hpart
    · exact .inr (h.hex hc)
    · exact ih hpart
  | quad a =>
    rw [List.mem_singleton.1 hpart] at hc
    exact (mem_dottedV4 hc).imp_right digitValue_isDigit

theorem Parts.ne_nil {parts : List (List Char)} {gs : List Nat} (h : Parts parts gs) : ∀ part ∈ parts, part ≠ [] := by
  induction h with
  | nil => exact fun part hpart => by cases hpart
  | group h hs ih => exact List.forall_mem_cons.2 ⟨h.ne_nil, ih⟩
  | quad a => simpa using dottedV4_ne_nil a

theorem Parts.plain {parts : List (List Char)} {gs : List Nat} (h : Parts parts gs) : Plain parts := by
  refine fun part hpart => ⟨h.ne_nil part hpart, fun hc => ?_⟩
  rcases h.chars hpart hc with hc | hc <;> cases hc

theorem exists_groupText {parts : List (List Char)} {gs : List Nat} (h : List.Forall₂ GroupText parts gs)
    {part : List Char} (hpart : part ∈ parts) : ∃ g, GroupText part g := by
  induction h with
  | nil => cases hpart
  | cons h hs ih =>
    rcases List.mem_cons.1 hpart with rfl | hpart
    · exact ⟨_, h⟩
    · exact ih hpart

theorem Parts.of_forall₂ {parts : List (List Char)} {gs : List Nat} (h : List.Forall₂ GroupText parts gs) :
    Parts parts gs := by
  induction h with
  | nil => exact .nil
  | cons h hs ih => exact .group h ih

theorem map_joinColons (f : Char → Char) (hf : f ':' = ':') (parts : List (List Char)) :
    (joinColons parts).map f = joinColons (parts.map (List.map f)) := by
  induction parts with
  | nil => rfl
  | cons part parts ih =>
    cases parts with
    | nil => simp
    | cons next parts =>
      rw [joinColons_cons_cons, List.map_append, List.map_cons, hf, ih]
      simp

theorem jsLowerChar_of_mem_dottedV4 {a : BitVec 32} {c : Char} (h : c ∈ dottedV4 a) : jsLowerChar c = c := by
  rcases mem_dottedV4 h with rfl | hdigit
  · decide
  · have hall : ∀ n < 128, (Char.ofNat n).isDigit = true → jsLowerChar (Char.ofNat n) = Char.ofNat n := by
      decide +kernel
    have hlt : c.toNat < 128 := by
      simp only [Char.isDigit, Bool.and_eq_true, decide_eq_true_eq] at hdigit
      have hle : c.toNat ≤ 57 := hdigit.2
      omega
    have hc := hall c.toNat hlt
    rw [Char.ofNat_toNat] at hc
    exact hc hdigit

theorem Parts.lower {parts : List (List Char)} {gs : List Nat} (h : Parts parts gs) :
    Parts (parts.map (List.map jsLowerChar)) gs := by
  induction h with
  | nil => exact .nil
  | group h hs ih => exact .group h.lower ih
  | quad a =>
    have hquad : (dottedV4 a).map jsLowerChar = dottedV4 a :=
      (List.map_congr_left fun c hc => jsLowerChar_of_mem_dottedV4 hc).trans (List.map_id' _)
    rw [List.map_singleton, hquad]
    exact .quad a

theorem forall₂_lower {parts : List (List Char)} {gs : List Nat} (h : List.Forall₂ GroupText parts gs) :
    List.Forall₂ GroupText (parts.map (List.map jsLowerChar)) gs := by
  induction h with
  | nil => exact .nil
  | cons h hs ih => exact .cons h.lower ih

theorem GroupsText.lower {text : List Char} {gs : List Nat} (h : GroupsText text gs) :
    GroupsText (text.map jsLowerChar) gs := by
  cases h with
  | full h hlength =>
    rw [map_joinColons _ (by decide)]
    exact .full h.lower hlength
  | compressed hleft hright hlength =>
    rw [List.map_append, List.map_cons, List.map_cons, map_joinColons _ (by decide), map_joinColons _ (by decide)]
    exact .compressed (forall₂_lower hleft) hright.lower hlength

/-- The numbers that `parseInt` gives for groups. -/
def groupValues (gs : List Nat) : List (Option ℤ) := gs.map fun (g : Nat) => some (g : ℤ)

theorem map_parseIntHex {parts : List (List Char)} {gs : List Nat} (h : List.Forall₂ GroupText parts gs) :
    parts.map (fun group => parseIntHex (if group.isEmpty then ['0'] else group)) = groupValues gs := by
  induction h with
  | nil => rfl
  | cons h hs ih =>
    rw [List.map_cons, ih, if_neg (by simpa using h.ne_nil), h.parseIntHex]
    rfl

theorem expandGroups_full {parts : List (List Char)} {gs : List Nat} (h : List.Forall₂ GroupText parts gs) :
    expandGroups (joinColons parts) = groupValues gs := by
  have hplain := (Parts.of_forall₂ h).plain
  simp only [expandGroups, splitDoubleColon_full hplain, List.head?_cons, Option.getD_some,
    partsOf_joinColons hplain]
  simpa [partsOf] using map_parseIntHex h

theorem expandGroups_compressed {left right : List (List Char)} {gs hs : List Nat}
    (hleft : List.Forall₂ GroupText left gs) (hright : List.Forall₂ GroupText right hs) :
    expandGroups (joinColons left ++ ':' :: ':' :: joinColons right) =
      groupValues (gs ++ List.replicate (8 - gs.length - hs.length) 0 ++ hs) := by
  have hplainLeft := (Parts.of_forall₂ hleft).plain
  have hplainRight := (Parts.of_forall₂ hright).plain
  have hzeros (n : Nat) : List.Forall₂ GroupText (List.replicate n ['0']) (List.replicate n 0) := by
    induction n with
    | zero => exact .nil
    | succ n ih => exact .cons ⟨by decide, by decide, by decide⟩ ih
  simp only [expandGroups, splitDoubleColon_compressed hplainLeft hplainRight, List.head?_cons, Option.getD_some,
    List.getElem?_cons_succ, List.getElem?_cons_zero, partsOf_joinColons hplainLeft,
    partsOf_joinColons hplainRight, Option.isNone_some, hleft.length_eq, hright.length_eq]
  exact map_parseIntHex (List.rel_append (List.rel_append hleft (hzeros _)) hright)

/-- Every text of an IPv6 address is read as its eight groups. -/
theorem GroupsText.ipv6Groups {text : List Char} {gs : List Nat} (h : GroupsText text gs) :
    ipv6Groups text = groupValues gs := by
  rw [Ecommerce.ipv6Groups]
  generalize hlower : text.map jsLowerChar = address
  have haddress := h.lower
  rw [hlower] at haddress
  cases haddress with
  | full h hlength =>
    obtain ⟨groups, hgroups, hrewrite⟩ := h.withoutQuad
    have hresult := hrewrite [] .nil
    rw [List.nil_append, List.nil_append] at hresult
    rw [hresult, expandGroups_full hgroups]
  | @compressed left right gs hs hleft hright hlength =>
    obtain ⟨groups, hgroups, hrewrite⟩ := hright.withoutQuad
    have hbefore : BeforeQuad (joinColons left ++ [':', ':']) := by
      refine ⟨fun hdot => ?_, fun _ => by simp⟩
      rcases List.mem_append.1 hdot with hdot | hdot
      · rcases mem_joinColons hdot with hdot | ⟨part, hpart, hdot⟩
        · cases hdot
        · obtain ⟨g, hg⟩ := exists_groupText hleft hpart
          exact hg.not_mem (by decide) hdot
      · exact absurd hdot (by decide)
    have hresult := hrewrite _ hbefore
    simp only [List.append_assoc, List.cons_append, List.nil_append] at hresult
    rw [hresult, expandGroups_compressed hleft hgroups]

/-! ## `net.isIP` -/

theorem GroupText.isHexGroup {text : List Char} {g : Nat} (h : GroupText text g) : isHexGroup text = true :=
  isHexGroup_iff.2 ⟨g, h⟩

theorem isHexGroup_dottedV4 (a : BitVec 32) : isHexGroup (dottedV4 a) = false := by
  rw [Bool.eq_false_iff]
  intro hhex
  obtain ⟨g, hg⟩ := isHexGroup_iff.1 hhex
  exact hg.not_mem (by decide) (dot_mem_dottedV4 a)

theorem countGroups_cons {part : List Char} (h : isHexGroup part = true) (parts : List (List Char)) :
    countGroups (part :: parts) = (countGroups parts).map (· + 1) := by
  cases parts <;> simp [countGroups, h]

theorem Parts.countGroups {parts : List (List Char)} {gs : List Nat} (h : Parts parts gs) :
    countGroups parts = some gs.length := by
  induction h with
  | nil => rfl
  | group h hs ih => rw [countGroups_cons h.isHexGroup, ih, Option.map_some, List.length_cons]
  | quad a => simp [Ecommerce.countGroups, isHexGroup_dottedV4, isIPv4_dottedV4]

theorem parts_of_countGroups {parts : List (List Char)} {n : Nat} (h : countGroups parts = some n) :
    ∃ gs, Parts parts gs ∧ gs.length = n := by
  induction parts generalizing n with
  | nil =>
    cases h
    exact ⟨[], .nil, rfl⟩
  | cons part parts ih =>
    cases hhex : isHexGroup part with
    | true =>
      rw [countGroups_cons hhex] at h
      obtain ⟨m, hm, rfl⟩ := Option.map_eq_some_iff.1 h
      obtain ⟨gs, hgs, rfl⟩ := ih hm
      obtain ⟨g, hg⟩ := isHexGroup_iff.1 hhex
      exact ⟨g :: gs, .group hg hgs, rfl⟩
    | false =>
      cases parts with
      | nil =>
        simp only [countGroups, hhex, Bool.false_eq_true, if_false] at h
        split_ifs at h with hquad
        cases h
        obtain ⟨a, rfl⟩ := eq_dottedV4_of_isIPv4 hquad
        exact ⟨_, .quad a, rfl⟩
      | cons next parts =>
        rw [countGroups, if_neg (by simp [hhex])] at h
        · cases h
        · exact fun hnil => by cases hnil

theorem forall₂_of_all_isHexGroup {parts : List (List Char)} (h : parts.all isHexGroup = true) :
    ∃ gs, List.Forall₂ GroupText parts gs := by
  induction parts with
  | nil => exact ⟨[], .nil⟩
  | cons part parts ih =>
    rw [List.all_cons, Bool.and_eq_true] at h
    obtain ⟨g, hg⟩ := isHexGroup_iff.1 h.1
    obtain ⟨gs, hgs⟩ := ih h.2
    exact ⟨g :: gs, .cons hg hgs⟩

theorem GroupsText.isIPv6 {text : List Char} {gs : List Nat} (h : GroupsText text gs) : isIPv6 text = true := by
  cases h with
  | full h hlength =>
    rw [Ecommerce.isIPv6, splitDoubleColon_full h.plain]
    simp [partsOf_joinColons h.plain, h.countGroups, hlength]
  | compressed hleft hright hlength =>
    have hplain := (Parts.of_forall₂ hleft).plain
    have hhex : ∀ part ∈ _, isHexGroup part = true := fun part hpart =>
      isHexGroup_iff.2 (exists_groupText hleft hpart)
    rw [Ecommerce.isIPv6, splitDoubleColon_compressed hplain hright.plain]
    simp only [partsOf_joinColons hplain, partsOf_joinColons hright.plain, hright.countGroups, Bool.and_eq_true,
      List.all_eq_true, Option.any_some, decide_eq_true_eq, hleft.length_eq]
    exact ⟨hhex, by omega⟩

theorem groupsText_of_isIPv6 {text : List Char} (h : isIPv6 text = true) : ∃ gs, GroupsText text gs := by
  have hjoin := intercalate_splitDoubleColon text
  rw [isIPv6] at h
  split at h
  · next whole hpieces =>
    rw [hpieces, List.intercalate_singleton] at hjoin
    subst hjoin
    rw [beq_iff_eq] at h
    obtain ⟨gs, hgs, hlength⟩ := parts_of_countGroups h
    have hfull := GroupsText.full hgs hlength
    rw [joinColons_partsOf] at hfull
    exact ⟨gs, hfull⟩
  · next left right hpieces =>
    rw [hpieces, List.intercalate_cons_cons, List.intercalate_singleton] at hjoin
    rw [Bool.and_eq_true] at h
    obtain ⟨gs, hgs⟩ := forall₂_of_all_isHexGroup h.1
    obtain ⟨n, hn, hle⟩ := (Option.any_eq_true _ _).1 h.2
    obtain ⟨hs, hhs, rfl⟩ := parts_of_countGroups hn
    have hlength := of_decide_eq_true hle
    rw [hgs.length_eq] at hlength
    have hcompressed := GroupsText.compressed hgs hhs (by omega)
    rw [joinColons_partsOf, joinColons_partsOf] at hcompressed
    have htext : left ++ [':', ':'] ++ right = left ++ ':' :: ':' :: right := by simp
    rw [← hjoin, htext]
    exact ⟨_, hcompressed⟩
  · cases h

theorem GroupsText.chars {text : List Char} {gs : List Nat} (h : GroupsText text gs) {c : Char} (hc : c ∈ text) :
    c = ':' ∨ c = '.' ∨ (digitValue c).isSome = true := by
  have hparts {parts : List (List Char)} {gs : List Nat} (h : Parts parts gs) (hc : c ∈ joinColons parts) :
      c = ':' ∨ c = '.' ∨ (digitValue c).isSome = true := by
    rcases mem_joinColons hc with hc | ⟨part, hpart, hc⟩
    · exact .inl hc
    · exact .inr (h.chars hpart hc)
  cases h with
  | full h hlength => exact hparts h hc
  | compressed hleft hright hlength =>
    simp only [List.mem_append, List.mem_cons] at hc
    rcases hc with hc | hc | hc | hc
    · exact hparts (.of_forall₂ hleft) hc
    · exact .inl hc
    · exact .inl hc
    · exact hparts hright hc

theorem GroupsText.colon_mem {text : List Char} {gs : List Nat} (h : GroupsText text gs) : ':' ∈ text := by
  cases h with
  | full h hlength =>
    cases h with
    | nil => cases hlength
    | quad a => cases hlength
    | group h hs =>
      cases hs with
      | nil => cases hlength
      | group => simp
      | quad => simp
  | compressed hleft hright hlength => simp

/-- The texts of the grammar are those that `net.isIP` takes for IPv6 addresses without a zone. -/
theorem isIP_six_iff {text : List Char} (hzone : '%' ∉ text) : isIP text = 6 ↔ ∃ gs, GroupsText text gs := by
  rw [isIP, List.splitOn_eq_singleton hzone]
  constructor
  · intro h
    split_ifs at h with hfour
    · cases h
    · dsimp only at h
      split_ifs at h with hsix
      exact groupsText_of_isIPv6 hsix
  · rintro ⟨gs, hgs⟩
    have hfour : ¬ isIPv4 text = true := by
      intro hfour
      obtain ⟨a, rfl⟩ := eq_dottedV4_of_isIPv4 hfour
      rcases mem_dottedV4 hgs.colon_mem with hc | hc <;> cases hc
    rw [if_neg hfour]
    simp [hgs.isIPv6]

theorem GroupsText.no_zone {text : List Char} {gs : List Nat} (h : GroupsText text gs) : '%' ∉ text := by
  intro hmem
  rcases h.chars hmem with hc | hc | hc <;> cases hc

/-! ## Classification -/

open Network

/-- The eight groups of an address. -/
def v6Groups (a : BitVec 128) : List Nat :=
  [a.toNat / 2 ^ 112, a.toNat / 2 ^ 96 % 65536, a.toNat / 2 ^ 80 % 65536, a.toNat / 2 ^ 64 % 65536,
    a.toNat / 2 ^ 48 % 65536, a.toNat / 2 ^ 32 % 65536, a.toNat / 2 ^ 16 % 65536, a.toNat % 65536]

/-- The text writes the address. -/
def WritesV6 (text : List Char) (a : BitVec 128) : Prop := GroupsText text (v6Groups a)

/-- The unspecified address, the loopback address, unique local, link local and multicast addresses, and
those that embed a private IPv4 address. -/
def PrivateV6 (a : BitVec 128) : Prop :=
  a = 0 ∨ a = 1 ∨ (⟨0xfc000000000000000000000000000000, 7⟩ : Block 128).Contains a ∨
    (⟨0xfe800000000000000000000000000000, 10⟩ : Block 128).Contains a ∨
    (⟨0xff000000000000000000000000000000, 8⟩ : Block 128).Contains a ∨
    ((a.toNat / 2 ^ 32 = 0xffff ∨ a.toNat / 2 ^ 32 = 0) ∧ InPrivateV4 (a.setWidth 32))

theorem toUint32_group {g : Nat} (hg : g < 65536) : toUint32 (some (g : ℤ)) = (BitVec.ofNat 16 g).setWidth 32 := by
  apply BitVec.eq_of_toNat_eq
  simp only [toUint32, Option.getD_some, BitVec.ofInt_natCast, BitVec.toNat_ofNat, BitVec.toNat_setWidth]
  omega

theorem and_group_mask {g : Nat} (hg : g < 65536) (k : Nat) {base : BitVec 16}
    (hbase : base &&& (BitVec.allOnes 16 <<< k) = base) :
    toUint32 (some (g : ℤ)) &&& (BitVec.allOnes 16 <<< k).setWidth 32 = base.setWidth 32 ↔
      g / 2 ^ k = base.toNat / 2 ^ k := by
  have hmask := and_mask_eq_iff (BitVec.ofNat 16 g) base k
  rw [hbase, BitVec.toNat_ofNat, Nat.mod_eq_of_lt hg] at hmask
  rw [toUint32_group hg, ← BitVec.setWidth_and, ← hmask]
  constructor
  · intro h
    have hnat := congrArg BitVec.toNat h
    simp only [BitVec.toNat_setWidth] at hnat
    apply BitVec.eq_of_toNat_eq
    have hleft := (BitVec.ofNat 16 g &&& BitVec.allOnes 16 <<< k).isLt
    have hright := base.isLt
    rwa [Nat.mod_eq_of_lt (by omega), Nat.mod_eq_of_lt (by omega)] at hnat
  · intro h
    rw [h]

theorem contains_iff_group (a : BitVec 128) (base : BitVec 16) {k : Nat} (hk : k ≤ 16) :
    (⟨base ++ 0#112, 16 - k⟩ : Block 128).Contains a ↔ a.toNat / 2 ^ 112 / 2 ^ k = base.toNat / 2 ^ k := by
  have hbase : (base ++ 0#112).toNat = base.toNat * 2 ^ 112 := by
    rw [BitVec.toNat_append, BitVec.toNat_ofNat, Nat.zero_mod, Nat.or_zero, Nat.shiftLeft_eq]
  have hsplit : 2 ^ (128 - (16 - k)) = 2 ^ 112 * 2 ^ k := by
    rw [← Nat.pow_add]
    congr 1
    omega
  simp only [Block.Contains, hbase, hsplit]
  rw [← Nat.div_div_eq_div_mul, ← Nat.div_div_eq_div_mul, Nat.mul_div_cancel _ (Nat.two_pow_pos 112)]

theorem toNat_group {g : Nat} (hg : g < 65536) : (toUint32 (some (g : ℤ))).toNat = g := by
  rw [toUint32_group hg, BitVec.toNat_setWidth, BitVec.toNat_ofNat]
  omega

theorem toNat_group_high {g : Nat} (hg : g < 65536) :
    ((toUint32 (some (g : ℤ))).sshiftRight 8).toNat = g / 256 := by
  have hsign : (toUint32 (some (g : ℤ))).msb = false := by
    rw [BitVec.msb_eq_false_iff_two_mul_lt, toNat_group hg]
    omega
  rw [BitVec.sshiftRight_eq_of_msb_false hsign, BitVec.toNat_ushiftRight, toNat_group hg,
    Nat.shiftRight_eq_div_pow]

theorem toNat_group_low {g : Nat} (hg : g < 65536) : (toUint32 (some (g : ℤ)) &&& 0xff).toNat = g % 256 := by
  rw [BitVec.toNat_and, toNat_group hg]
  exact Nat.and_two_pow_sub_one_eq_mod g 8

/-- The last two groups of an address, in dotted form. -/
theorem embeddedV4_eq (a : BitVec 128) :
    embeddedV4 (some ((a.toNat / 2 ^ 16 % 65536 : Nat) : ℤ)) (some ((a.toNat % 65536 : Nat) : ℤ)) =
      dottedV4 (a.setWidth 32) := by
  have h6 : a.toNat / 2 ^ 16 % 65536 < 65536 := Nat.mod_lt _ (by decide)
  have h7 : a.toNat % 65536 < 65536 := Nat.mod_lt _ (by decide)
  have hbytes : v4Bytes (a.setWidth 32) = [a.toNat / 2 ^ 16 % 65536 / 256, a.toNat / 2 ^ 16 % 65536 % 256,
      a.toNat % 65536 / 256, a.toNat % 65536 % 256] := by
    simp only [v4Bytes, BitVec.toNat_setWidth]
    congr 1
    · omega
    · congr 1
      · omega
      · congr 1
        · omega
        · congr 1
          omega
  simp only [embeddedV4, numberText, toNat_group_high h6, toNat_group_low h6, toNat_group_high h7,
    toNat_group_low h7, dottedV4, hbytes, List.map_cons, List.map_nil, List.intercalate_cons_cons,
    List.intercalate_singleton, List.append_assoc, List.cons_append, List.nil_append]

/-! The tests that `isPrivateV6` makes on the groups. -/

theorem groupValues_zero (gs : List Nat) : (groupValues gs).all (· == some 0) = true ↔ ∀ g ∈ gs, g = 0 := by
  rw [groupValues, List.all_map, List.all_eq_true]
  refine forall₂_congr fun g _ => ?_
  simp

/-- What is left of a number without its last groups is zero if that without one more, and that group, are. -/
theorem div_eq_zero_iff {n k : Nat} : (n / 2 ^ (k + 16) = 0 ∧ n / 2 ^ k % 65536 = 0) ↔ n / 2 ^ k = 0 := by
  rw [pow_add, ← Nat.div_div_eq_div_mul]
  omega

/-- All groups but the last are zero. -/
theorem high_groups_zero (n : Nat) : (n / 2 ^ 112 = 0 ∧ n / 2 ^ 96 % 65536 = 0 ∧ n / 2 ^ 80 % 65536 = 0 ∧
    n / 2 ^ 64 % 65536 = 0 ∧ n / 2 ^ 48 % 65536 = 0 ∧ n / 2 ^ 32 % 65536 = 0 ∧ n / 2 ^ 16 % 65536 = 0) ↔
      n / 2 ^ 16 = 0 := by
  rw [← and_assoc, div_eq_zero_iff (k := 96), ← and_assoc, div_eq_zero_iff (k := 80), ← and_assoc,
    div_eq_zero_iff (k := 64), ← and_assoc, div_eq_zero_iff (k := 48), ← and_assoc, div_eq_zero_iff (k := 32),
    div_eq_zero_iff (k := 16)]

theorem unspecified_iff (a : BitVec 128) : (groupValues (v6Groups a)).all (· == some 0) = true ↔ a = 0 := by
  have hlast : (a.toNat / 2 ^ 16 = 0 ∧ a.toNat % 65536 = 0) ↔ a.toNat = 0 := by omega
  rw [groupValues_zero, ← BitVec.toNat_inj]
  simp only [v6Groups, List.forall_mem_cons, List.not_mem_nil, false_imp_iff, implies_true, and_true,
    BitVec.ofNat_eq_ofNat, BitVec.toNat_ofNat, Nat.zero_mod]
  rw [← hlast, ← high_groups_zero]
  simp only [and_assoc]

theorem loopback_iff (a : BitVec 128) :
    (((groupValues (v6Groups a)).take 7).all (· == some 0) && (groupValues (v6Groups a))[7]? == some (some 1)) = true ↔
      a = 1 := by
  have hseventh : ((groupValues (v6Groups a))[7]? == some (some 1)) = true ↔ a.toNat % 65536 = 1 := by
    simp only [groupValues, v6Groups, List.map_cons, List.map_nil, List.getElem?_cons_succ,
      List.getElem?_cons_zero, beq_iff_eq, Option.some.injEq]
    omega
  have hone : a = 1 ↔ a.toNat = 1 := by
    rw [← BitVec.toNat_inj]
    rfl
  rw [Bool.and_eq_true, hseventh, hone, groupValues, ← List.map_take, ← groupValues, groupValues_zero]
  simp only [v6Groups, List.take_succ_cons, List.take_zero, List.forall_mem_cons, List.not_mem_nil,
    false_imp_iff, implies_true, and_true]
  rw [high_groups_zero]
  omega

theorem embeds_iff (a : BitVec 128) :
    (((groupValues (v6Groups a)).take 5).all (· == some 0) &&
      ((groupValues (v6Groups a))[5]? == some (some 0xffff) || (groupValues (v6Groups a))[5]? == some (some 0))) = true ↔
      a.toNat / 2 ^ 32 = 0xffff ∨ a.toNat / 2 ^ 32 = 0 := by
  have hfifth (n : Nat) : ((groupValues (v6Groups a))[5]? == some (some (n : ℤ))) = true ↔
      a.toNat / 2 ^ 32 % 65536 = n := by
    simp only [groupValues, v6Groups, List.map_cons, List.map_nil, List.getElem?_cons_succ,
      List.getElem?_cons_zero, beq_iff_eq, Option.some.injEq, Nat.cast_inj]
  have hmapped := hfifth 0xffff
  have hcompatible := hfifth 0
  rw [Nat.cast_ofNat] at hmapped
  rw [Nat.cast_zero] at hcompatible
  rw [Bool.and_eq_true, Bool.or_eq_true, hmapped, hcompatible, groupValues, ← List.map_take, ← groupValues,
    groupValues_zero]
  simp only [v6Groups, List.take_succ_cons, List.take_zero, List.forall_mem_cons, List.not_mem_nil,
    false_imp_iff, implies_true, and_true]
  omega

/-- A mask on the first group tests membership in a block. -/
theorem first_group_mask (a : BitVec 128) (base : BitVec 16) {k : Nat} (hk : k ≤ 16)
    (hbase : base &&& (BitVec.allOnes 16 <<< k) = base) :
    toUint32 (some ((a.toNat / 2 ^ 112 : Nat) : ℤ)) &&& (BitVec.allOnes 16 <<< k).setWidth 32 =
      base.setWidth 32 ↔ (⟨base ++ 0#112, 16 - k⟩ : Block 128).Contains a := by
  have ha : a.toNat / 2 ^ 112 < 65536 := by
    rw [Nat.div_lt_iff_lt_mul (Nat.two_pow_pos 112)]
    exact a.isLt
  rw [contains_iff_group a base hk, and_group_mask ha k hbase]

theorem returns_true_iff {c : Prop} [Decidable c] {b : Bool} : (if c then true else b) = true ↔ c ∨ b = true := by
  split_ifs with hc <;> simp [hc]

theorem returns_iff {c : Prop} [Decidable c] {b : Bool} : (if c then b else false) = true ↔ c ∧ b = true := by
  split_ifs with hc <;> simp [hc]

theorem isPrivateV6_iff {text : List Char} {a : BitVec 128} (h : WritesV6 text a) :
    isPrivateV6 text = true ↔ PrivateV6 a := by
  have hlocal := first_group_mask a 0xfc00 (k := 9) (by decide) (by decide)
  have hlink := first_group_mask a 0xfe80 (k := 6) (by decide) (by decide)
  have hmulti := first_group_mask a 0xff00 (k := 8) (by decide) (by decide)
  have hembedded := isPrivateV4_dottedV4 (a.setWidth 32)
  have hgroups : ipv6Groups text = groupValues (v6Groups a) := h.ipv6Groups
  rw [← embeddedV4_eq] at hembedded
  have hlength : ¬ (groupValues (v6Groups a)).length ≠ 8 := fun hne => hne rfl
  simp only [isPrivateV6, hgroups]
  rw [if_neg hlength, returns_true_iff, returns_true_iff, returns_true_iff, returns_true_iff, returns_true_iff,
    returns_iff]
  exact or_congr (unspecified_iff a) <| or_congr (loopback_iff a) <| or_congr hlocal <| or_congr hlink <|
    or_congr hmulti <| and_congr (embeds_iff a) hembedded

theorem WritesV6.isPrivateAddress {text : List Char} {a : BitVec 128} (h : WritesV6 text a) :
    isPrivateAddress text = true ↔ PrivateV6 a := by
  have hversion : isIP text = 6 := (isIP_six_iff (GroupsText.no_zone h)).2 ⟨_, h⟩
  rw [← isPrivateV6_iff h, Ecommerce.isPrivateAddress, hversion]
  rfl

theorem Parts.lt {parts : List (List Char)} {gs : List Nat} (h : Parts parts gs) : ∀ g ∈ gs, g < 65536 := by
  induction h with
  | nil => exact fun g hg => by cases hg
  | group h hs ih => exact List.forall_mem_cons.2 ⟨h.lt, ih⟩
  | quad a =>
    have ha : a.toNat < 2 ^ 32 := a.isLt
    simp only [List.forall_mem_cons, List.not_mem_nil, false_imp_iff, implies_true, and_true]
    omega

theorem GroupsText.lt {text : List Char} {gs : List Nat} (h : GroupsText text gs) :
    gs.length = 8 ∧ ∀ g ∈ gs, g < 65536 := by
  cases h with
  | full h hlength => exact ⟨hlength, h.lt⟩
  | compressed hleft hright hlength =>
    refine ⟨by simp; omega, fun g hg => ?_⟩
    rw [List.mem_append, List.mem_append, List.mem_replicate] at hg
    rcases hg with (hg | ⟨-, rfl⟩) | hg
    · exact (Parts.of_forall₂ hleft).lt g hg
    · decide
    · exact hright.lt g hg

/-- Eight groups make an address. -/
theorem exists_v6Groups {gs : List Nat} (hlength : gs.length = 8) (hlt : ∀ g ∈ gs, g < 65536) :
    ∃ a, v6Groups a = gs := by
  match gs, hlength with
  | [g0, g1, g2, g3, g4, g5, g6, g7], _ =>
    simp only [List.forall_mem_cons, List.not_mem_nil, false_imp_iff, implies_true, and_true] at hlt
    refine ⟨BitVec.ofNat 128 (((((((g0 * 65536 + g1) * 65536 + g2) * 65536 + g3) * 65536 + g4) * 65536 + g5) *
      65536 + g6) * 65536 + g7), ?_⟩
    simp only [v6Groups, BitVec.toNat_ofNat, List.cons.injEq, and_true]
    omega

/-- Whether an address is private depends on the address, and not on the text that writes it. -/
theorem private_addresses :
    (∀ a : BitVec 32, isPrivateAddress (dottedV4 a) = true ↔ InPrivateV4 a) ∧
    (∀ text a, WritesV6 text a → isIP text = 6 ∧ ipv6Groups text = groupValues (v6Groups a) ∧
      (isPrivateAddress text = true ↔ PrivateV6 a)) ∧
    (∀ text, isIP text = 6 → '%' ∉ text → ∃ a, WritesV6 text a) ∧
    ∀ a text other, WritesV6 text a → WritesV6 other a → isPrivateAddress text = isPrivateAddress other := by
  refine ⟨isPrivateAddress_dottedV4, fun text a h => ?_, fun text hversion hzone => ?_, fun a text other h h' => ?_⟩
  · exact ⟨(isIP_six_iff (GroupsText.no_zone h)).2 ⟨_, h⟩, h.ipv6Groups, h.isPrivateAddress⟩
  · obtain ⟨gs, hgs⟩ := (isIP_six_iff hzone).1 hversion
    obtain ⟨a, rfl⟩ := exists_v6Groups hgs.lt.1 hgs.lt.2
    exact ⟨a, hgs⟩
  · rw [Bool.eq_iff_iff, h.isPrivateAddress, h'.isPrivateAddress]

theorem private_addresses_mappedLoopback :
    WritesV6 "::FFFF:127.0.0.1".toList 0xffff7f000001 ∧ isPrivateAddress "::FFFF:127.0.0.1".toList = true ∧
      isPrivateAddress "::ffff:7f00:0001".toList = true := by
  have hbytes : v4Bytes 0x7f000001 = [127, 0, 0, 1] := by decide
  have hquad : dottedV4 0x7f000001 = "127.0.0.1".toList := by
    rw [dottedV4, hbytes]
    simp [Nat.toDigits_eq_if]
  have hright : Parts ["FFFF".toList, dottedV4 0x7f000001] [0xffff, 0x7f00, 1] :=
    .group ⟨by decide, by decide, by decide⟩ (.quad 0x7f000001)
  have hgroups : List.Forall₂ GroupText ["ffff".toList, "7f00".toList, "0001".toList] [0xffff, 0x7f00, 1] :=
    .cons ⟨by decide, by decide, by decide⟩ <| .cons ⟨by decide, by decide, by decide⟩ <|
      .cons ⟨by decide, by decide, by decide⟩ .nil
  have hdotted : WritesV6 "::FFFF:127.0.0.1".toList 0xffff7f000001 := by
    have h := GroupsText.compressed List.Forall₂.nil hright (by decide)
    rw [hquad] at h
    exact h
  have hplain : WritesV6 "::ffff:7f00:0001".toList 0xffff7f000001 :=
    GroupsText.compressed List.Forall₂.nil (.of_forall₂ hgroups) (by decide)
  obtain ⟨-, hclassified, -, hsame⟩ := private_addresses
  have hprivate : PrivateV6 0xffff7f000001 := by
    refine .inr (.inr (.inr (.inr (.inr ⟨.inl rfl, inPrivateV4_iff.2 ?_⟩))))
    exact ⟨⟨0x7f000000, 8⟩, by simp [privateBlocks], by decide⟩
  have hloopback := (hclassified _ _ hdotted).2.2.2 hprivate
  exact ⟨hdotted, hloopback, hsame _ _ _ hdotted hplain ▸ hloopback⟩

end Ecommerce
