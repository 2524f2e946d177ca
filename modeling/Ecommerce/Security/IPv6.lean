import Ecommerce.Security.IPv4
import Mathlib.Data.List.Forall2
import Mathlib.Data.List.TakeWhile

/-!
# Texts of IPv6 addresses

The texts that write an IPv6 address, as a grammar: groups between colons, at most one double colon in
the place of one or more groups of zeros, and possibly a dotted quad in the place of the last two.
`ipv6Groups` reads every one of them, and `net.isIP` takes these texts and no others.
-/

namespace Ecommerce

/-- One to four hex digits, of either case. -/
def GroupText (text : List Char) (g : Nat) : Prop :=
  1 ≤ text.length ∧ text.length ≤ 4 ∧ readDigits 16 0 text = some g

/-- The parts between colons write the groups. -/
inductive Parts : List (List Char) → List Nat → Prop where
  | nil : Parts [] []
  | group {part : List Char} {g : Nat} {parts : List (List Char)} {gs : List Nat} (h : GroupText part g)
    (hs : Parts parts gs) : Parts (part :: parts) (g :: gs)
  | quad (a : BitVec 32) : Parts [dottedV4 a] [a.toNat / 65536, a.toNat % 65536]

def joinColons (parts : List (List Char)) : List Char := [':'].intercalate parts

/-- The text writes the eight groups. -/
inductive GroupsText : List Char → List Nat → Prop where
  | full {parts : List (List Char)} {gs : List Nat} (h : Parts parts gs) (hlength : gs.length = 8) :
    GroupsText (joinColons parts) gs
  | compressed {left right : List (List Char)} {gs hs : List Nat} (hleft : List.Forall₂ GroupText left gs)
    (hright : Parts right hs) (hlength : gs.length + hs.length < 8) :
    GroupsText (joinColons left ++ ':' :: ':' :: joinColons right)
      (gs ++ List.replicate (8 - gs.length - hs.length) 0 ++ hs)

@[simp] theorem joinColons_nil : joinColons [] = [] := rfl

@[simp] theorem joinColons_singleton (part : List Char) : joinColons [part] = part :=
  List.intercalate_singleton

@[simp] theorem joinColons_cons_cons (part next : List Char) (parts : List (List Char)) :
    joinColons (part :: next :: parts) = part ++ ':' :: joinColons (next :: parts) := by
  rw [joinColons, List.intercalate_cons_cons, joinColons, List.append_assoc, List.singleton_append]

theorem mem_joinColons {parts : List (List Char)} {c : Char} (h : c ∈ joinColons parts) :
    c = ':' ∨ ∃ part ∈ parts, c ∈ part := by
  induction parts with
  | nil => cases h
  | cons part parts ih =>
    cases parts with
    | nil => exact .inr ⟨part, List.mem_cons_self, by simpa using h⟩
    | cons next parts =>
      rw [joinColons_cons_cons, List.mem_append, List.mem_cons] at h
      rcases h with h | h | h
      · exact .inr ⟨part, List.mem_cons_self, h⟩
      · exact .inl h
      · rcases ih h with h | ⟨p, hp, h⟩
        · exact .inl h
        · exact .inr ⟨p, List.mem_cons_of_mem _ hp, h⟩

/-! ## Groups -/

theorem isSome_digitValue_of_readDigits {base acc n : Nat} {text : List Char}
    (h : readDigits base acc text = some n) : ∀ c ∈ text, (digitValue c).isSome = true := by
  induction text generalizing acc with
  | nil => exact fun c hc => by cases hc
  | cons c cs ih =>
    rw [readDigits] at h
    cases hc : digitValue c with
    | none => rw [hc] at h; cases h
    | some d =>
      simp only [hc] at h
      split_ifs at h
      exact List.forall_mem_cons.2 ⟨by rw [hc]; rfl, ih h⟩

theorem readDigits_lt {base acc n : Nat} {text : List Char} (h : readDigits base acc text = some n) :
    n < (acc + 1) * base ^ text.length := by
  induction text generalizing acc with
  | nil =>
    cases h
    simp
  | cons c cs ih =>
    rw [readDigits] at h
    cases hc : digitValue c with
    | none => rw [hc] at h; cases h
    | some d =>
      simp only [hc] at h
      split_ifs at h with hd
      calc n < (acc * base + d + 1) * base ^ cs.length := ih h
        _ ≤ ((acc + 1) * base) * base ^ cs.length := by
          apply Nat.mul_le_mul_right
          rw [Nat.add_mul, Nat.one_mul]
          omega
        _ = (acc + 1) * base ^ (c :: cs).length := by
          rw [List.length_cons, Nat.pow_succ]
          ring

theorem digitValue_lt {c : Char} {d : Nat} (h : digitValue c = some d) : d < 16 := by
  unfold digitValue at h
  split_ifs at h with hdigit hlower hupper
  · cases h
    have hle : c.toNat ≤ 57 := hdigit.2
    simp only [show '0'.toNat = 48 from rfl]
    omega
  · cases h
    have hle : c.toNat ≤ 102 := hlower.2
    simp only [show 'a'.toNat = 97 from rfl]
    omega
  · cases h
    have hle : c.toNat ≤ 70 := hupper.2
    simp only [show 'A'.toNat = 65 from rfl]
    omega

theorem readDigits_hex {text : List Char} (h : ∀ c ∈ text, (digitValue c).isSome = true) (acc : Nat) :
    ∃ n, readDigits 16 acc text = some n := by
  induction text generalizing acc with
  | nil => exact ⟨acc, rfl⟩
  | cons c cs ih =>
    obtain ⟨hc, hcs⟩ := List.forall_mem_cons.1 h
    obtain ⟨d, hd⟩ := Option.isSome_iff_exists.1 hc
    obtain ⟨n, hn⟩ := ih hcs (acc * 16 + d)
    exact ⟨n, by simp [readDigits, hd, digitValue_lt hd, hn]⟩

theorem isHexGroup_iff {text : List Char} : isHexGroup text = true ↔ ∃ g, GroupText text g := by
  simp only [isHexGroup, GroupText, Bool.and_eq_true, decide_eq_true_eq, List.all_eq_true]
  constructor
  · rintro ⟨⟨hpos, hle⟩, hhex⟩
    obtain ⟨g, hg⟩ := readDigits_hex hhex 0
    exact ⟨g, hpos, hle, hg⟩
  · rintro ⟨g, hpos, hle, hg⟩
    exact ⟨⟨hpos, hle⟩, isSome_digitValue_of_readDigits hg⟩

theorem digitValue_none {c : Char} (h : c ∈ [':', '.', '%', '-', '+', 'x', 'X']) : digitValue c = none := by
  simp only [List.mem_cons, List.not_mem_nil, or_false] at h
  rcases h with rfl | rfl | rfl | rfl | rfl | rfl | rfl <;> decide

theorem digitValue_space {c : Char} (h : isJsSpace c = true) : digitValue c = none := by
  simp only [isJsSpace, Bool.or_eq_true, beq_iff_eq, Bool.and_eq_true, decide_eq_true_eq, or_assoc] at h
  rcases h with rfl | rfl | rfl | rfl | rfl | rfl | rfl | rfl | ⟨hge, -⟩ | rfl | rfl | rfl | rfl | rfl | rfl
  case inr.inr.inr.inr.inr.inr.inr.inr.inl =>
    have hlarge : 8192 ≤ c.toNat := hge
    have hnot (a b : Char) (hb : b.toNat < 8192) : ¬ (a ≤ c ∧ c ≤ b) := by
      rintro ⟨-, hle⟩
      have hle' : c.toNat ≤ b.toNat := hle
      omega
    rw [digitValue, if_neg (hnot '0' '9' (by decide)), if_neg (hnot 'a' 'f' (by decide)),
      if_neg (hnot 'A' 'F' (by decide))]
  all_goals decide

theorem digitValue_jsLowerChar {c : Char} (h : (digitValue c).isSome = true) :
    digitValue (jsLowerChar c) = digitValue c := by
  have hall : ∀ n < 128, digitValue (jsLowerChar (Char.ofNat n)) = digitValue (Char.ofNat n) := by
    decide +kernel
  have hlt : c.toNat < 128 := by
    by_contra hge
    have hnot (a b : Char) (hb : b.toNat < 128) : ¬ (a ≤ c ∧ c ≤ b) := by
      rintro ⟨-, hle⟩
      have hle' : c.toNat ≤ b.toNat := hle
      omega
    rw [digitValue, if_neg (hnot '0' '9' (by decide)), if_neg (hnot 'a' 'f' (by decide)),
      if_neg (hnot 'A' 'F' (by decide))] at h
    cases h
  have hc := hall c.toNat hlt
  rwa [Char.ofNat_toNat] at hc

namespace GroupText

variable {text : List Char} {g : Nat}

theorem ne_nil (h : GroupText text g) : text ≠ [] := by
  rintro rfl
  exact absurd h.1 (by decide)

theorem lt (h : GroupText text g) : g < 65536 := by
  have hlt := readDigits_lt h.2.2
  have hpow : 16 ^ text.length ≤ 16 ^ 4 := Nat.pow_le_pow_right (by decide) h.2.1
  omega

theorem hex (h : GroupText text g) {c : Char} (hc : c ∈ text) : (digitValue c).isSome = true :=
  isSome_digitValue_of_readDigits h.2.2 c hc

theorem not_mem (h : GroupText text g) {c : Char} (hc : c ∈ [':', '.', '%', '-', '+', 'x', 'X']) :
    c ∉ text := by
  intro hmem
  have hsome := h.hex hmem
  rw [digitValue_none hc] at hsome
  cases hsome

theorem parseIntHex (h : GroupText text g) : parseIntHex text = some (g : ℤ) := by
  have hspaces : text.dropWhile isJsSpace = text := by
    rw [List.dropWhile_eq_self_iff]
    intro hpos
    by_contra hspace
    have hsome := h.hex (List.getElem_mem hpos)
    rw [digitValue_space (by simpa using hspace)] at hsome
    cases hsome
  have hrun : text.takeWhile (fun c => (digitValue c).isSome) = text :=
    List.takeWhile_eq_self_iff.2 fun c hc => h.hex hc
  have hminus : '-' ∉ text := h.not_mem (by decide)
  have hplus : '+' ∉ text := h.not_mem (by decide)
  have hx : 'x' ∉ text := h.not_mem (by decide)
  have hX : 'X' ∉ text := h.not_mem (by decide)
  have hfirst : text.head? ≠ some '-' := fun hhead => hminus (List.mem_of_head? hhead)
  simp only [Ecommerce.parseIntHex, hspaces]
  have hsign : withoutSign text = text := by
    unfold withoutSign
    split
    · exact absurd List.mem_cons_self hminus
    · exact absurd List.mem_cons_self hplus
    · rfl
  have hmark : withoutHexMark text = text := by
    unfold withoutHexMark
    split
    · exact absurd (by simp) hx
    · exact absurd (by simp) hX
    · rfl
  rw [hsign, hmark, hrun, h.2.2, if_neg (by simpa using h.ne_nil), Option.map_some, if_neg hfirst]

theorem lower (h : GroupText text g) : GroupText (text.map jsLowerChar) g := by
  refine ⟨by simpa using h.1, by simpa using h.2.1, ?_⟩
  rw [← h.2.2]
  have hhex := isSome_digitValue_of_readDigits h.2.2
  generalize 0 = acc
  clear h
  induction text generalizing acc with
  | nil => rfl
  | cons c cs ih =>
    obtain ⟨hc, hcs⟩ := List.forall_mem_cons.1 hhex
    rw [List.map_cons, readDigits, readDigits, digitValue_jsLowerChar hc]
    cases digitValue c with
    | none => rfl
    | some d =>
      dsimp only
      rw [ih hcs]

end GroupText

/-! ## Double colons -/

theorem splitDoubleColon_cons {c : Char} (hc : c ≠ ':') (cs : List Char) :
    splitDoubleColon (c :: cs) = (splitDoubleColon cs).modifyHead (c :: ·) := by
  rw [splitDoubleColon]
  rintro rest rfl
  exact fun _ => hc rfl

theorem splitDoubleColon_colon {cs : List Char} (h : cs.head? ≠ some ':') :
    splitDoubleColon (':' :: cs) = (splitDoubleColon cs).modifyHead (':' :: ·) := by
  rw [splitDoubleColon]
  rintro rest - rfl
  exact h rfl

theorem modifyHead_cons_append (p : List Char) (c : Char) (pieces : List (List Char)) :
    (pieces.modifyHead (p ++ ·)).modifyHead (c :: ·) = pieces.modifyHead ((c :: p) ++ ·) := by
  cases pieces <;> rfl

theorem splitDoubleColon_append {part : List Char} (h : ':' ∉ part) (rest : List Char) :
    splitDoubleColon (part ++ rest) = (splitDoubleColon rest).modifyHead (part ++ ·) := by
  induction part with
  | nil => cases hrest : splitDoubleColon rest <;> simp [hrest]
  | cons c cs ih =>
    obtain ⟨hc, hcs⟩ := not_or.1 (mt List.mem_cons.2 h)
    rw [List.cons_append, splitDoubleColon_cons (Ne.symm hc), ih hcs, modifyHead_cons_append]

/-- The parts are neither empty nor hold a colon. -/
def Plain (parts : List (List Char)) : Prop := ∀ part ∈ parts, part ≠ [] ∧ ':' ∉ part

theorem joinColons_head? {part : List Char} {parts : List (List Char)} (h : Plain (part :: parts))
    (rest : List Char) : (joinColons (part :: parts) ++ rest).head? ≠ some ':' := by
  obtain ⟨hne, hcolon⟩ := h part List.mem_cons_self
  cases part with
  | nil => exact absurd rfl hne
  | cons c cs =>
    have hc : c ≠ ':' := fun hc => hcolon (hc ▸ List.mem_cons_self)
    cases parts <;> simpa using hc

theorem splitDoubleColon_joinColons {parts : List (List Char)} (h : Plain parts) (rest : List Char) :
    splitDoubleColon (joinColons parts ++ rest) =
      (splitDoubleColon rest).modifyHead (joinColons parts ++ ·) := by
  induction parts with
  | nil => cases hrest : splitDoubleColon rest <;> simp [hrest]
  | cons part parts ih =>
    have hcolon := (h part List.mem_cons_self).2
    cases parts with
    | nil => simpa using splitDoubleColon_append hcolon rest
    | cons next parts =>
      have hrest : Plain (next :: parts) := fun p hp => h p (List.mem_cons_of_mem _ hp)
      rw [joinColons_cons_cons, List.append_assoc, splitDoubleColon_append hcolon, List.cons_append,
        splitDoubleColon_colon (joinColons_head? hrest rest), ih hrest]
      cases splitDoubleColon rest with
      | nil => rfl
      | cons piece pieces => simp

theorem splitDoubleColon_full {parts : List (List Char)} (h : Plain parts) :
    splitDoubleColon (joinColons parts) = [joinColons parts] := by
  have hsplit := splitDoubleColon_joinColons h []
  rw [List.append_nil] at hsplit
  rw [hsplit]
  simp [splitDoubleColon]

theorem splitDoubleColon_compressed {left right : List (List Char)} (hleft : Plain left)
    (hright : Plain right) :
    splitDoubleColon (joinColons left ++ ':' :: ':' :: joinColons right) =
      [joinColons left, joinColons right] := by
  rw [splitDoubleColon_joinColons hleft, splitDoubleColon, splitDoubleColon_full hright]
  simp

theorem partsOf_joinColons {parts : List (List Char)} (h : Plain parts) : partsOf (joinColons parts) = parts := by
  cases parts with
  | nil => rfl
  | cons part parts =>
    have hne : joinColons (part :: parts) ≠ [] := by
      obtain ⟨hpart, -⟩ := h part List.mem_cons_self
      cases parts <;> simp [hpart]
    rw [partsOf, if_neg (by simpa using hne), joinColons]
    exact List.splitOn_intercalate ':' (fun p hp => (h p hp).2) (List.cons_ne_nil _ _)

theorem joinColons_partsOf (text : List Char) : joinColons (partsOf text) = text := by
  rw [partsOf]
  split_ifs with hempty
  · simpa using hempty.symm
  · exact List.intercalate_splitOn ':'

theorem splitDoubleColon_ne_nil (text : List Char) : splitDoubleColon text ≠ [] := by
  fun_induction splitDoubleColon text with
  | case1 cs ih => exact List.cons_ne_nil _ _
  | case2 c cs hcs ih =>
    cases hpieces : splitDoubleColon cs with
    | nil => exact absurd hpieces ih
    | cons piece pieces => exact List.cons_ne_nil _ _
  | case3 => exact List.cons_ne_nil _ _

/-- The text between double colons is all of the text. -/
theorem intercalate_splitDoubleColon (text : List Char) :
    [':', ':'].intercalate (splitDoubleColon text) = text := by
  fun_induction splitDoubleColon text with
  | case1 cs ih =>
    rw [List.intercalate_cons_of_ne_nil (splitDoubleColon_ne_nil cs), ih]
    rfl
  | case2 c cs hcs ih =>
    cases hpieces : splitDoubleColon cs with
    | nil => exact absurd hpieces (splitDoubleColon_ne_nil cs)
    | cons piece pieces =>
      rw [hpieces] at ih
      cases pieces with
      | nil => simpa using ih
      | cons next pieces => simpa [List.intercalate_cons_cons] using ih
  | case3 => rfl

end Ecommerce
