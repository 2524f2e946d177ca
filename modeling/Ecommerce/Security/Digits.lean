import Ecommerce.Model.Ssrf
import Mathlib.Tactic.IntervalCases

/-!
# Numbers written in digits

Writing a number in a base and reading it back, and the parts of a text between separators.
-/

namespace Ecommerce

theorem readDigits_append (base acc : Nat) (cs ds : List Char) :
    readDigits base acc (cs ++ ds) = (readDigits base acc cs).bind fun n => readDigits base n ds := by
  induction cs generalizing acc with
  | nil => rfl
  | cons c cs ih =>
    simp only [List.cons_append, readDigits]
    cases digitValue c with
    | none => rfl
    | some d =>
      dsimp only
      split_ifs
      · exact ih _
      · rfl

theorem readDigits_toDigits {base : Nat} (hbase : 1 < base) (hle : base ≤ 16) (n : Nat) :
    readDigits base 0 (Nat.toDigits base n) = some n := by
  induction n using Nat.strong_induction_on with
  | _ n ih =>
    rw [Nat.toDigits_eq_if hbase]
    split_ifs with hn
    · simp [readDigits, digitValue_digitChar n (by omega), hn]
    · have hmod : n % base < base := Nat.mod_lt n (by omega)
      rw [readDigits_append, ih (n / base) (Nat.div_lt_self (by omega) hbase), Option.bind_some]
      simp [readDigits, digitValue_digitChar (n % base) (by omega), hmod, Nat.div_add_mod']

theorem digitValue_of_mem_toDigits {base n : Nat} (hbase : 1 < base) (hle : base ≤ 16) {c : Char}
    (hc : c ∈ Nat.toDigits base n) : ∃ d < base, digitValue c = some d := by
  induction n using Nat.strong_induction_on with
  | _ n ih =>
    rw [Nat.toDigits_eq_if hbase] at hc
    split_ifs at hc with hn
    · rw [List.mem_singleton.1 hc]
      exact ⟨n, hn, digitValue_digitChar _ (by omega)⟩
    · have hmod : n % base < base := Nat.mod_lt n (by omega)
      rcases List.mem_append.1 hc with hc | hc
      · exact ih (n / base) (Nat.div_lt_self (by omega) hbase) hc
      · rw [List.mem_singleton.1 hc]
        exact ⟨n % base, hmod, digitValue_digitChar _ (by omega)⟩

theorem isDigits_toDigits (n : Nat) : isDigits (Nat.toDigits 10 n) = true := by
  rw [isDigits, Bool.and_eq_true, Bool.not_eq_true', List.isEmpty_eq_false_iff, List.all_eq_true]
  exact ⟨Nat.toDigits_ne_nil, fun c hc => Nat.isDigit_of_mem_toDigits (by decide) (by decide) hc⟩

theorem not_mem_of_isDigits {text : List Char} (h : isDigits text = true) {c : Char}
    (hc : c.isDigit = false) : c ∉ text := by
  intro hmem
  rw [isDigits, Bool.and_eq_true, List.all_eq_true] at h
  rw [h.2 c hmem] at hc
  cases hc

theorem head?_toDigits {n : Nat} (hn : 0 < n) : (Nat.toDigits 10 n).head? ≠ some '0' := by
  induction n using Nat.strong_induction_on with
  | _ n ih =>
    rw [Nat.toDigits_eq_if (by decide)]
    split_ifs with hlt
    · interval_cases n <;> decide
    · have hne : Nat.toDigits 10 (n / 10) ≠ [] := Nat.toDigits_ne_nil
      rw [List.head?_append_of_ne_nil _ hne]
      exact ih (n / 10) (by omega) (by omega)

theorem isDecimalByte_toDigits {n : Nat} (hn : n < 256) : isDecimalByte (Nat.toDigits 10 n) = true := by
  have hlength : (Nat.toDigits 10 n).length ≤ 3 :=
    (Nat.length_toDigits_le_iff (by decide) (by decide)).2 (by omega)
  have hzeros : (Nat.toDigits 10 n).length = 1 ∨ (Nat.toDigits 10 n).head? ≠ some '0' := by
    rcases Nat.eq_zero_or_pos n with rfl | hpos
    · exact .inl rfl
    · exact .inr (head?_toDigits hpos)
  simp only [isDecimalByte, isDigits_toDigits, readDigits_toDigits (show 1 < 10 by decide) (show 10 ≤ 16 by decide),
    Option.any_some, Bool.and_eq_true, Bool.or_eq_true, decide_eq_true_eq, beq_iff_eq, bne_iff_ne]
  exact ⟨⟨⟨trivial, hlength⟩, hzeros⟩, by omega⟩

theorem eq_digitChar_of_digitValue {c : Char} {d : Nat} (h : digitValue c = some d) (hd : d < 10) :
    c = d.digitChar := by
  unfold digitValue at h
  split_ifs at h with hdigit hlower hupper
  · cases h
    have hle : c.toNat ≤ 57 := hdigit.2
    have hge : 48 ≤ c.toNat := hdigit.1
    apply Char.toNat_inj.1
    rw [Nat.toNat_digitChar_of_lt_ten (by simpa using hd)]
    simp only [show '0'.toNat = 48 from rfl]
    omega
  · cases h
    omega
  · cases h
    omega

/-- Digits behind a number that is not zero continue its text. -/
theorem toDigits_append_of_readDigits {acc n : Nat} {text : List Char} (hacc : 0 < acc)
    (h : readDigits 10 acc text = some n) : Nat.toDigits 10 acc ++ text = Nat.toDigits 10 n := by
  induction text generalizing acc with
  | nil =>
    cases h
    exact List.append_nil _
  | cons c cs ih =>
    rw [readDigits] at h
    cases hc : digitValue c with
    | none => rw [hc] at h; cases h
    | some d =>
      simp only [hc] at h
      split_ifs at h with hd
      rw [← ih (by omega) h, eq_digitChar_of_digitValue hc hd, mul_comm acc 10,
        ← Nat.toDigits_append_toDigits (by decide) hacc hd, Nat.toDigits_of_lt_base hd, List.append_assoc]
      rfl

/-- A byte is written in one way only. -/
theorem eq_toDigits_of_isDecimalByte {text : List Char} (h : isDecimalByte text = true) :
    ∃ n < 256, text = Nat.toDigits 10 n := by
  simp only [isDecimalByte, isDigits, Bool.and_eq_true, Bool.or_eq_true, decide_eq_true_eq, beq_iff_eq,
    bne_iff_ne] at h
  obtain ⟨⟨⟨⟨hne, -⟩, -⟩, hzeros⟩, hvalue⟩ := h
  obtain ⟨n, hn, hle⟩ := (Option.any_eq_true _ _).1 hvalue
  have hbyte : n < 256 := Nat.lt_succ_of_le (of_decide_eq_true hle)
  refine ⟨n, hbyte, ?_⟩
  cases text with
  | nil => cases hne
  | cons c cs =>
    rw [readDigits] at hn
    cases hc : digitValue c with
    | none => rw [hc] at hn; cases hn
    | some d =>
      simp only [hc] at hn
      split_ifs at hn with hd
      rw [eq_digitChar_of_digitValue hc hd] at hzeros ⊢
      rw [zero_mul, zero_add] at hn
      rcases hzeros with hone | hfirst
      · have hcs : cs = [] := List.eq_nil_of_length_eq_zero (by simpa using hone)
        subst hcs
        cases hn
        rw [Nat.toDigits_of_lt_base hd]
      · have hpos : 0 < d := by
          rcases Nat.eq_zero_or_pos d with rfl | hpos
          · exact absurd rfl hfirst
          · exact hpos
        rw [← toDigits_append_of_readDigits hpos hn, Nat.toDigits_of_lt_base hd]
        rfl

end Ecommerce
