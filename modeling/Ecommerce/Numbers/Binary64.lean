import Mathlib.Data.Int.Log
import Mathlib.Data.Rat.Floor
import Mathlib.Algebra.Order.Field.Power
import Mathlib.RingTheory.Coprime.Lemmas
import Mathlib.RingTheory.Int.Basic
import Mathlib.RingTheory.PrincipalIdealDomain
import Mathlib.Tactic.Linarith
import Mathlib.Tactic.Positivity

/-!
# Numbers of double precision

The finite values of the binary format with 53 bits, the rounding of a rational to the nearest of them,
and the numbers of a language that has no others: the finite values, the two infinities and `NaN`. There
is one zero.

## Main definitions

* `Numbers.Representable q`: `q` is a finite value of the format.
* `Numbers.rounded q`: the nearest value with 53 bits, the even one of two.
* `Numbers.Number`: a number, with arithmetic that rounds.
* `Numbers.counter n`: what a counter reads after `n` increments.
-/

namespace Numbers

/-- A finite value: an integer of 53 bits times a power of two. -/
def Representable (q : ℚ) : Prop := |q| < 2 ^ 1024 ∧ ∃ m e : ℤ, |m| < 2 ^ 53 ∧ -1074 ≤ e ∧ q = m * 2 ^ e

/-- The nearest integer, the even one of two. -/
def halfEven (x : ℚ) : ℤ :=
  if x - ⌊x⌋ < 1 / 2 then ⌊x⌋ else if 1 / 2 < x - ⌊x⌋ then ⌊x⌋ + 1 else if 2 ∣ ⌊x⌋ then ⌊x⌋ else ⌊x⌋ + 1

/-- The exponent of the last of the 53 bits of a number. -/
def exponent (q : ℚ) : ℤ := max (Int.log 2 |q| - 52) (-1074)

/-- The nearest value with 53 bits, whatever its size. -/
def rounded (q : ℚ) : ℚ := halfEven (q / 2 ^ exponent q) * 2 ^ exponent q

variable {q : ℚ} {n : ℤ}

/-! ## Rounding -/

theorem halfEven_intCast (n : ℤ) : halfEven n = n := by simp [halfEven]

theorem halfEven_bounds (x : ℚ) : ⌊x⌋ ≤ halfEven x ∧ halfEven x ≤ ⌊x⌋ + 1 := by
  unfold halfEven
  split_ifs <;> omega

theorem abs_halfEven_le {x : ℚ} {k : ℤ} (h : |x| < k) : |halfEven x| ≤ k := by
  obtain ⟨hlow, hhigh⟩ := abs_lt.1 h
  obtain ⟨hfloor, hfloor'⟩ := halfEven_bounds x
  have hge : -k ≤ ⌊x⌋ := Int.le_floor.2 (by push_cast; exact hlow.le)
  have hlt : ⌊x⌋ < k := Int.floor_lt.2 hhigh
  rw [abs_le]
  constructor <;> omega

theorem abs_lt_two_zpow_exponent (q : ℚ) : |q| < 2 ^ (exponent q + 53) := by
  calc |q| < 2 ^ (Int.log 2 |q| + 1) := by exact_mod_cast Int.lt_zpow_succ_log_self (by norm_num) |q|
    _ ≤ 2 ^ (exponent q + 53) := by
      apply zpow_le_zpow_right₀ (by norm_num)
      have := le_max_left (Int.log 2 |q| - 52) (-1074)
      unfold exponent
      omega

theorem abs_div_exponent_lt (q : ℚ) : |q / 2 ^ exponent q| < ((2 ^ 53 : ℤ) : ℚ) := by
  have hscale : (0 : ℚ) < 2 ^ exponent q := by positivity
  rw [abs_div, abs_of_pos hscale, div_lt_iff₀ hscale]
  calc |q| < 2 ^ (exponent q + 53) := abs_lt_two_zpow_exponent q
    _ = ((2 ^ 53 : ℤ) : ℚ) * 2 ^ exponent q := by
      rw [zpow_add₀ (by norm_num)]
      push_cast
      rw [mul_comm]

/-- A number that is rounded has 53 bits. -/
theorem rounded_eq_mul (q : ℚ) : ∃ m e : ℤ, |m| < 2 ^ 53 ∧ -1074 ≤ e ∧ rounded q = m * 2 ^ e := by
  have hle := abs_halfEven_le (abs_div_exponent_lt q)
  have hexp : -1074 ≤ exponent q := le_max_right _ _
  obtain hlt | heq := hle.lt_or_eq
  · exact ⟨_, _, hlt, hexp, rfl⟩
  · -- The carry out of 53 bits is a power of two.
    refine ⟨halfEven (q / 2 ^ exponent q) / 2, exponent q + 1, ?_, by omega, ?_⟩
    · obtain h | h := (abs_eq (by norm_num)).1 heq <;> rw [h] <;> norm_num
    · have hhalf : (((halfEven (q / 2 ^ exponent q) / 2 : ℤ)) : ℚ) = halfEven (q / 2 ^ exponent q) / 2 := by
        obtain h | h := (abs_eq (by norm_num)).1 heq <;> rw [h] <;> norm_num
      rw [hhalf, zpow_add_one₀ (by norm_num), rounded]
      ring

/-- A value is not changed. -/
theorem rounded_of_representable (h : Representable q) : rounded q = q := by
  obtain ⟨-, m, e, hm, he, hq⟩ := h
  by_cases hzero : q = 0
  · have hround : halfEven (0 : ℚ) = 0 := by exact_mod_cast halfEven_intCast 0
    rw [hzero, rounded, zero_div, hround]
    simp
  have hexp : exponent q ≤ e := by
    have hpos : 0 < |q| := abs_pos.2 hzero
    have hlt : |q| < ((2 : ℕ) : ℚ) ^ (e + 53) := by
      have hm' : |(m : ℚ)| < 2 ^ 53 := by exact_mod_cast hm
      have hpow : (0 : ℚ) < 2 ^ e := by positivity
      rw [hq, abs_mul, abs_of_pos hpow, Nat.cast_ofNat, zpow_add₀ (by norm_num), mul_comm]
      exact mul_lt_mul_of_pos_left hm' hpow
    have hlog := (Int.lt_zpow_iff_log_lt (by norm_num) hpos).1 hlt
    unfold exponent
    omega
  have hint : q / 2 ^ exponent q = ((m * 2 ^ (e - exponent q).toNat : ℤ) : ℚ) := by
    rw [hq, div_eq_iff (by positivity), ← hq]
    push_cast
    rw [mul_assoc, ← zpow_natCast, Int.toNat_of_nonneg (by omega), ← zpow_add₀ (by norm_num), sub_add_cancel, hq]
  rw [rounded, hint, halfEven_intCast, ← hint, div_mul_cancel₀ _ (by positivity)]

/-! ## Values -/

theorem representable_intCast (h : |n| ≤ 2 ^ 53) : Representable n := by
  have hlarge : (2 : ℚ) ^ 53 < 2 ^ 1024 := pow_lt_pow_right₀ (by norm_num) (by norm_num)
  have habs : |(n : ℚ)| ≤ 2 ^ 53 := by exact_mod_cast h
  refine ⟨habs.trans_lt hlarge, ?_⟩
  obtain hlt | heq := h.lt_or_eq
  · exact ⟨n, 0, hlt, by norm_num, by simp⟩
  · obtain rfl | rfl := (abs_eq (by norm_num)).1 heq
    · exact ⟨2 ^ 52, 1, by norm_num, by norm_num, by norm_num⟩
    · exact ⟨-2 ^ 52, 1, by norm_num, by norm_num, by norm_num⟩

/-- An odd number beyond 53 bits is a factor of no value but zero. -/
theorem not_representable_mul {k : ℤ} (hodd : ¬ 2 ∣ k) (hk : 2 ^ 53 < k) {l : ℚ} (hl : Representable l)
    (hzero : l ≠ 0) : ¬ Representable (k * l) := by
  rintro ⟨-, m, e, hm, -, hprod⟩
  obtain ⟨-, m', e', -, -, rfl⟩ := hl
  have hcoprime : ∀ j : ℕ, IsCoprime k ((2 : ℤ) ^ j) := fun j =>
    (((Prime.coprime_iff_not_dvd Int.prime_two).2 hodd).symm).pow_right
  have hdvd : k ∣ m := by
    obtain hle | hlt := le_or_gt e' e
    · have heq : k * m' = m * 2 ^ (e - e').toNat := by
        have hq : ((k * m' : ℤ) : ℚ) = ((m * 2 ^ (e - e').toNat : ℤ) : ℚ) := by
          have hpow : (2 : ℚ) ^ e' ≠ 0 := by positivity
          apply mul_right_cancel₀ hpow
          push_cast
          rw [mul_assoc (m : ℚ), ← zpow_natCast, Int.toNat_of_nonneg (by omega), ← zpow_add₀ (by norm_num),
            sub_add_cancel, ← hprod]
          ring
        exact_mod_cast hq
      exact (hcoprime _).dvd_of_dvd_mul_right (Dvd.intro _ heq)
    · have heq : k * (m' * 2 ^ (e' - e).toNat) = m := by
        have hq : ((k * (m' * 2 ^ (e' - e).toNat) : ℤ) : ℚ) = (m : ℚ) := by
          have hpow : (2 : ℚ) ^ e ≠ 0 := by positivity
          apply mul_right_cancel₀ hpow
          push_cast
          rw [mul_assoc, mul_assoc (m' : ℚ), ← zpow_natCast, Int.toNat_of_nonneg (by omega),
            ← zpow_add₀ (by norm_num), sub_add_cancel, ← hprod]
        exact_mod_cast hq
      exact Dvd.intro _ heq
  have hm0 : m = 0 := by
    by_contra hne
    have := Int.le_of_dvd (abs_pos.2 hne) ((dvd_abs _ _).2 hdvd)
    omega
  rw [hm0] at hprod
  have hk0 : (k : ℚ) ≠ 0 := by
    have : k ≠ 0 := by omega
    exact_mod_cast this
  exact (mul_ne_zero hk0 hzero) (by simpa using hprod)

/-- An integer is rounded to an integer. -/
theorem rounded_intCast (n : ℤ) : ∃ k : ℤ, rounded n = k := by
  obtain hsmall | hlarge := le_or_gt |n| (2 ^ 53)
  · exact ⟨n, rounded_of_representable (representable_intCast hsmall)⟩
  · have hexp : 0 ≤ exponent n := by
      have hpow : ((2 : ℕ) : ℚ) ^ (53 : ℤ) ≤ |(n : ℚ)| := by exact_mod_cast hlarge.le
      have hpos : 0 < |(n : ℚ)| := by
        have : 0 < |n| := by omega
        exact_mod_cast this
      have hlog := (Int.zpow_le_iff_le_log (by norm_num) hpos).1 hpow
      unfold exponent
      omega
    refine ⟨halfEven (n / 2 ^ exponent (n : ℚ)) * 2 ^ (exponent (n : ℚ)).toNat, ?_⟩
    push_cast
    rw [← zpow_natCast, Int.toNat_of_nonneg hexp, rounded]

/-- Integers beyond 53 bits that are values are even. -/
theorem even_of_representable (h : Representable n) (hn : 2 ^ 53 < n) : 2 ∣ n := by
  by_contra hodd
  exact not_representable_mul hodd hn (representable_intCast (n := 1) (by norm_num)) (by norm_num) (by simpa using h)

/-! ## The largest odd integer of 53 bits -/

theorem rounded_of_exponent_zero (h : exponent q = 0) : rounded q = halfEven q := by simp [rounded, h]

theorem exponent_eq_zero (hlow : 2 ^ 52 ≤ q) (hhigh : q < 2 ^ 53) : exponent q = 0 := by
  have hpos : 0 < |q| := abs_pos.2 (by linarith)
  have habs : |q| = q := abs_of_pos (by linarith)
  have hge : (52 : ℤ) ≤ Int.log 2 |q| := by
    apply (Int.zpow_le_iff_le_log (by norm_num) hpos).1
    rw [habs]
    exact_mod_cast hlow
  have hlt : Int.log 2 |q| < 53 := by
    apply (Int.lt_zpow_iff_log_lt (by norm_num) hpos).1
    rw [habs]
    exact_mod_cast hhigh
  unfold exponent
  omega

theorem abs_halfEven_sub_le (x : ℚ) : |(halfEven x : ℚ) - x| ≤ 1 / 2 := by
  have hfloor := Int.floor_le x
  have hfloor' := Int.lt_floor_add_one x
  rw [abs_le]
  unfold halfEven
  split_ifs <;> push_cast <;> constructor <;> linarith

/-- The error of rounding a number below a power of two. -/
theorem abs_rounded_sub_le {k : ℤ} (hk : -1021 ≤ k) (h : |q| < 2 ^ k) : |rounded q - q| ≤ 2 ^ (k - 54) := by
  obtain rfl | hne := eq_or_ne q 0
  · have hzero : rounded 0 = 0 := by
      rw [rounded_of_representable (by exact_mod_cast representable_intCast (n := 0) (by norm_num))]
    rw [hzero, sub_zero, abs_zero]
    positivity
  have hlog : Int.log 2 |q| < k := (Int.lt_zpow_iff_log_lt (by norm_num) (abs_pos.2 hne)).1 (by exact_mod_cast h)
  have hexp : exponent q ≤ k - 53 := by
    unfold exponent
    omega
  have hscale : (0 : ℚ) < 2 ^ exponent q := by positivity
  have hsplit : rounded q - q = (halfEven (q / 2 ^ exponent q) - q / 2 ^ exponent q) * 2 ^ exponent q := by
    rw [sub_mul, div_mul_cancel₀ _ hscale.ne', rounded]
  calc |rounded q - q| = |(halfEven (q / 2 ^ exponent q) : ℚ) - q / 2 ^ exponent q| * 2 ^ exponent q := by
        rw [hsplit, abs_mul, abs_of_pos hscale]
    _ ≤ 1 / 2 * 2 ^ (k - 53) :=
        mul_le_mul (abs_halfEven_sub_le _) (zpow_le_zpow_right₀ (by norm_num) hexp) hscale.le (by norm_num)
    _ = 2 ^ (k - 54) := by
        rw [show k - 53 = k - 54 + 1 by ring, zpow_add_one₀ (by norm_num)]
        ring

theorem rounded_nonneg (h : 0 ≤ q) : 0 ≤ rounded q := by
  have hfloor : 0 ≤ ⌊q / 2 ^ exponent q⌋ := Int.floor_nonneg.2 (by positivity)
  have hhalf : (0 : ℚ) ≤ halfEven (q / 2 ^ exponent q) := by exact_mod_cast hfloor.trans (halfEven_bounds _).1
  exact mul_nonneg hhalf (by positivity)

/-- What is rounded beyond `2 ^ 53 - 1`. -/
theorem le_rounded (h : 2 ^ 53 - 1 / 2 ≤ q) : 2 ^ 53 ≤ rounded q := by
  obtain hlt | hge := lt_or_ge q (2 ^ 53)
  · have hfloor : ⌊q⌋ = 2 ^ 53 - 1 := by
      rw [Int.floor_eq_iff]
      push_cast
      constructor <;> linarith
    have hup : halfEven q = 2 ^ 53 := by
      have hnot : ¬ q - ⌊q⌋ < 1 / 2 := by
        rw [hfloor]
        push_cast
        linarith
      rw [halfEven, if_neg hnot, hfloor]
      split_ifs with hmore hodd
      · norm_num
      · norm_num at hodd
      · norm_num
    rw [rounded_of_exponent_zero (exponent_eq_zero (by linarith) hlt), hup]
    norm_num
  · have hpos : 0 < |q| := abs_pos.2 (by linarith)
    have habs : |q| = q := abs_of_pos (by linarith)
    have hlog : (53 : ℤ) ≤ Int.log 2 |q| := by
      apply (Int.zpow_le_iff_le_log (by norm_num) hpos).1
      rw [habs]
      exact_mod_cast hge
    have hexp : exponent q = Int.log 2 |q| - 52 := max_eq_left (by omega)
    have hscaled : ((2 ^ 52 : ℤ) : ℚ) ≤ q / 2 ^ exponent q := by
      rw [le_div_iff₀ (by positivity)]
      calc ((2 ^ 52 : ℤ) : ℚ) * 2 ^ exponent q = 2 ^ Int.log 2 |q| := by
            rw [hexp, zpow_sub₀ (by norm_num)]
            push_cast
            rw [mul_div_assoc', mul_comm]
            exact mul_div_cancel_right₀ _ (by norm_num)
        _ ≤ |q| := by exact_mod_cast Int.zpow_log_le_self (b := 2) (by norm_num) hpos
        _ = q := habs
    have hhalf : ((2 ^ 52 : ℤ) : ℚ) ≤ halfEven (q / 2 ^ exponent q) := by
      exact_mod_cast (Int.le_floor.2 hscaled).trans (halfEven_bounds _).1
    calc (2 : ℚ) ^ 53 = ((2 ^ 52 : ℤ) : ℚ) * 2 ^ (1 : ℤ) := by norm_num
      _ ≤ halfEven (q / 2 ^ exponent q) * 2 ^ exponent q := by
        apply mul_le_mul hhalf _ (by positivity) (le_trans (by norm_num) hhalf)
        exact zpow_le_zpow_right₀ (by norm_num) (by omega)

/-- What is rounded to `2 ^ 53 - 1` at most. -/
theorem rounded_le (hq : 0 ≤ q) (h : q < 2 ^ 53 - 1 / 2) : rounded q ≤ 2 ^ 53 - 1 := by
  obtain hlt | hge := lt_or_ge q (2 ^ 52)
  · obtain rfl | hpos := hq.eq_or_lt
    · rw [rounded_of_representable (by exact_mod_cast representable_intCast (n := 0) (by norm_num))]
      norm_num
    have hlog : Int.log 2 |q| < 52 := by
      apply (Int.lt_zpow_iff_log_lt (by norm_num) (abs_pos.2 hpos.ne')).1
      rw [abs_of_pos hpos]
      exact_mod_cast hlt
    have hexp : exponent q ≤ -1 := by
      unfold exponent
      omega
    have hscaled : |q / 2 ^ exponent q| < ((2 ^ 53 : ℤ) : ℚ) := abs_div_exponent_lt q
    have hhalf : (halfEven (q / 2 ^ exponent q) : ℚ) ≤ 2 ^ 53 := by
      exact_mod_cast (le_abs_self _).trans (abs_halfEven_le hscaled)
    calc rounded q ≤ 2 ^ 53 * 2 ^ (-1 : ℤ) := by
          apply mul_le_mul hhalf _ (by positivity) (by norm_num)
          exact zpow_le_zpow_right₀ (by norm_num) hexp
      _ ≤ 2 ^ 53 - 1 := by norm_num
  · rw [rounded_of_exponent_zero (exponent_eq_zero hge (by linarith))]
    have hfloor : ⌊q⌋ < 2 ^ 53 := Int.floor_lt.2 (by push_cast; linarith)
    have hle : halfEven q ≤ 2 ^ 53 - 1 := by
      obtain hbelow | hlast := (Int.lt_add_one_iff.1 (by omega : ⌊q⌋ < 2 ^ 53 - 1 + 1)).lt_or_eq
      · have := (halfEven_bounds q).2
        omega
      · have hlow : q - ⌊q⌋ < 1 / 2 := by
          rw [hlast]
          push_cast
          linarith
        rw [halfEven, if_pos hlow, hlast]
    exact_mod_cast hle

/-- The integer after `2 ^ 53` is rounded to it. -/
theorem rounded_two_pow_add_one : rounded (2 ^ 53 + 1) = 2 ^ 53 := by
  have hlog : Int.log 2 |(2 ^ 53 + 1 : ℚ)| = 53 := by
    have hcast : |(2 ^ 53 + 1 : ℚ)| = ((2 ^ 53 + 1 : ℕ) : ℚ) := by
      rw [abs_of_pos (by positivity)]
      norm_num
    rw [hcast, Int.log_natCast]
    exact_mod_cast Nat.log_eq_of_pow_le_of_lt_pow (by norm_num) (by norm_num)
  have hexp : exponent (2 ^ 53 + 1) = 1 := by
    rw [exponent, hlog]
    norm_num
  -- It lies in the middle of two values, of which the lower one is even.
  have hfloor : ⌊((2 ^ 53 + 1) / 2 ^ (1 : ℤ) : ℚ)⌋ = 2 ^ 52 := by
    rw [Int.floor_eq_iff]
    norm_num
  have heven : halfEven ((2 ^ 53 + 1) / 2 ^ (1 : ℤ)) = 2 ^ 52 := by
    rw [halfEven, hfloor]
    norm_num
  rw [rounded, hexp, heven]
  norm_num

/-! ## Numbers -/

inductive Number where
  | nan
  | infinity (negative : Bool)
  | finite (value : ℚ) (representable : Representable value)

namespace Number

variable {x y : Number}

/-- The number of a result that is computed exactly, which overflows to an infinity. -/
def ofRat (q : ℚ) : Number :=
  if h : |rounded q| < 2 ^ 1024 then finite (rounded q) ⟨h, rounded_eq_mul q⟩ else infinity (decide (q < 0))

/-- The value, if it is finite. -/
def value? : Number → Option ℚ
  | finite q _ => some q
  | nan | infinity _ => none

/-- `<` -/
def lt : Number → Number → Bool
  | finite a _, finite b _ => decide (a < b)
  | finite _ _, infinity negative => !negative
  | infinity negative, finite _ _ => negative
  | infinity a, infinity b => a && !b
  | nan, _ | _, nan => false

/-- `<=` -/
def le : Number → Number → Bool
  | nan, _ | _, nan => false
  | a, b => !b.lt a

def max : Number → Number → Number
  | nan, _ | _, nan => nan
  | a, b => if a.lt b then b else a

def min : Number → Number → Number
  | nan, _ | _, nan => nan
  | a, b => if b.lt a then b else a

/-- `a - b` -/
def sub : Number → Number → Number
  | finite a _, finite b _ => ofRat (a - b)
  | finite _ _, infinity negative => infinity !negative
  | infinity negative, finite _ _ => infinity negative
  | infinity a, infinity b => if a = b then nan else infinity a
  | nan, _ | _, nan => nan

/-- `a * b` -/
def mul : Number → Number → Number
  | finite a _, finite b _ => ofRat (a * b)
  | finite a _, infinity negative | infinity negative, finite a _ =>
    if a = 0 then nan else infinity (negative.xor (decide (a < 0)))
  | infinity a, infinity b => infinity (a.xor b)
  | nan, _ | _, nan => nan

/-- `a + b` -/
def add : Number → Number → Number
  | finite a _, finite b _ => ofRat (a + b)
  | finite _ _, infinity negative | infinity negative, finite _ _ => infinity negative
  | infinity a, infinity b => if a = b then infinity a else nan
  | nan, _ | _, nan => nan

/-- `a / b` -/
def div : Number → Number → Number
  | finite a _, finite b _ =>
    if b ≠ 0 then ofRat (a / b) else if a = 0 then nan else infinity (decide (a < 0))
  | finite _ _, infinity _ => ofRat 0
  | infinity negative, finite b _ => infinity (negative.xor (decide (b < 0)))
  | infinity _, infinity _ => nan
  | nan, _ | _, nan => nan

/-- Neither `NaN` nor zero. -/
def truthy : Number → Bool
  | nan => false
  | infinity _ => true
  | finite q _ => decide (q ≠ 0)

theorem ofRat_of_representable (h : Representable q) : ofRat q = finite q h := by
  have hround := rounded_of_representable h
  have hlt : |rounded q| < 2 ^ 1024 := by
    rw [hround]
    exact h.1
  rw [ofRat, dif_pos hlt]
  congr

theorem ofRat_congr {p : ℚ} (hrounded : rounded p = rounded q) (hsign : p < 0 ↔ q < 0) : ofRat p = ofRat q := by
  simp only [ofRat, hrounded, hsign]

theorem representable_of_value? (h : x.value? = some q) : Representable q := by
  cases x with
  | finite q' hq =>
    obtain rfl := Option.some.inj h
    exact hq
  | nan | infinity => cases h

theorem eq_finite_of_value? (h : x.value? = some q) : x = finite q (representable_of_value? h) := by
  cases x with
  | finite q' hq =>
    obtain rfl := Option.some.inj h
    rfl
  | nan | infinity => cases h

@[simp] theorem value?_finite (h : Representable q) : (finite q h).value? = some q := rfl

theorem value?_ofRat (h : Representable q) : (ofRat q).value? = some q := by rw [ofRat_of_representable h, value?_finite]

/-- A number below a power of two does not overflow. -/
theorem ofRat_eq_finite {k : ℤ} (hlow : -1021 ≤ k) (hhigh : k ≤ 1022) (h : |q| < 2 ^ k) :
    ∃ hq : Representable (rounded q), ofRat q = finite (rounded q) hq := by
  have herror := abs_rounded_sub_le hlow h
  have hround : |rounded q| < 2 ^ 1024 := by
    calc |rounded q| = |(rounded q - q) + q| := by rw [sub_add_cancel]
      _ ≤ |rounded q - q| + |q| := abs_add_le _ _
      _ < 2 ^ (k - 54) + 2 ^ k := add_lt_add_of_le_of_lt herror h
      _ ≤ 2 ^ k + 2 ^ k := add_le_add (zpow_le_zpow_right₀ (by norm_num) (by omega)) le_rfl
      _ = 2 ^ (k + 1) := by
        rw [zpow_add_one₀ (by norm_num)]
        ring
      _ ≤ 2 ^ (1024 : ℤ) := zpow_le_zpow_right₀ (by norm_num) (by omega)
      _ = 2 ^ 1024 := zpow_ofNat 2 1024
  exact ⟨⟨hround, rounded_eq_mul q⟩, dif_pos hround⟩

/-! ## Safe integers -/

/-- A finite number that is at most `2 ^ 53 - 1`. -/
def Safe (x : Number) : Prop := ∃ q, x.value? = some q ∧ q ≤ 2 ^ 53 - 1

theorem ofRat_safe_iff (hq : 0 ≤ q) : (ofRat q).Safe ↔ q < 2 ^ 53 - 1 / 2 := by
  have hlarge : (2 : ℚ) ^ 53 < 2 ^ 1024 := pow_lt_pow_right₀ (by norm_num) (by norm_num)
  constructor
  · rintro ⟨r, hr, hle⟩
    by_contra hge
    have hround := le_rounded (not_lt.1 hge)
    rw [ofRat] at hr
    split at hr
    · obtain rfl : rounded q = r := Option.some.inj hr
      linarith
    · cases hr
  · intro hlt
    have hround := rounded_le hq hlt
    have habs : |rounded q| < 2 ^ 1024 := by
      rw [abs_of_nonneg (rounded_nonneg hq)]
      calc rounded q ≤ 2 ^ 53 - 1 := hround
        _ < 2 ^ 53 := by norm_num
        _ < 2 ^ 1024 := hlarge
    refine ⟨rounded q, ?_, hround⟩
    rw [ofRat, dif_pos habs]
    rfl

theorem ofRat_intCast_safe_iff (hn : 0 ≤ n) : (ofRat n).Safe ↔ n ≤ 2 ^ 53 - 1 := by
  have hn' : (0 : ℚ) ≤ n := by exact_mod_cast hn
  rw [ofRat_safe_iff hn']
  constructor
  · intro h
    by_contra hlarge
    have : (2 ^ 53 : ℚ) ≤ n := by
      have : 2 ^ 53 ≤ n := by omega
      exact_mod_cast this
    linarith
  · intro h
    have : (n : ℚ) ≤ 2 ^ 53 - 1 := by exact_mod_cast h
    linarith

/-- Integers are added up without loss as long as their sum has at most 53 bits. -/
theorem foldl_add_intCast {α : Type*} {f : α → Number} {g : α → ℤ} (xs : List α)
    (hf : ∀ x ∈ xs, f x = .ofRat (g x)) (hg : ∀ x ∈ xs, 0 ≤ g x) {m : ℤ} (hm : 0 ≤ m)
    (hle : m + (xs.map g).sum ≤ 2 ^ 53) :
    xs.foldl (fun (s : Number) x => s.add (f x)) (.ofRat m) = .ofRat ((m + (xs.map g).sum : ℤ) : ℚ) := by
  induction xs generalizing m with
  | nil => simp
  | cons x rest ih =>
    obtain ⟨hx, hrest⟩ := List.forall_mem_cons.1 hg
    have hsum : 0 ≤ (rest.map g).sum := List.sum_nonneg (List.forall_mem_map.2 hrest)
    rw [List.map_cons, List.sum_cons] at hle ⊢
    have hm' : Representable m := representable_intCast (by rw [abs_of_nonneg hm]; omega)
    have hx' : Representable (g x) := representable_intCast (by rw [abs_of_nonneg hx]; omega)
    have hadd : (ofRat m).add (f x) = ofRat ((m + g x : ℤ) : ℚ) := by
      rw [hf x List.mem_cons_self, ofRat_of_representable hm', ofRat_of_representable hx', add, Int.cast_add]
    have hrest' := ih (fun y hy => hf y (List.mem_cons_of_mem _ hy)) hrest (add_nonneg hm hx) (by omega)
    rw [List.foldl_cons, hadd, hrest', add_assoc]

/-! ## Order -/

theorem le_iff (hx : x ≠ nan) (hy : y ≠ nan) : x.le y = true ↔ y.lt x = false := by
  cases x with
  | nan => exact absurd rfl hx
  | infinity | finite =>
    cases y with
    | nan => exact absurd rfl hy
    | infinity | finite => simp [le]

theorem lt_irrefl (x : Number) : x.lt x = false := by cases x <;> simp [lt]

theorem le_trans {z : Number} (h : x.le y = true) (h' : y.le z = true) : x.le z = true := by
  cases x with
  | nan => cases h
  | infinity i =>
    cases y with
    | nan => cases h
    | infinity j | finite => cases z <;> simp_all [le, lt] <;> grind
  | finite a ha =>
    cases y with
    | nan => cases h
    | infinity j => cases z <;> simp_all [le, lt]
    | finite b hb =>
      cases z with
      | nan => cases h'
      | infinity => simpa [le, lt] using h'
      | finite c hc =>
        simp only [le, lt, Bool.not_eq_true', decide_eq_false_iff_not, not_lt] at h h' ⊢
        exact h.trans h'

theorem max_eq (hx : x ≠ nan) (hy : y ≠ nan) : x.max y = if x.lt y then y else x := by
  cases x with
  | nan => exact absurd rfl hx
  | infinity | finite =>
    cases y with
    | nan => exact absurd rfl hy
    | infinity | finite => rfl

theorem min_eq (hx : x ≠ nan) (hy : y ≠ nan) : x.min y = if y.lt x then y else x := by
  cases x with
  | nan => exact absurd rfl hx
  | infinity | finite =>
    cases y with
    | nan => exact absurd rfl hy
    | infinity | finite => rfl

/-- What is brought above one number and below another is between them just if they are in order. -/
theorem between_iff {a low high : Number} (ha : a ≠ nan) (hlow : low ≠ nan) (hhigh : high ≠ nan) :
    low.le ((a.max low).min high) = true ∧ ((a.max low).min high).le high = true ↔ low.le high = true := by
  have hmax : a.max low ≠ nan ∧ low.le (a.max low) = true := by
    rw [max_eq ha hlow]
    split
    · exact ⟨hlow, (le_iff hlow hlow).2 (lt_irrefl low)⟩
    · next hlt => exact ⟨ha, (le_iff hlow ha).2 (by simpa using hlt)⟩
  constructor
  · rintro ⟨h, h'⟩
    exact le_trans h h'
  · intro h
    rw [min_eq hmax.1 hhigh]
    split
    · exact ⟨h, (le_iff hhigh hhigh).2 (lt_irrefl high)⟩
    · next hlt => exact ⟨hmax.2, (le_iff hmax.1 hhigh).2 (by simpa using hlt)⟩

end Number

/-! ## Counters -/

/-- What a counter reads that has been incremented so often. It does not get past `2 ^ 53`. -/
def counter (n : ℕ) : Number := .ofRat (min n (2 ^ 53) : ℕ)

theorem representable_counter (n : ℕ) : Representable ((min n (2 ^ 53) : ℕ) : ℚ) := by
  have hle : |((min n (2 ^ 53) : ℕ) : ℤ)| ≤ 2 ^ 53 := by
    rw [Nat.abs_cast]
    exact_mod_cast min_le_right n (2 ^ 53)
  exact_mod_cast representable_intCast hle

theorem counter_value? (n : ℕ) : (counter n).value? = some ((min n (2 ^ 53) : ℕ) : ℚ) :=
  Number.value?_ofRat (representable_counter n)

theorem counter_zero : counter 0 = .ofRat 0 := by simp [counter]

theorem counter_truthy {n : ℕ} (h : n ≠ 0) : (counter n).truthy = true := by
  have hmin : min n (2 ^ 53) ≠ 0 := by omega
  rw [counter, Number.ofRat_of_representable (representable_counter n), Number.truthy]
  exact decide_eq_true (Nat.cast_ne_zero.2 hmin)

theorem counter_le {m n : ℕ} (h : m ≤ n) : (counter m).le (counter n) = true := by
  have hmin : ((min m (2 ^ 53) : ℕ) : ℚ) ≤ (min n (2 ^ 53) : ℕ) := Nat.cast_le.2 (min_le_min_right _ h)
  rw [counter, counter, Number.ofRat_of_representable (representable_counter m),
    Number.ofRat_of_representable (representable_counter n)]
  refine (Number.le_iff ?_ ?_).2 (decide_eq_false (not_lt.2 hmin)) <;> exact nofun

/-- One more. -/
theorem counter_add_one (n : ℕ) : (counter n).add (.ofRat 1) = counter (n + 1) := by
  have hone : Representable 1 := by simpa using representable_intCast (n := 1) (by norm_num)
  have hsum : (counter n).add (.ofRat 1) = .ofRat ((min n (2 ^ 53) : ℕ) + 1) := by
    rw [counter, Number.ofRat_of_representable (representable_counter n), Number.ofRat_of_representable hone]
    rfl
  obtain hlt | hge := lt_or_ge n (2 ^ 53)
  · have hmin : min (n + 1) (2 ^ 53) = min n (2 ^ 53) + 1 := by omega
    rw [hsum, counter, hmin, Nat.cast_add_one]
  · -- The sum is rounded back.
    have hmin : ((min n (2 ^ 53) : ℕ) : ℚ) = 2 ^ 53 := by
      rw [min_eq_right hge]
      norm_num
    have hmin' : ((min (n + 1) (2 ^ 53) : ℕ) : ℚ) = 2 ^ 53 := by
      rw [min_eq_right (hge.trans n.le_succ)]
      norm_num
    have hvalue : Representable (2 ^ 53) := hmin ▸ representable_counter n
    rw [hsum, counter, hmin, hmin']
    refine Number.ofRat_congr ?_ (iff_of_false (by norm_num) (by norm_num))
    rw [rounded_two_pow_add_one, rounded_of_representable hvalue]

end Numbers
