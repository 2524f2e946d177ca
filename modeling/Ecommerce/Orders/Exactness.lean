import Ecommerce.Model.Amounts
import Ecommerce.Orders.Totals

/-!
# Where sums of cents are exact

No schema bounds a price from above, so that sums of cents can take more than 53 bits. They are exact for the
carts, and the coupons, whose cents stay at or below `2 ^ 53 - 1`.
-/

namespace Ecommerce

namespace Doubles

open Numbers
open Numbers.Number (Safe)

variable {lines : List PricedLine} {line : PricedLine} {coupon : CouponTerms} {x y s : Number} {q : ℚ} {k t : ℤ}

/-! ## The range -/

/-- The cents of an amount, if it does not overflow. -/
def centsOf (amount : Number) : Option ℤ := (toCents amount).value?.map Int.floor

/-- The sum of the lines, each the cents of its price times its quantity. -/
def exactSubtotal : List PricedLine → Option ℤ
  | [] => some 0
  | line :: rest => (centsOf line.price).bind fun c => (exactSubtotal rest).map fun t => c * line.quantity + t

/-- The coupon on a subtotal: a percentage gives a product below `2 ^ 53 - 1 / 2`, and amounts have at most
`2 ^ 53 - 1` cents. -/
structure CouponTerms.InRange (coupon : CouponTerms) (t : ℤ) : Prop where
  value : match coupon.type with
    | .percentage => ∀ q, coupon.value.value? = some q → t * q < 2 ^ 53 - 1 / 2
    | .fixed => (toCents coupon.value).Safe
  maxDiscount : ∀ m ∈ coupon.maxDiscount, m.truthy = true → (toCents m).Safe

/-- The lines add up to at most `2 ^ 53 - 1` cents, and the coupon stays in the range on them. -/
def InRange (lines : List PricedLine) (coupon : Option CouponTerms) : Prop :=
  ∃ t, exactSubtotal lines = some t ∧ t ≤ 2 ^ 53 - 1 ∧ ∀ c ∈ coupon, c.InRange t

/-! ## Amounts -/

/-- Zero or more, or infinite. -/
def Nonneg : Number → Prop
  | .finite q _ => 0 ≤ q
  | .infinity negative => negative = false
  | .nan => False

/-- An integer that is zero or more, or infinite. -/
def Whole (x : Number) : Prop := x = .infinity false ∨ ∃ k : ℤ, 0 ≤ k ∧ x.value? = some (k : ℚ)

theorem nonneg_ofRat (h : 0 ≤ q) : Nonneg (.ofRat q) := by
  rw [Number.ofRat]
  split
  · exact rounded_nonneg h
  · exact decide_eq_false (not_lt.2 h)

theorem whole_ofRat (h : 0 ≤ k) : Whole (.ofRat k) := by
  have hk : (0 : ℚ) ≤ k := by exact_mod_cast h
  rw [Number.ofRat]
  split
  · obtain ⟨m, hm⟩ := rounded_intCast k
    have hround := rounded_nonneg hk
    rw [hm] at hround
    exact .inr ⟨m, by exact_mod_cast hround, congrArg some hm⟩
  · left
    rw [decide_eq_false (not_lt.2 hk)]

theorem ofRat_natCast {n : ℕ} (h : n ≤ 2 ^ 53) : ∃ hn : Representable (n : ℚ), Number.ofRat n = .finite n hn := by
  have hrepresentable : Representable (((n : ℤ)) : ℚ) := representable_intCast (by rw [Nat.abs_cast]; exact_mod_cast h)
  have hn : Representable (n : ℚ) := by exact_mod_cast hrepresentable
  exact ⟨hn, Number.ofRat_of_representable hn⟩

theorem Whole.mathRound (h : Nonneg x) : Whole (mathRound x) := by
  cases x with
  | nan => cases h
  | infinity negative =>
    obtain rfl : negative = false := h
    exact .inl rfl
  | finite q hq =>
    have h : 0 ≤ q := h
    exact whole_ofRat (Int.floor_nonneg.2 (by linarith))

theorem nonneg_toFixed6 (h : Nonneg x) : Nonneg (toFixed6 x) := by
  cases x with
  | nan => cases h
  | infinity => exact h
  | finite q hq =>
    have h : 0 ≤ q := h
    rw [toFixed6]
    split
    · have hround : (0 : ℚ) ≤ Ecommerce.mathRound (q * 1000000) := by
        exact_mod_cast mathRound_nonneg (by positivity)
      exact nonneg_ofRat (div_nonneg hround (by norm_num))
    · exact h

theorem nonneg_mul_ofNat (h : Nonneg x) {n : ℕ} (hpos : 0 < n) (hle : n ≤ 2 ^ 53) : Nonneg (x.mul (.ofRat n)) := by
  obtain ⟨hn, heq⟩ := ofRat_natCast hle
  have hn0 : (0 : ℚ) < n := by exact_mod_cast hpos
  rw [heq]
  cases x with
  | nan => cases h
  | infinity negative =>
    obtain rfl : negative = false := h
    rw [Number.mul, if_neg hn0.ne', decide_eq_false (not_lt.2 hn0.le)]
    rfl
  | finite q hq =>
    have h : 0 ≤ q := h
    exact nonneg_ofRat (by positivity)

theorem Whole.nonneg (h : Whole x) : Nonneg x := by
  obtain rfl | ⟨k, hk, hvalue⟩ := h
  · rfl
  · rw [Number.eq_finite_of_value? hvalue]
    show (0 : ℚ) ≤ k
    exact_mod_cast hk

theorem nonneg_div_hundred (h : Nonneg x) : Nonneg (x.div (.ofRat 100)) := by
  obtain ⟨hn, heq⟩ := ofRat_natCast (n := 100) (by norm_num)
  have heq : Number.ofRat 100 = .finite 100 hn := heq
  rw [heq]
  cases x with
  | nan => cases h
  | infinity negative =>
    obtain rfl : negative = false := h
    rw [Number.div, decide_eq_false (by norm_num)]
    rfl
  | finite q hq =>
    have h : 0 ≤ q := h
    rw [Number.div, if_pos (by norm_num)]
    exact nonneg_ofRat (by positivity)

theorem mathAbs_of_nonneg (h : Nonneg x) : mathAbs x = x := by
  cases x with
  | nan => cases h
  | infinity negative =>
    obtain rfl : negative = false := h
    rfl
  | finite q hq =>
    have h : 0 ≤ q := h
    rw [mathAbs, abs_of_nonneg h, Number.ofRat_of_representable hq]

theorem ofRat_one_mul (h : Whole x) : (Number.ofRat 1).mul x = x := by
  obtain ⟨hn, heq⟩ := ofRat_natCast (n := 1) (by norm_num)
  have heq : Number.ofRat 1 = .finite 1 hn := heq
  rw [heq]
  obtain rfl | ⟨k, -, hvalue⟩ := h
  · rfl
  · rw [Number.eq_finite_of_value? hvalue, Number.mul, one_mul, Number.ofRat_of_representable]

/-- The cents of an amount are whole. -/
theorem whole_toCents (h : Nonneg x) : Whole (toCents x) := by
  have hscaled : Nonneg (x.mul (.ofRat 100)) := nonneg_mul_ofNat h (n := 100) (by norm_num) (by norm_num)
  have hround : Whole (mathRound (toFixed6 ((mathAbs x).mul (.ofRat 100)))) := by
    rw [mathAbs_of_nonneg h]
    exact Whole.mathRound (nonneg_toFixed6 hscaled)
  cases x with
  | nan => cases h
  | infinity negative =>
    obtain rfl : negative = false := h
    show Whole ((Number.ofRat 1).mul _)
    rw [ofRat_one_mul hround]
    exact hround
  | finite q hq =>
    have h : 0 ≤ q := h
    obtain rfl | hpos := h.eq_or_lt
    · rw [← Number.ofRat_of_representable hq]
      have hzero : (toCents (.ofRat 0)).value? = some 0 := by decide +kernel
      exact .inr ⟨0, le_rfl, by simpa using hzero⟩
    · have hsign : Ecommerce.mathSign q = 1 := by rw [Ecommerce.mathSign, if_neg hpos.not_gt, if_neg hpos.ne']
      rw [toCents, mathSign, hsign, Int.cast_one, ofRat_one_mul hround]
      exact hround

theorem nonneg_money {value : ℚ} (h : Representable value) (hvalue : 0 ≤ value) :
    Nonneg (money (.finite value h)) := by
  have hscaled : Nonneg ((Number.finite value h).mul (.ofRat 100)) :=
    nonneg_mul_ofNat (x := .finite value h) hvalue (n := 100) (by norm_num) (by norm_num)
  exact nonneg_div_hundred (Whole.mathRound hscaled).nonneg

theorem whole_unit (line : PricedLine) : Whole (toCents line.price) := by
  obtain ⟨value, h, hvalue, heq⟩ := line.price_admitted
  rw [heq]
  exact whole_toCents (nonneg_money h hvalue)

/-! ## Currency units -/

/-- The number of double precision that is nearest to one below a power of two. -/
theorem ofRat_near {e : ℤ} (hlow : -1021 ≤ e) (hhigh : e ≤ 1022) (hq : 0 ≤ q) (h : q < 2 ^ e) :
    ∃ r hr, Number.ofRat q = .finite r hr ∧ 0 ≤ r ∧ |r - q| ≤ 2 ^ (e - 54) := by
  have habs : |q| < 2 ^ e := by rwa [abs_of_nonneg hq]
  obtain ⟨hround, heq⟩ := Number.ofRat_eq_finite hlow hhigh habs
  exact ⟨rounded q, hround, heq, rounded_nonneg hq, abs_rounded_sub_le hlow habs⟩

theorem abs_toFixed6_sub_le (q : ℚ) : |Ecommerce.toFixed6 q - q| ≤ 1 / 1000000 := by
  have hfloor := Int.floor_le (q * 1000000 + 1 / 2)
  have hfloor' := Int.lt_floor_add_one (q * 1000000 + 1 / 2)
  rw [Ecommerce.toFixed6, Ecommerce.mathRound, abs_le]
  constructor <;> linarith

/-- A number below `2 ^ 51` that is near to an integer is rounded to it. -/
theorem mathRound_toFixed6 {c : ℤ} (hlt : c < 2 ^ 51) (hq : 0 ≤ q) (hnear : |q - c| ≤ 25 / 128) :
    mathRound (toFixed6 (.ofRat q)) = .ofRat c := by
  have hle : (c : ℚ) ≤ 2 ^ 51 - 1 := by
    have hle : c ≤ 2 ^ 51 - 1 := by omega
    exact_mod_cast hle
  have hnear := abs_le.1 hnear
  obtain ⟨r, hr, heq, hr0, herror⟩ := ofRat_near (e := 51) (by norm_num) (by norm_num) hq (by norm_num; linarith)
  have herror : |r - q| ≤ 1 / 8 := herror.trans (by norm_num)
  have herror := abs_le.1 herror
  have hfixed := abs_le.1 (abs_toFixed6_sub_le r)
  have hfixed0 : 0 ≤ Ecommerce.toFixed6 r :=
    div_nonneg (by exact_mod_cast mathRound_nonneg (by positivity)) (by norm_num)
  obtain ⟨r', hr', heq', -, herror'⟩ :=
    ofRat_near (e := 51) (by norm_num) (by norm_num) hfixed0 (by norm_num; linarith)
  have herror' : |r' - Ecommerce.toFixed6 r| ≤ 1 / 8 := herror'.trans (by norm_num)
  have herror' := abs_le.1 herror'
  have hround : ⌊r' + 1 / 2⌋ = c := by
    rw [Int.floor_eq_iff]
    constructor <;> linarith
  rw [heq, toFixed6, if_pos (by norm_num; linarith), heq', mathRound, hround]

/-- Cents below `2 ^ 51` survive the way to currency units and back. -/
theorem toCents_fromCents {c : ℤ} (hc : 0 ≤ c) (hlt : c < 2 ^ 51) : toCents (fromCents (.ofRat c)) = .ofRat c := by
  obtain rfl | hpos := hc.eq_or_lt
  · have hzero : (toCents (fromCents (.ofRat 0))).value? = some 0 := by decide +kernel
    rw [Int.cast_zero]
    exact (Number.eq_finite_of_value? hzero).trans (Number.ofRat_of_representable _).symm
  obtain ⟨hhundred, heq⟩ := ofRat_natCast (n := 100) (by norm_num)
  have heq : Number.ofRat 100 = .finite 100 hhundred := heq
  have hc' : (0 : ℚ) ≤ c := by exact_mod_cast hc
  have hlt' : (c : ℚ) < 2 ^ 51 := by exact_mod_cast hlt
  have hwhole : Representable (c : ℚ) := representable_intCast (by rw [abs_of_nonneg hc]; omega)
  obtain ⟨r, hr, hamount, hr0, herror⟩ :=
    ofRat_near (e := 45) (by norm_num) (by norm_num) (q := (c : ℚ) / 100) (by positivity) (by norm_num; linarith)
  have herror : |r - c / 100| ≤ 1 / 512 := herror.trans (by norm_num)
  have herror := abs_le.1 herror
  have hnear : |r * 100 - c| ≤ 25 / 128 := by
    rw [abs_le]
    constructor <;> linarith
  have hround := mathRound_toFixed6 hlt (by positivity) hnear
  rw [fromCents, Number.ofRat_of_representable hwhole, heq, Number.div, if_pos (by norm_num), hamount, toCents,
    mathAbs_of_nonneg (x := .finite r hr) hr0, heq, Number.mul, hround]
  have hr1 : 0 < r := by
    have hc1 : (1 : ℚ) ≤ c := by exact_mod_cast hpos
    linarith
  have hsign : Ecommerce.mathSign r = 1 := by rw [Ecommerce.mathSign, if_neg hr1.not_gt, if_neg hr1.ne']
  rw [mathSign, hsign, Int.cast_one, ofRat_one_mul (whole_ofRat hc), Number.ofRat_of_representable hwhole]

/-! ## Lines -/

theorem Safe.ne_nan (h : x.Safe) : x ≠ .nan := by
  rintro rfl
  obtain ⟨q, hq, -⟩ := h
  cases hq

/-- The cents of a price, if they are finite. -/
theorem unit_cases (line : PricedLine) : (toCents line.price = .infinity false ∧ centsOf line.price = none) ∨
    ∃ k : ℤ, 0 ≤ k ∧ (toCents line.price).value? = some (k : ℚ) ∧ centsOf line.price = some k := by
  obtain hinf | ⟨k, hk, hvalue⟩ := whole_unit line
  · exact .inl ⟨hinf, by rw [centsOf, hinf]; rfl⟩
  · exact .inr ⟨k, hk, hvalue, by rw [centsOf, hvalue, Option.map_some, Int.floor_intCast]⟩

theorem representable_of_safe {m : ℤ} (hm : 0 ≤ m) (hle : m ≤ 2 ^ 53 - 1) : Representable m :=
  representable_intCast (by rw [abs_of_nonneg hm]; omega)

theorem exactSubtotal_nonneg : ∀ {lines : List PricedLine} {t : ℤ}, exactSubtotal lines = some t → 0 ≤ t
  | [], t, h => by
    obtain rfl := Option.some.inj h
    exact le_rfl
  | line :: rest, t, h => by
    obtain ⟨c, hc, htail⟩ := Option.bind_eq_some_iff.1 h
    obtain ⟨t', ht', rfl⟩ := Option.map_eq_some_iff.1 htail
    have hrest := exactSubtotal_nonneg ht'
    obtain ⟨-, hnone⟩ | ⟨k, hk, -, hsome⟩ := unit_cases line
    · rw [hnone] at hc
      cases hc
    · obtain rfl : k = c := Option.some.inj (hsome.symm.trans hc)
      positivity

/-- A subtotal after one line whose cents are `k`. -/
theorem priceLine_eq (line : PricedLine) {m : ℤ} (hm : 0 ≤ m) (hle : m ≤ 2 ^ 53 - 1) (hvalue : (toCents line.price).value? = some (k : ℚ)) :
    (toCents line.price).mul (.ofRat line.quantity) = .ofRat ((k * line.quantity : ℤ) : ℚ) ∧
      ((k * line.quantity : ℤ) ≤ 2 ^ 53 - 1 → 0 ≤ k →
        priceLine (.ofRat m) line = .ofRat ((m + k * line.quantity : ℤ) : ℚ)) := by
  obtain ⟨hone, hmax⟩ := line.quantity_admitted
  obtain ⟨hq, hquantity⟩ := ofRat_natCast (n := line.quantity) (by omega)
  have hmul : (toCents line.price).mul (.ofRat line.quantity) = .ofRat ((k * line.quantity : ℤ) : ℚ) := by
    rw [Number.eq_finite_of_value? hvalue, hquantity, Number.mul]
    push_cast
    rfl
  refine ⟨hmul, fun hline hk => ?_⟩
  have hrep := representable_of_safe (mul_nonneg hk (Int.natCast_nonneg line.quantity)) hline
  rw [priceLine, hmul, Number.ofRat_of_representable hrep, Number.ofRat_of_representable (representable_of_safe hm hle),
    Number.add]
  push_cast
  rfl

theorem exactSubtotal_cons {rest : List PricedLine} (h : centsOf line.price = some k) :
    exactSubtotal (line :: rest) = (exactSubtotal rest).map fun t => k * line.quantity + t := by
  rw [exactSubtotal, h, Option.bind_some]

/-- The amounts of the lines are safe just if the lines add up to a safe amount. -/
theorem lineAmounts_safe_iff (lines : List PricedLine) {m : ℤ} (hm : 0 ≤ m) (hle : m ≤ 2 ^ 53 - 1) :
    (∀ x ∈ lineAmounts (.ofRat m) lines, x.Safe) ↔ ∃ t, exactSubtotal lines = some t ∧ m + t ≤ 2 ^ 53 - 1 := by
  induction lines generalizing m with
  | nil => exact ⟨fun _ => ⟨0, rfl, by omega⟩, fun _ x hx => by cases hx⟩
  | cons line rest ih =>
    obtain ⟨hinf, hnone⟩ | ⟨k, hk, hvalue, hsome⟩ := unit_cases line
    · constructor
      · intro h
        obtain ⟨q, hq, -⟩ := h (toCents line.price) List.mem_cons_self
        rw [hinf] at hq
        cases hq
      · rintro ⟨t, ht, -⟩
        rw [exactSubtotal, hnone] at ht
        cases ht
    · obtain ⟨hone, -⟩ := line.quantity_admitted
      obtain ⟨hmul, hadd⟩ := priceLine_eq line hm hle hvalue
      have hline : 0 ≤ k * line.quantity := mul_nonneg hk (Int.natCast_nonneg line.quantity)
      have hunit : (toCents line.price).Safe ↔ k ≤ 2 ^ 53 - 1 := by
        rw [← Number.ofRat_intCast_safe_iff hk, Number.eq_finite_of_value? hvalue, Number.ofRat_of_representable]
      have hproduct : ((toCents line.price).mul (.ofRat line.quantity)).Safe ↔ k * line.quantity ≤ 2 ^ 53 - 1 := by
        rw [hmul, Number.ofRat_intCast_safe_iff hline]
      have hge : k ≤ k * line.quantity := le_mul_of_one_le_right hk (by exact_mod_cast hone)
      rw [exactSubtotal_cons hsome, lineAmounts]
      constructor
      · intro h
        have hsmall := hproduct.1 (h _ (by simp))
        have hsum : (priceLine (.ofRat m) line).Safe := h _ (by simp)
        have heq := hadd hsmall hk
        rw [heq, Number.ofRat_intCast_safe_iff (by omega)] at hsum
        have hrest : ∀ x ∈ lineAmounts (.ofRat ((m + k * line.quantity : ℤ) : ℚ)) rest, x.Safe := by
          intro x hx
          rw [← heq] at hx
          exact h x (by simp [hx])
        obtain ⟨t, ht, hbound⟩ := (ih (by omega) hsum).1 hrest
        exact ⟨k * line.quantity + t, by rw [ht, Option.map_some], by omega⟩
      · rintro ⟨t, ht, hbound⟩ x hx
        obtain ⟨t', ht', rfl⟩ := Option.map_eq_some_iff.1 ht
        have hrest := exactSubtotal_nonneg ht'
        have heq := hadd (by omega) hk
        obtain rfl | rfl | rfl | hx := by simpa using hx
        · exact hunit.2 (by omega)
        · exact hproduct.2 (by omega)
        · rw [heq, Number.ofRat_intCast_safe_iff (by omega)]
          omega
        · rw [heq] at hx
          exact (ih (by omega) (by omega)).2 ⟨t', ht', by omega⟩ x hx

/-- The subtotal is the sum of the lines as long as that is safe. -/
theorem foldl_priceLine (lines : List PricedLine) {m : ℤ} (hm : 0 ≤ m) (ht : exactSubtotal lines = some t)
    (hle : m + t ≤ 2 ^ 53 - 1) : lines.foldl priceLine (.ofRat m) = .ofRat ((m + t : ℤ) : ℚ) := by
  induction lines generalizing m t with
  | nil =>
    obtain rfl := Option.some.inj ht
    rw [List.foldl_nil, add_zero]
  | cons line rest ih =>
    obtain ⟨-, hnone⟩ | ⟨k, hk, hvalue, hsome⟩ := unit_cases line
    · rw [exactSubtotal, hnone] at ht
      cases ht
    · rw [exactSubtotal_cons hsome] at ht
      obtain ⟨t', ht', rfl⟩ := Option.map_eq_some_iff.1 ht
      have hrest := exactSubtotal_nonneg ht'
      have hline : 0 ≤ k * line.quantity := mul_nonneg hk (Int.natCast_nonneg line.quantity)
      obtain ⟨-, hadd⟩ := priceLine_eq line hm (by omega) hvalue
      rw [List.foldl_cons, hadd (by omega) hk, ih (by omega) ht' (by omega), add_assoc]

/-! ## Discounts -/

theorem Safe.min (hx : x.Safe) (hy : y.Safe) : (x.min y).Safe := by
  rw [Number.min_eq (Safe.ne_nan hx) (Safe.ne_nan hy)]
  split
  · exact hy
  · exact hx

theorem Safe.max (hx : x.Safe) (hy : y.Safe) : (x.max y).Safe := by
  rw [Number.max_eq (Safe.ne_nan hx) (Safe.ne_nan hy)]
  split
  · exact hy
  · exact hx

theorem Safe.mathRound (h : x.Safe) (hx : Nonneg x) : (mathRound x).Safe := by
  obtain ⟨q, hq, hle⟩ := h
  rw [Number.eq_finite_of_value? hq] at hx ⊢
  have hx : 0 ≤ q := hx
  have hfloor : ⌊q + 1 / 2⌋ ≤ 2 ^ 53 - 1 := by
    have hlt : ⌊q + 1 / 2⌋ < 2 ^ 53 := by
      rw [Int.floor_lt]
      push_cast
      linarith
    omega
  exact (Number.ofRat_intCast_safe_iff (Int.floor_nonneg.2 (by linarith))).2 hfloor

theorem Safe.div_hundred (h : x.Safe) (hx : Nonneg x) : (x.div (.ofRat 100)).Safe := by
  obtain ⟨hn, heq⟩ := ofRat_natCast (n := 100) (by norm_num)
  have heq : Number.ofRat 100 = .finite 100 hn := heq
  obtain ⟨q, hq, hle⟩ := h
  rw [Number.eq_finite_of_value? hq] at hx
  have hx : 0 ≤ q := hx
  rw [heq, Number.eq_finite_of_value? hq, Number.div, if_pos (by norm_num), Number.ofRat_safe_iff (by positivity)]
  linarith

/-- A percentage of a subtotal, from the product. -/
theorem safe_percentOf (hx : Nonneg (s.mul x)) (h : (s.mul x).Safe) : (percentOf s x).Safe :=
  Safe.mathRound (Safe.div_hundred h hx) (nonneg_div_hundred hx)

theorem ofRat_mul_value {m : ℤ} (hm : 0 ≤ m) (hle : m ≤ 2 ^ 53 - 1) (hq : x.value? = some q) :
    (Number.ofRat m).mul x = .ofRat (m * q) := by
  rw [Number.ofRat_of_representable (representable_of_safe hm hle), Number.eq_finite_of_value? hq, Number.mul]

/-- The amounts of a discount are safe just if the coupon is in the range. -/
theorem discountAmounts_safe_iff (coupon : CouponTerms) (ht : 0 ≤ t) (hle : t ≤ 2 ^ 53 - 1) :
    (∀ x ∈ discountAmounts (.ofRat t) (some coupon), x.Safe) ↔ coupon.InRange t := by
  obtain ⟨v, hv, hv0⟩ := coupon.value_admitted
  have ht' : (0 : ℚ) ≤ t := by exact_mod_cast ht
  have hproduct : (Number.ofRat t).mul coupon.value = .ofRat (t * v) := ofRat_mul_value ht hle hv
  have hcap : ∀ m ∈ coupon.maxDiscount, m.truthy = true → ∀ raw, capCents coupon raw = toCents m := by
    intro m hm htruthy raw
    rw [capCents, Option.filter_eq_some_iff.2 ⟨hm, htruthy⟩]
    rfl
  constructor
  · intro h
    refine ⟨?_, fun m hm htruthy => ?_⟩
    · split
      · next htype =>
        intro q hq
        obtain rfl : v = q := Option.some.inj (hv.symm.trans hq)
        have hsafe := h ((Number.ofRat t).mul coupon.value) (by simp [discountAmounts, htype])
        rwa [hproduct, Number.ofRat_safe_iff (by positivity)] at hsafe
      · next htype =>
        have hsafe := h (rawDiscountCents coupon (.ofRat t)) (by simp [discountAmounts])
        rwa [rawDiscountCents, htype] at hsafe
    · rw [← hcap m hm htruthy (rawDiscountCents coupon (.ofRat t))]
      exact h _ (by simp [discountAmounts])
  · rintro ⟨hvalue, hmax⟩
    have hsubtotal : (Number.ofRat t).Safe := (Number.ofRat_intCast_safe_iff ht).2 hle
    have hzero : (Number.ofRat 0).Safe := (Number.ofRat_safe_iff le_rfl).2 (by norm_num)
    have hraw : (∀ x ∈ (match coupon.type with
        | .percentage => [(Number.ofRat t).mul coupon.value]
        | .fixed => []), x.Safe) ∧ (rawDiscountCents coupon (.ofRat t)).Safe := by
      rw [rawDiscountCents]
      cases htype : coupon.type with
      | percentage =>
        rw [htype] at hvalue
        have hvalue : ∀ q, coupon.value.value? = some q → t * q < 2 ^ 53 - 1 / 2 := hvalue
        have hsafe : ((Number.ofRat t).mul coupon.value).Safe := by
          rw [hproduct, Number.ofRat_safe_iff (by positivity)]
          exact hvalue v hv
        have hnonneg : Nonneg ((Number.ofRat t).mul coupon.value) := by
          rw [hproduct]
          exact nonneg_ofRat (by positivity)
        exact ⟨by simpa using hsafe, safe_percentOf hnonneg hsafe⟩
      | fixed =>
        rw [htype] at hvalue
        have hvalue : (toCents coupon.value).Safe := hvalue
        exact ⟨fun x hx => absurd hx List.not_mem_nil, hvalue⟩
    have hcapped : (capCents coupon (rawDiscountCents coupon (.ofRat t))).Safe := by
      rw [capCents]
      cases hm : coupon.maxDiscount.filter Number.truthy with
      | none => exact hraw.2
      | some m =>
        obtain ⟨hmem, htruthy⟩ := Option.filter_eq_some_iff.1 hm
        exact hmax m hmem htruthy
    have hresult : (calculateDiscountCents (some coupon) (.ofRat t)).Safe :=
      Safe.max hzero (Safe.min (Safe.min hraw.2 hcapped) hsubtotal)
    intro x hx
    obtain hx | hx := List.mem_append.1 hx
    · exact hraw.1 x hx
    · obtain rfl | rfl | rfl := by simpa using hx
      · exact hraw.2
      · exact hcapped
      · exact hresult

/-- Every amount that is computed is at most `2 ^ 53 - 1`, and the subtotal is the exact sum of the lines, just
if the lines and the coupon are in the range. -/
theorem cent_arithmetic_exact (lines : List PricedLine) (coupon : Option CouponTerms) :
    ((∀ x ∈ amounts lines coupon, x.Safe) ∧
      ∃ t : ℤ, exactSubtotal lines = some t ∧ (subtotalCents lines).value? = some (t : ℚ)) ↔
    InRange lines coupon := by
  have hstart : (Number.ofRat 0) = .ofRat ((0 : ℤ) : ℚ) := by rw [Int.cast_zero]
  have hlines := lineAmounts_safe_iff lines (m := 0) le_rfl (by norm_num)
  have hsubtotal : ∀ t, exactSubtotal lines = some t → t ≤ 2 ^ 53 - 1 → subtotalCents lines = .ofRat t := by
    intro t ht hle
    rw [subtotalCents, hstart, foldl_priceLine lines le_rfl ht (by omega), zero_add]
  constructor
  · rintro ⟨hsafe, -⟩
    obtain ⟨t, ht, hle⟩ := hlines.1 fun x hx => hsafe x (List.mem_append.2 (.inl (by rwa [hstart])))
    rw [zero_add] at hle
    refine ⟨t, ht, hle, fun c hc => (discountAmounts_safe_iff c (exactSubtotal_nonneg ht) hle).1 fun x hx => ?_⟩
    obtain rfl : coupon = some c := hc
    rw [← hsubtotal t ht hle] at hx
    exact hsafe x (List.mem_append.2 (.inr hx))
  · rintro ⟨t, ht, hle, hcoupon⟩
    have ht0 := exactSubtotal_nonneg ht
    refine ⟨fun x hx => ?_, t, ht, ?_⟩
    · obtain hx | hx := List.mem_append.1 hx
      · rw [hstart] at hx
        exact hlines.2 ⟨t, ht, by omega⟩ x hx
      · rw [hsubtotal t ht hle] at hx
        cases coupon with
        | none =>
          obtain rfl := List.mem_singleton.1 hx
          exact (Number.ofRat_safe_iff le_rfl).2 (by norm_num)
        | some c => exact (discountAmounts_safe_iff c ht0 hle).2 (hcoupon c rfl) x hx
    · rw [hsubtotal t ht hle, Number.value?_ofRat (representable_of_safe ht0 hle)]

theorem representable_hundredTrillion : Representable 100000000000000 := by
  have h : Representable ((100000000000000 : ℤ) : ℚ) := representable_intCast (by norm_num)
  rwa [Int.cast_ofNat] at h

/-- A line whose price is a hundred trillion. -/
def dearLine : PricedLine where
  price := money (.finite 100000000000000 representable_hundredTrillion)
  quantity := 1
  price_admitted := ⟨100000000000000, representable_hundredTrillion, by norm_num, rfl⟩
  quantity_admitted := by decide

/-- Its cents are beyond `2 ^ 53 - 1`. -/
theorem not_cent_arithmetic_exact : ¬ ∀ x ∈ amounts [dearLine] none, x.Safe := by
  intro h
  have hvalue : (toCents dearLine.price).value? = some (10 ^ 16) := by decide +kernel
  obtain ⟨q, hq, hle⟩ := h (toCents dearLine.price) (by simp [amounts, lineAmounts])
  obtain rfl : 10 ^ 16 = q := Option.some.inj (hvalue.symm.trans hq)
  norm_num at hle

end Doubles

end Ecommerce
