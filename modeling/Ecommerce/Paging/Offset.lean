import Ecommerce.Model.Pagination
import Ecommerce.Security.Digits
import Mathlib.Data.List.TakeWhile

/-!
# Pages by offset

Page and limit are brought into their bounds, but the page only from below, and the offset of a page is
computed with numbers of 53 bits. The parameters are usable just if the offset is a value of the format that
is an integer below `2 ^ 63`, and the pages of a collection cover it once if the parameters of each of them
are.
-/

namespace Ecommerce

namespace Doubles

open Numbers

variable {query : Query} {defaults : PaginationDefaults} {n p : ℕ}

/-! ## What is asked for -/

def pageRead (query : Query) : Number := parseInt ((asString (query "page")).getD "")

def limitRead (query : Query) : Number := parseInt ((asString (query "limit")).getD "")

/-- The page that the text asks for, which is the first one if it asks for none. -/
def pageAsked (query : Query) : ℚ := max ((pageRead query).value?.getD 1) 1

/-- The limit that the text asks for, or the default. -/
def limitAsked (query : Query) (defaults : PaginationDefaults) : Number :=
  orElse (some (limitRead query)) (orElse defaults.limit (.ofRat 20))

def limitMax (defaults : PaginationDefaults) : Number := orElse defaults.maxLimit (.ofRat 100)

/-- The limit asked for, brought between one and the maximum, if that is finite. -/
def limitUsed (query : Query) (defaults : PaginationDefaults) : Option ℚ :=
  (((limitAsked query defaults).max (.ofRat 1)).min (limitMax defaults)).value?

/-- The query for another page. -/
def withPage (query : Query) (page : ℕ) : Query := fun key =>
  if key = "page" then some (.str (toString page)) else query key

/-- The number of pages of a collection. -/
def pageCount (query : Query) (defaults : PaginationDefaults) (n : ℕ) : ℕ :=
  ⌈(n : ℚ) / (limitUsed query defaults).getD 1⌉₊

/-- What a request may pass to the database. -/
structure Usable (query : Query) (defaults : PaginationDefaults) : Prop where
  one_le_limit : (Number.ofRat 1).le (buildPagination query defaults).limit = true
  limit_le_max : (buildPagination query defaults).limit.le (limitMax defaults) = true
  one_le_page : (Number.ofRat 1).le (buildPagination query defaults).page = true
  skip : ∃ (page limit : ℚ) (k : ℤ), (buildPagination query defaults).page.value? = some page ∧
    (buildPagination query defaults).limit.value? = some limit ∧
    (buildPagination query defaults).skip.value? = some (k : ℚ) ∧ (k : ℚ) = (page - 1) * limit ∧ k < 2 ^ 63

/-- The maximum is at least one, and the offset of the page asked for is an integer of 53 bits, times a
power of two, below `2 ^ 63`. -/
structure Fits (query : Query) (defaults : PaginationDefaults) : Prop where
  one_le_max : (Number.ofRat 1).le (limitMax defaults) = true
  page_finite : pageRead query ≠ .infinity false
  page_le : pageAsked query ≤ 2 ^ 53
  skip : ∃ (limit : ℚ) (k : ℤ), limitUsed query defaults = some limit ∧ (k : ℚ) = (pageAsked query - 1) * limit ∧
    Representable k ∧ k < 2 ^ 63

/-- The position is on the page that the query asks for. -/
def OnPage (query : Query) (defaults : PaginationDefaults) (i : ℕ) : Prop :=
  ∃ skip limit : ℚ, (buildPagination query defaults).skip.value? = some skip ∧
    (buildPagination query defaults).limit.value? = some limit ∧ skip ≤ i ∧ (i : ℚ) < skip + limit

/-- Each position of a collection is on exactly one of its pages. -/
def CoversOnce (query : Query) (defaults : PaginationDefaults) (n : ℕ) : Prop :=
  ∀ i < n, ∃! p, (1 ≤ p ∧ p ≤ pageCount query defaults n) ∧ OnPage (withPage query p) defaults i

/-! ## Reading numbers -/

theorem representable_one : Representable 1 := by
  simpa using representable_intCast (n := 1) (by norm_num)

theorem ofRat_one : Number.ofRat 1 = .finite 1 representable_one :=
  Number.ofRat_of_representable _

theorem parseInt_eq (text : String) : parseInt text = .nan ∨ ∃ n : ℤ, parseInt text = Number.ofRat n := by
  rw [parseInt]
  cases Ecommerce.parseInt text with
  | none => exact .inl rfl
  | some n => exact .inr ⟨n, rfl⟩

theorem ofRat_intCast_value? {n : ℤ} {q : ℚ} (h : (Number.ofRat n).value? = some q) : ∃ k : ℤ, q = k := by
  rw [Number.ofRat] at h
  split at h
  · obtain ⟨k, hk⟩ := rounded_intCast n
    exact ⟨k, by rw [← hk]; exact (Option.some.inj h).symm⟩
  · cases h

/-- A page asked for is an integer. -/
theorem pageAsked_intCast (query : Query) : ∃ k : ℤ, 1 ≤ k ∧ pageAsked query = k := by
  have hone : (1 : ℚ) = ((1 : ℤ) : ℚ) := by norm_num
  rw [pageAsked]
  cases hread : (pageRead query).value? with
  | none => exact ⟨1, le_rfl, by simp⟩
  | some q =>
    obtain hnan | ⟨n, hn⟩ := parseInt_eq ((asString (query "page")).getD "")
    · rw [pageRead, hnan] at hread
      cases hread
    · rw [pageRead, hn] at hread
      obtain ⟨k, rfl⟩ := ofRat_intCast_value? hread
      exact ⟨max k 1, le_max_right _ _, by push_cast; rfl⟩

theorem orElse_ne_nan {value : Option Number} {fallback : Number} (h : fallback ≠ .nan) :
    orElse value fallback ≠ .nan := by
  rw [orElse]
  cases hvalue : value.filter Number.truthy with
  | none => exact h
  | some x =>
    have htruthy := (Option.filter_eq_some_iff.1 hvalue).2
    rintro rfl
    cases htruthy

theorem ofRat_ne_nan (q : ℚ) : Number.ofRat q ≠ .nan := by
  rw [Number.ofRat]
  split <;> rintro ⟨⟩

/-! ## The parameters -/

/-- The limit is in its bounds just if the maximum is at least one. -/
theorem limit_bounds : ((Number.ofRat 1).le (buildPagination query defaults).limit = true ∧
    (buildPagination query defaults).limit.le (limitMax defaults) = true) ↔
      (Number.ofRat 1).le (limitMax defaults) = true :=
  Number.between_iff (orElse_ne_nan (orElse_ne_nan (ofRat_ne_nan 20))) (ofRat_ne_nan 1)
    (orElse_ne_nan (ofRat_ne_nan 100))

/-- The page is the one asked for, unless that is infinite. -/
theorem page_value? (h : pageRead query ≠ .infinity false) :
    (buildPagination query defaults).page.value? = some (pageAsked query) := by
  show ((orElse (some (pageRead query)) (.ofRat 1)).max (.ofRat 1)).value? = some (pageAsked query)
  rw [ofRat_one, pageAsked]
  cases hread : pageRead query with
  | nan => simp [orElse, Number.truthy, Number.max, Number.lt, Number.value?, Option.filter]
  | infinity negative =>
    cases negative with
    | false => exact absurd hread h
    | true => simp [orElse, Number.truthy, Number.max, Number.lt, Number.value?, Option.filter]
  | finite q hq =>
    by_cases hzero : q = 0
    · simp [orElse, Number.truthy, Number.max, Number.lt, Number.value?, Option.filter, hzero]
    · by_cases hlt : q < 1
      · simp [orElse, Number.truthy, Number.max, Number.lt, Number.value?, Option.filter, hzero, hlt, hlt.le]
      · simp [orElse, Number.truthy, Number.max, Number.lt, Number.value?, Option.filter, hzero, hlt, not_lt.1 hlt]

theorem page_value?_infinity (h : pageRead query = .infinity false) :
    (buildPagination query defaults).page.value? = none := by
  show ((orElse (some (pageRead query)) (.ofRat 1)).max (.ofRat 1)).value? = none
  rw [ofRat_one, h]
  rfl

theorem one_le_page : (Number.ofRat 1).le (buildPagination query defaults).page = true := by
  by_cases h : pageRead query = .infinity false
  · show (Number.ofRat 1).le ((orElse (some (pageRead query)) (.ofRat 1)).max (.ofRat 1)) = true
    rw [ofRat_one, h]
    rfl
  · rw [Number.eq_finite_of_value? (page_value? h), ofRat_one]
    simp [Number.le, Number.lt, pageAsked]

/-- What is computed without rounding. -/
theorem skip_value? {limit : ℚ} {k : ℤ} (hfinite : pageRead query ≠ .infinity false)
    (hpage : pageAsked query ≤ 2 ^ 53) (hlimit : limitUsed query defaults = some limit)
    (hk : (k : ℚ) = (pageAsked query - 1) * limit) (hrepresentable : Representable k) :
    (buildPagination query defaults).skip.value? = some (k : ℚ) := by
  show (((buildPagination query defaults).page.sub (.ofRat 1)).mul (buildPagination query defaults).limit).value? = _
  have hlimit : (buildPagination query defaults).limit.value? = some limit := hlimit
  obtain ⟨m, hm, heq⟩ := pageAsked_intCast query
  have hbefore : Representable (pageAsked query - 1) := by
    have hle : m ≤ 2 ^ 53 := by
      rw [heq] at hpage
      exact_mod_cast hpage
    have hcast : pageAsked query - 1 = ((m - 1 : ℤ) : ℚ) := by
      rw [heq]
      push_cast
      rfl
    rw [hcast]
    exact representable_intCast (abs_le.2 ⟨by omega, by omega⟩)
  have hvalue : (buildPagination query defaults).page.value? = some (pageAsked query) := page_value? hfinite
  rw [Number.eq_finite_of_value? hvalue, Number.eq_finite_of_value? hlimit, ofRat_one, Number.sub,
    Number.ofRat_of_representable hbefore, Number.mul, ← hk]
  exact Number.value?_ofRat hrepresentable

/-- The parameters are usable just if they fit. -/
theorem usable_iff_fits : Usable query defaults ↔ Fits query defaults := by
  constructor
  · rintro ⟨hlow, hhigh, -, page, limit, k, hpage, hlimit, hskip, hk, hlt⟩
    have hfinite : pageRead query ≠ .infinity false := by
      intro hinf
      rw [page_value?_infinity hinf] at hpage
      cases hpage
    obtain rfl : pageAsked query = page := Option.some.inj ((page_value? hfinite).symm.trans hpage)
    have hrepresentable : Representable k := Number.representable_of_value? hskip
    refine ⟨limit_bounds.1 ⟨hlow, hhigh⟩, hfinite, ?_, limit, k, hlimit, hk, hrepresentable, hlt⟩
    -- A page beyond `2 ^ 53` is even, so that the number before it is odd and takes more than 53 bits.
    by_contra hlarge
    obtain ⟨m, -, heq⟩ := pageAsked_intCast query
    rw [heq] at hlarge hpage hk
    have hm : 2 ^ 53 < m := by
      rw [not_le] at hlarge
      exact_mod_cast hlarge
    have heven := even_of_representable (Number.representable_of_value? hpage) hm
    have hpositive : 1 ≤ limit := by
      rw [ofRat_one, Number.eq_finite_of_value? hlimit] at hlow
      simpa [Number.le, Number.lt] using hlow
    refine not_representable_mul (k := m - 1) (by omega) (by omega) (Number.representable_of_value? hlimit)
      (by linarith) ?_
    have hcast : (((m - 1 : ℤ)) : ℚ) * limit = k := by
      rw [hk]
      push_cast
      rfl
    rw [hcast]
    exact hrepresentable
  · rintro ⟨hmax, hfinite, hpage, limit, k, hlimit, hk, hrepresentable, hlt⟩
    obtain ⟨hlow, hhigh⟩ := limit_bounds.2 hmax
    exact ⟨hlow, hhigh, one_le_page, pageAsked query, limit, k, page_value? hfinite, hlimit,
      skip_value? hfinite hpage hlimit hk hrepresentable, hk, hlt⟩

/-! ## Pages -/

/-- The text of a page is read as its number. -/
theorem parseInt_toString (n : ℕ) : Ecommerce.parseInt (toString n) = some (n : ℤ) := by
  have htext : (toString n).toList = Nat.toDigits 10 n := Nat.toList_repr
  have hdigit : ∀ c ∈ Nat.toDigits 10 n, c.isDigit = true := fun c hc =>
    Nat.isDigit_of_mem_toDigits (by decide) le_rfl hc
  have hspace : ∀ c ∈ Nat.toDigits 10 n, isJsSpace c = false := by
    intro c hc
    obtain ⟨d, hd, hvalue⟩ := digitValue_of_mem_toDigits (by decide) (by decide) hc
    rw [eq_digitChar_of_digitValue hvalue hd]
    exact (by decide : ∀ d < 10, isJsSpace d.digitChar = false) d hd
  have htake : (Nat.toDigits 10 n).takeWhile Char.isDigit = Nat.toDigits 10 n := List.takeWhile_eq_self_iff.2 hdigit
  have hread : readDigits 10 0 (Nat.toDigits 10 n) = some n := readDigits_toDigits (by decide) (by decide) n
  obtain ⟨c, cs, hcs⟩ := List.exists_cons_of_ne_nil (Nat.toDigits_ne_nil : Nat.toDigits 10 n ≠ [])
  have hc : c.isDigit = true := hdigit c (by simp [hcs])
  have hfirst : isJsSpace c = false := hspace c (by simp [hcs])
  rw [Ecommerce.parseInt, htext]
  rw [hcs] at htake hread ⊢
  rw [List.dropWhile_cons_of_neg (by simp [hfirst])]
  dsimp only
  split
  · next heq =>
    obtain ⟨rfl, -⟩ := List.cons.inj heq
    cases hc
  · next heq =>
    obtain ⟨rfl, -⟩ := List.cons.inj heq
    cases hc
  · rw [htake, hread]
    rfl

theorem limitUsed_withPage : limitUsed (withPage query p) defaults = limitUsed query defaults := by
  have hlimit : withPage query p "limit" = query "limit" := if_neg (by decide)
  simp only [limitUsed, limitAsked, limitRead, hlimit]

theorem pageRead_withPage : pageRead (withPage query p) = Number.ofRat p := by
  have hpage : withPage query p "page" = some (.str (toString p)) := if_pos rfl
  rw [pageRead, hpage, parseInt, asString, Option.getD_some, parseInt_toString]
  rfl

theorem representable_page (hle : p ≤ 2 ^ 53) : Representable (p : ℚ) := by
  have h : Representable (((p : ℤ)) : ℚ) := representable_intCast (by rw [Nat.abs_cast]; exact_mod_cast hle)
  exact_mod_cast h

theorem pageAsked_withPage (hone : 1 ≤ p) (hle : p ≤ 2 ^ 53) : pageAsked (withPage query p) = p := by
  rw [pageAsked, pageRead_withPage, Number.value?_ofRat (representable_page hle), Option.getD_some]
  exact max_eq_left (by exact_mod_cast hone)

theorem Fits.one_le_limit (h : Fits query defaults) {limit : ℚ} (hlimit : limitUsed query defaults = some limit) :
    1 ≤ limit := by
  have hbounds : (Number.ofRat 1).le (buildPagination query defaults).limit = true ∧
      (buildPagination query defaults).limit.le (limitMax defaults) = true := limit_bounds.2 h.one_le_max
  obtain ⟨hlow, -⟩ := hbounds
  have hvalue : (buildPagination query defaults).limit.value? = some limit := hlimit
  rw [ofRat_one, Number.eq_finite_of_value? hvalue] at hlow
  simpa [Number.le, Number.lt] using hlow

/-- Where a page starts and ends. -/
theorem onPage_iff {limit : ℚ} (hone : 1 ≤ p) (hle : p ≤ 2 ^ 53) (hfits : Fits (withPage query p) defaults)
    (hlimit : limitUsed query defaults = some limit) {i : ℕ} :
    OnPage (withPage query p) defaults i ↔ ((p : ℚ) - 1) * limit ≤ i ∧ (i : ℚ) < p * limit := by
  obtain ⟨limit', k, hlimit', hk, hrepresentable, -⟩ := hfits.skip
  obtain rfl : limit' = limit := Option.some.inj (hlimit'.symm.trans (limitUsed_withPage.trans hlimit))
  have hskip := skip_value? hfits.page_finite hfits.page_le hlimit' hk hrepresentable
  rw [hk, pageAsked_withPage hone hle] at hskip
  have hend : ((p : ℚ) - 1) * limit' + limit' = p * limit' := by ring
  constructor
  · rintro ⟨skip, limit, hskip', hvalue, hfrom, hto⟩
    obtain rfl := Option.some.inj (hskip.symm.trans hskip')
    obtain rfl : limit' = limit := Option.some.inj (hlimit'.symm.trans hvalue)
    rw [hend] at hto
    exact ⟨hfrom, hto⟩
  · rintro ⟨hfrom, hto⟩
    rw [← hend] at hto
    exact ⟨_, limit', hskip, hlimit', hfrom, hto⟩

/-- The pages cover a collection if the parameters of each of them fit. -/
theorem coversOnce_of_fits (hquery : Fits query defaults) (hcount : pageCount query defaults n ≤ 2 ^ 53)
    (hfits : ∀ p, 1 ≤ p → p ≤ pageCount query defaults n → Fits (withPage query p) defaults) :
    CoversOnce query defaults n := by
  intro i hi
  obtain ⟨limit, -, hlimit, -⟩ := hquery.skip
  have hpositive : 0 < limit := zero_lt_one.trans_le (hquery.one_le_limit hlimit)
  have hpages : pageCount query defaults n = ⌈(n : ℚ) / limit⌉₊ := by rw [pageCount, hlimit, Option.getD_some]
  have hon : ∀ p, 1 ≤ p → p ≤ pageCount query defaults n →
      (OnPage (withPage query p) defaults i ↔ ((p : ℚ) - 1) * limit ≤ i ∧ (i : ℚ) < p * limit) :=
    fun p hone hle => onPage_iff hone (hle.trans hcount) (hfits p hone hle) hlimit
  have hquotient : (0 : ℚ) ≤ i / limit := by positivity
  have hlast : ⌊(i : ℚ) / limit⌋₊ + 1 ≤ pageCount query defaults n := by
    rw [hpages, Nat.succ_le_iff, Nat.lt_ceil]
    calc ((⌊(i : ℚ) / limit⌋₊ : ℕ) : ℚ) ≤ i / limit := Nat.floor_le hquotient
      _ < n / limit := by
        gcongr
  refine ⟨⌊(i : ℚ) / limit⌋₊ + 1, ⟨⟨Nat.le_add_left 1 _, hlast⟩, (hon _ (Nat.le_add_left 1 _) hlast).2 ⟨?_, ?_⟩⟩, ?_⟩
  · push_cast
    rw [add_sub_cancel_right, ← le_div_iff₀ hpositive]
    exact Nat.floor_le hquotient
  · push_cast
    rw [← div_lt_iff₀ hpositive]
    exact Nat.lt_floor_add_one _
  · rintro q ⟨⟨hone, hle⟩, hq⟩
    obtain ⟨hfrom, hto⟩ := (hon q hone hle).1 hq
    obtain ⟨m, rfl⟩ : ∃ m, q = m + 1 := ⟨q - 1, by omega⟩
    push_cast at hfrom hto
    rw [add_sub_cancel_right, ← le_div_iff₀ hpositive] at hfrom
    rw [← div_lt_iff₀ hpositive] at hto
    rw [(Nat.floor_eq_iff hquotient).2 ⟨hfrom, hto⟩]

theorem buildPagination_congr {query' : Query} (hpage : pageRead query = pageRead query')
    (hlimit : limitRead query = limitRead query') : buildPagination query defaults = buildPagination query' defaults := by
  simp only [pageRead] at hpage
  simp only [limitRead] at hlimit
  simp only [buildPagination, hpage, hlimit]

/-- The text of the page after `2 ^ 53` is read as that of `2 ^ 53`. -/
theorem buildPagination_same : buildPagination (withPage query (2 ^ 53 + 1)) defaults =
    buildPagination (withPage query (2 ^ 53)) defaults := by
  have hrounded : rounded (((2 ^ 53 + 1 : ℕ)) : ℚ) = rounded (((2 ^ 53 : ℕ)) : ℚ) := by decide +kernel
  have hnegative : decide ((((2 ^ 53 + 1 : ℕ)) : ℚ) < 0) = decide ((((2 ^ 53 : ℕ)) : ℚ) < 0) := by decide +kernel
  apply buildPagination_congr
  · rw [pageRead_withPage, pageRead_withPage, Number.ofRat, Number.ofRat]
    simp only [hrounded, hnegative]
  · have hlimit : ∀ p : ℕ, withPage query p "limit" = query "limit" := fun p => if_neg (by decide)
    rw [limitRead, limitRead, hlimit, hlimit]

/-- Pages that cover a collection once are at most `2 ^ 53`. -/
theorem pageCount_le (hquery : Fits query defaults)
    (hfits : ∀ p, 1 ≤ p → p ≤ pageCount query defaults n → Fits (withPage query p) defaults)
    (hcovers : CoversOnce query defaults n) : pageCount query defaults n ≤ 2 ^ 53 := by
  by_contra hlarge
  rw [not_le] at hlarge
  obtain ⟨limit, -, hlimit, -⟩ := hquery.skip
  have hone := hquery.one_le_limit hlimit
  have hpositive : 0 < limit := zero_lt_one.trans_le hone
  have hlast := hfits (2 ^ 53) (by norm_num) hlarge.le
  obtain ⟨limit', k, hlimit', hk, -⟩ := hlast.skip
  obtain rfl : limit' = limit := Option.some.inj (hlimit'.symm.trans (limitUsed_withPage.trans hlimit))
  rw [pageAsked_withPage (by norm_num) le_rfl] at hk
  push_cast at hk
  have hk0 : 0 ≤ k := by
    have : (0 : ℚ) ≤ k := by
      rw [hk]
      exact mul_nonneg (by norm_num) hpositive.le
    exact_mod_cast this
  obtain ⟨i, rfl⟩ := Int.eq_ofNat_of_zero_le hk0
  have hi : i < n := by
    have hceil : ((2 ^ 53 : ℕ) : ℚ) < n / limit' := by
      rw [← Nat.lt_ceil]
      rwa [pageCount, hlimit, Option.getD_some] at hlarge
    rw [lt_div_iff₀ hpositive] at hceil
    push_cast at hceil hk
    have : (i : ℚ) < n := by linarith
    exact_mod_cast this
  have hon : OnPage (withPage query (2 ^ 53)) defaults i := by
    rw [onPage_iff (by norm_num) le_rfl hlast hlimit]
    push_cast at hk ⊢
    constructor <;> linarith
  have hnext : OnPage (withPage query (2 ^ 53 + 1)) defaults i := by
    rw [OnPage, buildPagination_same]
    exact hon
  have hsame := (hcovers i hi).unique ⟨⟨by norm_num, hlarge.le⟩, hon⟩ ⟨⟨by norm_num, hlarge⟩, hnext⟩
  omega

/-- The parameters of a query and of all pages of a collection are usable, and the pages cover the collection
once, just if all these parameters fit and there are at most `2 ^ 53` pages. -/
theorem build_pagination (query : Query) (defaults : PaginationDefaults) (n : ℕ) :
    (Usable query defaults ∧
      (∀ p, 1 ≤ p → p ≤ pageCount query defaults n → Usable (withPage query p) defaults) ∧
      CoversOnce query defaults n) ↔
    (Fits query defaults ∧ pageCount query defaults n ≤ 2 ^ 53 ∧
      ∀ p, 1 ≤ p → p ≤ pageCount query defaults n → Fits (withPage query p) defaults) := by
  constructor
  · rintro ⟨husable, hpages, hcovers⟩
    have hfits := usable_iff_fits.1 husable
    have hfits' : ∀ p, 1 ≤ p → p ≤ pageCount query defaults n → Fits (withPage query p) defaults :=
      fun p hone hle => usable_iff_fits.1 (hpages p hone hle)
    exact ⟨hfits, pageCount_le hfits hfits' hcovers, hfits'⟩
  · rintro ⟨hfits, hcount, hpages⟩
    exact ⟨usable_iff_fits.2 hfits, fun p hone hle => usable_iff_fits.2 (hpages p hone hle),
      coversOnce_of_fits hfits hcount hpages⟩

/-- A page of twenty digits. -/
def largePage : Query := fun key => if key = "page" then some (.str "10000000000000000000") else none

/-- Its offset is not below `2 ^ 63`. -/
theorem not_build_pagination : ¬ Usable largePage ⟨none, none⟩ := by
  rintro ⟨-, -, -, page, limit, k, -, -, hskip, -, hlt⟩
  have hvalue : (buildPagination largePage ⟨none, none⟩).skip.value? = some (2 * 10 ^ 20) := by decide +kernel
  have hk : (2 * 10 ^ 20 : ℚ) = k := Option.some.inj (hvalue.symm.trans hskip)
  have hk : (2 * 10 ^ 20 : ℤ) = k := by exact_mod_cast hk
  omega

end Doubles

end Ecommerce
