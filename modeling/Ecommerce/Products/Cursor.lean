import Ecommerce.Paging.Keyset
import Ecommerce.Model.Products

/-!
# Following the cursor of a product list

A client that follows `nextCursor` gets the pages of a keyset pagination by `createdAt`. It always comes
to an end. It sees every product once exactly if no page ends between products of one `createdAt`.
-/

namespace Ecommerce

open Text Keyset

variable {Row : Type} {dates : DateText} {catalogue : Catalogue Row}
  {arrange : Nat → (sort : String) → List Row → List Row} {tenant cursor : String} {query : Query} {t : Time}

/-- The products that a query selects, whatever its cursor. -/
def Catalogue.selected (catalogue : Catalogue Row) (dates : DateText) (tenant : String) (query : Query) : List Row :=
  catalogue.matching { productFilter dates tenant query with createdBefore := none }

/-- The page size of a query. -/
def pageSize (query : Query) : Nat := (limitParam query).toNat

theorem one_le_pageSize (query : Query) : 1 ≤ pageSize query := by
  unfold pageSize limitParam
  omega

theorem withCursor_cursor : withCursor query cursor "cursor" = some (.str cursor) := if_pos rfl

theorem withCursor_other {key : String} (h : key ≠ "cursor") : withCursor query cursor key = query key := if_neg h

theorem limitParam_withCursor : limitParam (withCursor query cursor) = limitParam query := by
  rw [limitParam, limitParam, withCursor_other (by decide)]

/-- A cursor asks for what the query selects, before an instant. -/
theorem productFilter_withCursor (hcursor : cursor ≠ "") (hparse : dates.parse cursor = some t) :
    productFilter dates tenant (withCursor query cursor) =
      { productFilter dates tenant query with createdBefore := some t } := by
  have hfilter : cursorFilter dates (withCursor query cursor) = some t := by
    simp [cursorFilter, withCursor_cursor, asString, Option.filter, hcursor, hparse]
  simp only [productFilter, hfilter, withCursor_other (by decide : "category" ≠ "cursor"),
    withCursor_other (by decide : "minPrice" ≠ "cursor"), withCursor_other (by decide : "maxPrice" ≠ "cursor"),
    withCursor_other (by decide : "q" ≠ "cursor")]

theorem matching_before (filter : ProductFilter) (t : Time) :
    catalogue.matching { filter with createdBefore := some t } =
      (catalogue.matching { filter with createdBefore := none }).filter fun r => catalogue.createdAt r < t := by
  simp [Catalogue.matching, List.filter_filter, Bool.and_comm]

/-- The page that a cursor asks for, and the cursor that it comes with. -/
theorem listUncached_withCursor (arrange : (sort : String) → List Row → List Row) (hcursor : cursor ≠ "")
    (hparse : dates.parse cursor = some t) {result : ListResult Row}
    (hresult : result = listUncached dates catalogue.createdAt (catalogue.repository arrange) tenant
      (withCursor query cursor)) :
    result.data = (arrange "-createdAt" ((catalogue.selected dates tenant query).filter
        fun r => catalogue.createdAt r < t)).take (pageSize query) ∧
      result.listMeta.nextCursor = result.data.getLast?.map fun row => dates.toISOString (catalogue.createdAt row) := by
  subst hresult
  have htruthy : truthy (withCursor query cursor "cursor") = true := by
    simp [withCursor_cursor, truthy, hcursor]
  simp only [listUncached, htruthy, if_true, productFilter_withCursor hcursor hparse, limitParam_withCursor,
    Catalogue.repository, matching_before, nextCursorFrom, Catalogue.selected, pageSize]
  exact ⟨by simp, by simp⟩

/-- The instants of a catalogue survive the trip through a cursor. -/
def DateText.RoundTrips (dates : DateText) (catalogue : Catalogue Row) : Prop :=
  ∀ r ∈ catalogue.rows, dates.toISOString (catalogue.createdAt r) ≠ "" ∧
    dates.parse (dates.toISOString (catalogue.createdAt r)) = some (catalogue.createdAt r)

theorem selected_subset : catalogue.selected dates tenant query ⊆ catalogue.rows := List.filter_subset_self _

/-- From a cursor on, a client gets the pages of what is left, and has enough fuel for them. -/
theorem followCursor_visits
    (harrange : ∀ n rows, Lists catalogue.createdAt rows (arrange n "-createdAt" rows))
    (hdates : dates.RoundTrips catalogue) {fuel : Nat} (number : Nat) (hcursor : cursor ≠ "")
    (hparse : dates.parse cursor = some t)
    (hfuel : ((catalogue.selected dates tenant query).filter fun r => catalogue.createdAt r < t).length < fuel) :
    ∃ pages, followCursor dates catalogue arrange tenant query fuel number cursor = some pages ∧
      Visits catalogue.createdAt (pageSize query)
        ((catalogue.selected dates tenant query).filter fun r => catalogue.createdAt r < t) pages := by
  induction fuel generalizing number cursor t with
  | zero => omega
  | succ fuel ih =>
    obtain ⟨result, hresult⟩ : ∃ result, result = listUncached dates catalogue.createdAt
      (catalogue.repository (arrange number)) tenant (withCursor query cursor) := ⟨_, rfl⟩
    obtain ⟨hdata, hnext⟩ := listUncached_withCursor (arrange number) hcursor hparse hresult
    have hlists := harrange number
      ((catalogue.selected dates tenant query).filter fun r => catalogue.createdAt r < t)
    rw [followCursor, ← hresult]
    cases hlast : result.data.getLast? with
    | none =>
      have hempty : result.data = [] := List.getLast?_eq_none_iff.1 hlast
      have hnone : arrange number "-createdAt"
          ((catalogue.selected dates tenant query).filter fun r => catalogue.createdAt r < t) = [] := by
        refine (List.take_eq_nil_iff.1 (hdata.symm.trans hempty)).resolve_left ?_
        exact Nat.one_le_iff_ne_zero.1 (one_le_pageSize query)
      have hrows := hlists.perm
      rw [hnone] at hrows
      rw [hnext, hlast, hempty, hrows.nil_eq.symm]
      exact ⟨[[]], rfl, .last⟩
    | some row =>
      have hrow := hlast
      rw [hdata] at hrow
      have hmem : row ∈ (catalogue.selected dates tenant query).filter fun r => catalogue.createdAt r < t :=
        hlists.perm.subset (List.mem_of_mem_take (List.mem_of_getLast? hrow))
      obtain ⟨hselected, hbefore⟩ := List.mem_filter.1 hmem
      have hbefore := of_decide_eq_true hbefore
      obtain ⟨htext, hback⟩ := hdates row (selected_subset hselected)
      have hleft : ((catalogue.selected dates tenant query).filter
            fun r => catalogue.createdAt r < t).filter (fun r => catalogue.createdAt r < catalogue.createdAt row) =
          (catalogue.selected dates tenant query).filter
            fun r => catalogue.createdAt r < catalogue.createdAt row := by
        rw [List.filter_filter]
        refine List.filter_congr fun r _ => ?_
        by_cases hr : catalogue.createdAt r < catalogue.createdAt row
        · simp [hr, hr.trans hbefore]
        · simp [hr]
      have hless : ((catalogue.selected dates tenant query).filter
          fun r => catalogue.createdAt r < catalogue.createdAt row).length < fuel := by
        rw [← hleft]
        have := List.length_filter_lt_length_iff_exists.2
          (⟨row, hmem, by simp⟩ : ∃ r ∈ _, ¬ decide (catalogue.createdAt r < catalogue.createdAt row) = true)
        omega
      obtain ⟨rest, hrest, hvisits⟩ := ih (number + 1) htext hback hless
      rw [hnext, hlast]
      refine ⟨result.data :: rest, by simp [hrest], ?_⟩
      rw [hdata]
      exact .page hlists hrow (hleft ▸ hvisits)

/-- A client that starts from a cursor later than all products comes to a null cursor, and its pages
hold every product that the query selects exactly once if and only if, listed by falling `createdAt`,
no page would end between products of one `createdAt`. -/
theorem cursor_pages (harrange : ∀ n rows, Lists catalogue.createdAt rows (arrange n "-createdAt" rows))
    (hdates : dates.RoundTrips catalogue) (hcursor : cursor ≠ "") (hparse : dates.parse cursor = some t)
    (hlater : ∀ r ∈ catalogue.rows, catalogue.createdAt r < t) {fuel : Nat}
    (hfuel : (catalogue.selected dates tenant query).length < fuel) :
    ∃ pages, followCursor dates catalogue arrange tenant query fuel 0 cursor = some pages ∧
      (pages.flatten.Perm (catalogue.selected dates tenant query) ↔
        NoTies (pageSize query) (descending ((catalogue.selected dates tenant query).map catalogue.createdAt))) := by
  have hall : ((catalogue.selected dates tenant query).filter fun r => catalogue.createdAt r < t) =
      catalogue.selected dates tenant query :=
    List.filter_eq_self.2 fun r hr => decide_eq_true (hlater r (selected_subset hr))
  obtain ⟨pages, hpages, hvisits⟩ := followCursor_visits harrange hdates 0 hcursor hparse (hall.symm ▸ hfuel)
  rw [hall] at hvisits
  exact ⟨pages, hpages, hvisits.perm_iff (one_le_pageSize query)⟩

/-! ## A small catalogue -/

/-- Products 0 and 1, created at two instants. -/
def twoProducts (first second : Time) : Catalogue Nat where
  rows := [0, 1]
  createdAt r := if r = 0 then first else second
  selects _ _ := true

/-- `?limit=1` -/
def limitOne : Query := fun key => if key = "limit" then some (.str "1") else none

/-- The order of a database that keeps products of one instant as they are stored. -/
def newestFirst (catalogue : Catalogue Nat) (_ : Nat) (_sort : String) (rows : List Nat) : List Nat :=
  rows.insertionSort fun a b => catalogue.createdAt b ≤ catalogue.createdAt a

theorem newestFirst_lists (catalogue : Catalogue Nat) (n : Nat) (rows : List Nat) :
    Lists catalogue.createdAt rows (newestFirst catalogue n "-createdAt" rows) where
  perm := List.perm_insertionSort _ _
  sorted := by
    have : Std.Total fun a b => catalogue.createdAt b ≤ catalogue.createdAt a := ⟨fun a b => le_total _ _⟩
    have : IsTrans Nat fun a b => catalogue.createdAt b ≤ catalogue.createdAt a := ⟨fun a b c h h' => h'.trans h⟩
    exact List.pairwise_insertionSort _ _

/-- Two instants of 2023 and the one a client starts from. -/
def exampleDateText : DateText where
  parse text :=
    if text = "2023-11-14T22:13:20.000Z" then some 1700000000000
    else if text = "2023-11-14T22:13:21.000Z" then some 1700000001000
    else if text = "2024-01-01T00:00:00.000Z" then some 1704067200000
    else none
  toISOString time :=
    if time = 1700000000000 then "2023-11-14T22:13:20.000Z"
    else if time = 1700000001000 then "2023-11-14T22:13:21.000Z"
    else "2024-01-01T00:00:00.000Z"

theorem cursor_pages_two :
    ∃ pages, followCursor exampleDateText (twoProducts 1700000000000 1700000001000)
        (newestFirst (twoProducts 1700000000000 1700000001000)) "default" limitOne 3 0 "2024-01-01T00:00:00.000Z" =
          some pages ∧
      pages.flatten.Perm [0, 1] := by
  have hdates : exampleDateText.RoundTrips (twoProducts 1700000000000 1700000001000) := by
    unfold DateText.RoundTrips
    decide +kernel
  obtain ⟨pages, hpages, hiff⟩ := @cursor_pages _ exampleDateText (twoProducts 1700000000000 1700000001000)
    _ "default" "2024-01-01T00:00:00.000Z" limitOne 1704067200000
    (newestFirst_lists (twoProducts 1700000000000 1700000001000)) hdates (by decide) (by decide +kernel)
    (by decide +kernel) 3 (by decide +kernel)
  refine ⟨pages, hpages, hiff.2 fun k a b hk ha hb => ?_⟩
  have hsize : pageSize limitOne = 1 := by decide +kernel
  have hkeys : descending (((twoProducts 1700000000000 1700000001000).selected exampleDateText "default"
      limitOne).map (twoProducts 1700000000000 1700000001000).createdAt) = [1700000001000, 1700000000000] := by
    decide +kernel
  rw [hsize, hkeys] at ha hb
  obtain rfl | hk := Nat.eq_or_lt_of_le hk
  · obtain rfl := Option.some.inj ha
    obtain rfl := Option.some.inj hb
    decide
  · have hnone : [(1700000001000 : Time), 1700000000000][k * 1]? = none :=
      List.getElem?_eq_none_iff.2 (by simp only [List.length_cons, List.length_nil]; omega)
    cases hnone.symm.trans hb

/-- Two products of one instant, one on a page: the second page is empty. -/
theorem cursor_pages_counterexample :
    ∃ (catalogue : Catalogue Nat) (dates : DateText) (start : Time),
      (∀ n rows, Lists catalogue.createdAt rows (newestFirst catalogue n "-createdAt" rows)) ∧
      dates.RoundTrips catalogue ∧ dates.parse "2024-01-01T00:00:00.000Z" = some start ∧
      (∀ r ∈ catalogue.rows, catalogue.createdAt r < start) ∧
      catalogue.selected dates "default" limitOne = [0, 1] ∧
      followCursor dates catalogue (newestFirst catalogue) "default" limitOne 3 0 "2024-01-01T00:00:00.000Z" =
        some [[0], []] := by
  refine ⟨twoProducts 1700000000000 1700000000000, exampleDateText, 1704067200000,
    newestFirst_lists _, ?_, by decide +kernel, by decide +kernel, by decide +kernel, by decide +kernel⟩
  unfold DateText.RoundTrips
  decide +kernel

end Ecommerce
