import Ecommerce.Model.RecentlyViewed
import Ecommerce.Recency.Newest
import Ecommerce.Text.Strings
import Ecommerce.Trace.Run

/-!
# What was viewed recently

The store against a history that forgets nothing. Its list is the newest twelve of the history, and so
is what it has stored, whatever fails.
-/

namespace Ecommerce

open Recency

/-- All that was viewed in the page, and all that it was when the storage was written last, newest first
and with repetitions. -/
structure Viewing where
  viewed : List String
  saved : List String

namespace Viewing

/-- What a page that is loaded again knows. -/
def remembered (saved : List String) : List String :=
  ((newest saved).take RECENTLY_VIEWED_MAX).filter isIdText

def keep (writable : Bool) (viewed : List String) (h : Viewing) : Viewing :=
  { viewed, saved := if writable then viewed else h.saved }

/-- Nobody else writes to the storage. -/
def step (h : Viewing) : ViewEvent → Option Viewing
  | .record id writable => some (keep writable (id :: h.viewed) h)
  | .clear writable => some (keep writable [] h)
  | .reload readable => some { h with viewed := if readable then remembered h.saved else [] }
  | .tamper _ => none

end Viewing

namespace RecentlyViewed

variable {json : IdsJson} {s t : RecentlyViewed} {h k : Viewing} {event : ViewEvent}

/-- The store has the newest of the history in memory, and what was saved in its storage. -/
structure Refines (json : IdsJson) (s : RecentlyViewed) (h : Viewing) : Prop where
  ids : s.ids = (newest h.viewed).take RECENTLY_VIEWED_MAX
  stored : s.stored = none ∧ h.saved = [] ∨
    s.stored = some (json.stringify ((newest h.saved).take RECENTLY_VIEWED_MAX))

theorem Refines.write (hst : Refines json s h) (writable : Bool) (viewed : List String) :
    Refines json (write json writable ((newest viewed).take RECENTLY_VIEWED_MAX) s) (h.keep writable viewed) := by
  refine ⟨rfl, ?_⟩
  cases writable with
  | true => exact .inr rfl
  | false => exact hst.stored

/-- Reading gives what the history says is remembered. -/
theorem Refines.read (hst : Refines json s h) : read json s.stored = Viewing.remembered h.saved := by
  obtain ⟨hnone, hsaved⟩ | hsome := hst.stored
  · rw [hnone, hsaved]
    rfl
  · rw [hsome, RecentlyViewed.read]
    simp only [json.parse_stringify, List.filterMap_map]
    have hitems : ∀ ids : List String, ids.filterMap (id ∘ some) = ids := by
      intro ids
      simp
    rw [hitems]
    refine List.take_of_length_le ((List.length_filter_le _ _).trans ?_)
    exact List.length_take_le _ _

theorem remembered_nodup (saved : List String) : (Viewing.remembered saved).Nodup :=
  ((newest_nodup saved).sublist (List.take_sublist _ _)).filter _

theorem remembered_length_le (saved : List String) : (Viewing.remembered saved).length ≤ RECENTLY_VIEWED_MAX :=
  (List.length_filter_le _ _).trans (List.length_take_le _ _)

/-- Each event does to the store what it does to the history. -/
theorem Refines.step (hst : Refines json s h) (hevent : Viewing.step h event = some k) :
    ∃ t, step json s event = some t ∧ Refines json t k := by
  cases event with
  | record id writable =>
    obtain rfl := Option.some_inj.1 hevent
    refine ⟨_, rfl, ?_⟩
    have hfront := toFront_take_newest RECENTLY_VIEWED_MAX id h.viewed
    rw [← hst.ids, toFront] at hfront
    rw [RecentlyViewed.record, hfront]
    exact hst.write writable _
  | clear writable =>
    obtain rfl := Option.some_inj.1 hevent
    exact ⟨_, rfl, hst.write writable []⟩
  | reload readable =>
    obtain rfl := Option.some_inj.1 hevent
    refine ⟨_, rfl, ?_, hst.stored⟩
    cases readable with
    | true =>
      show RecentlyViewed.read json s.stored = (newest (Viewing.remembered h.saved)).take RECENTLY_VIEWED_MAX
      rw [hst.read, newest_of_nodup (remembered_nodup h.saved), List.take_of_length_le (remembered_length_le h.saved)]
    | false => rfl
  | tamper text => cases hevent

/-- Whatever the storage has, the list is bounded. -/
theorem step_length_le (hlength : s.ids.length ≤ RECENTLY_VIEWED_MAX) (hevent : step json s event = some t) :
    t.ids.length ≤ RECENTLY_VIEWED_MAX := by
  have hread : ∀ stored, (RecentlyViewed.read json stored).length ≤ RECENTLY_VIEWED_MAX := by
    intro stored
    unfold RecentlyViewed.read
    split
    · exact Nat.zero_le _
    · split
      · exact List.length_take_le _ _
      · exact Nat.zero_le _
  cases event with
  | record id writable =>
    obtain rfl := Option.some_inj.1 hevent
    exact List.length_take_le _ _
  | clear writable =>
    obtain rfl := Option.some_inj.1 hevent
    exact Nat.zero_le _
  | reload readable =>
    obtain rfl := Option.some_inj.1 hevent
    cases readable with
    | true => exact hread _
    | false => exact Nat.zero_le _
  | tamper text =>
    obtain rfl := Option.some_inj.1 hevent
    exact hlength

/-- After every run of views, clearings, reloads and storage failures, the list is the newest twelve of
the history, and so is what is stored of what was saved. -/
theorem run_viewed (json : IdsJson) {events : List ViewEvent} (hhistory : Trace.run Viewing.step ⟨[], []⟩ events = some h) :
    ∃ s, Trace.run (step json) (load json true none) events = some s ∧ Refines json s h ∧ s.ids.Nodup ∧
      s.ids.length ≤ RECENTLY_VIEWED_MAX := by
  have hsim : ∃ s, Trace.run (step json) (load json true none) events = some s ∧ Refines json s h := by
    induction events using List.reverseRecOn generalizing h with
    | nil =>
      obtain rfl := Option.some_inj.1 hhistory
      exact ⟨_, rfl, rfl, .inl ⟨rfl, rfl⟩⟩
    | append_singleton events event ih =>
      obtain ⟨g, hbefore, hlast⟩ := Trace.run_concat_eq_some.1 hhistory
      obtain ⟨s, hs, hst⟩ := ih hbefore
      obtain ⟨t, ht, hnext⟩ := hst.step hlast
      exact ⟨t, Trace.run_concat_eq_some.2 ⟨s, hs, ht⟩, hnext⟩
  obtain ⟨s, hs, hst⟩ := hsim
  refine ⟨s, hs, hst, ?_, ?_⟩
  · rw [hst.ids]
    exact (newest_nodup h.viewed).sublist (List.take_sublist _ _)
  · exact Trace.run_invariant (fun s : RecentlyViewed => s.ids.length ≤ RECENTLY_VIEWED_MAX) (Nat.zero_le _)
      (fun hlength hstep => step_length_le hlength hstep) hs

/-- Arrays of texts as `JSON` writes and reads them. Other texts are not read. -/
def textsJson : IdsJson where
  stringify ids := String.ofList (Text.Json.stringify (.arr (ids.map .str)))
  parse text := (Text.Json.readTexts text.toList).map fun ids => .array (ids.map some)
  parse_stringify ids := by
    rw [String.toList_ofList, Text.Json.readTexts_stringify]
    rfl

/-- A product is opened again, the storage fails for another one, and the page is loaded again. -/
def reopened : List ViewEvent :=
  [.record "aaaaaaaaaaaaaaaaaaaaaaaa" true, .record "bbbbbbbbbbbbbbbbbbbbbbbb" true,
    .record "aaaaaaaaaaaaaaaaaaaaaaaa" true, .record "cccccccccccccccccccccccc" false, .reload true]

theorem run_viewed_reopened :
    ∃ s, Trace.run (step textsJson) (load textsJson true none) reopened = some s ∧
      s.ids = ["aaaaaaaaaaaaaaaaaaaaaaaa", "bbbbbbbbbbbbbbbbbbbbbbbb"] := by
  obtain ⟨h, hh, hviewed⟩ := (Option.any_eq_true _ _).1 (by decide +kernel :
    (Trace.run Viewing.step ⟨[], []⟩ reopened).any fun h =>
      decide ((newest h.viewed).take RECENTLY_VIEWED_MAX = ["aaaaaaaaaaaaaaaaaaaaaaaa", "bbbbbbbbbbbbbbbbbbbbbbbb"]))
  obtain ⟨s, hs, hst, -, -⟩ := run_viewed textsJson hh
  exact ⟨s, hs, hst.ids.trans (of_decide_eq_true hviewed)⟩

end RecentlyViewed

end Ecommerce
