import Ecommerce.Model.SearchBox
import Ecommerce.Trace.Run

/-!
# What the search box suggests

A lookup that was given up is never shown: once no lookup is out, the suggestions are what the newest
lookup has found, and that lookup is for the text that settled last.
-/

namespace Ecommerce

namespace SearchEvent

/-- The events that hide the suggestions. -/
def closes : SearchEvent → Bool
  | submit | openProduct _ => true
  | _ => false

/-- The text that was typed last, without blanks around it. -/
def lastTyped : List SearchEvent → Option String
  | [] => none
  | .type text :: events => (lastTyped events).or (some (jsTrim text))
  | _ :: events => lastTyped events

theorem lastTyped_concat (events : List SearchEvent) (event : SearchEvent) :
    lastTyped (events ++ [event]) = (lastTyped [event]).or (lastTyped events) := by
  induction events with
  | nil => cases event <;> rfl
  | cons e events ih =>
    rw [List.cons_append]
    cases e with
    | type text => rw [lastTyped, ih, lastTyped, Option.or_assoc]
    | _ => exact ih

end SearchEvent

namespace SearchBox

variable {s t : SearchBox} {event : SearchEvent} {q : String} {typed : Option String}

/-! ## Invariants -/

/-- The lookup that is waited for is the newest one, and asks for the text that settled last. -/
structure Waits (s : SearchBox) : Prop where
  newest : ∀ n, s.current = some n → n + 1 = s.lookups.length ∧
    ∃ q category, s.lookups[n]? = some ⟨q, category, none⟩ ∧ s.settled = some q
  asked : ∀ lookup ∈ s.lookups, SUGGEST_MIN_LENGTH ≤ lengthOf lookup.q

/-- What was typed last is held back or has settled. -/
def Follows (typed : Option String) (s : SearchBox) : Prop :=
  (s.held.map (·.1)).or s.settled = typed

/-- Suggestions are what some lookup has found, and the newest one if none is out. -/
def Fresh (s : SearchBox) : Prop :=
  s.suggestions = [] ∨ ∃ n lookup, s.lookups[n]? = some lookup ∧ lookup.outcome.isSome ∧
    s.suggestions = lookup.items ∧ (s.current = none → n + 1 = s.lookups.length ∧ s.settled = some lookup.q)

/-- The box shows what the newest lookup has found for the text, or nothing if it is too short. -/
def Shows (s : SearchBox) : Option String → Prop
  | none => s.suggestions = []
  | some q =>
    (lengthOf q < SUGGEST_MIN_LENGTH → s.suggestions = []) ∧
      (SUGGEST_MIN_LENGTH ≤ lengthOf q → ∃ lookup, s.lookups.getLast? = some lookup ∧ lookup.q = q ∧
        lookup.outcome.isSome ∧ s.suggestions = lookup.items)

/-- Nothing is missing: unless a lookup is out, the box shows what it has to for the settled text. -/
def Complete (s : SearchBox) : Prop := s.current = none → s.Shows s.settled

/-- Time lets a new text settle. -/
def Settles (s : SearchBox) (ms : Nat) : Prop :=
  ∃ q left, s.held = some (q, left) ∧ left ≤ ms ∧ s.settled ≠ some q

theorem waits_load (results : Option (Option String × Option String)) : (load results).Waits := by
  cases results <;> exact ⟨nofun, nofun⟩

theorem fresh_load (results : Option (Option String × Option String)) : (load results).Fresh := by
  cases results <;> exact .inl rfl

theorem complete_load (results : Option (Option String × Option String)) : (load results).Complete := by
  cases results <;> exact fun _ => rfl

theorem follows_load (results : Option (Option String × Option String)) : (load results).Follows none := by
  cases results <;> rfl

/-- An event that leaves the lookups alone. -/
theorem Waits.frame (h : s.Waits) (hlookups : t.lookups = s.lookups) (hcurrent : t.current = s.current)
    (hsettled : t.settled = s.settled) : t.Waits := by
  constructor
  · rw [hlookups, hcurrent, hsettled]
    exact h.newest
  · rw [hlookups]
    exact h.asked

theorem Fresh.frame (h : s.Fresh) (hlookups : t.lookups = s.lookups) (hcurrent : t.current = s.current)
    (hsettled : t.settled = s.settled) (hsuggestions : t.suggestions = s.suggestions) : t.Fresh := by
  rwa [Fresh, hlookups, hcurrent, hsettled, hsuggestions]

theorem Complete.frame (h : s.Complete) (hlookups : t.lookups = s.lookups) (hcurrent : t.current = s.current)
    (hsettled : t.settled = s.settled) (hsuggestions : t.suggestions = s.suggestions) : t.Complete := by
  intro hnone
  have hshows := h (hcurrent ▸ hnone)
  rw [hsettled]
  cases hq : s.settled with
  | none =>
    rw [hq] at hshows
    exact hsuggestions.trans hshows
  | some q =>
    rw [hq] at hshows
    unfold Shows at hshows ⊢
    rwa [hlookups, hsuggestions]

/-! ## Settling -/

theorem Waits.settle (h : s.Waits) (q : String) : (settle q s).Waits := by
  unfold SearchBox.settle
  split
  · exact h.frame rfl rfl rfl
  · unfold switchTo
    split
    · exact ⟨nofun, h.asked⟩
    · next hlong =>
      constructor
      · rintro n ⟨⟩
        refine ⟨by simp, q, s.scope, by simp, rfl⟩
      · intro lookup hlookup
        rcases List.mem_append.1 hlookup with hlookup | hlookup
        · exact h.asked lookup hlookup
        · rw [List.mem_singleton.1 hlookup]
          exact Nat.not_lt.1 hlong

theorem Fresh.settle (h : s.Fresh) (q : String) : (settle q s).Fresh := by
  unfold SearchBox.settle
  split
  · exact h.frame rfl rfl rfl rfl
  · unfold switchTo
    split
    · exact .inl rfl
    · refine h.imp_right fun ⟨n, lookup, hlookup, hended, hitems, _⟩ => ⟨n, lookup, ?_, hended, hitems, nofun⟩
      exact (List.getElem?_append_left (List.getElem?_eq_some_iff.1 hlookup).1).trans hlookup

/-- A new text that settles starts a lookup or hides the suggestions. -/
theorem complete_settle (hnew : s.settled ≠ some q) : (settle q s).Complete := by
  intro hnone
  unfold SearchBox.settle at hnone ⊢
  rw [if_neg hnew] at hnone ⊢
  unfold switchTo at hnone ⊢
  split at hnone
  · next hshort =>
    rw [if_pos hshort]
    exact ⟨fun _ => rfl, fun hlong => absurd hshort (Nat.not_lt.2 hlong)⟩
  · cases hnone

theorem Complete.settle (h : s.Complete) (q : String) : (settle q s).Complete := by
  by_cases hsame : s.settled = some q
  · refine h.frame ?_ ?_ ?_ ?_ <;> rw [SearchBox.settle, if_pos hsame]
  · exact complete_settle hsame

theorem settled_settle (q : String) (s : SearchBox) :
    (settle q s).settled = some q ∧ (settle q s).held = none := by
  unfold SearchBox.settle
  split
  · next hsame => exact ⟨hsame, rfl⟩
  · unfold switchTo
    split <;> exact ⟨rfl, rfl⟩

/-! ## Replies -/

section Replies

variable {n : Nat} {category : String} {outcome : Option (List SuggestedProduct)}

theorem Waits.reply (h : s.Waits) (hopen : s.lookups[n]? = some ⟨q, category, none⟩) :
    (reply n ⟨q, category, some outcome⟩ s).Waits := by
  have hasked : ∀ lookup ∈ s.lookups.set n ⟨q, category, some outcome⟩,
      SUGGEST_MIN_LENGTH ≤ lengthOf lookup.q := by
    intro lookup hlookup
    rcases List.mem_or_eq_of_mem_set hlookup with hlookup | rfl
    · exact h.asked lookup hlookup
    · exact h.asked ⟨q, category, none⟩ (List.mem_of_getElem? hopen)
  unfold SearchBox.reply
  split
  · exact ⟨nofun, hasked⟩
  · next hother =>
    refine ⟨fun k hk => ?_, hasked⟩
    obtain ⟨hlast, q', category', hlookup, hsettled⟩ := h.newest k hk
    have hne : n ≠ k := by
      rintro rfl
      exact hother hk
    exact ⟨by simpa using hlast, q', category', by simpa [List.getElem?_set_ne hne] using hlookup, hsettled⟩

theorem Fresh.reply (h : s.Fresh) (hwaits : s.Waits) (hopen : s.lookups[n]? = some ⟨q, category, none⟩) :
    (reply n ⟨q, category, some outcome⟩ s).Fresh := by
  have hlt := (List.getElem?_eq_some_iff.1 hopen).1
  unfold SearchBox.reply
  split
  · next hcurrent =>
    obtain ⟨hlast, q', category', hlookup, hsettled⟩ := hwaits.newest n hcurrent
    obtain ⟨rfl, rfl⟩ : q = q' ∧ category = category' := by simpa [hopen] using hlookup
    refine .inr ⟨n, _, List.getElem?_set_self hlt, rfl, rfl, fun _ => ⟨by simpa using hlast, hsettled⟩⟩
  · refine h.imp_right fun ⟨k, lookup, hlookup, hended, hitems, hnewest⟩ => ?_
    have hne : n ≠ k := by
      rintro rfl
      obtain rfl := Option.some_inj.1 (hopen.symm.trans hlookup)
      cases hended
    exact ⟨k, lookup, (List.getElem?_set_ne hne).trans hlookup, hended, hitems, by simpa using hnewest⟩

theorem Complete.reply (h : s.Complete) (hwaits : s.Waits) (hopen : s.lookups[n]? = some ⟨q, category, none⟩) :
    (reply n ⟨q, category, some outcome⟩ s).Complete := by
  have hlt := (List.getElem?_eq_some_iff.1 hopen).1
  by_cases hcurrent : s.current = some n
  · obtain ⟨hlast, q', category', hlookup, hsettled⟩ := hwaits.newest n hcurrent
    obtain ⟨rfl, rfl⟩ : q = q' ∧ category = category' := by simpa [hopen] using hlookup
    have hlong := hwaits.asked _ (List.mem_of_getElem? hopen)
    rw [SearchBox.reply, if_pos hcurrent]
    intro _
    show Shows _ s.settled
    rw [hsettled]
    refine ⟨fun hshort => absurd hlong (Nat.not_le.2 hshort), fun _ => ⟨⟨q, category, some outcome⟩, ?_, rfl, rfl, rfl⟩⟩
    rw [List.getLast?_eq_getElem?, List.length_set, ← hlast, Nat.add_sub_cancel]
    exact List.getElem?_set_self hlt
  · rw [SearchBox.reply, if_neg hcurrent]
    intro hnone
    have hshows := h hnone
    show Shows _ s.settled
    cases hq : s.settled with
    | none =>
      rw [hq] at hshows
      exact hshows
    | some settled =>
      rw [hq] at hshows
      refine ⟨hshows.1, fun hlong => ?_⟩
      obtain ⟨lookup, hlookup, hsame, hended, hitems⟩ := hshows.2 hlong
      refine ⟨lookup, ?_, hsame, hended, hitems⟩
      rw [List.getLast?_eq_getElem?] at hlookup ⊢
      have hne : n ≠ s.lookups.length - 1 := by
        rintro rfl
        obtain rfl := Option.some_inj.1 (hopen.symm.trans hlookup)
        cases hended
      rw [List.length_set, List.getElem?_set_ne hne]
      exact hlookup

end Replies

/-! ## Steps -/

theorem Waits.elapse (h : s.Waits) (ms : Nat) : (elapse ms s).Waits := by
  unfold SearchBox.elapse
  split
  · split
    · exact h.settle _
    · exact h.frame rfl rfl rfl
  · exact h

theorem Fresh.elapse (h : s.Fresh) (ms : Nat) : (elapse ms s).Fresh := by
  unfold SearchBox.elapse
  split
  · split
    · exact h.settle _
    · exact h.frame rfl rfl rfl rfl
  · exact h

theorem Complete.elapse (h : s.Complete) (ms : Nat) : (elapse ms s).Complete := by
  unfold SearchBox.elapse
  split
  · split
    · exact h.settle _
    · exact h.frame rfl rfl rfl rfl
  · exact h

theorem Settles.complete {ms : Nat} (h : s.Settles ms) : (elapse ms s).Complete := by
  obtain ⟨q, left, hheld, hdue, hnew⟩ := h
  simp only [SearchBox.elapse, hheld, if_pos hdue]
  exact complete_settle hnew

/-- A reply is to a lookup that is out. -/
theorem step_reply {n : Nat} {outcome : Option (List SuggestedProduct)}
    (hstep : step s (.reply n outcome) = some t) :
    ∃ q category, s.lookups[n]? = some ⟨q, category, none⟩ ∧ t = reply n ⟨q, category, some outcome⟩ s := by
  rw [step] at hstep
  split at hstep
  · next q category hlookup => exact ⟨q, category, hlookup, (Option.some_inj.1 hstep).symm⟩
  · cases hstep

/-- What an event leaves of the parts that lookups do not use. -/
theorem step_waits_fresh (hwaits : s.Waits) (hfresh : s.Fresh) (hstep : step s event = some t) :
    t.Waits ∧ t.Fresh := by
  cases event with
  | elapse ms =>
    obtain rfl := Option.some_inj.1 hstep
    exact ⟨hwaits.elapse ms, hfresh.elapse ms⟩
  | reply n outcome =>
    obtain ⟨q, category, hopen, rfl⟩ := step_reply hstep
    exact ⟨hwaits.reply hopen, hfresh.reply hwaits hopen⟩
  | submit =>
    obtain rfl := Option.some_inj.1 hstep
    exact ⟨hwaits.frame rfl rfl rfl, .inl rfl⟩
  | openProduct product =>
    obtain rfl := Option.some_inj.1 hstep
    exact ⟨hwaits.frame rfl rfl rfl, .inl rfl⟩
  | navigated results =>
    obtain rfl := Option.some_inj.1 hstep
    cases results <;> exact ⟨hwaits.frame rfl rfl rfl, hfresh.frame rfl rfl rfl rfl⟩
  | _ =>
    obtain rfl := Option.some_inj.1 hstep
    exact ⟨hwaits.frame rfl rfl rfl, hfresh.frame rfl rfl rfl rfl⟩

theorem step_complete (hwaits : s.Waits) (hcomplete : s.Complete) (hopen : event.closes = false)
    (hstep : step s event = some t) : t.Complete := by
  cases event with
  | elapse ms =>
    obtain rfl := Option.some_inj.1 hstep
    exact hcomplete.elapse ms
  | reply n outcome =>
    obtain ⟨q, category, hlookup, rfl⟩ := step_reply hstep
    exact hcomplete.reply hwaits hlookup
  | submit => cases hopen
  | openProduct product => cases hopen
  | navigated results =>
    obtain rfl := Option.some_inj.1 hstep
    cases results <;> exact hcomplete.frame rfl rfl rfl rfl
  | _ =>
    obtain rfl := Option.some_inj.1 hstep
    exact hcomplete.frame rfl rfl rfl rfl

theorem step_follows (h : s.Follows typed) (hstep : step s event = some t) :
    t.Follows ((SearchEvent.lastTyped [event]).or typed) := by
  cases event with
  | type text =>
    obtain rfl := Option.some_inj.1 hstep
    rfl
  | elapse ms =>
    obtain rfl := Option.some_inj.1 hstep
    show Follows typed _
    unfold SearchBox.elapse
    split
    · next q left hheld =>
      obtain rfl : some q = typed := by
        rw [← h, hheld]
        rfl
      split
      · obtain ⟨hsettled, hnone⟩ := settled_settle q s
        rw [Follows, hsettled, hnone]
        rfl
      · rfl
    · exact h
  | reply n outcome =>
    obtain ⟨q, category, -, rfl⟩ := step_reply hstep
    show Follows typed _
    unfold SearchBox.reply
    split <;> exact h
  | navigated results =>
    obtain rfl := Option.some_inj.1 hstep
    cases results <;> exact h
  | _ =>
    obtain rfl := Option.some_inj.1 hstep
    exact h

/-! ## Runs -/

theorem run_waits_fresh {results : Option (Option String × Option String)} {events : List SearchEvent}
    (hrun : Trace.run step (load results) events = some s) : s.Waits ∧ s.Fresh :=
  Trace.run_invariant (fun s => s.Waits ∧ s.Fresh) ⟨waits_load results, fresh_load results⟩
    (fun h hstep => step_waits_fresh h.1 h.2 hstep) hrun

theorem run_follows {results : Option (Option String × Option String)} {events : List SearchEvent}
    (hrun : Trace.run step (load results) events = some s) : s.Follows (SearchEvent.lastTyped events) := by
  induction events using List.reverseRecOn generalizing s with
  | nil =>
    obtain rfl := Option.some_inj.1 hrun
    exact follows_load results
  | append_singleton events event ih =>
    obtain ⟨r, hbefore, hlast⟩ := Trace.run_concat_eq_some.1 hrun
    rw [SearchEvent.lastTyped_concat]
    exact step_follows (ih hbefore) hlast

/-- The box is as it was loaded, or a new text has just settled. -/
def Renewed (results : Option (Option String × Option String)) (events : List SearchEvent) : Prop :=
  events = [] ∨ ∃ before ms r, events = before ++ [.elapse ms] ∧
    Trace.run step (load results) before = some r ∧ r.Settles ms

theorem Renewed.complete {results : Option (Option String × Option String)} {events : List SearchEvent}
    (h : Renewed results events) (hrun : Trace.run step (load results) events = some s) : s.Complete := by
  obtain rfl | ⟨before, ms, r, rfl, hbefore, hsettles⟩ := h
  · obtain rfl := Option.some_inj.1 hrun
    exact complete_load results
  · rw [Trace.run_concat, hbefore] at hrun
    obtain rfl := Option.some_inj.1 hrun
    exact hsettles.complete

/-- In every order of typing, timers, replies and navigations, the suggestions are what one lookup has
found, the newest one when none is out. Unless the shopper has submitted or opened a product since a
text settled, the box ends up with what the newest lookup has found for the text typed last. -/
theorem run_suggestions {results : Option (Option String × Option String)} {events : List SearchEvent}
    (hrun : Trace.run step (load results) events = some s) :
    s.Fresh ∧ ∀ before after, events = before ++ after → Renewed results before →
      (∀ event ∈ after, event.closes = false) → s.held = none → s.current = none →
      s.Shows (SearchEvent.lastTyped events) := by
  refine ⟨(run_waits_fresh hrun).2, fun before after hsplit hrenewed hopen hheld hcurrent => ?_⟩
  have hfollows := run_follows hrun
  subst hsplit
  obtain ⟨r, hbefore, hafter⟩ := Trace.run_append_eq_some.1 hrun
  have hstart : r.Waits ∧ r.Fresh ∧ r.Complete :=
    ⟨(run_waits_fresh hbefore).1, (run_waits_fresh hbefore).2, hrenewed.complete hbefore⟩
  have hmeets : Trace.Meets step (fun _ event => event.closes = false) r after := by
    rintro before' event after' _ rfl -
    exact hopen event (List.mem_append_right _ List.mem_cons_self)
  have hend := Trace.run_induct (fun s => s.Waits ∧ s.Fresh ∧ s.Complete) hstart
    (fun h hopen hstep => ⟨(step_waits_fresh h.1 h.2.1 hstep).1, (step_waits_fresh h.1 h.2.1 hstep).2,
      step_complete h.1 h.2.2 hopen hstep⟩) hmeets hafter
  have hsettled : s.settled = SearchEvent.lastTyped (before ++ after) := by
    rw [← hfollows, hheld]
    rfl
  exact hsettled ▸ hend.2.2 hcurrent

/-- The lookup for the shorter text is answered after the one for the longer text. -/
def mugsTyped : List SearchEvent :=
  [.type "mug", .elapse 250, .type " mugs", .elapse 100, .elapse 150, .reply 1 (some [⟨2, "Mug set"⟩]),
    .reply 0 (some [⟨1, "Mug"⟩])]

theorem run_suggestions_mugsTyped :
    ∃ s, Trace.run step (load none) mugsTyped = some s ∧ s.suggestions = [⟨2, "Mug set"⟩] ∧
      s.Shows (some "mugs") := by
  obtain ⟨s, hs, h⟩ := (Option.any_eq_true _ _).1 (by decide +kernel :
    (Trace.run step (load none) mugsTyped).any fun s =>
      decide (s.suggestions = [⟨2, "Mug set"⟩] ∧ s.held = none ∧ s.current = none))
  obtain ⟨hsuggestions, hheld, hcurrent⟩ := of_decide_eq_true h
  have hshows := (run_suggestions hs).2 [] mugsTyped rfl (.inl rfl) (by decide) hheld hcurrent
  have htyped : SearchEvent.lastTyped mugsTyped = some "mugs" := by decide +kernel
  exact ⟨s, hs, hsuggestions, htyped ▸ hshows⟩

end SearchBox

end Ecommerce
