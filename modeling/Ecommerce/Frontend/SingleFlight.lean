import Ecommerce.Model.Browser
import Ecommerce.Trace.Run

/-!
# One refresh at a time

The slot of the refresh in flight is full just while a request to `/refresh` is outstanding. A refresh that
fails leaves its token in the storage when all that waited for it have unsubscribed, since only they clear
the session, and the token is then sent again. As long as this does not happen, a stored token was not sent
unless its answer is outstanding.
-/

namespace Ecommerce

/-- The refresh token that a response brings. -/
def BrowserEvent.issued : BrowserEvent → Option Token
  | .signedIn _ _ refreshToken _ | .refreshed _ _ refreshToken => some refreshToken
  | _ => none

namespace Browser

variable {s t : Browser} {event : BrowserEvent} {n k : Nat} {token : Token}

/-- The values that were sent to `/refresh`. -/
def sentToRefresh (s : Browser) : List String := s.refreshes.map fun r => r.token.text

/-- Somebody waits for the refresh. -/
def Awaited (s : Browser) (k : Nat) : Prop := ∃ q ∈ s.requests, q.attempt = .awaiting k

instance (s : Browser) (k : Nat) : Decidable (s.Awaited k) :=
  inferInstanceAs (Decidable (∃ q ∈ s.requests, q.attempt = .awaiting k))

/-! ## Steps -/

/-- What a step does to the requests to `/refresh` and to the stored token. -/
inductive RefreshStep (s : Browser) (event : BrowserEvent) (t : Browser) : Prop where
  | idle (hrefreshes : t.refreshes = s.refreshes) (hslot : t.refreshInFlight = s.refreshInFlight)
      (hstored : ∀ token, t.refresh = some token → s.refresh = some token ∨ event.issued = some token)
  | sent (token : Token) (hstored : s.refresh = some token) (hempty : s.refreshInFlight = none)
      (hrefreshes : t.refreshes = s.refreshes ++ [⟨token, false⟩])
      (hslot : t.refreshInFlight = some s.refreshes.length) (hkept : t.refresh = some token)
  | answered (k : Nat) (r : RefreshRequest) (hr : s.outstandingRefresh k = some r)
      (hrefreshes : t.refreshes = s.refreshes.set k { r with done := true }) (hslot : t.refreshInFlight = none)
      (hstored : ∀ token, t.refresh = some token → event.issued = some token ∨
        event = .refreshFailed k ∧ ¬ s.Awaited k ∧ s.refresh = some token)

/-- Steps that leave the requests to `/refresh`, and the stored token, as they are. -/
theorem RefreshStep.kept (hrefreshes : t.refreshes = s.refreshes) (hslot : t.refreshInFlight = s.refreshInFlight)
    (hstored : t.refresh = s.refresh) : RefreshStep s event t :=
  .idle hrefreshes hslot fun _ htoken => .inl (hstored ▸ htoken)

/-- Steps that clear the session. -/
theorem RefreshStep.cleared (hrefreshes : t.refreshes = s.refreshes)
    (hslot : t.refreshInFlight = s.refreshInFlight) (hstored : t.refresh = none) : RefreshStep s event t :=
  .idle hrefreshes hslot fun token htoken => by
    rw [hstored] at htoken
    cases htoken

/-- What follows the step touches neither. -/
theorem RefreshStep.then_kept {u : Browser} (h : RefreshStep s event t) (hrefreshes : u.refreshes = t.refreshes)
    (hslot : u.refreshInFlight = t.refreshInFlight) (hstored : u.refresh = t.refresh) :
    RefreshStep s event u := by
  cases h with
  | idle hrefreshes' hslot' hstored' =>
    exact .idle (hrefreshes.trans hrefreshes') (hslot.trans hslot') (hstored ▸ hstored')
  | sent token hstored' hempty hrefreshes' hslot' hkept =>
    exact .sent token hstored' hempty (hrefreshes.trans hrefreshes') (hslot.trans hslot') (hstored.trans hkept)
  | answered k r hr hrefreshes' hslot' hstored' =>
    exact .answered k r hr (hrefreshes.trans hrefreshes') (hslot.trans hslot') (hstored ▸ hstored')

/-- `refreshAccessToken` fails for want of a token, shares the refresh in flight, or sends the stored
token. -/
theorem refreshAccessToken_cases (s : Browser) (event : BrowserEvent) :
    s.refreshAccessToken = (none, s) ∨
      ∃ k, s.refreshAccessToken.1 = some k ∧ RefreshStep s event s.refreshAccessToken.2 := by
  rw [refreshAccessToken]
  cases hstored : s.refresh with
  | none => exact .inl rfl
  | some token =>
    right
    cases hslot : s.refreshInFlight with
    | some n => exact ⟨n, rfl, .kept rfl rfl rfl⟩
    | none => exact ⟨_, rfl, .sent token hstored hslot rfl rfl hstored⟩

theorem fail_refreshStep (n : Nat) (r : ApiRequest) : RefreshStep s event (s.fail n r) := by
  rw [fail]
  split
  · exact .cleared rfl rfl rfl
  · exact .kept rfl rfl rfl

theorem init_refreshStep : RefreshStep s event s.init := by
  rw [init]
  split
  · exact .kept rfl rfl rfl
  · obtain heq | ⟨k, hk, hstep⟩ := s.refreshAccessToken_cases event
    · rw [heq]
      exact .cleared rfl rfl rfl
    · generalize s.refreshAccessToken = result at hk hstep
      obtain ⟨first, t⟩ := result
      obtain rfl : first = some k := hk
      exact hstep.then_kept rfl rfl rfl

theorem unauthorized_refreshStep (n : Nat) (r : ApiRequest) : RefreshStep s event (s.unauthorized n r) := by
  rw [unauthorized]
  split
  · exact fail_refreshStep n r
  · obtain heq | ⟨k, hk, hstep⟩ := s.refreshAccessToken_cases event
    · rw [heq]
      have hcleared : (s.clearSession.fail n r).refresh = none := by
        dsimp only [fail]
        split <;> rfl
      refine .cleared ?_ ?_ hcleared
      · dsimp only [fail]
        split <;> rfl
      · dsimp only [fail]
        split <;> rfl
    · generalize s.refreshAccessToken = result at hk hstep
      obtain ⟨first, t⟩ := result
      obtain rfl : first = some k := hk
      exact hstep.then_kept rfl rfl rfl

theorem logout_refreshStep : RefreshStep s event s.logout := by
  rw [logout]
  split <;> exact .cleared rfl rfl rfl

/-- Those that wait for a refresh clear the session when it fails. -/
theorem refreshFailed_refresh (k : Nat) (r : RefreshRequest) (h : (s.refreshFailed k r).refresh = some token) :
    ¬ s.Awaited k ∧ s.refresh = some token := by
  by_cases hawaited : s.Awaited k
  · obtain ⟨q, hq, hawaiting⟩ := hawaited
    have hany : (s.requests.any fun q => q.attempt = .awaiting k) = true :=
      List.any_eq_true.2 ⟨q, hq, decide_eq_true hawaiting⟩
    simp only [refreshFailed, hany, if_true] at h
    cases h
  · have hnone : (s.requests.any fun q => q.attempt = .awaiting k) = false := by
      refine List.any_eq_false.2 fun q hq hawaiting => hawaited ⟨q, hq, of_decide_eq_true hawaiting⟩
    simp only [refreshFailed, hnone, Bool.false_eq_true, if_false] at h
    exact ⟨hawaited, h⟩

theorem step_refreshStep (hstep : s.step event = some t) : RefreshStep s event t := by
  cases event with
  | init =>
    obtain rfl := Option.some.inj hstep
    exact init_refreshStep
  | startSignIn | request | loadProfile =>
    obtain rfl := Option.some.inj hstep
    exact .kept rfl rfl rfl
  | refreshAccessToken =>
    obtain rfl := Option.some.inj hstep
    obtain heq | ⟨-, -, hsent⟩ := s.refreshAccessToken_cases .refreshAccessToken
    · rw [heq]
      exact .kept rfl rfl rfl
    · exact hsent
  | logout =>
    obtain rfl := Option.some.inj hstep
    exact logout_refreshStep
  | sessionExpired =>
    obtain rfl := Option.some.inj hstep
    exact .cleared rfl rfl rfl
  | signedIn n accessToken refreshToken stepUp =>
    rw [step] at hstep
    split at hstep
    · obtain ⟨r, -, rfl⟩ := Option.map_eq_some_iff.1 hstep
      exact .idle rfl rfl fun token htoken => .inr htoken
    · cases hstep
  | signInFailed n | responded n | profile n user | unsubscribed n =>
    obtain ⟨r, -, rfl⟩ := Option.map_eq_some_iff.1 hstep
    exact .kept rfl rfl rfl
  | refreshed k accessToken refreshToken =>
    obtain ⟨r, hr, hissued⟩ := Option.bind_eq_some_iff.1 hstep
    split at hissued
    · obtain rfl := Option.some.inj hissued
      exact .answered k r hr rfl rfl fun token htoken => .inl htoken
    · cases hissued
  | refreshFailed k =>
    obtain ⟨r, hr, rfl⟩ := Option.map_eq_some_iff.1 hstep
    exact .answered k r hr rfl rfl fun token htoken => .inr ⟨rfl, refreshFailed_refresh k r htoken⟩
  | unauthorized n =>
    obtain ⟨r, -, rfl⟩ := Option.map_eq_some_iff.1 hstep
    split
    · exact unauthorized_refreshStep n r
    · exact fail_refreshStep n r
  | failed n =>
    obtain ⟨r, -, rfl⟩ := Option.map_eq_some_iff.1 hstep
    exact fail_refreshStep n r

/-! ## The slot -/

/-- The slot holds the request to `/refresh` that is outstanding. -/
def Slotted (s : Browser) : Prop :=
  ∀ k, s.refreshInFlight = some k ↔ ∃ r, s.refreshes[k]? = some r ∧ r.done = false

theorem slotted_load (stored : Option Token) : (load stored).Slotted := fun k => by simp [load]

theorem outstandingRefresh_eq_some {r : RefreshRequest} :
    s.outstandingRefresh k = some r ↔ s.refreshes[k]? = some r ∧ r.done = false := by
  simp [outstandingRefresh, Option.filter_eq_some_iff]

theorem Slotted.inFlight (h : s.Slotted) {r : RefreshRequest} (hr : s.outstandingRefresh k = some r) :
    s.refreshInFlight = some k :=
  (h k).2 ⟨r, outstandingRefresh_eq_some.1 hr⟩

theorem Slotted.step (h : s.Slotted) (hstep : RefreshStep s event t) : t.Slotted := by
  cases hstep with
  | idle hrefreshes hslot =>
    intro k
    rw [hslot, hrefreshes]
    exact h k
  | sent token _ hempty hrefreshes hslot _ =>
    intro k
    rw [hslot, hrefreshes]
    constructor
    · rintro ⟨⟩
      exact ⟨⟨token, false⟩, by simp, rfl⟩
    · rintro ⟨r, hr, hopen⟩
      obtain ⟨hlt, -⟩ := List.getElem?_eq_some_iff.1 hr
      obtain hold | rfl := Nat.lt_succ_iff_lt_or_eq.1 (by simpa using hlt : k < s.refreshes.length + 1)
      · rw [List.getElem?_append_left hold] at hr
        have hfull := (h k).2 ⟨r, hr, hopen⟩
        rw [hempty] at hfull
        cases hfull
      · rfl
  | answered k r hr hrefreshes hslot _ =>
    intro j
    rw [hslot, hrefreshes]
    constructor
    · exact nofun
    · rintro ⟨q, hq, hopen⟩
      have hk := (List.getElem?_eq_some_iff.1 (outstandingRefresh_eq_some.1 hr).1).1
      by_cases hj : j = k
      · subst hj
        rw [List.getElem?_set_self hk] at hq
        obtain rfl := Option.some.inj hq
        cases hopen
      · rw [List.getElem?_set_ne (Ne.symm hj)] at hq
        have hother := (h j).2 ⟨q, hq, hopen⟩
        rw [h.inFlight hr] at hother
        exact absurd (Option.some.inj hother).symm hj

/-! ## The values -/

/-- No value was sent twice, and a stored token was not sent, unless its answer is outstanding. -/
structure Flights (s : Browser) : Prop where
  slot : s.Slotted
  once : s.sentToRefresh.Nodup
  fresh : ∀ token, s.refresh = some token → token.text ∈ s.sentToRefresh →
    ∃ k r, s.outstandingRefresh k = some r ∧ token.text = r.token.text

theorem flights_load (stored : Option Token) : (load stored).Flights :=
  ⟨slotted_load stored, by simp [load, sentToRefresh], by simp [load, sentToRefresh]⟩

/-- The server rotates refresh tokens: one that it issues was not sent to it before. -/
def Rotating (s : Browser) (event : BrowserEvent) : Prop :=
  ∀ token, event.issued = some token → token.text ∉ s.sentToRefresh

instance (s : Browser) (event : BrowserEvent) : Decidable (s.Rotating event) :=
  inferInstanceAs (Decidable (∀ token ∈ event.issued, token.text ∉ s.sentToRefresh))

/-- No refresh fails while its token is stored and nobody waits for it. -/
def Attended (s : Browser) : BrowserEvent → Prop
  | .refreshFailed k =>
    s.Awaited k ∨ ∀ r, s.outstandingRefresh k = some r → ∀ token, s.refresh = some token → token.text ≠ r.token.text
  | _ => True

instance : (event : BrowserEvent) → Decidable (s.Attended event)
  | .refreshFailed k => inferInstanceAs
      (Decidable (_ ∨ ∀ r ∈ s.outstandingRefresh k, ∀ token ∈ s.refresh, token.text ≠ r.token.text))
  | .init | .startSignIn | .request | .loadProfile | .refreshAccessToken | .logout | .sessionExpired
  | .signedIn _ _ _ _ | .signInFailed _ | .refreshed _ _ _ | .responded _ | .profile _ _ | .unauthorized _
  | .failed _ | .unsubscribed _ => isTrue trivial

theorem sentToRefresh_set {r : RefreshRequest} (hr : s.refreshes[k]? = some r)
    (hrefreshes : t.refreshes = s.refreshes.set k { r with done := true }) : t.sentToRefresh = s.sentToRefresh := by
  obtain ⟨hk, rfl⟩ := List.getElem?_eq_some_iff.1 hr
  rw [sentToRefresh, hrefreshes, sentToRefresh]
  refine List.ext_getElem (by simp) fun i hi _ => ?_
  simp only [List.getElem_map, List.getElem_set]
  split
  · next h => subst h; rfl
  · rfl

theorem Flights.step (h : s.Flights) (hrotating : s.Rotating event) (hattended : s.Attended event)
    (hstep : RefreshStep s event t) : t.Flights := by
  have hslotted := h.slot.step hstep
  cases hstep with
  | idle hrefreshes _ hstored =>
    have hsent : t.sentToRefresh = s.sentToRefresh := by rw [sentToRefresh, hrefreshes, sentToRefresh]
    refine ⟨hslotted, hsent ▸ h.once, fun token htoken hmem => ?_⟩
    rw [hsent] at hmem
    obtain hsame | hissued := hstored token htoken
    · obtain ⟨k, r, hr, htext⟩ := h.fresh token hsame hmem
      exact ⟨k, r, by rwa [outstandingRefresh, hrefreshes], htext⟩
    · exact absurd hmem (hrotating token hissued)
  | sent token hstored hempty hrefreshes _ hkept =>
    have hsent : t.sentToRefresh = s.sentToRefresh ++ [token.text] := by simp [sentToRefresh, hrefreshes]
    have hfresh : token.text ∉ s.sentToRefresh := by
      intro hmem
      obtain ⟨k, r, hr, -⟩ := h.fresh token hstored hmem
      have hfull := h.slot.inFlight hr
      rw [hempty] at hfull
      cases hfull
    refine ⟨hslotted, ?_, fun token' htoken' _ => ?_⟩
    · rw [hsent]
      exact List.nodup_append.2 ⟨h.once, List.nodup_singleton _, by grind⟩
    · obtain rfl : token = token' := Option.some.inj (hkept.symm.trans htoken')
      exact ⟨s.refreshes.length, ⟨token, false⟩, outstandingRefresh_eq_some.2 ⟨by simp [hrefreshes], rfl⟩, rfl⟩
  | answered k r hr hrefreshes _ hstored =>
    have hsent := sentToRefresh_set (outstandingRefresh_eq_some.1 hr).1 hrefreshes
    refine ⟨hslotted, hsent ▸ h.once, fun token htoken hmem => ?_⟩
    rw [hsent] at hmem
    obtain hissued | ⟨rfl, hnobody, hsame⟩ := hstored token htoken
    · exact absurd hmem (hrotating token hissued)
    · obtain ⟨j, q, hq, htext⟩ := h.fresh token hsame hmem
      obtain rfl : j = k := Option.some.inj ((h.slot.inFlight hq).symm.trans (h.slot.inFlight hr))
      exact (hattended.resolve_left hnobody q hq token hsame htext).elim

/-! ## Runs -/

/-- At most one request to `/refresh` is outstanding at any time; and no refresh token is sent to it twice as
long as no refresh fails unattended. -/
theorem single_flight (stored : Option Token) (events : List BrowserEvent) (s : Browser)
    (hrun : Trace.run step (load stored) events = some s) :
    (∀ (i j : Nat) (q r : RefreshRequest), s.refreshes[i]? = some q → s.refreshes[j]? = some r →
      q.done = false → r.done = false → i = j) ∧
      (Trace.Meets step Rotating (load stored) events → Trace.Meets step Attended (load stored) events →
        (s.refreshes.map fun r => r.token.text).Nodup) := by
  refine ⟨fun i j q r hq hr hopen hopen' => ?_, fun hrotating hattended => ?_⟩
  · have hslotted : s.Slotted :=
      Trace.run_invariant Slotted (slotted_load stored) (fun h hstep => h.step (step_refreshStep hstep)) hrun
    have hi := (hslotted i).2 ⟨q, hq, hopen⟩
    have hj := (hslotted j).2 ⟨r, hr, hopen'⟩
    exact Option.some.inj (hi.symm.trans hj)
  · have hmeets : Trace.Meets step (fun x e => x.Rotating e ∧ x.Attended e) (load stored) events :=
      fun before e after t hsplit hbefore =>
        ⟨hrotating before e after t hsplit hbefore, hattended before e after t hsplit hbefore⟩
    have hflights : s.Flights :=
      Trace.run_induct Flights (flights_load stored)
        (fun h hmet hstep => h.step hmet.1 hmet.2 (step_refreshStep hstep)) hmeets hrun
    exact hflights.once

/-- A sign-in and two requests that are answered with 401, the second one after the refresh. -/
def lateUnauthorized : List BrowserEvent :=
  [.init, .startSignIn, .signedIn 0 ⟨"a1", 7⟩ ⟨"r1", 7⟩ (some false), .profile 0 7, .request, .request,
    .unauthorized 1, .refreshed 0 ⟨"a2", 7⟩ ⟨"r2", 7⟩, .unauthorized 2]

theorem single_flight_lateUnauthorized : ∃ s, Trace.run step (load none) lateUnauthorized = some s ∧
    s.refreshes.length = 2 ∧ (s.refreshes.map fun r => r.token.text).Nodup := by
  obtain ⟨s, hrun, hlength⟩ := (Option.any_eq_true _ _).1
    (by decide +kernel : (Trace.run step (load none) lateUnauthorized).any fun s => s.refreshes.length = 2)
  exact ⟨s, hrun, by simpa using hlength,
    (single_flight none lateUnauthorized s hrun).2 (by decide +kernel) (by decide +kernel)⟩

/-- The page that waits for a refresh is left before the refresh fails, and the next request is answered with
401 too. -/
def leftBeforeFailure : List BrowserEvent :=
  [.init, .startSignIn, .signedIn 0 ⟨"a1", 7⟩ ⟨"r1", 7⟩ (some false), .profile 0 7, .request, .unauthorized 1,
    .unsubscribed 1, .refreshFailed 0, .request, .unauthorized 2]

/-- The token is sent again. -/
theorem not_single_flight : ∃ s, Trace.run step (load none) leftBeforeFailure = some s ∧
    Trace.Meets step Rotating (load none) leftBeforeFailure ∧
    (s.refreshes.map fun r => r.token.text) = ["r1", "r1"] := by
  obtain ⟨s, hrun, hsent⟩ := (Option.any_eq_true _ _).1
    (by decide +kernel : (Trace.run step (load none) leftBeforeFailure).any fun s =>
      decide ((s.refreshes.map fun r => r.token.text) = ["r1", "r1"]))
  exact ⟨s, hrun, by decide +kernel, of_decide_eq_true hsent⟩

end Browser

end Ecommerce
