import Ecommerce.Model.Browser
import Ecommerce.Trace.Run

/-!
# What a sign-out leaves

Requests are not cancelled when the session is cleared or another user signs in, so their answers are
written into a session that is not theirs, and a `/logout` that is answered with 401 is sent again with the
tokens of two users. Signing out is final just in the runs in which no answer comes so late.
-/

namespace Ecommerce

namespace Browser

variable {s t : Browser} {event : BrowserEvent} {n k : Nat}

/-- After the session was cleared there are no tokens and nobody is authenticated, until a sign-in that was
started later is answered; and tokens are stored and sent only as long as their user is the last one that
signed in. -/
structure Final (s : Browser) : Prop where
  cleared : s.cleared = true → s.access = none ∧ s.refresh = none ∧ s.status ≠ .authenticated
  stored : ∀ token, s.access = some token ∨ s.refresh = some token → s.signedIn = some token.user
  sent : ∀ p ∈ s.sent, p.2 = some p.1.user

/-- The requests that wait for a refresh have no tokens in their bodies but of the user that signed in
last. -/
def RetriesOwn (s : Browser) (k : Nat) : Prop :=
  ∀ q ∈ s.requests, q.attempt = .awaiting k → ∀ token ∈ q.call.body, s.signedIn = some token.user

instance (s : Browser) (k : Nat) : Decidable (s.RetriesOwn k) :=
  inferInstanceAs (Decidable (∀ q ∈ s.requests, q.attempt = .awaiting k → ∀ token ∈ q.call.body, _))

/-- An answer with tokens or the profile comes in time: a sign-in was not started before the session was
cleared, unless another one was answered since; and the session of a refresh or of the profile has not
ended, nor that of a request that the refresh sends once more. -/
def InTime (s : Browser) : BrowserEvent → Prop
  | .signedIn n _ _ _ => ∀ r, s.outstandingSignIn n = some r → s.cleared = true → ¬ r.clears < s.clears
  | .refreshed k _ _ => ∀ r, s.outstandingRefresh k = some r →
    s.cleared = false ∧ s.signedIn = some r.token.user ∧ s.RetriesOwn k
  | .profile _ _ => s.cleared = false
  | _ => True

theorem final_load (stored : Option Token) : (load stored).Final := by
  constructor
  · intro hcleared
    cases hcleared
  · intro token htoken
    obtain haccess | hstored := htoken
    · cases haccess
    · have hstored : stored = some token := hstored
      rw [hstored]
      rfl
  · intro p hp
    cases hp

theorem Final.send (h : s.Final) {tokens : List Token} (htokens : ∀ token ∈ tokens, s.signedIn = some token.user) :
    (s.send tokens).Final := by
  refine ⟨h.cleared, h.stored, fun p hp => ?_⟩
  obtain hp | hp := List.mem_append.1 hp
  · exact h.sent p hp
  · obtain ⟨token, htoken, rfl⟩ := List.mem_map.1 hp
    exact htokens token htoken

theorem Final.clearSession (h : s.Final) : s.clearSession.Final := by
  refine ⟨fun _ => ⟨rfl, rfl, nofun⟩, fun token htoken => ?_, h.sent⟩
  obtain h | h := htoken <;> cases h

theorem Final.request (h : s.Final) {call : ApiCall}
    (hbody : ∀ token ∈ call.body, s.signedIn = some token.user) : (s.request call).Final := by
  have hsend : (s.send (s.access.toList ++ call.body)).Final := h.send fun token htoken => by
    obtain haccess | htoken := List.mem_append.1 htoken
    · exact h.stored token (.inl (Option.mem_toList.1 haccess))
    · exact hbody token htoken
  exact ⟨hsend.cleared, hsend.stored, hsend.sent⟩

theorem Final.refreshAccessToken (h : s.Final) : s.refreshAccessToken.2.Final := by
  rw [Browser.refreshAccessToken]
  split
  · exact h
  · next token hstored =>
    split
    · exact h
    · have hsend : (s.send [token]).Final := h.send fun x hx => by
        obtain rfl := List.mem_singleton.1 hx
        exact h.stored x (.inr hstored)
      exact ⟨hsend.cleared, hsend.stored, hsend.sent⟩

theorem Final.fail (h : s.Final) (n : Nat) (r : ApiRequest) : (s.fail n r).Final := by
  have hset : (s.setRequest n { r with attempt := .done }).Final := ⟨h.cleared, h.stored, h.sent⟩
  rw [Browser.fail]
  split
  · exact hset.clearSession
  · exact hset

theorem Final.init (h : s.Final) : s.init.Final := by
  rw [Browser.init]
  split
  · exact ⟨fun hcleared => ⟨(h.cleared hcleared).1, (h.cleared hcleared).2.1, nofun⟩, h.stored, h.sent⟩
  · have hrefresh := h.refreshAccessToken
    split
    · next t heq =>
      rw [heq] at hrefresh
      exact hrefresh.clearSession
    · next k t heq =>
      rw [heq] at hrefresh
      exact ⟨hrefresh.cleared, hrefresh.stored, hrefresh.sent⟩

theorem Final.logout (h : s.Final) : s.logout.Final := by
  rw [Browser.logout]
  split
  · next refreshToken accessToken hrefresh haccess =>
    refine Final.clearSession (h.request fun token htoken => ?_)
    obtain rfl := List.mem_singleton.1 htoken
    exact h.stored token (.inr hrefresh)
  · exact h.clearSession

theorem Final.unauthorized (h : s.Final) (n : Nat) (r : ApiRequest) : (s.unauthorized n r).Final := by
  rw [Browser.unauthorized]
  split
  · exact h.fail n r
  · have hrefresh := h.refreshAccessToken
    split
    · next t heq =>
      rw [heq] at hrefresh
      exact hrefresh.clearSession.fail n r
    · next k t heq =>
      rw [heq] at hrefresh
      exact ⟨hrefresh.cleared, hrefresh.stored, hrefresh.sent⟩

theorem Final.refreshFailed (h : s.Final) (k : Nat) (r : RefreshRequest) : (s.refreshFailed k r).Final := by
  rw [Browser.refreshFailed]
  dsimp only
  split
  · exact ⟨h.clearSession.cleared, h.clearSession.stored, h.clearSession.sent⟩
  · exact ⟨h.cleared, h.stored, h.sent⟩

/-- Tokens of the user that signed in last, while nothing was cleared, can be stored and sent. -/
theorem Final.refreshed (h : s.Final) {k : Nat} {r : RefreshRequest} {accessToken refreshToken : Token}
    (hcleared : s.cleared = false) (hsignedIn : s.signedIn = some r.token.user) (hretries : s.RetriesOwn k)
    (haccess : accessToken.user = r.token.user) (hrefresh : refreshToken.user = r.token.user) :
    (s.refreshed k r accessToken refreshToken).Final := by
  have hsave : (s.save accessToken refreshToken).Final := by
    refine ⟨fun hc => ?_, fun token htoken => ?_, h.sent⟩
    · have hc : s.cleared = true := hc
      rw [hcleared] at hc
      cases hc
    · show s.signedIn = some token.user
      obtain htoken | htoken := htoken
      · obtain rfl : accessToken = token := Option.some.inj htoken
        rw [hsignedIn, haccess]
      · obtain rfl : refreshToken = token := Option.some.inj htoken
        rw [hsignedIn, hrefresh]
  have hsend : ((s.save accessToken refreshToken).send
      ((s.requests.filter fun q => q.attempt = .awaiting k).flatMap fun q => accessToken :: q.call.body)).Final :=
    hsave.send fun token htoken => by
      obtain ⟨q, hq, htoken⟩ := List.mem_flatMap.1 htoken
      obtain ⟨hq, hawaiting⟩ := List.mem_filter.1 hq
      obtain rfl | htoken := List.mem_cons.1 htoken
      · exact hsave.stored token (.inl rfl)
      · exact hretries q hq (of_decide_eq_true hawaiting) token htoken
  exact ⟨hsend.cleared, hsend.stored, hsend.sent⟩

theorem Final.signIn (h : s.Final) (n : Nat) {r : SignInRequest} {accessToken refreshToken : Token}
    (stepUp : Option Bool) (hlater : s.cleared = true → ¬ r.clears < s.clears)
    (husers : accessToken.user = refreshToken.user) :
    (s.signIn n r accessToken refreshToken stepUp).Final := by
  rw [Browser.signIn]
  refine Final.request ?_ nofun
  refine ⟨fun hcleared => ?_, fun token htoken => ?_, h.sent⟩
  · have hboth : s.cleared = true ∧ r.clears < s.clears := by simpa using hcleared
    exact absurd hboth.2 (hlater hboth.1)
  · show some accessToken.user = some token.user
    obtain htoken | htoken := htoken
    · obtain rfl : accessToken = token := Option.some.inj htoken
      rfl
    · obtain rfl : refreshToken = token := Option.some.inj htoken
      rw [husers]

/-! ## Steps -/

/-- An answer in time keeps the sessions apart. -/
theorem Final.step (h : s.Final) (htime : s.InTime event) (hstep : s.step event = some t) : t.Final := by
  cases event with
  | init =>
    obtain rfl := Option.some.inj hstep
    exact h.init
  | startSignIn =>
    obtain rfl := Option.some.inj hstep
    exact ⟨h.cleared, h.stored, h.sent⟩
  | request | loadProfile =>
    obtain rfl := Option.some.inj hstep
    exact h.request nofun
  | refreshAccessToken =>
    obtain rfl := Option.some.inj hstep
    exact h.refreshAccessToken
  | logout =>
    obtain rfl := Option.some.inj hstep
    exact h.logout
  | sessionExpired =>
    obtain rfl := Option.some.inj hstep
    exact h.clearSession
  | signedIn n accessToken refreshToken stepUp =>
    rw [Browser.step] at hstep
    split at hstep
    · next husers =>
      obtain ⟨r, hr, rfl⟩ := Option.map_eq_some_iff.1 hstep
      exact h.signIn n stepUp (htime r hr) husers
    · cases hstep
  | signInFailed n =>
    obtain ⟨r, -, rfl⟩ := Option.map_eq_some_iff.1 hstep
    exact ⟨h.cleared, h.stored, h.sent⟩
  | refreshed k accessToken refreshToken =>
    obtain ⟨r, hr, hissued⟩ := Option.bind_eq_some_iff.1 hstep
    split at hissued
    · next husers =>
      obtain rfl := Option.some.inj hissued
      obtain ⟨hcleared, hsignedIn, hretries⟩ := htime r hr
      exact h.refreshed hcleared hsignedIn hretries husers.1 husers.2
    · cases hissued
  | refreshFailed k =>
    obtain ⟨r, -, rfl⟩ := Option.map_eq_some_iff.1 hstep
    exact h.refreshFailed k r
  | responded n =>
    obtain ⟨r, -, rfl⟩ := Option.map_eq_some_iff.1 hstep
    exact ⟨h.cleared, h.stored, h.sent⟩
  | profile n user =>
    obtain ⟨r, -, rfl⟩ := Option.map_eq_some_iff.1 hstep
    refine ⟨fun hcleared => ?_, h.stored, h.sent⟩
    have hopen : s.cleared = false := htime
    have hcleared : s.cleared = true := hcleared
    rw [hopen] at hcleared
    cases hcleared
  | unauthorized n =>
    obtain ⟨r, -, rfl⟩ := Option.map_eq_some_iff.1 hstep
    split
    · exact h.unauthorized n r
    · exact h.fail n r
  | failed n =>
    obtain ⟨r, -, rfl⟩ := Option.map_eq_some_iff.1 hstep
    exact h.fail n r
  | unsubscribed n =>
    obtain ⟨r, -, rfl⟩ := Option.map_eq_some_iff.1 hstep
    exact ⟨h.cleared, h.stored, h.sent⟩

/-- An answer that comes late leaves tokens, or a profile, in a session that is not theirs, or sends tokens
that are not. -/
theorem not_final_of_late (hlate : ¬ s.InTime event) (hstep : s.step event = some t) : ¬ t.Final := by
  cases event with
  | signedIn n accessToken refreshToken stepUp =>
    simp only [InTime, not_forall, not_not] at hlate
    obtain ⟨r, hr, hcleared, hbefore⟩ := hlate
    rw [Browser.step] at hstep
    split at hstep
    · rw [hr] at hstep
      obtain rfl := Option.some.inj hstep
      intro hfinal
      have hstill : (s.signIn n r accessToken refreshToken stepUp).cleared = true := by
        show (s.cleared && decide (r.clears < s.clears)) = true
        simp [hcleared, hbefore]
      cases (hfinal.cleared hstill).1
    · cases hstep
  | refreshed k accessToken refreshToken =>
    simp only [InTime, not_forall] at hlate
    obtain ⟨r, hr, hended⟩ := hlate
    obtain ⟨r', hr', hissued⟩ := Option.bind_eq_some_iff.1 hstep
    obtain rfl : r = r' := Option.some.inj (hr.symm.trans hr')
    split at hissued
    · next husers =>
      obtain rfl := Option.some.inj hissued
      intro hfinal
      refine hended ⟨?_, ?_, fun q hq hawaiting token htoken => ?_⟩
      · cases hcleared : s.cleared with
        | false => rfl
        | true => cases (hfinal.cleared hcleared).1
      · have hstored : s.signedIn = some refreshToken.user := hfinal.stored refreshToken (.inr rfl)
        rw [hstored, husers.2]
      · refine hfinal.sent (token, s.signedIn) (List.mem_append_right _ (List.mem_map_of_mem ?_))
        exact List.mem_flatMap.2
          ⟨q, List.mem_filter.2 ⟨hq, decide_eq_true hawaiting⟩, List.mem_cons_of_mem _ htoken⟩
    · cases hissued
  | profile n user =>
    obtain ⟨r, -, rfl⟩ := Option.map_eq_some_iff.1 hstep
    have hcleared : s.cleared = true := by simpa [InTime] using hlate
    intro hfinal
    exact (hfinal.cleared hcleared).2.2 rfl
  | init | startSignIn | request | loadProfile | refreshAccessToken | logout | sessionExpired | signInFailed
  | refreshFailed | responded | unauthorized | failed | unsubscribed => exact absurd trivial hlate

/-! ## Runs -/

instance : (event : BrowserEvent) → Decidable (s.InTime event)
  | .signedIn n _ _ _ => inferInstanceAs
      (Decidable (∀ r ∈ s.outstandingSignIn n, s.cleared = true → ¬ r.clears < s.clears))
  | .refreshed k _ _ => inferInstanceAs
      (Decidable (∀ r ∈ s.outstandingRefresh k,
        s.cleared = false ∧ s.signedIn = some r.token.user ∧ s.RetriesOwn k))
  | .profile _ _ => inferInstanceAs (Decidable (s.cleared = false))
  | .init | .startSignIn | .request | .loadProfile | .refreshAccessToken | .logout | .sessionExpired
  | .signInFailed _ | .refreshFailed _ | .responded _ | .unauthorized _ | .failed _ | .unsubscribed _ =>
    isTrue trivial

/-- Signing out is final throughout a run just if every answer of the run comes in time. -/
theorem sign_out_final (stored : Option Token) (events : List BrowserEvent) (s : Browser)
    (hrun : Trace.run step (load stored) events = some s) :
    (∀ before after t, events = before ++ after → Trace.run step (load stored) before = some t → t.Final) ↔
      Trace.Meets step InTime (load stored) events := by
  constructor
  · intro hfinal before event after t hsplit hbefore
    by_contra hlate
    have hsplit' : events = (before ++ [event]) ++ after := by simp [hsplit]
    rw [hsplit'] at hrun
    obtain ⟨u, hevent, -⟩ := Trace.run_append_eq_some.1 hrun
    obtain ⟨t', hbefore', hstep⟩ := Trace.run_concat_eq_some.1 hevent
    obtain rfl : t = t' := Option.some.inj (hbefore.symm.trans hbefore')
    exact not_final_of_late hlate hstep (hfinal (before ++ [event]) after u hsplit' hevent)
  · rintro hmeets before after t rfl hbefore
    exact Trace.run_induct Final (final_load stored) (fun h htime hstep => h.step htime hstep)
      hmeets.of_append hbefore

/-- A refresh that is answered after the sign-out. -/
def refreshedAfterLogout : List BrowserEvent :=
  [.init, .startSignIn, .signedIn 0 ⟨"a1", 7⟩ ⟨"r1", 7⟩ (some false), .profile 0 7, .request, .unauthorized 1,
    .logout, .refreshed 0 ⟨"a2", 7⟩ ⟨"r2", 7⟩]

/-- A `/logout` that is answered with 401 when another user has signed in. -/
def logoutRetried : List BrowserEvent :=
  [.init, .startSignIn, .signedIn 0 ⟨"a7", 7⟩ ⟨"r7", 7⟩ (some false), .profile 0 7, .logout, .startSignIn,
    .signedIn 1 ⟨"a8", 8⟩ ⟨"r8", 8⟩ (some false), .profile 2 8, .unauthorized 1, .refreshed 0 ⟨"b8", 8⟩ ⟨"s8", 8⟩]

theorem exists_of_run_any {events : List BrowserEvent} {P : Browser → Prop} [DecidablePred P]
    (h : (Trace.run step (load none) events).any fun s => decide (P s)) :
    ∃ s, Trace.run step (load none) events = some s ∧ P s := by
  obtain ⟨s, hrun, hs⟩ := (Option.any_eq_true _ _).1 h
  exact ⟨s, hrun, of_decide_eq_true hs⟩

/-- The tokens are back after the sign-out, without a sign-in; and a token is sent after another user has
signed in. -/
theorem not_sign_out_final :
    (∃ s, Trace.run step (load none) refreshedAfterLogout = some s ∧
      s.cleared = true ∧ s.access = some ⟨"a2", 7⟩ ∧ s.refresh = some ⟨"r2", 7⟩) ∧
    ∃ s, Trace.run step (load none) logoutRetried = some s ∧ (⟨"r7", 7⟩, some 8) ∈ s.sent :=
  ⟨exists_of_run_any (by decide +kernel), exists_of_run_any (by decide +kernel)⟩

/-- A sign-in, a refresh that is answered, and a sign-out. -/
def logoutAfterRefresh : List BrowserEvent :=
  [.init, .startSignIn, .signedIn 0 ⟨"a1", 7⟩ ⟨"r1", 7⟩ (some false), .profile 0 7, .request, .unauthorized 1,
    .refreshed 0 ⟨"a2", 7⟩ ⟨"r2", 7⟩, .logout]

theorem sign_out_final_logoutAfterRefresh : ∃ s, Trace.run step (load none) logoutAfterRefresh = some s ∧
    s.cleared = true ∧ s.Final := by
  obtain ⟨s, hrun, hcleared⟩ : ∃ s, Trace.run step (load none) logoutAfterRefresh = some s ∧ s.cleared = true :=
    exists_of_run_any (by decide +kernel)
  exact ⟨s, hrun, hcleared,
    (sign_out_final none logoutAfterRefresh s hrun).2 (by decide +kernel) logoutAfterRefresh [] s
      (List.append_nil _).symm hrun⟩

end Browser

end Ecommerce
