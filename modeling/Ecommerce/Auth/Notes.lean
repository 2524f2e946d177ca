import Ecommerce.Effect.Memo
import Ecommerce.Model.Auth

/-!
# What a request does to refresh tokens

A request is followed by a note of the id it has drawn last, of the user it may issue a refresh token
for, and of the exchange of the token it presented. A sign-in may issue one token for the user whose
session it has started, and a refresh one for the user of the token it has consumed.
-/

namespace Ecommerce

open Effect

structure TokenNote where
  /-- The refresh token that the request presents for exchange. -/
  presents : Option String
  drawn : Option Nat
  credit : Option ObjectId
  exchanged : Bool
  deriving DecidableEq, Repr

/-- The note of a request that has done nothing yet. -/
def AuthCall.blank : AuthCall → TokenNote
  | .refresh token _ => ⟨some token, none, none, false⟩
  | _ => ⟨none, none, none, false⟩

namespace TokenNote

/-- What a call adds to the note. -/
def note : (o : AuthOp) → Except ApiError o.Reply → TokenNote → TokenNote
  | .randomUUID, .ok n, g => { g with drawn := some n }
  | .sessionTrack draft, .ok _, g => { g with credit := some draft.user }
  | .refreshConsume _ _, .ok (some row), g =>
    { g with credit := some (RefreshTokenRecord.user row), exchanged := true }
  | .refreshCreate _, _, g => { g with drawn := none, credit := none }
  | _, _, g => g

/-- The digest of a token that was signed with the id. -/
def Signs (cfg : AuthConfig) (jwtid : Nat) (digest : String) : Prop :=
  ∃ claims expiry secret now, digest = cfg.sha256 (cfg.jwt.sign claims expiry secret now jwtid)

/-- What a request issues, given its note. -/
def may (cfg : AuthConfig) : AuthOp → TokenNote → Prop
  | .refreshCreate draft, g =>
    g.credit = some draft.user ∧ ∃ jwtid, g.drawn = some jwtid ∧ Signs cfg jwtid draft.token
  | .refreshConsume lookup now, g =>
    g.exchanged = false ∧ ∃ token, g.presents = some token ∧ lookup = tokenLookup cfg token ∧
      (cfg.jwt.verify token cfg.REFRESH_SECRET now).isSome
  | _, _ => True

/-- The replies a request relies on. -/
def allows : (o : AuthOp) → Except ApiError o.Reply → Prop
  | .userFindById id, .ok (some user) => User.id user = id
  | _, _ => True

end TokenNote

/-- The memo of a request. -/
def tokenMemo (cfg : AuthConfig) : Memo AuthMongo ApiError TokenNote where
  note := TokenNote.note
  may := TokenNote.may cfg
  allows := TokenNote.allows

/-- How a request ends: a refresh that returns tokens has exchanged the one it presented. -/
def AuthCall.Ends : AuthCall → Except ApiError AuthReply → TokenNote → Prop
  | .refresh token _, .ok _, g => g.exchanged = true ∧ g.presents = some token
  | _, _, _ => True

section Tracks

variable {cfg : AuthConfig} {α : Type} {g : TokenNote}

/-- The request still presents what it did, and has exchanged it or not as before. -/
def TokenNote.Stays (g : TokenNote) : Except ApiError α → TokenNote → Prop :=
  fun _ g' => g'.presents = g.presents ∧ g'.exchanged = g.exchanged

/-- The calls that the note is silent about. -/
def AuthOp.Silent : AuthOp → Prop
  | .randomUUID | .sessionTrack _ | .refreshConsume _ _ | .refreshCreate _ => False
  | _ => True

theorem AuthOp.Silent.unnoted {o : AuthOp} (h : o.Silent) : (tokenMemo cfg).Unnoted o := by
  intro g
  cases o <;> first | exact h.elim | exact ⟨trivial, fun _ => rfl⟩

/-- Programs of such calls leave the note as it is. -/
theorem tracks_silent {p : AuthM α} {Q : Except ApiError α → TokenNote → Prop}
    (h : p.Issues AuthOp.Silent) (hQ : ∀ r, Q r g) : (tokenMemo cfg).Tracks Q p g :=
  Memo.tracks_unnoted (h.mono fun _ ho => ho.unnoted) hQ

/-- Two tokens are signed, the second with the id that is drawn last. -/
theorem createTokenPair_tracks {user : User} {sessionId : Option ObjectId} {now : Time}
    {Q : Except ApiError TokenPair → TokenNote → Prop}
    (hok : ∀ (pair : TokenPair) jwtid, TokenNote.Signs cfg jwtid (cfg.sha256 pair.refresh_token) →
      Q (.ok pair) { g with drawn := some jwtid })
    (herror : ∀ e drawn, Q (.error e) { g with drawn := drawn }) :
    (tokenMemo cfg).Tracks Q (createTokenPair cfg user sessionId now) g := by
  refine ⟨trivial, fun r _ => ?_⟩
  cases r with
  | error e => exact herror e g.drawn
  | ok accessId =>
    refine ⟨trivial, fun r _ => ?_⟩
    cases r with
    | error e => exact herror e (some accessId)
    | ok refreshId => exact hok _ refreshId ⟨_, _, _, _, rfl⟩

/-- A token is issued for the user that the note allows. -/
theorem issue_tracks {user : User} {sessionId : Option ObjectId} {now : Time}
    {f : TokenPair → RefreshTokenRecord → AuthM α} (hcredit : g.credit = some user.id)
    (hf : ∀ pair saved, (f pair saved).Issues AuthOp.Silent) :
    (tokenMemo cfg).Tracks g.Stays (do
      let tokens ← createTokenPair cfg user sessionId now
      let savedRefreshToken ← createRefreshToken cfg tokens.refresh_token user.id now
      f tokens savedRefreshToken) g := by
  refine Memo.Tracks.bind (createTokenPair_tracks (fun pair jwtid hsigns => ?_) fun e drawn => ⟨rfl, rfl⟩)
  refine ⟨⟨hcredit, jwtid, rfl, hsigns⟩, fun r _ => ?_⟩
  cases r with
  | error e => exact ⟨rfl, rfl⟩
  | ok saved => exact tracks_silent (hf pair saved) fun _ => ⟨rfl, rfl⟩

theorem startSession_tracks (user : User) (req : AuthHttp) (now : Time) :
    (tokenMemo cfg).Tracks g.Stays (startSession cfg user req now) g := by
  refine Memo.Tracks.bind (Memo.Tracks.bind ⟨trivial, fun r _ => ?_⟩)
  cases r with
  | error e => exact ⟨rfl, rfl⟩
  | ok failed =>
    refine ⟨trivial, fun r _ => ?_⟩
    cases r with
    | error e => exact ⟨rfl, rfl⟩
    | ok session =>
      exact issue_tracks rfl fun pair saved =>
        (Prog.issues_perform trivial).bind fun _ => trivial

theorem rotate_tracks {user : User} {sessionId : Option ObjectId} {now : Time}
    (hcredit : g.credit = some user.id) :
    (tokenMemo cfg).Tracks g.Stays (rotate cfg user sessionId now) g := by
  refine issue_tracks hcredit fun pair saved => Prog.Issues.bind ?_ fun _ => trivial
  cases sessionId with
  | none => trivial
  | some id => exact Prog.issues_perform trivial

theorem revokedSession_silent (claims : AccessTokenClaims) :
    (revokedSession claims).Issues AuthOp.Silent := by
  rcases hsid : claims.sid with _ | _ | _ <;> rw [revokedSession, hsid]
  · trivial
  · exact Prog.issues_perform trivial
  · trivial

theorem auth_silent (userFirst : Bool) (token : String) (now : Time) :
    (auth cfg userFirst token now).Issues AuthOp.Silent := by
  unfold auth
  split
  · trivial
  split
  · trivial
  refine Prog.Issues.bind (Prog.Issues.attempt ?_) fun out => ?_
  · unfold both
    split
    · exact (Prog.issues_perform trivial).bind fun _ => (revokedSession_silent _).bind fun _ => trivial
    · exact (revokedSession_silent _).bind fun _ => (Prog.issues_perform trivial).bind fun _ => trivial
  · match out with
    | .error _ => trivial
    | .ok (none, _) => trivial
    | .ok (some user, revoked) =>
      dsimp only
      split <;> trivial

theorem logout_silent (refreshToken : String) (ctx : AuthContext) (now : Time) :
    (logout cfg refreshToken ctx now).Issues AuthOp.Silent := by
  refine (Prog.issues_perform trivial).bind fun _ => ?_
  cases ctx.sessionId with
  | none => trivial
  | some id => exact Prog.issues_perform trivial

theorem assertSelfSignupAllowed_silent (tenant : String) :
    (assertSelfSignupAllowed cfg tenant).Issues AuthOp.Silent := by
  refine (Prog.issues_perform trivial).bind fun found => ?_
  dsimp only
  split <;> trivial

theorem register_tracks (value : RegisterInput) (tenant : String) (req : AuthHttp) (now : Time) :
    (tokenMemo cfg).Tracks g.Stays (register cfg value tenant req now) g := by
  refine Memo.Tracks.bind (tracks_silent (assertSelfSignupAllowed_silent tenant) fun r => ?_)
  cases r with
  | error e => exact ⟨rfl, rfl⟩
  | ok _ =>
    refine ⟨trivial, fun r _ => ?_⟩
    match r with
    | .error e => exact ⟨rfl, rfl⟩
    | .ok true => exact ⟨rfl, rfl⟩
    | .ok false =>
      refine ⟨trivial, fun r _ => ?_⟩
      cases r with
      | error e => exact ⟨rfl, rfl⟩
      | ok salt =>
        refine ⟨trivial, fun r _ => ?_⟩
        cases r with
        | error e => exact ⟨rfl, rfl⟩
        | ok user =>
          show (tokenMemo cfg).Tracks _ (startSession cfg user req now >>= _) { g with drawn := some salt }
          refine Memo.Tracks.bind ((startSession_tracks user req now).weaken fun r g' hstays => ?_)
          cases r with
          | error e => exact hstays
          | ok out => exact hstays

theorem login_tracks (value : LoginInput) (tenant : String) (req : AuthHttp) (now : Time) :
    (tokenMemo cfg).Tracks g.Stays (login cfg value tenant req now) g := by
  refine ⟨trivial, fun r _ => ?_⟩
  match r with
  | .error e => exact ⟨rfl, rfl⟩
  | .ok none =>
    refine tracks_silent ?_ fun _ => ⟨rfl, rfl⟩
    exact (Prog.issues_perform trivial).bind fun _ => trivial
  | .ok (some user) =>
    show (tokenMemo cfg).Tracks _ (ite _ _ _) g
    split
    · refine tracks_silent ?_ fun _ => ⟨rfl, rfl⟩
      exact (Prog.issues_perform trivial).bind fun _ => trivial
    · refine Memo.Tracks.bind ((startSession_tracks user req now).weaken fun r g' hstays => ?_)
      cases r with
      | error e => exact hstays
      | ok out =>
        refine tracks_silent ?_ fun _ => hstays
        exact (Prog.issues_perform trivial).bind fun _ => trivial

theorem sessionOf_silent (claims : AccessTokenClaims) (user refreshToken : ObjectId) :
    (sessionOf claims user refreshToken).Issues AuthOp.Silent := by
  rcases hsid : claims.sid with _ | _ | _ <;> rw [sessionOf, hsid]
  · exact Prog.issues_perform trivial
  · trivial
  · trivial

/-- A refresh that returns tokens has exchanged the one it presents. -/
theorem refresh_tracks (token : String) (now : Time) :
    (tokenMemo cfg).Tracks (fun r g => ∀ pair, r = .ok pair → g.exchanged = true ∧ g.presents = some token)
      (refresh cfg token now) ⟨some token, none, none, false⟩ := by
  unfold refresh
  split
  · nofun
  next claims hverify =>
  split
  · nofun
  refine ⟨⟨rfl, token, rfl, rfl, by rw [hverify]; rfl⟩, fun r _ => ?_⟩
  match r with
  | .error e => nofun
  | .ok none => nofun
  | .ok (some row) =>
    show (tokenMemo cfg).Tracks _ (ite _ _ _) ⟨some token, none, some row.user, true⟩
    split
    · nofun
    next huser =>
    refine ⟨trivial, fun r hr => ?_⟩
    match r, hr with
    | .error e, _ => nofun
    | .ok none, _ => nofun
    | .ok (some user), hid =>
      have hcredit : some row.user = some user.id := congrArg some ((not_not.1 huser).trans hid.symm)
      have hrotate : ∀ sessionId, (tokenMemo cfg).Tracks
          (fun r g => ∀ pair, r = .ok pair → g.exchanged = true ∧ g.presents = some token)
          (rotate cfg user sessionId now) ⟨some token, none, some row.user, true⟩ :=
        fun sessionId => (rotate_tracks hcredit).weaken fun r g h _ _ => ⟨h.2, h.1⟩
      show (tokenMemo cfg).Tracks _ (sessionOf claims user.id row.id >>= _) _
      refine Memo.Tracks.bind (tracks_silent (sessionOf_silent claims user.id row.id) fun r => ?_)
      match r with
      | .error e => nofun
      | .ok none => exact hrotate none
      | .ok (some id) =>
        refine ⟨trivial, fun r _ => ?_⟩
        match r with
        | .error e => nofun
        | .ok true => nofun
        | .ok false => exact hrotate (some id)

theorem AuthCall.tracks (cfg : AuthConfig) (call : AuthCall) :
    (tokenMemo cfg).Tracks call.Ends (call.handler cfg) call.blank := by
  cases call with
  | register value tenant req now =>
    exact Memo.Tracks.bind ((register_tracks value tenant req now).weaken fun r _ _ => by cases r <;> trivial)
  | login value tenant req now =>
    refine Memo.Tracks.bind (Memo.Tracks.catching ((login_tracks value tenant req now).weaken fun r _ _ => ?_))
    cases r with
    | error e => cases e <;> trivial
    | ok result => trivial
  | refresh token now =>
    refine Memo.Tracks.bind (Memo.Tracks.catching ((refresh_tracks token now).weaken fun r g h => ?_))
    cases r with
    | error e => trivial
    | ok pair => exact h pair rfl
  | access token userFirst now =>
    exact tracks_silent (auth_silent userFirst token now).map fun r => by cases r <;> trivial
  | logout token userFirst refreshToken now =>
    refine tracks_silent ((auth_silent userFirst token now).bind fun ctx => ?_) fun r => by cases r <;> trivial
    refine Prog.Issues.bind ((logout_silent refreshToken ctx now).catching fun _ => ?_) fun _ => ?_
    · trivial
    · trivial

end Tracks

end Ecommerce
