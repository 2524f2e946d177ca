import Ecommerce.Auth.SignOut
import Mathlib.Logic.Relation

/-!
# Step-up flags

A sign-in that is found risky leaves its flag on the row of its device, and `stepUpAuth` refuses every
token that names the row as long as the flag stays. Rows are shared: a later sign-in of the same user
under the same device label writes the flag anew, whoever makes it. Without such sign-ins by others a
flag stays until its holder signs in again.
-/

namespace Ecommerce

open Effect Effect.Collection

/-! ## Flagged rows -/

/-- The row of the device is the one with the id, and it is flagged. -/
def FlaggedRow (user : ObjectId) (deviceId : String) (id : ObjectId) (db : AuthDb) : Prop :=
  ∃ row, db.sessionFor user deviceId = some row ∧ row.id = id ∧ row.stepUpRequired = true

/-- The call clears the flag of the device's row, or revokes a row. -/
def AuthOp.Clears (user : ObjectId) (deviceId : String) : AuthOp → Prop
  | .sessionTrack draft =>
    draft.user = user ∧ draft.deviceId = deviceId ∧ draft.stepUpRequired = false
  | .sessionRevoke _ _ _ => True
  | _ => False

section FlaggedRow

variable {user : ObjectId} {deviceId : String} {id : ObjectId} {db : AuthDb}

/-- An update that keeps the flag of the row. -/
theorem FlaggedRow.update (h : FlaggedRow user deviceId id db) {i : ObjectId} {f : Patch UserSession}
    (hf : ∀ row, (f.run row).user = row.user ∧ (f.run row).deviceId = row.deviceId)
    (hflag : ∀ row ∈ db.sessions.docs, row.id = i → row.user = user → row.deviceId = deviceId →
      row.stepUpRequired = true → (f.run row).stepUpRequired = true) :
    FlaggedRow user deviceId id { db with sessions := db.sessions.update i f } := by
  obtain ⟨row, hrow, rfl, hrisky⟩ := h
  have hfind := find?_update db.sessions i (f := f)
    (p := fun s => s.user == user && s.deviceId == deviceId) fun s => by simp [hf s]
  refine ⟨if row.id = i then f.run row else row, ?_, ?_, ?_⟩
  · refine hfind.trans ?_
    rw [show db.sessions.docs.find? _ = some row from hrow]
    simp [Keyed.key]
  · split
    · exact f.key_run row
    · rfl
  · split
    · next hi =>
      have hmatch := List.find?_some hrow
      simp only [Bool.and_eq_true, beq_iff_eq] at hmatch
      exact hflag row (List.mem_of_find?_eq_some hrow) hi hmatch.1 hmatch.2 hrisky
    · exact hrisky

/-- The row of a device that is tracked carries the flag of the sign-in. -/
theorem sessionTrack_flags (db : AuthDb) (draft : SessionDraft) (hrisky : draft.stepUpRequired = true) :
    ∃ row t, authMongo.exec (.sessionTrack draft) db = (.ok row, t) ∧
      FlaggedRow draft.user draft.deviceId row.id t := by
  simp only [authMongo, AuthDb.exec]
  cases hfound : db.sessionFor draft.user draft.deviceId with
  | some s =>
    refine ⟨_, _, rfl, draft.reopen.run s, ?_, rfl, hrisky⟩
    refine (find?_update db.sessions s.id fun _ => rfl).trans ?_
    rw [show db.sessions.docs.find? _ = some s from hfound]
    simp [Keyed.key]
  | none =>
    refine ⟨_, _, rfl, draft.session db.sessions.next, ?_, rfl, hrisky⟩
    refine (List.find?_append ..).trans ?_
    rw [show db.sessions.docs.find? _ = none from hfound]
    simp [SessionDraft.session]

/-- Every call but a clean sign-in on the device keeps the flag. -/
theorem FlaggedRow.exec (h : FlaggedRow user deviceId id db) {o : AuthOp}
    (ho : ¬ o.Clears user deviceId) : FlaggedRow user deviceId id (authMongo.exec o db).2 := by
  have hsame := h
  obtain ⟨row, hrow, hid, hrisky⟩ := h
  by_cases hwrites : o.WritesSessions
  · cases o with
    | sessionTrack draft =>
      simp only [authMongo, AuthDb.exec]
      cases hfound : db.sessionFor draft.user draft.deviceId with
      | some s =>
        have hmatch := List.find?_some hfound
        simp only [Bool.and_eq_true, beq_iff_eq] at hmatch
        refine hsame.update (fun _ => ⟨rfl, rfl⟩) fun row' hrow' hi huser hdevice _ => ?_
        -- The row is the one of the draft's device, so the draft is one of the device.
        obtain rfl : row' = s := by
          have hs := get?_eq_some.2 ⟨List.mem_of_find?_eq_some hfound, rfl⟩
          exact Option.some_inj.1 ((get?_eq_some.2 ⟨hrow', hi⟩).symm.trans hs)
        by_contra hclean
        exact ho ⟨hmatch.1.symm.trans huser, hmatch.2.symm.trans hdevice, Bool.eq_false_iff.2 hclean⟩
      | none =>
        refine ⟨row, (List.find?_append ..).trans ?_, hid, hrisky⟩
        rw [show db.sessions.docs.find? _ = some row from hrow]
        rfl
    | sessionLink i refreshToken now =>
      exact hsame.update (fun _ => ⟨rfl, rfl⟩) fun _ _ _ _ _ hflag => hflag
    | sessionRevoke i user now => exact (ho trivial).elim
    | _ => exact hwrites.elim
  · refine ⟨row, ?_, hid, hrisky⟩
    rw [AuthDb.sessionFor, exec_sessions hwrites]
    exact hrow

end FlaggedRow

/-! ## Tokens of a row -/

/-- Whenever the token verifies, it names the session. -/
def AuthConfig.Names (cfg : AuthConfig) (id : ObjectId) (token : String) : Prop :=
  ∀ secret now claims, cfg.jwt.verify token secret now = some claims → claims.sid = some (.session id)

/-- Both tokens of the pair name the session. -/
def AuthConfig.NamesBoth (cfg : AuthConfig) (id : ObjectId) (pair : TokenPair) : Prop :=
  cfg.Names id pair.access_token ∧ cfg.Names id pair.refresh_token

theorem AuthConfig.names_sign (cfg : AuthConfig) (user : User) (id : ObjectId) (typ : TokenType)
    (expiry : Nat) (secret : String) (now : Time) (jwtid : Nat) :
    cfg.Names id (cfg.jwt.sign (tokenPayload user (some id) typ) expiry secret now jwtid) := by
  intro secret' now' claims hverify
  obtain rfl := cfg.jwt.verify_sign _ _ _ _ _ _ _ _ hverify
  rfl

section Tokens

variable {cfg : AuthConfig} {id : ObjectId} {token : String}

theorem createTokenPair_names (user : User) (now : Time) :
    (createTokenPair cfg user (some id) now).Yields (cfg.NamesBoth id) := by
  refine (Prog.yields_true _).bind fun accessId _ => ?_
  refine (Prog.yields_true _).bind fun refreshId _ => ?_
  exact ⟨cfg.names_sign _ _ _ _ _ _ _, cfg.names_sign _ _ _ _ _ _ _⟩

/-- A refreshed pair names the session of the token it was refreshed from. -/
theorem refresh_names (h : cfg.Names id token) (now : Time) :
    (refresh cfg token now).Yields (cfg.NamesBoth id) := by
  unfold refresh
  split
  · trivial
  · next claims hverify =>
    split
    · trivial
    · refine (Prog.yields_true _).bind fun consumed _ => ?_
      cases consumed with
      | none => trivial
      | some refreshToken =>
        dsimp only
        split
        · trivial
        · refine (Prog.yields_true _).bind fun found _ => ?_
          cases found with
          | none => trivial
          | some user =>
            dsimp only
            rw [sessionOf, h _ _ _ hverify]
            refine (Prog.yields_true (authDb (.sessionRevoked id none))).bind fun revoked _ => ?_
            split
            · trivial
            · refine (createTokenPair_names user now).bind fun pair hpair => ?_
              refine (Prog.yields_true _).bind fun saved _ => ?_
              exact (Prog.yields_true _).bind fun _ _ => hpair

/-- The middleware takes the session from the token. -/
theorem auth_names (h : cfg.Names id token) (userFirst : Bool) (now : Time) :
    (auth cfg userFirst token now).Yields fun ctx => ctx.sessionId = some id := by
  unfold auth
  split
  · trivial
  · next claims hverify =>
    split
    · trivial
    · refine (Prog.yields_true _).bind fun out _ => ?_
      obtain _ | ⟨_ | user, revoked⟩ := out
      · trivial
      · trivial
      · dsimp only
        split
        · trivial
        · rw [h _ _ _ hverify]
          exact rfl

/-- The middleware only reads. -/
theorem auth_issues {u : ObjectId} {d : String} (cfg : AuthConfig) (userFirst : Bool) (token : String) (now : Time) :
    (auth cfg userFirst token now).Issues fun o => ¬ AuthOp.Clears u d o := by
  have hrevoked : ∀ claims, (revokedSession claims).Issues fun o => ¬ AuthOp.Clears u d o := by
    intro claims
    rcases hsid : claims.sid with _ | _ | _ <;> rw [revokedSession, hsid]
    · trivial
    · exact Prog.issues_perform not_false
    · trivial
  unfold auth
  split
  · trivial
  split
  · trivial
  refine Prog.Issues.bind (Prog.Issues.attempt ?_) fun out => ?_
  · unfold both
    split
    · exact (Prog.issues_perform not_false).bind fun _ => (hrevoked _).bind fun _ => trivial
    · exact (hrevoked _).bind fun _ => (Prog.issues_perform not_false).bind fun _ => trivial
  · obtain _ | ⟨_ | user, revoked⟩ := out
    · trivial
    · trivial
    · dsimp only
      split <;> trivial

/-- `stepUpAuth` refuses whoever comes with the session of a flagged row. -/
theorem stepUpAuth_refuses {user : ObjectId} {deviceId : String} {db : AuthDb} {ctx : AuthContext}
    (h : FlaggedRow user deviceId id db) (hctx : ctx.sessionId = some id) :
    (stepUpAuth ctx).eval authMongo db =
      (.error (CustomeErrorHandler.forbidden "Step-up authentication required"), db) := by
  obtain ⟨row, hrow, rfl, hrisky⟩ := h
  have hget := get?_eq_some.2 ⟨List.mem_of_find?_eq_some hrow, rfl⟩
  have hreply : (((db.sessions.get? row.id).filter fun s =>
      s.user == ctx.user && s.revokedAt.isNone).map (·.stepUpRequired)).getD true = true := by
    rw [show db.sessions.get? row.id = some row from hget, Option.filter_some]
    split
    · exact hrisky
    · rfl
  rw [stepUpAuth, hctx]
  refine (Prog.eval_perform_bind (S := AuthMongo) rfl).trans ?_
  dsimp only
  rw [if_pos hreply]
  rfl

end Tokens

/-! ## Sign-ins and refreshes -/

/-- How many failed sign-ins from the address count against a sign-in. -/
def recentFailedLogins (db : AuthDb) (ip : String) (now : Time) : Nat :=
  db.signals.countP fun s =>
    s.type == .loginFailed && s.ip == ip && decide (now - 30 * 60 * 1000 ≤ s.createdAt)

/-- The account that a sign-in has the right credentials of. -/
def signsInAs (cfg : AuthConfig) (db : AuthDb) (value : LoginInput) : Option User :=
  (db.users.docs.find? fun u => u.email == value.email && u.isActive && u.deletedAt.isNone).filter
    fun user => cfg.compare value.password user.password

section SignIns

variable {cfg : AuthConfig} {db : AuthDb} {user : User} {req : AuthHttp} {now : Time}

/-- A sign-in tracks the device it comes from, with a flag if there were too many failures. -/
theorem trackSession_eval (cfg : AuthConfig) (db : AuthDb) (user : ObjectId) (req : AuthHttp)
    (now : Time) : ∃ draft : SessionDraft,
      draft.user = user ∧ draft.deviceId = deviceIdFor cfg req ∧
      draft.stepUpRequired = decide (5 ≤ recentFailedLogins db req.ip now) ∧
      (trackSession cfg user req now).eval authMongo db = authMongo.exec (.sessionTrack draft) db := by
  refine ⟨_, rfl, rfl, ?_, rfl⟩
  show decide (70 ≤ if 5 ≤ recentFailedLogins db req.ip now then 80 else 10) = _
  by_cases h : 5 ≤ recentFailedLogins db req.ip now <;> simp [h]

theorem createTokenPair_issues {u : ObjectId} {d : String} (user : User)
    (sessionId : Option ObjectId) (now : Time) :
    (createTokenPair cfg user sessionId now).Issues fun o => ¬ AuthOp.Clears u d o :=
  (Prog.issues_perform not_false).bind fun _ =>
    (Prog.issues_perform not_false).bind fun _ => trivial

/-- What a sign-in does after it has tracked its device. -/
theorem issues_afterTrack {u : ObjectId} {d : String} (cfg : AuthConfig) (user : User)
    (session : UserSession) (now : Time) :
    Prog.Issues (fun o => ¬ AuthOp.Clears u d o) (do
      let tokens ← createTokenPair cfg user (some session.id) now
      let savedRefreshToken ← createRefreshToken cfg tokens.refresh_token user.id now
      authDb (.sessionLink session.id savedRefreshToken.id now)
      return (tokens, session) : AuthM (TokenPair × UserSession)) := by
  refine (createTokenPair_issues user (some session.id) now).bind fun tokens => ?_
  refine (Prog.issues_perform not_false).bind fun saved => ?_
  exact (Prog.issues_perform not_false).bind fun _ => trivial

theorem startSession_keeps {u : ObjectId} {d : String} {id : ObjectId} (h : FlaggedRow u d id db)
    (hrisky : user.id = u → deviceIdFor cfg req = d → 5 ≤ recentFailedLogins db req.ip now) :
    FlaggedRow u d id ((startSession cfg user req now).eval authMongo db).2 := by
  obtain ⟨draft, huser, hdevice, hflag, htrack⟩ := trackSession_eval cfg db user.id req now
  have hkept : FlaggedRow u d id (authMongo.exec (.sessionTrack draft) db).2 := by
    refine h.exec fun ⟨hu, hd, hclean⟩ => ?_
    have := hrisky (huser.symm.trans hu) (hdevice.symm.trans hd)
    simp [hflag, this] at hclean
  rw [startSession, Prog.bind_def, Prog.eval_bind, htrack]
  split
  · next session t heq =>
    rw [heq] at hkept
    exact (issues_afterTrack cfg user session now).eval (fun o ho s hs => hs.exec ho) hkept
  · next e t heq =>
    rw [heq] at hkept
    exact hkept

/-- A risky sign-in leaves a flagged row, which its tokens name. -/
theorem startSession_flags {tokens : TokenPair} {session : UserSession} {t : AuthDb}
    (heval : (startSession cfg user req now).eval authMongo db = (.ok (tokens, session), t))
    (hrisky : session.stepUpRequired = true) :
    FlaggedRow user.id (deviceIdFor cfg req) session.id t ∧ cfg.NamesBoth session.id tokens := by
  obtain ⟨draft, huser, hdevice, -, htrack⟩ := trackSession_eval cfg db user.id req now
  obtain ⟨session', u, htracked, hrest⟩ := Prog.eval_bind_ok.1 heval
  have hsession : session' = session := by
    obtain ⟨tokens', v, -, hrest⟩ := Prog.eval_bind_ok.1 hrest
    obtain ⟨saved, w, -, hrest⟩ := Prog.eval_bind_ok.1 hrest
    obtain ⟨-, x, -, hrest⟩ := Prog.eval_bind_ok.1 hrest
    cases hrest
    rfl
  subst hsession
  rw [htrack] at htracked
  constructor
  · have hdraft : draft.stepUpRequired = true := by
      rw [← hrisky]
      simp only [authMongo, AuthDb.exec] at htracked
      split at htracked <;> cases htracked <;> rfl
    obtain ⟨row, u', hexec, hflagged⟩ := sessionTrack_flags db draft hdraft
    obtain ⟨hrow, rfl⟩ := Prod.mk.inj (hexec.symm.trans htracked)
    obtain rfl := Except.ok.inj hrow
    rw [huser, hdevice] at hflagged
    have := (issues_afterTrack cfg user row now).eval (fun o ho s hs => hs.exec ho) hflagged
    rwa [hrest] at this
  · refine Prog.Yields.eval (ψ := fun out => cfg.NamesBoth session'.id out.1) ?_ hrest
    refine (createTokenPair_names user now).bind fun pair hpair => ?_
    refine (Prog.yields_true _).bind fun saved _ => ?_
    exact (Prog.yields_true _).bind fun _ _ => hpair

end SignIns

section Logins

variable {cfg : AuthConfig} {db t : AuthDb} {value : LoginInput} {tenant : String} {req : AuthHttp}
variable {now : Time}

/-- A sign-in with wrong credentials is only written down as a failure. -/
theorem login_wrong (h : signsInAs cfg db value = none) :
    ∃ signal, (login cfg value tenant req now).eval authMongo db =
      (.error CustomeErrorHandler.wrongCredentials, { db with signals := db.signals ++ [signal] }) := by
  unfold signsInAs at h
  cases hfound : db.users.docs.find? fun u => u.email == value.email && u.isActive && u.deletedAt.isNone with
  | none =>
    have hreply : authMongo.exec (.userFindByEmail value.email) db = (.ok none, db) :=
      Prod.ext (congrArg Except.ok hfound) rfl
    exact ⟨_, (Prog.eval_perform_bind (S := AuthMongo) hreply).trans rfl⟩
  | some user =>
    rw [hfound, Option.filter_some] at h
    have hwrong : ¬ cfg.compare value.password user.password := by
      intro hright
      rw [if_pos hright] at h
      cases h
    have hreply : authMongo.exec (.userFindByEmail value.email) db = (.ok (some user), db) :=
      Prod.ext (congrArg Except.ok hfound) rfl
    refine ⟨⟨.loginFailed, .medium, some user.id, tenant, req.ip, now⟩,
      (Prog.eval_perform_bind (S := AuthMongo) hreply).trans ?_⟩
    dsimp only
    rw [if_pos hwrong]
    rfl

/-- What a sign-in with right credentials does. -/
theorem login_right {user : User} (h : signsInAs cfg db value = some user) :
    (login cfg value tenant req now).eval authMongo db =
      (startSession cfg user req now >>= fun out => do
        authDb (.signalCreate ⟨.loginSucceeded, if out.2.stepUpRequired then .medium else .info,
          some user.id, tenant, req.ip, now⟩)
        return (⟨out.1, out.2.stepUpRequired⟩ : LoginResult)).eval authMongo db := by
  unfold signsInAs at h
  obtain ⟨hfound, hright⟩ := Option.filter_eq_some_iff.1 h
  have hreply : authMongo.exec (.userFindByEmail value.email) db = (.ok (some user), db) :=
    Prod.ext (congrArg Except.ok hfound) rfl
  refine (Prog.eval_perform_bind (S := AuthMongo) hreply).trans ?_
  dsimp only
  rw [if_neg (not_not.2 hright)]

/-- A sign-in keeps the flag of a device, unless it is a clean one of the same user on the device. -/
theorem login_keeps {u : ObjectId} {d : String} {id : ObjectId} (h : FlaggedRow u d id db)
    (hrisky : ∀ user, signsInAs cfg db value = some user → user.id = u → deviceIdFor cfg req = d →
      5 ≤ recentFailedLogins db req.ip now) :
    FlaggedRow u d id ((login cfg value tenant req now).eval authMongo db).2 := by
  cases hsigns : signsInAs cfg db value with
  | none =>
    obtain ⟨signal, heval⟩ := @login_wrong cfg db value tenant req now hsigns
    rw [heval]
    exact h
  | some user =>
    have hkept : FlaggedRow u d id ((startSession cfg user req now).eval authMongo db).2 :=
      startSession_keeps h (hrisky user hsigns)
    rw [login_right hsigns, Prog.bind_def, Prog.eval_bind]
    split
    · next out t heq =>
      rw [heq] at hkept
      exact hkept
    · next e t heq =>
      rw [heq] at hkept
      exact hkept

/-- A sign-in that says it is risky leaves a flagged row, which its tokens name. -/
theorem login_flags {user : User} {result : LoginResult} (hsigns : signsInAs cfg db value = some user)
    (heval : (login cfg value tenant req now).eval authMongo db = (.ok result, t))
    (hrisky : result.step_up_required = true) :
    ∃ id, FlaggedRow user.id (deviceIdFor cfg req) id t ∧ cfg.NamesBoth id result.tokens := by
  rw [login_right hsigns] at heval
  obtain ⟨⟨tokens, session⟩, v, hstart, hrest⟩ := Prog.eval_bind_ok.1 heval
  obtain ⟨hresult, rfl⟩ := Prod.mk.inj hrest
  obtain rfl := Except.ok.inj hresult
  obtain ⟨hrow, hnames⟩ := startSession_flags hstart hrisky
  exact ⟨session.id, hrow, hnames⟩

theorem rotate_issues {u : ObjectId} {d : String} (user : User) (sessionId : Option ObjectId)
    (now : Time) : (rotate cfg user sessionId now).Issues fun o => ¬ AuthOp.Clears u d o := by
  refine (createTokenPair_issues user sessionId now).bind fun tokens => ?_
  refine (Prog.issues_perform not_false).bind fun saved => ?_
  refine Prog.Issues.bind ?_ fun _ => trivial
  cases sessionId with
  | none => trivial
  | some id => exact Prog.issues_perform not_false

/-- A refresh leaves every flag as it is. -/
theorem refresh_keeps {u : ObjectId} {d : String} {id : ObjectId} (h : FlaggedRow u d id db)
    (token : String) : FlaggedRow u d id ((refresh cfg token now).eval authMongo db).2 := by
  refine Prog.Issues.eval (φ := fun o => ¬ AuthOp.Clears u d o) ?_ (fun o ho s hs => hs.exec ho) h
  unfold refresh
  split
  · trivial
  split
  · trivial
  refine (Prog.issues_perform not_false).bind fun consumed => ?_
  cases consumed with
  | none => trivial
  | some refreshToken =>
    dsimp only
    split
    · trivial
    refine (Prog.issues_perform not_false).bind fun found => ?_
    cases found with
    | none => trivial
    | some user =>
      refine Prog.Issues.bind ?_ fun sessionId => ?_
      · unfold sessionOf
        split
        · trivial
        · trivial
        · exact Prog.issues_perform not_false
      cases sessionId with
      | none => exact rotate_issues user none now
      | some id =>
        refine (Prog.issues_perform not_false).bind fun revoked => ?_
        split
        · trivial
        · exact rotate_issues user (some id) now

end Logins

/-! ## Clients -/

/-- Someone who signs in and refreshes, and keeps the tokens that it is sent. -/
abbrev Client := Nat

inductive ClientRequest where
  | signIn (client : Client) (value : LoginInput) (tenant : String) (req : AuthHttp) (now : Time)
  | refresh (client : Client) (token : String) (now : Time)

/-- Tokens of a sign-in of the user on the device that was found risky, or refreshed from such, and
the client that holds them. -/
structure RiskyTokens where
  holder : Client
  user : ObjectId
  deviceId : String
  pair : TokenPair

/-- The database, and the risky tokens whose holders have not signed in again. -/
structure Clients where
  db : AuthDb
  risky : List RiskyTokens

/-- The state after a request. A sign-in with right credentials ends what its client held. -/
def Clients.step (cfg : AuthConfig) (s : Clients) : ClientRequest → Clients
  | .signIn client value tenant req now =>
    let answer := (login cfg value tenant req now).eval authMongo s.db
    { db := answer.2
      risky := match signsInAs cfg s.db value with
        | none => s.risky
        | some user =>
          (match answer.1 with
            | .ok result =>
              if result.step_up_required then [⟨client, user.id, deviceIdFor cfg req, result.tokens⟩]
              else []
            | .error _ => []) ++ s.risky.filter (·.holder != client) }
  | .refresh client token now =>
    let answer := (refresh cfg token now).eval authMongo s.db
    { db := answer.2
      risky := (match answer.1 with
        | .ok pair => (s.risky.filter (·.pair.refresh_token == token)).map fun tokens =>
            { tokens with holder := client, pair := pair }
        | .error _ => []) ++ s.risky }

/-- Someone else signs in as the holder's user, under the label of the holder's device and with few
recent failures. -/
def ClearedByOther (cfg : AuthConfig) (s : Clients) : ClientRequest → Prop
  | .signIn client value _ req now =>
    ∃ user ∈ signsInAs cfg s.db value, recentFailedLogins s.db req.ip now < 5 ∧
      ∃ tokens ∈ s.risky, tokens.holder ≠ client ∧ tokens.user = user.id ∧
        tokens.deviceId = deviceIdFor cfg req
  | .refresh _ _ _ => False

instance (cfg : AuthConfig) (s : Clients) (request : ClientRequest) :
    Decidable (ClearedByOther cfg s request) :=
  match request with
  | .signIn client value _ req now =>
    inferInstanceAs (Decidable (∃ user ∈ signsInAs cfg s.db value,
      recentFailedLogins s.db req.ip now < 5 ∧ ∃ tokens ∈ s.risky, tokens.holder ≠ client ∧
        tokens.user = user.id ∧ tokens.deviceId = deviceIdFor cfg req))
  | .refresh _ _ _ => isFalse fun h => h

/-- No risky tokens get past `stepUpAuth`. -/
def StepUpHolds (cfg : AuthConfig) (s : Clients) : Prop :=
  ∀ tokens ∈ s.risky, ∀ userFirst now ctx t,
    (auth cfg userFirst tokens.pair.access_token now).eval authMongo s.db = (.ok ctx, t) →
    ((stepUpAuth ctx).eval authMongo t).1 =
      .error (CustomeErrorHandler.forbidden "Step-up authentication required")

/-- All risky tokens name a row that is flagged. -/
def Clients.Flagged (cfg : AuthConfig) (s : Clients) : Prop :=
  ∀ tokens ∈ s.risky, ∃ id, FlaggedRow tokens.user tokens.deviceId id s.db ∧
    cfg.NamesBoth id tokens.pair

theorem Clients.Flagged.step {cfg : AuthConfig} {s : Clients} (h : s.Flagged cfg)
    {request : ClientRequest} (hother : ¬ ClearedByOther cfg s request) :
    (s.step cfg request).Flagged cfg := by
  intro tokens hmem
  cases request with
  | signIn client value tenant req now =>
    -- Whoever else holds tokens keeps them flagged.
    have hkept : ∀ held ∈ s.risky,
        (∀ user, signsInAs cfg s.db value = some user → held.holder ≠ client) → ∃ id,
        FlaggedRow held.user held.deviceId id ((login cfg value tenant req now).eval authMongo s.db).2 ∧
        cfg.NamesBoth id held.pair := by
      intro held hheld hholder
      obtain ⟨id, hrow, hnames⟩ := h held hheld
      refine ⟨id, login_keeps hrow fun user hsigns hu hd => ?_, hnames⟩
      by_contra hfew
      exact hother ⟨user, hsigns, Nat.not_le.1 hfew, held, hheld, hholder user hsigns, hu.symm, hd.symm⟩
    simp only [Clients.step] at hmem ⊢
    cases hsigns : signsInAs cfg s.db value with
    | none =>
      rw [hsigns] at hmem
      exact hkept tokens hmem fun user h => by simp [hsigns] at h
    | some user =>
      rw [hsigns] at hmem
      obtain hnew | hold := List.mem_append.1 hmem
      · split at hnew
        · next result hresult =>
          split at hnew
          · next hrisky =>
            obtain rfl := List.mem_singleton.1 hnew
            exact login_flags hsigns (Prod.ext hresult rfl) hrisky
          · cases hnew
        · cases hnew
      · obtain ⟨hold, hholder⟩ := List.mem_filter.1 hold
        exact hkept tokens hold fun _ _ => by simpa using hholder
  | refresh client token now =>
    have hkept : ∀ held ∈ s.risky, ∃ id,
        FlaggedRow held.user held.deviceId id ((refresh cfg token now).eval authMongo s.db).2 ∧
        cfg.NamesBoth id held.pair := by
      intro held hheld
      obtain ⟨id, hrow, hnames⟩ := h held hheld
      exact ⟨id, refresh_keeps hrow token, hnames⟩
    simp only [Clients.step] at hmem ⊢
    obtain hnew | hold := List.mem_append.1 hmem
    · split at hnew
      · next pair hpair =>
        obtain ⟨held, hheld, rfl⟩ := List.mem_map.1 hnew
        obtain ⟨hheld, htoken⟩ := List.mem_filter.1 hheld
        obtain ⟨id, hrow, hnames⟩ := hkept held hheld
        have hpresented : cfg.Names id token := beq_iff_eq.1 htoken ▸ hnames.2
        exact ⟨id, hrow, (refresh_names hpresented now).eval (Prod.ext hpair rfl)⟩
      · cases hnew
    · exact hkept tokens hold

/-- Along every run of sign-ins and refreshes in which no one else clears the flags of risky tokens,
`stepUpAuth` refuses them until their holder has signed in again. -/
theorem stepUp_kept (cfg : AuthConfig) (db : AuthDb) {s : Clients}
    (hrun : Relation.ReflTransGen
      (fun s t => ∃ request, ¬ ClearedByOther cfg s request ∧ t = s.step cfg request) ⟨db, []⟩ s) :
    StepUpHolds cfg s := by
  have hflagged : s.Flagged cfg := by
    induction hrun with
    | refl => exact fun _ hmem => by cases hmem
    | tail _ hstep ih =>
      obtain ⟨request, hother, rfl⟩ := hstep
      exact ih.step hother
  intro tokens hmem userFirst now ctx t hauth
  obtain ⟨id, hrow, haccess, -⟩ := hflagged tokens hmem
  have hctx : ctx.sessionId = some id := (auth_names haccess userFirst now).eval hauth
  have hstill : FlaggedRow tokens.user tokens.deviceId id t := by
    have hreads := auth_issues (u := tokens.user) (d := tokens.deviceId) cfg userFirst
      tokens.pair.access_token now
    have hread := hreads.eval (I := FlaggedRow tokens.user tokens.deviceId id)
      (fun o ho s hs => hs.exec ho) hrow
    rwa [hauth] at hread
  rw [stepUpAuth_refuses hstill hctx]

/-! ## A risky sign-in to try -/

/-- Five failed sign-ins from an address, one from there that succeeds, and one from home under the
label of some device. -/
def riskyThenHome (deviceId : String) : List ClientRequest :=
  List.replicate 5 (.signIn 1 ⟨"a@x", "no"⟩ "t" ⟨some "laptop-1", none, "cafe"⟩ 0) ++
    [.signIn 1 ⟨"a@x", "pw"⟩ "t" ⟨some "laptop-1", none, "cafe"⟩ 0,
      .signIn 0 ⟨"a@x", "pw"⟩ "t" ⟨some deviceId, none, "home"⟩ 0]

def beforeSignIns : Clients := ⟨sampleAuthPool.state, []⟩

/-- The requests one after the other, none of which clears what someone else holds. -/
def Clients.play (cfg : AuthConfig) : Clients → List ClientRequest → Option Clients
  | s, [] => some s
  | s, request :: requests =>
    if ClearedByOther cfg s request then none else (s.step cfg request).play cfg requests

theorem Clients.play_runs {cfg : AuthConfig} {s t : Clients} {requests : List ClientRequest}
    (h : s.play cfg requests = some t) : Relation.ReflTransGen
      (fun s t => ∃ request, ¬ ClearedByOther cfg s request ∧ t = s.step cfg request) s t := by
  induction requests generalizing s with
  | nil =>
    obtain rfl := Option.some_inj.1 h
    exact .refl
  | cons request requests ih =>
    rw [Clients.play] at h
    split at h
    · cases h
    · next hother => exact .head ⟨request, hother, rfl⟩ (ih h)

/-- Someone else signs in on another device, and the risky token stays refused. -/
theorem stepUp_kept_otherDevice :
    ∃ (s : Clients) (tokens : RiskyTokens) (ctx : AuthContext) (t : AuthDb), tokens ∈ s.risky ∧
      (auth sampleAuthConfig true tokens.pair.access_token 1).eval authMongo s.db = (.ok ctx, t) ∧
      ((stepUpAuth ctx).eval authMongo t).1 =
        .error (CustomeErrorHandler.forbidden "Step-up authentication required") := by
  obtain ⟨s, hplay, h⟩ := (Option.any_eq_true _ _).1 (by decide +kernel :
    (beforeSignIns.play sampleAuthConfig (riskyThenHome "laptop-2")).any fun s =>
        s.risky.any fun tokens =>
          ((auth sampleAuthConfig true tokens.pair.access_token 1).eval authMongo s.db).1.isOk)
  obtain ⟨tokens, hmem, hok⟩ := List.any_eq_true.1 h
  rcases heval : (auth sampleAuthConfig true tokens.pair.access_token 1).eval authMongo s.db with ⟨r, t⟩
  cases r with
  | error e => simp [heval, Except.isOk, Except.toBool] at hok
  | ok ctx =>
    exact ⟨s, tokens, ctx, t, hmem, heval,
      stepUp_kept sampleAuthConfig sampleAuthPool.state (Clients.play_runs hplay) tokens hmem true 1
        ctx t heval⟩

/-- The user signs in at home under the label that the risky sign-in had chosen, and the risky token
gets past `stepUpAuth`. -/
theorem stepUp_kept_counterexample :
    ∃ (s : Clients) (tokens : RiskyTokens) (ctx : AuthContext) (t : AuthDb),
      s = (riskyThenHome "laptop-1").foldl (Clients.step sampleAuthConfig) beforeSignIns ∧
      tokens ∈ s.risky ∧
      (auth sampleAuthConfig true tokens.pair.access_token 1).eval authMongo s.db = (.ok ctx, t) ∧
      ((stepUpAuth ctx).eval authMongo t).1 = .ok () := by
  obtain ⟨s, hs, h⟩ := (Option.any_eq_true _ _).1 (by decide +kernel :
    (some ((riskyThenHome "laptop-1").foldl (Clients.step sampleAuthConfig) beforeSignIns)).any fun s =>
      s.risky.any fun tokens =>
        let checked := (auth sampleAuthConfig true tokens.pair.access_token 1).eval authMongo s.db
        checked.1.toOption.any fun ctx => ((stepUpAuth ctx).eval authMongo checked.2).1.isOk)
  obtain ⟨tokens, hmem, hok⟩ := List.any_eq_true.1 h
  rcases heval : (auth sampleAuthConfig true tokens.pair.access_token 1).eval authMongo s.db with ⟨r, t⟩
  rw [heval] at hok
  cases r with
  | error e => cases hok
  | ok ctx =>
    refine ⟨s, tokens, ctx, t, (Option.some_inj.1 hs).symm, hmem, heval, ?_⟩
    cases hstep : ((stepUpAuth ctx).eval authMongo t).1 with
    | error e => simp [hstep, Except.isOk, Except.toBool, Except.toOption] at hok
    | ok _ => rfl

end Ecommerce
