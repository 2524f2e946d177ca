import Ecommerce.Effect.Calls
import Ecommerce.Model.Auth

/-!
# Signing out

A logout revokes the row of its session, and every token of the session is refused while the row
stays revoked. Only a later sign-in of the same user on the same device reopens the row, and with it
the tokens that were issued before the logout.
-/

namespace Ecommerce

open Effect Effect.Collection

/-! ## A revoked session -/

/-- The row of the session is there, and it is revoked. -/
def Revoked (session : UserSession) (s : AuthDb) : Prop :=
  ∃ row, s.sessions.get? session.id = some row ∧ row.user = session.user ∧
    row.deviceId = session.deviceId ∧ row.revokedAt.isSome

/-- The call of a sign-in of the session's user on its device. -/
def AuthOp.SignsIn (session : UserSession) : AuthOp → Prop
  | .sessionTrack draft => draft.user = session.user ∧ draft.deviceId = session.deviceId
  | _ => False

/-- The calls that a revoked session's state allows a reply to: it is said to be revoked. -/
def Refusing (session : UserSession) :
    (o : AuthOp) → Except ApiError o.Reply → Prop
  | .sessionRevoked id user, r =>
    id = session.id → user.all (· = session.user) → r ≠ .ok false
  | _, _ => True

section Revoked

variable {session : UserSession} {s : AuthDb}

theorem Revoked.update (h : Revoked session s) {id : ObjectId} {f : Patch UserSession}
    (hf : id = session.id → ∀ row, (f.run row).user = row.user ∧
      (f.run row).deviceId = row.deviceId ∧ (row.revokedAt.isSome → (f.run row).revokedAt.isSome)) :
    Revoked session { s with sessions := s.sessions.update id f } := by
  obtain ⟨row, hrow, huser, hdevice, hrevoked⟩ := h
  by_cases hid : session.id = id
  · obtain ⟨huser', hdevice', hrevoked'⟩ := hf hid.symm row
    refine ⟨f.run row, ?_, huser'.trans huser, hdevice'.trans hdevice, hrevoked' hrevoked⟩
    rw [get?_update, if_pos hid, hrow]
    rfl
  · refine ⟨row, ?_, huser, hdevice, hrevoked⟩
    rw [get?_update, if_neg hid, hrow]

/-- The calls that write rows of sessions. -/
def AuthOp.WritesSessions : AuthOp → Prop
  | .sessionTrack _ | .sessionLink .. | .sessionRevoke .. => True
  | _ => False

theorem exec_sessions {o : AuthOp} (h : ¬ o.WritesSessions) (s : AuthDb) :
    (authMongo.exec o s).2.sessions = s.sessions := by
  cases o <;> first
    | exact absurd trivial h
    | rfl
    | (simp only [authMongo, AuthDb.exec]; split <;> rfl)

/-- Only a sign-in on the device reopens the row. -/
theorem Revoked.exec (h : Revoked session s) {o : AuthOp} (ho : ¬ o.SignsIn session) :
    Revoked session (authMongo.exec o s).2 := by
  have hsame := h
  obtain ⟨row, hrow, huser, hdevice, hrevoked⟩ := h
  by_cases hwrites : o.WritesSessions
  · cases o with
    | sessionTrack draft =>
      simp only [authMongo, AuthDb.exec]
      split
      · next found hfound =>
        refine hsame.update fun hid => (ho ?_).elim
        have hmatch := List.find?_some hfound
        have hmem := List.mem_of_find?_eq_some hfound
        obtain rfl : found = row := Option.some_inj.1 ((get?_eq_some.2 ⟨hmem, hid⟩).symm.trans hrow)
        simp only [Bool.and_eq_true, beq_iff_eq] at hmatch
        exact ⟨hmatch.1.symm.trans huser, hmatch.2.symm.trans hdevice⟩
      · refine ⟨row, ?_, huser, hdevice, hrevoked⟩
        exact (get?_insert _ _ rfl _).trans ((if_neg (get?_lt hrow).ne).trans hrow)
    | sessionLink id refreshToken now => exact hsame.update fun _ row => ⟨rfl, rfl, fun h => h⟩
    | sessionRevoke id user now =>
      refine ⟨if row.id == id && row.user == user then (UserSession.revoke now).run row else row,
        ?_, ?_, ?_, ?_⟩
      · exact (get?_modify _ _ _ _).trans (by rw [hrow]; rfl)
      all_goals split
      all_goals first | exact huser | exact hdevice | exact hrevoked | rfl
    | _ => exact hwrites.elim
  · exact ⟨row, by rw [exec_sessions hwrites, hrow], huser, hdevice, hrevoked⟩

/-- A revoked session is said to be revoked. -/
theorem Revoked.refusing (h : Revoked session s) (o : AuthOp) :
    Refusing session o (authMongo.exec o s).1 := by
  obtain ⟨row, hrow, huser, -, hrevoked⟩ := h
  cases o with
  | sessionRevoked id user =>
    rintro rfl hall hfalse
    have hany := Except.ok.inj hfalse
    rw [hrow, Option.any_some, huser] at hany
    simp only [hrevoked, Bool.and_true] at hany
    cases user with
    | none => cases hany
    | some user => simp_all
  | _ => trivial

end Revoked

/-! ## Requests that present a token of the session -/

/-- A token of the session, as `createTokenPair` signs it for the session's user. -/
def AuthConfig.IssuedFor (cfg : AuthConfig) (session : UserSession) (token : String) : Prop :=
  ∃ (user : User) (typ : TokenType) (expiry : Nat) (secret : String) (issuedAt : Time) (jwtid : Nat),
    user.id = session.user ∧
      token = cfg.jwt.sign (tokenPayload user (some session.id) typ) expiry secret issuedAt jwtid

/-- A verified token of the session names the session and its user. -/
theorem AuthConfig.IssuedFor.claims {cfg : AuthConfig} {session : UserSession} {token secret : String}
    {now : Time} {claims : AccessTokenClaims} (h : cfg.IssuedFor session token)
    (hverify : cfg.jwt.verify token secret now = some claims) :
    claims.sid = some (.session session.id) ∧ claims._id = session.user := by
  obtain ⟨user, typ, expiry, secret', issuedAt, jwtid, huser, rfl⟩ := h
  obtain rfl := cfg.jwt.verify_sign _ _ _ _ _ _ _ _ hverify
  exact ⟨rfl, huser⟩

section Requests

variable {cfg : AuthConfig} {session : UserSession} {token : String}

/-- Nothing is returned as long as the session is said to be revoked. -/
def RefusedWhile {α : Type} (session : UserSession) (p : AuthM α) : Prop :=
  p.YieldsIf (Refusing session) fun _ => False

theorem yieldsIf_sessionRevoked {user : Option ObjectId} (huser : user.all (· = session.user)) :
    (authDb (.sessionRevoked session.id user)).YieldsIf (Refusing session) fun revoked => revoked = true := by
  refine Prog.yieldsIf_perform (S := AuthMongo) fun revoked h => ?_
  cases revoked with
  | true => rfl
  | false => exact (h rfl huser rfl).elim

theorem both_yieldsIf {α : Type} {A : (o : AuthOp) → Except ApiError o.Reply → Prop}
    (leftFirst : Bool) (p : AuthM α) {q : AuthM Bool} (hq : q.YieldsIf A fun b => b = true) :
    (both leftFirst p q).YieldsIf A fun out => out.2 = true := by
  unfold both
  split
  · exact (Prog.yieldsIf_true p).bind fun a _ => hq.bind fun b hb => hb
  · exact hq.bind fun b hb => (Prog.yieldsIf_true p).bind fun a _ => hb

theorem auth_refused (h : cfg.IssuedFor session token) (userFirst : Bool) (now : Time) :
    RefusedWhile session (auth cfg userFirst token now) := by
  unfold auth RefusedWhile
  split
  · trivial
  · next claims hverify =>
    obtain ⟨hsid, hid⟩ := h.claims hverify
    split
    · trivial
    · have hrevoked : (revokedSession claims).YieldsIf (Refusing session) fun b => b = true := by
        rw [revokedSession, hsid, hid]
        exact yieldsIf_sessionRevoked (by simp)
      refine (both_yieldsIf userFirst _ hrevoked).attempt.bind fun out hout => ?_
      match out with
      | .error _ => trivial
      | .ok (none, _) => trivial
      | .ok (some user, revoked) =>
        obtain rfl : revoked = true := hout _ rfl
        trivial

theorem refresh_refused (h : cfg.IssuedFor session token) (now : Time) :
    RefusedWhile session (refresh cfg token now) := by
  unfold refresh RefusedWhile
  split
  · trivial
  · next claims hverify =>
    obtain ⟨hsid, -⟩ := h.claims hverify
    split
    · trivial
    · refine (Prog.yieldsIf_true _).bind fun consumed _ => ?_
      cases consumed with
      | none => trivial
      | some refreshToken =>
        dsimp only
        split
        · trivial
        · refine (Prog.yieldsIf_true _).bind fun found _ => ?_
          cases found with
          | none => trivial
          | some user =>
            dsimp only
            rw [sessionOf, hsid]
            refine (yieldsIf_sessionRevoked (by simp)).bind fun revoked hrevoked => ?_
            obtain rfl : revoked = true := hrevoked
            trivial

/-- The token that a request has to be accepted with. -/
def AuthCall.presents : AuthCall → Option String
  | .refresh token _ => some token
  | .access token _ _ => some token
  | .logout token _ _ _ => some token
  | _ => none

theorem handler_refused {call : AuthCall} (hpresents : call.presents = some token)
    (h : cfg.IssuedFor session token) : RefusedWhile session (call.handler cfg) := by
  cases call with
  | refresh token' now =>
    obtain rfl := Option.some_inj.1 hpresents
    refine Prog.YieldsIf.bind (ψ := fun _ => False) ?_ fun _ h => h.elim
    exact (refresh_refused h now).catching fun _ => trivial
  | access token' userFirst now =>
    obtain rfl := Option.some_inj.1 hpresents
    exact (auth_refused h userFirst now).bind fun _ h => h.elim
  | logout token' userFirst refreshToken now =>
    obtain rfl := Option.some_inj.1 hpresents
    exact (auth_refused h userFirst now).bind fun _ h => h.elim
  | _ => cases hpresents

end Requests

/-! ## Signing out for good -/

/-- The step is a sign-in of the session's user on its device. -/
def SignsInOn (session : UserSession) (c : AuthPool) (a : Action AuthCall) : Prop :=
  ∃ i o, a = .act i ∧ c.head? i = some o ∧ AuthOp.SignsIn session o

/-- The call of a logout revokes the session. -/
theorem revoked_of_logout {session : UserSession} {c d : AuthPool} {i : Nat} {now : Time}
    {sys : System AuthMongo ApiError AuthReply AuthDb AuthCall} (hsys : sys.machine = authMongo)
    (hsession : c.state.sessions.get? session.id = some session)
    (hnext : c.head? i = some (.sessionRevoke session.id session.user now))
    (hlogout : sys.step c (.act i) = some d) : Revoked session d.state := by
  obtain ⟨l, hact, -⟩ | ⟨i', l, o, k, ht, ⟨hact, rfl⟩ | ⟨hact, -⟩ | ⟨hact, -⟩⟩ := sys.step_cases hlogout
  · cases hact
  · obtain rfl := Action.act.inj hact
    have hhead : c.head? i = some o := by simp [Pool.head?, ht, Prog.head?]
    obtain rfl := Option.some_inj.1 (hhead.symm.trans hnext)
    refine ⟨(UserSession.revoke now).run session, ?_, rfl, rfl, rfl⟩
    rw [hsys]
    exact (get?_modify _ _ _ _).trans (by rw [hsession]; simp)
  · cases hact
  · cases hact

/-- Every step but a sign-in on the device keeps the session revoked. -/
theorem Revoked.step {cfg : AuthConfig} {session : UserSession} {c d : AuthPool}
    {a : Action AuthCall} (h : Revoked session c.state) (hother : ¬ SignsInOn session c a)
    (hs : (authServer cfg).step c a = some d) : Revoked session d.state := by
  obtain ⟨l, rfl, rfl⟩ | ⟨i, l, o, k, ht, ⟨rfl, rfl⟩ | ⟨rfl, rfl⟩ | ⟨rfl, rfl⟩⟩ :=
    (authServer cfg).step_cases hs
  · exact h
  · refine h.exec fun hsigns => hother ⟨i, o, rfl, ?_, hsigns⟩
    simp [Pool.head?, ht, Prog.head?]
  · exact h
  · exact h

/-- Once a logout has revoked a session, no request that starts later and presents a token of the
session is accepted, along any run in which its user does not sign in on its device again. -/
theorem signedOut_staysOut (cfg : AuthConfig) {session : UserSession} {c d e : AuthPool}
    {as : List (Action AuthCall)} {i j : Nat} {now : Time} {call : AuthCall} {token : String}
    {p : AuthM AuthReply} (hsession : c.state.sessions.get? session.id = some session)
    (hnext : c.head? i = some (.sessionRevoke session.id session.user now))
    (hlogout : (authServer cfg).step c (.act i) = some d)
    (hrun : (authServer cfg).Run (fun c a => ¬ SignsInOn session c a) d as e)
    (hp : e.threads[j]? = some ⟨call, p⟩) (hlater : d.threads.length ≤ j)
    (hpresents : call.presents = some token) (hissued : cfg.IssuedFor session token)
    (reply : AuthReply) : p.result? ≠ some (.ok reply) := by
  have hrefused : RefusedWhile session p := by
    refine hrun.yieldsIf (C := fun j l => d.threads.length ≤ j ∧ l = call) ?_
      (fun o s hs => hs.refusing o) ?_ (fun c a d ha hs h => h.step ha hs)
      (revoked_of_logout rfl hsession hnext hlogout) ?_ hp ⟨hlater, rfl⟩
    · rintro _ _ ⟨-, rfl⟩
      exact handler_refused hpresents hissued
    · intro o
      cases o <;> first | trivial | exact fun _ _ => nofun
    · rintro j l p hj ⟨hle, -⟩
      have hlt := (List.getElem?_eq_some_iff.1 hj).1
      omega
  intro hreply
  cases p with
  | done r =>
    obtain rfl := Option.some_inj.1 hreply
    exact hrefused
  | call o k => cases hreply

/-! ## A session to try -/

/-- A token that spells its claims out, with the length of its secret and the time it expires at. -/
def spellToken (claims : AccessTokenClaims) (expiry : Nat) (secret : String) (now : Time)
    (jwtid : Nat) : String :=
  String.ofList <|
    List.replicate claims._id 'u' ++
    List.replicate (match claims.role with
      | none => 0
      | some .user => 1
      | some .admin => 2
      | some .seller => 3) 'r' ++
    List.replicate (match claims.typ with
      | none => 0
      | some .access => 1
      | some .refresh => 2) 't' ++
    List.replicate (match claims.sid with
      | none => 0
      | some .other => 1
      | some (.session id) => id + 2) 's' ++
    List.replicate secret.length 'k' ++ List.replicate (now + expiry).toNat 'e' ++
    List.replicate jwtid 'j'

/-- Reads back what a token spells, if its secret fits and it has not expired. -/
def readToken (token secret : String) (now : Time) : Option AccessTokenClaims :=
  if token.toList.count 'k' = secret.length ∧ now < token.toList.count 'e' then
    some {
      _id := token.toList.count 'u'
      role := match token.toList.count 'r' with
        | 0 => none
        | 1 => some .user
        | 2 => some .admin
        | _ => some .seller
      typ := match token.toList.count 't' with
        | 0 => none
        | 1 => some .access
        | _ => some .refresh
      sid := match token.toList.count 's' with
        | 0 => none
        | 1 => some .other
        | id + 2 => some (.session id) }
  else none

theorem readToken_spellToken (claims : AccessTokenClaims) (expiry : Nat) (secret : String)
    (now : Time) (jwtid : Nat) (secret' : String) (now' : Time) (claims' : AccessTokenClaims)
    (h : readToken (spellToken claims expiry secret now jwtid) secret' now' = some claims') :
    claims' = claims := by
  unfold readToken at h
  split at h
  · obtain rfl := Option.some_inj.1 h
    obtain ⟨_id, role, typ, sid⟩ := claims
    simp only [spellToken, String.toList_ofList, List.count_append, List.count_replicate]
    rcases role with _ | _ | _ | _ <;> rcases typ with _ | _ | _ <;>
      rcases sid with _ | _ | _ <;> simp
  · cases h

def sampleAuthConfig : AuthConfig where
  JWT_SECRET := "a"
  REFRESH_SECRET := "rr"
  ACCESS_TOKEN_TTL := 9
  REFRESH_TOKEN_TTL := 20
  DEFAULT_TENANT := "t"
  jwt := ⟨spellToken, readToken, readToken_spellToken⟩
  hash := fun password _ => password
  compare := fun password hashed => password == hashed
  sha256 := fun text => "#" ++ text

/-- A registered user. -/
def sampleAccount : User := ⟨0, "Ann", "a@x", "pw", .user, "t", true, none⟩

/-- The user before signing in. -/
def sampleAuthPool : AuthPool where
  state := ⟨(∅ : Collection User).insert sampleAccount rfl, ∅, ∅, [], [], 0⟩
  threads := []

/-- A sign-in on a laptop. -/
def sampleSignIn (now : Time) : AuthCall :=
  .login ⟨"a@x", "pw"⟩ "t" ⟨some "laptop-1", none, "ip"⟩ now

/-- The row that the sign-in leaves. -/
def sampleSession : UserSession := ⟨0, 0, some 0, "laptop-1", none, "ip", 10, false, 0, none⟩

/-- The access token of the sign-in. -/
def sampleAccessToken : String := spellToken (tokenPayload sampleAccount (some 0) .access) 9 "a" 0 0

theorem sampleAccessToken_issuedFor : sampleAuthConfig.IssuedFor sampleSession sampleAccessToken :=
  ⟨sampleAccount, .access, 9, "a", 0, 0, rfl, rfl⟩

/-- No sign-in on the laptop. -/
def noSignIn (c : AuthPool) (a : Action AuthCall) : Bool :=
  match a with
  | .act i => match c.head? i with
    | some (.sessionTrack draft) => !(draft.user == 0 && draft.deviceId == "laptop-1")
    | _ => true
  | _ => true

theorem noSignIn_sound {c : AuthPool} {a : Action AuthCall} (h : noSignIn c a) :
    ¬ SignsInOn sampleSession c a := by
  rintro ⟨i, o, rfl, hhead, ho⟩
  cases o with
  | sessionTrack draft => simp_all [noSignIn, AuthOp.SignsIn, sampleSession]
  | _ => exact ho

/-- A sign-in, and a logout up to the call that revokes the session. -/
def beforeLogout : Option AuthPool :=
  (authServer sampleAuthConfig).play (fun _ _ => true) sampleAuthPool
    ([.spawn (sampleSignIn 0)] ++ List.replicate 8 (.act 0) ++
      [.spawn (.logout sampleAccessToken true "" 1)] ++ List.replicate 3 (.act 1))

/-- The logout, and the steps after it. -/
def afterLogout (admits : AuthPool → Action AuthCall → Bool) (as : List (Action AuthCall))
    (check : AuthPool → Bool) : Bool :=
  beforeLogout.any fun c =>
    decide (c.state.sessions.get? 0 = some sampleSession) &&
    decide (c.head? 1 = some (.sessionRevoke 0 0 1)) &&
    ((authServer sampleAuthConfig).step c (.act 1)).any fun d =>
      decide (d.threads.length = 2) && ((authServer sampleAuthConfig).play admits d as).any check

theorem afterLogout_runs {admits : AuthPool → Action AuthCall → Bool} {as : List (Action AuthCall)}
    {check : AuthPool → Bool} (h : afterLogout admits as check) :
    ∃ c d e, c.state.sessions.get? 0 = some sampleSession ∧
      c.head? 1 = some (.sessionRevoke 0 0 1) ∧
      (authServer sampleAuthConfig).step c (.act 1) = some d ∧ d.threads.length = 2 ∧
      (authServer sampleAuthConfig).Run (fun c a => admits c a) d as e ∧ check e := by
  obtain ⟨c, -, hc⟩ := (Option.any_eq_true _ _).1 h
  simp only [Bool.and_eq_true, decide_eq_true_eq] at hc
  obtain ⟨⟨hsession, hhead⟩, hstep⟩ := hc
  obtain ⟨d, hd, hplay⟩ := (Option.any_eq_true _ _).1 hstep
  simp only [Bool.and_eq_true, decide_eq_true_eq] at hplay
  obtain ⟨hlength, hplay⟩ := hplay
  obtain ⟨e, he, hcheck⟩ := (Option.any_eq_true _ _).1 hplay
  exact ⟨c, d, e, hsession, hhead, hd, hlength, System.Run.of_play he, hcheck⟩

/-- The requests with the first access token, as it ended. -/
def accessEnded (j : Nat) (ok : Bool) (e : AuthPool) : Bool :=
  e.threads[j]?.any fun t => decide (t.label = .access sampleAccessToken true 3) &&
    t.prog.result?.any fun r => r.isOk == ok

theorem accessEnded_cases {j : Nat} {ok : Bool} {e : AuthPool} (h : accessEnded j ok e) :
    ∃ p r, e.threads[j]? = some ⟨.access sampleAccessToken true 3, p⟩ ∧ p.result? = some r ∧
      r.isOk = ok := by
  obtain ⟨⟨l, p⟩, ht, h⟩ := (Option.any_eq_true _ _).1 h
  simp only [Bool.and_eq_true, decide_eq_true_eq] at h
  obtain ⟨rfl, h⟩ := h
  obtain ⟨r, hr, hok⟩ := (Option.any_eq_true _ _).1 h
  exact ⟨p, r, ht, hr, by simpa using hok⟩

/-- After the logout the first access token is refused. -/
theorem signedOut_staysOut_laptop :
    ∃ (c d e : AuthPool) (p : AuthM AuthReply) (r : Except ApiError AuthReply),
      c.head? 1 = some (.sessionRevoke 0 0 1) ∧
      (authServer sampleAuthConfig).step c (.act 1) = some d ∧
      e.threads[2]? = some ⟨.access sampleAccessToken true 3, p⟩ ∧ p.result? = some r ∧
      ∀ reply, r ≠ .ok reply := by
  obtain ⟨c, d, e, hsession, hhead, hstep, hlength, hrun, hcheck⟩ := afterLogout_runs
    (by decide +kernel : afterLogout noSignIn
      ([.spawn (.access sampleAccessToken true 3)] ++ List.replicate 2 (.act 2)) (accessEnded 2 false))
  obtain ⟨p, r, hp, hr, -⟩ := accessEnded_cases hcheck
  refine ⟨c, d, e, p, r, hhead, hstep, hp, hr, fun reply hreply => ?_⟩
  have hrow : c.state.sessions.get? sampleSession.id = some sampleSession := hsession
  exact signedOut_staysOut sampleAuthConfig hrow hhead hstep
    (hrun.mono fun _ _ => noSignIn_sound) hp hlength.le rfl sampleAccessToken_issuedFor reply
    (hreply ▸ hr)

/-- After the logout and another sign-in on the laptop the first access token is accepted again. -/
theorem signedOut_staysOut_counterexample :
    ∃ (c d e : AuthPool) (as : List (Action AuthCall)) (p : AuthM AuthReply) (reply : AuthReply),
      c.state.sessions.get? 0 = some sampleSession ∧
      c.head? 1 = some (.sessionRevoke 0 0 1) ∧
      (authServer sampleAuthConfig).step c (.act 1) = some d ∧
      (authServer sampleAuthConfig).Run (fun _ _ => True) d as e ∧ d.threads.length ≤ 3 ∧
      e.threads[3]? = some ⟨.access sampleAccessToken true 3, p⟩ ∧
      sampleAuthConfig.IssuedFor sampleSession sampleAccessToken ∧
      p.result? = some (.ok reply) := by
  obtain ⟨c, d, e, hsession, hhead, hstep, hlength, hrun, hcheck⟩ := afterLogout_runs
    (by decide +kernel : afterLogout (fun _ _ => true)
      ([.spawn (sampleSignIn 2)] ++ List.replicate 8 (.act 2) ++
        [.spawn (.access sampleAccessToken true 3)] ++ List.replicate 2 (.act 3)) (accessEnded 3 true))
  obtain ⟨p, r, hp, hr, hok⟩ := accessEnded_cases hcheck
  cases r with
  | error err => cases hok
  | ok reply =>
    exact ⟨c, d, e, _, p, reply, hsession, hhead, hstep, hrun.mono fun _ _ _ => trivial, by omega,
      hp, sampleAccessToken_issuedFor, hr⟩

end Ecommerce
