import Ecommerce.Auth.Notes
import Ecommerce.Auth.Requests
import Ecommerce.Auth.SignOut
import Ecommerce.Effect.Distinct
import Ecommerce.Effect.Noted

/-!
# Accounts

Sign-ups, sign-ins, refreshes and logouts of all clients, interleaved: no two accounts get one e-mail
address, nobody gets a role or a tenant that is not open, and sessions and refresh tokens are of
accounts that exist.
-/

namespace Ecommerce

open Effect Effect.Collection

/-- A tenant that `assertSelfSignupAllowed` lets sign up for. -/
def AuthConfig.opens (cfg : AuthConfig) (key : String) (tenant : Option SignupTenant) : Bool :=
  (tenant.isNone && key == cfg.DEFAULT_TENANT) ||
    tenant.any fun t => t.status == .active && t.allowSelfSignup != some false

namespace AuthDb

/-- The unique indexes hold, and sessions and refresh tokens are of accounts. -/
structure Sound (s : AuthDb) : Prop where
  emails : s.users.DistinctBy User.email
  digests : s.refreshTokens.DistinctBy RefreshTokenRecord.token
  sessions : ∀ x ∈ s.sessions.docs, (s.users.get? x.user).isSome
  refreshTokens : ∀ r ∈ s.refreshTokens.docs, (s.users.get? r.user).isSome

/-- Accounts stay as they are, and new ones are plain users of tenants that are open. -/
structure Grows (cfg : AuthConfig) (s t : AuthDb) : Prop where
  accounts : ∀ id u, s.users.get? id = some u → t.users.get? id = some u
  opened : ∀ u ∈ t.users.docs, u ∈ s.users.docs ∨
    u.role = .user ∧ u.isActive ∧ cfg.opens u.tenant (s.tenants.find? (·.key == u.tenant))
  sessions : ∀ id x, s.sessions.get? id = some x →
    ∃ y, t.sessions.get? id = some y ∧ y.user = x.user ∧ y.deviceId = x.deviceId
  tenants : t.tenants = s.tenants

variable {cfg : AuthConfig} {s t u : AuthDb}

theorem Grows.refl (s : AuthDb) : s.Grows cfg s :=
  ⟨fun _ _ h => h, fun _ h => .inl h, fun _ x h => ⟨x, h, rfl, rfl⟩, rfl⟩

theorem Grows.trans (hst : s.Grows cfg t) (htu : t.Grows cfg u) : s.Grows cfg u where
  accounts id x h := htu.accounts id x (hst.accounts id x h)
  opened x hx := by
    rcases htu.opened x hx with hx | hnew
    · exact hst.opened x hx
    · exact .inr (hst.tenants ▸ hnew)
  sessions id x h := by
    obtain ⟨y, hy, huser, hdevice⟩ := hst.sessions id x h
    obtain ⟨z, hz, huser', hdevice'⟩ := htu.sessions id y hy
    exact ⟨z, hz, huser'.trans huser, hdevice'.trans hdevice⟩
  tenants := htu.tenants.trans hst.tenants

theorem Grows.isSome (h : s.Grows cfg t) {id : ObjectId} (hid : (s.users.get? id).isSome) :
    (t.users.get? id).isSome := by
  obtain ⟨u, hu⟩ := Option.isSome_iff_exists.1 hid
  rw [h.accounts id u hu]
  rfl

end AuthDb

/-! ## What a request has found -/

/-- The tenants that a request has found open, and the accounts it has found. -/
structure AccountNote where
  openTenants : List String
  known : List ObjectId

namespace AccountNote

def note (cfg : AuthConfig) : (o : AuthOp) → Except ApiError o.Reply → AccountNote → AccountNote
  | .tenantFindOne key, .ok tenant, g =>
    if cfg.opens key tenant then { g with openTenants := key :: g.openTenants } else g
  | .userFindByEmail _, .ok (some (user : User)), g => { g with known := user.id :: g.known }
  | .userFindById _, .ok (some (user : User)), g => { g with known := user.id :: g.known }
  | .userCreate _, .ok (user : User), g => { g with known := user.id :: g.known }
  | _, _, g => g

def may : AuthOp → AccountNote → Prop
  | .userCreate draft, g => draft.tenant ∈ g.openTenants
  | .sessionTrack draft, g => draft.user ∈ g.known
  | .refreshCreate draft, g => draft.user ∈ g.known
  | _, _ => True

/-- What the note says of the database. -/
structure Backed (cfg : AuthConfig) (g : AccountNote) (s : AuthDb) : Prop where
  openTenants : ∀ key ∈ g.openTenants, cfg.opens key (s.tenants.find? (·.key == key))
  known : ∀ id ∈ g.known, (s.users.get? id).isSome

variable {cfg : AuthConfig} {g : AccountNote} {s t : AuthDb}

theorem Backed.grow (h : g.Backed cfg s) (hst : s.Grows cfg t) : g.Backed cfg t where
  openTenants key hkey := hst.tenants ▸ h.openTenants key hkey
  known id hid := hst.isSome (h.known id hid)

theorem Backed.know (h : g.Backed cfg s) {user : User} (huser : (s.users.get? user.id).isSome) :
    ({ g with known := user.id :: g.known } : AccountNote).Backed cfg s where
  openTenants := h.openTenants
  known id hid := by
    rcases List.mem_cons.1 hid with rfl | hid
    · exact huser
    · exact h.known id hid

theorem known_subset (o : AuthOp) (r : Except ApiError o.Reply) (g : AccountNote) :
    g.known ⊆ (note cfg o r g).known := by
  unfold note
  split
  · split <;> exact List.Subset.refl _
  · exact List.subset_cons_self _ _
  · exact List.subset_cons_self _ _
  · exact List.subset_cons_self _ _
  · exact List.Subset.refl _

end AccountNote

/-! ## Single calls -/

section Calls

variable {cfg : AuthConfig} {g : AccountNote} {s : AuthDb}

/-- A patch of sessions that leaves the user and the device alone. -/
theorem AuthDb.Sound.patch (h : s.Sound) {p : UserSession → Bool} {f : Patch UserSession}
    (hf : ∀ x, (f.run x).user = x.user ∧ (f.run x).deviceId = x.deviceId) :
    ({ s with sessions := s.sessions.modify p f } : AuthDb).Sound ∧
      s.Grows cfg { s with sessions := s.sessions.modify p f } := by
  refine ⟨⟨h.emails, h.digests, fun x hx => ?_, h.refreshTokens⟩,
    fun _ _ h => h, fun _ h => .inl h, fun id x hx => ?_, rfl⟩
  · obtain ⟨y, hy, rfl⟩ := mem_modify.1 hx
    split
    · exact (hf y).1 ▸ h.sessions y hy
    · exact h.sessions y hy
  · refine ⟨if p x then f.run x else x, by rw [get?_modify, hx]; rfl, ?_⟩
    split
    · exact hf x
    · exact ⟨rfl, rfl⟩

theorem exec_userCreate_grows (draft : UserDraft) (ho : draft.tenant ∈ g.openTenants) (hg : g.Backed cfg s)
    (hs : s.Sound) :
    (authMongo.exec (.userCreate draft) s).2.Sound ∧ s.Grows cfg (authMongo.exec (.userCreate draft) s).2 := by
  simp only [authMongo, AuthDb.exec]
  split
  · exact ⟨hs, .refl s⟩
  · next hfresh =>
    have hkept : ∀ id u, s.users.get? id = some u →
        (s.users.insert (draft.record s.users.next) rfl).get? id = some u := by
      intro id u hu
      exact (get?_insert _ _ _ _).trans ((if_neg (get?_lt hu).ne).trans hu)
    have hsome : ∀ id, (s.users.get? id).isSome →
        ((s.users.insert (draft.record s.users.next) rfl).get? id).isSome := by
      intro id hid
      obtain ⟨u, hu⟩ := Option.isSome_iff_exists.1 hid
      exact (hkept id u hu).symm ▸ rfl
    refine ⟨⟨hs.emails.insert rfl fun b hb heq => hfresh ?_, hs.digests,
      fun x hx => hsome _ (hs.sessions x hx), fun r hr => hsome _ (hs.refreshTokens r hr)⟩,
      hkept, fun u hu => ?_, fun _ x h => ⟨x, h, rfl, rfl⟩, rfl⟩
    · exact List.any_eq_true.2 ⟨b, hb, beq_iff_eq.2 heq⟩
    · rcases (mem_insert (h := rfl)).1 hu with hu | rfl
      · exact .inl hu
      · exact .inr ⟨rfl, rfl, hg.openTenants _ ho⟩

theorem exec_sessionTrack_grows (draft : SessionDraft) (ho : draft.user ∈ g.known) (hg : g.Backed cfg s)
    (hs : s.Sound) :
    (authMongo.exec (.sessionTrack draft) s).2.Sound ∧
      s.Grows cfg (authMongo.exec (.sessionTrack draft) s).2 := by
  simp only [authMongo, AuthDb.exec]
  split
  · exact hs.patch fun _ => ⟨rfl, rfl⟩
  · refine ⟨⟨hs.emails, hs.digests, fun x hx => ?_, hs.refreshTokens⟩,
      fun _ _ h => h, fun _ h => .inl h, fun id x hx => ⟨x, ?_, rfl, rfl⟩, rfl⟩
    · rcases (mem_insert (h := rfl)).1 hx with hx | rfl
      · exact hs.sessions x hx
      · exact hg.known _ ho
    · exact (get?_insert _ _ rfl _).trans ((if_neg (get?_lt hx).ne).trans hx)

theorem exec_refreshCreate_grows (draft : RefreshTokenDraft) (ho : draft.user ∈ g.known)
    (hg : g.Backed cfg s) (hs : s.Sound) :
    (authMongo.exec (.refreshCreate draft) s).2.Sound ∧
      s.Grows cfg (authMongo.exec (.refreshCreate draft) s).2 := by
  simp only [authMongo, AuthDb.exec]
  split
  · exact ⟨hs, .refl s⟩
  · next hfresh =>
    refine ⟨⟨hs.emails, hs.digests.insert rfl fun b hb heq => hfresh ?_, hs.sessions, fun r hr => ?_⟩,
      fun _ _ h => h, fun _ h => .inl h, fun _ x h => ⟨x, h, rfl, rfl⟩, rfl⟩
    · exact List.any_eq_true.2 ⟨b, hb, beq_iff_eq.2 heq⟩
    · rcases (mem_insert (h := rfl)).1 hr with hr | rfl
      · exact hs.refreshTokens r hr
      · exact hg.known _ ho

/-- A call that the note lets a request make. -/
theorem exec_grows (o : AuthOp) (ho : AccountNote.may o g) (hg : g.Backed cfg s) (hs : s.Sound) :
    (authMongo.exec o s).2.Sound ∧ s.Grows cfg (authMongo.exec o s).2 := by
  cases o with
  | userCreate draft => exact exec_userCreate_grows draft ho hg hs
  | sessionTrack draft => exact exec_sessionTrack_grows draft ho hg hs
  | refreshCreate draft => exact exec_refreshCreate_grows draft ho hg hs
  | sessionLink id refreshToken now => exact hs.patch fun _ => ⟨rfl, rfl⟩
  | sessionRevoke id user now => exact hs.patch fun _ => ⟨rfl, rfl⟩
  | refreshConsume lookup now =>
    simp only [authMongo, AuthDb.exec]
    split
    · refine ⟨⟨hs.emails, hs.digests.modify fun _ => rfl, hs.sessions, fun r hr => ?_⟩,
        fun _ _ h => h, fun _ h => .inl h, fun _ x h => ⟨x, h, rfl, rfl⟩, rfl⟩
      obtain ⟨q, hq, rfl⟩ := mem_modify.1 hr
      split <;> exact hs.refreshTokens q hq
    · exact ⟨hs, .refl s⟩
  | refreshDelete lookup user =>
    simp only [authMongo, AuthDb.exec]
    split
    · exact ⟨⟨hs.emails, hs.digests.erase, hs.sessions,
        fun r hr => hs.refreshTokens r (mem_erase.1 hr).1⟩,
        fun _ _ h => h, fun _ h => .inl h, fun _ x h => ⟨x, h, rfl, rfl⟩, rfl⟩
    · exact ⟨hs, .refl s⟩
  | _ =>
    exact ⟨⟨hs.emails, hs.digests, hs.sessions, hs.refreshTokens⟩,
      fun _ _ h => h, fun _ h => .inl h, fun _ x h => ⟨x, h, rfl, rfl⟩, rfl⟩

/-- What is noted is so. -/
theorem exec_noted (o : AuthOp) (hg : g.Backed cfg s) (hgrows : s.Grows cfg (authMongo.exec o s).2) :
    (AccountNote.note cfg o (authMongo.exec o s).1 g).Backed cfg (authMongo.exec o s).2 := by
  have hnext := hg.grow hgrows
  cases o with
  | tenantFindOne key =>
    show AccountNote.Backed cfg (ite _ _ _) s
    split
    · next hopens =>
      refine ⟨fun k hk => ?_, hg.known⟩
      rcases List.mem_cons.1 hk with rfl | hk
      · exact hopens
      · exact hg.openTenants k hk
    · exact hg
  | userFindByEmail email =>
    simp only [authMongo, AuthDb.exec]
    cases hfind : s.users.docs.find? fun u => u.email == email && u.isActive && u.deletedAt.isNone with
    | none => exact hg
    | some user =>
      refine hg.know (Option.isSome_iff_exists.2 ⟨user, get?_eq_some.2 ⟨List.mem_of_find?_eq_some hfind, rfl⟩⟩)
  | userFindById id =>
    simp only [authMongo, AuthDb.exec]
    cases hfind : (s.users.get? id).filter fun u => u.isActive && u.deletedAt.isNone with
    | none => exact hg
    | some user =>
      obtain ⟨huser, -⟩ := Option.filter_eq_some_iff.1 hfind
      exact hg.know (Option.isSome_iff_exists.2 ⟨user, get?_eq_some.2 ⟨(get?_eq_some.1 huser).1, rfl⟩⟩)
  | userCreate draft =>
    simp only [authMongo, AuthDb.exec] at hnext ⊢
    split
    · exact hg
    · next hfresh =>
      rw [if_neg hfresh] at hnext
      exact hnext.know (Option.isSome_iff_exists.2 ⟨_, get?_insert_next _ _ rfl⟩)
  | _ => exact hnext

end Calls

/-! ## Requests -/

def accountMemo (cfg : AuthConfig) : Memo AuthMongo ApiError AccountNote where
  note := AccountNote.note cfg
  may := AccountNote.may
  allows _ _ := True

/-- Calls that create nothing but sessions and refresh tokens of the account. -/
def AuthOp.For (id : ObjectId) : AuthOp → Prop
  | .userCreate _ => False
  | .sessionTrack draft => draft.user = id
  | .refreshCreate draft => draft.user = id
  | _ => True

section Tracks

variable {cfg : AuthConfig} {α : Type} {g : AccountNote} {Q : Except ApiError α → AccountNote → Prop}

/-- A request that acts for an account it has found. -/
theorem tracks_for {p : AuthM α} {id : ObjectId} (h : p.Issues (AuthOp.For id)) (hid : id ∈ g.known)
    (hQ : ∀ r g, Q r g) : (accountMemo cfg).Tracks Q p g := by
  refine Memo.tracks_invariant (P := fun g => id ∈ g.known) h (fun o g ho hg => ?_)
    (fun o r g _ hg => AccountNote.known_subset o r g hg) (fun r g _ => hQ r g) hid
  cases o with
  | userCreate draft => exact ho.elim
  | sessionTrack draft =>
    obtain rfl : draft.user = id := ho
    exact hg
  | refreshCreate draft =>
    obtain rfl : draft.user = id := ho
    exact hg
  | _ => trivial

/-- Calls that create none of the three. -/
def AuthOp.CreatesNothing : AuthOp → Prop
  | .userCreate _ | .sessionTrack _ | .refreshCreate _ => False
  | _ => True

theorem tracks_creatingNothing {p : AuthM α} (h : p.Issues AuthOp.CreatesNothing) (hQ : ∀ r g, Q r g) :
    (accountMemo cfg).Tracks Q p g :=
  Memo.tracks_invariant (P := fun _ => True) h
    (fun o g ho _ => by cases o <;> first | exact ho.elim | trivial) (fun _ _ _ _ _ => trivial)
    (fun r g _ => hQ r g) trivial

theorem issue_for (user : User) (sessionId : Option ObjectId) (now : Time)
    {f : TokenPair → RefreshTokenRecord → AuthM α} (hf : ∀ pair saved, (f pair saved).Issues (AuthOp.For user.id)) :
    (do
      let tokens ← createTokenPair cfg user sessionId now
      let savedRefreshToken ← createRefreshToken cfg tokens.refresh_token user.id now
      f tokens savedRefreshToken).Issues (AuthOp.For user.id) := by
  refine Prog.Issues.bind ?_ fun tokens => Prog.Issues.bind ?_ fun saved => hf tokens saved
  · exact (Prog.issues_perform trivial).bind fun _ => (Prog.issues_perform trivial).bind fun _ => trivial
  · exact Prog.issues_perform rfl

theorem startSession_for (user : User) (req : AuthHttp) (now : Time) :
    (startSession cfg user req now).Issues (AuthOp.For user.id) := by
  refine Prog.Issues.bind ?_ fun session => issue_for user _ now fun pair saved => ?_
  · exact (Prog.issues_perform trivial).bind fun _ => Prog.issues_perform rfl
  · exact (Prog.issues_perform trivial).bind fun _ => trivial

theorem rotate_for (user : User) (sessionId : Option ObjectId) (now : Time) :
    (rotate cfg user sessionId now).Issues (AuthOp.For user.id) := by
  refine issue_for user sessionId now fun pair saved => Prog.Issues.bind ?_ fun _ => trivial
  cases sessionId with
  | none => trivial
  | some id => exact Prog.issues_perform trivial

/-- Past the check, the note has the tenant as an open one. -/
theorem assertSelfSignupAllowed_opens {Q : Except ApiError Unit → AccountNote → Prop} {tenant : String}
    (hok : ∀ g', tenant ∈ g'.openTenants → Q (.ok ()) g') (herror : ∀ e g', Q (.error e) g') :
    (accountMemo cfg).Tracks Q (assertSelfSignupAllowed cfg tenant) g := by
  refine ⟨trivial, fun r _ => ?_⟩
  cases r with
  | error e => exact herror _ _
  | ok found =>
    revert found
    intro (found : Option SignupTenant) _
    refine Memo.Tracks.done_bind ?_
    dsimp only
    split
    · exact herror _ _
    · next hnot =>
      have hopens : cfg.opens tenant found := by
        by_contra h
        simp only [AuthConfig.opens, Bool.or_eq_true, not_or, Bool.not_eq_true] at h
        exact hnot (by simp [h.1, h.2])
      refine hok _ ?_
      show tenant ∈ AccountNote.openTenants (ite _ _ _)
      rw [if_pos hopens]
      exact List.mem_cons_self

theorem accountMemo_aside (o : AuthOp) (ho : o.Aside) : (accountMemo cfg).Unnoted o := by
  intro g
  cases o <;> first | exact ho.elim | exact ⟨trivial, fun _ => rfl⟩

theorem register_accounts (value : RegisterInput) (tenant : String) (req : AuthHttp) (now : Time) :
    (accountMemo cfg).Tracks (fun _ _ => True) (register cfg value tenant req now) g := by
  refine (register_rule (P := fun _ _ => True) (C := fun g => tenant ∈ g.openTenants) accountMemo_aside
    (assertSelfSignupAllowed_opens (fun g' hopen _ _ => hopen) fun e g' => ?_)
    fun g salt hopen => ⟨hopen, fun user => ?_⟩).weaken fun _ _ _ => trivial
  · rintro u ⟨⟩
  · exact tracks_for (startSession_for user req now) List.mem_cons_self fun _ _ _ _ => trivial

theorem login_accounts (value : LoginInput) (tenant : String) (req : AuthHttp) (now : Time) :
    (accountMemo cfg).Tracks (fun _ _ => True) (login cfg value tenant req now) g :=
  (login_rule (P := fun _ _ => True) accountMemo_aside trivial fun user =>
    tracks_for (startSession_for user req now) List.mem_cons_self fun _ _ _ _ => trivial).weaken fun _ _ _ => trivial

theorem refresh_accounts (token : String) (now : Time) :
    (accountMemo cfg).Tracks (fun _ _ => True) (refresh cfg token now) g :=
  (refresh_rule (P := fun _ _ => True) accountMemo_aside (fun _ => trivial) fun _ user sessionId =>
    tracks_for (rotate_for user sessionId now) List.mem_cons_self fun _ _ _ _ => trivial).weaken fun _ _ _ => trivial

theorem auth_createsNothing (userFirst : Bool) (token : String) (now : Time) :
    (auth cfg userFirst token now).Issues AuthOp.CreatesNothing := by
  have hrevoked : ∀ claims, (revokedSession claims).Issues AuthOp.CreatesNothing :=
    fun claims => revokedSession_issues claims fun _ _ => trivial
  unfold auth
  split
  · trivial
  split
  · trivial
  refine Prog.Issues.bind (Prog.Issues.attempt ?_) fun out => ?_
  · unfold both
    split
    · exact (Prog.issues_perform trivial).bind fun _ => (hrevoked _).bind fun _ => trivial
    · exact (hrevoked _).bind fun _ => (Prog.issues_perform trivial).bind fun _ => trivial
  · obtain _ | ⟨_ | user, revoked⟩ := out
    · trivial
    · trivial
    · dsimp only
      split <;> trivial

end Tracks

theorem handler_accounts (cfg : AuthConfig) (call : AuthCall) :
    (accountMemo cfg).Tracks (fun _ _ => True) (call.handler cfg) ⟨[], []⟩ := by
  cases call with
  | register value tenant req now =>
    exact Memo.Tracks.bind ((register_accounts value tenant req now).weaken fun r _ _ => by cases r <;> trivial)
  | login value tenant req now =>
    refine Memo.Tracks.bind (Memo.Tracks.catching ((login_accounts value tenant req now).weaken fun r _ _ => ?_))
    cases r with
    | error e => cases e <;> trivial
    | ok result => trivial
  | refresh token now =>
    refine Memo.Tracks.bind (Memo.Tracks.catching ((refresh_accounts token now).weaken fun r _ _ => ?_))
    cases r <;> trivial
  | access token userFirst now =>
    exact tracks_creatingNothing (auth_createsNothing userFirst token now).map fun _ _ => trivial
  | logout token userFirst refreshToken now =>
    refine tracks_creatingNothing ((auth_createsNothing userFirst token now).bind fun ctx => ?_) fun _ _ => trivial
    have hlogout := logout_issues (φ := AuthOp.CreatesNothing) cfg refreshToken ctx now
      (fun _ _ => trivial) fun _ _ _ => trivial
    refine Prog.Issues.bind (Prog.Issues.catching hlogout fun _ => ?_) fun _ => ?_
    · trivial
    · trivial

/-! ## Runs -/

section Runs

variable {cfg : AuthConfig} {admits : AuthPool → Action AuthCall → Prop} {start c : AuthPool}
variable {as : List (Action AuthCall)}

/-- A call that fails finds nothing. -/
theorem accountMemo_note_error (o : AuthMongo.Op) (e : ApiError) (g : AccountNote) :
    (accountMemo cfg).note o (.error e) g = g := by
  cases o <;> rfl

/-- Along every run the unique indexes hold, sessions and refresh tokens are of accounts, accounts stay
as they were, and new ones are plain users of tenants that are open to sign-ups. -/
theorem run_accounts (hstart : start.threads = []) (hsound : start.state.Sound)
    (hrun : (authServer cfg).Run admits start as c) :
    c.state.Sound ∧ start.state.Grows cfg c.state := by
  refine (Memo.run_backed (G := accountMemo cfg) (Q := fun _ _ _ => True)
    (I := fun (_ : List AuthCall) (s : AuthDb) => s.Sound ∧ start.state.Grows cfg s)
    (B := fun (_ : List AuthCall) g s => g.Backed cfg s)
    (handler_accounts cfg) (fun _ _ => trivial) (fun o => ⟨trivial, accountMemo_note_error o _⟩)
    (fun _ _ => trivial) (fun _ _ s _ hs => ⟨hs, fun _ hg => hg⟩) (fun _ _ _ _ _ => by constructor <;> simp)
    (fun _ o g s hmay hg hs => ?_) hstart ⟨hsound, .refl _⟩ hrun).1
  obtain ⟨hs', hnext⟩ := exec_grows o hmay hg hs.1
  exact ⟨⟨hs', hs.2.trans hnext⟩, exec_noted o hg hnext, fun g' hg' => hg'.grow hnext⟩

end Runs

/-- Two sign-ups with one new address, both of which have found it free. -/
def signUpRace : List (Action AuthCall) :=
  [.spawn (.register ⟨"Bob", "b@x", "pw"⟩ "t" ⟨none, none, "ip"⟩ 0), .act 0, .act 0, .act 0,
    .spawn (.register ⟨"Eve", "b@x", "pw"⟩ "t" ⟨none, none, "ip"⟩ 0), .act 1, .act 1, .act 1, .act 1, .act 0,
    .act 1, .act 1, .act 1, .act 1, .act 1, .act 1]

theorem run_accounts_race :
    ∃ c, (authServer sampleAuthConfig).play (fun _ _ => true) sampleAuthPool signUpRace = some c ∧
      c.state.users.docs.map (·.name) = ["Ann", "Eve"] ∧ c.state.refreshTokens.docs.length = 1 ∧
      c.state.Sound := by
  obtain ⟨c, hc, h⟩ := (Option.any_eq_true _ _).1 (by decide +kernel :
    ((authServer sampleAuthConfig).play (fun _ _ => true) sampleAuthPool signUpRace).any fun c =>
      decide (c.state.users.docs.map (·.name) = ["Ann", "Eve"] ∧ c.state.refreshTokens.docs.length = 1))
  obtain ⟨husers, htokens⟩ := of_decide_eq_true h
  have hstart : sampleAuthPool.state.Sound := by
    constructor
    · intro a ha b hb _
      rw [List.mem_singleton.1 ha, List.mem_singleton.1 hb]
    all_goals intro x hx; cases hx
  exact ⟨c, hc, husers, htokens, (run_accounts rfl hstart (System.Run.of_play hc)).1⟩

end Ecommerce
