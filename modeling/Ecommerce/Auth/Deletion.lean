import Ecommerce.Auth.Requests
import Ecommerce.Auth.SignOut
import Ecommerce.Effect.Noted
import Ecommerce.Model.Deletion

/-!
# Deleted accounts

Once an account is deleted, no request that starts later gets in as its user, with any token and any
password, whatever was going on before. Nothing brings the account back.
-/

namespace Ecommerce

open Effect Effect.Collection

/-! ## What a request acts for -/

/-- The account is there, inactive and deleted. -/
def AuthDb.Erased (id : ObjectId) (s : AuthDb) : Prop :=
  ∃ u, s.users.get? id = some u ∧ u.isActive = false ∧ u.deletedAt.isSome

/-- One of the tokens is taken for the user's. -/
def TokenPair.LetsIn (cfg : AuthConfig) (user : ObjectId) (pair : TokenPair) : Prop :=
  ∃ secret now claims, (cfg.jwt.verify pair.access_token secret now = some claims ∨
    cfg.jwt.verify pair.refresh_token secret now = some claims) ∧ claims._id = user

/-- The request has succeeded for the user. -/
def AccountRequest.ServedFor (cfg : AuthConfig) (user : ObjectId) : AccountRequest → AccountReply → Prop
  | _, .auth (.access ctx) => ctx.user = user
  | _, .auth (.tokens pair) => pair.LetsIn cfg user
  | _, .auth (.login result) => result.tokens.LetsIn cfg user
  | .auth (.logout token _ _ now), .auth .signedOut =>
    ∃ claims, cfg.jwt.verify token cfg.JWT_SECRET now = some claims ∧ claims._id = user
  | .deleteData token _ now, .deleted =>
    ∃ claims, cfg.jwt.verify token cfg.JWT_SECRET now = some claims ∧ claims._id = user
  | _, _ => False

/-! ## The note of a request -/

/-- The accounts that a request has found to be in force, and the one it has deleted. -/
structure LiveNote where
  found : List ObjectId
  erased : List ObjectId

namespace LiveNote

def note : (o : AuthOp) → Except ApiError o.Reply → LiveNote → LiveNote
  | .userFindByEmail _, .ok (some (user : User)), g => { g with found := user.id :: g.found }
  | .userFindById _, .ok (some (user : User)), g => { g with found := user.id :: g.found }
  | .userCreate _, .ok (user : User), g => { g with found := user.id :: g.found }
  | _, _, g => g

/-- A look-up by an id finds that account. -/
def allows : (o : AuthOp) → Except ApiError o.Reply → Prop
  | .userFindById id, .ok (some (user : User)) => user.id = id
  | _, _ => True

end LiveNote

def liveMemo : Memo AuthMongo ApiError LiveNote where
  note := LiveNote.note
  may _ _ := True
  allows := LiveNote.allows

/-- Deleting takes an account that was found to be in force. -/
def accountLiveMemo : Memo AccountMongo ApiError LiveNote where
  note
    | .inl o, r, g => LiveNote.note o r g
    | .inr (.userErase id _), .ok _, g => { g with erased := id :: g.erased }
    | .inr _, .error _, g => g
  may
    | .inl _, _ => True
    | .inr (.userErase id _), g => id ∈ g.found
  allows
    | .inl o, r => LiveNote.allows o r
    | .inr _, _ => True

/-- The tokens were signed for the user. -/
def TokenPair.IssuedTo (cfg : AuthConfig) (user : ObjectId) (pair : TokenPair) : Prop :=
  ∃ u : User, u.id = user ∧ ∃ sessionId now accessId refreshId,
    pair.access_token = cfg.jwt.sign (tokenPayload u sessionId .access) cfg.ACCESS_TOKEN_TTL cfg.JWT_SECRET now
      accessId ∧
    pair.refresh_token = cfg.jwt.sign (tokenPayload u sessionId .refresh) cfg.REFRESH_TOKEN_TTL
      cfg.REFRESH_SECRET now refreshId

theorem TokenPair.IssuedTo.letsIn {cfg : AuthConfig} {user id : ObjectId} {pair : TokenPair}
    (h : pair.IssuedTo cfg user) (hid : pair.LetsIn cfg id) : user = id := by
  obtain ⟨u, rfl, sessionId, now, accessId, refreshId, haccess, hrefresh⟩ := h
  obtain ⟨secret, now', claims, hverify | hverify, rfl⟩ := hid
  · rw [haccess] at hverify
    rw [cfg.jwt.verify_sign _ _ _ _ _ _ _ _ hverify]
    rfl
  · rw [hrefresh] at hverify
    rw [cfg.jwt.verify_sign _ _ _ _ _ _ _ _ hverify]
    rfl

/-- Who a reply is for, by what its request has found. -/
def AuthCall.Finds (cfg : AuthConfig) : AuthCall → Except ApiError AuthReply → LiveNote → Prop
  | _, .ok (.access ctx), g => ctx.user ∈ g.found
  | _, .ok (.tokens pair), g => ∃ u ∈ g.found, pair.IssuedTo cfg u
  | _, .ok (.login result), g => ∃ u ∈ g.found, result.tokens.IssuedTo cfg u
  | .logout token _ _ now, .ok .signedOut, g =>
    ∃ claims, cfg.jwt.verify token cfg.JWT_SECRET now = some claims ∧ claims._id ∈ g.found
  | _, .ok .signedOut, _ => False
  | _, .error _, _ => True

def AccountRequest.Finds (cfg : AuthConfig) : AccountRequest → Except ApiError AccountReply → LiveNote → Prop
  | .auth call, .ok (.auth reply), g => call.Finds cfg (.ok reply) g
  | .deleteData token _ now, .ok .deleted, g =>
    ∃ claims, cfg.jwt.verify token cfg.JWT_SECRET now = some claims ∧ claims._id ∈ g.found ∧
      claims._id ∈ g.erased
  | _, .ok _, _ => False
  | _, .error _, _ => True

/-- Whoever a request succeeds for has been found to be in force. -/
theorem AccountRequest.Finds.found {cfg : AuthConfig} {request : AccountRequest} {reply : AccountReply} {g : LiveNote}
    {id : ObjectId} (h : request.Finds cfg (.ok reply) g) (hserved : request.ServedFor cfg id reply) :
    id ∈ g.found := by
  cases request with
  | auth call =>
    cases reply with
    | deleted => exact h.elim
    | auth reply =>
      cases reply with
      | access ctx =>
        obtain rfl : ctx.user = id := hserved
        cases call <;> exact h
      | tokens pair =>
        obtain ⟨u, hu, hissued⟩ : ∃ u ∈ g.found, pair.IssuedTo cfg u := by cases call <;> exact h
        exact hissued.letsIn hserved ▸ hu
      | login result =>
        obtain ⟨u, hu, hissued⟩ : ∃ u ∈ g.found, result.tokens.IssuedTo cfg u := by cases call <;> exact h
        exact hissued.letsIn hserved ▸ hu
      | signedOut =>
        cases call with
        | logout token userFirst refreshToken now =>
          obtain ⟨claims, hclaims, rfl⟩ := hserved
          obtain ⟨claims', hclaims', hmem⟩ := h
          obtain rfl : claims = claims' := Option.some_inj.1 (hclaims.symm.trans hclaims')
          exact hmem
        | _ => exact h.elim
  | deleteData token userFirst now =>
    cases reply with
    | auth reply => exact h.elim
    | deleted =>
      obtain ⟨claims, hclaims, rfl⟩ := hserved
      obtain ⟨claims', hclaims', hmem, -⟩ := h
      obtain rfl : claims = claims' := Option.some_inj.1 (hclaims.symm.trans hclaims')
      exact hmem

/-! ## Programs -/

section Tracks

variable (cfg : AuthConfig) {g : LiveNote}

/-- Calls that find no account. -/
def AuthOp.FindsNobody : AuthOp → Prop
  | .userFindByEmail _ | .userFindById _ | .userCreate _ => False
  | _ => True

theorem AuthOp.FindsNobody.unnoted {o : AuthOp} (h : o.FindsNobody) : liveMemo.Unnoted o := by
  intro g
  refine ⟨trivial, fun r => ?_⟩
  cases o <;> first | exact h.elim | rfl

theorem tracks_findingNobody {α : Type} {Q : Except ApiError α → LiveNote → Prop} {p : AuthM α} {ψ : α → Prop}
    (h : p.Issues AuthOp.FindsNobody) (hp : p.Yields ψ) (hQ : ∀ a, ψ a → Q (.ok a) g) (hE : ∀ e, Q (.error e) g) :
    liveMemo.Tracks Q p g :=
  Memo.tracks_unnoted_yields (h.mono fun _ ho => ho.unnoted) hp hQ hE

theorem gives_findingNobody {α : Type} {P : α → LiveNote → Prop} {p : AuthM α} {ψ : α → Prop}
    (h : p.Issues AuthOp.FindsNobody) (hp : p.Yields ψ) (hP : ∀ a, ψ a → P a g) :
    liveMemo.Tracks (fun r g => ∀ a, r = .ok a → P a g) p g := by
  refine tracks_findingNobody h hp (fun a ha b hb => ?_) fun e b hb => by cases hb
  cases hb
  exact hP a ha

theorem createTokenPair_issuedTo (user : User) (sessionId : Option ObjectId) (now : Time) :
    (createTokenPair cfg user sessionId now).Issues AuthOp.FindsNobody ∧
      (createTokenPair cfg user sessionId now).Yields fun pair => pair.IssuedTo cfg user.id := by
  constructor
  · exact (Prog.issues_perform trivial).bind fun _ => (Prog.issues_perform trivial).bind fun _ => trivial
  · refine (Prog.yields_true _).bind fun accessId _ => (Prog.yields_true _).bind fun refreshId _ => ?_
    exact ⟨user, rfl, sessionId, now, accessId, refreshId, rfl, rfl⟩

theorem startSession_issuedTo (user : User) (req : AuthHttp) (now : Time) :
    (startSession cfg user req now).Issues AuthOp.FindsNobody ∧
      (startSession cfg user req now).Yields fun out => out.1.IssuedTo cfg user.id := by
  constructor
  · refine Prog.Issues.bind ((Prog.issues_perform trivial).bind fun _ => Prog.issues_perform trivial) fun session => ?_
    refine (createTokenPair_issuedTo cfg user _ now).1.bind fun tokens => ?_
    exact (Prog.issues_perform trivial).bind fun _ => (Prog.issues_perform trivial).bind fun _ => trivial
  · refine (Prog.yields_true _).bind fun session _ => ?_
    refine (createTokenPair_issuedTo cfg user _ now).2.bind fun tokens htokens => ?_
    exact (Prog.yields_true _).bind fun _ _ => (Prog.yields_true _).bind fun _ _ => htokens

theorem rotate_issuedTo (user : User) (sessionId : Option ObjectId) (now : Time) :
    (rotate cfg user sessionId now).Issues AuthOp.FindsNobody ∧
      (rotate cfg user sessionId now).Yields fun pair => pair.IssuedTo cfg user.id := by
  constructor
  · refine (createTokenPair_issuedTo cfg user _ now).1.bind fun tokens => (Prog.issues_perform trivial).bind fun _ => ?_
    refine Prog.Issues.bind ?_ fun _ => trivial
    cases sessionId with
    | none => trivial
    | some id => exact Prog.issues_perform trivial
  · refine (createTokenPair_issuedTo cfg user _ now).2.bind fun tokens htokens => ?_
    exact (Prog.yields_true _).bind fun _ _ => (Prog.yields_true _).bind fun _ _ => htokens

theorem liveMemo_aside (o : AuthOp) (ho : o.Aside) : liveMemo.Unnoted o := by
  cases o <;> first | exact ho.elim | exact AuthOp.FindsNobody.unnoted trivial

theorem assertSelfSignupAllowed_findsNobody (tenant : String) :
    (assertSelfSignupAllowed cfg tenant).Issues AuthOp.FindsNobody := by
  refine (Prog.issues_perform trivial).bind fun tenant => ?_
  dsimp only
  split <;> trivial

theorem startSession_live (user : User) (req : AuthHttp) (now : Time) (hmem : user.id ∈ g.found) :
    liveMemo.Tracks (fun r g => ∀ out, r = .ok out → ∃ u ∈ g.found, TokenPair.IssuedTo cfg u out.1)
      (startSession cfg user req now) g :=
  gives_findingNobody (startSession_issuedTo cfg user req now).1 (startSession_issuedTo cfg user req now).2
    fun _ hout => ⟨user.id, hmem, hout⟩

theorem register_live (value : RegisterInput) (tenant : String) (req : AuthHttp) (now : Time) :
    liveMemo.Tracks (fun r g => ∀ pair, r = .ok pair → ∃ u ∈ g.found, pair.IssuedTo cfg u)
      (register cfg value tenant req now) g :=
  register_rule (P := fun pair g => ∃ u ∈ g.found, pair.IssuedTo cfg u) (C := fun _ => True) liveMemo_aside
    (gives_findingNobody (assertSelfSignupAllowed_findsNobody cfg tenant) (Prog.yields_true _) fun _ _ => trivial)
    fun _ _ _ => ⟨trivial, fun user => startSession_live cfg user req now List.mem_cons_self⟩

theorem login_live (value : LoginInput) (tenant : String) (req : AuthHttp) (now : Time) :
    liveMemo.Tracks (fun r g => ∀ result, r = .ok result → ∃ u ∈ g.found, result.tokens.IssuedTo cfg u)
      (login cfg value tenant req now) g :=
  login_rule (P := fun pair g => ∃ u ∈ g.found, pair.IssuedTo cfg u) liveMemo_aside trivial fun user =>
    startSession_live cfg user req now List.mem_cons_self

theorem refresh_live (token : String) (now : Time) :
    liveMemo.Tracks (fun r g => ∀ pair, r = .ok pair → ∃ u ∈ g.found, pair.IssuedTo cfg u)
      (refresh cfg token now) g :=
  refresh_rule (P := fun pair g => ∃ u ∈ g.found, pair.IssuedTo cfg u) liveMemo_aside (fun _ => trivial)
    fun _ user sessionId => gives_findingNobody (rotate_issuedTo cfg user sessionId now).1
      (rotate_issuedTo cfg user sessionId now).2 fun _ hpair => ⟨user.id, List.mem_cons_self, hpair⟩

/-- The middleware's two reads, in either order. -/
theorem both_live (userFirst : Bool) (id : ObjectId) {q : AuthM Bool} (hq : q.Issues AuthOp.FindsNobody) :
    liveMemo.Tracks (fun r g => ∀ out, r = .ok out → ∀ user : User, out.1 = some user →
      user.id = id ∧ user.id ∈ g.found) (both userFirst (authDb (.userFindById id)) q) g := by
  cases userFirst with
  | true =>
    refine ⟨trivial, fun r hr => ?_⟩
    obtain e | found := r
    · exact nofun
    refine gives_findingNobody (ψ := fun out => out.1 = found) (hq.bind fun _ => trivial)
      ((Prog.yields_true q).bind fun _ _ => rfl) fun out hout user huser => ?_
    obtain rfl : found = some user := hout.symm.trans huser
    exact ⟨hr, List.mem_cons_self⟩
  | false =>
    refine Memo.Tracks.bind (tracks_findingNobody (ψ := fun _ => True) hq (Prog.yields_true q) (fun b _ => ?_)
      fun e => ?_)
    · refine ⟨trivial, fun r hr => ?_⟩
      obtain e | found := r
      · exact nofun
      rintro _ ⟨⟩ user huser
      obtain rfl : found = some user := huser
      exact ⟨hr, List.mem_cons_self⟩
    · exact nofun

theorem auth_live (userFirst : Bool) (token : String) (now : Time) :
    liveMemo.Tracks (fun r g => ∀ ctx, r = .ok ctx → ctx.user ∈ g.found ∧
      ∃ claims, cfg.jwt.verify token cfg.JWT_SECRET now = some claims ∧ claims._id = ctx.user)
      (auth cfg userFirst token now) g := by
  unfold auth
  split
  · exact nofun
  next claims hclaims =>
  split
  · exact nofun
  refine Memo.Tracks.bind (Memo.Tracks.attempt ((both_live userFirst claims._id
    (revokedSession_issues claims fun _ _ => trivial)).weaken fun r g' hr => ?_))
  obtain e | ⟨_ | user, revoked⟩ := r
  · exact nofun
  · exact nofun
  · obtain ⟨hid, hmem⟩ := hr _ rfl user rfl
    show liveMemo.Tracks _ (ite _ _ _) g'
    split
    · exact nofun
    · rintro ctx ⟨⟩
      exact ⟨hmem, claims, hclaims, hid.symm⟩

theorem stepUpAuth_findsNobody (ctx : AuthContext) : (stepUpAuth ctx).Issues AuthOp.FindsNobody := by
  unfold stepUpAuth
  cases ctx.sessionId with
  | none => trivial
  | some id =>
    refine (Prog.issues_perform trivial).bind fun session => ?_
    dsimp only
    split <;> trivial

theorem handler_live (call : AuthCall) :
    liveMemo.Tracks (fun r g => call.Finds cfg r g) (call.handler cfg) ⟨[], []⟩ := by
  cases call with
  | register value tenant req now =>
    refine Memo.Tracks.bind ((register_live cfg value tenant req now).weaken fun r _ hr => ?_)
    cases r with
    | error e => trivial
    | ok pair => exact hr pair rfl
  | login value tenant req now =>
    refine Memo.Tracks.bind (Memo.Tracks.catching ((login_live cfg value tenant req now).weaken fun r _ hr => ?_))
    cases r with
    | error e => cases e <;> trivial
    | ok result => exact hr result rfl
  | refresh token now =>
    refine Memo.Tracks.bind (Memo.Tracks.catching ((refresh_live cfg token now).weaken fun r _ hr => ?_))
    cases r with
    | error e => trivial
    | ok pair => exact hr pair rfl
  | access token userFirst now =>
    refine Memo.Tracks.bind ((auth_live cfg userFirst token now).weaken fun r _ hr => ?_)
    cases r with
    | error e => trivial
    | ok ctx => exact (hr ctx rfl).1
  | logout token userFirst refreshToken now =>
    refine Memo.Tracks.bind ((auth_live cfg userFirst token now).weaken fun r g' hr => ?_)
    cases r with
    | error e => trivial
    | ok ctx =>
      obtain ⟨hmem, claims, hclaims, hid⟩ := hr ctx rfl
      refine tracks_findingNobody (ψ := fun reply => reply = .signedOut) ?_ ?_ ?_ fun e => trivial
      · have hlogout := logout_issues (φ := AuthOp.FindsNobody) cfg refreshToken ctx now
          (fun _ _ => trivial) fun _ _ _ => trivial
        refine Prog.Issues.bind (Prog.Issues.catching hlogout fun _ => ?_) fun _ => ?_
        · trivial
        · trivial
      · exact (Prog.yields_true _).bind fun _ _ => rfl
      · rintro _ rfl
        exact ⟨claims, hclaims, hid ▸ hmem⟩

theorem deleteDataGuards_live (token : String) (userFirst : Bool) (now : Time) :
    liveMemo.Tracks (fun r g => ∀ ctx, r = .ok ctx → ctx.user ∈ g.found ∧
      ∃ claims, cfg.jwt.verify token cfg.JWT_SECRET now = some claims ∧ claims._id = ctx.user)
      (deleteDataGuards cfg token userFirst now) g := by
  refine Memo.Tracks.bind ((auth_live cfg userFirst token now).weaken fun r g' hr => ?_)
  cases r with
  | error e => exact nofun
  | ok ctx =>
    exact gives_findingNobody (ψ := fun ctx' => ctx' = ctx) ((stepUpAuth_findsNobody ctx).bind fun _ => trivial)
      ((Prog.yields_true _).bind fun _ _ => rfl) fun ctx' hctx' => hctx' ▸ hr ctx rfl

theorem liveMemo_inl {α : Type} {Q : Except ApiError α → LiveNote → Prop} {p : AuthM α}
    (h : liveMemo.Tracks Q p g) : accountLiveMemo.Tracks Q (p.inl : Prog AccountMongo ApiError α) g :=
  Memo.Tracks.inl (fun _ _ _ => rfl) (fun _ _ _ => trivial) (fun _ _ h => h) h

theorem account_live (request : AccountRequest) :
    accountLiveMemo.Tracks (fun r g => request.Finds cfg r g) (request.handler cfg) ⟨[], []⟩ := by
  cases request with
  | auth call =>
    refine Memo.Tracks.bind ((liveMemo_inl (handler_live cfg call)).weaken fun r g' hr => ?_)
    cases r with
    | error e => trivial
    | ok reply => exact hr
  | deleteData token userFirst now =>
    refine Memo.Tracks.bind ((liveMemo_inl (deleteDataGuards_live cfg token userFirst now)).weaken fun r g' hr => ?_)
    cases r with
    | error e => trivial
    | ok ctx =>
      obtain ⟨hmem, claims, hclaims, hid⟩ := hr ctx rfl
      refine ⟨hmem, fun r _ => ?_⟩
      cases r with
      | error e => trivial
      | ok _ => exact ⟨claims, hclaims, hid ▸ hmem, hid ▸ List.mem_cons_self⟩

end Tracks

/-! ## Calls -/

section Calls

variable {id : ObjectId} {s : AuthDb}

/-- What every call keeps of an account. -/
theorem exec_keepsUser (o : AccountMongo.Op) {u : User} (hu : s.users.get? id = some u) :
    ∃ u', (accountMongo.exec o s).2.users.get? id = some u' ∧ (u.isActive = false → u'.isActive = false) ∧
      (u.deletedAt.isSome → u'.deletedAt.isSome) := by
  have hsame : ∃ u', s.users.get? id = some u' ∧ (u.isActive = false → u'.isActive = false) ∧
      (u.deletedAt.isSome → u'.deletedAt.isSome) := ⟨u, hu, fun h => h, fun h => h⟩
  cases o with
  | inl o =>
    cases o with
    | userCreate draft =>
      simp only [accountMongo, Machine.sum, authMongo, AuthDb.exec]
      split
      · exact hsame
      · have hget := get?_insert s.users (draft.record s.users.next) rfl id
        rw [if_neg (get?_lt hu).ne, hu] at hget
        exact ⟨u, hget, fun h => h, fun h => h⟩
    | sessionTrack draft =>
      simp only [accountMongo, Machine.sum, authMongo, AuthDb.exec]
      split <;> exact hsame
    | refreshCreate draft =>
      simp only [accountMongo, Machine.sum, authMongo, AuthDb.exec]
      split <;> exact hsame
    | refreshConsume lookup now =>
      simp only [accountMongo, Machine.sum, authMongo, AuthDb.exec]
      split <;> exact hsame
    | refreshDelete lookup user =>
      simp only [accountMongo, Machine.sum, authMongo, AuthDb.exec]
      split <;> exact hsame
    | _ => exact hsame
  | inr o =>
    obtain ⟨other, now⟩ := o
    simp only [accountMongo, Machine.sum, deletionMongo, DeletionOp.exec]
    split
    · exact hsame
    · split
      · exact hsame
      · by_cases hid : id = other
        · subst hid
          exact ⟨_, by rw [get?_update_self, hu]; rfl, fun _ => rfl, fun _ => rfl⟩
        · exact ⟨u, by rw [get?_update, if_neg hid, hu], fun h => h, fun h => h⟩

theorem AuthDb.Erased.exec (o : AccountMongo.Op) (h : s.Erased id) : (accountMongo.exec o s).2.Erased id := by
  obtain ⟨u, hu, hactive, hdeleted⟩ := h
  obtain ⟨u', hu', hactive', hdeleted'⟩ := exec_keepsUser o hu
  exact ⟨u', hu', hactive' hactive, hdeleted' hdeleted⟩

/-- A look-up finds an account only if it is in force, and a sign-up makes a new one. -/
theorem note_found (o : AuthOp) {g : LiveNote} :
    LiveNote.note o (authMongo.exec o s).1 g = g ∨
      ∃ u : User, u.isActive ∧ u.deletedAt = none ∧ (authMongo.exec o s).2.users.get? u.id = some u ∧
        (s.users.get? u.id = some u ∨ s.users.get? u.id = none) ∧
        LiveNote.note o (authMongo.exec o s).1 g = { g with found := u.id :: g.found } := by
  cases o with
  | userFindByEmail email =>
    simp only [authMongo, AuthDb.exec]
    cases hfind : s.users.docs.find? fun u => u.email == email && u.isActive && u.deletedAt.isNone with
    | none => exact .inl rfl
    | some u =>
      have hget : s.users.get? u.id = some u := get?_eq_some.2 ⟨List.mem_of_find?_eq_some hfind, rfl⟩
      have hlive := List.find?_some hfind
      simp only [Bool.and_eq_true, Option.isNone_iff_eq_none] at hlive
      exact .inr ⟨u, hlive.1.2, hlive.2, hget, .inl hget, rfl⟩
  | userFindById id =>
    simp only [authMongo, AuthDb.exec]
    cases hfind : (s.users.get? id).filter fun u => u.isActive && u.deletedAt.isNone with
    | none => exact .inl rfl
    | some u =>
      obtain ⟨hu, hlive⟩ := Option.filter_eq_some_iff.1 hfind
      have hget : s.users.get? u.id = some u := get?_eq_some.2 ⟨(get?_eq_some.1 hu).1, rfl⟩
      simp only [Bool.and_eq_true, Option.isNone_iff_eq_none] at hlive
      exact .inr ⟨u, hlive.1, hlive.2, hget, .inl hget, rfl⟩
  | userCreate draft =>
    simp only [authMongo, AuthDb.exec]
    split
    · exact .inl rfl
    · exact .inr ⟨draft.record s.users.next, rfl, rfl, get?_insert_next _ _ rfl, .inr (get?_next _), rfl⟩
  | _ => exact .inl rfl

theorem accountMongo_allows (o : AccountMongo.Op) (s : AuthDb) :
    accountLiveMemo.allows o (accountMongo.exec o s).1 := by
  cases o with
  | inl o =>
    cases o with
    | userFindById id =>
      show LiveNote.allows (.userFindById id) (.ok ((s.users.get? id).filter _))
      cases hfind : (s.users.get? id).filter fun u => u.isActive && u.deletedAt.isNone with
      | none => trivial
      | some u => exact get?_key (Option.filter_eq_some_iff.1 hfind).1
    | _ => trivial
  | inr o => trivial

/-- What is noted as found is there, and as erased is erased. -/
structure LiveNote.Backed (g : LiveNote) (s : AuthDb) : Prop where
  found : ∀ id ∈ g.found, ∃ u, s.users.get? id = some u
  erased : ∀ id ∈ g.erased, s.Erased id

variable {g : LiveNote}

theorem LiveNote.Backed.keep (o : AccountMongo.Op) (hg : g.Backed s) : g.Backed (accountMongo.exec o s).2 := by
  refine ⟨fun id hid => ?_, fun id hid => (hg.erased id hid).exec o⟩
  obtain ⟨u, hu⟩ := hg.found id hid
  obtain ⟨u', hu', -⟩ := exec_keepsUser o hu
  exact ⟨u', hu'⟩

theorem LiveNote.Backed.exec (o : AccountMongo.Op) (hmay : accountLiveMemo.may o g) (hg : g.Backed s) :
    LiveNote.Backed (accountLiveMemo.note o (accountMongo.exec o s).1 g) (accountMongo.exec o s).2 := by
  have hkeep := hg.keep o
  cases o with
  | inl o =>
    obtain hsame | ⟨u, -, -, hu, -, hnote⟩ := note_found (s := s) (g := g) o
    · show LiveNote.Backed (LiveNote.note o (authMongo.exec o s).1 g) _
      rw [hsame]
      exact hkeep
    · show LiveNote.Backed (LiveNote.note o (authMongo.exec o s).1 g) _
      rw [hnote]
      refine ⟨fun id hid => ?_, hkeep.erased⟩
      rcases List.mem_cons.1 hid with rfl | hid
      · exact ⟨u, hu⟩
      · exact hkeep.found id hid
  | inr o =>
    obtain ⟨other, now⟩ := o
    obtain ⟨u, hu⟩ := hg.found other hmay
    simp only [accountMongo, Machine.sum, deletionMongo, DeletionOp.exec, hu] at hkeep ⊢
    split
    · next hclash => rw [if_pos hclash] at hkeep; exact hkeep
    · next hclash =>
      rw [if_neg hclash] at hkeep
      refine ⟨hkeep.found, fun id hid => ?_⟩
      rcases List.mem_cons.1 hid with rfl | hid
      · exact ⟨_, by rw [get?_update_self, hu]; rfl, rfl, rfl⟩
      · exact hkeep.erased id hid

/-- Nobody finds an account that is erased. -/
theorem exec_unfound (o : AccountMongo.Op) (hs : s.Erased id) (hg : id ∉ g.found) :
    id ∉ (accountLiveMemo.note o (accountMongo.exec o s).1 g).found := by
  obtain ⟨v, hv, hactive, -⟩ := hs
  cases o with
  | inl o =>
    obtain hsame | ⟨u, hlive, -, -, hbefore, hnote⟩ := note_found (s := s) (g := g) o
    · show id ∉ (LiveNote.note o (authMongo.exec o s).1 g).found
      rw [hsame]
      exact hg
    · show id ∉ (LiveNote.note o (authMongo.exec o s).1 g).found
      rw [hnote]
      rintro hid
      rcases List.mem_cons.1 hid with rfl | hid
      · rw [hv] at hbefore
        grind
      · exact hg hid
  | inr o =>
    obtain ⟨other, now⟩ := o
    cases (accountMongo.exec (.inr (.userErase other now)) s).1 <;> exact hg

end Calls

/-! ## Runs -/

section Runs

variable {cfg : AuthConfig} {admits : AccountPool → Action AccountRequest → Prop} {start c d : AccountPool}
variable {as bs : List (Action AccountRequest)} {id : ObjectId}

theorem accountLiveMemo_error (o : AccountMongo.Op) (e : ApiError) :
    accountLiveMemo.allows o (.error e) ∧ ∀ g, accountLiveMemo.note o (.error e) g = g := by
  cases o with
  | inl o => cases o <;> exact ⟨trivial, fun _ => rfl⟩
  | inr o => exact ⟨trivial, fun _ => rfl⟩

theorem AccountRequest.finds_error (request : AccountRequest) (e : ApiError) (g : LiveNote) :
    request.Finds cfg (.error e) g := by
  cases request <;> trivial

/-- An account whose deletion has been reported is deleted. -/
theorem run_deleted_erased {i : Nat} {token : String} {userFirst : Bool} {now : Time} {claims : AccessTokenClaims}
    (hrun : (accountServer cfg).Run admits start as c) (hi : start.threads.length ≤ i)
    (hdone : c.threads[i]? = some ⟨.deleteData token userFirst now, .done (.ok .deleted)⟩)
    (hclaims : cfg.jwt.verify token cfg.JWT_SECRET now = some claims) : c.state.Erased claims._id := by
  obtain ⟨-, hlate⟩ := Memo.run_late (Q := fun request r g => request.Finds cfg r g) (I := fun _ => True)
    (B := LiveNote.Backed) (account_live cfg) accountMongo_allows (fun o => accountLiveMemo_error o _)
    (fun request g => request.finds_error _ g) (fun _ _ _ => by constructor <;> simp)
    (fun o s _ => ⟨trivial, fun g hg => hg.keep o⟩) (fun o g s hmay _ hg => hg.exec o hmay) trivial hrun
  obtain ⟨g, hg, claims', hclaims', -, herased⟩ := hlate i _ hi hdone
  obtain rfl : claims = claims' := Option.some_inj.1 (hclaims.symm.trans hclaims')
  exact hg.erased _ herased

/-- No request that starts when an account is deleted succeeds for its user. -/
theorem run_erased_unserved (hgone : c.state.Erased id) (hrun : (accountServer cfg).Run admits c bs d) :
    d.state.Erased id ∧ ∀ i request reply, c.threads.length ≤ i →
      d.threads[i]? = some ⟨request, .done (.ok reply)⟩ → ¬ request.ServedFor cfg id reply := by
  obtain ⟨hstill, hlate⟩ := Memo.run_late (Q := fun request r g => request.Finds cfg r g)
    (I := fun s => s.Erased id) (B := fun g _ => id ∉ g.found) (account_live cfg) accountMongo_allows
    (fun o => accountLiveMemo_error o _) (fun request g => request.finds_error _ g) (fun _ _ _ => by simp)
    (fun o s hs => ⟨hs.exec o, fun g hg => hg⟩) (fun o g s _ hs hg => exec_unfound o hs hg)
    hgone hrun
  refine ⟨hstill, fun i request reply hi hdone hserved => ?_⟩
  obtain ⟨g, hg, hfinds⟩ := hlate i _ hi hdone
  exact hg (hfinds.found hserved)

theorem answered?_eq_some {i : Nat} {request : AccountRequest} {reply : AccountReply}
    (h : answered? c i = some (request, reply)) : c.threads[i]? = some ⟨request, .done (.ok reply)⟩ := by
  obtain ⟨⟨label, p⟩, ht, h⟩ := Option.bind_eq_some_iff.1 h
  cases p with
  | call o k => cases h
  | done r =>
    cases r with
    | error e => cases h
    | ok value =>
      cases h
      exact ht

/-- Once a client has been told that the account of its token is deleted, the account stays deleted, and no
request that starts from then on, with whatever token or password, succeeds for its user. -/
theorem run_deleteData {i : Nat} {token : String} {userFirst : Bool} {now : Time} {claims : AccessTokenClaims}
    (hbefore : (accountServer cfg).Run admits start as c) (hi : start.threads.length ≤ i)
    (hdeleted : answered? c i = some (.deleteData token userFirst now, .deleted))
    (hclaims : cfg.jwt.verify token cfg.JWT_SECRET now = some claims)
    (hafter : (accountServer cfg).Run admits c bs d) :
    d.state.Erased claims._id ∧ ∀ j request reply, c.threads.length ≤ j →
      answered? d j = some (request, reply) → ¬ request.ServedFor cfg claims._id reply := by
  have hgone := run_deleted_erased hbefore hi (answered?_eq_some hdeleted) hclaims
  obtain ⟨hstill, hunserved⟩ := run_erased_unserved hgone hafter
  exact ⟨hstill, fun j request reply hj hreply => hunserved j request reply hj (answered?_eq_some hreply)⟩

end Runs

/-- Ann signs in and deletes her account. -/
def annLeaves : List (Action AccountRequest) :=
  [.spawn (.auth (sampleSignIn 0))] ++ List.replicate 8 (.act 0) ++
    [.spawn (.deleteData sampleAccessToken true 1)] ++ List.replicate 4 (.act 1)

/-- She comes back with her token, with her password, and signs up again. -/
def annReturns : List (Action AccountRequest) :=
  [.spawn (.auth (.access sampleAccessToken true 2)), .act 2, .act 2,
    .spawn (.auth (sampleSignIn 2)), .act 3, .act 3,
    .spawn (.auth (.register ⟨"Ann", "a@x", "pw"⟩ "t" ⟨none, none, "ip"⟩ 3))] ++ List.replicate 10 (.act 4)

theorem run_deleteData_returns :
    ∃ c d, (accountServer sampleAuthConfig).Run (fun _ _ => True) ⟨sampleAuthPool.state, []⟩ annLeaves c ∧
      (accountServer sampleAuthConfig).Run (fun _ _ => True) c annReturns d ∧
      answered? d 2 = none ∧ answered? d 3 = none ∧ (answered? d 4).isSome ∧ d.state.Erased 0 ∧
      ∀ j request reply, 2 ≤ j → answered? d j = some (request, reply) →
        ¬ request.ServedFor sampleAuthConfig 0 reply := by
  obtain ⟨c, hc, h⟩ := (Option.any_eq_true _ _).1 (by decide +kernel :
    ((accountServer sampleAuthConfig).play (fun _ _ => true) ⟨sampleAuthPool.state, []⟩ annLeaves).any fun c =>
      decide (c.threads.length = 2 ∧ answered? c 1 = some (.deleteData sampleAccessToken true 1, .deleted)) &&
        ((accountServer sampleAuthConfig).play (fun _ _ => true) c annReturns).any fun d =>
          decide (answered? d 2 = none ∧ answered? d 3 = none ∧ (answered? d 4).isSome))
  rw [Bool.and_eq_true] at h
  obtain ⟨hlength, hdeleted⟩ := of_decide_eq_true h.1
  obtain ⟨d, hd, hchecks⟩ := (Option.any_eq_true _ _).1 h.2
  obtain ⟨htoken, hpassword, hagain⟩ := of_decide_eq_true hchecks
  have hbefore : (accountServer sampleAuthConfig).Run (fun _ _ => True) ⟨sampleAuthPool.state, []⟩ annLeaves c :=
    (System.Run.of_play hc).mono fun _ _ _ => trivial
  have hafter : (accountServer sampleAuthConfig).Run (fun _ _ => True) c annReturns d :=
    (System.Run.of_play hd).mono fun _ _ _ => trivial
  have hclaims : sampleAuthConfig.jwt.verify sampleAccessToken sampleAuthConfig.JWT_SECRET 1 =
      some (tokenPayload sampleAccount (some 0) .access) := by decide +kernel
  obtain ⟨hgone, hunserved⟩ := run_deleteData hbefore (Nat.zero_le _) hdeleted hclaims hafter
  exact ⟨c, d, hbefore, hafter, htoken, hpassword, hagain, hgone,
    fun j request reply hj => hunserved j request reply (hlength ▸ hj)⟩

end Ecommerce
