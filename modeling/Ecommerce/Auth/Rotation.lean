import Ecommerce.Auth.Notes
import Ecommerce.Auth.SignOut

/-!
# Refresh rotation

A refresh token is exchanged once at most, and not after its row is gone or it has expired. A row that
is not revoked stands for a sign-in: every refresh revokes one before it issues another, wherever it
stops.
-/

namespace Ecommerce

open Effect Effect.Collection

/-! ## Steps -/

/-- What a step does to the refresh tokens and to the notes, with the user whom it signs in. -/
inductive TokenMove (cfg : AuthConfig) (s : AuthDb) (gs : List TokenNote) :
    Option ObjectId → AuthDb → List TokenNote → Prop where
  | started (call : AuthCall) : TokenMove cfg s gs none s (gs ++ [call.blank])
  | stopped : TokenMove cfg s gs none s gs
  | rested {i : Nat} {g g' : TokenNote} {s' : AuthDb} (hi : gs[i]? = some g)
      (htokens : s'.refreshTokens = s.refreshTokens) (hnext : s'.nextId = s.nextId)
      (hstays : g'.presents = g.presents ∧ g'.exchanged = g.exchanged)
      (hless : g'.drawn = g.drawn ∧ g'.credit = g.credit ∨ g'.drawn = none ∧ g'.credit = none) :
      TokenMove cfg s gs none s' (gs.set i g')
  | drew {i : Nat} {g : TokenNote} (hi : gs[i]? = some g) :
      TokenMove cfg s gs none { s with nextId := s.nextId + 1 }
        (gs.set i { g with drawn := some s.nextId })
  | signedIn {i : Nat} {g : TokenNote} {s' : AuthDb} (user : ObjectId) (hi : gs[i]? = some g)
      (htokens : s'.refreshTokens = s.refreshTokens) (hnext : s'.nextId = s.nextId) :
      TokenMove cfg s gs (some user) s' (gs.set i { g with credit := some user })
  | issued {i jwtid : Nat} {g : TokenNote} {draft : RefreshTokenDraft} (hi : gs[i]? = some g)
      (hcredit : g.credit = some draft.user) (hdrawn : g.drawn = some jwtid)
      (hsigns : TokenNote.Signs cfg jwtid draft.token)
      (hfresh : ∀ row ∈ s.refreshTokens.docs, row.token ≠ draft.token) :
      TokenMove cfg s gs none
        { s with refreshTokens := s.refreshTokens.insert (draft.record s.refreshTokens.next) rfl }
        (gs.set i { g with drawn := none, credit := none })
  | exchanged {i : Nat} {g : TokenNote} {token : String} {now : Time} {row : RefreshTokenRecord}
      (hi : gs[i]? = some g) (hfirst : g.exchanged = false) (hpresents : g.presents = some token)
      (hverify : (cfg.jwt.verify token cfg.REFRESH_SECRET now).isSome)
      (hrow : row ∈ s.refreshTokens.docs) (htoken : row.token ∈ tokenLookup cfg token)
      (hunused : row.revokedAt = none) :
      TokenMove cfg s gs none
        { s with refreshTokens := s.refreshTokens.update row.id (RefreshTokenRecord.revoke now) }
        (gs.set i { g with credit := some row.user, exchanged := true })
  | deleted {row : RefreshTokenRecord} (hrow : row ∈ s.refreshTokens.docs) :
      TokenMove cfg s gs none { s with refreshTokens := s.refreshTokens.erase row.id } gs

/-- The step signs the user in. -/
def signsIn (user : ObjectId) (c : AuthPool) (a : Action AuthCall) (_ : AuthPool) : Bool :=
  match a with
  | .act i => match c.head? i with
    | some (.sessionTrack draft) => draft.user == user
    | _ => false
  | _ => false

theorem authMongo_allows (o : AuthOp) (s : AuthDb) : TokenNote.allows o (authMongo.exec o s).1 := by
  cases o with
  | userFindById id =>
    simp only [authMongo, AuthDb.exec]
    cases h : (s.users.get? id).filter fun u => u.isActive && u.deletedAt.isNone with
    | none => trivial
    | some user => exact get?_key (Option.filter_eq_some_iff.1 h).1
  | _ => trivial

/-- Every call makes one of the moves. -/
theorem exec_tokenMove {cfg : AuthConfig} {o : AuthOp} {s : AuthDb} {gs : List TokenNote} {i : Nat}
    {g : TokenNote} (hi : gs[i]? = some g) (hmay : TokenNote.may cfg o g) :
    TokenMove cfg s gs (match o with | .sessionTrack draft => some draft.user | _ => none)
      (authMongo.exec o s).2 (gs.set i (TokenNote.note o (authMongo.exec o s).1 g)) := by
  have hsame : gs.set i g = gs := by
    obtain ⟨hlt, hget⟩ := List.getElem?_eq_some_iff.1 hi
    rw [← hget, List.set_getElem_self]
  cases o with
  | randomUUID => exact .drew hi
  | sessionTrack draft =>
    simp only [authMongo, AuthDb.exec]
    split
    · exact .signedIn draft.user hi rfl rfl
    · exact .signedIn draft.user hi rfl rfl
  | userCreate draft =>
    simp only [authMongo, AuthDb.exec]
    split
    · exact .rested hi rfl rfl ⟨rfl, rfl⟩ (.inl ⟨rfl, rfl⟩)
    · exact .rested hi rfl rfl ⟨rfl, rfl⟩ (.inl ⟨rfl, rfl⟩)
  | refreshCreate draft =>
    obtain ⟨hcredit, jwtid, hdrawn, hsigns⟩ := hmay
    simp only [authMongo, AuthDb.exec]
    split
    · exact .rested hi rfl rfl ⟨rfl, rfl⟩ (.inr ⟨rfl, rfl⟩)
    · next hfresh =>
      refine .issued hi hcredit hdrawn hsigns fun row hrow htoken => hfresh ?_
      exact List.any_eq_true.2 ⟨row, hrow, beq_iff_eq.2 htoken⟩
  | refreshConsume lookup now =>
    obtain ⟨hfirst, token, hpresents, rfl, hverify⟩ := hmay
    simp only [authMongo, AuthDb.exec]
    split
    · next row hrow =>
      have hfound := List.find?_some hrow
      simp only [Bool.and_eq_true, List.contains_iff_mem, Option.isNone_iff_eq_none] at hfound
      exact .exchanged hi hfirst hpresents hverify (List.mem_of_find?_eq_some hrow) hfound.1.1 hfound.1.2
    · exact .rested hi rfl rfl ⟨rfl, rfl⟩ (.inl ⟨rfl, rfl⟩)
  | refreshDelete lookup user =>
    simp only [authMongo, AuthDb.exec]
    split
    · next row hrow => exact hsame.symm ▸ .deleted (List.mem_of_find?_eq_some hrow)
    · exact .rested hi rfl rfl ⟨rfl, rfl⟩ (.inl ⟨rfl, rfl⟩)
  | _ => exact .rested hi rfl rfl ⟨rfl, rfl⟩ (.inl ⟨rfl, rfl⟩)

theorem tokenNote_fault (o : AuthOp) (g : TokenNote) :
    (TokenNote.note o (.error authMongo.fault) g).presents = g.presents ∧
      (TokenNote.note o (.error authMongo.fault) g).exchanged = g.exchanged ∧
      ((TokenNote.note o (.error authMongo.fault) g).drawn = g.drawn ∧
          (TokenNote.note o (.error authMongo.fault) g).credit = g.credit ∨
        (TokenNote.note o (.error authMongo.fault) g).drawn = none ∧
          (TokenNote.note o (.error authMongo.fault) g).credit = none) := by
  cases o <;> simp [TokenNote.note]

/-- The notes of the requests of a pool. -/
abbrev Noted (cfg : AuthConfig) (c : AuthPool) (gs : List TokenNote) : Prop :=
  (tokenMemo cfg).Minutes AuthCall.Ends c gs

/-- Every step makes one of the moves, and is counted as a sign-in if it is one. -/
theorem Noted.step {cfg : AuthConfig} {c d : AuthPool} {a : Action AuthCall} {gs : List TokenNote}
    (h : Noted cfg c gs) (hs : (authServer cfg).step c a = some d) :
    ∃ signs gs', Noted cfg d gs' ∧ TokenMove cfg c.state gs signs d.state gs' ∧
      ∀ user, signs = some user → signsIn user c a d = true := by
  obtain ⟨gs', hnoted, ⟨call, -, rfl, hstate⟩ | ⟨i, o, g, hhead, hi, hmay, hmove⟩⟩ :=
    Memo.Minutes.step h (fun call _ => AuthCall.tracks cfg call) hs
      (fun o => authMongo_allows o c.state) (fun _ o _ _ => by cases o <;> trivial)
      fun _ _ call _ _ g _ => by cases call <;> trivial
  · exact ⟨none, _, hnoted, hstate ▸ .started call, nofun⟩
  obtain ⟨rfl, hstate, rfl⟩ | ⟨hstate, rfl⟩ | ⟨hstate, rfl⟩ := hmove
  · refine ⟨_, _, hnoted, hstate ▸ exec_tokenMove hi hmay, fun user huser => ?_⟩
    simp only [signsIn, hhead]
    cases o with
    | sessionTrack draft => exact beq_iff_eq.2 (Option.some_inj.1 huser)
    | _ => cases huser
  · obtain ⟨hpresents, hexchanged, hless⟩ := tokenNote_fault o g
    exact ⟨none, _, hnoted, .rested hi (by rw [hstate]) (by rw [hstate]) ⟨hpresents, hexchanged⟩ hless, nofun⟩
  · exact ⟨none, _, hnoted, hstate ▸ .stopped, nofun⟩

/-! ## Ids and digests -/

/-- Tokens that are signed with different ids have different digests, and no digest is a token. -/
structure AuthConfig.Distinct (cfg : AuthConfig) : Prop where
  jwtid_eq : ∀ {j j' : Nat} {digest : String}, TokenNote.Signs cfg j digest → TokenNote.Signs cfg j' digest → j = j'
  digest_invalid : ∀ text now, cfg.jwt.verify (cfg.sha256 text) cfg.REFRESH_SECRET now = none

/-- The digest is of a token whose id is drawn and put to use. -/
def Minted (cfg : AuthConfig) (s : AuthDb) (gs : List TokenNote) (digest : String) : Prop :=
  ∃ jwtid, TokenNote.Signs cfg jwtid digest ∧ jwtid < s.nextId ∧ ∀ g ∈ gs, g.drawn ≠ some jwtid

/-- The digest is of a token that has no use left: its row is revoked or gone, and there will be no
other. -/
def Spent (cfg : AuthConfig) (s : AuthDb) (gs : List TokenNote) (digest : String) : Prop :=
  Minted cfg s gs digest ∧ ∀ row ∈ s.refreshTokens.docs, row.token = digest → row.revokedAt.isSome

/-- No id is held twice, rows are of minted tokens, and a token that was exchanged is spent. -/
structure Rotation (cfg : AuthConfig) (s : AuthDb) (gs : List TokenNote) : Prop where
  drawn_lt : ∀ {i j : Nat} {g : TokenNote}, gs[i]? = some g → g.drawn = some j → j < s.nextId
  drawn_once : ∀ {i k j : Nat} {g h : TokenNote}, gs[i]? = some g → gs[k]? = some h →
    g.drawn = some j → h.drawn = some j → i = k
  minted : ∀ row ∈ s.refreshTokens.docs, Minted cfg s gs row.token
  unique : ∀ row ∈ s.refreshTokens.docs, ∀ row' ∈ s.refreshTokens.docs, row.token = row'.token →
    row.id = row'.id
  spent : ∀ {i : Nat} {g : TokenNote} {token : String}, gs[i]? = some g → g.exchanged = true →
    g.presents = some token → Spent cfg s gs (cfg.sha256 token)
  once : ∀ {i k : Nat} {g h : TokenNote} {token : String}, gs[i]? = some g → gs[k]? = some h →
    g.exchanged = true → h.exchanged = true → g.presents = some token → h.presents = some token → i = k

section Moves

variable {cfg : AuthConfig} {s s' : AuthDb} {gs gs' : List TokenNote} {signs : Option ObjectId}

theorem TokenMove.nextId_le (h : TokenMove cfg s gs signs s' gs') : s.nextId ≤ s'.nextId := by
  cases h <;> simp_all

@[simp] theorem AuthCall.blank_drawn (call : AuthCall) : call.blank.drawn = none := by cases call <;> rfl

@[simp] theorem AuthCall.blank_credit (call : AuthCall) : call.blank.credit = none := by cases call <;> rfl

@[simp] theorem AuthCall.blank_exchanged (call : AuthCall) : call.blank.exchanged = false := by
  cases call <;> rfl

/-- An id that is held was held by the same request before, or it is the next one. -/
theorem TokenMove.drawn (h : TokenMove cfg s gs signs s' gs') :
    ∃ i : Nat, ∀ {k j : Nat} {g' : TokenNote}, gs'[k]? = some g' → g'.drawn = some j →
      (∃ g, gs[k]? = some g ∧ g.drawn = some j) ∨ (k = i ∧ j = s.nextId ∧ s'.nextId = s.nextId + 1) := by
  cases h with
  | started call =>
    refine ⟨0, fun hk hj => ?_⟩
    obtain hk | rfl := Memo.getElem?_snoc_cases hk
    · exact .inl ⟨_, hk, hj⟩
    · simp at hj
  | stopped => exact ⟨0, fun hk hj => .inl ⟨_, hk, hj⟩⟩
  | deleted hrow => exact ⟨0, fun hk hj => .inl ⟨_, hk, hj⟩⟩
  | rested hi htokens hnext hstays hless =>
    refine ⟨0, fun hk hj => ?_⟩
    obtain ⟨rfl, rfl⟩ | ⟨-, hk⟩ := Memo.getElem?_set_cases hk
    · obtain ⟨hdrawn, -⟩ | ⟨hdrawn, -⟩ := hless
      · exact .inl ⟨_, hi, hdrawn.symm.trans hj⟩
      · cases hdrawn.symm.trans hj
    · exact .inl ⟨_, hk, hj⟩
  | @drew i g hi =>
    refine ⟨i, fun hk hj => ?_⟩
    obtain ⟨rfl, rfl⟩ | ⟨-, hk⟩ := Memo.getElem?_set_cases hk
    · exact .inr ⟨rfl, (Option.some_inj.1 hj).symm, rfl⟩
    · exact .inl ⟨_, hk, hj⟩
  | signedIn user hi | exchanged hi =>
    refine ⟨0, fun hk hj => ?_⟩
    obtain ⟨rfl, rfl⟩ | ⟨-, hk⟩ := Memo.getElem?_set_cases hk
    · exact .inl ⟨_, hi, hj⟩
    · exact .inl ⟨_, hk, hj⟩
  | issued hi =>
    refine ⟨0, fun hk hj => ?_⟩
    obtain ⟨rfl, rfl⟩ | ⟨-, hk⟩ := Memo.getElem?_set_cases hk
    · cases hj
    · exact .inl ⟨_, hk, hj⟩

/-- A row was there before, revoked if it was, or it is issued with an id that is held. -/
theorem TokenMove.rows (h : TokenMove cfg s gs signs s' gs') :
    ∀ row' ∈ s'.refreshTokens.docs,
      (∃ row ∈ s.refreshTokens.docs, row.token = row'.token ∧ row.id = row'.id ∧
        (row.revokedAt.isSome → row'.revokedAt.isSome)) ∨
      ∃ i g jwtid, gs[i]? = some g ∧ g.drawn = some jwtid ∧ TokenNote.Signs cfg jwtid row'.token ∧
        (∀ row ∈ s.refreshTokens.docs, row.token ≠ row'.token) ∧ s'.nextId = s.nextId ∧
        gs' = gs.set i { g with drawn := none, credit := none } ∧
        ∀ row ∈ s'.refreshTokens.docs, row = row' ∨ row ∈ s.refreshTokens.docs := by
  intro row' hrow'
  cases h with
  | issued hi hcredit hdrawn hsigns hfresh =>
    obtain hold | rfl := (mem_insert (h := rfl)).1 hrow'
    · exact .inl ⟨row', hold, rfl, rfl, id⟩
    · refine .inr ⟨_, _, _, hi, hdrawn, hsigns, hfresh, rfl, rfl, fun row hrow => ?_⟩
      exact ((mem_insert (h := rfl)).1 hrow).symm
  | exchanged hi =>
    obtain ⟨row, hrow, rfl⟩ := mem_modify.1 hrow'
    refine .inl ⟨row, hrow, ?_⟩
    split
    · exact ⟨rfl, rfl, fun _ => rfl⟩
    · exact ⟨rfl, rfl, id⟩
  | deleted hrow => exact .inl ⟨row', (mem_erase.1 hrow').1, rfl, rfl, id⟩
  | rested hi htokens | signedIn user hi htokens =>
    exact .inl ⟨row', htokens ▸ hrow', rfl, rfl, id⟩
  | _ => exact .inl ⟨row', hrow', rfl, rfl, id⟩

/-- A request that has exchanged a token had done so before, or it does so now. -/
theorem TokenMove.exchanges (h : TokenMove cfg s gs signs s' gs') :
    ∃ i : Nat, ∀ {k : Nat} {g' : TokenNote} {token : String}, gs'[k]? = some g' → g'.exchanged = true → g'.presents = some token →
      (∃ g, gs[k]? = some g ∧ g.exchanged = true ∧ g.presents = some token) ∨
      (k = i ∧ ∃ row now, row ∈ s.refreshTokens.docs ∧ row.token ∈ tokenLookup cfg token ∧
        row.revokedAt = none ∧ (cfg.jwt.verify token cfg.REFRESH_SECRET now).isSome ∧
        s'.refreshTokens = s.refreshTokens.update row.id (RefreshTokenRecord.revoke now)) := by
  cases h with
  | started call =>
    refine ⟨0, fun hk hx ht => ?_⟩
    obtain hk | rfl := Memo.getElem?_snoc_cases hk
    · exact .inl ⟨_, hk, hx, ht⟩
    · simp at hx
  | stopped => exact ⟨0, fun hk hx ht => .inl ⟨_, hk, hx, ht⟩⟩
  | deleted hrow => exact ⟨0, fun hk hx ht => .inl ⟨_, hk, hx, ht⟩⟩
  | rested hi htokens hnext hstays hless =>
    refine ⟨0, fun hk hx ht => ?_⟩
    obtain ⟨rfl, rfl⟩ | ⟨-, hk⟩ := Memo.getElem?_set_cases hk
    · exact .inl ⟨_, hi, hstays.2.symm.trans hx, hstays.1.symm.trans ht⟩
    · exact .inl ⟨_, hk, hx, ht⟩
  | drew hi | signedIn user hi | issued hi =>
    refine ⟨0, fun hk hx ht => ?_⟩
    obtain ⟨rfl, rfl⟩ | ⟨-, hk⟩ := Memo.getElem?_set_cases hk
    · exact .inl ⟨_, hi, hx, ht⟩
    · exact .inl ⟨_, hk, hx, ht⟩
  | @exchanged i g token now row hi hfirst hpresents hverify hrow htoken hunused =>
    refine ⟨i, fun hk hx ht => ?_⟩
    obtain ⟨rfl, rfl⟩ | ⟨-, hk⟩ := Memo.getElem?_set_cases hk
    · obtain rfl := Option.some_inj.1 (hpresents.symm.trans ht)
      exact .inr ⟨rfl, row, now, hrow, htoken, hunused, hverify, rfl⟩
    · exact .inl ⟨_, hk, hx, ht⟩

variable {digest : String}

theorem Minted.move (h : Minted cfg s gs digest) (hmove : TokenMove cfg s gs signs s' gs') :
    Minted cfg s' gs' digest := by
  obtain ⟨j, hsigns, hlt, hfree⟩ := h
  refine ⟨j, hsigns, hlt.trans_le hmove.nextId_le, fun g' hg' hj => ?_⟩
  obtain ⟨k, hk⟩ := List.mem_iff_getElem?.1 hg'
  obtain ⟨i, hdrawn⟩ := hmove.drawn
  obtain ⟨g, hg, hheld⟩ | ⟨-, rfl, -⟩ := hdrawn hk hj
  · exact hfree g (List.mem_of_getElem? hg) hheld
  · exact hlt.false

/-- A spent token stays spent: no request holds its id. -/
theorem Spent.move (h : Spent cfg s gs digest) (hcfg : cfg.Distinct)
    (hmove : TokenMove cfg s gs signs s' gs') : Spent cfg s' gs' digest := by
  obtain ⟨hminted, hrevoked⟩ := h
  refine ⟨hminted.move hmove, fun row' hrow' htoken => ?_⟩
  obtain ⟨row, hrow, hsame, -, hkeeps⟩ | ⟨i, g, j, hi, hdrawn, hsigns, -⟩ := hmove.rows row' hrow'
  · exact hkeeps (hrevoked row hrow (hsame.trans htoken))
  · obtain ⟨j', hsigns', -, hfree⟩ := hminted
    obtain rfl := hcfg.jwtid_eq (htoken ▸ hsigns) hsigns'
    exact (hfree g (List.mem_of_getElem? hi) hdrawn).elim

/-- The row of a token that verifies is found by its digest. -/
theorem Rotation.token_eq (h : Rotation cfg s gs) (hcfg : cfg.Distinct) {row : RefreshTokenRecord}
    (hrow : row ∈ s.refreshTokens.docs) {token : String} (htoken : row.token ∈ tokenLookup cfg token)
    {now : Time} (hverify : (cfg.jwt.verify token cfg.REFRESH_SECRET now).isSome) :
    row.token = cfg.sha256 token := by
  obtain heq | hraw := List.mem_pair.1 htoken
  · exact heq
  · obtain ⟨j, ⟨claims, expiry, secret, issuedAt, hdigest⟩, -⟩ := h.minted row hrow
    rw [← hraw, hdigest, hcfg.digest_invalid] at hverify
    cases hverify

theorem Rotation.move (h : Rotation cfg s gs) (hcfg : cfg.Distinct)
    (hmove : TokenMove cfg s gs signs s' gs') : Rotation cfg s' gs' := by
  obtain ⟨i₀, hdrawn⟩ := hmove.drawn
  obtain ⟨i₁, hexchanges⟩ := hmove.exchanges
  -- The exchange of this step spends the token.
  have hspent : ∀ {row : RefreshTokenRecord} {now : Time} {token : String}, row ∈ s.refreshTokens.docs → row.token ∈ tokenLookup cfg token →
      row.revokedAt = none → (cfg.jwt.verify token cfg.REFRESH_SECRET now).isSome →
      s'.refreshTokens = s.refreshTokens.update row.id (RefreshTokenRecord.revoke now) →
      Spent cfg s' gs' (cfg.sha256 token) := by
    intro row now token hrow htoken hunused hverify hupdate
    have hdigest := h.token_eq hcfg hrow htoken hverify
    refine ⟨hdigest ▸ (h.minted row hrow).move hmove, fun row' hrow' htoken' => ?_⟩
    rw [hupdate] at hrow'
    obtain ⟨old, hold, rfl⟩ := mem_modify.1 hrow'
    split
    · rfl
    · next hid =>
      rw [if_neg hid] at htoken'
      exact (hid (beq_iff_eq.2 (h.unique old hold row hrow (htoken'.trans hdigest.symm)))).elim
  constructor
  · intro k j g' hk hj
    obtain ⟨g, hg, hheld⟩ | ⟨-, rfl, hnext⟩ := hdrawn hk hj
    · exact (h.drawn_lt hg hheld).trans_le hmove.nextId_le
    · omega
  · intro k k' j g' h' hk hk' hj hj'
    obtain ⟨g, hg, hheld⟩ | ⟨rfl, rfl, -⟩ := hdrawn hk hj
    · obtain ⟨g₂, hg₂, hheld₂⟩ | ⟨-, rfl, -⟩ := hdrawn hk' hj'
      · exact h.drawn_once hg hg₂ hheld hheld₂
      · exact ((h.drawn_lt hg hheld).false).elim
    · obtain ⟨g₂, hg₂, hheld₂⟩ | ⟨rfl, -, -⟩ := hdrawn hk' hj'
      · exact ((h.drawn_lt hg₂ hheld₂).false).elim
      · rfl
  · intro row' hrow'
    obtain ⟨row, hrow, hsame, -⟩ | ⟨i, g, j, hi, hj, hsigns, -, hnext, rfl, -⟩ := hmove.rows row' hrow'
    · exact hsame ▸ (h.minted row hrow).move hmove
    · refine ⟨j, hsigns, hnext ▸ h.drawn_lt hi hj, fun g' hg' hj' => ?_⟩
      obtain ⟨k, hk⟩ := List.mem_iff_getElem?.1 hg'
      obtain ⟨rfl, rfl⟩ | ⟨hne, hk⟩ := Memo.getElem?_set_cases hk
      · cases hj'
      · exact hne (h.drawn_once hk hi hj' hj)
  · intro row₁ hrow₁ row₂ hrow₂ htoken
    obtain ⟨r₁, hr₁, hsame₁, hid₁, -⟩ | ⟨-, -, -, -, -, -, hnew₁, -, -, hrest₁⟩ := hmove.rows row₁ hrow₁
    · obtain ⟨r₂, hr₂, hsame₂, hid₂, -⟩ | ⟨-, -, -, -, -, -, hnew₂, -, -, -⟩ := hmove.rows row₂ hrow₂
      · exact hid₁.symm.trans ((h.unique r₁ hr₁ r₂ hr₂ (hsame₁.trans (htoken.trans hsame₂.symm))).trans hid₂)
      · exact (hnew₂ r₁ hr₁ (hsame₁.trans htoken)).elim
    · obtain rfl | hold := hrest₁ row₂ hrow₂
      · rfl
      · exact (hnew₁ row₂ hold htoken.symm).elim
  · intro k g' token hk hx ht
    obtain ⟨g, hg, hx, ht⟩ | ⟨-, row, now, hrow, htoken, hunused, hverify, hupdate⟩ := hexchanges hk hx ht
    · exact (h.spent hg hx ht).move hcfg hmove
    · exact hspent hrow htoken hunused hverify hupdate
  · intro k k' g' h' token hk hk' hx hx' ht ht'
    -- A token that was exchanged before is not exchanged now.
    have hnot : ∀ {k : Nat} {g : TokenNote} {row : RefreshTokenRecord} {now : Time}, gs[k]? = some g → g.exchanged = true → g.presents = some token →
        row ∈ s.refreshTokens.docs → row.token ∈ tokenLookup cfg token → row.revokedAt = none →
        (cfg.jwt.verify token cfg.REFRESH_SECRET now).isSome → False := by
      intro k g row now hg hx ht hrow htoken hunused hverify
      have hrevoked := (h.spent hg hx ht).2 row hrow (h.token_eq hcfg hrow htoken hverify)
      rw [hunused] at hrevoked
      cases hrevoked
    obtain ⟨g, hg, hxg, htg⟩ | ⟨rfl, row, now, hrow, htoken, hunused, hverify, -⟩ := hexchanges hk hx ht
    · obtain ⟨g₂, hg₂, hx₂, ht₂⟩ | ⟨-, row, now, hrow, htoken, hunused, hverify, -⟩ :=
        hexchanges hk' hx' ht'
      · exact h.once hg hg₂ hxg hx₂ htg ht₂
      · exact (hnot hg hxg htg hrow htoken hunused hverify).elim
    · obtain ⟨g₂, hg₂, hx₂, ht₂⟩ | ⟨rfl, -⟩ := hexchanges hk' hx' ht'
      · exact (hnot hg₂ hx₂ ht₂ hrow htoken hunused hverify).elim
      · rfl

end Moves

/-! ## Counting -/

/-- The refresh tokens of a user that are not revoked. -/
def unrevoked (s : AuthDb) (user : ObjectId) : Nat :=
  s.refreshTokens.sum fun row => if row.user = user ∧ row.revokedAt = none then 1 else 0

/-- The requests that may issue a refresh token for the user. -/
def credits (gs : List TokenNote) (user : ObjectId) : Nat := gs.countP (·.credit = some user)

/-- A changed note counts for the old one. -/
theorem credits_set {gs : List TokenNote} {i : Nat} {g : TokenNote} (hi : gs[i]? = some g)
    (g' : TokenNote) (user : ObjectId) :
    credits (gs.set i g') user + (if g.credit = some user then 1 else 0) =
      credits gs user + (if g'.credit = some user then 1 else 0) := by
  obtain ⟨hlt, rfl⟩ := List.getElem?_eq_some_iff.1 hi
  have hpos : gs[i].credit = some user → 0 < credits gs user := fun h =>
    List.countP_pos_iff.2 ⟨gs[i], List.getElem_mem hlt, by simpa using h⟩
  have hset : credits (gs.set i g') user = credits gs user -
      (if gs[i].credit = some user then 1 else 0) + if g'.credit = some user then 1 else 0 := by
    simp [credits, List.countP_set hlt]
  rw [hset]
  by_cases hold : gs[i].credit = some user
  · have := hpos hold
    rw [if_pos hold]
    omega
  · rw [if_neg hold]
    omega

/-- Only a sign-in adds to the tokens and the requests that may issue one. -/
theorem TokenMove.count {cfg : AuthConfig} {s s' : AuthDb} {gs gs' : List TokenNote}
    {signs : Option ObjectId} (h : TokenMove cfg s gs signs s' gs') (user : ObjectId) :
    unrevoked s' user + credits gs' user ≤
      unrevoked s user + credits gs user + if signs = some user then 1 else 0 := by
  cases h with
  | started call => simp [credits]
  | stopped => simp
  | @rested i g g' _ hi htokens hnext hstays hless =>
    have hset := credits_set hi g' user
    rw [unrevoked, htokens, ← unrevoked]
    obtain ⟨-, hcredit⟩ | ⟨-, hcredit⟩ := hless <;> rw [hcredit] at hset
    · omega
    · simp only [reduceCtorEq, if_false] at hset
      omega
  | @drew i g hi =>
    have hset := credits_set hi { g with drawn := some s.nextId } user
    simp only [unrevoked] at *
    omega
  | @signedIn i g _ user' hi htokens hnext =>
    have hset := credits_set hi { g with credit := some user' } user
    rw [unrevoked, htokens, ← unrevoked]
    dsimp only at hset
    omega
  | @issued i jwtid g draft hi hcredit hdrawn hsigns hfresh =>
    have hset := credits_set hi { g with drawn := none, credit := none } user
    have hrows : unrevoked { s with
        refreshTokens := s.refreshTokens.insert (draft.record s.refreshTokens.next) rfl } user =
        unrevoked s user + if draft.user = user then 1 else 0 := by
      simp [unrevoked, sum_insert, RefreshTokenDraft.record]
    rw [hrows]
    simp only [hcredit, Option.some.injEq, reduceCtorEq, if_false] at hset ⊢
    omega
  | @exchanged i g token now row hi hfirst hpresents hverify hrow htoken hunused =>
    have hset := credits_set hi { g with credit := some row.user, exchanged := true } user
    have hrows : unrevoked { s with
        refreshTokens := s.refreshTokens.update row.id (RefreshTokenRecord.revoke now) } user +
        (if row.user = user then 1 else 0) = unrevoked s user := by
      have hget : s.refreshTokens.get? row.id = some row := get?_eq_some.2 ⟨hrow, rfl⟩
      have hsum := sum_update hget (RefreshTokenRecord.revoke now)
        fun row => if row.user = user ∧ row.revokedAt = none then 1 else 0
      simpa [unrevoked, hunused, RefreshTokenRecord.revoke] using hsum
    simp only [Option.some.injEq, reduceCtorEq, if_false] at hset ⊢
    omega
  | @deleted row hrow =>
    have hget : s.refreshTokens.get? row.id = some row := get?_eq_some.2 ⟨hrow, rfl⟩
    have hrows := sum_erase hget fun row => if row.user = user ∧ row.revokedAt = none then 1 else 0
    simp only [unrevoked] at *
    omega

/-- The sign-ins of a user along a schedule. -/
def signIns (cfg : AuthConfig) (c : AuthPool) (as : List (Action AuthCall)) (user : ObjectId) : Nat :=
  (authServer cfg).tally (signsIn user) c as

/-! ## Runs -/

/-- The notes of a pool, the invariant of its tokens, and how many of them there are. -/
def Accounted (cfg : AuthConfig) (c : AuthPool) (as : List (Action AuthCall)) (d : AuthPool) : Prop :=
  ∃ gs, Noted cfg d gs ∧ Rotation cfg d.state gs ∧
    ∀ user, unrevoked d.state user + credits gs user ≤ signIns cfg c as user

section Runs

variable {cfg : AuthConfig} {c d : AuthPool} {as : List (Action AuthCall)}

theorem run_accounted (hcfg : cfg.Distinct) (hthreads : c.threads = [])
    (hempty : c.state.refreshTokens.docs = [])
    (hrun : (authServer cfg).Run (fun _ _ => True) c as d) : Accounted cfg c as d := by
  refine hrun.induct (P := Accounted cfg c) ?_ ?_
  · have hrotation : Rotation cfg c.state [] := by
      constructor <;> simp [hempty]
    refine ⟨[], ?_, hrotation, fun user => ?_⟩
    · rw [Noted, Memo.Minutes, hthreads]
      exact .nil
    · simp [unrevoked, sum, hempty, credits]
  · rintro as d a e hrun - hs ⟨gs, hnoted, hrotation, hcount⟩
    obtain ⟨signs, gs', hnoted', hmove, hsigns⟩ := hnoted.step hs
    refine ⟨gs', hnoted', hrotation.move hcfg hmove, fun user => ?_⟩
    have hstep := hmove.count user
    have hbefore := hcount user
    rw [signIns, hrun.tally_snoc hs]
    by_cases huser : signs = some user
    · rw [if_pos huser] at hstep
      rw [hsigns user huser, Bool.toNat_true]
      exact hstep.trans (Nat.add_le_add_right hbefore 1)
    · rw [if_neg huser] at hstep
      exact hstep.trans (hbefore.trans (Nat.le_add_right _ _))

/-- The request is about to exchange the token, and the database will take the row for it. -/
def Exchanges (cfg : AuthConfig) (c : AuthPool) (i : Nat) (token : String) (now : Time)
    (row : RefreshTokenRecord) : Prop :=
  c.head? i = some (.refreshConsume (tokenLookup cfg token) now) ∧
    c.state.refreshTokens.docs.find? (fun r =>
      (tokenLookup cfg token).contains r.token && r.revokedAt.isNone && decide (now < r.expiresAt)) =
        some row

/-- Only a token that verifies is looked up, and its row is found by its digest. -/
theorem Exchanges.found {gs : List TokenNote} (hcfg : cfg.Distinct) (hnoted : Noted cfg c gs)
    (hrotation : Rotation cfg c.state gs) {i : Nat} {token : String} {now : Time}
    {row : RefreshTokenRecord} (h : Exchanges cfg c i token now row) :
    row ∈ c.state.refreshTokens.docs ∧ row.token = cfg.sha256 token ∧ row.revokedAt = none ∧
      now < row.expiresAt := by
  obtain ⟨hhead, hfind⟩ := h
  have hfound := List.find?_some hfind
  simp only [Bool.and_eq_true, List.contains_iff_mem, Option.isNone_iff_eq_none,
    decide_eq_true_eq] at hfound
  have hrow := List.mem_of_find?_eq_some hfind
  obtain ⟨g, -, -, token', -, hlookup, hverify⟩ := hnoted.head hhead
  obtain ⟨-, rfl⟩ : cfg.sha256 token = cfg.sha256 token' ∧ token = token' := by
    simpa [tokenLookup] using hlookup
  exact ⟨hrow, hrotation.token_eq hcfg hrow hfound.1.1 hverify, hfound.1.2, hfound.2⟩

/-- A spent token is exchanged at no later point of a run. -/
theorem Spent.not_exchanged {gs : List TokenNote} {e : AuthPool} (hcfg : cfg.Distinct)
    (hnoted : Noted cfg c gs) (hrotation : Rotation cfg c.state gs) {token : String}
    (hspent : Spent cfg c.state gs (cfg.sha256 token))
    (hrun : (authServer cfg).Run (fun _ _ => True) c as e) {i : Nat} {now : Time}
    {row : RefreshTokenRecord} : ¬ Exchanges cfg e i token now row := by
  obtain ⟨gs', hnoted', hrotation', hspent'⟩ : ∃ gs, Noted cfg e gs ∧ Rotation cfg e.state gs ∧
      Spent cfg e.state gs (cfg.sha256 token) := by
    refine hrun.invariant (P := fun c => ∃ gs, Noted cfg c gs ∧ Rotation cfg c.state gs ∧
      Spent cfg c.state gs (cfg.sha256 token)) ?_ ⟨gs, hnoted, hrotation, hspent⟩
    rintro c a d - hs ⟨gs, hnoted, hrotation, hspent⟩
    obtain ⟨signs, gs', hnoted', hmove, -⟩ := hnoted.step hs
    exact ⟨gs', hnoted', hrotation.move hcfg hmove, hspent.move hcfg hmove⟩
  intro h
  obtain ⟨hrow, hdigest, hunused, -⟩ := h.found hcfg hnoted' hrotation'
  have hrevoked := hspent'.2 row hrow hdigest
  rw [hunused] at hrevoked
  cases hrevoked

/-- Along every run from no refresh tokens, with steps and failures in any order: a token is exchanged
by one request at most, only as long as its row is there, unrevoked and not expired, and never again
after a logout has deleted its row; and a user has no more unrevoked refresh tokens than sign-ins. -/
theorem refresh_rotates (hcfg : cfg.Distinct) (hthreads : c.threads = [])
    (hempty : c.state.refreshTokens.docs = [])
    (hrun : (authServer cfg).Run (fun _ _ => True) c as d) :
    (∀ (token : String) (i i' : Nat) (now now' : Time) (pair pair' : AuthReply),
      d.threads[i]? = some ⟨.refresh token now, .done (.ok pair)⟩ →
      d.threads[i']? = some ⟨.refresh token now', .done (.ok pair')⟩ → i = i') ∧
    (∀ token i now row, Exchanges cfg d i token now row →
      row ∈ d.state.refreshTokens.docs ∧ row.token = cfg.sha256 token ∧ row.revokedAt = none ∧
        now < row.expiresAt) ∧
    (∀ token a d' bs e, (authServer cfg).step d a = some d' →
      (∃ row ∈ d.state.refreshTokens.docs, row.token = cfg.sha256 token) →
      (∀ row ∈ d'.state.refreshTokens.docs, row.token ≠ cfg.sha256 token) →
      (authServer cfg).Run (fun _ _ => True) d' bs e →
      ∀ i now row, ¬ Exchanges cfg e i token now row) ∧
    ∀ user, unrevoked d.state user ≤ signIns cfg c as user := by
  obtain ⟨gs, hnoted, hrotation, hcount⟩ := run_accounted hcfg hthreads hempty hrun
  refine ⟨?_, ?_, ?_, fun user => (Nat.le_add_right _ _).trans (hcount user)⟩
  · intro token i i' now now' pair pair' hi hi'
    obtain ⟨g, hg, hexchanged, hpresents⟩ := hnoted.memo hi
    obtain ⟨g', hg', hexchanged', hpresents'⟩ := hnoted.memo hi'
    exact hrotation.once hg hg' hexchanged hexchanged' hpresents hpresents'
  · exact fun token i now row h => h.found hcfg hnoted hrotation
  · rintro token a d' bs e hs ⟨row, hrow, hdigest⟩ hgone hrest i now row'
    obtain ⟨signs, gs', hnoted', hmove, -⟩ := hnoted.step hs
    have hminted : Minted cfg d'.state gs' (cfg.sha256 token) :=
      hdigest ▸ (hrotation.minted row hrow).move hmove
    exact Spent.not_exchanged hcfg hnoted' (hrotation.move hcfg hmove)
      ⟨hminted, fun row hrow h => (hgone row hrow h).elim⟩ hrest

end Runs

/-! ## A race to try -/

/-- Digests in which no token can be read. -/
def rotationConfig : AuthConfig :=
  { sampleAuthConfig with
    sha256 := fun text => String.ofList (text.toList.map fun c => if c = 'k' then 'K' else c) }

theorem rotationConfig_distinct : rotationConfig.Distinct := by
  constructor
  · rintro j j' _ ⟨claims, expiry, secret, now, rfl⟩ ⟨claims', expiry', secret', now', h⟩
    have hcount := congrArg (fun digest => digest.toList.count 'j') h
    simpa [rotationConfig, sampleAuthConfig, spellToken, List.count_replicate] using hcount
  · intro text now
    have hzero : (text.toList.map fun c => if c = 'k' then 'K' else c).count 'k' = 0 := by
      refine List.count_eq_zero.2 fun hmem => ?_
      obtain ⟨c, -, hc⟩ := List.mem_map.1 hmem
      split at hc
      · cases hc
      · next hne => exact hne hc
    have hverify : rotationConfig.jwt.verify = readToken := rfl
    have hsecret : rotationConfig.REFRESH_SECRET = "rr" := rfl
    have hdigest : (rotationConfig.sha256 text).toList = text.toList.map fun c => if c = 'k' then 'K' else c :=
      String.toList_ofList
    rw [hverify, hsecret, readToken, hdigest, hzero]
    exact if_neg fun h => absurd h.1 (by decide)

/-- The refresh token of the sign-in. -/
def sampleRefreshToken : String :=
  spellToken (tokenPayload sampleAccount (some 0) .refresh) 20 "rr" 0 1

/-- A sign-in, and two requests that exchange its refresh token at once. -/
def refreshRace : List (Action AuthCall) :=
  [.spawn (sampleSignIn 0)] ++ List.replicate 8 (.act 0) ++
    [.spawn (.refresh sampleRefreshToken 1), .spawn (.refresh sampleRefreshToken 1), .act 1, .act 2] ++
    List.replicate 6 (.act 1)

/-- One of the two gets tokens, and the user is left with one refresh token. -/
theorem refresh_rotates_race :
    ∃ d, (authServer rotationConfig).Run (fun _ _ => True) sampleAuthPool refreshRace d ∧
      (∃ pair, d.threads[1]? = some ⟨.refresh sampleRefreshToken 1, .done (.ok pair)⟩) ∧
      (∀ pair, d.threads[2]? ≠ some ⟨.refresh sampleRefreshToken 1, .done (.ok pair)⟩) ∧
      unrevoked d.state 0 = 1 ∧ 1 ≤ signIns rotationConfig sampleAuthPool refreshRace 0 := by
  obtain ⟨d, hplay, h⟩ := (Option.any_eq_true _ _).1 (by decide +kernel :
    ((authServer rotationConfig).play (fun _ _ => true) sampleAuthPool refreshRace).any fun d =>
      decide (unrevoked d.state 0 = 1) && d.threads[1]?.any fun t =>
        decide (t.label = .refresh sampleRefreshToken 1) && t.prog.result?.any Except.isOk)
  simp only [Bool.and_eq_true, decide_eq_true_eq] at h
  obtain ⟨hone, h⟩ := h
  obtain ⟨⟨l, p⟩, ht, h⟩ := (Option.any_eq_true _ _).1 h
  simp only [Bool.and_eq_true, decide_eq_true_eq] at h
  obtain ⟨rfl, h⟩ := h
  obtain ⟨r, hr, hok⟩ := (Option.any_eq_true _ _).1 h
  have hrun := (System.Run.of_play hplay).mono fun _ _ _ => trivial
  obtain ⟨honce, -, -, hcount⟩ := refresh_rotates rotationConfig_distinct rfl rfl hrun
  obtain ⟨pair, hfirst⟩ : ∃ pair,
      d.threads[1]? = some ⟨.refresh sampleRefreshToken 1, .done (.ok pair)⟩ := by
    cases p with
    | call o k => cases hr
    | done r' =>
      obtain rfl := Option.some_inj.1 hr
      cases r' with
      | error e => cases hok
      | ok pair => exact ⟨pair, ht⟩
  refine ⟨d, hrun, ⟨pair, hfirst⟩, fun pair' hsecond => ?_, hone, hone ▸ hcount 0⟩
  exact absurd (honce sampleRefreshToken 1 2 1 1 pair pair' hfirst hsecond) (by decide)

end Ecommerce
