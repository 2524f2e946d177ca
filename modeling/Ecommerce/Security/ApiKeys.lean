import Ecommerce.Effect.Distinct
import Ecommerce.Effect.Noted
import Ecommerce.Model.ApiKeys

/-!
# What an API key opens

Administrators create and list keys while integrations call with keys. A call gets through only with a key
that was there or that an administrator has created, in the tenant of that administrator, with the
scopes that were asked for.
-/

namespace Ecommerce

open Effect Effect.Collection

/-! ## Keys and requests -/

/-- The same key, used at another time maybe. -/
def ApiKey.SameGrant (k l : ApiKey) : Prop := l = { k with lastUsedAt := l.lastUsedAt }

theorem ApiKey.SameGrant.refl (k : ApiKey) : k.SameGrant k := rfl

theorem ApiKey.SameGrant.trans {k l m : ApiKey} (h : k.SameGrant l) (h' : l.SameGrant m) : k.SameGrant m := by
  unfold ApiKey.SameGrant at h h' ⊢
  rw [h', h]

theorem ApiKey.sameGrant_used (now : Time) (k : ApiKey) : k.SameGrant ((ApiKey.used now).run k) := rfl

/-- A request has created the key, from random bytes that it has drawn. -/
def ApiKey.MadeBy (cfg : ApiKeyConfig) (drawn : ApiKeyRequest → Nat → Prop) (k : ApiKey) : Prop :=
  ∃ user bytes, drawn (.create k.tenant user k.name k.scopes k.expiresAt) bytes ∧ k.createdBy = some user ∧
    k.status = .active ∧ k.keyHash = hashApiKeyValue cfg (createApiKeyValue cfg bytes)

theorem ApiKey.MadeBy.mono {cfg : ApiKeyConfig} {drawn drawn' : ApiKeyRequest → Nat → Prop} {k : ApiKey}
    (h : k.MadeBy cfg drawn) (hmore : ∀ request bytes, drawn request bytes → drawn' request bytes) :
    k.MadeBy cfg drawn' := by
  obtain ⟨user, bytes, hdrawn, h⟩ := h
  exact ⟨user, bytes, hmore _ _ hdrawn, h⟩

theorem ApiKey.MadeBy.used {cfg : ApiKeyConfig} {drawn : ApiKeyRequest → Nat → Prop} {k l : ApiKey}
    (h : k.MadeBy cfg drawn) (hsame : k.SameGrant l) : l.MadeBy cfg drawn := by
  rw [hsame]
  exact h

/-- The key was there at the start or a request has created it. -/
def ApiKeyDb.Origin (cfg : ApiKeyConfig) (drawn : ApiKeyRequest → Nat → Prop) (start : ApiKeyDb) (k : ApiKey) :
    Prop :=
  (∃ l ∈ start.apiKeys.docs, l.SameGrant k) ∨ k.MadeBy cfg drawn

/-- What the answer of a request says. -/
def ApiKeyRequest.Answered (cfg : ApiKeyConfig) (drawn : ApiKeyRequest → Nat → Prop) (start s : ApiKeyDb) :
    ApiKeyRequest → ApiKeyResponse → Prop
  | .integration requiredScopes rawKey now, .authorized apiKey tenant =>
    tenant = apiKey.tenant ∧ apiKey.status = .active ∧
      (∃ raw, rawKey = some raw ∧ apiKey.keyHash = hashApiKeyValue cfg raw) ∧
      (∀ scope ∈ requiredScopes, scope ∈ apiKey.scopes) ∧
      (∀ expiresAt, apiKey.expiresAt = some expiresAt → now ≤ expiresAt) ∧ start.Origin cfg drawn apiKey
  | .create tenant user name scopes expiresAt, .created id key scopes' =>
    scopes' = scopes ∧ ∃ k, s.apiKeys.get? id = some k ∧ k.keyHash = hashApiKeyValue cfg key ∧
      k.tenant = tenant ∧ k.name = name ∧ k.scopes = scopes ∧ k.expiresAt = expiresAt ∧ k.createdBy = some user
  | .list tenant, .listed keys => ∀ k ∈ keys, k.tenant = tenant
  | _, _ => False

namespace ApiKeyDb

/-- Every key is still there, and is what it was but for its last use. -/
def Keeps (s t : ApiKeyDb) : Prop :=
  ∀ id k, s.apiKeys.get? id = some k → ∃ l, t.apiKeys.get? id = some l ∧ k.SameGrant l

theorem Keeps.refl (s : ApiKeyDb) : s.Keeps s := fun _ k h => ⟨k, h, .refl k⟩

theorem Keeps.trans {s t u : ApiKeyDb} (hst : s.Keeps t) (htu : t.Keeps u) : s.Keeps u := by
  intro id k hk
  obtain ⟨l, hl, hkl⟩ := hst id k hk
  obtain ⟨m, hm, hlm⟩ := htu id l hl
  exact ⟨m, hm, hkl.trans hlm⟩

/-- No two keys have one hash, and none is lost. -/
structure Sound (start s : ApiKeyDb) : Prop where
  hashes : s.apiKeys.DistinctBy ApiKey.keyHash
  kept : start.Keeps s

/-- And none comes from nowhere. -/
structure Issued (cfg : ApiKeyConfig) (drawn : ApiKeyRequest → Nat → Prop) (start s : ApiKeyDb) : Prop
    extends start.Sound s where
  origin : ∀ k ∈ s.apiKeys.docs, start.Origin cfg drawn k

variable {cfg : ApiKeyConfig} {drawn drawn' : ApiKeyRequest → Nat → Prop} {start : ApiKeyDb}

theorem Origin.mono {k : ApiKey} (h : start.Origin cfg drawn k)
    (hmore : ∀ request bytes, drawn request bytes → drawn' request bytes) : start.Origin cfg drawn' k :=
  h.imp_right fun h => h.mono hmore

theorem Origin.used {k l : ApiKey} (h : start.Origin cfg drawn k) (hsame : k.SameGrant l) :
    start.Origin cfg drawn l := by
  obtain ⟨m, hm, hmk⟩ | hmade := h
  · exact .inl ⟨m, hm, hmk.trans hsame⟩
  · exact .inr (hmade.used hsame)

end ApiKeyDb

/-! ## What a request has found -/

/-- The bytes that a request has drawn, and the replies to its calls. -/
structure ApiKeyNote where
  drawn : Option Nat
  found : Option (String × ApiKey)
  made : Option (ApiKeyDraft × ApiKey)
  listed : Option (String × List ApiKey)

namespace ApiKeyNote

/-- A request that has not begun. -/
def start : ApiKeyNote := ⟨none, none, none, none⟩

def note : (o : ApiKeyOp) → Except ApiError o.Reply → ApiKeyNote → ApiKeyNote
  | .randomBytes, .ok (bytes : Nat), g => { g with drawn := some bytes }
  | .apiKeyFindOne keyHash, .ok (some (k : ApiKey)), g => { g with found := some (keyHash, k) }
  | .apiKeyCreate draft, .ok (k : ApiKey), g => { g with made := some (draft, k) }
  | .apiKeyFind tenant, .ok (keys : List ApiKey), g => { g with listed := some (tenant, keys) }
  | _, _, g => g

/-- A request creates a key from the bytes that it has drawn. -/
def may (cfg : ApiKeyConfig) : ApiKeyOp → ApiKeyNote → Prop
  | .apiKeyCreate draft, g =>
    ∃ bytes, g.drawn = some bytes ∧ draft.keyHash = hashApiKeyValue cfg (createApiKeyValue cfg bytes)
  | _, _ => True

/-- What the note says of the keys. -/
structure Backed (g : ApiKeyNote) (s : ApiKeyDb) : Prop where
  found : ∀ keyHash k, g.found = some (keyHash, k) → k.keyHash = keyHash ∧ k.status = .active ∧
    ∃ l, s.apiKeys.get? k.id = some l ∧ k.SameGrant l
  made : ∀ draft k, g.made = some (draft, k) → k = draft.record k.id ∧
    ∃ l, s.apiKeys.get? k.id = some l ∧ k.SameGrant l
  listed : ∀ tenant keys, g.listed = some (tenant, keys) → ∀ k ∈ keys, k.tenant = tenant

variable {s t : ApiKeyDb} {g : ApiKeyNote}

theorem Backed.grow (h : g.Backed s) (hkeeps : s.Keeps t) : g.Backed t where
  found keyHash k hk := by
    obtain ⟨hhash, hactive, l, hl, hsame⟩ := h.found keyHash k hk
    obtain ⟨m, hm, hlm⟩ := hkeeps k.id l hl
    exact ⟨hhash, hactive, m, hm, hsame.trans hlm⟩
  made draft k hk := by
    obtain ⟨hrecord, l, hl, hsame⟩ := h.made draft k hk
    obtain ⟨m, hm, hlm⟩ := hkeeps k.id l hl
    exact ⟨hrecord, m, hm, hsame.trans hlm⟩
  listed := h.listed

end ApiKeyNote

def apiKeyMemo (cfg : ApiKeyConfig) : Memo ApiKeyOps ApiError ApiKeyNote where
  note := ApiKeyNote.note
  may := ApiKeyNote.may cfg
  allows _ _ := True

/-- What a request answers, by what it has found. -/
def ApiKeyRequest.Ends (cfg : ApiKeyConfig) (request : ApiKeyRequest) :
    Except ApiError ApiKeyResponse → ApiKeyNote → Prop
  | .ok response, g => match request, response with
    | .integration requiredScopes rawKey now, .authorized apiKey tenant =>
      ∃ raw k, rawKey = some raw ∧ g.found = some (hashApiKeyValue cfg raw, k) ∧
        apiKey = (ApiKey.used now).run k ∧ tenant = k.tenant ∧
        (∀ scope ∈ requiredScopes, scope ∈ k.scopes) ∧ ∀ expiresAt, k.expiresAt = some expiresAt → now ≤ expiresAt
    | .create tenant user name scopes expiresAt, .created id key scopes' =>
      ∃ k, g.made = some (⟨name, tenant, scopes, user, expiresAt, hashApiKeyValue cfg key⟩, k) ∧
        id = k.id ∧ scopes' = k.scopes
    | .list tenant, .listed keys => ∃ found, g.listed = some (tenant, found) ∧ keys = found.map ApiKey.listed
    | _, _ => False
  | .error _, _ => True

/-! ## Programs -/

section Tracks

variable (cfg : ApiKeyConfig)

theorem create_tracks (tenant : String) (user : ObjectId) (name : String) (scopes : List String)
    (expiresAt : Option Time) :
    (apiKeyMemo cfg).Tracks (ApiKeyRequest.Ends cfg (.create tenant user name scopes expiresAt))
      ((ApiKeyRequest.create tenant user name scopes expiresAt).code cfg) .start := by
  refine ⟨trivial, fun r _ => ?_⟩
  cases r with
  | error e => trivial
  | ok bytes =>
    refine ⟨⟨bytes, rfl, rfl⟩, fun r _ => ?_⟩
    cases r with
    | error e => trivial
    | ok k => exact ⟨k, rfl, rfl, rfl⟩

theorem integration_tracks (requiredScopes : List String) (rawKey : Option String) (now : Time) :
    (apiKeyMemo cfg).Tracks (ApiKeyRequest.Ends cfg (.integration requiredScopes rawKey now))
      ((ApiKeyRequest.integration requiredScopes rawKey now).code cfg) .start := by
  show (apiKeyMemo cfg).Tracks _ (Prog.bind (apiKeyAuth cfg requiredScopes rawKey now) _) _
  unfold apiKeyAuth
  split
  · trivial
  next raw hraw =>
  have hkey : rawKey = some raw := (Option.filter_eq_some_iff.1 hraw).1
  refine ⟨trivial, fun r _ => ?_⟩
  obtain e | (_ | k) := r
  · trivial
  · trivial
  refine Memo.Tracks.bind (Memo.Tracks.done_bind ?_)
  dsimp only
  split
  · trivial
  next hexpires =>
  split
  · next hscopes =>
    refine ⟨trivial, fun r _ => ?_⟩
    cases r with
    | error e => trivial
    | ok saved =>
      refine ⟨raw, k, hkey, rfl, rfl, rfl, fun scope hscope => ?_, fun expiresAt hk => ?_⟩
      · simpa using List.all_eq_true.1 hscopes scope hscope
      · simpa [hk] using hexpires
  · trivial

theorem ApiKeyRequest.tracks (request : ApiKeyRequest) :
    (apiKeyMemo cfg).Tracks (request.Ends cfg) (request.code cfg) .start := by
  cases request with
  | create tenant user name scopes expiresAt => exact create_tracks cfg tenant user name scopes expiresAt
  | integration requiredScopes rawKey now => exact integration_tracks cfg requiredScopes rawKey now
  | list tenant =>
    refine ⟨trivial, fun r _ => ?_⟩
    cases r with
    | error e => trivial
    | ok keys => exact ⟨keys, rfl, rfl⟩

/-- A request creates the key that it was asked for. -/
def ApiKeyOp.Of (request : ApiKeyRequest) : ApiKeyOp → Prop
  | .apiKeyCreate draft =>
    request = .create draft.tenant draft.createdBy draft.name draft.scopes draft.expiresAt
  | _ => True

theorem ApiKeyRequest.issues (request : ApiKeyRequest) : (request.code cfg).Issues (ApiKeyOp.Of request) := by
  cases request with
  | create tenant user name scopes expiresAt =>
    refine Prog.Issues.bind ((Prog.issues_perform trivial).bind fun bytes => ?_) fun _ => trivial
    exact Prog.Issues.bind (Prog.issues_perform rfl) fun _ => trivial
  | integration requiredScopes rawKey now =>
    refine Prog.Issues.bind ?_ fun _ => trivial
    unfold apiKeyAuth
    split
    · trivial
    refine (Prog.issues_perform trivial).bind fun found => ?_
    split
    · trivial
    split
    · trivial
    split
    · exact (Prog.issues_perform trivial).bind fun _ => trivial
    · trivial
  | list tenant => exact (Prog.issues_perform trivial).bind fun _ => trivial

end Tracks

/-! ## Calls -/

section Calls

variable {cfg : ApiKeyConfig} {drawn : ApiKeyRequest → Nat → Prop} {start s : ApiKeyDb} {g : ApiKeyNote}

theorem exec_keeps (o : ApiKeyOp) (s : ApiKeyDb) : s.Keeps (apiKeyMachine.exec o s).2 := by
  cases o with
  | apiKeyCreate draft =>
    simp only [apiKeyMachine, ApiKeyOp.exec]
    split
    · exact .refl s
    · intro id k hk
      exact ⟨k, (get?_insert _ _ rfl _).trans ((if_neg (get?_lt hk).ne).trans hk), .refl k⟩
  | apiKeySave id now =>
    intro i k hk
    show ∃ l, (s.apiKeys.update id _).get? i = some l ∧ _
    rw [get?_update, hk]
    split
    · exact ⟨_, rfl, k.sameGrant_used now⟩
    · exact ⟨k, rfl, .refl k⟩
  | _ => exact .refl s

theorem exec_keysSound (o : ApiKeyOp) (hs : start.Sound s) : start.Sound (apiKeyMachine.exec o s).2 := by
  refine ⟨?_, hs.kept.trans (exec_keeps o s)⟩
  cases o with
  | apiKeyCreate draft =>
    simp only [apiKeyMachine, ApiKeyOp.exec]
    split
    · exact hs.hashes
    · next hfresh =>
      refine hs.hashes.insert rfl fun k hk heq => hfresh ?_
      exact List.any_eq_true.2 ⟨k, hk, beq_iff_eq.2 heq⟩
  | apiKeySave id now => exact hs.hashes.modify fun _ => rfl
  | _ => exact hs.hashes

/-- A key after a call was there before, or the call has created it. -/
theorem mem_exec {o : ApiKeyOp} {k : ApiKey} (h : k ∈ (apiKeyMachine.exec o s).2.apiKeys.docs) :
    (∃ l ∈ s.apiKeys.docs, l.SameGrant k) ∨
      ∃ draft, o = .apiKeyCreate draft ∧ k = draft.record s.apiKeys.next := by
  cases o with
  | apiKeyCreate draft =>
    simp only [apiKeyMachine, ApiKeyOp.exec] at h
    split at h
    · exact .inl ⟨k, h, .refl k⟩
    · rcases (mem_insert (h := rfl)).1 h with h | rfl
      · exact .inl ⟨k, h, .refl k⟩
      · exact .inr ⟨draft, rfl, rfl⟩
  | apiKeySave id now =>
    obtain ⟨l, hl, rfl⟩ := mem_modify.1 h
    refine .inl ⟨l, hl, ?_⟩
    split
    · exact l.sameGrant_used now
    · exact .refl l
  | _ => exact .inl ⟨k, h, .refl k⟩

/-- What is noted is so. -/
theorem exec_noteBacked (o : ApiKeyOp) (hg : g.Backed s) :
    (ApiKeyNote.note o (apiKeyMachine.exec o s).1 g).Backed (apiKeyMachine.exec o s).2 := by
  have hnext := hg.grow (exec_keeps o s)
  cases o with
  | randomBytes => exact ⟨hg.found, hg.made, hg.listed⟩
  | apiKeyCreate draft =>
    simp only [apiKeyMachine, ApiKeyOp.exec] at hnext ⊢
    split
    · exact hg
    · next hfresh =>
      rw [if_neg hfresh] at hnext
      refine ⟨hnext.found, ?_, hnext.listed⟩
      rintro draft' k ⟨⟩
      exact ⟨rfl, _, get?_insert_next _ _ rfl, .refl _⟩
  | apiKeyFindOne keyHash =>
    simp only [apiKeyMachine, ApiKeyOp.exec]
    cases hfind : s.apiKeys.docs.find? fun k => k.keyHash == keyHash && k.status == .active with
    | none => exact hg
    | some k =>
      refine ⟨?_, hg.made, hg.listed⟩
      rintro keyHash' k' ⟨⟩
      have hcond := List.find?_some hfind
      rw [Bool.and_eq_true, beq_iff_eq, beq_iff_eq] at hcond
      exact ⟨hcond.1, hcond.2, k, get?_eq_some.2 ⟨List.mem_of_find?_eq_some hfind, rfl⟩, .refl k⟩
  | apiKeySave id now => exact hnext
  | apiKeyFind tenant =>
    refine ⟨hg.found, hg.made, ?_⟩
    rintro tenant' keys ⟨⟩ k hk
    simpa using (List.mem_filter.1 hk).2

/-- A call that fails leaves the note as it is. -/
theorem apiKeyMemo_note_error (o : ApiKeyOp) (e : ApiError) (g : ApiKeyNote) :
    (apiKeyMemo cfg).note o (.error e) g = g := by
  cases o <;> rfl

/-- A request's answer is what its note says, and the note is so. -/
theorem answered_of_ends {request : ApiKeyRequest} {response : ApiKeyResponse} (hg : g.Backed s)
    (hs : start.Issued cfg drawn s) (hends : request.Ends cfg (.ok response) g) :
    request.Answered cfg drawn start s response := by
  cases request with
  | integration requiredScopes rawKey now =>
    cases response with
    | authorized apiKey tenant =>
      obtain ⟨raw, k, hraw, hfound, rfl, rfl, hscopes, hexpires⟩ := hends
      obtain ⟨hhash, hactive, l, hl, hsame⟩ := hg.found _ k hfound
      have horigin := hs.origin l (get?_eq_some.1 hl).1
      have hback : l.SameGrant ((ApiKey.used now).run k) := by
        rw [hsame]
        rfl
      exact ⟨rfl, hactive, ⟨raw, hraw, hhash⟩, hscopes, hexpires, horigin.used hback⟩
    | _ => exact hends.elim
  | create tenant user name scopes expiresAt =>
    cases response with
    | created id key scopes' =>
      obtain ⟨k, hmade, rfl, rfl⟩ := hends
      obtain ⟨hrecord, l, hl, hsame⟩ := hg.made _ k hmade
      rw [hrecord] at hsame
      rw [hsame] at hl
      exact ⟨congrArg ApiKey.scopes hrecord, _, hl, rfl, rfl, rfl, rfl, rfl, rfl⟩
    | _ => exact hends.elim
  | list tenant =>
    cases response with
    | listed keys =>
      obtain ⟨found, hlisted, rfl⟩ := hends
      intro k hk
      obtain ⟨l, hl, rfl⟩ := List.mem_map.1 hk
      exact hg.listed tenant found hlisted l hl
    | _ => exact hends.elim

end Calls

/-! ## Runs -/

section Runs

variable {cfg : ApiKeyConfig} {admits : ApiKeyPool → Action ApiKeyRequest → Prop} {start c d : ApiKeyPool}
variable {as : List (Action ApiKeyRequest)}

/-- The request has drawn the bytes with a call of its own. -/
def DrawnIn (cfg : ApiKeyConfig) (admits : ApiKeyPool → Action ApiKeyRequest → Prop) (start : ApiKeyPool)
    (as : List (Action ApiKeyRequest)) (request : ApiKeyRequest) (bytes : Nat) : Prop :=
  ∃ n i p e, (apiKeyServer cfg).CallsAt admits start as n i .randomBytes ∧
    (apiKeyServer cfg).Run admits start (as.take n) e ∧ e.threads[i]? = some ⟨request, p⟩ ∧
    e.state.nextBytes = bytes

theorem DrawnIn.append {request : ApiKeyRequest} {bytes : Nat} (h : DrawnIn cfg admits start as request bytes)
    (bs : List (Action ApiKeyRequest)) : DrawnIn cfg admits start (as ++ bs) request bytes := by
  obtain ⟨n, i, p, e, hcall, hrun, h⟩ := h
  refine ⟨n, i, p, e, hcall.append bs, ?_, h⟩
  rwa [List.take_append_of_le_length hcall.lt.le]

theorem note_drawn {o : ApiKeyOp} (ho : o ≠ .randomBytes) (r : Except ApiError o.Reply) (g : ApiKeyNote) :
    (ApiKeyNote.note o r g).drawn = g.drawn := by
  unfold ApiKeyNote.note
  split
  · exact absurd rfl ho
  all_goals rfl

/-- Only drawing bytes notes bytes. -/
theorem drawn_of_note {o : ApiKeyOp} {s : ApiKeyDb} {g : ApiKeyNote} {bytes : Nat}
    (h : (ApiKeyNote.note o (apiKeyMachine.exec o s).1 g).drawn = some bytes) (hnot : g.drawn ≠ some bytes) :
    o = .randomBytes ∧ s.nextBytes = bytes := by
  by_cases ho : o = .randomBytes
  · subst ho
    exact ⟨rfl, Option.some_inj.1 h⟩
  · exact absurd ((note_drawn ho _ g).symm.trans h) hnot

/-- A key is about to be created by a request for it, which has drawn its bytes. -/
theorem drawnIn_of_create (hstart : start.threads = []) (hrun : (apiKeyServer cfg).Run admits start as d)
    {i : Nat} {draft : ApiKeyDraft} (hhead : d.head? i = some (.apiKeyCreate draft)) :
    ∃ bytes, DrawnIn cfg admits start as
        (.create draft.tenant draft.createdBy draft.name draft.scopes draft.expiresAt) bytes ∧
      draft.keyHash = hashApiKeyValue cfg (createApiKeyValue cfg bytes) := by
  have hissues : ∀ t ∈ d.threads, t.prog.Issues (ApiKeyOp.Of t.label) := by
    refine hrun.invariant (P := fun c => ∀ t ∈ c.threads, t.prog.Issues (ApiKeyOp.Of t.label)) ?_ (by simp [hstart])
    intro c a d _ hs hc
    exact System.step_issues (φ := ApiKeyOp.Of) (ApiKeyRequest.issues cfg) hs hc
  obtain ⟨⟨request, p⟩, ht, rfl⟩ := Pool.head?_issues hissues hhead
  obtain ⟨gs, hminutes, hnoted⟩ := Memo.noted ApiKeyNote.drawn (ApiKeyRequest.tracks cfg) (fun _ _ => trivial)
    (fun _ => trivial) (fun _ _ _ _ _ => trivial) (fun _ => rfl)
    (fun o g => congrArg ApiKeyNote.drawn (apiKeyMemo_note_error o _ g)) hstart hrun
  obtain ⟨g, hi, bytes, hdrawn, hhash⟩ := hminutes.head hhead
  obtain ⟨before, middle, e, o, g', rfl, hbefore, hfirst, -, hnot, hfield, hmiddle⟩ := hnoted i g bytes hi hdrawn
  obtain ⟨rfl, hbytes⟩ := drawn_of_note hfield hnot
  obtain ⟨⟨label, q⟩, hthread, -⟩ := Option.bind_eq_some_iff.1 hfirst
  obtain ⟨q', hq'⟩ := hmiddle.thread hthread
  obtain rfl : label = _ := (Thread.mk.inj (Option.some_inj.1 (hq'.symm.trans ht))).1
  have htake : (before ++ Action.act i :: middle).take before.length = before := List.take_left
  exact ⟨bytes, ⟨before.length, i, q, e, ⟨by simp, e, htake.symm ▸ hbefore, hfirst⟩, htake.symm ▸ hbefore,
    hthread, hbytes⟩, hhash⟩

/-- Every key was there at the start, or was created by a request of the run. -/
theorem run_origin (hstart : start.threads = []) (hrun : (apiKeyServer cfg).Run admits start as c) :
    ∀ k ∈ c.state.apiKeys.docs, start.state.Origin cfg (DrawnIn cfg admits start as) k := by
  refine hrun.induct (P := fun as c => ∀ k ∈ c.state.apiKeys.docs,
    start.state.Origin cfg (DrawnIn cfg admits start as) k) ?_ ?_
  · exact fun k hk => .inl ⟨k, hk, .refl k⟩
  · intro as d a e hrun _ hs ih k hk
    have hold : ∀ l ∈ d.state.apiKeys.docs, l.SameGrant k →
        start.state.Origin cfg (DrawnIn cfg admits start (as ++ [a])) k :=
      fun l hl hsame => ((ih l hl).used hsame).mono fun _ _ h => h.append [a]
    obtain ⟨hstate, -⟩ | ⟨i, o, rfl, hhead, hstate⟩ := System.step_state hs
    · exact hold k (hstate ▸ hk) (.refl k)
    · rw [hstate] at hk
      obtain ⟨l, hl, hsame⟩ | ⟨draft, rfl, rfl⟩ := mem_exec hk
      · exact hold l hl hsame
      · obtain ⟨bytes, hdrawn, hhash⟩ := drawnIn_of_create hstart hrun hhead
        exact .inr ⟨draft.createdBy, bytes, hdrawn.append _, rfl, rfl, hhash⟩

/-- In every run, whatever fails, keys are unique and stay what they are, and each answer is as it should
be: a call gets through with a key in force of the tenant it then acts in, that has the scopes, and that was
there at the start or was made by a request of that tenant from bytes which that request had drawn. -/
theorem run_apiKeys (hstart : start.threads = []) (hhashes : start.state.apiKeys.DistinctBy ApiKey.keyHash)
    (hrun : (apiKeyServer cfg).Run admits start as c) :
    start.state.Issued cfg (DrawnIn cfg admits start as) c.state ∧
      ∀ request response, ⟨request, .done (.ok response)⟩ ∈ c.threads →
        request.Answered cfg (DrawnIn cfg admits start as) start.state c.state response := by
  obtain ⟨hsound, gs, hminutes, hbacked⟩ := Memo.run_backed
    (I := fun _ s => start.state.Sound s) (B := fun _ g s => g.Backed s)
    (ApiKeyRequest.tracks cfg) (fun _ _ => trivial)
    (fun o => ⟨trivial, apiKeyMemo_note_error o _⟩) (fun _ _ => trivial)
    (fun _ _ _ _ hs => ⟨hs, fun _ hg => hg⟩)
    (fun _ _ _ _ _ => ⟨nofun, nofun, nofun⟩)
    (fun _ o g s _ hg hs => ⟨exec_keysSound o hs, exec_noteBacked o hg, fun g' hg' => hg'.grow (exec_keeps o s)⟩)
    hstart ⟨hhashes, .refl _⟩ hrun
  have hissued : start.state.Issued cfg (DrawnIn cfg admits start as) c.state := ⟨hsound, run_origin hstart hrun⟩
  refine ⟨hissued, fun request response ht => ?_⟩
  obtain ⟨i, hi⟩ := List.mem_iff_getElem?.1 ht
  obtain ⟨g, hg, hends⟩ := hminutes.memo hi
  exact answered_of_ends (hbacked g (List.mem_of_getElem? hg)) hissued hends

end Runs

/-- Digests and random bytes that are easy to read. -/
def sampleKeyConfig : ApiKeyConfig where
  randomHex := Nat.repr
  sha256 text := "sha256:" ++ text

/-- One key is created, another one is about to be, and an integration calls with the first one. -/
def keyUsed : List (Action ApiKeyRequest) :=
  [.spawn (.create "t" 3 "shop" ["products:read"] none), .act 0, .spawn (.create "u" 4 "other" [] none), .act 1,
    .act 0, .spawn (.integration ["products:read"] (some "ek_0") 9), .act 2, .fault 1, .act 2]

/-- What the requests have answered. -/
def answersOf (c : ApiKeyPool) : List (ApiKeyRequest × Option ApiKeyResponse) :=
  c.threads.map fun t => (t.label, t.prog.result?.bind Except.toOption)

theorem mem_threads_of_answersOf {c : ApiKeyPool} {request : ApiKeyRequest} {response : ApiKeyResponse}
    (h : (request, some response) ∈ answersOf c) : ⟨request, .done (.ok response)⟩ ∈ c.threads := by
  obtain ⟨⟨l, p⟩, ht, heq⟩ := List.mem_map.1 h
  obtain ⟨rfl, hp⟩ := Prod.mk.inj heq
  obtain ⟨r, hr, hresponse⟩ := Option.bind_eq_some_iff.1 hp
  cases p with
  | done r' =>
    obtain rfl := Option.some_inj.1 hr
    cases r' with
    | error e => cases hresponse
    | ok a =>
      obtain rfl := Option.some_inj.1 hresponse
      exact ht
  | call o k => cases hr

theorem run_apiKeys_keyUsed :
    ∃ c, (apiKeyServer sampleKeyConfig).play (fun _ _ => true) ⟨⟨∅, 0⟩, []⟩ keyUsed = some c ∧
      ∃ apiKey, ⟨.integration ["products:read"] (some "ek_0") 9, .done (.ok (.authorized apiKey "t"))⟩ ∈ c.threads ∧
        ApiKeyDb.Origin sampleKeyConfig (DrawnIn sampleKeyConfig (fun _ _ => true) ⟨⟨∅, 0⟩, []⟩ keyUsed) ⟨∅, 0⟩
          apiKey := by
  obtain ⟨c, hc, h⟩ := (Option.any_eq_true _ _).1 (by decide +kernel :
    ((apiKeyServer sampleKeyConfig).play (fun _ _ => true) ⟨⟨∅, 0⟩, []⟩ keyUsed).any fun c =>
      decide ((.integration ["products:read"] (some "ek_0") 9,
        some (.authorized ⟨0, "shop", "sha256:ek_0", "t", ["products:read"], .active, some 9, none, some 3⟩ "t")) ∈
          answersOf c))
  have ht := mem_threads_of_answersOf (of_decide_eq_true h)
  have hanswered := (run_apiKeys rfl (by intro a ha; cases ha) (System.Run.of_play hc)).2 _ _ ht
  exact ⟨c, hc, _, ht, hanswered.2.2.2.2.2⟩

end Ecommerce
