import Ecommerce.Effect.Calls
import Ecommerce.Model.Idempotency

/-!
# The stages of a request to the checkout route

A request that got past the header check is at one of eight stages, each with the program that is
left of it. A step takes it from one stage to the next.
-/

namespace Ecommerce

open Effect

/-- How far a request has come. -/
inductive KeyStage where
  | find
  | now (existing : IdempotencyKeyRecord)
  | deleteStale (id : ObjectId)
  | create
  | acquire (record : ObjectId)
  | release (record : ObjectId) (token : Nat)
  | persist (record : ObjectId) (outcome : Outcome)
  | ended (result : Except ApiError (Option Answer))

/-- The record that the handler runs under. -/
def KeyStage.record? : KeyStage → Option ObjectId
  | .acquire record => some record
  | .release record _ => some record
  | .persist record _ => some record
  | _ => none

section Stages

variable (cfg : IdempotencyConfig) (key : String) (post : CheckoutPost)

/-- The header check lets the key through. -/
def AcceptedKey : Prop := ¬ (key.length < 16 ∨ 120 < key.length)

/-- What is left of the request once its entry is decided. -/
def afterEnter : Entry → KeyM Answer
  | .replay answer => return answer
  | .begin record => runHandler post record.id

/-- What is left of the request once the handler has answered. -/
def afterHandler (record : ObjectId) (outcome : Outcome) : KeyM Answer := do
  persist record outcome.1
  return outcome.1

/-- A validated checkout. -/
def lockedCheckout : KeyM Outcome := do
  match (← keyDb (.acquireLock post.process post.lock CHECKOUT_LOCK_MS) : Option Nat) with
  | none => return lockedAnswer
  | some token => do
    let _released : Bool ← keyDb (.releaseLock post.process post.lock token)
    return post.outcome

/-- The program that is left at a stage. -/
def KeyStage.prog : KeyStage → KeyM (Option Answer)
  | .find => some <$> (enter cfg key post >>= afterEnter post)
  | .now existing => some <$> (Prog.catching (do
      let now : Time ← keyDb .dateNow
      if now - existing.createdAt < STALE_PROCESSING_MS then
        throw (CustomeErrorHandler.toManyRequest
          "Request with this idempotency key is still processing")
      else do
        keyDb (.keyDeleteProcessing existing.id)
        createKey cfg key post) orDuplicate >>= afterEnter post)
  | .deleteStale id => some <$> (Prog.catching (do
      keyDb (.keyDeleteProcessing id)
      createKey cfg key post) orDuplicate >>= afterEnter post)
  | .create => some <$> ((createKey cfg key post).catching orDuplicate >>= afterEnter post)
  | .acquire record => some <$> (lockedCheckout post >>= afterHandler record)
  | .release record token => some <$> ((do
      let _released : Bool ← keyDb (.releaseLock post.process post.lock token)
      return post.outcome) >>= afterHandler record)
  | .persist record outcome => some <$> afterHandler record outcome
  | .ended result => .done result

/-- A request starts with the search for its key, unless its header is refused. -/
theorem idempotency_start (h : post.key = some key) :
    (∃ e, ¬ AcceptedKey key ∧ some <$> idempotency cfg post = .done (.error e)) ∨
      AcceptedKey key ∧ some <$> idempotency cfg post = (KeyStage.find).prog cfg key post := by
  simp only [idempotency, h]
  split
  · next hlength => exact .inl ⟨_, not_not.2 hlength, rfl⟩
  · next hlength =>
    refine .inr ⟨hlength, congrArg (some <$> ·) (congrArg (enter cfg key post >>= ·) ?_)⟩
    funext entry
    cases entry <;> rfl

/-- What a step of a request does. -/
inductive StageStep : KeyDb → KeyStage → KeyDb → KeyStage → Prop where
  | findNone {s} (h : ∀ r ∈ s.keys.docs, ¬ r.isFor key post.user CHECKOUT_ROUTE) :
      StageStep s .find s .create
  | findOther {s r} (h : r ∈ s.keys.docs) (hfor : r.isFor key post.user CHECKOUT_ROUTE)
      (hhash : r.requestHash ≠ cfg.sha256 post.body) :
      StageStep s .find s (.ended (.error (CustomeErrorHandler.badRequest
        "Idempotency key reused with a different payload")))
  | findCompleted {s r} (h : r ∈ s.keys.docs) (hfor : r.isFor key post.user CHECKOUT_ROUTE)
      (hhash : r.requestHash = cfg.sha256 post.body) (hstatus : r.status = .completed) :
      StageStep s .find s (.ended (.ok (some r.replay)))
  | findOpen {s r} (h : r ∈ s.keys.docs) (hfor : r.isFor key post.user CHECKOUT_ROUTE)
      (hhash : r.requestHash = cfg.sha256 post.body) (hstatus : r.status ≠ .completed) :
      StageStep s .find s (.now r)
  | nowYoung {s r} (h : s.clock - r.createdAt < STALE_PROCESSING_MS) :
      StageStep s (.now r) s (.ended (.error (CustomeErrorHandler.toManyRequest
        "Request with this idempotency key is still processing")))
  | nowStale {s r} (h : ¬ s.clock - r.createdAt < STALE_PROCESSING_MS) :
      StageStep s (.now r) s (.deleteStale r.id)
  | deleteStale {s id} :
      StageStep s (.deleteStale id) (keyMongo.exec (.keyDeleteProcessing id) s).2 .create
  | createTaken {s r} (h : r ∈ s.keys.docs) (hfor : r.isFor key post.user CHECKOUT_ROUTE) :
      StageStep s .create s (.ended (.error (CustomeErrorHandler.toManyRequest
        "Duplicate idempotency request")))
  | create {s} (h : ∀ r ∈ s.keys.docs, ¬ r.isFor key post.user CHECKOUT_ROUTE) (st : KeyStage)
      (hst : st.record? = some s.keys.next) :
      StageStep s .create { s with
        keys := s.keys.insert ((post.draft cfg key).record s.keys.next s.clock)
          ((post.draft cfg key).key_record _ _)
        runs := s.runs ++ [(post.draft cfg key).run s.keys.next] } st
  | acquire {s record} (t : KeyDb) (hkeys : t.keys = s.keys) (hruns : t.runs = s.runs)
      (hclock : t.clock = s.clock) (st : KeyStage) (hst : st.record? = some record) :
      StageStep s (.acquire record) t st
  | release {s record token} (t : KeyDb) (hkeys : t.keys = s.keys) (hruns : t.runs = s.runs)
      (hclock : t.clock = s.clock) (st : KeyStage) (hst : st.record? = some record) :
      StageStep s (.release record token) t st
  | persistError {s record} {outcome : Outcome} (h : 500 ≤ outcome.1.statusCode) :
      StageStep s (.persist record outcome) { s with
        keys := s.keys.erase record, runs := s.runs.map (HandlerRun.settle record outcome.1) }
        (.ended (.ok (some outcome.1)))
  | persist {s record} {outcome : Outcome} (h : outcome.1.statusCode < 500) {r}
      (hr : s.keys.get? record = some r) :
      StageStep s (.persist record outcome) { s with
        keys := s.keys.update record (IdempotencyKeyRecord.complete outcome.1)
        runs := s.runs.map (HandlerRun.settle record outcome.1) } (.ended (.ok (some outcome.1)))
  | persistGone {s record} {outcome : Outcome} (h : outcome.1.statusCode < 500)
      (hr : s.keys.get? record = none) :
      StageStep s (.persist record outcome) s (.ended (.ok (some outcome.1)))

variable {cfg key post}

theorem runHandler_stage (record : ObjectId) :
    ∃ st : KeyStage, some <$> runHandler post record = st.prog cfg key post ∧
      st.record? = some record := by
  cases h : post.invalid with
  | none =>
    refine ⟨.acquire record, ?_, rfl⟩
    show some <$> (checkoutHandler post >>= afterHandler record) = _
    rw [checkoutHandler, h]
    rfl
  | some outcome =>
    refine ⟨.persist record outcome, ?_, rfl⟩
    show some <$> (checkoutHandler post >>= afterHandler record) = _
    rw [checkoutHandler, h]
    rfl

theorem persist_error (record : ObjectId) {outcome : Answer} (h : 500 ≤ outcome.statusCode) :
    persist record outcome =
      Prog.catching (keyDb (.keyDelete record outcome) : KeyM Unit) fun _ => return () :=
  congrArg (fun p : KeyM Unit => p.catching fun _ => return ()) (if_pos h)

theorem persist_saved (record : ObjectId) {outcome : Answer} (h : ¬ 500 ≤ outcome.statusCode) :
    persist record outcome =
      Prog.catching (keyDb (.keySave record outcome) : KeyM Unit) fun _ => return () :=
  congrArg (fun p : KeyM Unit => p.catching fun _ => return ()) (if_neg h)

/-! ## What the calls reply -/

/-- Taking a lock answers, and leaves the records alone. -/
theorem exec_acquireLock (process : Nat) (lock : String) (ttlMs : ℤ) (s : KeyDb) :
    ∃ token t, keyMongo.exec (.acquireLock process lock ttlMs) s = (.ok token, t) ∧
      t.keys = s.keys ∧ t.runs = s.runs ∧ t.clock = s.clock := by
  simp only [keyMongo, KeyDb.exec]
  split
  · split <;> exact ⟨_, _, rfl, rfl, rfl, rfl⟩
  · exact ⟨_, _, rfl, rfl, rfl, rfl⟩

/-- So does giving it back. -/
theorem exec_releaseLock (process : Nat) (lock : String) (token : Nat) (s : KeyDb) :
    ∃ gone t, keyMongo.exec (.releaseLock process lock token) s = (.ok gone, t) ∧
      t.keys = s.keys ∧ t.runs = s.runs ∧ t.clock = s.clock := by
  simp only [keyMongo, KeyDb.exec]
  split
  · split <;> exact ⟨_, _, rfl, rfl, rfl, rfl⟩
  · exact ⟨_, _, rfl, rfl, rfl, rfl⟩

theorem keyDeleteProcessing_replies (id : ObjectId) (s : KeyDb) :
    (keyMongo.exec (.keyDeleteProcessing id) s).1 = .ok () := by
  simp only [keyMongo, KeyDb.exec]
  split
  · split <;> rfl
  · rfl

/-! ## Steps -/

/-- What becomes of a key that is found. -/
theorem enterExisting_stage {s : KeyDb} {r : IdempotencyKeyRecord} (hmem : r ∈ s.keys.docs)
    (hfor : r.isFor key post.user CHECKOUT_ROUTE) :
    ∃ st : KeyStage, (some <$> ((enterExisting cfg key post r).catching orDuplicate >>= afterEnter post)) =
      st.prog cfg key post ∧ StageStep cfg key post s .find s st := by
  by_cases hhash : r.requestHash = cfg.sha256 post.body
  · by_cases hstatus : r.status = .completed
    · refine ⟨_, ?_, .findCompleted hmem hfor hhash hstatus⟩
      rw [enterExisting, if_neg (not_not.2 hhash), if_pos hstatus]
      rfl
    · refine ⟨_, ?_, .findOpen hmem hfor hhash hstatus⟩
      rw [enterExisting, if_neg (not_not.2 hhash), if_neg hstatus]
      rfl
  · refine ⟨_, ?_, .findOther hmem hfor hhash⟩
    rw [enterExisting, if_pos hhash]
    rfl

/-- What a call of a request does, and the stage that it leads to. -/
theorem KeyStage.act {st : KeyStage} {o : KeyOp}
    {k : Except ApiError o.Reply → KeyM (Option Answer)}
    (h : st.prog cfg key post = .call (S := KeyMongo) o k) (s : KeyDb) :
    ∃ st' : KeyStage, k (keyMongo.exec o s).1 = st'.prog cfg key post ∧
      StageStep cfg key post s st (keyMongo.exec o s).2 st' := by
  cases st with
  | find =>
    cases h
    cases hfind : s.keys.docs.find? (·.isFor key post.user CHECKOUT_ROUTE) with
    | none =>
      have hreply : (keyMongo.exec (.keyFindOne key post.user CHECKOUT_ROUTE) s).1 = .ok none :=
        congrArg Except.ok hfind
      rw [hreply]
      exact ⟨.create, rfl, .findNone (by simpa using hfind)⟩
    | some r =>
      have hreply : (keyMongo.exec (.keyFindOne key post.user CHECKOUT_ROUTE) s).1 = .ok (some r) :=
        congrArg Except.ok hfind
      have hfor := List.find?_some hfind
      rw [hreply]
      exact enterExisting_stage (List.mem_of_find?_eq_some hfind) hfor
  | now existing =>
    cases h
    by_cases hyoung : s.clock - existing.createdAt < STALE_PROCESSING_MS
    · refine ⟨_, ?_, .nowYoung hyoung⟩
      show some <$> (Prog.catching (if s.clock - existing.createdAt < STALE_PROCESSING_MS then _
        else _) orDuplicate >>= _) = _
      rw [if_pos hyoung]
      rfl
    · refine ⟨_, ?_, .nowStale hyoung⟩
      show some <$> (Prog.catching (if s.clock - existing.createdAt < STALE_PROCESSING_MS then _
        else _) orDuplicate >>= _) = _
      rw [if_neg hyoung]
      rfl
  | deleteStale id =>
    cases h
    refine ⟨_, ?_, .deleteStale⟩
    rw [keyDeleteProcessing_replies id s]
    rfl
  | create =>
    cases h
    by_cases htaken : s.keys.docs.any (·.isFor key post.user CHECKOUT_ROUTE)
    · obtain ⟨r, hr, hfor⟩ := List.any_eq_true.1 htaken
      have hexec : keyMongo.exec (.keyCreate (post.draft cfg key)) s = (.error .duplicateKey, s) :=
        if_pos htaken
      rw [hexec]
      exact ⟨_, rfl, .createTaken hr hfor⟩
    · have hexec : keyMongo.exec (.keyCreate (post.draft cfg key)) s =
          (.ok ((post.draft cfg key).record s.keys.next s.clock), { s with
            keys := s.keys.insert ((post.draft cfg key).record s.keys.next s.clock)
              ((post.draft cfg key).key_record _ _)
            runs := s.runs ++ [(post.draft cfg key).run s.keys.next] }) := if_neg htaken
      rw [hexec]
      obtain ⟨st, hst, hrecord⟩ := @runHandler_stage cfg key post s.keys.next
      exact ⟨st, hst, .create (by simpa using htaken) st hrecord⟩
  | acquire record =>
    cases h
    obtain ⟨token, t, hexec, hkeys, hruns, hclock⟩ := exec_acquireLock post.process post.lock CHECKOUT_LOCK_MS s
    rw [hexec]
    cases token with
    | none => exact ⟨.persist record lockedAnswer, rfl, .acquire t hkeys hruns hclock _ rfl⟩
    | some token => exact ⟨.release record token, rfl, .acquire t hkeys hruns hclock _ rfl⟩
  | release record token =>
    cases h
    obtain ⟨gone, t, hexec, hkeys, hruns, hclock⟩ := exec_releaseLock post.process post.lock token s
    rw [hexec]
    exact ⟨.persist record post.outcome, rfl, .release t hkeys hruns hclock _ rfl⟩
  | persist record outcome =>
    by_cases herror : 500 ≤ outcome.1.statusCode
    · rw [KeyStage.prog, afterHandler, persist_error record herror] at h
      cases h
      exact ⟨_, rfl, .persistError herror⟩
    · rw [KeyStage.prog, afterHandler, persist_saved record herror] at h
      cases h
      cases hr : s.keys.get? record with
      | some r =>
        have hexec : keyMongo.exec (.keySave record outcome.1) s = (.ok (), { s with
            keys := s.keys.update record (IdempotencyKeyRecord.complete outcome.1)
            runs := s.runs.map (HandlerRun.settle record outcome.1) }) := by
          simp only [keyMongo, KeyDb.exec, hr]
          rfl
        rw [hexec]
        exact ⟨_, rfl, .persist (Nat.lt_of_not_le herror) hr⟩
      | none =>
        have hexec : keyMongo.exec (.keySave record outcome.1) s = (.error .database, s) := by
          simp only [keyMongo, KeyDb.exec, hr]
          rfl
        rw [hexec]
        exact ⟨_, rfl, .persistGone (Nat.lt_of_not_le herror) hr⟩
  | ended result => cases h

/-- A call of a request that fails ends it, except that the answer goes out when it could not be
persisted. -/
theorem KeyStage.fault {st : KeyStage} {o : KeyOp}
    {k : Except ApiError o.Reply → KeyM (Option Answer)}
    (h : st.prog cfg key post = .call (S := KeyMongo) o k) :
    ∃ result, k (.error keyMongo.fault) = (KeyStage.ended result).prog cfg key post := by
  cases st with
  | find =>
    cases h
    exact ⟨_, rfl⟩
  | now existing =>
    cases h
    exact ⟨_, rfl⟩
  | deleteStale id =>
    cases h
    exact ⟨_, rfl⟩
  | create =>
    cases h
    exact ⟨_, rfl⟩
  | acquire record =>
    cases h
    exact ⟨_, rfl⟩
  | release record token =>
    cases h
    exact ⟨_, rfl⟩
  | persist record outcome =>
    by_cases herror : 500 ≤ outcome.1.statusCode
    · rw [KeyStage.prog, afterHandler, persist_error record herror] at h
      cases h
      exact ⟨_, rfl⟩
    · rw [KeyStage.prog, afterHandler, persist_saved record herror] at h
      cases h
      exact ⟨_, rfl⟩
  | ended result => cases h

end Stages

/-! ## All requests -/

/-- Where the requests of a pool stand. Threads that only let time pass stand nowhere. -/
def Placement (cfg : IdempotencyConfig) (c : KeyPool) (at' : Nat → KeyStage) : Prop :=
  ∀ i l p, c.threads[i]? = some ⟨l, p⟩ →
    (∃ key post, l = .checkout post ∧ (post.key = some key ∧ AcceptedKey key) ∧
      p = (at' i).prog cfg key post) ∨ at' i = .find ∧ p.Issues fun o => ∃ ms, o = KeyOp.tick ms

/-- What a step of the route does to the store and to where its requests stand. -/
inductive KeyMove (cfg : IdempotencyConfig) (c : KeyPool) (a : Action KeyRequest)
    (at' : Nat → KeyStage) : KeyDb → (Nat → KeyStage) → Prop where
  | tick (ms : Nat) : KeyMove cfg c a at' { c.state with clock := c.state.clock + ms } at'
  | start (i : Nat) : KeyMove cfg c a at' c.state (Function.update at' i .find)
  | stop (i : Nat) (result : Except ApiError (Option Answer)) :
      KeyMove cfg c a at' c.state (Function.update at' i (.ended result))
  | stage (i : Nat) (key : String) (post : CheckoutPost) (t : KeyDb) (st : KeyStage) (ha : a = .act i)
      (hthread : c.threads[i]? = some ⟨.checkout post, (at' i).prog cfg key post⟩)
      (hkey : post.key = some key ∧ AcceptedKey key)
      (h : StageStep cfg key post c.state (at' i) t st) :
      KeyMove cfg c a at' t (Function.update at' i st)
  | rest : KeyMove cfg c a at' c.state at'

theorem Placement.set {cfg : IdempotencyConfig} {c : KeyPool} {at' : Nat → KeyStage}
    (h : Placement cfg c at') {i : Nat} {post : CheckoutPost} {key : String}
    (hkey : post.key = some key ∧ AcceptedKey key) (s : KeyDb) (st : KeyStage) :
    Placement cfg ⟨s, c.threads.set i ⟨.checkout post, st.prog cfg key post⟩⟩
      (Function.update at' i st) := by
  intro j l p hp
  by_cases hij : j = i
  · subst hij
    have hlt : j < c.threads.length := by
      simpa using (List.getElem?_eq_some_iff.1 hp).1
    rw [List.getElem?_set_self hlt] at hp
    cases hp
    exact .inl ⟨key, post, rfl, hkey, by rw [Function.update_self]⟩
  · rw [List.getElem?_set_ne (Ne.symm hij)] at hp
    rw [Function.update_of_ne hij]
    exact h j l p hp

theorem Placement.set_tick {cfg : IdempotencyConfig} {c : KeyPool} {at' : Nat → KeyStage}
    (h : Placement cfg c at') {i : Nat} (hat : at' i = .find) {l : KeyRequest}
    {q : KeyM (Option Answer)} (s : KeyDb) (hq : q.Issues fun o => ∃ ms, o = KeyOp.tick ms) :
    Placement cfg ⟨s, c.threads.set i ⟨l, q⟩⟩ at' := by
  intro j l' p hp
  by_cases hij : j = i
  · subst hij
    have hlt : j < c.threads.length := by
      simpa using (List.getElem?_eq_some_iff.1 hp).1
    rw [List.getElem?_set_self hlt] at hp
    cases hp
    exact .inr ⟨hat, hq⟩
  · rw [List.getElem?_set_ne (Ne.symm hij)] at hp
    exact h j l' p hp

theorem Placement.append {cfg : IdempotencyConfig} {c : KeyPool} {at' : Nat → KeyStage}
    (h : Placement cfg c at') {l : KeyRequest} {q : KeyM (Option Answer)} {st : KeyStage}
    (hq : (∃ key post, l = .checkout post ∧ (post.key = some key ∧ AcceptedKey key) ∧
      q = st.prog cfg key post) ∨ st = .find ∧ q.Issues fun o => ∃ ms, o = KeyOp.tick ms) :
    Placement cfg { c with threads := c.threads ++ [⟨l, q⟩] }
      (Function.update at' c.threads.length st) := by
  intro j l' p hp
  rcases lt_trichotomy j c.threads.length with hlt | rfl | hgt
  · rw [Function.update_of_ne hlt.ne]
    exact h j l' p (by rwa [List.getElem?_append_left hlt] at hp)
  · rw [Function.update_self]
    obtain ⟨rfl, rfl⟩ : l = l' ∧ q = p := by simpa using hp
    exact hq
  · have hnone : (c.threads ++ [⟨l, q⟩])[j]? = none := by
      rw [List.getElem?_eq_none_iff, List.length_append, List.length_singleton]
      omega
    cases hnone.symm.trans hp

/-- A step of the route moves one of its requests, or lets time pass. -/
theorem Placement.step {cfg : IdempotencyConfig} {c d : KeyPool} {a : Action KeyRequest}
    {at' : Nat → KeyStage} (h : Placement cfg c at') (hstep : (keyServer cfg).step c a = some d) :
    ∃ moved, Placement cfg d moved ∧ KeyMove cfg c a at' d.state moved := by
  obtain ⟨l, rfl, rfl⟩ | ⟨i, l, o, k, ht, hmove⟩ := (keyServer cfg).step_cases hstep
  · have hdone : ∀ result, (keyServer cfg).code l = .done result → ∃ moved,
        Placement cfg { c with threads := c.threads ++ [⟨l, (keyServer cfg).code l⟩] } moved ∧
          KeyMove cfg c (.spawn l) at' c.state moved := by
      intro result hcode
      refine ⟨_, h.append (.inr ⟨rfl, ?_⟩), .start _⟩
      rw [hcode]
      trivial
    cases l with
    | tick ms =>
      exact ⟨_, h.append (.inr ⟨rfl, ⟨ms, rfl⟩, fun r => by cases r <;> trivial⟩), .start _⟩
    | checkout post =>
      cases hkey : post.key with
      | none =>
        refine hdone (.error (CustomeErrorHandler.badRequest
          "A valid Idempotency-Key header is required")) ?_
        show some <$> idempotency cfg post = _
        rw [idempotency, hkey]
        rfl
      | some key =>
        rcases idempotency_start cfg key post hkey with ⟨e, -, he⟩ | ⟨haccepted, hfind⟩
        · exact hdone _ he
        · exact ⟨_, h.append (.inl ⟨key, post, rfl, ⟨hkey, haccepted⟩, hfind⟩), .start _⟩
  · rcases h i l _ ht with ⟨key, post, rfl, hkey, hprog⟩ | ⟨hat, hticks⟩
    · obtain ⟨rfl, rfl⟩ | ⟨rfl, rfl⟩ | ⟨rfl, rfl⟩ := hmove
      · obtain ⟨st, hst, hact⟩ := KeyStage.act hprog.symm c.state
        have hplaced := h.set (i := i) hkey (keyMongo.exec o c.state).2 st
        rw [← hst] at hplaced
        exact ⟨_, hplaced, .stage i key post _ st rfl (hprog ▸ ht) hkey hact⟩
      · obtain ⟨result, hresult⟩ := KeyStage.fault hprog.symm
        have hplaced := h.set (i := i) hkey c.state (.ended result)
        rw [← hresult] at hplaced
        exact ⟨_, hplaced, .stop i result⟩
      · exact ⟨_, h.set hkey c.state (.ended (.error keyMongo.fault)), .stop i _⟩
    · obtain ⟨⟨ms, rfl⟩, hrest⟩ := hticks
      obtain ⟨rfl, rfl⟩ | ⟨rfl, rfl⟩ | ⟨rfl, rfl⟩ := hmove
      · exact ⟨at', h.set_tick hat _ (hrest _), .tick ms⟩
      · exact ⟨at', h.set_tick hat _ (hrest _), .rest⟩
      · exact ⟨at', h.set_tick hat _ trivial, .rest⟩

end Ecommerce
