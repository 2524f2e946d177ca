import Ecommerce.Checkout.Records

/-!
# Keys that the client keeps

After a failure `CheckoutAttempt` keeps its key when the status is one it holds for retryable. The
middleware stores every outcome of the handler below 500, whatever its status. The two disagree about
423 and 429: as answers of the handler they are stored, and the retry is answered by them again.
-/

namespace Ecommerce

open Effect Effect.Collection

/-! ## The requests behind the runs -/

/-- The run is one of the request. -/
structure HandlerRun.Of (cfg : IdempotencyConfig) (run : HandlerRun) (post : CheckoutPost) : Prop where
  key : post.key = some run.key
  user : run.user = post.user
  hash : run.requestHash = cfg.sha256 post.body

theorem HandlerRun.Of.settle {cfg : IdempotencyConfig} {run : HandlerRun} {post : CheckoutPost}
    (h : run.Of cfg post) (id : ObjectId) (outcome : Answer) : (run.settle id outcome).Of cfg post := by
  unfold HandlerRun.settle
  split
  · exact ⟨h.key, h.user, h.hash⟩
  · exact h

/-- Every run is one of a request, which answers with its outcome. -/
structure Began (cfg : IdempotencyConfig) (c : KeyPool) (at' : Nat → KeyStage) : Prop where
  run : ∀ run ∈ c.state.runs, ∃ (i : Nat) (post : CheckoutPost) (p : KeyM (Option Answer)),
    c.threads[i]? = some ⟨.checkout post, p⟩ ∧ run.Of cfg post ∧
      ∀ outcome, run.answer = some outcome → p = .done (.ok (some outcome))
  own : ∀ i record, (at' i).record? = some record →
    ∃ run ∈ c.state.runs, run.record = record ∧ ∃ (post : CheckoutPost) (p : KeyM (Option Answer)),
      c.threads[i]? = some ⟨.checkout post, p⟩ ∧ run.Of cfg post

/-- A request that runs the handler has just been let in, or did so before. -/
theorem KeyMove.record? {cfg : IdempotencyConfig} {c : KeyPool} {a : Action KeyRequest} {t : KeyDb}
    {at' moved : Nat → KeyStage} (hmove : KeyMove cfg c a at' t moved) {j : Nat} {record : ObjectId}
    (hj : (moved j).record? = some record) :
    (at' j).record? = some record ∨ ∃ post key p, c.threads[j]? = some ⟨.checkout post, p⟩ ∧
      post.key = some key ∧ record = c.state.keys.next ∧
      t.runs = c.state.runs ++ [(post.draft cfg key).run c.state.keys.next] := by
  have hother : ∀ (i : Nat) (st : KeyStage), st.record? = none →
      (Function.update at' i st j).record? = some record → (at' j).record? = some record := by
    intro i st hst h
    by_cases hji : j = i
    · rw [hji, Function.update_self] at h
      cases hst.symm.trans h
    · rwa [Function.update_of_ne hji] at h
  cases hmove with
  | rest => exact .inl hj
  | tick ms => exact .inl hj
  | start i => exact .inl (hother i _ rfl hj)
  | stop i result => exact .inl (hother i _ rfl hj)
  | stage i key post t st ha hthread hkey hstep =>
    by_cases hji : j = i
    · subst hji
      rw [Function.update_self] at hj
      generalize hat : at' j = src at hstep hthread
      cases hstep with
      | create hfree st hst =>
        exact .inr ⟨post, key, _, hthread, hkey.1, Option.some_inj.1 (hj.symm.trans hst), rfl⟩
      | acquire t hkeys hruns _ st hst => exact .inl (hst.symm.trans hj)
      | release t hkeys hruns _ st hst => exact .inl (hst.symm.trans hj)
      | _ => cases hj
    · rw [Function.update_of_ne hji] at hj
      exact .inl hj

theorem Began.move {cfg : IdempotencyConfig} {c d : KeyPool} {a : Action KeyRequest}
    {at' moved : Nat → KeyStage} (h : Began cfg c at') (hroute : RouteInv c.state at')
    (hstep : (keyServer cfg).step c a = some d) (hmoved : Placement cfg d moved)
    (hmove : KeyMove cfg c a at' d.state moved) : Began cfg d moved := by
  constructor
  · intro run hrun
    have hold : ∀ run ∈ c.state.runs, ∃ (i : Nat) (post : CheckoutPost) (p : KeyM (Option Answer)),
        d.threads[i]? = some ⟨.checkout post, p⟩ ∧ run.Of cfg post ∧
          ∀ outcome, run.answer = some outcome → p = .done (.ok (some outcome)) := by
      intro run hrun
      obtain ⟨i, post, p, hp, hof, hanswer⟩ := h.run run hrun
      obtain ⟨p', hp', hdone⟩ := (keyServer cfg).step_stays hstep hp
      exact ⟨i, post, p', hp', hof, fun outcome houtcome => hdone _ (hanswer outcome houtcome)⟩
    rcases hmove.runs with hruns | ⟨i, post, key, -, -, hkey, hthread, hruns, -⟩ |
      ⟨i, post, key, record, outcome, -, hat, hended, hthread, hruns⟩ <;> rw [hruns] at hrun
    · exact hold run hrun
    · rcases List.mem_append.1 hrun with hrun | hrun
      · exact hold run hrun
      · obtain rfl := List.mem_singleton.1 hrun
        obtain ⟨p', hp', -⟩ := (keyServer cfg).step_stays hstep hthread
        exact ⟨i, post, p', hp', ⟨hkey, rfl, rfl⟩, nofun⟩
    · obtain ⟨run₀, hrun₀, rfl⟩ := List.mem_map.1 hrun
      by_cases hrecord : run₀.record = record
      · -- The run that ends is the one of the request that persists its outcome.
        subst hrecord
        obtain ⟨own, hown, hsame, post', p, hp, hof⟩ := h.own i run₀.record (by rw [hat]; rfl)
        obtain rfl := List.inj_on_of_nodup_map hroute.keys.nodup hown hrun₀ hsame
        obtain ⟨p', hp', -⟩ := (keyServer cfg).step_stays hstep hp
        refine ⟨i, post', p', hp', hof.settle _ _, fun outcome' houtcome => ?_⟩
        rw [HandlerRun.settle_self] at houtcome
        obtain rfl := Option.some_inj.1 houtcome
        rcases hmoved i _ p' hp' with ⟨key', post'', -, -, hprog⟩ | ⟨hfind, -⟩
        · rw [hprog, hended]
          rfl
        · cases hfind.symm.trans hended
      · rw [HandlerRun.settle_of_ne _ hrecord]
        exact hold run₀ hrun₀
  · intro j record hj
    rcases hmove.record? hj with hj | ⟨post, key, p, hp, hkey, rfl, hruns⟩
    · obtain ⟨run, hrun, rfl, post, p, hp, hof⟩ := h.own j record hj
      obtain ⟨p', hp', -⟩ := (keyServer cfg).step_stays hstep hp
      rcases hmove.runs with hruns | ⟨i, post', key, -, -, hkey, hthread, hruns, -⟩ |
        ⟨i, post', key, record, outcome, -, hat, hended, hthread, hruns⟩
      · exact ⟨run, hruns ▸ hrun, rfl, post, p', hp', hof⟩
      · exact ⟨run, by rw [hruns]; exact List.mem_append_left _ hrun, rfl, post, p', hp', hof⟩
      · refine ⟨run.settle record outcome.1, ?_, run.settle_record _ _, post, p', hp', hof.settle _ _⟩
        rw [hruns]
        exact List.mem_map_of_mem hrun
    · obtain ⟨p', hp', -⟩ := (keyServer cfg).step_stays hstep hp
      refine ⟨(post.draft cfg key).run c.state.keys.next, ?_, rfl, post, p', hp', hkey, rfl, rfl⟩
      rw [hruns]
      exact List.mem_append_right _ (List.mem_singleton_self _)

/-! ## The next submit -/

theorem KeyStage.ended_of_done {cfg : IdempotencyConfig} {key : String} {post : CheckoutPost}
    {st : KeyStage} {r : Except ApiError (Option Answer)} (h : st.prog cfg key post = .done r) :
    st = .ended r := by
  cases st with
  | ended result =>
    cases h
    rfl
  | persist record outcome =>
    by_cases herror : 500 ≤ outcome.1.statusCode
    · rw [KeyStage.prog, afterHandler, persist_error record herror] at h
      cases h
    · rw [KeyStage.prog, afterHandler, persist_saved record herror] at h
      cases h
  | _ => cases h

/-- The client waits for its answer, and no one else has its key. -/
def NoOther (key : String) (a : Action KeyRequest) : Prop :=
  ∀ post, a = .spawn (.checkout post) → post.key ≠ some key

/-- One submit under the key is on its way, and all earlier ones have been answered. -/
structure Waiting (cfg : IdempotencyConfig) (key : String) (old : KeyPool) (j : Nat) (c : KeyPool) :
    Prop where
  inv : ∃ at', Placement cfg c at' ∧ RouteInv c.state at' ∧ Began cfg c at'
  others : ∀ i post p, c.threads[i]? = some ⟨.checkout post, p⟩ → post.key = some key → i ≠ j →
    old.threads[i]? = some ⟨.checkout post, p⟩ ∧ ∃ r, p = .done r

namespace Waiting

variable {cfg : IdempotencyConfig} {key : String} {old c d : KeyPool} {j : Nat} {a : Action KeyRequest}
variable (h : Waiting cfg key old j c) (hstep : (keyServer cfg).step c a = some d)

include h hstep

theorem step (hother : NoOther key a) : Waiting cfg key old j d := by
  obtain ⟨⟨at', hplaced, hroute, hbegan⟩, hothers⟩ := h
  obtain ⟨moved, hmoved, hmove⟩ := hplaced.step hstep
  refine ⟨⟨moved, hmoved, (hroute.move hmove).1, hbegan.move hroute hstep hmoved hmove⟩, ?_⟩
  intro i post p hp hkey hij
  by_cases hlt : i < c.threads.length
  · obtain ⟨⟨l, p₀⟩, hp₀⟩ : ∃ t, c.threads[i]? = some t := ⟨_, List.getElem?_eq_getElem hlt⟩
    obtain ⟨p', hp', hdone⟩ := (keyServer cfg).step_stays hstep hp₀
    obtain ⟨rfl, rfl⟩ : l = .checkout post ∧ p' = p :=
      Thread.mk.inj (Option.some_inj.1 (hp'.symm.trans hp))
    obtain ⟨hold, r, rfl⟩ := hothers i post p₀ hp₀ hkey hij
    rw [hdone r rfl]
    exact ⟨hold, r, rfl⟩
  · obtain ⟨l, rfl, rfl⟩ | ⟨k, l, o, q, ht, hmove⟩ := (keyServer cfg).step_cases hstep
    · have hmem := List.mem_of_getElem? ((List.getElem?_append_right (Nat.not_lt.1 hlt)).symm.trans hp)
      obtain ⟨rfl, -⟩ := Thread.mk.inj (List.mem_singleton.1 hmem)
      exact absurd hkey (hother post rfl)
    · have hlength : d.threads.length = c.threads.length := by
        obtain ⟨-, rfl⟩ | ⟨-, rfl⟩ | ⟨-, rfl⟩ := hmove <;> simp
      have := (List.getElem?_eq_some_iff.1 hp).1
      omega

/-- What the others do leaves the runs under the key alone. -/
theorem runsFor_eq (user : ObjectId) (hact : a ≠ .act j) :
    d.state.runsFor key user = c.state.runsFor key user := by
  obtain ⟨⟨at', hplaced, hroute, hbegan⟩, hothers⟩ := h
  obtain ⟨moved, -, hmove⟩ := hplaced.step hstep
  rcases hmove.runs with hruns | ⟨i, post, key', rfl, hat, hkey, hthread, hruns, -⟩ |
    ⟨i, post, key', record, outcome, rfl, hat, -, hthread, hruns⟩
  · rw [KeyDb.runsFor, hruns, KeyDb.runsFor]
  · have hother : ¬ ((post.draft cfg key').run c.state.keys.next).isFor key user CHECKOUT_ROUTE := by
      intro hfor
      simp only [HandlerRun.isFor, KeyDraft.run, CheckoutPost.draft, Bool.and_eq_true,
        beq_iff_eq] at hfor
      obtain ⟨⟨rfl, rfl⟩, -⟩ := hfor
      obtain ⟨-, r, hr⟩ := hothers i post _ hthread hkey fun hij => hact (by rw [hij])
      cases hat.symm.trans (KeyStage.ended_of_done hr)
    rw [KeyDb.runsFor, hruns, List.filter_append, List.filter_singleton]
    simp [hother, KeyDb.runsFor]
  · obtain ⟨own, hown, hrecord, post', p, hp, hof⟩ := hbegan.own i record (by rw [hat]; rfl)
    have hother : ¬ own.isFor key user CHECKOUT_ROUTE := by
      intro hfor
      simp only [HandlerRun.isFor, Bool.and_eq_true, beq_iff_eq] at hfor
      obtain ⟨⟨hsame, -⟩, -⟩ := hfor
      obtain ⟨-, r, rfl⟩ := hothers i post' p hp (hof.key.trans (congrArg some hsame))
        fun hij => hact (by rw [hij])
      have hprog := (Thread.mk.inj (Option.some_inj.1 (hp.symm.trans hthread))).2
      cases hat.symm.trans (KeyStage.ended_of_done hprog.symm)
    rw [runsFor_settle hruns]
    refine (List.map_congr_left fun x hx => ?_).trans (List.map_id _)
    obtain ⟨hxmem, hxfor⟩ := List.mem_filter.1 hx
    refine HandlerRun.settle_of_ne _ fun hsame => hother ?_
    exact List.inj_on_of_nodup_map hroute.keys.nodup hxmem hown (hsame.trans hrecord.symm) ▸ hxfor

end Waiting

/-- A request moves from its stage to the next, or another moves. -/
theorem submit_step {cfg : IdempotencyConfig} {c d : KeyPool} {a : Action KeyRequest}
    (hstep : (keyServer cfg).step c a = some d) {j : Nat} {key : String} {post : CheckoutPost}
    {st : KeyStage} (hp : c.threads[j]? = some ⟨.checkout post, st.prog cfg key post⟩)
    (hact : a ≠ .fault j ∧ a ≠ .kill j) :
    (a ≠ .act j ∧ d.threads[j]? = some ⟨.checkout post, st.prog cfg key post⟩) ∨
    ∃ st' : KeyStage, d.threads[j]? = some ⟨.checkout post, st'.prog cfg key post⟩ ∧
      StageStep cfg key post c.state st d.state st' := by
  obtain ⟨hne, -, -, hd⟩ | ⟨o, k, hprog, ⟨-, hstate, hd⟩ | ⟨hfault, -⟩ | ⟨hkill, -⟩⟩ :=
    (keyServer cfg).step_thread hstep hp
  · exact .inl ⟨hne, hd⟩
  · obtain ⟨st', hst', hstage⟩ := KeyStage.act hprog c.state
    right
    refine ⟨st', hd.trans (congrArg (fun p => some (Thread.mk (KeyRequest.checkout post) p)) hst'), ?_⟩
    rw [hstate]
    exact hstage
  · exact absurd hfault hact.1
  · exact absurd hkill hact.2

/-- The two answers of the middleware that say that a request under the key is on its way. -/
def stillProcessing : ApiError :=
  CustomeErrorHandler.toManyRequest "Request with this idempotency key is still processing"

def duplicateRequest : ApiError := CustomeErrorHandler.toManyRequest "Duplicate idempotency request"

/-- Stages before the handler, and the two refusals they may end in. -/
inductive KeyStage.Entering : KeyStage → Prop where
  | find : Entering .find
  | now (r : IdempotencyKeyRecord) : Entering (.now r)
  | deleteStale (id : ObjectId) : Entering (.deleteStale id)
  | create : Entering .create
  | stillProcessing : Entering (.ended (.error stillProcessing))
  | duplicateRequest : Entering (.ended (.error duplicateRequest))

/-- Without a completed record, a request with the body of the record enters the handler or is refused
for the time being. -/
theorem StageStep.entering {cfg : IdempotencyConfig} {key : String} {post : CheckoutPost} {s t : KeyDb}
    {st st' : KeyStage} (hstep : StageStep cfg key post s st t st') (hst : st.Entering)
    (hhash : ∀ r ∈ s.keys.docs, r.isFor key post.user CHECKOUT_ROUTE →
      r.requestHash = cfg.sha256 post.body)
    (hopen : ∀ r ∈ s.keys.docs, r.isFor key post.user CHECKOUT_ROUTE → r.status ≠ .completed) :
    (st'.Entering ∧ t.runsFor key post.user = s.runsFor key post.user) ∨
      (s.runsFor key post.user).length < (t.runsFor key post.user).length := by
  cases hst with
  | find =>
    cases hstep with
    | findNone _ => exact .inl ⟨.create, rfl⟩
    | findOther hr hfor hother => exact absurd (hhash _ hr hfor) hother
    | findCompleted hr hfor _ hcompleted => exact absurd hcompleted (hopen _ hr hfor)
    | findOpen _ _ _ _ => exact .inl ⟨.now _, rfl⟩
  | now r =>
    cases hstep with
    | nowYoung _ => exact .inl ⟨.stillProcessing, rfl⟩
    | nowStale _ => exact .inl ⟨.deleteStale _, rfl⟩
  | deleteStale id =>
    cases hstep
    refine .inl ⟨.create, ?_⟩
    obtain heq | ⟨-, -, -, heq⟩ := exec_keyDeleteProcessing id s
    · rw [heq]
    · rw [heq]
      rfl
  | create =>
    cases hstep with
    | createTaken _ _ => exact .inl ⟨.duplicateRequest, rfl⟩
    | create _ _ _ =>
      right
      have hown : ((post.draft cfg key).run s.keys.next).isFor key post.user CHECKOUT_ROUTE := by
        simp [HandlerRun.isFor, KeyDraft.run, CheckoutPost.draft]
      rw [KeyDb.runsFor, KeyDb.runsFor, List.filter_append, List.length_append]
      exact Nat.lt_add_of_pos_right (List.length_pos_of_mem
        (List.mem_filter.2 ⟨List.mem_singleton_self _, hown⟩))
  | stillProcessing => cases hstep
  | duplicateRequest => cases hstep

theorem KeyMove.runsFor_length_le {cfg : IdempotencyConfig} {c : KeyPool} {a : Action KeyRequest}
    {t : KeyDb} {at' moved : Nat → KeyStage} (hmove : KeyMove cfg c a at' t moved) (key : String)
    (user : ObjectId) : (c.state.runsFor key user).length ≤ (t.runsFor key user).length := by
  rcases hmove.runs with hruns | ⟨i, post, key', -, -, -, -, hruns, -⟩ |
    ⟨i, -, -, record, outcome, -, -, -, -, hruns⟩
  · rw [KeyDb.runsFor, KeyDb.runsFor, hruns]
  · rw [KeyDb.runsFor, KeyDb.runsFor, hruns, List.filter_append, List.length_append]
    exact Nat.le_add_right _ _
  · rw [runsFor_settle hruns, List.length_map]

section NextSubmit

variable {cfg : IdempotencyConfig} {key : String} {post : CheckoutPost} {old c d : KeyPool} {j : Nat}
variable {bs : List (Action KeyRequest)}

/-- A stored outcome answers the next submit. -/
theorem Waiting.replayed (h : Waiting cfg key old j c)
    (hp : c.threads[j]? = some ⟨.checkout post, (KeyStage.find).prog cfg key post⟩)
    (hruns : c.state.runsFor key post.user = old.state.runsFor key post.user)
    (hbs : (keyServer cfg).Run (fun _ a => NoOther key a ∧ a ≠ .fault j ∧ a ≠ .kill j) c bs d)
    {run : HandlerRun} (hrun : run ∈ old.state.runsFor key post.user) {outcome : Answer}
    (houtcome : run.answer = some outcome) (hlt : outcome.statusCode < 500)
    (hhash : run.requestHash = cfg.sha256 post.body) :
    d.state.runsFor key post.user = old.state.runsFor key post.user ∧
      (d.threads[j]? = some ⟨.checkout post, (KeyStage.find).prog cfg key post⟩ ∨
        d.threads[j]? = some ⟨.checkout post, .done (.ok (some outcome))⟩) := by
  refine (hbs.invariant (P := fun c => Waiting cfg key old j c ∧
    c.state.runsFor key post.user = old.state.runsFor key post.user ∧
      (c.threads[j]? = some ⟨.checkout post, (KeyStage.find).prog cfg key post⟩ ∨
        c.threads[j]? = some ⟨.checkout post, .done (.ok (some outcome))⟩)) ?_
    ⟨h, hruns, .inl hp⟩).2
  rintro c a d ⟨hother, hact⟩ hstep ⟨h, hruns, hp⟩
  refine ⟨h.step hstep hother, ?_⟩
  rcases hp with hp | hp
  · obtain ⟨at', -, hroute, -⟩ := h.inv
    refine ⟨?_, hroute.replayed hstep (hruns ▸ hrun) houtcome hlt hhash.symm hact hp⟩
    rcases submit_step hstep hp hact with ⟨hne, -⟩ | ⟨st', -, hstage⟩
    · exact (h.runsFor_eq hstep post.user hne).trans hruns
    · rw [← hruns]
      generalize d.state = t at hstage
      cases hstage <;> rfl
  · obtain ⟨hne, -, -, hd⟩ | ⟨o, k, hprog, -⟩ := (keyServer cfg).step_thread hstep hp
    · exact ⟨(h.runsFor_eq hstep post.user hne).trans hruns, .inr hd⟩
    · cases hprog

/-- Where nothing is stored, the next submit runs the handler or is refused for the time being. -/
theorem Waiting.enters (h : Waiting cfg key old j c)
    (hp : c.threads[j]? = some ⟨.checkout post, (KeyStage.find).prog cfg key post⟩)
    (hruns : c.state.runsFor key post.user = old.state.runsFor key post.user)
    (hbs : (keyServer cfg).Run (fun _ a => NoOther key a ∧ a ≠ .fault j ∧ a ≠ .kill j) c bs d)
    (hold : ∀ run ∈ old.state.runsFor key post.user,
      run.requestHash = cfg.sha256 post.body ∧ ∀ outcome, run.answer = some outcome →
        ¬ (100 ≤ outcome.statusCode ∧ outcome.statusCode < 500)) :
    (old.state.runsFor key post.user).length < (d.state.runsFor key post.user).length ∨
      ∃ st : KeyStage, st.Entering ∧ d.threads[j]? = some ⟨.checkout post, st.prog cfg key post⟩ := by
  have hend := (hbs.invariant (P := fun c => Waiting cfg key old j c ∧
    ((old.state.runsFor key post.user).length < (c.state.runsFor key post.user).length ∨
      (c.state.runsFor key post.user = old.state.runsFor key post.user ∧ ∃ st : KeyStage, st.Entering ∧
        c.threads[j]? = some ⟨.checkout post, st.prog cfg key post⟩))) ?_
    ⟨h, .inr ⟨hruns, .find, .find, hp⟩⟩).2
  · exact hend.imp_right And.right
  rintro c a d ⟨hother, hact⟩ hstep ⟨h, hp⟩
  refine ⟨h.step hstep hother, ?_⟩
  rcases hp with hgrown | ⟨hruns, st, hst, hp⟩
  · obtain ⟨at', hplaced, -, -⟩ := h.inv
    obtain ⟨moved, -, hmove⟩ := hplaced.step hstep
    exact .inl (hgrown.trans_le (hmove.runsFor_length_le key post.user))
  · rcases submit_step hstep hp hact with ⟨hne, hd⟩ | ⟨st', hd, hstage⟩
    · exact .inr ⟨(h.runsFor_eq hstep post.user hne).trans hruns, st, hst, hd⟩
    · obtain ⟨at', -, hroute, -⟩ := h.inv
      -- A record under the key is that of a run under the key.
      have hrecords : ∀ r ∈ c.state.keys.docs, r.isFor key post.user CHECKOUT_ROUTE →
          ∃ run ∈ old.state.runsFor key post.user, run.Holds r := by
        intro r hr hfor
        obtain ⟨run, hrun, hrecord⟩ := hroute.keys.ran r hr
        have hholds := hroute.keys.holds run hrun r (get?_eq_some.2 ⟨hr, hrecord.symm⟩)
        have hkey := hholds.key
        simp only [IdempotencyKeyRecord.isFor, Bool.and_eq_true, beq_iff_eq] at hfor hkey
        refine ⟨run, hruns ▸ List.mem_filter.2 ⟨hrun, ?_⟩, hholds⟩
        simp [HandlerRun.isFor, ← hkey.1.1, ← hkey.1.2, ← hkey.2, hfor]
      have hhash : ∀ r ∈ c.state.keys.docs, r.isFor key post.user CHECKOUT_ROUTE →
          r.requestHash = cfg.sha256 post.body := by
        intro r hr hfor
        obtain ⟨run, hrun, hholds⟩ := hrecords r hr hfor
        exact hholds.hash.trans (hold run hrun).1
      have hopen : ∀ r ∈ c.state.keys.docs, r.isFor key post.user CHECKOUT_ROUTE →
          r.status ≠ .completed := by
        intro r hr hfor hcompleted
        obtain ⟨run, hrun, hholds⟩ := hrecords r hr hfor
        cases hanswer : run.answer with
        | none => cases (hholds.active hanswer).symm.trans hcompleted
        | some outcome => exact (hold run hrun).2 outcome hanswer (hholds.client outcome hanswer)
      rcases hstage.entering hst hhash hopen with ⟨hst', hsame⟩ | hgrown
      · exact .inr ⟨hsame.trans hruns, st', hst', hd⟩
      · exact .inl (hruns ▸ hgrown)

end NextSubmit

/-! ## The client's submits -/

/-- No other client has a key that this one draws. -/
def Others (source : KeySource) (a : Action KeyRequest) : Prop :=
  ∀ post, a = .spawn (.checkout post) → ∀ n, post.key ≠ some (source.newKey n)

/-- Where a client gets that submits one form again and again, each time once it has its answer. -/
inductive Session (cfg : IdempotencyConfig) (source : KeySource) (user : ObjectId) (body : String) :
    KeyPool → CheckoutAttempt → Prop where
  | start {c : KeyPool} (hthreads : c.threads = []) (hkeys : c.state.keys.docs = [])
      (hruns : c.state.runs = []) : Session cfg source user body c (CheckoutAttempt.new source)
  | other {c d : KeyPool} {attempt : CheckoutAttempt} {a : Action KeyRequest}
      (h : Session cfg source user body c attempt) (ha : Others source a)
      (hstep : (keyServer cfg).step c a = some d) : Session cfg source user body d attempt
  | submit {c d : KeyPool} {attempt : CheckoutAttempt} {post : CheckoutPost}
      {bs : List (Action KeyRequest)} {result : Except ApiError (Option Answer)}
      (h : Session cfg source user body c attempt)
      (hkey : post.key = some (attempt.keyFor source body).key) (huser : post.user = user)
      (hbody : post.body = body)
      (hrun : (keyServer cfg).Run (fun _ a => Others source a)
        { c with threads := c.threads ++ [⟨.checkout post, (KeyRequest.checkout post).code cfg⟩] } bs d)
      (hdone : d.threads[c.threads.length]? = some ⟨.checkout post, .done result⟩) :
      Session cfg source user body d
        ((attempt.keyFor source body).answered source (statusOf result))

theorem KeySource.newKey_inj {source : KeySource} {m n : Nat} :
    source.newKey m = source.newKey n ↔ source.randomUUID m = source.randomUUID n := by
  unfold KeySource.newKey
  exact String.append_right_inj _

theorem KeySource.accepted (source : KeySource) (n : Nat) : AcceptedKey (source.newKey n) := by
  have hlength : (source.newKey n).length = 40 := by
    rw [KeySource.newKey, String.length_append, source.length]
    rfl
  unfold AcceptedKey
  omega

/-- An answer keeps the attempt, or has it draw a new key. -/
theorem CheckoutAttempt.answered_cases (source : KeySource) (attempt : CheckoutAttempt) (status : Nat) :
    attempt.answered source status = attempt ∧ retryable status ∨
      attempt.answered source status = attempt.reset source := by
  unfold answered failed
  split_ifs with hsuccess hretry
  · exact .inr rfl
  · exact .inl ⟨rfl, hretry⟩
  · exact .inr rfl

/-- Between submits: all have been answered, and those under the key by failures that keep it. -/
structure Answered (cfg : IdempotencyConfig) (source : KeySource) (user : ObjectId) (body : String)
    (c : KeyPool) (attempt : CheckoutAttempt) : Prop where
  inv : ∃ at', Placement cfg c at' ∧ RouteInv c.state at' ∧ Began cfg c at'
  key : ∃ n < attempt.drawn, attempt.key = source.newKey n
  form : ∀ b ∈ attempt.body, b = body
  sent : ∀ (i : Nat) (post : CheckoutPost) (p : KeyM (Option Answer)) (n : Nat),
    c.threads[i]? = some ⟨.checkout post, p⟩ → post.key = some (source.newKey n) →
      (∃ m < attempt.drawn, source.newKey n = source.newKey m) ∧ post.user = user ∧
        post.body = body ∧ ∃ r, p = .done r ∧
          (source.newKey n = attempt.key → CheckoutAttempt.retryable (statusOf r))

theorem CheckoutAttempt.keyFor_same {source : KeySource} {attempt : CheckoutAttempt} {body : String}
    (h : ∀ b ∈ attempt.body, b = body) :
    attempt.keyFor source body = { attempt with body := some body } := by
  unfold keyFor
  rw [if_neg]
  rw [Option.any_eq_true]
  rintro ⟨b, hb, hne⟩
  exact (of_decide_eq_true hne) (h b hb)

theorem Waiting.run {cfg : IdempotencyConfig} {source : KeySource} {old c d : KeyPool} {n j : Nat}
    {bs : List (Action KeyRequest)} (h : Waiting cfg (source.newKey n) old j c)
    (hbs : (keyServer cfg).Run (fun _ a => Others source a) c bs d) :
    Waiting cfg (source.newKey n) old j d := by
  refine hbs.invariant (P := Waiting cfg (source.newKey n) old j) ?_ h
  intro c a d ha hstep h
  exact h.step hstep fun post hpost => ha post hpost n

namespace Answered

variable {cfg : IdempotencyConfig} {source : KeySource} {user : ObjectId} {body : String}
variable {c d : KeyPool} {attempt : CheckoutAttempt}

theorem waiting (h : Answered cfg source user body c attempt) (n j : Nat) :
    Waiting cfg (source.newKey n) c j c where
  inv := h.inv
  others i post p hp hkey _ := by
    obtain ⟨-, -, -, r, hr, -⟩ := h.sent i post p n hp hkey
    exact ⟨hp, r, hr⟩

theorem submitted (h : Answered cfg source user body c attempt) (n : Nat) (post : CheckoutPost) :
    Waiting cfg (source.newKey n) c c.threads.length
      { c with threads := c.threads ++ [⟨.checkout post, (KeyRequest.checkout post).code cfg⟩] } where
  inv := by
    obtain ⟨at', hplaced, hroute, hbegan⟩ := h.inv
    have hstep : (keyServer cfg).step c (.spawn (.checkout post)) = some
        { c with threads := c.threads ++ [⟨.checkout post, (KeyRequest.checkout post).code cfg⟩] } := rfl
    obtain ⟨moved, hmoved, hmove⟩ := hplaced.step hstep
    exact ⟨moved, hmoved, (hroute.move hmove).1, hbegan.move hroute hstep hmoved hmove⟩
  others i post' p hp hkey hij := by
    have hlt := (List.getElem?_eq_some_iff.1 hp).1
    rw [List.length_append, List.length_singleton] at hlt
    have hp' : c.threads[i]? = some ⟨.checkout post', p⟩ :=
      (List.getElem?_append_left (by omega)).symm.trans hp
    obtain ⟨-, -, -, r, hr, -⟩ := h.sent i post' p n hp' hkey
    exact ⟨hp', r, hr⟩

theorem other (h : Answered cfg source user body c attempt) {a : Action KeyRequest}
    (ha : Others source a) (hstep : (keyServer cfg).step c a = some d) :
    Answered cfg source user body d attempt := by
  have hafter : ∀ n, Waiting cfg (source.newKey n) c d.threads.length d := fun n =>
    (h.waiting n d.threads.length).step hstep fun post hpost => ha post hpost n
  refine ⟨(hafter 0).inv, h.key, h.form, fun i post p n hp hkey => ?_⟩
  have hne : i ≠ d.threads.length := (List.getElem?_eq_some_iff.1 hp).1.ne
  exact h.sent i post p n ((hafter n).others i post p hp hkey hne).1 hkey

theorem submit (h : Answered cfg source user body c attempt) {post : CheckoutPost}
    {bs : List (Action KeyRequest)} {result : Except ApiError (Option Answer)}
    (hkey : post.key = some attempt.key) (huser : post.user = user) (hbody : post.body = body)
    (hrun : (keyServer cfg).Run (fun _ a => Others source a)
      { c with threads := c.threads ++ [⟨.checkout post, (KeyRequest.checkout post).code cfg⟩] } bs d)
    (hdone : d.threads[c.threads.length]? = some ⟨.checkout post, .done result⟩)
    {next : CheckoutAttempt} (hform : ∀ b ∈ next.body, b = body)
    (hnext : next.key = attempt.key ∧ next.drawn = attempt.drawn ∧
        CheckoutAttempt.retryable (statusOf result) ∨
      next.key = source.newKey attempt.drawn ∧ next.drawn = attempt.drawn + 1)
    (hdistinct : source.Distinct next.drawn) : Answered cfg source user body d next := by
  have hafter : ∀ n, Waiting cfg (source.newKey n) c c.threads.length d :=
    fun n => (h.submitted n post).run hrun
  obtain ⟨n₀, hn₀, hkey₀⟩ := h.key
  have hdrawn : attempt.drawn ≤ next.drawn := by
    rcases hnext with ⟨-, hnext, -⟩ | ⟨-, hnext⟩ <;> omega
  -- What was sent before has a key drawn before.
  have hold : ∀ m < attempt.drawn, source.newKey m = next.key →
      source.newKey m = attempt.key ∧ CheckoutAttempt.retryable (statusOf result) := by
    intro m hm hsame
    rcases hnext with ⟨hnext, -, hretry⟩ | ⟨hnext, hmore⟩
    · exact ⟨hsame.trans hnext, hretry⟩
    · have := hdistinct m attempt.drawn (by omega) (by omega)
        (KeySource.newKey_inj.1 (hsame.trans hnext))
      omega
  refine ⟨(hafter 0).inv, ?_, hform, fun i post' p n hp hn => ?_⟩
  · rcases hnext with ⟨hnext, hsame, -⟩ | ⟨hnext, hmore⟩
    · exact ⟨n₀, by omega, hnext.trans hkey₀⟩
    · exact ⟨attempt.drawn, by omega, hnext⟩
  · by_cases hij : i = c.threads.length
    · subst hij
      obtain ⟨hpost, rfl⟩ := Thread.mk.inj (Option.some_inj.1 (hp.symm.trans hdone))
      obtain rfl := KeyRequest.checkout.inj hpost
      have hn' : source.newKey n = source.newKey n₀ :=
        (Option.some_inj.1 (hn.symm.trans hkey)).trans hkey₀
      exact ⟨⟨n₀, by omega, hn'⟩, huser, hbody, result, rfl,
        fun hsame => (hold n₀ hn₀ (hn'.symm.trans hsame)).2⟩
    · obtain ⟨⟨m, hm, hnm⟩, huser', hbody', r, hr, hretry⟩ :=
        h.sent i post' p n ((hafter n).others i post' p hp hn hij).1 hn
      refine ⟨⟨m, by omega, hnm⟩, huser', hbody', r, hr, fun hsame => hretry ?_⟩
      exact hnm.trans (hold m hm (hnm.symm.trans hsame)).1

end Answered

theorem KeySource.Distinct.mono {source : KeySource} {m n : Nat} (h : source.Distinct n) (hmn : m ≤ n) :
    source.Distinct m := fun i j hi hj => h i j (hi.trans_le hmn) (hj.trans_le hmn)

theorem Session.answered {cfg : IdempotencyConfig} {source : KeySource} {user : ObjectId} {body : String}
    {c : KeyPool} {attempt : CheckoutAttempt} (h : Session cfg source user body c attempt) :
    source.Distinct attempt.drawn → Answered cfg source user body c attempt := by
  induction h with
  | start hthreads hkeys hruns =>
    intro _
    refine ⟨⟨fun _ => .find, Placement.of_nil hthreads _, RouteInv.start hkeys hruns, ?_, ?_⟩,
      ⟨0, Nat.one_pos, rfl⟩, nofun, ?_⟩
    · simp [hruns]
    · exact fun _ _ h => by cases h
    · simp [hthreads]
  | other _ ha hstep ih => exact fun hdistinct => (ih hdistinct).other ha hstep
  | @submit c d attempt post bs result _ hkey huser hbody hrun hdone ih =>
    intro hdistinct
    obtain ⟨hsame, hretry⟩ | hreset := (attempt.keyFor source body).answered_cases source (statusOf result)
    all_goals
      have hdrawn : attempt.drawn ≤ (attempt.keyFor source body).drawn := by
        unfold CheckoutAttempt.keyFor
        split_ifs
        · exact Nat.le_succ _
        · exact Nat.le_refl _
    · rw [hsame] at hdistinct ⊢
      have hanswered := ih (hdistinct.mono hdrawn)
      rw [CheckoutAttempt.keyFor_same hanswered.form] at hkey hdistinct ⊢
      exact hanswered.submit hkey huser hbody hrun hdone (by simp) (.inl ⟨rfl, rfl, hretry⟩) hdistinct
    · rw [hreset] at hdistinct ⊢
      have hanswered := ih (hdistinct.mono (hdrawn.trans (Nat.le_succ _)))
      rw [CheckoutAttempt.keyFor_same hanswered.form] at hkey hdistinct ⊢
      exact hanswered.submit hkey huser hbody hrun hdone nofun (.inr ⟨rfl, rfl⟩) hdistinct

/-- The next submit runs the handler, or is refused with a 429 that is not stored, exactly when no run
under its key has been answered with 423 or 429. -/
theorem submit_not_replayed {cfg : IdempotencyConfig} {source : KeySource} {user : ObjectId}
    {body : String} {c d : KeyPool} {attempt : CheckoutAttempt}
    (h : Session cfg source user body c attempt) (hdistinct : source.Distinct attempt.drawn)
    {post : CheckoutPost} (hkey : post.key = some (attempt.keyFor source body).key)
    (huser : post.user = user) (hbody : post.body = body) {bs : List (Action KeyRequest)}
    (hrun : (keyServer cfg).Run
      (fun _ a => Others source a ∧ a ≠ .fault c.threads.length ∧ a ≠ .kill c.threads.length)
      { c with threads := c.threads ++ [⟨.checkout post, (KeyRequest.checkout post).code cfg⟩] } bs d)
    {result : Except ApiError (Option Answer)}
    (hdone : d.threads[c.threads.length]? = some ⟨.checkout post, .done result⟩) :
    ((c.state.runsFor (attempt.keyFor source body).key user).length <
          (d.state.runsFor (attempt.keyFor source body).key user).length ∨
        result = .error stillProcessing ∨ result = .error duplicateRequest) ↔
      ∀ run ∈ c.state.runsFor (attempt.keyFor source body).key user, ∀ answer, run.answer = some answer →
        answer.statusCode ≠ 423 ∧ answer.statusCode ≠ 429 := by
  have hanswered := h.answered hdistinct
  obtain ⟨n, -, hn⟩ := hanswered.key
  have hsame : (attempt.keyFor source body).key = source.newKey n := by
    rw [CheckoutAttempt.keyFor_same hanswered.form, hn]
  rw [hsame] at hkey ⊢
  subst huser hbody
  have hwaiting := hanswered.submitted n post
  have hfind : (KeyRequest.checkout post).code cfg = (KeyStage.find).prog cfg (source.newKey n) post := by
    rcases idempotency_start cfg _ post hkey with ⟨e, hrefused, -⟩ | ⟨-, hfind⟩
    · exact absurd (source.accepted n) hrefused
    · exact hfind
  rw [hfind] at hrun hwaiting
  have hp : (c.threads ++ [⟨.checkout post, (KeyStage.find).prog cfg (source.newKey n) post⟩])[
      c.threads.length]? = some ⟨.checkout post, (KeyStage.find).prog cfg (source.newKey n) post⟩ :=
    List.getElem?_concat_length
  have hrun' := hrun.mono fun _ a ha =>
    And.intro (b := a ≠ .fault c.threads.length ∧ a ≠ .kill c.threads.length)
      (fun post hpost => ha.1 post hpost n : NoOther (source.newKey n) a) ha.2
  -- A run under the key is one of a submit that was answered by a failure that keeps the key.
  obtain ⟨at', -, -, hbegan⟩ := hanswered.inv
  have hrunsFor : ∀ run ∈ c.state.runsFor (source.newKey n) post.user,
      run.requestHash = cfg.sha256 post.body ∧ ∀ answer, run.answer = some answer →
        CheckoutAttempt.retryable answer.statusCode := by
    intro run hmem
    obtain ⟨hmem', hfor⟩ := List.mem_filter.1 hmem
    simp only [HandlerRun.isFor, Bool.and_eq_true, beq_iff_eq] at hfor
    obtain ⟨i, sent, p, hi, hof, hdoneOf⟩ := hbegan.run run hmem'
    obtain ⟨-, -, hbody', r, hr, hretry⟩ :=
      hanswered.sent i sent p n hi (hof.key.trans (congrArg some hfor.1.1))
    refine ⟨hbody' ▸ hof.hash, fun answer hanswer => ?_⟩
    obtain rfl := Prog.done.inj (hr.symm.trans (hdoneOf answer hanswer))
    exact hretry hn.symm
  constructor
  · intro hreached run hmem answer hanswer
    by_contra hstored
    obtain ⟨hhash, -⟩ := hrunsFor run hmem
    obtain ⟨hruns, hd⟩ := hwaiting.replayed hp rfl hrun' hmem hanswer (by omega) hhash
    have hreplayed : result = .ok (some answer) := by
      rcases hd with hd | hd
      · cases (Thread.mk.inj (Option.some_inj.1 (hd.symm.trans hdone))).2
      · exact (Prog.done.inj (Thread.mk.inj (Option.some_inj.1 (hd.symm.trans hdone))).2).symm
    rw [hruns, hreplayed] at hreached
    rcases hreached with hgrown | hrefused | hrefused
    · exact Nat.lt_irrefl _ hgrown
    · cases hrefused
    · cases hrefused
  · intro hfree
    have hold : ∀ run ∈ c.state.runsFor (source.newKey n) post.user,
        run.requestHash = cfg.sha256 post.body ∧ ∀ answer, run.answer = some answer →
          ¬ (100 ≤ answer.statusCode ∧ answer.statusCode < 500) := by
      intro run hmem
      refine ⟨(hrunsFor run hmem).1, fun answer hanswer hstored => ?_⟩
      have hretry := (hrunsFor run hmem).2 answer hanswer
      have hnot := hfree run hmem answer hanswer
      simp only [CheckoutAttempt.retryable, Bool.or_eq_true, beq_iff_eq, decide_eq_true_eq] at hretry
      omega
    refine (hwaiting.enters hp rfl hrun' hold).imp_right ?_
    rintro ⟨st, hst, hd⟩
    have hended := KeyStage.ended_of_done (Thread.mk.inj (Option.some_inj.1 (hd.symm.trans hdone))).2
    subst hended
    cases hst with
    | stillProcessing => exact .inl rfl
    | duplicateRequest => exact .inr rfl

/-! ## Submits that were answered before -/

theorem Session.others {cfg : IdempotencyConfig} {source : KeySource} {user : ObjectId} {body : String}
    {c d : KeyPool} {attempt : CheckoutAttempt} {bs : List (Action KeyRequest)}
    (h : Session cfg source user body c attempt)
    (hbs : (keyServer cfg).Run (fun _ a => Others source a) c bs d) :
    Session cfg source user body d attempt :=
  hbs.invariant (P := fun c => Session cfg source user body c attempt)
    (fun _ _ _ ha hstep h => h.other ha hstep) h

/-- `Others` on `sampleKeys`, for steps that do not fail. -/
def others (_ : KeyPool) : Action KeyRequest → Bool
  | .spawn (.checkout post) => post.key ≠ some (sampleKeys.newKey 0) ∧ post.key ≠ some (sampleKeys.newKey 1)
  | .fault _ | .kill _ => false
  | _ => true

theorem others_of_others {c : KeyPool} {a : Action KeyRequest} (h : others c a) (i : Nat) :
    Others sampleKeys a ∧ a ≠ .fault i ∧ a ≠ .kill i := by
  refine ⟨?_, ?_, ?_⟩
  · rintro post rfl n
    obtain ⟨hzero, hone⟩ := of_decide_eq_true h
    by_cases hn : n = 0
    · exact hn ▸ hzero
    · have hsame : sampleKeys.newKey n = sampleKeys.newKey 1 := by
        rw [KeySource.newKey_inj]
        exact if_neg hn
      exact hsame ▸ hone
  · rintro rfl
    cases h
  · rintro rfl
    cases h

/-- The answer of a thread that has ended. -/
def answerOf (c : KeyPool) (i : Nat) : Option (KeyRequest × Option (Except ApiError (Option Answer))) :=
  c.threads[i]?.map fun t => (t.label, t.prog.result?)

theorem thread_of_answerOf {c : KeyPool} {i : Nat} {l : KeyRequest}
    {r : Except ApiError (Option Answer)} (h : answerOf c i = some (l, some r)) :
    c.threads[i]? = some ⟨l, .done r⟩ := by
  obtain ⟨⟨l', p⟩, ht, hanswer⟩ := Option.map_eq_some_iff.1 h
  obtain ⟨rfl, hp⟩ := Prod.mk.inj hanswer
  cases p with
  | done r' =>
    obtain rfl := Option.some_inj.1 hp
    exact ht
  | call o k => cases hp

/-- A submit that the checkout of another client locks out is answered 423, and so is its retry, without
a run. -/
theorem submit_not_replayed_counterexample :
    ∃ (c d : KeyPool) (attempt : CheckoutAttempt) (post : CheckoutPost) (bs : List (Action KeyRequest))
        (result : Except ApiError (Option Answer)),
      Session sampleIdempotency sampleKeys 1 "form" c attempt ∧ attempt.body = some "form" ∧
      post.key = some (attempt.keyFor sampleKeys "form").key ∧ post.user = 1 ∧ post.body = "form" ∧
      (keyServer sampleIdempotency).Run
        (fun _ a => Others sampleKeys a ∧ a ≠ .fault c.threads.length ∧ a ≠ .kill c.threads.length)
        { c with threads := c.threads ++
            [⟨.checkout post, (KeyRequest.checkout post).code sampleIdempotency⟩] } bs d ∧
      d.threads[c.threads.length]? = some ⟨.checkout post, .done result⟩ ∧
      ¬ ((c.state.runsFor (attempt.keyFor sampleKeys "form").key 1).length <
            (d.state.runsFor (attempt.keyFor sampleKeys "form").key 1).length ∨
          result = .error stillProcessing ∨ result = .error duplicateRequest) := by
  let post := samplePost (sampleKeys.newKey 0)
  let posted : KeyPool → KeyPool := fun c => { c with threads := c.threads ++
    [⟨.checkout post, (KeyRequest.checkout post).code sampleIdempotency⟩] }
  obtain ⟨b, hb, h⟩ := (Option.any_eq_true _ _).1 (by decide +kernel :
    ((keyServer sampleIdempotency).play others ⟨∅, []⟩
      [.spawn (.checkout (samplePost "key-0123456789abc")), .act 0, .act 0, .act 0]).any fun b =>
    decide (b.threads.length = 1) &&
    ((keyServer sampleIdempotency).play others (posted b) [.act 1, .act 1, .act 1, .act 1]).any fun c =>
      decide (c.threads.length = 2 ∧
        answerOf c 1 = some (.checkout post, some (.ok (some lockedAnswer.1)))) &&
      ((keyServer sampleIdempotency).play others (posted c) [.act 2]).any fun d =>
        decide (answerOf d 2 = some (.checkout post, some (.ok (some lockedAnswer.1))) ∧
          (d.state.runsFor (sampleKeys.newKey 0) 1).length =
            (c.state.runsFor (sampleKeys.newKey 0) 1).length))
  simp only [Bool.and_eq_true, decide_eq_true_eq, Option.any_eq_true] at h
  obtain ⟨hone, c, hc, ⟨htwo, hlocked⟩, d, hd, hreplayed, hruns⟩ := h
  have hsession : Session sampleIdempotency sampleKeys 1 "form" b (.new sampleKeys) :=
    Session.others (.start rfl rfl rfl)
      ((System.Run.of_play hb).mono fun _ _ ha => (others_of_others ha 0).1)
  have hanswered := hsession.submit (show post.key = _ from rfl) rfl rfl
    ((System.Run.of_play hc).mono fun _ _ ha => (others_of_others ha 0).1)
    (hone ▸ thread_of_answerOf hlocked)
  refine ⟨c, d, _, post, _, _, hanswered, rfl, rfl, rfl, rfl,
    (System.Run.of_play hd).mono fun _ _ ha => others_of_others ha _,
    htwo ▸ thread_of_answerOf hreplayed, ?_⟩
  rintro (hgrown | hrefused | hrefused)
  · exact hgrown.ne hruns.symm
  · cases hrefused
  · cases hrefused

/-- After a 503 the retry runs the handler again. -/
theorem submit_not_replayed_afterOutage :
    ∃ (c d : KeyPool) (attempt : CheckoutAttempt),
      Session sampleIdempotency sampleKeys 1 "form" c attempt ∧ attempt.body = some "form" ∧
      ((c.state.runsFor (attempt.keyFor sampleKeys "form").key 1).length <
            (d.state.runsFor (attempt.keyFor sampleKeys "form").key 1).length ∨
          (.ok (some (samplePost (sampleKeys.newKey 0)).outcome.1) : Except ApiError (Option Answer)) =
            .error stillProcessing ∨
          (.ok (some (samplePost (sampleKeys.newKey 0)).outcome.1) : Except ApiError (Option Answer)) =
            .error duplicateRequest) := by
  let post := samplePost (sampleKeys.newKey 0)
  let outage : CheckoutPost := { post with outcome := ⟨⟨503, none⟩, by decide⟩ }
  let posted : CheckoutPost → KeyPool → KeyPool := fun post c => { c with threads := c.threads ++
    [⟨.checkout post, (KeyRequest.checkout post).code sampleIdempotency⟩] }
  obtain ⟨c, hc, h⟩ := (Option.any_eq_true _ _).1 (by decide +kernel :
    ((keyServer sampleIdempotency).play others (posted outage ⟨∅, []⟩)
        [.act 0, .act 0, .act 0, .act 0, .act 0]).any fun c =>
      decide (c.threads.length = 1 ∧
        answerOf c 0 = some (.checkout outage, some (.ok (some outage.outcome.1))) ∧
        ∀ run ∈ c.state.runsFor (sampleKeys.newKey 0) 1, run.answer = some outage.outcome.1) &&
      ((keyServer sampleIdempotency).play others (posted post c)
          [.act 1, .act 1, .act 1, .act 1, .act 1]).any fun d =>
        decide (answerOf d 1 = some (.checkout post, some (.ok (some post.outcome.1)))))
  simp only [Bool.and_eq_true, decide_eq_true_eq, Option.any_eq_true] at h
  obtain ⟨⟨hone, hfailed, hruns⟩, d, hd, hdone⟩ := h
  have hsession : Session sampleIdempotency sampleKeys 1 "form" ⟨∅, []⟩ (.new sampleKeys) :=
    .start rfl rfl rfl
  have hanswered := hsession.submit (show outage.key = _ from rfl) rfl rfl
    ((System.Run.of_play hc).mono fun _ _ ha => (others_of_others ha 0).1)
    (thread_of_answerOf hfailed)
  have hdistinct : sampleKeys.Distinct 1 := by
    intro m n hm hn _
    omega
  refine ⟨c, d, _, hanswered, rfl, (submit_not_replayed hanswered hdistinct
    (show post.key = _ from rfl) rfl rfl
    ((System.Run.of_play hd).mono fun _ _ ha => others_of_others ha _)
    (hone ▸ thread_of_answerOf hdone)).2 fun run hmem answer hanswer => ?_⟩
  obtain rfl := Option.some_inj.1 (hanswer.symm.trans (hruns run hmem))
  exact ⟨by decide, by decide⟩

end Ecommerce
