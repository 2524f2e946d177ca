import Ecommerce.Checkout.Records

/-!
# At most one checkout under a key

Search, removal of an abandoned record, creation and persistence are calls of their own, and requests
under one key race between them. While runs are punctual no record is abandoned, so a run of the
handler that has not ended holds the record of its key, and one that has ended with a status below 500
leaves it there, completed; the unique index does the rest.
-/

namespace Ecommerce

open Effect Effect.Collection

/-- Every run of the handler ends within `STALE_PROCESSING_MS` of the creation of its record. -/
def KeyDb.Punctual (s : KeyDb) : Prop :=
  ∀ run ∈ s.runs, run.answer = none → ∀ r, s.keys.get? run.record = some r →
    s.clock - r.createdAt < STALE_PROCESSING_MS

/-- What a request that has met an open record knows of it. -/
def KeyStage.Knows (s : KeyDb) : KeyStage → Prop
  | .now existing => existing.id < s.keys.next ∧
      ∀ r, s.keys.get? existing.id = some r → r.createdAt = existing.createdAt
  | .deleteStale id => id < s.keys.next ∧ ∀ run ∈ s.runs, run.record = id → run.answer ≠ none
  | _ => True

theorem KeyStage.Knows.evolve {u : Option ObjectId} {s t : KeyDb} (h : Evolves u s t) {st : KeyStage}
    (hst : st.Knows s) : st.Knows t := by
  cases st with
  | now existing =>
    obtain ⟨hlt, hcreated⟩ := hst
    refine ⟨hlt.trans_le h.next, fun r' hr' => ?_⟩
    obtain ⟨r, hr, hsame⟩ := h.created _ r' hlt hr'
    exact hsame.trans (hcreated r hr)
  | deleteStale id =>
    obtain ⟨hlt, hended⟩ := hst
    refine ⟨hlt.trans_le h.next, fun run hrun hrecord hactive => ?_⟩
    exact hended run (h.before run hrun (hrecord ▸ hlt) hactive) hrecord hactive
  | _ => trivial

/-- No record of an active run is taken away. -/
structure Unabandoned (s : KeyDb) (at' : Nat → KeyStage) : Prop where
  active : ∀ run ∈ s.runs, run.answer = none → (s.keys.get? run.record).isSome
  knows : ∀ i, (at' i).Knows s

theorem Unabandoned.update {s t : KeyDb} {at' : Nat → KeyStage} (h : Unabandoned s at') (i : Nat)
    (st : KeyStage) (hactive : ∀ run ∈ t.runs, run.answer = none → (t.keys.get? run.record).isSome)
    {u : Option ObjectId} (hevolves : Evolves u s t) (hst : st.Knows t) :
    Unabandoned t (Function.update at' i st) := by
  refine ⟨hactive, fun j => ?_⟩
  by_cases hji : j = i
  · rw [hji, Function.update_self]
    exact hst
  · rw [Function.update_of_ne hji]
    exact (h.knows j).evolve hevolves

theorem Unabandoned.move {cfg : IdempotencyConfig} {c : KeyPool} {a : Action KeyRequest} {t : KeyDb}
    {at' moved : Nat → KeyStage}
    (h : Unabandoned c.state at') (hroute : RouteInv c.state at') (hpunctual : c.state.Punctual)
    (hmove : KeyMove cfg c a at' t moved) : Unabandoned t moved := by
  obtain ⟨-, u, hevolves⟩ := hroute.move hmove
  cases hmove with
  | rest => exact h
  | tick ms => exact ⟨h.active, fun i => (h.knows i).evolve hevolves⟩
  | start i => exact h.update i .find h.active hevolves trivial
  | stop i result => exact h.update i (.ended result) h.active hevolves trivial
  | stage i key post t st ha hthread hkey hstep =>
    have hknows := h.knows i
    clear hthread
    generalize hat : at' i = src at hstep hknows
    cases hstep with
    | @findOpen r hr _ _ _ =>
      refine h.update i (.now r) h.active hevolves ⟨c.state.keys.fresh r hr, fun r' hr' => ?_⟩
      have hget : c.state.keys.get? r.id = some r := get?_eq_some.2 ⟨hr, rfl⟩
      rw [Option.some_inj.1 (hget.symm.trans hr')]
    | @nowStale r hstale =>
      refine h.update i (.deleteStale r.id) h.active hevolves
        ⟨hknows.1, fun run hrun hrecord hactive => ?_⟩
      obtain ⟨r', hr'⟩ := Option.isSome_iff_exists.1 (h.active run hrun hactive)
      exact hstale (hknows.2 r' (hrecord ▸ hr') ▸ hpunctual run hrun hactive r' hr')
    | @deleteStale id =>
      refine h.update i .create (fun run hrun hactive => ?_) hevolves trivial
      obtain heq | ⟨-, -, -, heq⟩ := exec_keyDeleteProcessing id c.state <;> rw [heq] at hrun ⊢
      · exact h.active run hrun hactive
      · refine (congrArg Option.isSome (get?_erase _ _ _)).trans ?_
        rw [if_neg fun hrecord => hknows.2 run hrun hrecord hactive]
        exact h.active run hrun hactive
    | create hfree st hst =>
      refine h.update i st (fun run hrun hactive => ?_) hevolves
        (by cases st <;> trivial)
      rcases List.mem_append.1 hrun with hrun | hrun
      · refine (congrArg Option.isSome ((get?_insert _ _ ((post.draft cfg key).key_record _ _) _).trans
          (if_neg (hroute.keys.fresh run hrun).ne))).trans ?_
        exact h.active run hrun hactive
      · obtain rfl := List.mem_singleton.1 hrun
        exact congrArg Option.isSome (get?_insert_next _ _ ((post.draft cfg key).key_record _ _))
    | acquire t hkeys hruns _ st hst =>
      refine h.update i st (fun run hrun hactive => ?_) hevolves
        (by cases st <;> trivial)
      rw [hkeys]
      exact h.active run (hruns ▸ hrun) hactive
    | release t hkeys hruns _ st hst =>
      refine h.update i st (fun run hrun hactive => ?_) hevolves
        (by cases st <;> trivial)
      rw [hkeys]
      exact h.active run (hruns ▸ hrun) hactive
    | @persistError record outcome herror =>
      refine h.update i (.ended _) (fun run hrun hactive => ?_) hevolves trivial
      obtain ⟨hrun, hne⟩ := mem_settle_active hrun hactive
      refine (congrArg Option.isSome (get?_erase _ _ _)).trans ?_
      rw [if_neg hne]
      exact h.active run hrun hactive
    | @persist record outcome hlt r hr =>
      refine h.update i (.ended _) (fun run hrun hactive => ?_) hevolves trivial
      obtain ⟨hrun, hne⟩ := mem_settle_active hrun hactive
      refine (congrArg Option.isSome (get?_update _ _ _ _)).trans ?_
      rw [if_neg hne]
      exact h.active run hrun hactive
    | _ => exact h.update i _ h.active hevolves (by trivial)

/-- A run that has not ended, or has ended with a status below 500. -/
def HandlerRun.Counts (run : HandlerRun) : Bool := run.answer.all (·.statusCode < 500)

section Counts

variable {s : KeyDb} {at' : Nat → KeyStage} (hkeys : KeyInv s) (h : Unabandoned s at')

include hkeys h

/-- It holds the record of its key. -/
theorem Unabandoned.counts {run : HandlerRun} (hrun : run ∈ s.runs) (hcounts : run.Counts) :
    ∃ r, s.keys.get? run.record = some r ∧ run.Holds r := by
  have hthere : (s.keys.get? run.record).isSome := by
    cases hanswer : run.answer with
    | none => exact h.active run hrun hanswer
    | some outcome =>
      exact hkeys.kept run hrun outcome hanswer (by simpa [HandlerRun.Counts, hanswer] using hcounts)
  obtain ⟨r, hr⟩ := Option.isSome_iff_exists.1 hthere
  exact ⟨r, hr, hkeys.holds run hrun r hr⟩

/-- So there is one such run under a key. -/
theorem Unabandoned.counts_unique {run run' : HandlerRun} (hrun : run ∈ s.runs) (hrun' : run' ∈ s.runs)
    (hcounts : run.Counts) (hcounts' : run'.Counts) {key : String} {user : ObjectId} {route : String}
    (hfor : run.isFor key user route) (hfor' : run'.isFor key user route) : run = run' := by
  obtain ⟨r, hr, hholds⟩ := h.counts hkeys hrun hcounts
  obtain ⟨r', hr', hholds'⟩ := h.counts hkeys hrun' hcounts'
  obtain ⟨hmem, hid⟩ := get?_eq_some.1 hr
  obtain ⟨hmem', hid'⟩ := get?_eq_some.1 hr'
  obtain rfl := hkeys.unique r hmem r' hmem' key user route (hholds.isFor hfor) (hholds'.isFor hfor')
  exact List.inj_on_of_nodup_map hkeys.nodup hrun hrun' (hid.symm.trans hid')

theorem Unabandoned.countP_le_one (key : String) (user : ObjectId) :
    (s.runsFor key user).countP HandlerRun.Counts ≤ 1 := by
  rw [List.countP_eq_length_filter, KeyDb.runsFor, List.filter_filter]
  have hnodup : (s.runs.filter fun run => run.Counts && run.isFor key user CHECKOUT_ROUTE).Nodup :=
    (List.Nodup.of_map _ hkeys.nodup).filter _
  have hunique : ∀ run ∈ s.runs.filter fun run => run.Counts && run.isFor key user CHECKOUT_ROUTE,
      ∀ run' ∈ s.runs.filter fun run => run.Counts && run.isFor key user CHECKOUT_ROUTE,
        run = run' := by
    intro run hrun run' hrun'
    simp only [List.mem_filter, Bool.and_eq_true] at hrun hrun'
    exact h.counts_unique hkeys hrun.1 hrun'.1 hrun.2.1 hrun'.2.1 hrun.2.2 hrun'.2.2
  rcases hlist : s.runs.filter fun run => run.Counts && run.isFor key user CHECKOUT_ROUTE with
    _ | ⟨run, _ | ⟨run', rest⟩⟩
  · exact (congrArg List.length hlist).trans_le (by simp)
  · exact (congrArg List.length hlist).trans_le (by simp)
  · rw [hlist] at hnodup hunique
    have hsame := hunique run (by simp) run' (by simp)
    simp [hsame] at hnodup

end Counts

/-! ## Runs -/

/-- Every run of the handler is punctual, and no call but a search fails. -/
def Prompt (c : KeyPool) (a : Action KeyRequest) : Prop :=
  c.state.Punctual ∧ ∀ i o, a = .fault i ∨ a = .kill i → c.head? i = some o →
    ∃ key user route, o = KeyOp.keyFindOne key user route

/-- The invariants of prompt runs. -/
def PromptInv (cfg : IdempotencyConfig) (c : KeyPool) : Prop :=
  ∃ at', Placement cfg c at' ∧ RouteInv c.state at' ∧ Unabandoned c.state at'

theorem PromptInv.step {cfg : IdempotencyConfig} {c d : KeyPool} {a : Action KeyRequest}
    (h : PromptInv cfg c) (hprompt : Prompt c a) (hstep : (keyServer cfg).step c a = some d) :
    PromptInv cfg d := by
  obtain ⟨at', hplaced, hroute, hthere⟩ := h
  obtain ⟨moved, hmoved, hmove⟩ := hplaced.step hstep
  exact ⟨moved, hmoved, (hroute.move hmove).1, hthere.move hroute hprompt.1 hmove⟩

/-- A run that starts without records reaches states in which the invariants hold. -/
theorem run_promptInv {cfg : IdempotencyConfig} {start c : KeyPool} {as : List (Action KeyRequest)}
    (hthreads : start.threads = []) (hkeys : start.state.keys.docs = []) (hruns : start.state.runs = [])
    (hrun : (keyServer cfg).Run Prompt start as c) : PromptInv cfg c := by
  refine hrun.invariant (fun _ _ _ hprompt hstep h => h.step hprompt hstep)
    ⟨fun _ => .find, .of_nil hthreads _, .start hkeys hruns, ?_⟩
  exact ⟨by simp [hruns], fun _ => trivial⟩

/-- Once a run under the key has ended with a status below 500, nothing adds to its runs or changes
them. -/
theorem PromptInv.settled {cfg : IdempotencyConfig} {c d : KeyPool} {a : Action KeyRequest}
    (h : PromptInv cfg c) (hstep : (keyServer cfg).step c a = some d) {key : String} {user : ObjectId}
    {run : HandlerRun} (hrun : run ∈ c.state.runsFor key user) {outcome : Answer}
    (houtcome : run.answer = some outcome) (hlt : outcome.statusCode < 500) :
    d.state.runsFor key user = c.state.runsFor key user := by
  obtain ⟨at', hplaced, hroute, hthere⟩ := h
  obtain ⟨moved, -, hmove⟩ := hplaced.step hstep
  obtain ⟨hmem, hfor⟩ := List.mem_filter.1 hrun
  have hcounts : run.Counts := by simpa [HandlerRun.Counts, houtcome] using hlt
  obtain ⟨r, hr, hholds⟩ := hthere.counts hroute.keys hmem hcounts
  refine hroute.runsFor_eq hmove (get?_eq_some.1 hr).1 (hholds.isFor hfor) ?_
  -- The run that ends is active, so it is not under this key.
  intro own hown hactive hownfor
  obtain rfl := hthere.counts_unique hroute.keys hown hmem (by simp [HandlerRun.Counts, hactive]) hcounts
    hownfor hfor
  cases hactive.symm.trans houtcome

/-- Under one key, however requests race: at most one run of the handler is active, and at most one
ends with a status below 500. An active run has the record of the key, made for its own body, and no
step starts a run while there is a record. Once a run has ended with a status below 500, no request
runs the handler any more, and every request with the body of that run is answered by its outcome. -/
theorem checkout_at_most_once {cfg : IdempotencyConfig} {start c : KeyPool}
    {as : List (Action KeyRequest)} (hthreads : start.threads = []) (hkeys : start.state.keys.docs = [])
    (hruns : start.state.runs = []) (hrun : (keyServer cfg).Run Prompt start as c) (key : String)
    (user : ObjectId) :
    ((c.state.runsFor key user).countP fun run => run.answer.isNone) ≤ 1 ∧
    ((c.state.runsFor key user).countP fun run => run.answer.any (·.statusCode < 500)) ≤ 1 ∧
    (∀ run ∈ c.state.runsFor key user, run.answer = none → ∃ r ∈ c.state.keys.docs,
      r.id = run.record ∧ r.isFor key user CHECKOUT_ROUTE ∧ r.requestHash = run.requestHash) ∧
    (∀ a d, (keyServer cfg).step c a = some d →
      (∃ r ∈ c.state.keys.docs, r.isFor key user CHECKOUT_ROUTE) →
        (d.state.runsFor key user).length = (c.state.runsFor key user).length) ∧
    ∀ run ∈ c.state.runsFor key user, ∀ outcome, run.answer = some outcome → outcome.statusCode < 500 →
      ∀ bs d, (keyServer cfg).Run Prompt c bs d →
        d.state.runsFor key user = c.state.runsFor key user ∧
        ∀ i post result, c.threads[i]? = none → d.threads[i]? = some ⟨.checkout post, .done result⟩ →
          post.key = some key → post.user = user → cfg.sha256 post.body = run.requestHash →
          (∀ a ∈ bs, a ≠ .fault i ∧ a ≠ .kill i) → result = .ok (some outcome) := by
  have hinv := run_promptInv hthreads hkeys hruns hrun
  obtain ⟨at', hplaced, hroute, hthere⟩ := hinv
  have hcount := hthere.countP_le_one hroute.keys key user
  refine ⟨?_, ?_, ?_, ?_, ?_⟩
  · refine (List.countP_mono_left fun run _ hactive => ?_).trans hcount
    simp_all [HandlerRun.Counts]
  · refine (List.countP_mono_left fun run _ hended => ?_).trans hcount
    obtain ⟨outcome, houtcome, hlt⟩ := (Option.any_eq_true _ _).1 hended
    simpa [HandlerRun.Counts, houtcome] using hlt
  · intro run hmem hactive
    obtain ⟨hmem, hfor⟩ := List.mem_filter.1 hmem
    obtain ⟨r, hr⟩ := Option.isSome_iff_exists.1 (hthere.active run hmem hactive)
    have hholds := hroute.keys.holds run hmem r hr
    obtain ⟨hdoc, hid⟩ := get?_eq_some.1 hr
    exact ⟨r, hdoc, hid, hholds.isFor hfor, hholds.hash⟩
  · rintro a d hstep ⟨r, hr, hfor⟩
    obtain ⟨moved, -, hmove⟩ := hplaced.step hstep
    exact hmove.runsFor_length hr hfor
  · intro run hmem outcome houtcome hlt bs d hbs
    obtain ⟨hmem', hfor⟩ := List.mem_filter.1 hmem
    have haccepted : AcceptedKey key := by
      have hkey := hroute.keys.accepted run hmem'
      simp only [HandlerRun.isFor, Bool.and_eq_true, beq_iff_eq] at hfor
      rwa [hfor.1.1] at hkey
    constructor
    · refine (hbs.invariant (P := fun d => d.state.runsFor key user = c.state.runsFor key user ∧
        PromptInv cfg d) ?_ ⟨rfl, at', hplaced, hroute, hthere⟩).1
      rintro e a f hprompt hstep ⟨hsame, hinv⟩
      exact ⟨(hinv.settled hstep (hsame ▸ hmem) houtcome hlt).trans hsame, hinv.step hprompt hstep⟩
    · rintro i post result hnone hd hkey rfl hhash hacts
      have hstood := (hbs.of_forall hacts).invariant (P := fun c => PromptInv cfg c ∧
        run ∈ c.state.runsFor key post.user ∧ ∀ p, c.threads[i]? = some ⟨.checkout post, p⟩ →
          p = (KeyStage.find).prog cfg key post ∨ p = .done (.ok (some outcome))) ?_
        ⟨⟨at', hplaced, hroute, hthere⟩, hmem, fun p hp => by simp [hnone] at hp⟩
      · rcases hstood.2.2 _ hd with hfind | hdone
        · cases hfind
        · exact Prog.done.inj hdone
      · rintro c a d ⟨hprompt, hact⟩ hstep ⟨hinv, hmem, hstood⟩
        refine ⟨hinv.step hprompt hstep, hinv.settled hstep hmem houtcome hlt ▸ hmem, fun p hp => ?_⟩
        obtain ⟨at', -, hroute, -⟩ := hinv
        obtain ⟨p₀, hp₀⟩ | rfl := System.step_new hstep hp
        · rcases hstood p₀ hp₀ with rfl | rfl
          · rcases hroute.replayed hstep hmem houtcome hlt hhash hact hp₀ with hd | hd
            · exact .inl (Thread.mk.inj (Option.some_inj.1 (hp.symm.trans hd))).2
            · exact .inr (Thread.mk.inj (Option.some_inj.1 (hp.symm.trans hd))).2
          · obtain ⟨-, -, -, hd⟩ | ⟨o, k, hprog, -⟩ := (keyServer cfg).step_thread hstep hp₀
            · exact .inr (Thread.mk.inj (Option.some_inj.1 (hp.symm.trans hd))).2
            · cases hprog
        · rcases idempotency_start cfg key post hkey with ⟨e, hrefused, -⟩ | ⟨-, hfind⟩
          · exact absurd haccepted hrefused
          · exact .inl hfind

/-- `Prompt`, for steps that do not fail. -/
def promptly (c : KeyPool) : Action KeyRequest → Bool
  | .fault _ | .kill _ => false
  | _ => c.state.runs.all fun run => run.answer.isSome ||
      (c.state.keys.get? run.record).all fun r => c.state.clock - r.createdAt < STALE_PROCESSING_MS

theorem prompt_of_promptly {c : KeyPool} {a : Action KeyRequest} (h : promptly c a) : Prompt c a := by
  have hpunctual : c.state.runs.all (fun run => run.answer.isSome || (c.state.keys.get? run.record).all
      fun r => c.state.clock - r.createdAt < STALE_PROCESSING_MS) → c.state.Punctual := by
    intro hall run hrun hactive r hr
    have hone := List.all_eq_true.1 hall run hrun
    simpa [hactive, hr] using hone
  cases a with
  | spawn l => exact ⟨hpunctual h, by simp⟩
  | act i => exact ⟨hpunctual h, by simp⟩
  | fault i => cases h
  | kill i => cases h

/-- Two requests under one key that both find no record: one runs the handler, and it succeeds. -/
theorem checkout_at_most_once_race :
    ∃ c : KeyPool, (keyServer sampleIdempotency).Run Prompt ⟨∅, []⟩
        [.spawn (.checkout (samplePost "key-0123456789abc")), .act 0,
          .spawn (.checkout (samplePost "key-0123456789abc")), .act 1, .act 1, .act 0, .act 1, .act 1,
          .act 1] c ∧
      c.state.runsFor "key-0123456789abc" 1 = [⟨0, "key-0123456789abc", 1, CHECKOUT_ROUTE, "form",
        some (samplePost "key-0123456789abc").outcome.1⟩] ∧
      ((c.state.runsFor "key-0123456789abc" 1).countP fun run => run.answer.isNone) ≤ 1 ∧
      ((c.state.runsFor "key-0123456789abc" 1).countP
        fun run => run.answer.any (·.statusCode < 500)) ≤ 1 := by
  obtain ⟨c, hc, h⟩ := (Option.any_eq_true _ _).1 (by decide +kernel :
    ((keyServer sampleIdempotency).play promptly ⟨∅, []⟩
      [.spawn (.checkout (samplePost "key-0123456789abc")), .act 0,
        .spawn (.checkout (samplePost "key-0123456789abc")), .act 1, .act 1, .act 0, .act 1, .act 1,
        .act 1]).any fun c =>
      decide (c.state.runsFor "key-0123456789abc" 1 = [⟨0, "key-0123456789abc", 1, CHECKOUT_ROUTE, "form",
        some (samplePost "key-0123456789abc").outcome.1⟩]))
  have hrun := (System.Run.of_play hc).mono fun _ _ => prompt_of_promptly
  have hatmost := checkout_at_most_once rfl rfl rfl hrun "key-0123456789abc" 1
  exact ⟨c, hrun, by simpa using h, hatmost.1, hatmost.2.1⟩

end Ecommerce
