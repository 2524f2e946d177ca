import Ecommerce.Checkout.Stages

/-!
# Key records and the runs behind them

Every record lets one run of the handler start, and only that run's request completes it or takes it
away again. What is stored under a completed record is the outcome of its run.
-/

namespace Ecommerce

open Effect Effect.Collection

/-- The run is one under the key. -/
def HandlerRun.isFor (run : HandlerRun) (key : String) (user : ObjectId) (route : String) : Bool :=
  run.key == key && run.user == user && run.route == route

/-- The record is that of the run: under its key, for its body, and in its state. -/
structure HandlerRun.Holds (run : HandlerRun) (r : IdempotencyKeyRecord) : Prop where
  key : r.isFor run.key run.user run.route
  hash : r.requestHash = run.requestHash
  active : run.answer = none → r.status = .processing
  stored : ∀ outcome, run.answer = some outcome → r.status = .completed ∧ r.replay = outcome
  client : ∀ outcome, run.answer = some outcome → 100 ≤ outcome.statusCode ∧ outcome.statusCode < 500

theorem HandlerRun.Holds.isFor {run : HandlerRun} {r : IdempotencyKeyRecord} (h : run.Holds r)
    {key : String} {user : ObjectId} {route : String} (hrun : run.isFor key user route) :
    r.isFor key user route := by
  simp only [HandlerRun.isFor, Bool.and_eq_true, beq_iff_eq] at hrun
  obtain ⟨⟨rfl, rfl⟩, rfl⟩ := hrun
  exact h.key

/-- What holds of the records and the runs at all times. -/
structure KeyInv (s : KeyDb) : Prop where
  accepted : ∀ run ∈ s.runs, AcceptedKey run.key
  unique : ∀ r ∈ s.keys.docs, ∀ r' ∈ s.keys.docs, ∀ key user route,
    r.isFor key user route → r'.isFor key user route → r = r'
  fresh : ∀ run ∈ s.runs, run.record < s.keys.next
  nodup : (s.runs.map (·.record)).Nodup
  ran : ∀ r ∈ s.keys.docs, ∃ run ∈ s.runs, run.record = r.id
  holds : ∀ run ∈ s.runs, ∀ r, s.keys.get? run.record = some r → run.Holds r
  kept : ∀ run ∈ s.runs, ∀ outcome, run.answer = some outcome → outcome.statusCode < 500 →
    (s.keys.get? run.record).isSome

/-- How the store may change for the requests that do not run under `own`. -/
structure Evolves (own : Option ObjectId) (s t : KeyDb) : Prop where
  next : s.keys.next ≤ t.keys.next
  created : ∀ id r', id < s.keys.next → t.keys.get? id = some r' →
    ∃ r, s.keys.get? id = some r ∧ r'.createdAt = r.createdAt
  before : ∀ run ∈ t.runs, run.record < s.keys.next → run.answer = none → run ∈ s.runs
  after : ∀ run ∈ s.runs, run.answer = none → own ≠ some run.record → run ∈ t.runs

section Writes

variable {s t : KeyDb}

theorem KeyInv.of_same (h : KeyInv s) (hkeys : t.keys = s.keys) (hruns : t.runs = s.runs) : KeyInv t := by
  obtain ⟨haccepted, hunique, hfresh, hnodup, hran, hholds, hkept⟩ := h
  constructor <;> simpa only [hkeys, hruns]

theorem Evolves.of_same (hkeys : t.keys = s.keys) (hruns : t.runs = s.runs) : Evolves none s t where
  next := by rw [hkeys]
  created id r' _ hr' := ⟨r', hkeys ▸ hr', rfl⟩
  before run hrun _ _ := hruns ▸ hrun
  after run hrun _ _ := hruns ▸ hrun

/-- A record that is there after a removal was there before. -/
theorem get?_of_erase {c : Collection IdempotencyKeyRecord} {id i : ObjectId} {r : IdempotencyKeyRecord}
    (h : (c.erase id).get? i = some r) : i ≠ id ∧ c.get? i = some r := by
  have hget := get?_erase c id i
  split at hget
  · cases h.symm.trans hget
  · next hne => exact ⟨hne, hget.symm.trans h⟩

/-- Removing a record that is not completed. -/
theorem KeyInv.erase (h : KeyInv s) {id : ObjectId}
    (hopen : ∀ r, s.keys.get? id = some r → r.status ≠ .completed) :
    KeyInv { s with keys := s.keys.erase id } where
  accepted := h.accepted
  unique r hr r' hr' := h.unique r (mem_erase.1 hr).1 r' (mem_erase.1 hr').1
  fresh := h.fresh
  nodup := h.nodup
  ran r hr := h.ran r (mem_erase.1 hr).1
  holds run hrun r hr := h.holds run hrun r (get?_of_erase hr).2
  kept run hrun outcome houtcome hlt := by
    obtain ⟨r, hr⟩ := Option.isSome_iff_exists.1 (h.kept run hrun outcome houtcome hlt)
    have hne : run.record ≠ id := fun hid =>
      hopen r (hid ▸ hr) ((h.holds run hrun r hr).stored outcome houtcome).1
    refine Option.isSome_iff_exists.2 ⟨r, (get?_erase _ _ _).trans ?_⟩
    rw [if_neg hne, hr]

theorem Evolves.erase (s : KeyDb) (id : ObjectId) :
    Evolves none s { s with keys := s.keys.erase id } where
  next := le_refl _
  created _ r' _ hr' := ⟨r', (get?_of_erase hr').2, rfl⟩
  before _ hrun _ _ := hrun
  after _ hrun _ _ := hrun

/-- Only a record that is being processed is taken for abandoned. -/
theorem exec_keyDeleteProcessing (id : ObjectId) (s : KeyDb) :
    (keyMongo.exec (.keyDeleteProcessing id) s).2 = s ∨
    ∃ r, s.keys.get? id = some r ∧ r.status = .processing ∧
      (keyMongo.exec (.keyDeleteProcessing id) s).2 = { s with keys := s.keys.erase id } := by
  simp only [keyMongo, KeyDb.exec]
  split
  · next r hr =>
    split
    · next hprocessing => exact .inr ⟨r, hr, hprocessing, rfl⟩
    · exact .inl rfl
  · exact .inl rfl

/-- A new record, with the run that it lets start. -/
theorem KeyInv.create (h : KeyInv s) (d : KeyDraft) (hkey : AcceptedKey d.key)
    (hfree : ∀ r ∈ s.keys.docs, ¬ r.isFor d.key d.user d.route) : KeyInv { s with
      keys := s.keys.insert (d.record s.keys.next s.clock) (d.key_record _ _)
      runs := s.runs ++ [d.run s.keys.next] } where
  accepted run hrun := by
    rcases List.mem_append.1 hrun with hrun | hrun
    · exact h.accepted run hrun
    · obtain rfl := List.mem_singleton.1 hrun
      exact hkey
  unique r hr r' hr' key user route hfor hfor' := by
    have hnew : ∀ x ∈ s.keys.docs, x.isFor key user route →
        (d.record s.keys.next s.clock).isFor key user route → False := by
      intro x hx hxfor hdfor
      refine hfree x hx ?_
      simp only [IdempotencyKeyRecord.isFor, KeyDraft.record, Bool.and_eq_true, beq_iff_eq] at hdfor hxfor ⊢
      obtain ⟨⟨rfl, rfl⟩, rfl⟩ := hdfor
      exact hxfor
    rcases (mem_insert (h := d.key_record _ _)).1 hr with hr | rfl <;>
      rcases (mem_insert (h := d.key_record _ _)).1 hr' with hr' | rfl
    · exact h.unique r hr r' hr' key user route hfor hfor'
    · exact (hnew r hr hfor hfor').elim
    · exact (hnew r' hr' hfor' hfor).elim
    · rfl
  fresh run hrun := by
    rcases List.mem_append.1 hrun with hrun | hrun
    · exact (h.fresh run hrun).trans (Nat.lt_succ_self _)
    · obtain rfl := List.mem_singleton.1 hrun
      exact Nat.lt_succ_self _
  nodup := by
    rw [List.map_append, List.nodup_append]
    refine ⟨h.nodup, by simp, ?_⟩
    intro id hid id' hid'
    obtain ⟨run, hrun, rfl⟩ := List.mem_map.1 hid
    obtain rfl : id' = s.keys.next := by simpa [KeyDraft.run] using hid'
    exact (h.fresh run hrun).ne
  ran r hr := by
    rcases (mem_insert (h := d.key_record _ _)).1 hr with hr | rfl
    · obtain ⟨run, hrun, hrecord⟩ := h.ran r hr
      exact ⟨run, List.mem_append_left _ hrun, hrecord⟩
    · exact ⟨_, List.mem_append_right _ (List.mem_singleton_self _), rfl⟩
  holds run hrun r hr := by
    rcases List.mem_append.1 hrun with hrun | hrun
    · refine h.holds run hrun r ?_
      exact ((get?_insert _ _ (d.key_record _ _) _).trans (if_neg (h.fresh run hrun).ne)).symm.trans hr
    · obtain rfl := List.mem_singleton.1 hrun
      obtain rfl := Option.some_inj.1 ((get?_insert_next _ _ (d.key_record _ _)).symm.trans hr)
      exact ⟨by simp [IdempotencyKeyRecord.isFor, KeyDraft.run, KeyDraft.record], rfl, fun _ => rfl, nofun, nofun⟩
  kept run hrun outcome houtcome hlt := by
    rcases List.mem_append.1 hrun with hrun | hrun
    · refine (congrArg Option.isSome ((get?_insert _ _ (d.key_record _ _) _).trans
        (if_neg (h.fresh run hrun).ne))).trans ?_
      exact h.kept run hrun outcome houtcome hlt
    · obtain rfl := List.mem_singleton.1 hrun
      cases houtcome

theorem Evolves.create (s : KeyDb) (d : KeyDraft) : Evolves none s { s with
      keys := s.keys.insert (d.record s.keys.next s.clock) (d.key_record _ _)
      runs := s.runs ++ [d.run s.keys.next] } where
  next := Nat.le_succ _
  created id r' hlt hr' :=
    ⟨r', ((get?_insert _ _ (d.key_record _ _) _).trans (if_neg hlt.ne)).symm.trans hr', rfl⟩
  before run hrun hlt _ := by
    rcases List.mem_append.1 hrun with hrun | hrun
    · exact hrun
    · obtain rfl := List.mem_singleton.1 hrun
      exact absurd hlt (lt_irrefl _)
  after run hrun _ _ := List.mem_append_left _ hrun

/-! ## The end of a run -/

section Settle

variable (id : ObjectId) (outcome : Answer) (run : HandlerRun)

@[simp] theorem HandlerRun.settle_record : (run.settle id outcome).record = run.record := by
  unfold HandlerRun.settle
  split <;> rfl

@[simp] theorem HandlerRun.settle_key : (run.settle id outcome).key = run.key := by
  unfold HandlerRun.settle
  split <;> rfl

@[simp] theorem HandlerRun.settle_isFor (key : String) (user : ObjectId) (route : String) :
    (run.settle id outcome).isFor key user route = run.isFor key user route := by
  unfold HandlerRun.settle
  split <;> rfl

theorem HandlerRun.settle_self : run.settle run.record outcome = { run with answer := some outcome } :=
  if_pos rfl

variable {id run} in
theorem HandlerRun.settle_of_ne (h : run.record ≠ id) : run.settle id outcome = run := if_neg h

theorem settle_records (runs : List HandlerRun) :
    (runs.map (HandlerRun.settle id outcome)).map (·.record) = runs.map (·.record) := by
  simp [Function.comp_def]

end Settle

/-- A run that is still active after another has been settled was there before. -/
theorem mem_settle_active {runs : List HandlerRun} {id : ObjectId} {outcome : Answer} {run : HandlerRun}
    (h : run ∈ runs.map (HandlerRun.settle id outcome)) (hnone : run.answer = none) :
    run ∈ runs ∧ run.record ≠ id := by
  obtain ⟨run₀, hrun₀, rfl⟩ := List.mem_map.1 h
  by_cases hid : run₀.record = id
  · subst hid
    rw [HandlerRun.settle_self] at hnone
    cases hnone
  · rw [HandlerRun.settle_of_ne _ hid]
    exact ⟨hrun₀, hid⟩

theorem Evolves.settle {id : ObjectId} {outcome : Answer} (hnext : t.keys.next = s.keys.next)
    (hcreated : ∀ id r', t.keys.get? id = some r' →
      ∃ r, s.keys.get? id = some r ∧ r'.createdAt = r.createdAt)
    (hruns : t.runs = s.runs.map (HandlerRun.settle id outcome)) : Evolves (some id) s t where
  next := hnext.ge
  created id r' _ := hcreated id r'
  before run hrun _ hnone := (mem_settle_active (hruns ▸ hrun) hnone).1
  after run hrun _ hne := by
    rw [hruns]
    exact List.mem_map.2 ⟨run, hrun, HandlerRun.settle_of_ne _ fun h => hne (h ▸ rfl)⟩

/-- A run that ends with a server error, and takes its record with it. -/
theorem KeyInv.settle_error (h : KeyInv s) (id : ObjectId) {outcome : Answer}
    (herror : 500 ≤ outcome.statusCode) (hopen : ∀ r, s.keys.get? id = some r → r.status ≠ .completed) :
    KeyInv { s with
      keys := s.keys.erase id
      runs := s.runs.map (HandlerRun.settle id outcome) } where
  accepted run hrun := by
    obtain ⟨run₀, hrun₀, rfl⟩ := List.mem_map.1 hrun
    rw [HandlerRun.settle_key]
    exact h.accepted run₀ hrun₀
  unique r hr r' hr' := h.unique r (mem_erase.1 hr).1 r' (mem_erase.1 hr').1
  fresh run hrun := by
    obtain ⟨run₀, hrun₀, rfl⟩ := List.mem_map.1 hrun
    rw [HandlerRun.settle_record]
    exact h.fresh run₀ hrun₀
  nodup := by
    rw [settle_records]
    exact h.nodup
  ran r hr := by
    obtain ⟨run, hrun, hrecord⟩ := h.ran r (mem_erase.1 hr).1
    exact ⟨_, List.mem_map_of_mem hrun, by rw [HandlerRun.settle_record, hrecord]⟩
  holds run hrun r hr := by
    obtain ⟨run₀, hrun₀, rfl⟩ := List.mem_map.1 hrun
    obtain ⟨hne, hr⟩ := get?_of_erase hr
    rw [HandlerRun.settle_record] at hne hr
    rw [HandlerRun.settle_of_ne _ hne]
    exact h.holds run₀ hrun₀ r hr
  kept run hrun outcome' houtcome hlt := by
    obtain ⟨run₀, hrun₀, rfl⟩ := List.mem_map.1 hrun
    by_cases hid : run₀.record = id
    · subst hid
      rw [HandlerRun.settle_self] at houtcome
      obtain rfl := Option.some_inj.1 houtcome
      exact absurd herror (Nat.not_le.2 hlt)
    · rw [HandlerRun.settle_of_ne _ hid] at houtcome ⊢
      exact (h.erase hopen).kept run₀ hrun₀ outcome' houtcome hlt

theorem IdempotencyKeyRecord.replay_complete {outcome : Answer} (h : 100 ≤ outcome.statusCode)
    (r : IdempotencyKeyRecord) : ((IdempotencyKeyRecord.complete outcome).run r).replay = outcome := by
  have hne : outcome.statusCode ≠ 0 := by omega
  simp [IdempotencyKeyRecord.replay, IdempotencyKeyRecord.complete, Option.filter_some, hne]

/-- A run that ends with another outcome, which is stored. -/
theorem KeyInv.complete (h : KeyInv s) {id : ObjectId} {outcome : Outcome} {r : IdempotencyKeyRecord}
    (hr : s.keys.get? id = some r) (hlt : outcome.1.statusCode < 500) :
    KeyInv { s with
      keys := s.keys.update id (IdempotencyKeyRecord.complete outcome.1)
      runs := s.runs.map (HandlerRun.settle id outcome.1) } where
  accepted run hrun := by
    obtain ⟨run₀, hrun₀, rfl⟩ := List.mem_map.1 hrun
    rw [HandlerRun.settle_key]
    exact h.accepted run₀ hrun₀
  unique r hr r' hr' key user route hfor hfor' := by
    obtain ⟨x, hx, rfl⟩ := mem_modify.1 hr
    obtain ⟨x', hx', rfl⟩ := mem_modify.1 hr'
    have hsame : x = x' := by
      refine h.unique x hx x' hx' key user route ?_ ?_
      · split at hfor <;> exact hfor
      · split at hfor' <;> exact hfor'
    rw [hsame]
  fresh run hrun := by
    obtain ⟨run₀, hrun₀, rfl⟩ := List.mem_map.1 hrun
    rw [HandlerRun.settle_record]
    exact h.fresh run₀ hrun₀
  nodup := by
    rw [settle_records]
    exact h.nodup
  ran r hr := by
    obtain ⟨x, hx, rfl⟩ := mem_modify.1 hr
    obtain ⟨run, hrun, hrecord⟩ := h.ran x hx
    refine ⟨_, List.mem_map_of_mem hrun, ?_⟩
    rw [HandlerRun.settle_record, hrecord]
    split <;> rfl
  holds run hrun r' hr' := by
    obtain ⟨run₀, hrun₀, rfl⟩ := List.mem_map.1 hrun
    rw [HandlerRun.settle_record] at hr'
    by_cases hsame : run₀.record = id
    · subst hsame
      have hget := (get?_update_self s.keys run₀.record (IdempotencyKeyRecord.complete outcome.1)).symm.trans hr'
      rw [hr] at hget
      obtain rfl := Option.some_inj.1 hget
      have hholds := h.holds run₀ hrun₀ r hr
      rw [HandlerRun.settle_self]
      refine ⟨hholds.key, hholds.hash, nofun, fun outcome' houtcome => ⟨rfl, ?_⟩,
        fun outcome' houtcome => ?_⟩
      · rw [← Option.some_inj.1 houtcome]
        exact IdempotencyKeyRecord.replay_complete outcome.2 r
      · exact Option.some_inj.1 houtcome ▸ ⟨outcome.2, hlt⟩
    · rw [HandlerRun.settle_of_ne _ hsame]
      refine h.holds run₀ hrun₀ r' ?_
      exact ((get?_update _ _ _ _).trans (if_neg hsame)).symm.trans hr'
  kept run hrun outcome' houtcome hlt' := by
    obtain ⟨run₀, hrun₀, rfl⟩ := List.mem_map.1 hrun
    rw [HandlerRun.settle_record]
    by_cases hsame : run₀.record = id
    · refine (congrArg Option.isSome (get?_update _ _ _ _)).trans ?_
      rw [if_pos hsame, hsame, hr]
      rfl
    · rw [HandlerRun.settle_of_ne _ hsame] at houtcome
      refine (congrArg Option.isSome ((get?_update _ _ _ _).trans (if_neg hsame))).trans ?_
      exact h.kept run₀ hrun₀ outcome' houtcome hlt'

end Writes
/-! ## The route -/

/-- What holds of the store and of where the requests stand: whoever runs the handler does so under a
record of its own. -/
structure RouteInv (s : KeyDb) (at' : Nat → KeyStage) : Prop where
  keys : KeyInv s
  run : ∀ i record, (at' i).record? = some record →
    ∃ run ∈ s.runs, run.record = record ∧ run.answer = none
  owner : ∀ i j record, (at' i).record? = some record → (at' j).record? = some record → i = j

theorem RouteInv.lt {s : KeyDb} {at' : Nat → KeyStage} (h : RouteInv s at') {i : Nat}
    {record : ObjectId} (hi : (at' i).record? = some record) : record < s.keys.next := by
  obtain ⟨run, hrun, rfl, -⟩ := h.run i record hi
  exact h.keys.fresh run hrun

/-- The record of a run that has not ended is not completed. -/
theorem RouteInv.unfinished {s : KeyDb} {at' : Nat → KeyStage} (h : RouteInv s at') {i : Nat}
    {record : ObjectId} (hi : (at' i).record? = some record) {r : IdempotencyKeyRecord}
    (hr : s.keys.get? record = some r) : r.status ≠ .completed := by
  obtain ⟨run, hrun, rfl, hactive⟩ := h.run i record hi
  rw [(h.keys.holds run hrun r hr).active hactive]
  nofun

/-- One request goes on to another stage. -/
theorem RouteInv.update {s t : KeyDb} {at' : Nat → KeyStage} (h : RouteInv s at') (hkeys : KeyInv t)
    {i : Nat} {u : Option ObjectId} (hevolves : Evolves u s t)
    (hown : ∀ record, u = some record → (at' i).record? = some record) {st : KeyStage}
    (hst : ∀ record, st.record? = some record →
      (∃ run ∈ t.runs, run.record = record ∧ run.answer = none) ∧
        ((at' i).record? = some record ∨ record = s.keys.next)) :
    RouteInv t (Function.update at' i st) := by
  have hnew : ∀ j record, j ≠ i → st.record? = some record → (at' j).record? ≠ some record := by
    intro j record hne hrec hj
    rcases (hst record hrec).2 with hi | rfl
    · exact hne (h.owner j i record hj hi)
    · exact lt_irrefl _ (h.lt hj)
  refine ⟨hkeys, fun j record hj => ?_, fun j k record hj hk => ?_⟩
  · by_cases hji : j = i
    · rw [hji, Function.update_self] at hj
      exact (hst record hj).1
    · rw [Function.update_of_ne hji] at hj
      obtain ⟨run, hrun, rfl, hactive⟩ := h.run j record hj
      refine ⟨run, hevolves.after run hrun hactive fun hsame => ?_, rfl, hactive⟩
      exact hji (h.owner j i _ hj (hown _ hsame))
  · by_cases hji : j = i <;> by_cases hki : k = i
    · rw [hji, hki]
    · rw [hji, Function.update_self] at hj
      rw [Function.update_of_ne hki] at hk
      exact absurd hk (hnew k record hki hj)
    · rw [hki, Function.update_self] at hk
      rw [Function.update_of_ne hji] at hj
      exact absurd hj (hnew j record hji hk)
    · rw [Function.update_of_ne hji] at hj
      rw [Function.update_of_ne hki] at hk
      exact h.owner j k record hj hk

/-- A step keeps the invariant, and the store evolves for all but the request that moves. -/
theorem RouteInv.move {cfg : IdempotencyConfig} {c : KeyPool} {a : Action KeyRequest} {t : KeyDb}
    {at' moved : Nat → KeyStage}
    (h : RouteInv c.state at') (hmove : KeyMove cfg c a at' t moved) :
    RouteInv t moved ∧ ∃ u, Evolves u c.state t := by
  have hsame := Evolves.of_same (s := c.state) (t := c.state) rfl rfl
  cases hmove with
  | rest => exact ⟨h, none, hsame⟩
  | tick ms => exact ⟨⟨h.keys.of_same rfl rfl, h.run, h.owner⟩, none, .of_same rfl rfl⟩
  | start i => exact ⟨h.update h.keys hsame (by simp) (by simp [KeyStage.record?]), none, hsame⟩
  | stop i result => exact ⟨h.update h.keys hsame (by simp) (by simp [KeyStage.record?]), none, hsame⟩
  | stage i key post t st ha hthread hkey hstep =>
    have hrun := h.run i
    have hopen : ∀ record, (at' i).record? = some record → ∀ r, c.state.keys.get? record = some r →
        r.status ≠ .completed := fun record hi r hr => h.unfinished hi hr
    have hstays : ∀ st : KeyStage, st.record? = none →
        RouteInv c.state (Function.update at' i st) ∧ ∃ u, Evolves u c.state c.state := by
      intro st hst
      refine ⟨h.update h.keys hsame (by simp) fun record hrecord => ?_, none, hsame⟩
      cases hst.symm.trans hrecord
    clear hthread
    generalize hat : at' i = src at hstep hrun hopen
    -- The lock of a record is taken or given back.
    have hlocks : ∀ {record : ObjectId} {t : KeyDb} {st : KeyStage}, t.keys = c.state.keys →
        t.runs = c.state.runs → src.record? = some record → st.record? = some record →
        RouteInv t (Function.update at' i st) ∧ ∃ u, Evolves u c.state t := by
      intro record t st hkeys hruns hsrc hst
      refine ⟨h.update (h.keys.of_same hkeys hruns) (.of_same hkeys hruns) (by simp) ?_, none,
        .of_same hkeys hruns⟩
      intro record' hrecord'
      obtain rfl := Option.some_inj.1 (hst.symm.trans hrecord')
      exact ⟨hruns ▸ hrun record hsrc, .inl (by rw [hat]; exact hsrc)⟩
    cases hstep with
    | @deleteStale id =>
      have hboth : KeyInv (keyMongo.exec (.keyDeleteProcessing id) c.state).2 ∧
          Evolves none c.state (keyMongo.exec (.keyDeleteProcessing id) c.state).2 := by
        obtain heq | ⟨r, hr, hprocessing, heq⟩ := exec_keyDeleteProcessing id c.state <;> rw [heq]
        · exact ⟨h.keys, hsame⟩
        · refine ⟨h.keys.erase fun r' hr' => ?_, .erase c.state id⟩
          rw [← Option.some_inj.1 (hr.symm.trans hr'), hprocessing]
          nofun
      exact ⟨h.update hboth.1 hboth.2 (by simp) (by simp [KeyStage.record?]), none, hboth.2⟩
    | create hfree st hst =>
      refine ⟨h.update (h.keys.create (post.draft cfg key) hkey.2 hfree) (.create _ _) (by simp) ?_, none,
        .create _ _⟩
      intro record hrecord
      obtain rfl := Option.some_inj.1 (hrecord.symm.trans hst)
      exact ⟨⟨_, List.mem_append_right _ (List.mem_singleton_self _), rfl, rfl⟩, .inr rfl⟩
    | @acquire record t hkeys hruns _ st hst =>
      exact hlocks hkeys hruns rfl hst
    | @release record token t hkeys hruns _ st hst =>
      exact hlocks hkeys hruns rfl hst
    | @persistError record outcome herror =>
      have hevolves : Evolves (some record) c.state { c.state with
          keys := c.state.keys.erase record
          runs := c.state.runs.map (HandlerRun.settle record outcome.1) } :=
        .settle rfl (fun id r' hr' => ⟨r', (get?_of_erase hr').2, rfl⟩) rfl
      refine ⟨h.update (h.keys.settle_error record herror fun r hr => hopen record rfl r hr) hevolves ?_
        (by simp [KeyStage.record?]), some record, hevolves⟩
      rw [hat]
      rintro _ ⟨⟩
      rfl
    | @persist record outcome hlt r hr =>
      have hevolves : Evolves (some record) c.state { c.state with
          keys := c.state.keys.update record (IdempotencyKeyRecord.complete outcome.1)
          runs := c.state.runs.map (HandlerRun.settle record outcome.1) } := by
        refine .settle rfl (fun id r' hr' => ?_) rfl
        have hget := get?_update c.state.keys record id (IdempotencyKeyRecord.complete outcome.1)
        split at hget
        · obtain ⟨x, hx, hxr⟩ := Option.map_eq_some_iff.1 (hget.symm.trans hr')
          exact ⟨x, hx, hxr ▸ rfl⟩
        · exact ⟨r', hget.symm.trans hr', rfl⟩
      refine ⟨h.update (h.keys.complete hr hlt) hevolves ?_ (by simp [KeyStage.record?]), some record, hevolves⟩
      rw [hat]
      rintro _ ⟨⟩
      rfl
    | _ => exact hstays _ rfl

/-- What a step does to the history: nothing, or it starts a run, for which there must be no record, or
it ends one. -/
theorem KeyMove.runs {cfg : IdempotencyConfig} {c : KeyPool} {a : Action KeyRequest} {t : KeyDb}
    {at' moved : Nat → KeyStage}
    (hmove : KeyMove cfg c a at' t moved) :
    t.runs = c.state.runs ∨
    (∃ i post key, a = .act i ∧ at' i = .create ∧ post.key = some key ∧
      c.threads[i]? = some ⟨.checkout post, (at' i).prog cfg key post⟩ ∧
      t.runs = c.state.runs ++ [(post.draft cfg key).run c.state.keys.next] ∧
      ∀ r ∈ c.state.keys.docs, ¬ r.isFor key post.user CHECKOUT_ROUTE) ∨
    ∃ i post key record outcome, a = .act i ∧ at' i = .persist record outcome ∧
      moved i = .ended (.ok (some outcome.1)) ∧
      c.threads[i]? = some ⟨.checkout post, (at' i).prog cfg key post⟩ ∧
      t.runs = c.state.runs.map (HandlerRun.settle record outcome.1) := by
  cases hmove with
  | stage i key post t st ha hthread hkey hstep =>
    generalize hat : at' i = src at hstep
    cases hstep with
    | @deleteStale id =>
      obtain heq | ⟨-, -, -, heq⟩ := exec_keyDeleteProcessing id c.state <;> rw [heq] <;> exact .inl rfl
    | create hfree st hst => exact .inr (.inl ⟨i, post, key, ha, hat, hkey.1, hthread, rfl, hfree⟩)
    | acquire t hkeys hruns _ st hst => exact .inl hruns
    | release t hkeys hruns _ st hst => exact .inl hruns
    | persistError herror => exact .inr (.inr ⟨i, post, key, _, _, ha, hat, Function.update_self .., hthread, rfl⟩)
    | persist hlt hr => exact .inr (.inr ⟨i, post, key, _, _, ha, hat, Function.update_self .., hthread, rfl⟩)
    | _ => exact .inl rfl
  | _ => exact .inl rfl

/-! ## The runs under a key -/

/-- The runs under a key, oldest first. -/
def KeyDb.runsFor (s : KeyDb) (key : String) (user : ObjectId) : List HandlerRun :=
  s.runs.filter (·.isFor key user CHECKOUT_ROUTE)

section RunsFor

variable {cfg : IdempotencyConfig} {c : KeyPool} {a : Action KeyRequest} {t : KeyDb}
    {at' moved : Nat → KeyStage}
variable {key : String} {user : ObjectId}

/-- A run that starts is not under a key that has a record. -/
theorem runsFor_start {s : KeyDb} {post : CheckoutPost} {key' : String}
    (hruns : t.runs = s.runs ++ [(post.draft cfg key').run s.keys.next])
    (hfree : ∀ r ∈ s.keys.docs, ¬ r.isFor key' post.user CHECKOUT_ROUTE) {r : IdempotencyKeyRecord}
    (hr : r ∈ s.keys.docs) (hfor : r.isFor key user CHECKOUT_ROUTE) :
    t.runsFor key user = s.runsFor key user := by
  have hother : ¬ ((post.draft cfg key').run s.keys.next).isFor key user CHECKOUT_ROUTE := by
    intro hd
    simp only [HandlerRun.isFor, KeyDraft.run, CheckoutPost.draft, Bool.and_eq_true, beq_iff_eq] at hd
    obtain ⟨⟨rfl, rfl⟩, -⟩ := hd
    exact hfree r hr hfor
  rw [KeyDb.runsFor, hruns, List.filter_append, List.filter_singleton]
  simp [hother, KeyDb.runsFor]

theorem runsFor_settle {s : KeyDb} {record : ObjectId} {outcome : Answer}
    (hruns : t.runs = s.runs.map (HandlerRun.settle record outcome)) :
    t.runsFor key user = (s.runsFor key user).map (HandlerRun.settle record outcome) := by
  rw [KeyDb.runsFor, hruns, List.filter_map]
  congr 2
  funext run
  exact run.settle_isFor record outcome key user CHECKOUT_ROUTE

/-- While there is a record of the key, no step starts a run under it. -/
theorem KeyMove.runsFor_length (hmove : KeyMove cfg c a at' t moved) {r : IdempotencyKeyRecord}
    (hr : r ∈ c.state.keys.docs) (hfor : r.isFor key user CHECKOUT_ROUTE) :
    (t.runsFor key user).length = (c.state.runsFor key user).length := by
  rcases hmove.runs with hruns | ⟨i, post, key', -, -, -, -, hruns, hfree⟩ |
    ⟨i, -, -, record, outcome, -, -, -, -, hruns⟩
  · rw [KeyDb.runsFor, hruns, KeyDb.runsFor]
  · rw [runsFor_start hruns hfree hr hfor]
  · rw [runsFor_settle hruns, List.length_map]

/-- If besides none of them is active, none of them changes. -/
theorem RouteInv.runsFor_eq (h : RouteInv c.state at') (hmove : KeyMove cfg c a at' t moved)
    {r : IdempotencyKeyRecord} (hr : r ∈ c.state.keys.docs) (hfor : r.isFor key user CHECKOUT_ROUTE)
    (hended : ∀ run ∈ c.state.runs, run.answer = none → ¬ run.isFor key user CHECKOUT_ROUTE) :
    t.runsFor key user = c.state.runsFor key user := by
  rcases hmove.runs with hruns | ⟨i, post, key', -, -, -, -, hruns, hfree⟩ |
    ⟨i, -, -, record, outcome, -, hi, -, -, hruns⟩
  · rw [KeyDb.runsFor, hruns, KeyDb.runsFor]
  · exact runsFor_start hruns hfree hr hfor
  · obtain ⟨own, hown, rfl, hactive⟩ := h.run i record (by rw [hi]; rfl)
    rw [runsFor_settle hruns]
    refine (List.map_congr_left fun x hx => ?_).trans (List.map_id _)
    obtain ⟨hxmem, hxfor⟩ := List.mem_filter.1 hx
    refine HandlerRun.settle_of_ne _ fun hrecord => ?_
    obtain rfl := List.inj_on_of_nodup_map h.keys.nodup hxmem hown hrecord
    exact hended x hown hactive hxfor

end RunsFor

/-- A request under the key that is about to search for it, after a run with its body was stored. -/
theorem RouteInv.replayed {cfg : IdempotencyConfig} {c d : KeyPool} {a : Action KeyRequest}
    {at' : Nat → KeyStage} (h : RouteInv c.state at') (hstep : (keyServer cfg).step c a = some d)
    {key : String} {post : CheckoutPost} {run : HandlerRun}
    (hrun : run ∈ c.state.runsFor key post.user) {outcome : Answer}
    (houtcome : run.answer = some outcome) (hlt : outcome.statusCode < 500)
    (hhash : cfg.sha256 post.body = run.requestHash) {i : Nat} (hact : a ≠ .fault i ∧ a ≠ .kill i)
    (hp : c.threads[i]? = some ⟨.checkout post, (KeyStage.find).prog cfg key post⟩) :
    d.threads[i]? = some ⟨.checkout post, (KeyStage.find).prog cfg key post⟩ ∨
      d.threads[i]? = some ⟨.checkout post, .done (.ok (some outcome))⟩ := by
  obtain ⟨-, -, -, hd⟩ | ⟨o, k, hprog, ⟨-, -, hd⟩ | ⟨hfault, -⟩ | ⟨hkill, -⟩⟩ :=
    (keyServer cfg).step_thread hstep hp
  · exact .inl hd
  · right
    obtain ⟨hmem, hfor⟩ := List.mem_filter.1 hrun
    obtain ⟨r, hr⟩ := Option.isSome_iff_exists.1 (h.keys.kept run hmem outcome houtcome hlt)
    have hholds := h.keys.holds run hmem r hr
    have hdoc := (get?_eq_some.1 hr).1
    have hrfor := hholds.isFor hfor
    obtain ⟨hcompleted, hreplay⟩ := hholds.stored outcome houtcome
    obtain ⟨st, hst, hstage⟩ := KeyStage.act hprog c.state
    suffices hk : k (keyMongo.exec o c.state).1 = .done (.ok (some outcome)) by
      exact hd.trans (congrArg (fun p => some (Thread.mk (KeyRequest.checkout post) p)) hk)
    refine hst.trans ?_
    have hreply : ∀ x ∈ c.state.keys.docs, x.isFor key post.user CHECKOUT_ROUTE → x = r :=
      fun x hx hxfor => h.keys.unique x hx r hdoc key post.user CHECKOUT_ROUTE hxfor hrfor
    generalize (keyMongo.exec o c.state).2 = t at hstage
    cases hstage with
    | findNone hnone => exact absurd hrfor (hnone r hdoc)
    | findOther hx hxfor hother =>
      obtain rfl := hreply _ hx hxfor
      exact absurd (hholds.hash.trans hhash.symm) hother
    | findCompleted hx hxfor _ _ =>
      obtain rfl := hreply _ hx hxfor
      rw [hreplay]
      rfl
    | findOpen hx hxfor _ hopen =>
      obtain rfl := hreply _ hx hxfor
      exact absurd hcompleted hopen
  · exact absurd hfault hact.1
  · exact absurd hkill hact.2

/-! ## Where a run starts -/

theorem Placement.of_nil {cfg : IdempotencyConfig} {c : KeyPool} (h : c.threads = [])
    (at' : Nat → KeyStage) : Placement cfg c at' := by
  intro i l p hp
  simp [h] at hp

theorem RouteInv.start {s : KeyDb} (hkeys : s.keys.docs = []) (hruns : s.runs = []) :
    RouteInv s fun _ => .find where
  keys := by constructor <;> simp [hkeys, hruns]
  run i record hi := by cases hi
  owner i j record hi := by cases hi

end Ecommerce
