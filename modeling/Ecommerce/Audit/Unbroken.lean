import Ecommerce.Audit.TamperEvidence

/-!
# The audit log is one chain

Reading the newest entry and creating the next one are two operations, so that the newest entry may
be old when the next one is created. The unique index on the sequence rejects the creation then: an
entry whose successor is not taken is still the last one.
-/

namespace Ecommerce

open Chain

variable {M : Type} {cfg : AuditConfig M} {s s' : AuditState M} {log log' : List (AuditEntry M)}
  {p q : Nat} {P P' : AuditProcess M} {a : AuditAction M}

/-! ## What a step can do -/

/-- The numbers of the calls of a process that have not settled, in their order. -/
def AuditProcess.pending (P : AuditProcess M) : List Nat :=
  (P.running.map (·.number)).toList ++ P.waiting.map (·.1)

/-- The process that an action is about. -/
def AuditAction.process : AuditAction M → Nat
  | .call p _ => p
  | .step p _ => p
  | .fault p => p
  | .restart p => p

/-- Whether an action is a database operation. -/
def AuditAction.operates : AuditAction M → Bool
  | .step .. => true
  | .fault _ => true
  | _ => false

/-- What one action does to the log and to its process. -/
inductive AuditMove (cfg : AuditConfig M) (log : List (AuditEntry M)) (P : AuditProcess M) :
    AuditAction M → List (AuditEntry M) → AuditProcess M → Prop where
  | called (p : Nat) (call : AuditCall M) :
    AuditMove cfg log P (.call p call) log
      { P with calls := P.calls + 1, waiting := P.waiting ++ [(P.calls, call)] }
  | found {a : AuditAction M} {r rest} (hop : a.operates) (hnext : P.next? = some (r, rest)) (hphase : r.phase = .finding) :
    AuditMove cfg log P a log
      { P with running := some { r with phase := .creating (newestEntry log) }, waiting := rest }
  | created {a : AuditAction M} {r rest last now} (hop : a.operates) (hnext : P.next? = some (r, rest))
      (hphase : r.phase = .creating last)
      (hfree : ∀ d ∈ log, d.body.sequence ≠ (r.entry cfg a.process now last).body.sequence) :
    AuditMove cfg log P a (log ++ [r.entry cfg a.process now last]) (P.settle r rest (.ok ()))
  | failed {a : AuditAction M} {r rest err} (hop : a.operates) (hnext : P.next? = some (r, rest)) :
    AuditMove cfg log P a log (P.settle r rest (.error err))
  | retried {a : AuditAction M} {r rest last} (hop : a.operates) (hnext : P.next? = some (r, rest))
      (hphase : r.phase = .creating last) (hattempt : r.attempt < MAX_ATTEMPTS) :
    AuditMove cfg log P a log
      { P with running := some { r with attempt := r.attempt + 1, phase := .finding }, waiting := rest }
  | restarted (p : Nat) : AuditMove cfg log P (.restart p) log { P with running := none, waiting := [] }

theorem AuditMove.caught {r : RunningAudit M} {rest last} (err : ApiError) (hop : a.operates)
    (hnext : P.next? = some (r, rest)) (hphase : r.phase = .creating last) :
    AuditMove cfg log P a log (P.caught r rest err) := by
  unfold AuditProcess.caught
  split_ifs with h
  · exact .failed hop hnext
  · exact .retried hop hnext hphase (by simpa using (not_or.1 h).2)

/-- Every action is a move of its process, and leaves the others as they are. -/
theorem auditStep_moves (h : auditStep cfg s a = some s') :
    ∃ log' P', s' = { s.setProcess a.process P' with log := log' } ∧
      AuditMove cfg s.log (s.processes a.process) a log' P' := by
  cases a with
  | call p call =>
    cases h
    exact ⟨_, _, rfl, .called p call⟩
  | restart p =>
    cases h
    exact ⟨_, _, rfl, .restarted p⟩
  | fault p =>
    obtain ⟨⟨r, rest⟩, hnext, rfl⟩ := Option.map_eq_some_iff.1 h
    refine ⟨s.log, _, rfl, ?_⟩
    rw [AuditProcess.caught, if_pos (.inl (by decide))]
    exact .failed rfl hnext
  | step p now =>
    obtain ⟨⟨r, rest⟩, hnext, rfl⟩ := Option.map_eq_some_iff.1 h
    dsimp only
    split
    · rename_i hphase
      exact ⟨s.log, _, rfl, .found rfl hnext hphase⟩
    · rename_i last hphase
      unfold createAuditEntry
      split_ifs with hdup
      · exact ⟨s.log, _, rfl, .caught _ rfl hnext hphase⟩
      · refine ⟨_, _, rfl, .created rfl hnext hphase fun d hd heq => hdup ?_⟩
        exact List.any_eq_true.2 ⟨d, hd, by simpa using .inl heq⟩

/-- The call whose turn it is comes first among the pending ones. -/
theorem AuditProcess.pending_of_next? {r : RunningAudit M} {rest} (h : P.next? = some (r, rest)) :
    P.pending = r.number :: rest.map (·.1) := by
  unfold AuditProcess.next? at h
  unfold AuditProcess.pending
  split at h
  · rename_i hrun
    cases h
    simp [hrun]
  · rename_i hrun
    split at h
    · cases h
    · rename_i hwait
      cases h
      simp [hrun, hwait]

@[simp] theorem AuditProcess.pending_called (call : AuditCall M) :
    AuditProcess.pending { P with calls := P.calls + 1, waiting := P.waiting ++ [(P.calls, call)] } =
      P.pending ++ [P.calls] := by
  simp [AuditProcess.pending]

theorem AuditProcess.pending_of_next?_eq_none (h : P.next? = none) : P.pending = [] := by
  unfold AuditProcess.next? at h
  unfold AuditProcess.pending
  split at h
  · cases h
  · rename_i hrun
    split at h
    · rename_i hwait
      simp [hrun, hwait]
    · cases h

/-- A call that has read the newest entry is the running one. -/
theorem AuditProcess.running_of_creating {r : RunningAudit M} {rest last} (h : P.next? = some (r, rest))
    (hphase : r.phase = .creating last) : P.running = some r := by
  unfold AuditProcess.next? at h
  split at h
  · rename_i hrun
    cases h
    exact hrun
  · split at h <;> cases h
    cases hphase

/-! ## The log -/

theorem newestEntry_mem {e : AuditEntry M} (h : newestEntry log = some e) : e ∈ log := by
  induction log generalizing e with
  | nil => cases h
  | cons d log ih =>
    unfold newestEntry at h
    split at h
    · rename_i b hb
      split_ifs at h <;> cases h
      · exact List.mem_cons_self
      · exact List.mem_cons_of_mem _ (ih hb)
    · cases h
      exact List.mem_cons_self

/-- What a process holds about the log: an entry it has read is in the log, and its calls come one
after the other, first those with an entry or an outcome and then the pending ones. -/
structure AuditProcess.Fits (p : Nat) (log : List (AuditEntry M)) (P : AuditProcess M) : Prop where
  known : ∀ r last, P.running = some r → r.phase = .creating last →
    (last = none ∨ ∃ e ∈ log, last = some e)
  attempted : ∀ r, P.running = some r → 1 ≤ r.attempt
  sorted : P.pending.Pairwise (· < ·)
  numbered : ∀ n ∈ P.pending, n < P.calls
  written : ∀ e ∈ log, e.writer.1 = p → e.writer.2 < P.calls ∧ ∀ n ∈ P.pending, e.writer.2 < n
  settled : ∀ o ∈ P.outcomes, ∀ n ∈ P.pending, o.1 < n
  past : ∀ o ∈ P.outcomes, o.1 < P.calls
  failed : ∀ o ∈ P.outcomes, o.2 ≠ .ok () → ∀ e ∈ log, e.writer ≠ (p, o.1)

theorem AuditProcess.Fits.next_attempt (h : P.Fits p log) {r : RunningAudit M} {rest}
    (hnext : P.next? = some (r, rest)) : 1 ≤ r.attempt := by
  unfold AuditProcess.next? at hnext
  split at hnext
  · rename_i hrun
    cases hnext
    exact h.attempted _ hrun
  · split at hnext <;> cases hnext
    exact le_rfl

theorem AuditProcess.Fits.initial : (AuditProcess.initial : AuditProcess M).Fits p [] where
  known _ _ h := by cases h
  attempted _ h := by cases h
  sorted := .nil
  numbered _ h := by cases h
  written _ h := by cases h
  settled _ h := by cases h
  past _ h := by cases h
  failed _ h := by cases h

/-- An entry of another process changes nothing. -/
theorem AuditProcess.Fits.append (h : P.Fits p log) {e : AuditEntry M} (he : e.writer.1 ≠ p) :
    P.Fits p (log ++ [e]) where
  known r last hrun hphase := by
    obtain h | ⟨d, hd, h⟩ := h.known r last hrun hphase
    · exact .inl h
    · exact .inr ⟨d, List.mem_append_left _ hd, h⟩
  attempted := h.attempted
  sorted := h.sorted
  numbered := h.numbered
  written d hd hp := by
    obtain hd | hd := List.mem_append.1 hd
    · exact h.written d hd hp
    · obtain rfl := List.mem_singleton.1 hd
      exact absurd hp he
  settled := h.settled
  past := h.past
  failed o ho hne d hd := by
    obtain hd | hd := List.mem_append.1 hd
    · exact h.failed o ho hne d hd
    · obtain rfl := List.mem_singleton.1 hd
      exact fun heq => he (by rw [heq])

/-- Pending calls may be dropped. -/
theorem AuditProcess.Fits.shrink (h : P.Fits p log) (hsub : P'.pending.Sublist P.pending)
    (hcalls : P'.calls = P.calls) (hout : P'.outcomes = P.outcomes)
    (hknown : ∀ r last, P'.running = some r → r.phase = .creating last → (last = none ∨ ∃ e ∈ log, last = some e))
    (hattempted : ∀ r, P'.running = some r → 1 ≤ r.attempt) : P'.Fits p log where
  known := hknown
  attempted := hattempted
  sorted := h.sorted.sublist hsub
  numbered n hn := hcalls ▸ h.numbered n (hsub.subset hn)
  written e he hp := ⟨hcalls ▸ (h.written e he hp).1, fun n hn => (h.written e he hp).2 n (hsub.subset hn)⟩
  settled o ho n hn := h.settled o (hout ▸ ho) n (hsub.subset hn)
  past o ho := hcalls ▸ h.past o (hout ▸ ho)
  failed o ho := h.failed o (hout ▸ ho)

/-- The first pending call settles. What is behind it has neither an entry nor an outcome. -/
theorem AuditProcess.Fits.settle (h : P.Fits p log) {r : RunningAudit M} {rest} (out : Except ApiError Unit)
    (hnext : P.next? = some (r, rest)) : (P.settle r rest out).Fits p log := by
  have hpending := P.pending_of_next? hnext
  obtain ⟨hfirst, hrest⟩ := List.pairwise_cons.1 (hpending ▸ h.sorted)
  have hhead : r.number ∈ P.pending := by simp [hpending]
  have hbehind : ∀ n ∈ rest.map (·.1), n ∈ P.pending := fun n hn => by simp [hpending, hn]
  refine ⟨fun r' last hr => (by cases hr), fun r' hr => (by cases hr), hrest, fun n hn => h.numbered n (hbehind n hn),
    fun e he hp => ⟨(h.written e he hp).1, fun n hn => (h.written e he hp).2 n (hbehind n hn)⟩, ?_, ?_, ?_⟩
  · intro o ho n hn
    obtain ho | ho := List.mem_append.1 ho
    · exact h.settled o ho n (hbehind n hn)
    · obtain rfl := List.mem_singleton.1 ho
      exact hfirst n hn
  · intro o ho
    obtain ho | ho := List.mem_append.1 ho
    · exact h.past o ho
    · obtain rfl := List.mem_singleton.1 ho
      exact h.numbered _ hhead
  · intro o ho hne e he
    obtain ho | ho := List.mem_append.1 ho
    · exact h.failed o ho hne e he
    · obtain rfl := List.mem_singleton.1 ho
      intro hw
      have := (h.written e he (by rw [hw])).2 _ hhead
      rw [hw] at this
      exact lt_irrefl _ this

/-- The call that settled as it wrote its entry. -/
theorem AuditProcess.Fits.wrote (h : P.Fits p log) {e : AuditEntry M} (hcalls : e.writer.2 < P.calls)
    (hpending : ∀ n ∈ P.pending, e.writer.2 < n) (hknown : P.running = none)
    (hout : ∀ o ∈ P.outcomes, o.2 ≠ .ok () → o.1 ≠ e.writer.2) : P.Fits p (log ++ [e]) where
  known r last hrun := by rw [hknown] at hrun; cases hrun
  attempted r hrun := by rw [hknown] at hrun; cases hrun
  sorted := h.sorted
  numbered := h.numbered
  written d hd hp := by
    obtain hd | hd := List.mem_append.1 hd
    · exact h.written d hd hp
    · obtain rfl := List.mem_singleton.1 hd
      exact ⟨hcalls, hpending⟩
  settled := h.settled
  past := h.past
  failed o ho hne d hd := by
    obtain hd | hd := List.mem_append.1 hd
    · exact h.failed o ho hne d hd
    · obtain rfl := List.mem_singleton.1 hd
      exact fun heq => hout o ho hne (by rw [heq])

theorem AuditMove.fits (hm : AuditMove cfg log P a log' P') (h : P.Fits a.process log) : P'.Fits a.process log' := by
  cases hm with
  | called p call =>
    refine ⟨h.known, h.attempted, ?_, ?_, ?_, ?_, fun o ho => (h.past o ho).trans (Nat.lt_succ_self _), h.failed⟩
    · rw [AuditProcess.pending_called]
      exact List.pairwise_append.2 ⟨h.sorted, List.pairwise_singleton .., by simpa using h.numbered⟩
    · rw [AuditProcess.pending_called]
      intro n hn
      have := h.numbered n
      grind
    · rw [AuditProcess.pending_called]
      intro e he hp
      have := h.written e he hp
      grind
    · rw [AuditProcess.pending_called]
      intro o ho n hn
      have := h.settled o ho n
      have := h.past o ho
      grind
  | found hop hnext hphase =>
    refine h.shrink ?_ rfl rfl (fun r' last hrun hlast => ?_) fun r' hrun => ?_
    · rw [P.pending_of_next? hnext]
      exact List.Sublist.refl _
    · obtain rfl := Option.some.inj hrun
      obtain rfl := AuditPhase.creating.inj hlast
      obtain hnone | ⟨e, he⟩ := Option.eq_none_or_eq_some (newestEntry log)
      · exact .inl hnone
      · exact .inr ⟨e, newestEntry_mem he, he⟩
    · have hattempt := h.next_attempt hnext
      obtain rfl := Option.some.inj hrun
      exact hattempt
  | @created a r rest last now hop hnext hphase hfree =>
    have hpending := P.pending_of_next? hnext
    have hsorted := List.pairwise_cons.1 (hpending ▸ h.sorted)
    refine (h.settle (.ok ()) hnext).wrote (h.numbered r.number (by simp [hpending])) hsorted.1 rfl ?_
    intro o ho hne
    obtain ho | ho := List.mem_append.1 ho
    · exact (h.settled o ho r.number (by simp [hpending])).ne
    · obtain rfl := List.mem_singleton.1 ho
      exact absurd rfl hne
  | failed hop hnext => exact h.settle _ hnext
  | retried hop hnext hphase hattempt =>
    refine h.shrink ?_ rfl rfl (fun r' last hrun hlast => ?_) fun r' hrun => ?_
    · rw [P.pending_of_next? hnext]
      exact List.Sublist.refl _
    · obtain rfl := Option.some.inj hrun
      cases hlast
    · obtain rfl := Option.some.inj hrun
      exact Nat.le_add_left ..
  | restarted p =>
    exact h.shrink (List.nil_sublist _) rfl rfl (fun r' last hrun => by cases hrun) fun r' hrun => by cases hrun

/-- The entries of one process stand in the order of its calls. -/
def CallOrder (d e : AuditEntry M) : Prop := d.writer.1 = e.writer.1 → d.writer.2 < e.writer.2

/-- A log changes by the entry of a call that settles with it. -/
theorem AuditMove.log_cases (hm : AuditMove cfg log P a log' P') :
    log' = log ∨ ∃ e, log' = log ++ [e] ∧ e.writer.1 = a.process ∧ (e.writer.2, .ok ()) ∈ P'.outcomes := by
  cases hm with
  | created hop hnext hphase hfree => exact .inr ⟨_, rfl, rfl, by simp [AuditProcess.settle, RunningAudit.entry]⟩
  | _ => exact .inl rfl

theorem AuditMove.ordered (hm : AuditMove cfg log P a log' P') (hfits : P.Fits a.process log)
    (h : log.Pairwise CallOrder) : log'.Pairwise CallOrder := by
  cases hm with
  | @created a r rest last now hop hnext hphase hfree =>
    refine List.pairwise_append.2 ⟨h, List.pairwise_singleton .., fun d hd e he hwriter => ?_⟩
    obtain rfl := List.mem_singleton.1 he
    exact (hfits.written d hd hwriter).2 _ (by simp [P.pending_of_next? hnext, RunningAudit.entry])
  | _ => exact h

/-- The entry that was read is still the last one if the next sequence is free. -/
theorem AuditMove.intact (hsha : ∀ text, cfg.sha256 text ≠ "") (hm : AuditMove cfg log P a log' P')
    (hfits : P.Fits a.process log) (h : (auditScheme cfg).Intact log) : (auditScheme cfg).Intact log' := by
  cases hm with
  | @created a r rest last now hop hnext hphase hfree =>
    obtain rfl | ⟨e, he, rfl⟩ := hfits.known r last (P.running_of_creating hnext hphase) hphase
    · obtain rfl := h.eq_nil_of_free fun d hd => hfree d hd
      exact Scheme.intact_concat.2 ⟨h, rfl, rfl, rfl⟩
    · have hlast := h.getLast?_of_free he fun d hd => hfree d hd
      obtain ⟨as, rfl⟩ := List.getLast?_eq_some_iff.1 hlast
      have hpos : e.body.sequence = as.length + 1 := (Scheme.intact_concat.1 h).2.1
      have hhash : e.hash ≠ "" := by
        rw [show e.hash = cfg.digest e.body from h.head_eq he]
        exact hsha _
      refine Scheme.intact_concat.2 ⟨h, ?_, ?_, rfl⟩
      · simp [auditScheme, RunningAudit.entry, nextAuditBody, hpos]
      · rw [Scheme.lastHead_concat]
        exact orElseText_some hhash _
  | _ => exact h

/-! ## Whole runs -/

/-- The invariant of the audit log and the processes that write it. -/
structure AuditState.Sound (cfg : AuditConfig M) (s : AuditState M) : Prop where
  intact : (auditScheme cfg).Intact s.log
  ordered : s.log.Pairwise CallOrder
  fits : ∀ p, (s.processes p).Fits p s.log

theorem AuditState.Sound.initial : (AuditState.initial : AuditState M).Sound cfg where
  intact := trivial
  ordered := .nil
  fits _ := .initial

theorem AuditState.Sound.step (hsha : ∀ text, cfg.sha256 text ≠ "") (h : s.Sound cfg)
    (hstep : auditStep cfg s a = some s') : s'.Sound cfg := by
  obtain ⟨log', P', rfl, hm⟩ := auditStep_moves hstep
  have hfits := h.fits a.process
  refine ⟨hm.intact hsha hfits h.intact, hm.ordered hfits h.ordered, fun q => ?_⟩
  by_cases hq : q = a.process
  · subst hq
    simpa [AuditState.setProcess] using hm.fits hfits
  · have hother : (if q = a.process then P' else s.processes q) = s.processes q := if_neg hq
    change ((if q = a.process then P' else s.processes q) : AuditProcess M).Fits q log'
    rw [hother]
    obtain rfl | ⟨e, rfl, he, -⟩ := hm.log_cases
    · exact h.fits q
    · exact (h.fits q).append fun heq => hq (heq.symm.trans he)

theorem AuditState.Sound.run (hsha : ∀ text, cfg.sha256 text ≠ "") (h : s.Sound cfg) {as : List (AuditAction M)}
    (hrun : auditRun cfg s as = some s') : s'.Sound cfg := by
  induction as generalizing s with
  | nil =>
    cases hrun
    exact h
  | cons a as ih =>
    obtain ⟨t, hstep, hrest⟩ := Option.bind_eq_some_iff.1 hrun
    exact ih (h.step hsha hstep) hrest

/-! ## Progress -/

/-- The most database operations that a running call may still take. -/
def RunningAudit.cost (r : RunningAudit M) : Nat :=
  2 * (MAX_ATTEMPTS - r.attempt) + match r.phase with
    | .finding => 2
    | .creating _ => 1

/-- The most operations that a process takes for its pending calls with numbers below `N`. -/
def AuditProcess.work (N : Nat) (P : AuditProcess M) : Nat :=
  (P.running.elim 0 fun r => if r.number < N then r.cost else 0) +
    (P.waiting.filter (·.1 < N)).length * (2 * MAX_ATTEMPTS)

variable {N : Nat}

theorem RunningAudit.cost_pos (r : RunningAudit M) : 0 < r.cost := by
  unfold RunningAudit.cost
  split <;> omega

theorem AuditProcess.work_of_next? {r : RunningAudit M} {rest} (h : P.next? = some (r, rest)) :
    P.work N = (if r.number < N then r.cost else 0) + (rest.filter (·.1 < N)).length * (2 * MAX_ATTEMPTS) := by
  unfold AuditProcess.next? at h
  unfold AuditProcess.work
  split at h
  · rename_i hrun
    cases h
    simp [hrun]
  · rename_i hrun
    split at h
    · cases h
    · rename_i n call rest hwait
      cases h
      by_cases hn : n < N
      · simp [hrun, hwait, hn, RunningAudit.cost, MAX_ATTEMPTS]
        omega
      · simp [hrun, hwait, hn]

/-- No work is left once no call below `N` is pending. -/
theorem AuditProcess.work_pos {n : Nat} (hn : n ∈ P.pending) (hlt : n < N) : 0 < P.work N := by
  obtain hn | hn := List.mem_append.1 hn
  · obtain ⟨r, hrun, rfl⟩ := Option.map_eq_some_iff.1 (Option.mem_toList.1 hn)
    have := r.cost_pos
    simp [AuditProcess.work, hrun, hlt, this]
  · obtain ⟨⟨m, call⟩, hmem, rfl⟩ := List.mem_map.1 hn
    have hpos : 0 < (P.waiting.filter (·.1 < N)).length :=
      List.length_pos_of_mem (List.mem_filter.2 ⟨hmem, by simpa using hlt⟩)
    have : 0 < MAX_ATTEMPTS := by decide
    exact Nat.add_pos_right _ (by positivity)

theorem AuditProcess.work_le (hfits : P.Fits p log) (N : Nat) : P.work N ≤ 2 * MAX_ATTEMPTS * P.pending.length := by
  have hfilter := List.length_filter_le (fun c : Nat × AuditCall M => decide (c.1 < N)) P.waiting
  cases hrun : P.running with
  | none =>
    simp only [AuditProcess.work, AuditProcess.pending, hrun, MAX_ATTEMPTS] at hfilter ⊢
    simp
    omega
  | some r =>
    have hattempt := hfits.attempted r hrun
    have hcost : (if r.number < N then r.cost else 0) ≤ 2 * MAX_ATTEMPTS := by
      unfold RunningAudit.cost MAX_ATTEMPTS
      split_ifs
      · split <;> omega
      · omega
    simp only [AuditProcess.work, AuditProcess.pending, hrun, MAX_ATTEMPTS] at hfilter hcost ⊢
    simp at hcost ⊢
    omega

/-- If the call whose turn it is has a number from `N` on, so have all behind it. -/
theorem AuditProcess.Fits.pending_ge (h : P.Fits p log) {r : RunningAudit M} {rest}
    (hnext : P.next? = some (r, rest)) (hr : N ≤ r.number) :
    ∀ n ∈ r.number :: rest.map (·.1), N ≤ n := by
  have hsorted := List.pairwise_cons.1 (P.pending_of_next? hnext ▸ h.sorted)
  intro n hn
  obtain rfl | hn := List.mem_cons.1 hn
  · exact hr
  · exact hr.trans (hsorted.1 n hn).le

/-- A move makes no work for earlier calls, and an operation does some of it if any is left. -/
theorem AuditMove.work (hm : AuditMove cfg log P a log' P') (hfits : P.Fits a.process log) (hN : N ≤ P.calls) :
    (∀ n ∈ P'.pending, N ≤ n) ∨ P'.work N + a.operates.toNat ≤ P.work N := by
  cases hm with
  | called p call =>
    right
    simp [AuditProcess.work, List.filter_append, hN, AuditAction.operates]
  | @found a r rest hop hnext hphase =>
    obtain hr | hr := Nat.lt_or_ge r.number N
    · right
      rw [P.work_of_next? hnext]
      simp only [AuditProcess.work, Option.elim_some, if_pos hr, RunningAudit.cost, hphase, hop,
        Bool.toNat_true]
      omega
    · left
      have hge := hfits.pending_ge hnext hr
      exact hge
  | @created a r rest last now hop hnext hphase hfree =>
    obtain hr | hr := Nat.lt_or_ge r.number N
    · right
      have := r.cost_pos
      rw [P.work_of_next? hnext, if_pos hr]
      simp [AuditProcess.work, AuditProcess.settle, hop]
      omega
    · left
      exact fun n hn => hfits.pending_ge hnext hr n (List.mem_cons_of_mem _ hn)
  | @failed a r rest err hop hnext =>
    obtain hr | hr := Nat.lt_or_ge r.number N
    · right
      have := r.cost_pos
      rw [P.work_of_next? hnext, if_pos hr]
      simp [AuditProcess.work, AuditProcess.settle, hop]
      omega
    · left
      exact fun n hn => hfits.pending_ge hnext hr n (List.mem_cons_of_mem _ hn)
  | @retried a r rest last hop hnext hphase hattempt =>
    obtain hr | hr := Nat.lt_or_ge r.number N
    · right
      rw [P.work_of_next? hnext]
      simp only [AuditProcess.work, Option.elim_some, if_pos hr, RunningAudit.cost, hphase, hop,
        Bool.toNat_true]
      omega
    · left
      have hge := hfits.pending_ge hnext hr
      exact hge
  | restarted p =>
    left
    intro n hn
    cases hn

/-- A pending call stays pending until it settles, unless its process ends. -/
theorem AuditMove.settles (hm : AuditMove cfg log P a log' P') (hlive : ∀ p, a ≠ .restart p) {n : Nat}
    (hn : n ∈ P.pending ∨ ∃ out, (n, out) ∈ P.outcomes) : n ∈ P'.pending ∨ ∃ out, (n, out) ∈ P'.outcomes := by
  have hsettle : ∀ {r : RunningAudit M} {rest} (out : Except ApiError Unit), P.next? = some (r, rest) →
      n ∈ (P.settle r rest out).pending ∨ ∃ o, (n, o) ∈ (P.settle r rest out).outcomes := by
    intro r rest out hnext
    obtain hn | ⟨o, ho⟩ := hn
    · rw [P.pending_of_next? hnext] at hn
      obtain rfl | hn := List.mem_cons.1 hn
      · exact .inr ⟨out, by simp [AuditProcess.settle]⟩
      · exact .inl hn
    · exact .inr ⟨o, List.mem_append_left _ ho⟩
  cases hm with
  | called p call =>
    refine hn.imp_left fun hn => ?_
    rw [AuditProcess.pending_called]
    exact List.mem_append_left _ hn
  | found hop hnext hphase =>
    refine hn.imp_left fun hn => ?_
    rw [P.pending_of_next? hnext] at hn
    exact hn
  | created hop hnext hphase hfree => exact hsettle _ hnext
  | failed hop hnext => exact hsettle _ hnext
  | retried hop hnext hphase hattempt =>
    refine hn.imp_left fun hn => ?_
    rw [P.pending_of_next? hnext] at hn
    exact hn
  | restarted p => exact absurd rfl (hlive p)

theorem AuditMove.calls_le (hm : AuditMove cfg log P a log' P') : P.calls ≤ P'.calls := by
  cases hm with
  | called => exact Nat.le_succ _
  | _ => exact le_rfl

theorem AuditProcess.work_eq_zero (h : ∀ n ∈ P.pending, N ≤ n) : P.work N = 0 := by
  have hwaiting : P.waiting.filter (fun c => decide (c.1 < N)) = [] := by
    refine List.filter_eq_nil_iff.2 fun c hc => ?_
    have := h c.1 (List.mem_append_right _ (List.mem_map_of_mem hc))
    simpa using this
  cases hrun : P.running with
  | none => simp [AuditProcess.work, hrun, hwaiting]
  | some r =>
    have := h r.number (by simp [AuditProcess.pending, hrun])
    simp [AuditProcess.work, hrun, hwaiting, this]

/-- The database operations of one process. -/
def operationsOf (p : Nat) (as : List (AuditAction M)) : Nat := as.countP fun a => a.operates && a.process == p

/-- Whatever else happens, the operations of a process use up the work for its calls below `N`. -/
theorem audit_work (hsha : ∀ text, cfg.sha256 text ≠ "") (hs : s.Sound cfg) {as : List (AuditAction M)}
    (hrun : auditRun cfg s as = some s') (p : Nat) (hN : N ≤ (s.processes p).calls) :
    (∀ n ∈ (s'.processes p).pending, N ≤ n) ∨
      (s'.processes p).work N + operationsOf p as ≤ (s.processes p).work N := by
  induction as generalizing s with
  | nil =>
    cases hrun
    exact .inr le_rfl
  | cons a as ih =>
    obtain ⟨t, hstep, hrest⟩ := Option.bind_eq_some_iff.1 hrun
    have ht := hs.step hsha hstep
    obtain ⟨log', P', rfl, hm⟩ := auditStep_moves hstep
    by_cases hp : a.process = p
    · subst hp
      have hP : (s.setProcess a.process P').processes a.process = P' := if_pos rfl
      obtain hdone | hwork := ih ht hrest (by simpa [hP] using hN.trans hm.calls_le)
      · exact .inl hdone
      · simp only [hP] at hwork
        have hcount : operationsOf a.process (a :: as) = operationsOf a.process as + a.operates.toNat := by
          cases ha : a.operates <;> simp [operationsOf, ha]
        obtain hge | hle := hm.work (hs.fits a.process) hN
        · left
          intro n hn
          by_contra hlt
          have := AuditProcess.work_pos hn (not_le.1 hlt)
          rw [AuditProcess.work_eq_zero hge] at hwork
          omega
        · right
          omega
    · have hP : (s.setProcess a.process P').processes p = s.processes p := if_neg fun h => hp h.symm
      have hcount : operationsOf p (a :: as) = operationsOf p as := by
        simp [operationsOf, hp]
      simpa [hP, hcount] using ih ht hrest (by simpa [hP] using hN)

theorem audit_settles {as : List (AuditAction M)} (hrun : auditRun cfg s as = some s') {p n : Nat}
    (hlive : ∀ a ∈ as, a ≠ .restart p)
    (hn : n ∈ (s.processes p).pending ∨ ∃ out, (n, out) ∈ (s.processes p).outcomes) :
    n ∈ (s'.processes p).pending ∨ ∃ out, (n, out) ∈ (s'.processes p).outcomes := by
  induction as generalizing s with
  | nil =>
    cases hrun
    exact hn
  | cons a as ih =>
    obtain ⟨t, hstep, hrest⟩ := Option.bind_eq_some_iff.1 hrun
    obtain ⟨log', P', rfl, hm⟩ := auditStep_moves hstep
    refine ih hrest (fun b hb => hlive b (List.mem_cons_of_mem _ hb)) ?_
    by_cases hp : a.process = p
    · subst hp
      have hlive' : ∀ q, a ≠ .restart q := by
        rintro q rfl
        exact hlive _ List.mem_cons_self rfl
      simpa [AuditState.setProcess] using hm.settles hlive' hn
    · simpa [AuditState.setProcess, Ne.symm hp] using hn

/-! ## The audit log -/

/-- In every state that any interleaving of the processes' calls reaches, with any failures, the log
is one chain from its first entry on: the sequences are one to `n`, and each entry links to the one
before it. A call that failed has no entry. A pending call is never stuck: its process can always go
on, and after ten operations for each pending call they have all settled. The entries of one process
are in the order of its calls. -/
theorem audit_unbroken (hsha : ∀ text, cfg.sha256 text ≠ "") {as : List (AuditAction M)}
    (hrun : auditRun cfg .initial as = some s) :
    s.log.map (·.body.sequence) = List.range' 1 s.log.length ∧
      (∀ e, s.log.head? = some e → e.body.previousHash = "GENESIS") ∧
      s.log.IsChain (fun d e => e.body.previousHash = d.hash) ∧
      (∀ a s', auditStep cfg s a = some s' →
        s'.log = s.log ∨ ∃ e, s'.log = s.log ++ [e] ∧ e.writer.1 = a.process ∧
          (e.writer.2, .ok ()) ∈ (s'.processes a.process).outcomes) ∧
      (∀ p n err, (n, .error err) ∈ (s.processes p).outcomes → ∀ e ∈ s.log, e.writer ≠ (p, n)) ∧
      (∀ p now, (s.processes p).pending ≠ [] → (auditStep cfg s (.step p now)).isSome) ∧
      (∀ p bs s', auditRun cfg s bs = some s' → (∀ a ∈ bs, a ≠ .restart p) →
        2 * MAX_ATTEMPTS * (s.processes p).pending.length ≤ operationsOf p bs →
          ∀ n ∈ (s.processes p).pending, ∃ out, (n, out) ∈ (s'.processes p).outcomes) ∧
      s.log.Pairwise (fun d e => d.writer.1 = e.writer.1 → d.writer.2 < e.writer.2) := by
  have hs := AuditState.Sound.initial.run hsha hrun
  refine ⟨hs.intact.positions, fun e he => hs.intact.first he, hs.intact.isChain, ?_, ?_, ?_, ?_, hs.ordered⟩
  · intro a s' hstep
    obtain ⟨log', P', rfl, hm⟩ := auditStep_moves hstep
    simpa [AuditState.setProcess] using hm.log_cases
  · intro p n err ho e he
    exact (hs.fits p).failed _ ho (by simp) e he
  · intro p now hpending
    cases hnext : (s.processes p).next? with
    | none => exact absurd (AuditProcess.pending_of_next?_eq_none hnext) hpending
    | some c => simp [auditStep, hnext]
  · intro p bs s' hbs hlive hops n hn
    have hlt := (hs.fits p).numbered n hn
    refine (audit_settles hbs hlive (.inl hn)).resolve_left fun hn' => ?_
    obtain hge | hwork := audit_work hsha hs hbs p le_rfl
    · exact absurd (hge n hn') (not_le.2 hlt)
    · have hle := AuditProcess.work_le (hs.fits p) (s.processes p).calls
      have hpos := AuditProcess.work_pos hn' hlt
      omega

def exampleAuditCall (action requestId : String) (metadata : Nat) : AuditCall Nat :=
  ⟨action, ⟨some requestId, none, none, some "acme"⟩, metadata⟩

/-- Two processes write one entry each. In between a read of the second one fails. -/
def exampleAuditActions : List (AuditAction Nat) :=
  [.call 0 (exampleAuditCall "auth.login" "r1" 1), .call 1 (exampleAuditCall "auth.login" "r3" 3),
    .call 1 (exampleAuditCall "auth.logout" "r2" 2), .step 0 0, .fault 1, .step 0 1, .step 1 2, .step 1 3]

theorem audit_unbroken_two :
    ∃ s, auditRun exampleAudit .initial exampleAuditActions = some s ∧
      s.log.map (·.writer) = [(0, 0), (1, 1)] ∧ s.log.map (·.body.sequence) = List.range' 1 s.log.length ∧
      s.log.IsChain (fun d e => e.body.previousHash = d.hash) := by
  obtain ⟨s, hs, h⟩ := (Option.any_eq_true _ _).1 (by decide +kernel :
    (auditRun exampleAudit .initial exampleAuditActions).any fun s =>
      decide (s.log.map (·.writer) = [(0, 0), (1, 1)]))
  have hsha : ∀ text, exampleAudit.sha256 text ≠ "" := by
    intro text
    unfold exampleAudit
    dsimp only
    split_ifs <;> decide
  obtain ⟨hsequences, -, hlinks, -⟩ := audit_unbroken hsha hs
  exact ⟨s, hs, of_decide_eq_true h, hsequences, hlinks⟩

end Ecommerce
