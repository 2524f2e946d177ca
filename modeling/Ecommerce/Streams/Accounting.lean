import Ecommerce.Model.Maps
import Ecommerce.Model.Streams
import Ecommerce.Trace.Run
import Mathlib.Algebra.BigOperators.Ring.Finset

/-!
# Slots of event streams

The counters of the limiter agree with the release functions that were returned and not called: the
count of a user is the number of those that captured the user, and the total is the number of all.
-/

namespace Ecommerce

/-! ## Counters -/

/-- The counters count the users of the slots that are held, within the limits. -/
structure Counts (limits : StreamLimits) (perUser : JsMap String ℤ) (total : ℤ) (held : List String) :
    Prop where
  total_eq : total = held.length
  get_eq : ∀ userId, perUser.get userId =
    if held.count userId = 0 then none else some (held.count userId : ℤ)
  global_le : held.length ≤ limits.global
  perUser_le : ∀ userId, held.count userId ≤ limits.perUser

namespace Counts

variable {limits : StreamLimits} {perUser : JsMap String ℤ} {total : ℤ} {held left : List String}
variable {userId : String}

theorem empty (limits : StreamLimits) : Counts limits JsMap.empty 0 [] :=
  ⟨rfl, fun _ => rfl, Nat.zero_le _, fun _ => Nat.zero_le _⟩

theorem getD_zero (h : Counts limits perUser total held) (userId : String) :
    (perUser.get userId).getD 0 = held.count userId := by
  rw [h.get_eq]
  split
  · next hzero => simp [hzero]
  · rfl

/-- One more slot. -/
theorem take (h : Counts limits perUser total held) (hperUser : held.count userId < limits.perUser)
    (hglobal : held.length < limits.global) :
    Counts limits (perUser.set userId (held.count userId + 1)) (total + 1) (held ++ [userId]) := by
  have hcount (user : String) : (held ++ [userId]).count user =
      held.count user + if userId = user then 1 else 0 := by
    simp [List.count_append, List.count_singleton]
  have hlength : (held ++ [userId]).length = held.length + 1 := by simp
  have htotal := h.total_eq
  refine ⟨by omega, fun user => ?_, by omega, fun user => ?_⟩
  · rw [JsMap.get_set, hcount, h.get_eq]
    grind
  · have hle := h.perUser_le user
    rw [hcount]
    grind

/-- One slot less: the entry of the user goes with the last slot. -/
theorem give (h : Counts limits perUser total held) (hperm : held.Perm (userId :: left)) :
    Counts limits
      (if held.count userId > 1 then perUser.set userId (held.count userId - 1) else perUser.delete userId)
      (total - 1) left := by
  have hcount (user : String) : held.count user = left.count user + if userId = user then 1 else 0 := by
    rw [hperm.count_eq, List.count_cons]
    simp
  have hlength : held.length = left.length + 1 := hperm.length_eq
  have htotal := h.total_eq
  have hglobal := h.global_le
  refine ⟨by omega, fun user => ?_, by omega, fun user => ?_⟩
  · have hself := hcount userId
    have hother := hcount user
    have hget := h.get_eq user
    split
    · rw [JsMap.get_set]
      grind
    · rw [JsMap.get_delete]
      grind
  · have hle := h.perUser_le user
    have hother := hcount user
    omega

/-- The keys are the users that hold a slot. -/
theorem mem_keys_iff (h : Counts limits perUser total held) : userId ∈ perUser.keys ↔ userId ∈ held := by
  rw [JsMap.mem_keys_iff_get, h.get_eq, ← List.count_pos_iff]
  by_cases hzero : held.count userId = 0
  · simp [hzero]
  · simp [hzero, Nat.pos_of_ne_zero hzero]

/-- The counts of all users add up to the total. -/
theorem sum_counts (h : Counts limits perUser total held) :
    (perUser.entries.map Prod.snd).sum = total := by
  have hall : ∀ user ∈ (held : Multiset String), user ∈ perUser.keys.toFinset := fun user huser =>
    List.mem_toFinset.2 (h.mem_keys_iff.2 (Multiset.mem_coe.1 huser))
  calc (perUser.entries.map Prod.snd).sum
      = (perUser.keys.map fun user => (held.count user : ℤ)).sum := by
        rw [JsMap.entries_map perUser 0]
        exact congrArg List.sum (List.map_congr_left fun user _ => h.getD_zero user)
    _ = ∑ user ∈ perUser.keys.toFinset, (held.count user : ℤ) :=
        (List.sum_toFinset _ perUser.nodup).symm
    _ = (held.length : ℤ) := by
        have hcard := Multiset.sum_count_eq_card hall
        simp only [Multiset.coe_count, Multiset.coe_card] at hcard
        rw [← hcard, Nat.cast_sum]
    _ = total := h.total_eq.symm

/-- With no slot held there are no entries. -/
theorem entries_eq_nil (h : Counts limits perUser total []) : perUser.entries = [] := by
  have hkeys : perUser.keys = [] := List.eq_nil_iff_forall_not_mem.2 fun user huser =>
    List.not_mem_nil (h.mem_keys_iff.1 huser)
  exact List.map_eq_nil_iff.1 hkeys

end Counts

/-! ## Slots -/

/-- The users of the slots that were acquired and are not yet released. -/
def heldBy (releases : List ReleaseFn) : List String :=
  (releases.filter fun fn => !fn.released).map ReleaseFn.userId

theorem heldBy_append (releases : List ReleaseFn) (userId : String) :
    heldBy (releases ++ [⟨userId, false⟩]) = heldBy releases ++ [userId] := by
  simp [heldBy]

/-- A function that is called for the first time gives back one slot of its user. -/
theorem heldBy_perm_release {releases : List ReleaseFn} {k : Nat} {fn : ReleaseFn}
    (hfn : releases[k]? = some fn) (hfirst : fn.released = false) :
    (heldBy releases).Perm (fn.userId :: heldBy (releases.set k { fn with released := true })) := by
  obtain ⟨hk, rfl⟩ := List.getElem?_eq_some_iff.1 hfn
  have hsplit : releases = releases.take k ++ releases[k] :: releases.drop (k + 1) := by simp
  have hheld := congrArg heldBy hsplit
  rw [List.set_eq_take_append_cons_drop, if_pos hk, hheld]
  simp only [heldBy, List.filter_append, List.filter_cons, hfirst, Bool.not_false, Bool.not_true, if_true,
    Bool.false_eq_true, if_false, List.map_append, List.map_cons]
  exact List.perm_middle

namespace StreamLimiter

variable {limits : StreamLimits} {s t : StreamLimiter} {userId : String} {k : Nat} {fn : ReleaseFn}

/-- The counters agree with the release functions. -/
def Accounted (limits : StreamLimits) (s : StreamLimiter) : Prop :=
  Counts limits s.perUser s.total (heldBy s.releases)

/-- `acquire` either finds a cap reached and changes nothing, or takes a slot. -/
theorem acquire_cases (limits : StreamLimits) (userId : String) (s : StreamLimiter) :
    ((s.countFor userId ≥ limits.perUser ∨ s.total ≥ limits.global) ∧
        s.acquire limits userId = (none, s)) ∨
      (s.countFor userId < limits.perUser ∧ s.total < limits.global ∧
        s.acquire limits userId = (some s.releases.length,
          { perUser := s.perUser.set userId (s.countFor userId + 1)
            total := s.total + 1
            releases := s.releases ++ [⟨userId, false⟩] })) := by
  by_cases hcap : s.countFor userId ≥ limits.perUser ∨ s.total ≥ limits.global
  · exact .inl ⟨hcap, if_pos hcap⟩
  · exact .inr ⟨by omega, by omega, if_neg hcap⟩

theorem Accounted.countFor (h : s.Accounted limits) (userId : String) :
    s.countFor userId = (heldBy s.releases).count userId :=
  h.getD_zero userId

theorem Accounted.acquire (h : s.Accounted limits) (userId : String) :
    (s.acquire limits userId).2.Accounted limits := by
  obtain ⟨-, hfull⟩ | ⟨hperUser, hglobal, htaken⟩ := acquire_cases limits userId s
  · rw [hfull]
    exact h
  · rw [h.countFor] at hperUser htaken
    rw [h.total_eq] at hglobal
    rw [htaken]
    have hroom : (heldBy s.releases).count userId < limits.perUser := by omega
    have htake := h.take hroom (by omega)
    rw [← heldBy_append] at htake
    exact htake

/-- A call of a release function after its first one does nothing. -/
theorem release_of_released (hreleased : fn.released = true) : s.release k fn = s := if_pos hreleased

theorem Accounted.release (h : s.Accounted limits) (hfn : s.releases[k]? = some fn) :
    (s.release k fn).Accounted limits := by
  cases hfirst : fn.released with
  | true =>
    rw [release_of_released hfirst]
    exact h
  | false =>
    have hperm := heldBy_perm_release hfn hfirst
    have hpos : 0 < (heldBy s.releases).count fn.userId := by
      rw [hperm.count_eq, List.count_cons_self]
      omega
    have hget : (s.perUser.get fn.userId).getD 1 = (heldBy s.releases).count fn.userId := by
      rw [h.get_eq, if_neg (by omega)]
      rfl
    have hmore : ((heldBy s.releases).count fn.userId : ℤ) - 1 > 0 ↔
        (heldBy s.releases).count fn.userId > 1 := by omega
    have hgive := h.give hperm
    rw [StreamLimiter.release, if_neg (by simp [hfirst])]
    simp only [hget, hmore]
    exact hgive

theorem Accounted.step {call : StreamCall} (h : s.Accounted limits) (hstep : call.step limits s = some t) :
    t.Accounted limits := by
  cases call with
  | acquire userId =>
    obtain rfl : (s.acquire limits userId).2 = t := Option.some.inj hstep
    exact h.acquire userId
  | release k =>
    obtain ⟨fn, hfn, rfl⟩ := Option.map_eq_some_iff.1 hstep
    exact h.release hfn

/-! ## Which functions were called -/

theorem releases_acquire (limits : StreamLimits) (userId : String) (s : StreamLimiter) :
    (s.acquire limits userId).2.releases = s.releases ∨
      (s.acquire limits userId).2.releases = s.releases ++ [⟨userId, false⟩] := by
  obtain ⟨-, heq⟩ | ⟨-, -, heq⟩ := acquire_cases limits userId s
  · exact .inl (by rw [heq])
  · exact .inr (by rw [heq])

theorem releases_release (hfn : s.releases[k]? = some fn) :
    (s.release k fn).releases = s.releases.set k { fn with released := true } := by
  by_cases hreleased : fn.released = true
  · have hsame : { fn with released := true } = fn := by rw [← hreleased]
    rw [release_of_released hreleased, hsame]
    obtain ⟨hk, rfl⟩ := List.getElem?_eq_some_iff.1 hfn
    exact (List.set_getElem_self hk).symm
  · exact congrArg StreamLimiter.releases (if_neg hreleased)

/-- The flags say which of the functions were called. -/
theorem mem_calls_iff {calls : List StreamCall}
    (hrun : Trace.run (StreamCall.step limits) new calls = some s) (k : Nat) :
    .release k ∈ calls ↔ ∃ fn, s.releases[k]? = some fn ∧ fn.released = true := by
  induction calls using List.reverseRecOn generalizing s with
  | nil =>
    obtain rfl : new = s := Option.some.inj hrun
    simp [new]
  | append_singleton calls call ih =>
    obtain ⟨t, hbefore, hlast⟩ := Trace.run_concat_eq_some.1 hrun
    rw [List.mem_append, ih hbefore, List.mem_singleton]
    cases call with
    | acquire userId =>
      obtain rfl : (t.acquire limits userId).2 = s := Option.some.inj hlast
      obtain hsame | hmore := releases_acquire limits userId t
      · rw [hsame]
        simp
      · rw [hmore]
        grind
    | release j =>
      obtain ⟨fn, hfn, rfl⟩ := Option.map_eq_some_iff.1 hlast
      rw [releases_release hfn]
      grind

theorem length_heldBy (releases : List ReleaseFn) :
    (heldBy releases).length = releases.countP fun fn => !fn.released := by
  rw [heldBy, List.length_map, List.countP_eq_length_filter]

theorem count_heldBy (releases : List ReleaseFn) (userId : String) :
    (heldBy releases).count userId = releases.countP fun fn => fn.userId = userId && !fn.released := by
  rw [heldBy, List.count, List.countP_map, List.countP_filter]
  exact List.countP_congr fun fn _ => by simp

/-- After any calls, the counters of the limiter are those of the slots that were acquired and whose
release function was not called, within both limits; a call of `acquire` fails just when a limit is
reached; and when all the functions were called, nothing is left. -/
theorem stream_limiter_accounted (limits : StreamLimits) (calls : List StreamCall) (s : StreamLimiter)
    (hrun : Trace.run (StreamCall.step limits) new calls = some s) :
    s.total = (s.perUser.entries.map Prod.snd).sum ∧
    s.total = s.releases.countP (fun fn => !fn.released) ∧
    (∀ userId, s.countFor userId = s.releases.countP fun fn => fn.userId = userId && !fn.released) ∧
    (∀ k fn, s.releases[k]? = some fn → (fn.released = true ↔ .release k ∈ calls)) ∧
    s.total ≤ limits.global ∧
    (∀ userId count, s.perUser.get userId = some count → 0 < count ∧ count ≤ limits.perUser) ∧
    (∀ userId, (s.acquire limits userId).1 = none ↔
      limits.perUser ≤ s.countFor userId ∨ limits.global ≤ s.total) ∧
    ((∀ k < s.releases.length, .release k ∈ calls) → s.perUser.entries = [] ∧ s.total = 0) := by
  have hnew : new.Accounted limits := Counts.empty limits
  have haccounted : s.Accounted limits := Trace.run_invariant _ hnew Accounted.step hrun
  have hflags (k : Nat) (fn : ReleaseFn) (hfn : s.releases[k]? = some fn) :
      fn.released = true ↔ .release k ∈ calls := by
    rw [mem_calls_iff hrun, hfn]
    simp
  refine ⟨haccounted.sum_counts.symm, ?_, fun userId => ?_, hflags, ?_, fun userId count hcount => ?_,
    fun userId => ?_, fun hall => ?_⟩
  · rw [← length_heldBy]
    exact haccounted.total_eq
  · rw [← count_heldBy]
    exact haccounted.countFor userId
  · have htotal := haccounted.total_eq
    have hglobal := haccounted.global_le
    omega
  · have hle := haccounted.perUser_le userId
    rw [haccounted.get_eq] at hcount
    grind
  · obtain ⟨hfull, heq⟩ | ⟨hperUser, hglobal, heq⟩ := acquire_cases limits userId s
    · simp [heq, hfull]
    · simp [heq, hperUser, hglobal]
  · have hnil : heldBy s.releases = [] := by
      refine List.map_eq_nil_iff.2 (List.filter_eq_nil_iff.2 fun fn hfn => ?_)
      obtain ⟨k, hk, rfl⟩ := List.getElem_of_mem hfn
      have hreleased := (hflags k _ (List.getElem?_eq_getElem hk)).2 (hall k hk)
      simp [hreleased]
    have hempty : Counts limits s.perUser s.total [] := hnil ▸ haccounted
    exact ⟨hempty.entries_eq_nil, hempty.total_eq⟩

/-- Two users under a limit of two streams each and three in all, one stream being released twice. -/
def twoUsers : List StreamCall :=
  [.acquire "a", .acquire "a", .acquire "a", .acquire "b", .acquire "c", .release 0, .release 0, .acquire "c",
    .release 1, .release 2, .release 3]

theorem stream_limiter_accounted_twoUsers : ∃ s,
    Trace.run (StreamCall.step ⟨2, 3⟩) new twoUsers = some s ∧
      s.perUser.entries = [] ∧ s.total = 0 := by
  obtain ⟨s, hrun, hlength⟩ := (Option.any_eq_true _ _).1
    (by decide +kernel : (Trace.run (StreamCall.step ⟨2, 3⟩) new twoUsers).any
      fun s => s.releases.length = 4)
  obtain ⟨-, -, -, -, -, -, -, hempty⟩ := stream_limiter_accounted ⟨2, 3⟩ twoUsers s hrun
  refine ⟨s, hrun, hempty fun k hk => ?_⟩
  have hfour : s.releases.length = 4 := by simpa using hlength
  have hall : ∀ k < 4, StreamCall.release k ∈ twoUsers := by decide
  exact hall k (by omega)

end StreamLimiter

end Ecommerce
