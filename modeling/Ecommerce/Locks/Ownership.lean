import Ecommerce.Model.Locks
import Ecommerce.Model.Maps
import Ecommerce.Trace.Run

/-!
# Who holds a lock

An entry stays under its key until it expires or is released with its own token. So an acquired lock
excludes every other acquire until then, and a release by a former owner leaves the lock of a later one.
-/

namespace Ecommerce

namespace LockTable

variable {randomUUID : Nat → String} {s t : LockTable} {event : LockEvent}
variable {key token : String} {ttlMs : ℤ} {waited : Nat} {expiresAt : Time}

/-! ## What an event does -/

/-- `acquireLock` finds an entry that has not expired, or stores a new one. -/
theorem acquireLock_cases (randomUUID : Nat → String) (key : String) (ttlMs : ℤ) (waited : Nat)
    (s : LockTable) :
    (∃ existing, s.locks.get key = some existing ∧ s.clock < existing.expiresAt ∧
        s.acquireLock randomUUID key ttlMs waited = (none, s)) ∨
      ((∀ existing, s.locks.get key = some existing → existing.expiresAt ≤ s.clock) ∧
        s.acquireLock randomUUID key ttlMs waited = (some (randomUUID s.drawn),
          { s with
            clock := s.clock + waited
            locks := s.locks.set key ⟨randomUUID s.drawn, s.clock + waited + ttlMs⟩
            drawn := s.drawn + 1 })) := by
  by_cases hheld : (s.locks.get key).any fun existing => existing.expiresAt > s.clock
  · obtain ⟨existing, hget, hlater⟩ := (Option.any_eq_true _ _).1 hheld
    exact .inl ⟨existing, hget, by simpa using hlater, if_pos hheld⟩
  · refine .inr ⟨fun existing hget => ?_, if_neg hheld⟩
    rw [hget] at hheld
    simpa using hheld

/-- `releaseLock` deletes the entry that has the token, and nothing else. -/
theorem get_releaseLock (s : LockTable) (key token k : String) :
    (s.releaseLock key token).2.locks.get k =
      if k = key ∧ (s.locks.get key).map LockEntry.token = some token then none else s.locks.get k := by
  rw [releaseLock]
  by_cases htoken : (s.locks.get key).map LockEntry.token = some token
  · simp [htoken, JsMap.get_delete]
  · simp [htoken]

/-- What an event does: no lock changes, a lock is taken, or a release is tried. -/
inductive Change (randomUUID : Nat → String) (s : LockTable) (event : LockEvent) (t : LockTable) : Prop
  | keep (quiet : event.releases s = none) (locks : t.locks = s.locks) (clock : s.clock ≤ t.clock) (drawn : t.drawn = s.drawn)
      (bodies : t.bodies = s.bodies)
  | take (quiet : event.releases s = none) (key : String) (ttlMs : ℤ) (waited : Nat)
      (free : ∀ existing, s.locks.get key = some existing → existing.expiresAt ≤ s.clock)
      (locks : t.locks = s.locks.set key ⟨randomUUID s.drawn, s.clock + waited + ttlMs⟩)
      (clock : t.clock = s.clock + waited) (drawn : t.drawn = s.drawn + 1)
      (bodies : t.bodies = s.bodies ∨ t.bodies = s.bodies ++
        [⟨key, randomUUID s.drawn, s.clock, s.clock + waited + ttlMs, true⟩])
  | give (key token : String) (releases : event.releases s = some (key, token))
      (locks : t.locks = (s.releaseLock key token).2.locks) (clock : t.clock = s.clock)
      (drawn : t.drawn = s.drawn)
      (bodies : (token ∉ s.bodies.map LockedBody.token ∧ t.bodies = s.bodies) ∨
        ∃ n body, s.bodies[n]? = some body ∧ body.running = true ∧ key = body.key ∧ token = body.token ∧
          t.bodies = s.bodies.set n { body with running := false })

theorem releaseLock_eq (s : LockTable) (key token : String) :
    (s.releaseLock key token).2 = { s with locks := (s.releaseLock key token).2.locks } := by
  rw [releaseLock]
  split <;> rfl

theorem change_of_step (hstep : event.step randomUUID s = some t) : Change randomUUID s event t := by
  cases event with
  | tick ms =>
    obtain rfl := Option.some.inj hstep
    exact .keep rfl rfl (le_add_of_nonneg_right (Int.natCast_nonneg ms)) rfl rfl
  | acquireLock key ttlMs waited =>
    obtain rfl := Option.some.inj hstep
    obtain ⟨existing, -, -, heq⟩ | ⟨hfree, heq⟩ := acquireLock_cases randomUUID key ttlMs waited s
    · rw [heq]
      exact .keep rfl rfl le_rfl rfl rfl
    · rw [heq]
      exact .take rfl key ttlMs waited hfree rfl rfl rfl (.inl rfl)
  | releaseLock key token =>
    rw [LockEvent.step] at hstep
    split at hstep
    · cases hstep
    · next hsecret =>
      obtain rfl := Option.some.inj hstep
      rw [releaseLock_eq]
      exact .give key token rfl rfl rfl rfl (.inl ⟨hsecret, rfl⟩)
  | withDistributedLock key ttlMs waited =>
    obtain rfl := Option.some.inj hstep
    rw [withDistributedLock]
    obtain ⟨existing, -, -, heq⟩ | ⟨hfree, heq⟩ := acquireLock_cases randomUUID key ttlMs waited s
    · rw [heq]
      exact .keep rfl rfl le_rfl rfl rfl
    · rw [heq]
      dsimp only
      split
      · exact .take rfl key ttlMs waited hfree rfl rfl rfl (.inl rfl)
      · exact .take rfl key ttlMs waited hfree rfl rfl rfl (.inr rfl)
  | settle n =>
    obtain ⟨body, hbody, rfl⟩ := Option.map_eq_some_iff.1 hstep
    obtain ⟨hbody, hrunning⟩ := Option.filter_eq_some_iff.1 hbody
    have hreleases : (LockEvent.settle n).releases s = some (body.key, body.token) := by
      simp [LockEvent.releases, hbody]
    rw [settle, releaseLock_eq]
    exact .give body.key body.token hreleases rfl rfl rfl
      (.inr ⟨n, body, hbody, hrunning, rfl, rfl, rfl⟩)

theorem Change.clock_le (h : Change randomUUID s event t) : s.clock ≤ t.clock := by
  cases h with
  | keep _ _ clock => exact clock
  | take _ _ _ waited _ _ clock => exact clock ▸ le_add_of_nonneg_right (Int.natCast_nonneg waited)
  | give _ _ _ _ clock => exact clock.ge

theorem Change.drawn_le (h : Change randomUUID s event t) : s.drawn ≤ t.drawn := by
  cases h <;> omega

/-! ## An acquired lock -/

/-- The entry that an acquire stored is still there, or has expired. -/
def Held (key token : String) (expiresAt : Time) (s : LockTable) : Prop :=
  s.locks.get key = some ⟨token, expiresAt⟩ ∨ expiresAt ≤ s.clock

/-- No event but a release with its own token ends a lock before it expires. -/
theorem Held.change (h : Held key token expiresAt s) (hkeeps : event.releases s ≠ some (key, token))
    (hchange : Change randomUUID s event t) : Held key token expiresAt t := by
  have hclock := hchange.clock_le
  obtain hstored | hexpired := h
  · cases hchange with
    | keep _ locks => exact .inl (by rw [locks, hstored])
    | take _ k ttlMs waited free locks clock =>
      by_cases hkey : key = k
      · subst hkey
        exact .inr ((free _ hstored).trans hclock)
      · exact .inl (by rw [locks, JsMap.get_set, if_neg hkey, hstored])
    | give k tok releases locks =>
      refine .inl ?_
      rw [locks, get_releaseLock, if_neg, hstored]
      rintro ⟨rfl, htoken⟩
      rw [hstored] at htoken
      obtain rfl : token = tok := by simpa using htoken
      exact hkeeps releases
  · exact .inr (hexpired.trans hclock)

/-- While a lock is held and has not expired, no acquire of its key succeeds. -/
theorem Held.excludes (h : Held key token expiresAt s) (hnow : s.clock < expiresAt) (ttlMs : ℤ)
    (waited : Nat) : (s.acquireLock randomUUID key ttlMs waited).1 = none := by
  obtain ⟨existing, -, -, heq⟩ | ⟨hfree, -⟩ := acquireLock_cases randomUUID key ttlMs waited s
  · rw [heq]
  · obtain hstored | hexpired := h
    · exact absurd (hfree _ hstored) (not_le_of_gt hnow)
    · exact absurd hexpired (not_le_of_gt hnow)

/-- The event is a call that acquires the lock of the key with the token, until the lock expires. -/
def Acquired (randomUUID : Nat → String) (key token : String) (expiresAt : Time) (s : LockTable)
    (event : LockEvent) (t : LockTable) : Prop :=
  ∃ ttlMs waited, event.acquires = some (key, ttlMs, waited) ∧
    (s.acquireLock randomUUID key ttlMs waited).1 = some token ∧ event.step randomUUID s = some t ∧
    expiresAt = s.clock + waited + ttlMs

/-- Such an event stores the entry of the lock, with the next token. -/
theorem Acquired.stored (h : Acquired randomUUID key token expiresAt s event t) :
    t.locks.get key = some ⟨token, expiresAt⟩ ∧ token = randomUUID s.drawn ∧ t.drawn = s.drawn + 1 := by
  obtain ⟨ttlMs, waited, hacquires, htoken, hstep, rfl⟩ := h
  obtain ⟨existing, hget, hlater, heq⟩ | ⟨-, heq⟩ := acquireLock_cases randomUUID key ttlMs waited s
  · rw [heq] at htoken
    cases htoken
  · have hdrawn : randomUUID s.drawn = token := by simpa [heq] using htoken
    subst hdrawn
    cases event with
    | acquireLock k ttl w =>
      obtain ⟨rfl, rfl, rfl⟩ : k = key ∧ ttl = ttlMs ∧ w = waited := by simpa [LockEvent.acquires] using hacquires
      obtain rfl := Option.some.inj hstep
      rw [heq]
      simp [JsMap.get_set]
    | withDistributedLock k ttl w =>
      obtain ⟨rfl, rfl, rfl⟩ : k = key ∧ ttl = ttlMs ∧ w = waited := by simpa [LockEvent.acquires] using hacquires
      obtain rfl := Option.some.inj hstep
      rw [withDistributedLock, heq]
      dsimp only
      split <;> simp [JsMap.get_set]
    | tick | releaseLock | settle => cases hacquires

/-! ## A former owner -/

/-- The token is an old one, and not the one that is stored under the key. -/
def Gone (randomUUID : Nat → String) (key token : String) (s : LockTable) : Prop :=
  (∃ n < s.drawn, token = randomUUID n) ∧
    ∀ existing, s.locks.get key = some existing → existing.token ≠ token

theorem Gone.step (hunique : Function.Injective randomUUID) (h : Gone randomUUID key token s)
    (hstep : event.step randomUUID s = some t) : Gone randomUUID key token t := by
  obtain ⟨⟨n, hn, rfl⟩, hother⟩ := h
  cases change_of_step hstep with
  | keep _ locks _ drawn =>
    refine ⟨⟨n, by omega, rfl⟩, fun existing hget => hother existing ?_⟩
    rw [← locks, hget]
  | take _ k ttlMs waited _ locks _ drawn =>
    refine ⟨⟨n, by omega, rfl⟩, fun existing hget => ?_⟩
    rw [locks, JsMap.get_set] at hget
    split at hget
    · obtain rfl := Option.some.inj hget
      intro hsame
      have heq := hunique hsame
      omega
    · exact hother existing hget
  | give k tok _ locks _ drawn =>
    refine ⟨⟨n, by omega, rfl⟩, fun existing hget => ?_⟩
    rw [locks, get_releaseLock] at hget
    split at hget
    · cases hget
    · exact hother existing hget

/-- A release with such a token does nothing. -/
theorem Gone.release (h : Gone randomUUID key token s) : s.releaseLock key token = (false, s) := by
  refine if_pos fun htoken => ?_
  obtain ⟨existing, hget, rfl⟩ := Option.map_eq_some_iff.1 htoken
  exact h.2 existing hget rfl

/-! ## Bodies -/

/-- The bodies have old tokens of their own, a running one has its entry until it expires, and a later one
of the same key was started after that. -/
structure Exclusive (randomUUID : Nat → String) (s : LockTable) : Prop where
  old : ∀ body ∈ s.bodies, ∃ n < s.drawn, body.token = randomUUID n
  own : (s.bodies.map LockedBody.token).Nodup
  held : ∀ body ∈ s.bodies, body.running = true → Held body.key body.token body.expiresAt s
  apart : s.bodies.Pairwise fun a b =>
    a.key = b.key → a.running = true → b.running = true → a.expiresAt ≤ b.checkedAt

theorem exclusive_new : Exclusive randomUUID new :=
  ⟨by simp [new], by simp [new], by simp [new], by simp [new]⟩

theorem map_token_set {bodies : List LockedBody} {n : Nat} {body : LockedBody} (hbody : bodies[n]? = some body) :
    (bodies.set n { body with running := false }).map LockedBody.token = bodies.map LockedBody.token := by
  obtain ⟨hn, rfl⟩ := List.getElem?_eq_some_iff.1 hbody
  refine List.ext_getElem (by simp) fun i hi _ => ?_
  simp only [List.getElem_map, List.getElem_set]
  split
  · next h => subst h; rfl
  · rfl

/-- A body that runs after body `n` is done is another one, with another token. -/
theorem Exclusive.other (h : Exclusive randomUUID s) {n : Nat} {body b : LockedBody}
    (hbody : s.bodies[n]? = some body) (hb : b ∈ s.bodies.set n { body with running := false })
    (hrunning : b.running = true) : b ∈ s.bodies ∧ b.token ≠ body.token := by
  obtain ⟨m, hm, rfl⟩ := List.getElem_of_mem hb
  obtain ⟨hn, rfl⟩ := List.getElem?_eq_some_iff.1 hbody
  rw [List.getElem_set] at hrunning ⊢
  split at hrunning
  · cases hrunning
  · next hne =>
    have hlength : m < s.bodies.length := by simpa using hm
    rw [if_neg hne]
    refine ⟨List.getElem_mem hlength, fun hsame => hne ?_⟩
    have hown := h.own
    rw [List.nodup_iff_injective_getElem] at hown
    have heq := @hown ⟨n, by simpa using hn⟩ ⟨m, by simpa using hlength⟩ (by simpa using hsame.symm)
    exact congrArg Fin.val heq

/-- The bodies stay, and the running ones keep their locks. -/
theorem Exclusive.keep (h : Exclusive randomUUID s) (hbodies : t.bodies = s.bodies) (hdrawn : s.drawn ≤ t.drawn)
    (hheld : ∀ body ∈ s.bodies, body.running = true → Held body.key body.token body.expiresAt t) :
    Exclusive randomUUID t := by
  refine ⟨?_, ?_, ?_, ?_⟩ <;> rw [hbodies]
  · intro body hbody
    obtain ⟨n, hn, htoken⟩ := h.old body hbody
    exact ⟨n, by omega, htoken⟩
  · exact h.own
  · exact hheld
  · exact h.apart

/-- A body starts with the next token, when the locks of its key that came before have expired. -/
theorem Exclusive.started (hunique : Function.Injective randomUUID) (h : Exclusive randomUUID s) {body : LockedBody}
    (htoken : body.token = randomUUID s.drawn) (hbodies : t.bodies = s.bodies ++ [body])
    (hdrawn : t.drawn = s.drawn + 1)
    (hheld : ∀ b ∈ s.bodies, b.running = true → Held b.key b.token b.expiresAt t)
    (hstored : Held body.key body.token body.expiresAt t)
    (hexpired : ∀ b ∈ s.bodies, b.key = body.key → b.running = true → b.expiresAt ≤ body.checkedAt) :
    Exclusive randomUUID t := by
  refine ⟨?_, ?_, ?_, ?_⟩ <;> rw [hbodies]
  · intro b hb
    obtain hb | hb := List.mem_append.1 hb
    · obtain ⟨n, hn, hold⟩ := h.old b hb
      exact ⟨n, by omega, hold⟩
    · obtain rfl := List.mem_singleton.1 hb
      exact ⟨s.drawn, by omega, htoken⟩
  · rw [List.map_append, List.nodup_append]
    refine ⟨h.own, by simp, ?_⟩
    rintro token hold token' hnew rfl
    obtain ⟨b, hb, rfl⟩ := List.mem_map.1 hold
    obtain ⟨n, hn, hdrew⟩ := h.old b hb
    have hsame : b.token = body.token := by simpa using hnew
    have heq := hunique (hdrew.symm.trans (hsame.trans htoken))
    omega
  · intro b hb hrunning
    obtain hb | hb := List.mem_append.1 hb
    · exact hheld b hb hrunning
    · obtain rfl := List.mem_singleton.1 hb
      exact hstored
  · refine List.pairwise_append.2 ⟨h.apart, List.pairwise_singleton _ _, fun a ha b hb hkey hrunning _ => ?_⟩
    obtain rfl := List.mem_singleton.1 hb
    exact hexpired a ha hkey hrunning

/-- A body ends, and the others that run keep their locks. -/
theorem Exclusive.ended (h : Exclusive randomUUID s) {n : Nat} {body : LockedBody} (hbody : s.bodies[n]? = some body)
    (hbodies : t.bodies = s.bodies.set n { body with running := false }) (hdrawn : t.drawn = s.drawn)
    (hheld : ∀ b ∈ s.bodies, b.running = true → b.token ≠ body.token → Held b.key b.token b.expiresAt t) :
    Exclusive randomUUID t := by
  refine ⟨?_, ?_, ?_, ?_⟩ <;> rw [hbodies]
  · intro b hb
    have htoken : b.token ∈ s.bodies.map LockedBody.token := by
      rw [← map_token_set hbody]
      exact List.mem_map_of_mem hb
    obtain ⟨b', hb', hsame⟩ := List.mem_map.1 htoken
    obtain ⟨m, hm, heq⟩ := h.old b' hb'
    exact ⟨m, by omega, hsame.symm.trans heq⟩
  · rw [map_token_set hbody]
    exact h.own
  · intro b hb hrunning
    obtain ⟨hmem, hother⟩ := h.other hbody hb hrunning
    exact hheld b hmem hrunning hother
  · have hapart := h.apart
    rw [List.pairwise_iff_getElem] at hapart ⊢
    intro i j hi hj hij
    rw [List.getElem_set, List.getElem_set]
    split
    · exact fun _ hdone => by cases hdone
    · split
      · exact fun _ _ hdone => by cases hdone
      · exact hapart i j _ _ hij

theorem Exclusive.step (hunique : Function.Injective randomUUID) (h : Exclusive randomUUID s)
    (hstep : event.step randomUUID s = some t) : Exclusive randomUUID t := by
  have hchange := change_of_step hstep
  have hdrawn := hchange.drawn_le
  -- The bodies that no release is for keep their locks.
  have hheld (body : LockedBody) (hbody : body ∈ s.bodies) (hrunning : body.running = true)
      (hkeeps : event.releases s ≠ some (body.key, body.token)) :
      Held body.key body.token body.expiresAt t := (h.held body hbody hrunning).change hkeeps hchange
  cases hchange with
  | keep quiet locks clock drawn bodies =>
    exact h.keep bodies hdrawn fun body hbody hrunning => hheld body hbody hrunning (by simp [quiet])
  | take quiet key ttlMs waited free locks clock drawn bodies =>
    have hkept (body : LockedBody) (hbody : body ∈ s.bodies) (hrunning : body.running = true) :
        Held body.key body.token body.expiresAt t := hheld body hbody hrunning (by simp [quiet])
    obtain bodies | bodies := bodies
    · exact h.keep bodies hdrawn hkept
    · refine h.started hunique rfl bodies drawn hkept ?_ fun a ha hkey hrunning => ?_
      · exact .inl (by rw [locks, JsMap.get_set, if_pos rfl])
      · obtain hstored | hexpired := h.held a ha hrunning
        · rw [hkey] at hstored
          exact free _ hstored
        · exact hexpired
  | give key token releases locks clock drawn bodies =>
    rw [releases] at hheld
    obtain ⟨hsecret, bodies⟩ | ⟨n, body, hbody, hrunning, rfl, rfl, bodies⟩ := bodies
    · refine h.keep bodies hdrawn fun body hbody hrunning => hheld body hbody hrunning fun hsame => hsecret ?_
      obtain ⟨-, rfl⟩ : key = body.key ∧ token = body.token := by simpa using hsame
      exact List.mem_map_of_mem hbody
    · refine h.ended hbody bodies drawn fun b hb hrunning hother => hheld b hb hrunning fun hsame => hother ?_
      obtain ⟨-, htoken⟩ : body.key = b.key ∧ body.token = b.token := by simpa using hsame
      exact htoken.symm

/-! ## Runs -/

/-- The lock of a key: from an acquire that returned a token until the lock expires or is released with
this token, no acquire of the key succeeds; a release deletes an entry just when its token is the one
stored, so the token of a former owner changes nothing any more; and two bodies of one key run at the same
time only if the first one's lock had expired when the second one's was taken. -/
theorem lock_ownership {randomUUID : Nat → String} (hunique : Function.Injective randomUUID)
    (before : List LockEvent) (s : LockTable)
    (hrun : Trace.run (LockEvent.step randomUUID) new before = some s) :
    (∀ key token expiresAt event t middle u, Acquired randomUUID key token expiresAt s event t →
      Trace.run (LockEvent.step randomUUID) t middle = some u →
      (Trace.Meets (LockEvent.step randomUUID) (fun x e => e.releases x ≠ some (key, token)) t middle →
        u.clock < expiresAt →
        ∀ ttlMs waited, (u.acquireLock randomUUID key ttlMs waited).1 = none) ∧
      ∀ token' expiresAt' event' v after w, Acquired randomUUID key token' expiresAt' u event' v →
        Trace.run (LockEvent.step randomUUID) v after = some w → w.releaseLock key token = (false, w)) ∧
    (∀ key token,
      ((s.releaseLock key token).1 = true ↔ (s.locks.get key).map LockEntry.token = some token) ∧
      ∀ k, (s.releaseLock key token).2.locks.get k =
        if k = key ∧ (s.locks.get key).map LockEntry.token = some token then none else s.locks.get k) ∧
    s.bodies.Pairwise fun a b =>
      a.key = b.key → a.running = true → b.running = true → a.expiresAt ≤ b.checkedAt := by
  have hexclusive : Exclusive randomUUID s :=
    Trace.run_invariant _ exclusive_new (fun hinv hstep => hinv.step hunique hstep) hrun
  refine ⟨fun key token expiresAt event t middle u hacquired hmiddle => ⟨fun hkeeps hnow ttlMs waited => ?_,
    fun token' expiresAt' event' v after w hlater hafter => ?_⟩, fun key token => ⟨?_, ?_⟩, hexclusive.apart⟩
  · have hheld : Held key token expiresAt u :=
      Trace.run_induct _ (.inl hacquired.stored.1)
        (fun hinv hkeep hstep => hinv.change hkeep (change_of_step hstep)) hkeeps hmiddle
    exact hheld.excludes hnow ttlMs waited
  · -- The later owner has another token, and the former one is not drawn again.
    obtain ⟨-, htoken, hdrawn⟩ := hacquired.stored
    obtain ⟨hstored, htoken', hdrawn'⟩ := hlater.stored
    have hmore : t.drawn ≤ u.drawn :=
      Trace.run_invariant (t.drawn ≤ ·.drawn) le_rfl
        (fun hinv hstep => hinv.trans (change_of_step hstep).drawn_le) hmiddle
    have hgone : Gone randomUUID key token v := by
      refine ⟨⟨s.drawn, by omega, htoken⟩, fun existing hget hsame => ?_⟩
      obtain rfl : existing = ⟨token', expiresAt'⟩ := by simpa [hstored] using hget.symm
      have heq := hunique (htoken'.symm.trans (hsame.trans htoken))
      omega
    have hgone' : Gone randomUUID key token w :=
      Trace.run_invariant _ hgone (fun hinv hstep => hinv.step hunique hstep) hafter
    exact hgone'.release
  · rw [releaseLock]
    split
    · next hne => simpa using hne
    · next heq => simpa using heq
  · exact fun k => get_releaseLock s key token k

/-- Tokens that are told apart by their lengths. -/
def tokenText (n : Nat) : String := String.ofList (List.replicate (n + 1) '0')

theorem tokenText_injective : Function.Injective tokenText := by
  intro n m h
  have hlength := congrArg String.length h
  simpa [tokenText] using hlength

/-- A lock of 50 ms, and the lock that is taken 60 ms later. -/
def firstOwner : LockTable := (new.acquireLock tokenText "checkout:1" 50 0).2

def expired : LockTable := { firstOwner with clock := 60 }

def secondOwner : LockTable := (expired.acquireLock tokenText "checkout:1" 50 0).2

/-- The first owner's late release leaves the lock of the second one. -/
theorem lock_ownership_late_release :
    secondOwner.releaseLock "checkout:1" (tokenText 0) = (false, secondOwner) := by
  have hfirst : Acquired tokenText "checkout:1" (tokenText 0) 50 new (.acquireLock "checkout:1" 50 0) firstOwner :=
    ⟨50, 0, rfl, rfl, rfl, rfl⟩
  have hsecond : Acquired tokenText "checkout:1" (tokenText 1) 110 expired (.acquireLock "checkout:1" 50 0)
      secondOwner := ⟨50, 0, rfl, rfl, rfl, rfl⟩
  obtain ⟨howner, -, -⟩ := lock_ownership tokenText_injective [] new rfl
  obtain ⟨-, hlate⟩ := howner _ _ _ _ _ [.tick 60] expired hfirst rfl
  exact hlate _ _ _ _ [] secondOwner hsecond rfl

end LockTable

end Ecommerce
