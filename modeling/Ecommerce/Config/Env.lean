import Ecommerce.Model.Env
import Mathlib.Data.List.Induction
import Mathlib.Data.List.TakeWhile

/-!
# Configurations

`parseEnv` reports every problem of the variables, and nothing else. A configuration that it accepts has
five different secrets, none of which is published, and in production all of them are set and long.
-/

namespace Ecommerce

namespace ParsedVariables

variable (v : ParsedVariables) (randomHex : Nat → String)

/-- The secret that a key ends up with: the one that is set, or the next random value. -/
def settled (keys : List SecretKey) (key : SecretKey) : String :=
  (v.given key).getD (randomHex ((keys.takeWhile (· ≠ key)).countP fun k => (v.given k).isNone))

/-- Everything that can be wrong with the variables. -/
inductive Violates : EnvProblem → Prop
  | missing (key : SecretKey) (hproduction : v.NODE_ENV = .production) (hnone : v.given key = none) :
      Violates ⟨key.name, "is required in production"⟩
  | published (key : SecretKey) (value : String) (hvalue : v.given key = some value)
      (hknown : value ∈ KNOWN_PLACEHOLDERS) :
      Violates ⟨key.name, "is a published placeholder value; generate a real secret"⟩
  | short (key : SecretKey) (value : String) (hvalue : v.given key = some value)
      (hknown : value ∉ KNOWN_PLACEHOLDERS) (hproduction : v.NODE_ENV = .production)
      (hshort : (utf16 value.toList).length < MIN_SECRET_LENGTH) :
      Violates ⟨key.name, "must be at least " ++ toString MIN_SECRET_LENGTH ++ " characters in production"⟩
  | reused (before after : List SecretKey) (key other : SecretKey) (hkeys : SECRET_KEYS = before ++ key :: after)
      (hlast : (before.filter fun k => v.settled randomHex SECRET_KEYS k =
        v.settled randomHex SECRET_KEYS key).getLast? = some other) :
      Violates ⟨key.name, "must differ from " ++ other.name⟩
  | database (hproduction : v.NODE_ENV = .production) (hnone : v.DB_URL = none ∨ v.DB_URL = some "") :
      Violates ⟨"DB_URL", "is required in production"⟩
  | debug (hproduction : v.NODE_ENV = .production) (hdebug : v.DEBUG_MODE = true) :
      Violates ⟨"DEBUG_MODE", "must be false in production"⟩
  | proxy (error : String) (hproxy : parseTrustProxy v.TRUST_PROXY = .error error) :
      Violates ⟨"TRUST_PROXY", error⟩

/-- What the parts of an accepted configuration promise. -/
structure Accepts (env : Env) : Prop where
  secrets : ∀ key, env.secret key = v.settled randomHex SECRET_KEYS key
  distinct : ∀ key key', env.secret key = env.secret key' → key = key'
  unpublished : ∀ key value, v.given key = some value → env.secret key = value ∧ value ∉ KNOWN_PLACEHOLDERS
  production : env.NODE_ENV = .production → env.DEBUG_MODE = false ∧ v.DB_URL = some env.DB_URL ∧
    ∀ key, v.given key = some (env.secret key) ∧ MIN_SECRET_LENGTH ≤ (utf16 (env.secret key).toList).length
  proxy : ∀ error, env.TRUST_PROXY ≠ .error error

end ParsedVariables

/-! ## The first loop -/

section Reading

variable {v : ParsedVariables} {randomHex : Nat → String} {keys : List SecretKey} {start : SecretsRead}

theorem draws_foldl (hstart : start.draws = 0) :
    (keys.foldl (readSecret v randomHex) start).draws = keys.countP fun k => (v.given k).isNone := by
  induction keys using List.reverseRecOn with
  | nil => exact hstart
  | append_singleton keys k ih =>
    rw [List.foldl_concat, List.countP_append, ← ih]
    simp only [readSecret, List.countP_singleton]
    split <;> rfl

/-- Each key gets its secret when its turn comes, and keeps it. -/
theorem secrets_foldl (hstart : start.draws = 0) (hkeys : keys.Nodup) {key : SecretKey} (hkey : key ∈ keys) :
    (keys.foldl (readSecret v randomHex) start).secrets key = v.settled randomHex keys key := by
  induction keys using List.reverseRecOn with
  | nil => cases hkey
  | append_singleton keys k ih =>
    obtain ⟨hnodup, -, hfresh⟩ := List.nodup_append.1 hkeys
    rw [List.foldl_concat]
    by_cases hk : key = k
    · subst hk
      have hnot : ∀ a ∈ keys, a ≠ key := fun a ha => hfresh a ha key (List.mem_singleton_self key)
      have htake : (keys ++ [key]).takeWhile (· ≠ key) = keys := by
        rw [List.takeWhile_append_of_pos (by simpa using hnot)]
        simp
      simp only [readSecret, Function.update_self, ParsedVariables.settled, htake, draws_foldl hstart]
    · have hmem : key ∈ keys := by simpa [hk] using hkey
      have htake : (keys ++ [k]).takeWhile (· ≠ key) = keys.takeWhile (· ≠ key) := by
        rw [List.takeWhile_append, if_neg]
        intro hlength
        have hall := List.takeWhile_eq_self_iff.1 (List.IsPrefix.eq_of_length (List.takeWhile_prefix _) hlength)
        simpa using hall key hmem
      simp only [readSecret, Function.update_of_ne hk, ParsedVariables.settled, htake]
      exact ih hnodup hmem

theorem problems_foldl {p : EnvProblem} :
    p ∈ (keys.foldl (readSecret v randomHex) start).problems ↔
      p ∈ start.problems ∨ ∃ key ∈ keys, p ∈ v.secretProblems key := by
  induction keys using List.reverseRecOn with
  | nil => simp
  | append_singleton keys k ih =>
    rw [List.foldl_concat]
    simp only [readSecret, List.mem_append, ih, List.mem_singleton]
    grind

end Reading

/-! ## The second loop -/

section Seeing

variable {secrets : SecretKey → String} {keys : List SecretKey}

/-- The map has the last key of each value. -/
theorem seen_foldl (value : String) :
    (keys.foldl (seeSecret secrets) ⟨JsMap.empty, []⟩).seen.get value =
      (keys.filter fun k => secrets k = value).getLast? := by
  induction keys using List.reverseRecOn with
  | nil => rfl
  | append_singleton keys k ih =>
    rw [List.foldl_concat, List.filter_append]
    simp only [seeSecret, JsMap.get_set, ih]
    by_cases hvalue : value = secrets k
    · subst hvalue
      simp
    · have hk : secrets k ≠ value := fun h => hvalue h.symm
      simp [hvalue, hk]

/-- A key is reported when an earlier one has its value. -/
theorem reused_foldl {p : EnvProblem} :
    p ∈ (keys.foldl (seeSecret secrets) ⟨JsMap.empty, []⟩).problems ↔
      ∃ before key after other, keys = before ++ key :: after ∧
        (before.filter fun k => secrets k = secrets key).getLast? = some other ∧
        p = ⟨key.name, "must differ from " ++ other.name⟩ := by
  induction keys using List.reverseRecOn with
  | nil => simp
  | append_singleton keys k ih =>
    have hsplit : (∃ before key after other, keys ++ [k] = before ++ key :: after ∧
        (before.filter fun k => secrets k = secrets key).getLast? = some other ∧
        p = ⟨key.name, "must differ from " ++ other.name⟩) ↔
        (p ∈ (keys.foldl (seeSecret secrets) ⟨JsMap.empty, []⟩).problems ∨ ∃ other,
          (keys.filter fun j => secrets j = secrets k).getLast? = some other ∧
          p = ⟨k.name, "must differ from " ++ other.name⟩) := by
      rw [ih]
      constructor
      · rintro ⟨before, key, after, other, hkeys, hlast, rfl⟩
        induction after using List.reverseRecOn with
        | nil =>
          obtain ⟨rfl, hk⟩ := List.append_inj' hkeys rfl
          obtain rfl := List.singleton_inj.1 hk
          exact .inr ⟨other, hlast, rfl⟩
        | append_singleton after a =>
          rw [← List.cons_append, ← List.append_assoc] at hkeys
          obtain ⟨rfl, -⟩ := List.append_inj' hkeys rfl
          exact .inl ⟨before, key, after, other, rfl, hlast, rfl⟩
      · rintro (⟨before, key, after, other, rfl, hlast, rfl⟩ | ⟨other, hlast, rfl⟩)
        · exact ⟨before, key, after ++ [k], other, by simp, hlast, rfl⟩
        · exact ⟨keys, k, [], other, rfl, hlast, rfl⟩
    rw [hsplit, List.foldl_concat]
    simp only [seeSecret, seen_foldl]
    cases (keys.filter fun j => secrets j = secrets k).getLast? with
    | none => simp
    | some other => simp

end Seeing

/-! ## Both together -/

section Parsing

variable (v : ParsedVariables) (randomHex : Nat → String)

theorem secretKeys_nodup : SECRET_KEYS.Nodup := by decide

theorem mem_secretKeys (key : SecretKey) : key ∈ SECRET_KEYS := by cases key <;> decide

theorem readSecrets_secrets : (readSecrets v randomHex).secrets = v.settled randomHex SECRET_KEYS :=
  funext fun key => secrets_foldl rfl secretKeys_nodup (mem_secretKeys key)

variable {v randomHex} {p : EnvProblem}

theorem isProduction_iff : v.isProduction = true ↔ v.NODE_ENV = .production := beq_iff_eq

theorem violates_of_mem_secretProblems {key : SecretKey} (h : p ∈ v.secretProblems key) : v.Violates randomHex p := by
  unfold ParsedVariables.secretProblems at h
  split at h
  · next hnone =>
    split at h
    · next hproduction =>
      obtain rfl := List.mem_singleton.1 h
      exact .missing key (isProduction_iff.1 hproduction) hnone
    · cases h
  · next value hvalue =>
    split at h
    · next hknown =>
      obtain rfl := List.mem_singleton.1 h
      exact .published key value hvalue (List.contains_iff_mem.1 hknown)
    · next hknown =>
      split at h
      · next hshort =>
        obtain rfl := List.mem_singleton.1 h
        rw [Bool.and_eq_true, decide_eq_true_eq] at hshort
        exact .short key value hvalue (fun hmem => hknown (List.contains_iff_mem.2 hmem))
          (isProduction_iff.1 hshort.1) hshort.2
      · cases h

theorem violates_of_mem_otherProblems (h : p ∈ v.otherProblems) : v.Violates randomHex p := by
  simp only [ParsedVariables.otherProblems, List.mem_append] at h
  rcases h with (h | h) | h
  · split at h
    · next hdatabase =>
      obtain rfl := List.mem_singleton.1 h
      rw [Bool.and_eq_true, Option.isNone_iff_eq_none, Option.filter_eq_none_iff] at hdatabase
      refine .database (isProduction_iff.1 hdatabase.2) ?_
      cases hurl : v.DB_URL with
      | none => exact .inl rfl
      | some url => simpa using hdatabase.1 url hurl
    · cases h
  · split at h
    · next hdebug =>
      obtain rfl := List.mem_singleton.1 h
      rw [Bool.and_eq_true] at hdebug
      exact .debug (isProduction_iff.1 hdebug.1) hdebug.2
    · cases h
  · split at h
    · next error hproxy =>
      obtain rfl := List.mem_singleton.1 h
      exact .proxy error hproxy
    · cases h

/-- Nothing is reported twice as something else, and nothing is left out. -/
theorem mem_envProblems : p ∈ envProblems v randomHex ↔ v.Violates randomHex p := by
  have hread : ∀ q, q ∈ (readSecrets v randomHex).problems ↔ ∃ key, q ∈ v.secretProblems key := by
    intro q
    rw [readSecrets, problems_foldl]
    simp [mem_secretKeys]
  rw [envProblems, List.mem_append, List.mem_append, hread, seeSecrets, reused_foldl, readSecrets_secrets]
  constructor
  · rintro ((⟨key, h⟩ | ⟨before, key, after, other, hkeys, hlast, rfl⟩) | h)
    · exact violates_of_mem_secretProblems h
    · exact .reused before after key other hkeys hlast
    · exact violates_of_mem_otherProblems h
  · intro h
    cases h with
    | missing key hproduction hnone =>
      refine .inl (.inl ⟨key, ?_⟩)
      simp [ParsedVariables.secretProblems, hnone, isProduction_iff.2 hproduction]
    | published key value hvalue hknown =>
      refine .inl (.inl ⟨key, ?_⟩)
      simp [ParsedVariables.secretProblems, hvalue, hknown]
    | short key value hvalue hknown hproduction hshort =>
      refine .inl (.inl ⟨key, ?_⟩)
      simp [ParsedVariables.secretProblems, hvalue, hknown, isProduction_iff.2 hproduction, hshort]
    | reused before after key other hkeys hlast =>
      exact .inl (.inr ⟨before, key, after, other, hkeys, hlast, rfl⟩)
    | database hproduction hnone =>
      refine .inr ?_
      rcases hnone with hnone | hnone <;>
        simp [ParsedVariables.otherProblems, hnone, isProduction_iff.2 hproduction]
    | debug hproduction hdebug =>
      exact .inr (by simp [ParsedVariables.otherProblems, hdebug, isProduction_iff.2 hproduction])
    | proxy error hproxy =>
      exact .inr (by simp [ParsedVariables.otherProblems, hproxy])

/-- Where nothing is wrong, no two keys have one secret. -/
theorem settled_injective (h : ∀ p, ¬ v.Violates randomHex p) {key key' : SecretKey}
    (heq : v.settled randomHex SECRET_KEYS key = v.settled randomHex SECRET_KEYS key') : key = key' := by
  have hlater : ∀ before after : List SecretKey, ∀ k j, SECRET_KEYS = before ++ k :: after → j ∈ before →
      v.settled randomHex SECRET_KEYS j ≠ v.settled randomHex SECRET_KEYS k := by
    intro before after k j hkeys hj hsame
    cases hlast : (before.filter fun i => v.settled randomHex SECRET_KEYS i =
        v.settled randomHex SECRET_KEYS k).getLast? with
    | none =>
      rw [List.getLast?_eq_none_iff, List.filter_eq_nil_iff] at hlast
      exact hlast j hj (by simpa using hsame)
    | some other => exact h _ (.reused before after k other hkeys hlast)
  by_contra hne
  obtain ⟨before, after, hkeys⟩ := List.append_of_mem (mem_secretKeys key)
  have hmem := mem_secretKeys key'
  rw [hkeys, List.mem_append, List.mem_cons] at hmem
  rcases hmem with hmem | rfl | hmem
  · exact hlater before after key key' hkeys hmem heq.symm
  · exact hne rfl
  · obtain ⟨between, rest, rfl⟩ := List.append_of_mem hmem
    exact hlater (before ++ key :: between) rest key' key (by simp [hkeys]) (by simp) heq

/-- Where nothing is wrong, the configuration is as it should be. -/
theorem parseEnv_accepts (h : ∀ p, ¬ v.Violates randomHex p) {env : Env} (henv : parseEnv v randomHex = .ok env) :
    v.Accepts randomHex env := by
  have hempty : (envProblems v randomHex).isEmpty := by
    rw [List.isEmpty_iff, List.eq_nil_iff_forall_not_mem]
    exact fun p hp => h p (mem_envProblems.1 hp)
  rw [parseEnv, if_pos hempty] at henv
  obtain rfl := Except.ok.inj henv
  have hsecret : ∀ key, (readSecrets v randomHex).secrets key = v.settled randomHex SECRET_KEYS key :=
    fun key => congrFun (readSecrets_secrets v randomHex) key
  have hgiven : ∀ key value, v.given key = some value → (readSecrets v randomHex).secrets key = value := by
    intro key value hvalue
    rw [hsecret, ParsedVariables.settled, hvalue]
    rfl
  refine ⟨hsecret, fun key key' heq => ?_, fun key value hvalue => ⟨hgiven key value hvalue, fun hknown => ?_⟩,
    fun hproduction => ⟨?_, ?_, fun key => ?_⟩, fun error hproxy => h _ (.proxy error hproxy)⟩
  · exact settled_injective h ((hsecret key).symm.trans (heq.trans (hsecret key')))
  · exact h _ (.published key value hvalue hknown)
  · by_contra hdebug
    exact h _ (.debug hproduction (by simpa using hdebug))
  · cases hurl : v.DB_URL with
    | none => exact absurd (.database hproduction (.inl hurl)) (h _)
    | some url => simp
  · cases hvalue : v.given key with
    | none => exact absurd (.missing key hproduction hvalue) (h _)
    | some value =>
      obtain rfl := hgiven key value hvalue
      refine ⟨rfl, Nat.le_of_not_lt fun hshort => ?_⟩
      by_cases hknown : (readSecrets v randomHex).secrets key ∈ KNOWN_PLACEHOLDERS
      · exact h _ (.published key _ hvalue hknown)
      · exact h _ (.short key _ hvalue hknown hproduction hshort)

end Parsing

/-- `parseEnv` accepts variables exactly when nothing is wrong with them, and else reports everything that is.
Secrets of what it accepts are different, not published, and in production set and long. -/
theorem parseEnv_reports (v : ParsedVariables) (randomHex : Nat → String) :
    (∀ lines, parseEnv v randomHex = .error lines → lines ≠ [] ∧
      ∃ problems : List EnvProblem, lines = problems.map EnvProblem.text ∧
        ∀ p, p ∈ problems ↔ v.Violates randomHex p) ∧
    ∀ env, parseEnv v randomHex = .ok env → (∀ p, ¬ v.Violates randomHex p) ∧ v.Accepts randomHex env := by
  constructor
  · intro lines hlines
    rw [parseEnv] at hlines
    split at hlines
    · cases hlines
    · next hsome =>
      obtain rfl := Except.error.inj hlines
      exact ⟨by simpa using hsome, _, rfl, fun p => mem_envProblems⟩
  · intro env henv
    have hnone : ∀ p, ¬ v.Violates randomHex p := by
      intro p hp
      have hmem := mem_envProblems.2 hp
      have hfull : ¬ (envProblems v randomHex).isEmpty := by
        intro hempty
        rw [List.isEmpty_iff.1 hempty] at hmem
        cases hmem
      rw [parseEnv, if_neg hfull] at henv
      cases henv
    exact ⟨hnone, parseEnv_accepts hnone henv⟩

/-- Two secrets of a shop are one, and a third is short. -/
example : (envProblems ⟨.production, 5000, "127.0.0.1", none, false, some "mongodb://db:27017/shop",
      fun key => some (if key = .JWT_SECRET ∨ key = .REFRESH_SECRET then "one-secret-for-two-kinds-of-tokens"
        else if key = .WEBHOOK_SECRET then "short" else key.name ++ "-that-is-long-enough-for-this"), "1"⟩
      toString).map EnvProblem.text =
    ["WEBHOOK_SECRET: must be at least 32 characters in production",
      "REFRESH_SECRET: must differ from JWT_SECRET"] := by
  decide +kernel

end Ecommerce
