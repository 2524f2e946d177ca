import Ecommerce.Model.Bodies
import Mathlib.Data.List.TakeWhile

/-!
# What a signature covers

A timestamp that is a number has no bracket in it, and a payload has none but white space in front of
its first bracket. So the dot between the two can be found again, although both may hold dots.
-/

namespace Ecommerce

open Text

/-! ## Numbers -/

/-- The characters of a numeric literal, with the white space around it. -/
def isNumberChar (c : Char) : Bool := isJsSpace c || (digitValue c).isSome || c ∈ "xXoObBeE+-.".toList

theorem isNumberChar_space {c : Char} (h : isJsSpace c) : isNumberChar c := by simp [isNumberChar, h]

theorem isNumberChar_digit {c : Char} (h : (digitValue c).isSome) : isNumberChar c := by
  simp [isNumberChar, h]

theorem isNumberChar_isDigit {c : Char} (h : c.isDigit) : isNumberChar c := by
  have hrange : '0' ≤ c ∧ c ≤ '9' := by
    simp only [Char.isDigit, Bool.and_eq_true, decide_eq_true_eq] at h
    exact h
  exact isNumberChar_digit (by simp [digitValue, hrange])

theorem readDigits_chars {base acc n : Nat} {cs : List Char} (h : readDigits base acc cs = some n) :
    ∀ c ∈ cs, isNumberChar c := by
  induction cs generalizing acc with
  | nil => exact fun c hc => by cases hc
  | cons c cs ih =>
    rw [readDigits] at h
    split at h
    · next d hd =>
      split at h
      · refine List.forall_mem_cons.2 ⟨isNumberChar_digit (by rw [hd]; rfl), ih h⟩
      · cases h
    · cases h

theorem readExponent_chars {cs : List Char} {e : ℤ} (h : readExponent cs = some e) :
    ∀ c ∈ cs, isNumberChar c := by
  unfold readExponent at h
  split at h
  · exact fun c hc => by cases hc
  · next x cs =>
    split at h
    · next hx =>
      have hfirst : isNumberChar x := by
        rcases hx with rfl | rfl <;> decide
      refine List.forall_mem_cons.2 ⟨hfirst, ?_⟩
      split at h
      · obtain ⟨n, hn, -⟩ := Option.map_eq_some_iff.1 h
        obtain ⟨m, hm, -⟩ := Option.bind_eq_some_iff.1 hn
        exact List.forall_mem_cons.2 ⟨by decide, readDigits_chars hm⟩
      · obtain ⟨n, hn, -⟩ := Option.map_eq_some_iff.1 h
        obtain ⟨m, hm, -⟩ := Option.bind_eq_some_iff.1 hn
        exact List.forall_mem_cons.2 ⟨by decide, readDigits_chars hm⟩
      · obtain ⟨n, hn, -⟩ := Option.map_eq_some_iff.1 h
        obtain ⟨m, hm, -⟩ := Option.bind_eq_some_iff.1 hn
        exact readDigits_chars hm
      · cases h
    · cases h

theorem takeWhile_isDigit_chars (cs : List Char) : ∀ c ∈ cs.takeWhile Char.isDigit, isNumberChar c :=
  fun _ hc => isNumberChar_isDigit (List.mem_takeWhile_imp hc)

theorem readDecimal_exponent {cs : List Char} {q : ℚ} (h : readDecimal cs = some q) :
    ∃ e, readExponent (if (cs.dropWhile Char.isDigit).head? = some '.' then
      (cs.dropWhile Char.isDigit).tail.dropWhile Char.isDigit else cs.dropWhile Char.isDigit) = some e := by
  refine Option.ne_none_iff_exists'.1 fun hnone => ?_
  simp only [readDecimal, hnone] at h
  rcases ite_eq_iff.1 h with ⟨-, h⟩ | ⟨-, h⟩
  · cases h
  · revert h
    generalize readDigits 10 0 _ = digits
    cases digits <;> exact fun h => by cases h

theorem readDecimal_chars {cs : List Char} {q : ℚ} (h : readDecimal cs = some q) :
    ∀ c ∈ cs, isNumberChar c := by
  obtain ⟨e, hexponent⟩ := readDecimal_exponent h
  have hrest := readExponent_chars hexponent
  rw [← List.takeWhile_append_dropWhile (p := Char.isDigit) (l := cs)]
  refine List.forall_mem_append.2 ⟨takeWhile_isDigit_chars cs, ?_⟩
  by_cases hdot : (cs.dropWhile Char.isDigit).head? = some '.'
  · obtain ⟨ds, hds⟩ := List.head?_eq_some_iff.1 hdot
    rw [if_pos hdot, hds, List.tail_cons] at hrest
    rw [hds, ← List.takeWhile_append_dropWhile (p := Char.isDigit) (l := ds)]
    exact List.forall_mem_cons.2 ⟨by decide, List.forall_mem_append.2 ⟨takeWhile_isDigit_chars ds, hrest⟩⟩
  · rw [if_neg hdot] at hrest
    exact hrest

/-- What `trim` takes away is white space. -/
theorem jsTrim_chars {s : String} (h : ∀ c ∈ (jsTrim s).toList, isNumberChar c) :
    ∀ c ∈ s.toList, isNumberChar c := by
  have hdrop : ∀ cs : List Char, (∀ c ∈ cs.dropWhile isJsSpace, isNumberChar c) →
      ∀ c ∈ cs, isNumberChar c := by
    intro cs hcs c hc
    rw [← List.takeWhile_append_dropWhile (p := isJsSpace) (l := cs)] at hc
    rcases List.mem_append.1 hc with hc | hc
    · exact isNumberChar_space (List.mem_takeWhile_imp hc)
    · exact hcs c hc
  unfold jsTrim at h
  rw [String.toList_ofList] at h
  refine hdrop _ fun c hc => hdrop _ (fun x hx => h x (List.mem_reverse.2 hx)) c (List.mem_reverse.2 hc)

/-- A text that is a number consists of such characters. -/
theorem jsNumber_chars {s : String} {q : ℚ} (h : jsNumber s = some q) : ∀ c ∈ s.toList, isNumberChar c := by
  refine jsTrim_chars ?_
  unfold jsNumber at h
  split at h
  · next hs => rw [hs]; exact fun c hc => by cases hc
  · next x d ds hs =>
    rw [hs]
    have hprefixed : ∀ base, (readDigits base 0 (d :: ds)).map (fun n => (n : ℚ)) = some q →
        isNumberChar x → ∀ c ∈ '0' :: x :: d :: ds, isNumberChar c := by
      intro base hbase hx
      obtain ⟨m, hm, -⟩ := Option.map_eq_some_iff.1 hbase
      obtain ⟨n, hn, -⟩ := Option.bind_eq_some_iff.1 hm
      exact List.forall_mem_cons.2 ⟨by decide, List.forall_mem_cons.2 ⟨hx, readDigits_chars hn⟩⟩
    split at h
    · next hx => exact hprefixed 16 h (by rcases hx with rfl | rfl <;> decide)
    split at h
    · next hx => exact hprefixed 8 h (by rcases hx with rfl | rfl <;> decide)
    split at h
    · next hx => exact hprefixed 2 h (by rcases hx with rfl | rfl <;> decide)
    · exact readDecimal_chars h
  · next cs hs =>
    rw [hs]
    obtain ⟨n, hn, -⟩ := Option.map_eq_some_iff.1 h
    exact List.forall_mem_cons.2 ⟨by decide, readDecimal_chars hn⟩
  · next cs hs =>
    rw [hs]
    exact List.forall_mem_cons.2 ⟨by decide, readDecimal_chars h⟩
  · exact readDecimal_chars h

/-! ## Payloads -/

/-- White space, and then a bracket. -/
def Opens (cs : List Char) : Prop :=
  ∃ white bracket rest, cs = white ++ bracket :: rest ∧ (∀ c ∈ white, c ≠ '.') ∧
    isNumberChar bracket = false ∧ bracket ≠ '.'

theorem opens_of_strictJson {text : String} (h : strictJson text) : Opens text.toList := by
  have hbehind : ∀ cs : List Char, (cs.find? fun c => !isJsonSpace c).any (fun c => c == '\x7b' || c == '[') →
      Opens cs := by
    intro cs hcs
    obtain ⟨c, hc, hbracket⟩ := (Option.any_eq_true _ _).1 hcs
    obtain ⟨-, white, rest, rfl, hwhite⟩ := List.find?_eq_some_iff_append.1 hc
    refine ⟨white, c, rest, rfl, fun x hx => ?_, ?_⟩
    · rintro rfl
      exact absurd (hwhite '.' hx) (by decide)
    · rcases (by simpa using hbracket : c = '\x7b' ∨ c = '[') with rfl | rfl <;> exact ⟨by decide, by decide⟩
  unfold strictJson at h
  revert h
  unfold withoutMark
  split
  · next cs heq =>
    intro h
    obtain ⟨white, c, rest, hcs, hwhite, hc⟩ := hbehind cs h
    refine ⟨'\ufeff' :: white, c, rest, by rw [heq, hcs]; rfl, List.forall_mem_cons.2 ⟨by decide, hwhite⟩, hc⟩
  · exact hbehind _

theorem opens_stringify (fields : List (String × Json)) : Opens (Json.stringify (.obj fields)) := by
  obtain ⟨rest, hrest⟩ : ∃ rest, Json.stringify (.obj fields) = '\x7b' :: rest := by
    cases fields with
    | nil => exact ⟨_, by rw [Json.stringify]⟩
    | cons f fs => exact ⟨_, by rw [Json.stringify]⟩
  exact ⟨[], '\x7b', rest, hrest, (fun c hc => by cases hc), by decide, by decide⟩

/-- Whichever parser has read the body. -/
theorem ParsedBody.Accepted.opens {b : ParsedBody} (h : b.Accepted) : Opens b.rawPayload.toList := by
  have hfields : b.rawBody = none → Opens (Json.stringify (b.body.getD (.obj []))) := by
    intro hraw
    cases hbody : b.body with
    | none => exact opens_stringify []
    | some value =>
      obtain ⟨fields, rfl⟩ := h.object value hraw hbody
      exact opens_stringify fields
  cases hraw : b.rawBody with
  | none =>
    rw [ParsedBody.rawPayload, hraw, orElseText, Option.filter_none, Option.getD_none, String.toList_ofList]
    exact hfields hraw
  | some text =>
    have hopens := opens_of_strictJson (h.strict text hraw)
    have hne : text ≠ "" := by
      rintro rfl
      obtain ⟨white, c, rest, hcs, -⟩ := hopens
      simp at hcs
    rw [ParsedBody.rawPayload, hraw, orElseText_some hne]
    exact hopens

/-! ## Decoding -/

/-- A dot is not the first character of what opens, and what is in front of it is no number. -/
theorem Opens.no_dot {cs x rest : List Char} (h : Opens cs) (hx : ∀ c ∈ x, isNumberChar c) :
    cs ≠ x ++ '.' :: rest := by
  obtain ⟨white, bracket, tail, rfl, hwhite, hbracket, hdot⟩ := h
  intro heq
  obtain ⟨y, hy, hrest⟩ | ⟨y, hy, hrest⟩ := List.append_eq_append_iff.1 heq
  · cases y with
    | nil =>
      obtain ⟨hsame, -⟩ := List.cons.inj (by simpa using hrest)
      exact hdot hsame
    | cons c y =>
      obtain ⟨rfl, -⟩ := List.cons.inj hrest
      have hmem := hx bracket (by rw [hy]; simp)
      rw [hbracket] at hmem
      cases hmem
  · cases y with
    | nil =>
      obtain ⟨hsame, -⟩ := List.cons.inj (by simpa using hrest)
      exact hdot hsame.symm
    | cons c y =>
      obtain ⟨rfl, -⟩ := List.cons.inj hrest
      exact hwhite '.' (by rw [hy]; simp) rfl

theorem signedText_inj {t t' p p' : String} (ht : ∀ c ∈ t.toList, isNumberChar c)
    (ht' : ∀ c ∈ t'.toList, isNumberChar c) (hp : Opens p.toList) (hp' : Opens p'.toList)
    (h : signedText t p = signedText t' p') : t = t' ∧ p = p' := by
  have hchars : t.toList ++ '.' :: p.toList = t'.toList ++ '.' :: p'.toList := by
    have := congrArg String.toList h
    simpa [signedText] using this
  obtain ⟨x, htext, hrest⟩ | ⟨x, htext, hrest⟩ := List.append_eq_append_iff.1 hchars
  · cases x with
    | nil => exact ⟨String.toList_inj.1 (by simpa using htext.symm), String.toList_inj.1 (by simpa using hrest)⟩
    | cons c x =>
      obtain ⟨rfl, hcut⟩ := List.cons.inj hrest
      exact absurd hcut (hp.no_dot fun c hc => ht' c (by rw [htext]; simp [hc]))
  · cases x with
    | nil =>
      exact ⟨String.toList_inj.1 (by simpa using htext), String.toList_inj.1 (by simpa using hrest.symm)⟩
    | cons c x =>
      obtain ⟨rfl, hcut⟩ := List.cons.inj hrest
      exact absurd hcut (hp'.no_dot fun c hc => ht c (by rw [htext]; simp [hc]))

/-- The signed text of a delivery tells its timestamp and its payload. So do its signature and its
digest, where no two texts have the same. -/
theorem signed_content_unique {d d' : Delivery} {t t' : String} {b b' : ParsedBody}
    (ht : d.timestamp = some t) (ht' : d'.timestamp = some t') (hfinite : (jsNumber t).isSome)
    (hfinite' : (jsNumber t').isSome) (hb : b.Accepted) (hb' : b'.Accepted)
    (hp : d.rawPayload = b.rawPayload) (hp' : d'.rawPayload = b'.rawPayload) :
    (signedText t d.rawPayload = signedText t' d'.rawPayload → t = t' ∧ d.rawPayload = d'.rawPayload) ∧
    ∀ cfg : WebhookConfig,
      (Function.Injective (cfg.hmac cfg.WEBHOOK_SECRET) →
        signPayload cfg d.rawPayload t = signPayload cfg d'.rawPayload t' →
          t = t' ∧ d.rawPayload = d'.rawPayload) ∧
      (Function.Injective cfg.sha256 → d.signedDigest cfg = d'.signedDigest cfg →
        t = t' ∧ d.rawPayload = d'.rawPayload) := by
  obtain ⟨q, hq⟩ := Option.isSome_iff_exists.1 hfinite
  obtain ⟨q', hq'⟩ := Option.isSome_iff_exists.1 hfinite'
  have hinj := signedText_inj (jsNumber_chars hq) (jsNumber_chars hq') (hp ▸ hb.opens) (hp' ▸ hb'.opens)
  refine ⟨hinj, fun cfg => ⟨fun hmac h => hinj (hmac h), fun hsha h => hinj (hsha ?_)⟩⟩
  simpa [Delivery.signedDigest, ht, ht'] using h

/-- A delivery with a JSON body. -/
def jsonDelivery : Delivery := ⟨some "aa", some "1700000000.5", none, some "e", " [\"a.b\"]"⟩

/-- A delivery whose body came as an empty form. -/
def formDelivery : Delivery := ⟨some "aa", some "1700000000", none, some "e", "\x7b\x7d"⟩

theorem signed_content_unique_jsonForm :
    (signedText "1700000000.5" jsonDelivery.rawPayload = signedText "1700000000" formDelivery.rawPayload →
      "1700000000.5" = "1700000000" ∧ jsonDelivery.rawPayload = formDelivery.rawPayload) ∧
    ∀ cfg : WebhookConfig, Function.Injective cfg.sha256 →
      jsonDelivery.signedDigest cfg ≠ formDelivery.signedDigest cfg := by
  have hjson : (⟨some " [\"a.b\"]", none⟩ : ParsedBody).Accepted := by
    refine ⟨fun text htext => ?_, fun value hraw => by cases hraw⟩
    obtain rfl := Option.some_inj.1 htext
    decide +kernel
  have hform : (⟨none, some (.obj [])⟩ : ParsedBody).Accepted := by
    refine ⟨(fun text htext => by cases htext), fun value _ hvalue => ⟨[], ?_⟩⟩
    exact (Option.some_inj.1 hvalue).symm
  have hdecoded := signed_content_unique (d := jsonDelivery) rfl (rfl : formDelivery.timestamp = _)
    (by decide +kernel) (by decide +kernel) hjson hform (by decide +kernel) (by decide +kernel)
  exact ⟨hdecoded.1, fun cfg hsha h => absurd ((hdecoded.2 cfg).2 hsha h).1 (by decide)⟩

end Ecommerce
