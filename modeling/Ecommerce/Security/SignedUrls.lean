import Mathlib.Data.List.TakeWhile
import Ecommerce.Text.Joined
import Ecommerce.Model.SignedUrls

/-!
# What a signed URL binds

The four parts of a URL are joined with dots before they are signed, and each of them may hold dots.
A validation therefore accepts an issued signature for every split of the signed text, and for an
expiry that is not a number. It binds the tuple exactly where the parts hold as many dots as the
issued ones do.
-/

namespace Ecommerce

open Text

/-! ## Hex digits and numbers -/

theorem bufferFromHex_hexOfBytes (bs : List UInt8) : bufferFromHex (hexOfBytes bs) = bs.map UInt8.toNat := by
  induction bs with
  | nil => simp [hexOfBytes]
  | cons b bs ih =>
    have hhigh : b.toNat / 16 < 16 := by have := b.toNat_lt; omega
    have hlow : b.toNat % 16 < 16 := Nat.mod_lt _ (by decide)
    rw [hexOfBytes, bufferFromHex_cons_cons _ (digitValue_digitChar _ hhigh) (digitValue_digitChar _ hlow),
      ih, Nat.div_add_mod, List.map_cons]

theorem bytes_inj {bs cs : List UInt8} (h : bs.map UInt8.toNat = cs.map UInt8.toNat) : bs = cs :=
  List.map_injective_iff.2 (fun _ _ h => UInt8.toNat_inj.1 h) h

/-- The decimal digits are the ten characters after `/`. -/
theorem exists_of_isDigit {c : Char} (h : c.isDigit) : ∃ n < 10, c = Char.ofNat (48 + n) := by
  obtain ⟨hlow, hhigh⟩ : 48 ≤ c.toNat ∧ c.toNat ≤ 57 := by
    simpa [Char.isDigit, Char.le_def, UInt32.le_iff_toNat_le] using h
  exact ⟨c.toNat - 48, by omega, by rw [Nat.add_sub_cancel' hlow, Char.ofNat_toNat]⟩

theorem digitValue_digit : ∀ n < 10, digitValue (Char.ofNat (48 + n)) = some n := by decide

theorem isJsSpace_digit : ∀ n < 10, isJsSpace (Char.ofNat (48 + n)) = false := by decide

/-- A run of decimal digits is read in base ten. -/
theorem readDigits_isSome {cs : List Char} (h : ∀ c ∈ cs, c.isDigit) (acc : Nat) :
    (readDigits 10 acc cs).isSome := by
  induction cs generalizing acc with
  | nil => rfl
  | cons c cs ih =>
    obtain ⟨n, hn, rfl⟩ := exists_of_isDigit (h c List.mem_cons_self)
    simp only [readDigits, digitValue_digit n hn, if_pos hn]
    exact ih (fun x hx => h x (List.mem_cons_of_mem _ hx)) _

theorem readDecimal_isSome {cs : List Char} (h : ∀ c ∈ cs, c.isDigit) (hne : cs ≠ []) :
    (readDecimal cs).isSome := by
  obtain ⟨n, hn⟩ := Option.isSome_iff_exists.1 (readDigits_isSome h 0)
  simp [readDecimal, List.takeWhile_eq_self_iff.2 h, List.dropWhile_eq_nil_iff.2 h, hne, hn, readExponent]

theorem jsTrim_toList {s : String} (h : ∀ c ∈ s.toList, isJsSpace c = false) : jsTrim s = s := by
  have hl : s.toList.dropWhile isJsSpace = s.toList := by
    cases hs : s.toList with
    | nil => rfl
    | cons c cs => rw [List.dropWhile_cons_of_neg (by simp [h c (by simp [hs])])]
  have hr : s.toList.reverse.dropWhile isJsSpace = s.toList.reverse := by
    cases hs : s.toList.reverse with
    | nil => rfl
    | cons c cs =>
      have hc : c ∈ s.toList := List.mem_reverse.1 (by simp [hs])
      rw [List.dropWhile_cons_of_neg (by simp [h c hc])]
  unfold jsTrim
  rw [hl, hr, List.reverse_reverse, String.ofList_toList]

/-- Decimal digits are a number, with or without a minus sign. -/
theorem jsNumber_isSome {s : String} {cs : List Char} (hcs : ∀ c ∈ cs, c.isDigit) (hne : cs ≠ [])
    (hs : s.toList = cs ∨ s.toList = '-' :: cs) : (jsNumber s).isSome := by
  have hdigit : ∀ c ∈ cs, isJsSpace c = false := fun c hc => by
    obtain ⟨n, hn, rfl⟩ := exists_of_isDigit (hcs c hc)
    exact isJsSpace_digit n hn
  have htrim : jsTrim s = s := jsTrim_toList fun c hc => by
    obtain h | h := hs
    · exact hdigit c (h ▸ hc)
    · obtain rfl | hc := List.mem_cons.1 (h ▸ hc)
      · decide
      · exact hdigit c hc
  have hdecimal := readDecimal_isSome hcs hne
  unfold jsNumber
  rw [htrim]
  obtain h | h := hs
  · rw [h]
    split
    · rfl
    · rename_i x d ds
      have hx : x.isDigit := hcs x (by simp)
      rw [if_neg (by rintro (rfl | rfl) <;> simp at hx), if_neg (by rintro (rfl | rfl) <;> simp at hx),
        if_neg (by rintro (rfl | rfl) <;> simp at hx)]
      exact hdecimal
    · exact absurd (hcs '-' (by simp)) (by decide)
    · exact absurd (hcs '+' (by simp)) (by decide)
    · exact hdecimal
  · rw [h]
    simpa using hdecimal

theorem toList_toString_int (z : ℤ) :
    (toString z).toList = Nat.toDigits 10 z.toNat ∨ (toString z).toList = '-' :: Nat.toDigits 10 (-z).toNat := by
  rw [Int.toString_eq_repr, Int.repr_eq_if]
  split
  · exact .inl Nat.toList_repr
  · exact .inr (by simp [Nat.toList_repr])

theorem isDigit_toDigits {n : Nat} : ∀ c ∈ Nat.toDigits 10 n, c.isDigit :=
  fun _ hc => Nat.isDigit_of_mem_toDigits (by decide) le_rfl hc

theorem jsNumber_toString (z : ℤ) : (jsNumber (toString z)).isSome := by
  obtain h | h := toList_toString_int z
  · exact jsNumber_isSome isDigit_toDigits Nat.toDigits_ne_nil (.inl h)
  · exact jsNumber_isSome isDigit_toDigits Nat.toDigits_ne_nil (.inr h)

/-! ## Issued URLs and queries -/

variable {cfg : SignedUrlConfig} {now : Time} {u : SignedUrl} {q : SignedUrlQuery}

def SignedUrl.payload (u : SignedUrl) : String :=
  signedUrlPayload u.path u.tenant u.subject (toString u.expires)

/-- The endpoint issued the URL at some time, to some request. -/
def SignedUrl.Issued (cfg : SignedUrlConfig) (u : SignedUrl) : Prop :=
  ∃ now req, signedUrl cfg now req = .ok u

/-- The bytes of the signature that a query carries. -/
def SignedUrlQuery.bytes (q : SignedUrlQuery) : List Nat := bufferFromHex (orElseText q.signature "").toList

/-- The query carries the signature of the URL. -/
def SignedUrlQuery.Carries (q : SignedUrlQuery) (u : SignedUrl) : Prop :=
  q.bytes = bufferFromHex u.signature.toList

/-- The query asks for the path, the tenant, the subject and the expiry of the URL. -/
structure SignedUrlQuery.Names (q : SignedUrlQuery) (u : SignedUrl) : Prop where
  path : q.path = some u.path
  tenant : q.tenant = some u.tenant
  subject : orElseText q.subject "" = u.subject
  expires : q.expires = some (toString u.expires)

/-- The query's expiry is a number that is not before a given time. -/
def SignedUrlQuery.InTime (now : Time) (q : SignedUrlQuery) : Prop :=
  ∃ e n, q.expires = some e ∧ jsNumber e = some n ∧ ((now / 1000 : ℤ) : ℚ) ≤ n

/-- The query carries an expiry that does not compare below the time. -/
def SignedUrlQuery.Unexpired (now : Time) (q : SignedUrlQuery) : Prop :=
  ∃ e, q.expires = some e ∧ e ≠ "" ∧ numberBelow e (now / 1000) = false

/-- The path, the tenant and the subject of a query hold as many dots as those of the URL. -/
def SignedUrlQuery.SameDots (q : SignedUrlQuery) (u : SignedUrl) : Prop :=
  (templateText q.path).toList.count '.' = u.path.toList.count '.' ∧
    (templateText q.tenant).toList.count '.' = u.tenant.toList.count '.' ∧
    (orElseText q.subject "").toList.count '.' = u.subject.toList.count '.'

theorem signedUrlPayload_toList (path tenant subject expires : String) :
    (signedUrlPayload path tenant subject expires).toList =
      joined '.' [path.toList, tenant.toList, subject.toList] expires.toList := by
  simp [signedUrlPayload]

/-- Whoever issued it, the signature of a URL is the one of its own payload, and its path starts
with a slash. -/
theorem SignedUrl.Issued.spec (h : u.Issued cfg) :
    u.signature = urlSignature cfg u.payload ∧ isUploadPath u.path := by
  obtain ⟨now, req, h⟩ := h
  unfold signedUrl at h
  extract_lets path at h
  split_ifs at h with hpath
  have hup : isUploadPath path := (by simpa using hpath : _ ∧ _).1
  split at h
  · split_ifs at h
    cases h
    exact ⟨rfl, hup⟩
  · cases h
    exact ⟨rfl, hup⟩

theorem isUploadPath_ne_undefined {path : String} (h : isUploadPath path) : path ≠ "undefined" := by
  rintro rfl
  exact absurd h (by decide)

theorem bytes_urlSignature (cfg : SignedUrlConfig) (text : String) :
    bufferFromHex (urlSignature cfg text).toList =
      (cfg.hmac cfg.SIGNED_URL_SECRET text).map UInt8.toNat := by
  rw [urlSignature, String.toList_ofList, bufferFromHex_hexOfBytes]

theorem verifySignedUrl_iff :
    verifySignedUrl cfg now q = true ↔
      q.Unexpired now ∧ q.bytes = (cfg.hmac cfg.SIGNED_URL_SECRET q.payload).map UInt8.toNat := by
  rw [← bytes_urlSignature]
  unfold verifySignedUrl SignedUrlQuery.Unexpired SignedUrlQuery.bytes
  cases q.expires with
  | none => simp
  | some e =>
    by_cases he : e = "" <;> simp [he, Option.filter]

/-- With as many dots in its parts, a query whose text was signed asks for the very tuple. -/
theorem names_of_sameDots (hissued : u.Issued cfg) (htext : u.payload = q.payload) (hdots : q.SameDots u)
    (htenant : q.tenant ≠ none) (hexpires : q.expires ≠ none) : q.Names u := by
  obtain ⟨tenant, htenant⟩ := Option.ne_none_iff_exists'.1 htenant
  obtain ⟨expires, hexpires⟩ := Option.ne_none_iff_exists'.1 hexpires
  have htext := congrArg String.toList htext
  rw [SignedUrl.payload, SignedUrlQuery.payload, signedUrlPayload_toList, signedUrlPayload_toList] at htext
  obtain ⟨hpath, ht, hs⟩ := hdots
  obtain ⟨hfields, he⟩ := joined_inj htext (by simp [hpath, ht, hs])
  simp only [List.cons.injEq, String.toList_inj, and_true, htenant, hexpires, templateText,
    Option.getD_some] at hfields he
  refine ⟨?_, by rw [htenant, hfields.2.1], hfields.2.2.symm, by rw [hexpires, he]⟩
  obtain hnone | ⟨path, hsome⟩ := Option.eq_none_or_eq_some q.path
  · exact absurd (by simpa [hnone] using hfields.1) (isUploadPath_ne_undefined hissued.spec.2)
  · rw [hsome] at hfields ⊢
    exact congrArg some hfields.1.symm

theorem sameDots_of_names (h : q.Names u) : q.SameDots u := by
  simp [SignedUrlQuery.SameDots, templateText, h.path, h.tenant, h.subject]

/-- An expiry that was issued and does not compare below the time is a number not before it. -/
theorem inTime_of_names (h : q.Names u) (hun : q.Unexpired now) : q.InTime now := by
  obtain ⟨e, he, -, hbelow⟩ := hun
  obtain rfl : e = toString u.expires := Option.some.inj (he.symm.trans h.expires)
  obtain ⟨n, hn⟩ := Option.isSome_iff_exists.1 (jsNumber_toString u.expires)
  rw [numberBelow, hn] at hbelow
  exact ⟨_, n, he, hn, not_lt.1 (of_decide_eq_false hbelow)⟩

/-! ## What a validation says -/

/-- A validation says yes only to the tuple that was issued, within its time, exactly if some issued
URL with the query's signature and its joined text splits the text at the same dots. -/
theorem signed_urls_bind {issued : Set SignedUrl} (hissued : ∀ u ∈ issued, u.Issued cfg)
    (hunforgeable : ∀ text, q.bytes = (cfg.hmac cfg.SIGNED_URL_SECRET text).map UInt8.toNat →
      ∃ u ∈ issued, q.Carries u)
    (hinjective : ∀ u ∈ issued, cfg.hmac cfg.SIGNED_URL_SECRET u.payload =
      cfg.hmac cfg.SIGNED_URL_SECRET q.payload → u.payload = q.payload) :
    (validateSignedUrl cfg now q = true → (∃ u ∈ issued, q.Carries u ∧ q.Names u) ∧ q.InTime now) ↔
      (q.Unexpired now → (∃ u ∈ issued, q.Carries u ∧ u.payload = q.payload) →
        q.tenant ≠ none ∧ ∃ u ∈ issued, q.Carries u ∧ u.payload = q.payload ∧ q.SameDots u) := by
  rw [validateSignedUrl, verifySignedUrl_iff]
  constructor
  · rintro hbinds hun ⟨u, hu, hcarries, htext⟩
    have hbytes : q.bytes = (cfg.hmac cfg.SIGNED_URL_SECRET q.payload).map UInt8.toNat := by
      rw [hcarries, (hissued u hu).spec.1, htext, bytes_urlSignature]
    obtain ⟨⟨v, hv, hvc, hnames⟩, -⟩ := hbinds ⟨hun, hbytes⟩
    refine ⟨by simp [hnames.tenant], v, hv, hvc, ?_, sameDots_of_names hnames⟩
    simp [SignedUrl.payload, SignedUrlQuery.payload, templateText, hnames.path, hnames.tenant,
      hnames.subject, hnames.expires]
  · rintro hsplit ⟨hun, hbytes⟩
    obtain ⟨u, hu, hcarries⟩ := hunforgeable _ hbytes
    -- The issued signature is the query's, so both are the signature of one text.
    have hmac : cfg.hmac cfg.SIGNED_URL_SECRET u.payload = cfg.hmac cfg.SIGNED_URL_SECRET q.payload := by
      apply bytes_inj
      rw [← bytes_urlSignature, ← (hissued u hu).spec.1, ← hcarries, hbytes]
    obtain ⟨htenant, v, hv, hvc, htext, hdots⟩ := hsplit hun ⟨u, hu, hcarries, hinjective u hu hmac⟩
    have hexpires : q.expires ≠ none := by
      obtain ⟨e, he, -⟩ := hun
      simp [he]
    have hnames := names_of_sameDots (hissued v hv) htext hdots htenant hexpires
    exact ⟨⟨v, hv, hvc, hnames⟩, inTime_of_names hnames hun⟩

/-- A configuration whose HMAC is the real one on the text of `fileUrl`. -/
def exampleConfig : SignedUrlConfig where
  SIGNED_URL_SECRET := "Uy4mX0rTq8ZsKe2vLw9aHc6nBd1pGf3j"
  SIGNED_URL_TTL_SECONDS := 300
  DEFAULT_TENANT := "default"
  hmac _ _ :=
    [215, 228, 21, 27, 124, 25, 12, 240, 92, 153, 87, 197, 194, 187, 255, 65, 99, 106, 249, 66, 60, 166,
      223, 251, 3, 177, 50, 115, 185, 128, 204, 136]

/-- A customer asks for a signature on a file of its own. -/
def fileRequest : SignRequest :=
  ⟨"64b7f0a1c2d3e4f5a6b7c8d9", .user, some "default", none, some "/uploads/file.jpg", none⟩

def fileUrl (cfg : SignedUrlConfig) : SignedUrl :=
  createSignedUrl cfg 1700000000000 "/uploads/file.jpg" "default" (some "64b7f0a1c2d3e4f5a6b7c8d9")

theorem fileUrl_issued : (fileUrl exampleConfig).Issued exampleConfig :=
  ⟨1700000000000, fileRequest, by decide +kernel⟩

/-- The query that the issued URL carries. -/
def fileQuery : SignedUrlQuery :=
  ⟨some "/uploads/file.jpg", some "default", some "64b7f0a1c2d3e4f5a6b7c8d9", some "1700000300",
    some "d7e4151b7c190cf05c9957c5c2bbff41636af9423ca6dffb03b13273b980cc88"⟩

theorem signed_urls_bind_file :
    (validateSignedUrl exampleConfig 1700000100000 fileQuery = true →
        (∃ u ∈ ({fileUrl exampleConfig} : Set SignedUrl), fileQuery.Carries u ∧ fileQuery.Names u) ∧
          fileQuery.InTime 1700000100000) ↔
      (fileQuery.Unexpired 1700000100000 →
        (∃ u ∈ ({fileUrl exampleConfig} : Set SignedUrl), fileQuery.Carries u ∧ u.payload = fileQuery.payload) →
          fileQuery.tenant ≠ none ∧
            ∃ u ∈ ({fileUrl exampleConfig} : Set SignedUrl),
              fileQuery.Carries u ∧ u.payload = fileQuery.payload ∧ fileQuery.SameDots u) := by
  have hcarries : fileQuery.bytes = bufferFromHex (fileUrl exampleConfig).signature.toList := by decide +kernel
  have htext : (fileUrl exampleConfig).payload = fileQuery.payload := by decide +kernel
  refine signed_urls_bind ?_ ?_ ?_
  · rintro u rfl
    exact fileUrl_issued
  · intro text _
    exact ⟨_, rfl, hcarries⟩
  · rintro u rfl _
    exact htext

/-- The same signed text, split one dot earlier. The expiry is no number, so it never passes. -/
def splitQuery (signature : String) : SignedUrlQuery :=
  ⟨some "/uploads/file", some "jpg", some "default", some "64b7f0a1c2d3e4f5a6b7c8d9.1700000300",
    some signature⟩

/-- A configuration whose HMAC has no collisions. -/
def injectiveConfig : SignedUrlConfig :=
  { exampleConfig with hmac := fun _ text => text.toByteArray.data.toList }

theorem signed_urls_bind_counterexample :
    ∃ (cfg : SignedUrlConfig) (u : SignedUrl) (q : SignedUrlQuery) (now : Time),
      Function.Injective (cfg.hmac cfg.SIGNED_URL_SECRET) ∧ u.Issued cfg ∧ q.Carries u ∧
        validateSignedUrl cfg now q = true ∧ ¬ q.Names u ∧ ¬ q.InTime now := by
  have hcarries : (splitQuery (fileUrl injectiveConfig).signature).bytes =
      bufferFromHex (fileUrl injectiveConfig).signature.toList := by decide +kernel
  refine ⟨injectiveConfig, fileUrl injectiveConfig, splitQuery (fileUrl injectiveConfig).signature,
    4102444800000, ?_, ⟨1700000000000, fileRequest, by decide +kernel⟩, hcarries, by decide +kernel, ?_, ?_⟩
  · intro a b h
    exact String.toByteArray_inj.1 (ByteArray.ext (Array.toList_inj.1 h))
  · intro h
    exact absurd h.path (by decide +kernel)
  · rintro ⟨e, n, he, hn, -⟩
    cases he
    exact absurd hn (by rw [show jsNumber _ = none by decide +kernel]; exact nofun)

end Ecommerce
