import Ecommerce.Model.Urls
import Ecommerce.Security.PrivateAddresses
import Mathlib

/-!
# The URL guard and the spelling of a host

The host parser lower-cases a name and keeps a dot at its end, except behind an IPv4 address. The patterns
of `BLOCKED_HOSTNAMES` are anchored at the end of the name, so that none of them matches with the dot.
-/

namespace Ecommerce

/-- What the URL standard says of the functions that are not written out. -/
structure UrlStandard.Documented (std : UrlStandard) : Prop where
  lowerCases : ∀ host, std.domainToASCII (host.map std.lowerLetter) = std.domainToASCII host
  lowerCasesBrackets : ∀ host, std.bracketHost (host.map std.lowerLetter) = std.bracketHost host
  keepsBracket : ∀ c, std.lowerLetter c = '[' ↔ c = '['
  keepsDot : ∀ host domain, std.domainToASCII host = some domain → domain.getLast? ≠ some '.' →
    std.domainToASCII (host ++ ['.']) = some (domain ++ ['.'])

variable {std : UrlStandard} {u : UrlText} {host other domain : List Char}

/-- The hosts differ in letter case at most. -/
def SameLetters (std : UrlStandard) (host other : List Char) : Prop :=
  host.map std.lowerLetter = other.map std.lowerLetter

/-- The host is a name with the given domain. -/
def NamesDomain (std : UrlStandard) (host domain : List Char) : Prop :=
  host.head? ≠ some '[' ∧ std.domainToASCII host = some domain

def RootDotted (std : UrlStandard) (host : List Char) : Prop :=
  ∃ domain, NamesDomain std host domain ∧ domain.getLast? = some '.'

/-- The host is a name without a dot at its end. -/
def Undotted (std : UrlStandard) (host : List Char) : Prop :=
  ∃ domain, NamesDomain std host domain ∧ domain.getLast? ≠ some '.'

/-- The hosts differ in letter case, or in a dot at the end of a name, or in both. -/
inductive SameHost (std : UrlStandard) : List Char → List Char → Prop where
  | letters {host other : List Char} (h : SameLetters std host other) : SameHost std host other
  | dotAdded {host other : List Char} (hname : Undotted std host) (h : SameLetters std (host ++ ['.']) other) :
    SameHost std host other
  | dotRemoved {host other : List Char} (hname : Undotted std other)
    (h : SameLetters std (other ++ ['.']) host) : SameHost std host other

/-- A name is `localhost` or lies under `localhost`, `internal` or `local`. -/
def InternalName (name : List Char) : Prop :=
  name.map Char.toLower = "localhost".toList ∨
    ∃ root ∈ [".localhost", ".internal", ".local"], root.toList <:+ name.map Char.toLower

/-- The host denotes such a name, with or without the dot of the root. -/
def DenotesInternal (std : UrlStandard) (host : List Char) : Prop :=
  ∃ domain, NamesDomain std host domain ∧ (InternalName domain ∨ ∃ name, domain = name ++ ['.'] ∧ InternalName name)

def Accepts (std : UrlStandard) (u : UrlText) : Prop := assertSafeExternalUrl std (.url u) = .ok ()

/-- Two URLs that differ in the spelling of the host are judged alike, and neither is accepted if the host
is internal. -/
def JudgesHost (std : UrlStandard) (u : UrlText) (other : List Char) : Prop :=
  (Accepts std u ↔ Accepts std { u with host := other }) ∧
    (DenotesInternal std u.host → ¬ Accepts std u) ∧
    (DenotesInternal std other → ¬ Accepts std { u with host := other })

/-- The URL is an `https` URL without credentials. -/
def PlainHttps (u : UrlText) : Prop :=
  u.scheme.map Char.toLower = "https".toList ∧ validPort u.port = true ∧ u.username = [] ∧ u.password = []

/-! ## Judging a URL by its host -/

def hostRefused (hostname : List Char) : Bool :=
  isPrivateAddress (withoutBrackets hostname) || BLOCKED_HOSTNAMES.any (·.test (withoutBrackets hostname))

def HostAccepted (std : UrlStandard) (host : List Char) : Prop :=
  ∃ hostname, parseHost std host = some hostname ∧ hostRefused hostname = false

theorem newURL_eq_some {parsed : ParsedUrl} (h : newURL std u = some parsed) :
    validPort u.port = true ∧ parsed.protocol = u.scheme.map Char.toLower ++ [':'] ∧
      parsed.username = u.username ∧ parsed.password = u.password ∧
      (u.scheme.map Char.toLower = "https".toList → parseHost std u.host = some parsed.hostname) := by
  simp only [newURL] at h
  split_ifs at h with hport hscheme
  · obtain ⟨hostname, hhost, rfl⟩ := Option.map_eq_some_iff.1 h
    exact ⟨hport, rfl, rfl, rfl, fun _ => hhost⟩
  · obtain ⟨hostname, hhost, rfl⟩ := Option.map_eq_some_iff.1 h
    exact ⟨hport, rfl, rfl, rfl, fun h => absurd h hscheme⟩

theorem newURL_of_plainHttps {hostname : List Char} (h : PlainHttps u) (hhost : parseHost std u.host = some hostname) :
    newURL std u = some ⟨"https:".toList, [], [], hostname⟩ := by
  obtain ⟨hscheme, hport, husername, hpassword⟩ := h
  simp only [newURL, hscheme, hport, if_true, hhost, Option.map_some, husername, hpassword]
  rfl

theorem accepts_iff : Accepts std u ↔ PlainHttps u ∧ HostAccepted std u.host := by
  constructor
  · intro h
    rw [Accepts, assertSafeExternalUrl] at h
    cases hparsed : newURL std u with
    | none => rw [hparsed] at h; cases h
    | some parsed =>
      rw [hparsed] at h
      obtain ⟨hport, hprotocol, husername, hpassword, hhost⟩ := newURL_eq_some hparsed
      dsimp only at h
      split_ifs at h with hhttps hcredentials hrefused
      have hscheme : u.scheme.map Char.toLower = "https".toList := by
        rw [not_not.1 hhttps] at hprotocol
        exact (List.append_left_injective [':'] hprotocol).symm
      rw [husername, hpassword, not_or, not_not, not_not] at hcredentials
      exact ⟨⟨hscheme, hport, hcredentials.1, hcredentials.2⟩, parsed.hostname, hhost hscheme,
        Bool.eq_false_iff.2 hrefused⟩
  · rintro ⟨hplain, hostname, hhost, hrefused⟩
    rw [Accepts, assertSafeExternalUrl, newURL_of_plainHttps hplain hhost]
    dsimp only
    rw [if_neg (by simp), if_neg (by simp), if_neg]
    exact Bool.eq_false_iff.1 hrefused

/-! ## Domains -/

theorem isForbidden_not_mem (h : domain.any isForbiddenDomainChar = false) {c : Char}
    (hc : isForbiddenDomainChar c = true) : c ∉ domain := by
  intro hmem
  have hall := List.any_eq_false.1 h c hmem
  exact hall hc

theorem splitOn_append_dot (domain : List Char) : (domain ++ ['.']).splitOn '.' = domain.splitOn '.' ++ [[]] := by
  rw [List.splitOn_append_cons_self, List.splitOn_nil]

theorem getLast?_splitOn (h : domain.getLast? ≠ some '.') (hne : domain ≠ []) :
    (domain.splitOn '.').getLast? ≠ some [] := by
  induction domain with
  | nil => exact absurd rfl hne
  | cons c cs ih =>
    rcases eq_or_ne cs [] with rfl | hcs
    · have hc : c ≠ '.' := fun hc => h (by rw [hc]; rfl)
      rw [List.splitOn_eq_singleton (by simpa using Ne.symm hc)]
      simp
    · have hlast := ih (by rwa [List.getLast?_cons_of_ne_nil hcs] at h) hcs
      rw [List.splitOn_cons_eq_if_modifyHead]
      cases hparts : cs.splitOn '.' with
      | nil => exact absurd hparts (List.splitOn_ne_nil '.' cs)
      | cons part parts =>
        rw [hparts] at hlast
        split_ifs
        · simpa using hlast
        · cases parts with
          | nil => simp
          | cons next parts => simpa using hlast

theorem domainLabels_append_dot (h : domain.getLast? ≠ some '.') :
    domainLabels (domain ++ ['.']) = domainLabels domain := by
  have hnonempty : domain.splitOn '.' ≠ [] := List.splitOn_ne_nil '.' domain
  have hdotted : domainLabels (domain ++ ['.']) = domain.splitOn '.' := by
    simp only [domainLabels, splitOn_append_dot]
    rw [if_pos, List.dropLast_concat]
    exact ⟨List.getLast?_concat, by simpa using List.length_pos_iff.2 hnonempty⟩
  rw [hdotted, domainLabels]
  rcases eq_or_ne domain [] with rfl | hne
  · simp
  · rw [if_neg fun hlast => getLast?_splitOn h hne hlast.1]

/-- A dot behind a domain is kept, unless the domain is the number of an address. -/
theorem hostOfDomain_append_dot (h : domain.getLast? ≠ some '.') :
    hostOfDomain (domain ++ ['.']) =
      if endsInNumber domain then hostOfDomain domain
      else if domain.any isForbiddenDomainChar then none else some (domain ++ ['.']) := by
  have hforbidden : (domain ++ ['.']).any isForbiddenDomainChar = domain.any isForbiddenDomainChar := by
    rw [List.any_append, show [('.')].any isForbiddenDomainChar = false by decide, Bool.or_false]
  have hnumber : endsInNumber (domain ++ ['.']) = endsInNumber domain := by
    rw [endsInNumber, endsInNumber, domainLabels_append_dot h]
  have haddress : ipv4Parser (domain ++ ['.']) = ipv4Parser domain := by
    rw [ipv4Parser, ipv4Parser, domainLabels_append_dot h]
  rw [hostOfDomain, hostOfDomain, hforbidden, hnumber, haddress]
  split_ifs <;> rfl

/-! ## Names that are not addresses -/

theorem isIP_of_no_colon (hcolon : ':' ∉ domain) (hzone : '%' ∉ domain) (hfour : isIPv4 domain = false) :
    isPrivateAddress domain = false := by
  have hsix : ¬ isIP domain = 6 := by
    intro h
    obtain ⟨gs, hgs⟩ := (isIP_six_iff hzone).1 h
    exact hcolon hgs.colon_mem
  have hversion : ¬ isIP domain = 4 := by
    rw [isIP, List.splitOn_eq_singleton hzone, hfour, if_neg (by decide)]
    dsimp only
    split_ifs <;> decide
  rw [isPrivateAddress, if_neg hversion, if_neg hsix]

theorem isIPv4_append_dot (domain : List Char) : isIPv4 (domain ++ ['.']) = false := by
  rw [Bool.eq_false_iff]
  intro h
  rw [isIPv4, splitOn_append_dot, Bool.and_eq_true, List.all_append, Bool.and_eq_true] at h
  exact absurd h.2.2 (by decide)

theorem endsInNumber_of_isIPv4 (h : isIPv4 domain = true) : endsInNumber domain = true := by
  obtain ⟨a, rfl⟩ := eq_dottedV4_of_isIPv4 h
  have hlast : ((v4Bytes a).map (Nat.toDigits 10)).getLast? = some (Nat.toDigits 10 (a.toNat % 256)) := rfl
  have hlabels : domainLabels (dottedV4 a) = (v4Bytes a).map (Nat.toDigits 10) := by
    simp only [domainLabels, splitOn_dottedV4]
    rw [if_neg]
    rw [hlast]
    exact fun hnil => Nat.toDigits_ne_nil (Option.some.inj hnil.1)
  rw [endsInNumber, hlabels, hlast, Option.any_some, isDigits_toDigits, Bool.true_or]

/-- A name that no bracket surrounds. -/
theorem withoutBrackets_of_not_mem {hostname : List Char} (hopen : '[' ∉ hostname) (hclose : ']' ∉ hostname) :
    withoutBrackets hostname = hostname := by
  have hhead : hostname.head? ≠ some '[' := fun h => hopen (List.mem_of_head? h)
  have hlast : hostname.getLast? ≠ some ']' := fun h => hclose (List.mem_of_getLast? h)
  simp only [withoutBrackets, if_neg hhead, if_neg hlast]

/-- A domain is refused for its name only, unless it is the number of an address. -/
theorem hostRefused_domain (hforbidden : domain.any isForbiddenDomainChar = false)
    (hfour : isIPv4 domain = false) :
    hostRefused domain = BLOCKED_HOSTNAMES.any (·.test domain) := by
  have hnot {c : Char} (hc : isForbiddenDomainChar c = true) : c ∉ domain := isForbidden_not_mem hforbidden hc
  rw [hostRefused, withoutBrackets_of_not_mem (hnot (by decide)) (hnot (by decide)),
    isIP_of_no_colon (hnot (by decide)) (hnot (by decide)) hfour, Bool.false_or]

theorem blocked_iff : BLOCKED_HOSTNAMES.any (·.test domain) = true ↔ InternalName domain := by
  simp only [BLOCKED_HOSTNAMES, List.any_cons, List.any_nil, HostPattern.test, Bool.or_eq_true, beq_iff_eq,
    List.isSuffixOf_iff_suffix, Bool.or_false, InternalName, List.mem_cons, List.not_mem_nil, or_false,
    exists_eq_or_imp, exists_eq_left]
  constructor
  · rintro (h | h | h | h | h)
    · exact .inl h
    · exact .inr (.inl h)
    · exact .inr (.inr (.inl h))
    · exact .inr (.inr (.inr h))
    · exact .inr (.inr (.inl ⟨"metadata.google".toList, by rw [h]; decide⟩))
  · rintro (h | h | h | h)
    · exact .inl h
    · exact .inr (.inl h)
    · exact .inr (.inr (.inl h))
    · exact .inr (.inr (.inr (.inl h)))

/-- A name with the dot of the root matches no pattern. -/
theorem not_internalName_append_dot : ¬ InternalName (domain ++ ['.']) := by
  have hlast : ((domain ++ ['.']).map Char.toLower).getLast? = some '.' := by simp
  rintro (h | ⟨root, hroot, rest, h⟩)
  · rw [h] at hlast
    exact absurd hlast (by decide)
  · rw [← h] at hlast
    simp only [List.mem_cons, List.not_mem_nil, or_false] at hroot
    rcases hroot with rfl | rfl | rfl <;>
    · rw [List.getLast?_append_of_ne_nil _ (by decide)] at hlast
      exact absurd hlast (by decide)

theorem toNat_lt_of_toLower {c d : Char} (h : c.toLower = d) (hd : d.toNat < 128) : c.toNat < 128 := by
  by_cases hupper : c.isUpper
  · have hle : c.toNat ≤ 90 := (of_decide_eq_true hupper).2
    omega
  · rwa [← Char.toLower_eq_of_not_isUpper hupper, h]

theorem toLower_ascii {P : Char → Char → Prop} (hall : ∀ n < 128, P (Char.ofNat n) (Char.ofNat n).toLower) {c : Char}
    (hc : c.toLower.toNat < 128) : P c c.toLower := by
  have h := hall c.toNat (toNat_lt_of_toLower rfl hc)
  rwa [Char.ofNat_toNat] at h

theorem toLower_eq_dot {c : Char} : c.toLower = '.' ↔ c = '.' := by
  constructor
  · intro h
    exact toLower_ascii (P := fun c d => d = '.' → c = '.') (by decide +kernel) (by rw [h]; decide) h
  · rintro rfl
    decide

theorem splitOn_map_toLower (text : List Char) :
    (text.map Char.toLower).splitOn '.' = (text.splitOn '.').map (List.map Char.toLower) := by
  induction text with
  | nil => rfl
  | cons c cs ih =>
    rw [List.map_cons, List.splitOn_cons_eq_if_modifyHead, List.splitOn_cons_eq_if_modifyHead, ih]
    by_cases hc : c = '.'
    · rw [if_pos (by rw [hc]; decide), if_pos (by rw [hc]; decide)]
      rfl
    · rw [if_neg (by simpa [toLower_eq_dot] using hc), if_neg (by simpa using hc)]
      cases cs.splitOn '.' <;> rfl

/-- A label that begins with a letter behind the hex digits is no number. -/
theorem not_number_of_first {c : Char} {cs : List Char} (h : c.toLower = 'l' ∨ c.toLower = 'i') :
    isDigits (c :: cs) = false ∧ ipv4Number (c :: cs) = none := by
  have hlow : c.toLower.toNat < 128 := by rcases h with h | h <;> rw [h] <;> decide
  have hc : c.isDigit = false ∧ digitValue c = none ∧ c ≠ '0' :=
    toLower_ascii (P := fun c d => d = 'l' ∨ d = 'i' → c.isDigit = false ∧ digitValue c = none ∧ c ≠ '0')
      (by decide +kernel) hlow h
  obtain ⟨hdigit, hvalue, hzero⟩ := hc
  refine ⟨by simp [isDigits, hdigit], ?_⟩
  unfold ipv4Number
  split
  · rfl
  · next heq => cases heq; exact absurd rfl hzero
  · next heq => cases heq; exact absurd rfl hzero
  · next heq => cases heq; exact absurd rfl hzero
  · simp [readDigits, hvalue]

theorem getLast?_splitOn_append (rest : List Char) {last : List Char} (h : '.' ∉ last) :
    ((rest ++ '.' :: last).splitOn '.').getLast? = some last := by
  rw [List.splitOn_append_cons_self, List.splitOn_eq_singleton h, List.getLast?_concat]

/-- The last label of an internal name, in lower case. -/
theorem InternalName.last (h : InternalName domain) :
    ∃ label ∈ ["localhost".toList, "internal".toList, "local".toList],
      ((domain.splitOn '.').map (List.map Char.toLower)).getLast? = some label := by
  rw [← splitOn_map_toLower]
  rcases h with h | ⟨root, hroot, rest, h⟩
  · rw [h]
    exact ⟨_, List.mem_cons_self, by decide⟩
  · rw [← h]
    simp only [List.mem_cons, List.not_mem_nil, or_false] at hroot
    rcases hroot with rfl | rfl | rfl
    · refine ⟨"localhost".toList, by decide, ?_⟩
      exact getLast?_splitOn_append rest (show '.' ∉ "localhost".toList by decide)
    · refine ⟨"internal".toList, by decide, ?_⟩
      exact getLast?_splitOn_append rest (show '.' ∉ "internal".toList by decide)
    · refine ⟨"local".toList, by decide, ?_⟩
      exact getLast?_splitOn_append rest (show '.' ∉ "local".toList by decide)

/-- An internal name is no number. -/
theorem InternalName.not_endsInNumber (h : InternalName domain) : endsInNumber domain = false := by
  obtain ⟨label, hlabel, hlast⟩ := h.last
  rw [List.getLast?_map] at hlast
  obtain ⟨part, hpart, rfl⟩ := Option.map_eq_some_iff.1 hlast
  have hfirst : ∃ c cs, part = c :: cs ∧ (c.toLower = 'l' ∨ c.toLower = 'i') := by
    cases part with
    | nil => exact absurd hlabel (by decide)
    | cons c cs =>
      refine ⟨c, cs, rfl, ?_⟩
      simp only [List.mem_cons, List.not_mem_nil, or_false] at hlabel
      rcases hlabel with h | h | h
      · exact .inl (List.cons.inj h).1
      · exact .inr (List.cons.inj h).1
      · exact .inl (List.cons.inj h).1
  obtain ⟨c, cs, rfl, hc⟩ := hfirst
  have hlabels : domainLabels domain = domain.splitOn '.' := by
    simp only [domainLabels, hpart]
    rw [if_neg]
    exact fun hnil => by cases hnil.1
  obtain ⟨hdigits, hnumber⟩ := not_number_of_first hc
  rw [endsInNumber, hlabels, hpart, Option.any_some, hdigits, hnumber]
  rfl

theorem InternalName.getLast? (h : InternalName domain) : domain.getLast? ≠ some '.' := by
  intro hlast
  obtain ⟨init, rfl⟩ := List.getLast?_eq_some_iff.1 hlast
  exact not_internalName_append_dot h

/-! ## Hosts -/

theorem hostAccepted_domain (h : NamesDomain std host domain) :
    HostAccepted std host ↔ ∃ hostname, hostOfDomain domain = some hostname ∧ hostRefused hostname = false := by
  rw [HostAccepted, parseHost, if_neg h.1, h.2, Option.bind_some]

/-- An internal host is accepted just if its name ends in a dot. -/
theorem hostAccepted_internal (h : DenotesInternal std host) :
    HostAccepted std host ↔ (parseHost std host).isSome ∧ RootDotted std host := by
  obtain ⟨domain, hname, hinternal⟩ := h
  rw [hostAccepted_domain hname, parseHost, if_neg hname.1, hname.2, Option.bind_some]
  have hdotted : RootDotted std host ↔ domain.getLast? = some '.' := by
    refine ⟨?_, fun hlast => ⟨domain, hname, hlast⟩⟩
    rintro ⟨other, hother, hlast⟩
    have hsame := hother.2
    rw [hname.2] at hsame
    cases hsame
    exact hlast
  rw [hdotted]
  rcases hinternal with hinternal | ⟨name, rfl, hinternal⟩
  · have hlast := hinternal.getLast?
    have hnumber := hinternal.not_endsInNumber
    have hfour : isIPv4 domain = false := by
      rw [Bool.eq_false_iff]
      intro hfour
      rw [endsInNumber_of_isIPv4 hfour] at hnumber
      cases hnumber
    refine iff_of_false ?_ fun h => hlast h.2
    rintro ⟨hostname, hhost, hrefused⟩
    simp only [hostOfDomain, hnumber, Bool.false_eq_true, if_false] at hhost
    split_ifs at hhost with hforbidden
    cases hhost
    rw [hostRefused_domain (Bool.eq_false_iff.2 hforbidden) hfour, blocked_iff.2 hinternal] at hrefused
    cases hrefused
  · have hnumber := hinternal.not_endsInNumber
    rw [hostOfDomain_append_dot hinternal.getLast?, hnumber, if_neg (by decide)]
    cases hforbidden : name.any isForbiddenDomainChar with
    | true => simp
    | false =>
      have hdot : (name ++ ['.']).any isForbiddenDomainChar = false := by
        rw [List.any_append, hforbidden]
        decide
      have hrefused := hostRefused_domain hdot (isIPv4_append_dot name)
      rw [Bool.eq_false_iff.2 (mt blocked_iff.1 not_internalName_append_dot)] at hrefused
      simp [hrefused]

/-- A dot behind a name that is not internal makes no difference. -/
theorem hostAccepted_append_dot {dotted : List Char} (h : NamesDomain std host domain)
    (hdotted : NamesDomain std dotted (domain ++ ['.'])) (hlast : domain.getLast? ≠ some '.')
    (hinternal : ¬ InternalName domain) : HostAccepted std host ↔ HostAccepted std dotted := by
  rw [hostAccepted_domain h, hostAccepted_domain hdotted, hostOfDomain_append_dot hlast]
  cases hnumber : endsInNumber domain with
  | true => rw [if_pos rfl]
  | false =>
    rw [if_neg (by decide), hostOfDomain, hnumber]
    cases hforbidden : domain.any isForbiddenDomainChar with
    | true => simp
    | false =>
      have hfour : isIPv4 domain = false := by
        rw [Bool.eq_false_iff]
        intro hfour
        rw [endsInNumber_of_isIPv4 hfour] at hnumber
        cases hnumber
      have hdot : (domain ++ ['.']).any isForbiddenDomainChar = false := by
        rw [List.any_append, hforbidden]
        decide
      have hundotted := hostRefused_domain hforbidden hfour
      have hrefused := hostRefused_domain hdot (isIPv4_append_dot domain)
      rw [Bool.eq_false_iff.2 (mt blocked_iff.1 hinternal)] at hundotted
      rw [Bool.eq_false_iff.2 (mt blocked_iff.1 not_internalName_append_dot)] at hrefused
      simp [hundotted, hrefused]

/-! ## Spellings of one host -/

theorem head?_lowerLetter (hstd : std.Documented) (host : List Char) :
    (host.map std.lowerLetter).head? = some '[' ↔ host.head? = some '[' := by
  rw [List.head?_map, Option.map_eq_some_iff]
  constructor
  · rintro ⟨c, hc, hlower⟩
    rwa [(hstd.keepsBracket c).1 hlower] at hc
  · exact fun h => ⟨'[', h, (hstd.keepsBracket '[').2 rfl⟩

/-- The host parser does not see the case of letters. -/
theorem SameLetters.parseHost (hstd : std.Documented) (h : SameLetters std host other) :
    parseHost std host = parseHost std other ∧
      ∀ domain, NamesDomain std host domain ↔ NamesDomain std other domain := by
  have hhead : host.head? = some '[' ↔ other.head? = some '[' := by
    rw [← head?_lowerLetter hstd host, h, head?_lowerLetter hstd other]
  have hdomain : std.domainToASCII host = std.domainToASCII other := by
    rw [← hstd.lowerCases host, h, hstd.lowerCases]
  have hbracket : std.bracketHost host = std.bracketHost other := by
    rw [← hstd.lowerCasesBrackets host, h, hstd.lowerCasesBrackets]
  refine ⟨?_, fun domain => ?_⟩
  · simp only [Ecommerce.parseHost, hhead, hdomain, hbracket]
  · rw [NamesDomain, NamesDomain, hdomain, Ne, Ne, hhead]

/-- What the guard finds in two spellings of a host is the same, up to the dot of an internal name. -/
structure Alike (std : UrlStandard) (host other : List Char) : Prop where
  internal : DenotesInternal std host ↔ DenotesInternal std other
  parsed : (parseHost std host).isSome ↔ (parseHost std other).isSome
  accepted : ¬ DenotesInternal std host → (HostAccepted std host ↔ HostAccepted std other)

theorem Alike.symm (h : Alike std host other) : Alike std other host :=
  ⟨h.internal.symm, h.parsed.symm, fun hinternal => (h.accepted (mt h.internal.1 hinternal)).symm⟩

theorem Alike.trans {third : List Char} (h : Alike std host other) (h' : Alike std other third) :
    Alike std host third :=
  ⟨h.internal.trans h'.internal, h.parsed.trans h'.parsed, fun hinternal =>
    (h.accepted hinternal).trans (h'.accepted (mt h.internal.2 hinternal))⟩

theorem SameLetters.alike (hstd : std.Documented) (h : SameLetters std host other) : Alike std host other := by
  obtain ⟨hparse, hnames⟩ := h.parseHost hstd
  refine ⟨?_, by rw [hparse], fun _ => by rw [HostAccepted, HostAccepted, hparse]⟩
  simp only [DenotesInternal, hnames]

theorem Undotted.alike (hstd : std.Documented) (h : Undotted std host) : Alike std host (host ++ ['.']) := by
  obtain ⟨domain, hname, hlast⟩ := h
  have hdotted : NamesDomain std (host ++ ['.']) (domain ++ ['.']) := by
    refine ⟨?_, hstd.keepsDot host domain hname.2 hlast⟩
    cases hhost : host with
    | nil => simp
    | cons c cs =>
      have hfirst := hname.1
      rw [hhost] at hfirst
      simpa using hfirst
  have hinternal : DenotesInternal std host ↔ InternalName domain := by
    refine ⟨?_, fun h => ⟨domain, hname, .inl h⟩⟩
    rintro ⟨other, hother, h⟩
    have hsame := hother.2
    rw [hname.2] at hsame
    cases hsame
    rcases h with h | ⟨name, rfl, -⟩
    · exact h
    · exact absurd List.getLast?_concat hlast
  have hinternalDotted : DenotesInternal std (host ++ ['.']) ↔ InternalName domain := by
    refine ⟨?_, fun h => ⟨_, hdotted, .inr ⟨domain, rfl, h⟩⟩⟩
    rintro ⟨other, hother, h⟩
    have hsame := hother.2
    rw [hdotted.2] at hsame
    cases hsame
    rcases h with h | ⟨name, hname, h⟩
    · exact absurd h not_internalName_append_dot
    · rwa [List.append_left_injective _ hname]
  refine ⟨hinternal.trans hinternalDotted.symm, ?_, fun hnot => ?_⟩
  · rw [parseHost, parseHost, if_neg hname.1, if_neg hdotted.1, hname.2, hdotted.2, Option.bind_some,
      Option.bind_some, hostOfDomain_append_dot hlast]
    split_ifs with hnumber hforbidden
    · rfl
    · simp [hostOfDomain, hforbidden]
    · simp [hostOfDomain, hforbidden, hnumber]
  · exact hostAccepted_append_dot hname hdotted hlast (mt hinternal.2 hnot)

theorem SameHost.alike (hstd : std.Documented) (h : SameHost std host other) : Alike std host other := by
  cases h with
  | letters h => exact h.alike hstd
  | dotAdded hname h => exact (hname.alike hstd).trans (h.alike hstd)
  | dotRemoved hname h => exact ((hname.alike hstd).trans (h.alike hstd)).symm

/-- An `https` URL without credentials has an internal host, and one of the two spellings of its name ends in
a dot. -/
def DottedInternal (std : UrlStandard) (u : UrlText) (other : List Char) : Prop :=
  PlainHttps u ∧ (parseHost std u.host).isSome ∧ DenotesInternal std u.host ∧
    (RootDotted std u.host ∨ RootDotted std other)

/-- The guard judges a host by what it denotes just if it is not an internal one written with the dot. -/
theorem guard_judges_host (hstd : std.Documented) (u : UrlText) (other : List Char)
    (hsame : SameHost std u.host other) : JudgesHost std u other ↔ ¬ DottedInternal std u other := by
  have halike := hsame.alike hstd
  have hplain : PlainHttps { u with host := other } ↔ PlainHttps u := Iff.rfl
  rw [JudgesHost, accepts_iff, accepts_iff, hplain, DottedInternal]
  by_cases hinternal : DenotesInternal std u.host
  · have hother : DenotesInternal std other := halike.internal.1 hinternal
    have haccepted := hostAccepted_internal hinternal
    have hacceptedOther := hostAccepted_internal hother
    rw [← halike.parsed] at hacceptedOther
    rw [haccepted, hacceptedOther]
    constructor
    · rintro ⟨-, hrefuses, hrefusesOther⟩ ⟨hhttps, hparsed, -, hdot | hdot⟩
      · exact hrefuses hinternal ⟨hhttps, hparsed, hdot⟩
      · exact hrefusesOther hother ⟨hhttps, hparsed, hdot⟩
    · intro hnot
      have hrefused : ¬ (PlainHttps u ∧ (parseHost std u.host).isSome ∧ RootDotted std u.host) :=
        fun h => hnot ⟨h.1, h.2.1, hinternal, .inl h.2.2⟩
      have hrefusedOther : ¬ (PlainHttps u ∧ (parseHost std u.host).isSome ∧ RootDotted std other) :=
        fun h => hnot ⟨h.1, h.2.1, hinternal, .inr h.2.2⟩
      exact ⟨iff_of_false hrefused hrefusedOther, fun _ => hrefused, fun _ => hrefusedOther⟩
  · have hother : ¬ DenotesInternal std other := mt halike.internal.2 hinternal
    refine ⟨fun _ h => hinternal h.2.2.1, fun _ => ⟨and_congr_right fun _ => halike.accepted hinternal, ?_, ?_⟩⟩
    · exact fun h => absurd h hinternal
    · exact fun h => absurd h hother

/-- The standard on names in ASCII that need no decoding. -/
def asciiStandard : UrlStandard where
  domainToASCII host := some (host.map Char.toLower)
  bracketHost host := some (host.map Char.toLower)
  otherHost _ host := some host
  lowerLetter := Char.toLower

theorem asciiStandard_documented : asciiStandard.Documented where
  lowerCases host := by simp [asciiStandard, Function.comp_def]
  lowerCasesBrackets host := by simp [asciiStandard, Function.comp_def]
  keepsBracket c := by
    constructor
    · intro h
      exact toLower_ascii (P := fun c d => d = '[' → c = '[') (by decide +kernel) (by
        rw [show c.toLower = '[' from h]
        decide) h
    · rintro rfl
      decide
  keepsDot host domain h hlast := by
    cases h
    simp only [asciiStandard, List.map_append]
    rfl

def httpsUrl (host : String) : UrlText where
  scheme := "https".toList
  username := []
  password := []
  host := host.toList
  port := []
  rest := "/track".toList

theorem guard_judges_host_exampleName :
    JudgesHost asciiStandard (httpsUrl "Example.com") "example.com.".toList ∧
      Accepts asciiStandard (httpsUrl "Example.com") := by
  have hname : NamesDomain asciiStandard "Example.com".toList "example.com".toList := ⟨by decide, by decide⟩
  have hletters : SameLetters asciiStandard ("Example.com".toList ++ ['.']) "example.com.".toList := by
    unfold SameLetters
    decide
  have hsame : SameHost asciiStandard (httpsUrl "Example.com").host "example.com.".toList :=
    .dotAdded ⟨_, hname, by decide⟩ hletters
  have hexternal : ¬ InternalName "example.com".toList := by
    unfold InternalName
    decide
  refine ⟨(guard_judges_host asciiStandard_documented _ _ hsame).2 ?_, ?_⟩
  · rintro ⟨-, -, ⟨domain, ⟨-, hdomain⟩, hinternal⟩, -⟩
    cases hdomain
    rcases hinternal with hinternal | ⟨name, hdot, -⟩
    · exact hexternal hinternal
    · have hlast := congrArg List.getLast? hdot
      rw [List.getLast?_concat] at hlast
      exact absurd hlast (by decide)
  · unfold Accepts
    decide +kernel

/-- `localhost` is refused, and `localhost.` is accepted. -/
theorem guard_judges_host_counterexample :
    SameHost asciiStandard (httpsUrl "localhost").host "localhost.".toList ∧
      DenotesInternal asciiStandard "localhost.".toList ∧
      ¬ Accepts asciiStandard (httpsUrl "localhost") ∧ Accepts asciiStandard (httpsUrl "localhost.") ∧
      ¬ JudgesHost asciiStandard (httpsUrl "localhost") "localhost.".toList := by
  have hname : NamesDomain asciiStandard "localhost".toList "localhost".toList := ⟨by decide, by decide⟩
  have hinternal : InternalName "localhost".toList := .inl (by decide)
  have hrefused : ¬ Accepts asciiStandard (httpsUrl "localhost") := by
    unfold Accepts
    decide +kernel
  have haccepted : Accepts asciiStandard (httpsUrl "localhost.") := by
    unfold Accepts
    decide +kernel
  refine ⟨.dotAdded ⟨_, hname, by decide⟩ rfl, ⟨_, ⟨by decide, rfl⟩, .inr ⟨"localhost".toList, by decide, hinternal⟩⟩,
    hrefused, haccepted, fun hjudges => hrefused (hjudges.1.2 haccepted)⟩

end Ecommerce
