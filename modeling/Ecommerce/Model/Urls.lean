import Ecommerce.Model.Ssrf
import Ecommerce.Model.Database

/-!
# External URLs

`assertSafeExternalUrl` of `utils/ssrf.ts` with the host parser of the URL standard behind `new URL`. A
URL is kept as the parts that the standard cuts it into.
-/

namespace Ecommerce

/-! ## The host parser -/

/-- What of the URL standard is not written out here. -/
structure UrlStandard where
  /-- Percent-decoding, and then the domain of a host in ASCII. -/
  domainToASCII : List Char → Option (List Char)
  /-- A host in brackets. -/
  bracketHost : List Char → Option (List Char)
  /-- The host of a URL that is not an `https` URL. -/
  otherHost : (scheme host : List Char) → Option (List Char)
  /-- The lower case of a letter; other characters stay. -/
  lowerLetter : Char → Char

def isForbiddenDomainChar (c : Char) : Bool :=
  c ≤ ' ' || c == '\x7f' || "#%/:<>?@[\\]^|".toList.contains c

/-- The parts of a domain between dots, without the empty one behind a dot at the end. -/
def domainLabels (domain : List Char) : List (List Char) :=
  let parts := domain.splitOn '.'
  if parts.getLast? = some [] ∧ 1 < parts.length then parts.dropLast else parts

/-- A number in decimal, octal or hex. -/
def ipv4Number : List Char → Option Nat
  | [] => none
  | '0' :: 'x' :: ds | '0' :: 'X' :: ds => readDigits 16 0 ds
  | '0' :: d :: ds => readDigits 8 0 (d :: ds)
  | ds => readDigits 10 0 ds

def endsInNumber (domain : List Char) : Bool :=
  ((domainLabels domain).getLast?).any fun last => isDigits last || (ipv4Number last).isSome

/-- The address of up to four numbers, of which the last fills the bytes that are left. -/
def ipv4Address (numbers : List Nat) : Option (BitVec 32) :=
  match numbers.reverse with
  | [] => none
  | last :: bytes =>
    if 3 < bytes.length ∨ bytes.any (255 < ·) ∨ 256 ^ (4 - bytes.length) ≤ last then none
    else some (BitVec.ofNat 32 ((bytes.reverse.zipIdx.map fun b => b.1 * 256 ^ (3 - b.2)).sum + last))

def ipv4Parser (domain : List Char) : Option (BitVec 32) :=
  ((domainLabels domain).mapM ipv4Number).bind ipv4Address

/-- The host that a domain stands for. -/
def hostOfDomain (domain : List Char) : Option (List Char) :=
  if domain.any isForbiddenDomainChar then none
  else if endsInNumber domain then (ipv4Parser domain).map dottedV4
  else some domain

def parseHost (std : UrlStandard) (host : List Char) : Option (List Char) :=
  if host.head? = some '[' then std.bracketHost host else (std.domainToASCII host).bind hostOfDomain

/-! ## `new URL` -/

/-- A URL with an authority, cut into its parts. -/
structure UrlText where
  scheme : List Char
  username : List Char
  password : List Char
  host : List Char
  port : List Char
  rest : List Char

structure ParsedUrl where
  protocol : List Char
  username : List Char
  password : List Char
  hostname : List Char

def validPort (port : List Char) : Bool := port.isEmpty || (readDigits 10 0 port).any fun n => decide (n ≤ 65535)

def newURL (std : UrlStandard) (u : UrlText) : Option ParsedUrl :=
  let scheme := u.scheme.map Char.toLower
  let host := if scheme = "https".toList then parseHost std u.host else std.otherHost scheme u.host
  if validPort u.port then
    host.map fun hostname => ⟨scheme ++ [':'], u.username, u.password, hostname⟩
  else none

/-! ## `assertSafeExternalUrl` -/

/-- A pattern of `BLOCKED_HOSTNAMES`: the whole name, or its end. -/
inductive HostPattern where
  | whole (text : String)
  | ending (text : String)

def HostPattern.test (hostname : List Char) : HostPattern → Bool
  | .whole text => hostname.map Char.toLower == text.toList
  | .ending text => text.toList.isSuffixOf (hostname.map Char.toLower)

def BLOCKED_HOSTNAMES : List HostPattern :=
  [.whole "localhost", .ending ".localhost", .ending ".internal", .ending ".local", .whole "metadata.google.internal"]

/-- `hostname.replace(/^\[|\]$/g, "")`. -/
def withoutBrackets (hostname : List Char) : List Char :=
  let opened := if hostname.head? = some '[' then hostname.tail else hostname
  if opened.getLast? = some ']' then opened.dropLast else opened

/-- `value`: nothing or empty, a text that cannot be cut into the parts of a URL, or a URL. -/
inductive UrlInput where
  | absent
  | malformed
  | url (u : UrlText)

def assertSafeExternalUrl (std : UrlStandard) : UrlInput → Except ApiError Unit
  | .absent => .ok ()
  | .malformed => .error (CustomeErrorHandler.badRequest "Invalid URL")
  | .url u =>
    match newURL std u with
    | none => .error (CustomeErrorHandler.badRequest "Invalid URL")
    | some parsed =>
      let hostname := withoutBrackets parsed.hostname
      if parsed.protocol ≠ "https:".toList then
        .error (CustomeErrorHandler.badRequest "Only HTTPS URLs are allowed")
      else if parsed.username ≠ [] ∨ parsed.password ≠ [] then
        .error (CustomeErrorHandler.badRequest "URLs with credentials are not allowed")
      else if isPrivateAddress hostname || BLOCKED_HOSTNAMES.any (·.test hostname) then
        .error (CustomeErrorHandler.badRequest "Private network URLs are not allowed")
      else .ok ()

end Ecommerce
