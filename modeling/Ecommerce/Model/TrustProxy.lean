import Ecommerce.Model.Ssrf

/-!
# Trusted proxies

`parseTrustProxy` of `config/env.schema.ts`.
-/

namespace Ecommerce

/-- What `parseTrustProxy` returns. -/
inductive TrustProxy where
  | off
  | hops (count : Nat)
  | list (entries : List String)
  | error (error : String)
  deriving DecidableEq, Repr

def TRUST_PROXY_PRESETS : List String := ["loopback", "linklocal", "uniquelocal"]

def isAddressOrSubnet (value : String) : Bool :=
  match value.toList.splitOn '/' with
  | [address] => isIP address != 0
  | [address, bits] =>
    isIP address != 0 && isDigits bits &&
      (readDigits 10 0 bits).any fun n => decide (n ≤ if isIP address = 4 then 32 else 128)
  | _ => false

def parseTrustProxy (raw : String) : TrustProxy :=
  let value := jsToLowerCase (jsTrim raw)
  if value = "" ∨ value = "false" ∨ value = "0" then .off
  else if value = "true" then
    .error "must not be true (that trusts any client); use a hop count or proxy addresses"
  else if isDigits value.toList then
    let hops := (readDigits 10 0 value.toList).getD 0
    if hops ≤ 10 then .hops hops else .error "hop count must be 10 or less"
  else
    let entries := ((value.toList.splitOn ',').map fun entry => jsTrim (String.ofList entry)).filter (· ≠ "")
    let invalid := entries.filter fun entry => !TRUST_PROXY_PRESETS.contains entry && !isAddressOrSubnet entry
    if invalid.isEmpty then .list entries
    else
      .error ("invalid entries: " ++ String.intercalate ", " invalid ++
        " (use loopback, linklocal, uniquelocal, IPs or CIDRs)")

end Ecommerce
