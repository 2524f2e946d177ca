import Ecommerce.Model.Audit

/-!
# The head of the audit log

The hash of the last entry determines everything that was hashed into the log.
-/

namespace Ecommerce

open Chain

variable {M : Type} {cfg : AuditConfig M} {log log' : List (AuditEntry M)}

/-- Unless an entry of one log collides with one of the other, two logs that pass the check and end
in the same hash have the same length and agree in every hashed field of every entry. -/
theorem audit_tamper_evident
    (hinjective : ∀ e ∈ log, ∀ e' ∈ log', cfg.digest e.body = cfg.digest e'.body → e.body = e'.body)
    (h : (auditScheme cfg).Intact log) (h' : (auditScheme cfg).Intact log')
    (hend : log.getLast?.map (·.hash) = log'.getLast?.map (·.hash)) :
    log.length = log'.length ∧ log.map (·.body) = log'.map (·.body) := by
  have hbody : log.map (·.body) = log'.map (·.body) :=
    (auditScheme cfg).body_eq hinjective h h' hend
  exact ⟨by simpa using congrArg List.length hbody, hbody⟩

/-- A configuration with the texts and the digests of the two entries below. -/
def exampleAudit : AuditConfig Nat where
  stringify body :=
    if body.sequence = 1 then
      "\x7b\"sequence\":1,\"action\":\"auth.login\",\"actor\":null,\"tenant\":\"acme\",\"requestId\":\"r1\",\"ip\":null,\"metadata\":\x7b\"i\":1\x7d,\"previousHash\":\"GENESIS\"\x7d"
    else
      "\x7b\"sequence\":2,\"action\":\"auth.logout\",\"actor\":null,\"tenant\":\"acme\",\"requestId\":\"r2\",\"ip\":null,\"metadata\":\x7b\"i\":2\x7d,\"previousHash\":\"529ea4aace1f5507d20c10342751ebdb58f6af7e307c8a42f5c28d59bccb41bf\"\x7d"
  sha256 text :=
    if text.utf8ByteSize < 150 then "529ea4aace1f5507d20c10342751ebdb58f6af7e307c8a42f5c28d59bccb41bf"
    else "0373c96ccd3f82136381e05b33e7d720e01fee5cd4239bc6cfe22943ff9445b5"

/-- Two entries, written at a time and by a process that are not hashed. -/
def exampleLog (now : Time) (process : Nat) : List (AuditEntry Nat) :=
  let first : AuditBody Nat := ⟨1, "auth.login", none, "acme", some "r1", none, 1, "GENESIS"⟩
  let second : AuditBody Nat :=
    ⟨2, "auth.logout", none, "acme", some "r2", none, 2,
      "529ea4aace1f5507d20c10342751ebdb58f6af7e307c8a42f5c28d59bccb41bf"⟩
  [⟨first, exampleAudit.digest first, now, (process, 0)⟩,
    ⟨second, exampleAudit.digest second, now + 5, (process, 1)⟩]

theorem audit_tamper_evident_two :
    (exampleLog 0 0).length = (exampleLog 9 1).length ∧
      (exampleLog 0 0).map (·.body) = (exampleLog 9 1).map (·.body) :=
  @audit_tamper_evident _ exampleAudit _ _ (by decide +kernel) (by decide +kernel) (by decide +kernel)
    (by decide +kernel)

end Ecommerce
