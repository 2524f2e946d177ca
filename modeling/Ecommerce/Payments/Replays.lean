import Ecommerce.Payments.Redelivery
import Ecommerce.Trace.Run

/-!
# Deliveries that are sent again by others

The event id and the provider of a delivery are not signed, and whoever has seen a delivery can send its
content again under others. Such a delivery has no influence exactly as long as it does not apply when it
arrives, which is so for every copy of a delivery that was applied. The content of a retry that was signed
anew is recorded nowhere, and a copy of it under another event id does apply.
-/

namespace Ecommerce

open Effect

/-- A delivery that arrives, from the provider or from someone who has seen it. -/
structure Arrival where
  delivery : Delivery
  now : Time
  inserted : Bool
  deriving DecidableEq

/-- The content that the signature covers. -/
def Arrival.content (a : Arrival) : Option String × String := (a.delivery.timestamp, a.delivery.rawPayload)

/-- The service between two deliveries. -/
structure PaymentDesk where
  db : Db
  /-- History: the content of the genuine deliveries that were applied. -/
  applied : List (Option String × String)
  /-- History: the answers to the genuine deliveries, each with the database that it left. -/
  answers : List (Except ApiError WebhookResult × Db)

/-- The answer has the order in it. -/
def appliedAnswer : Except ApiError WebhookResult → Bool
  | .ok (.order _) => true
  | _ => false

namespace PaymentDesk

variable (deployment : Deployment) (cfg : WebhookConfig)

def open' (db : Db) : PaymentDesk := ⟨db, [], []⟩

/-- The delivery is processed before the next one arrives. -/
def receive (s : PaymentDesk) (a : Arrival) : Option PaymentDesk :=
  let answer := (processWebhook deployment cfg a.delivery a.now).eval mongo.transactional s.db
  if a.inserted then some { s with db := answer.2 }
  else some {
    db := answer.2
    applied := if appliedAnswer answer.1 then a.content :: s.applied else s.applied
    answers := s.answers ++ [answer] }

/-- An inserted delivery fails one of the checks that come before the first write. -/
def TurnedAway (s : PaymentDesk) (a : Arrival) : Prop :=
  a.inserted = true → ∀ eventId order body, acceptDelivery cfg a.now a.delivery = .ok eventId →
    ¬ Applies cfg a.delivery eventId s.db order body

/-- An inserted delivery has the content of a genuine one that was applied before. -/
def CopiesApplied (s : PaymentDesk) (a : Arrival) : Prop := a.inserted = true → a.content ∈ s.applied

end PaymentDesk

variable {deployment : Deployment} {cfg : WebhookConfig} {d : Delivery} {now : Time} {eventId : String}
variable {s : Db} {x : Order} {body : WebhookBody}

/-! ## One delivery -/

/-- A delivery that applies is answered with its order and leaves one more event. -/
theorem processWebhook_applies (deployment : Deployment) (haccept : acceptDelivery cfg now d = .ok eventId)
    (h : Applies cfg d eventId s x body) :
    ∃ current t, (processWebhook deployment cfg d now).eval mongo.transactional s = (.ok (.order current), t) ∧
      t.paymentEvents = s.paymentEvents ++ [webhookEvent cfg d eventId x.id body.type] := by
  obtain ⟨current, hwork⟩ := eval_webhookWork now h
  set u := ((s.moveOrder d body now x).settle body.type x.id).record (webhookEvent cfg d eventId x.id body.type)
    with hu
  have htransaction : (runInTransaction deployment fun _ => webhookWork cfg d eventId x body now).eval
      mongo.transactional s = (.ok current, u) := by
    cases deployment with
    | standalone => rw [runInTransaction, Prog.eval_embed, hwork]
    | replicaSet =>
      have hexec : mongo.transactional.exec (.txn (webhookWork cfg d eventId x body now)) s = (.ok current, u) := by
        simp only [Machine.transactional, hwork]
      exact hexec
  have hsucceeds : (afterWebhook current (TARGET_STATE body.type)).Succeeds :=
    Prog.Succeeds.catching _ fun _ => ⟨(), rfl⟩
  obtain ⟨⟨⟩, t, hafter⟩ := hsucceeds.eval (M := mongo) u
  have hquiet : Untouched u t := by
    have hrun := Prog.Issues.eval (M := mongo) (I := Untouched u)
      (afterWebhook_issues current (TARGET_STATE body.type))
      (fun o ho v hv => hv.trans (exec_untouched o ho v)) (.refl u)
    rwa [hafter] at hrun
  refine ⟨current, t, ?_, ?_⟩
  · rw [processWebhook, haccept]
    refine Prog.eval_bind_ok.2 ⟨some (x, body), s, by rw [Prog.eval_embed, h.eval], ?_⟩
    refine Prog.eval_bind_ok.2 ⟨current, u, htransaction, ?_⟩
    exact Prog.eval_bind_ok.2 ⟨(), t, by rw [Prog.eval_embed, hafter], rfl⟩
  · have hevents : u.paymentEvents = s.paymentEvents ++ [webhookEvent cfg d eventId x.id body.type] := by
      rw [hu, Db.record, settle_paymentEvents, moveOrder_paymentEvents]
    rw [hquiet.paymentEvents, hevents]

/-- A delivery that does not apply is answered without a write. -/
theorem processWebhook_turnedAway (deployment : Deployment)
    (h : ∀ eventId order body, acceptDelivery cfg now d = .ok eventId →
      ¬ Applies cfg d eventId s order body) :
    ∃ answer, (processWebhook deployment cfg d now).eval mongo.transactional s = (answer, s) ∧
      appliedAnswer answer = false := by
  rw [processWebhook]
  cases haccept : acceptDelivery cfg now d with
  | error e => exact ⟨.error e, rfl, rfl⟩
  | ok eventId =>
    cases hread : (readWebhook cfg d eventId).eval mongo s with
    | mk answer t =>
      obtain rfl : t = s := by
        have hreads := Prog.Issues.eval (M := mongo) (I := fun v => v = s) (readWebhook_issues cfg d eventId)
          (fun o ho v hv => (exec_reads ho v).trans hv) rfl
        rwa [hread] at hreads
      obtain e | (_ | ⟨order, body⟩) := answer
      · refine ⟨.error e, ?_, rfl⟩
        dsimp only
        rw [Prog.bind_def, Prog.eval_bind, Prog.eval_embed, hread]
      · exact ⟨.ok .replay, Prog.eval_bind_ok.2 ⟨none, t, by rw [Prog.eval_embed, hread], rfl⟩, rfl⟩
      · exact absurd (Applies.of_eval hread) (h eventId order body haccept)

namespace PaymentDesk

variable {s t : PaymentDesk} {a : Arrival} {items : List Arrival}

theorem receive_isSome (deployment : Deployment) (cfg : WebhookConfig) (s : PaymentDesk) (a : Arrival) :
    ∃ t, receive deployment cfg s a = some t := by
  rw [receive]
  split <;> exact ⟨_, rfl⟩

/-- An inserted delivery changes nothing exactly when it is turned away. -/
theorem receive_inserted (deployment : Deployment) (hinserted : a.inserted = true) :
    receive deployment cfg s a = some s ↔ TurnedAway cfg s a := by
  rw [receive, if_pos hinserted]
  constructor
  · intro hsame _ eventId order body haccept happlies
    obtain ⟨current, u, heval, hevents⟩ := processWebhook_applies deployment haccept happlies
    have hdb : u = s.db := by
      rw [heval] at hsame
      exact congrArg db (Option.some.inj hsame)
    rw [hdb] at hevents
    simpa using congrArg List.length hevents
  · intro haway
    obtain ⟨answer, heval, -⟩ := processWebhook_turnedAway deployment (haway hinserted)
    rw [heval]

/-! ## Runs -/

theorem run_isSome (deployment : Deployment) (cfg : WebhookConfig) (s : PaymentDesk) (items : List Arrival) :
    ∃ t, Trace.run (receive deployment cfg) s items = some t := by
  induction items generalizing s with
  | nil => exact ⟨s, rfl⟩
  | cons a items ih =>
    obtain ⟨t, hstep⟩ := receive_isSome deployment cfg s a
    rw [Trace.run_cons, hstep]
    exact ih t

/-- What is turned away can be left out of the run. -/
theorem run_genuine (haway : Trace.Meets (receive deployment cfg) (TurnedAway cfg) s items) :
    Trace.run (receive deployment cfg) s items =
      Trace.run (receive deployment cfg) s (items.filter fun a => !a.inserted) := by
  induction items generalizing s with
  | nil => rfl
  | cons a items ih =>
    obtain ⟨hfirst, hrest⟩ := Trace.meets_cons.1 haway
    cases hinserted : a.inserted with
    | true =>
      have hsame := (receive_inserted deployment hinserted).2 hfirst
      rw [Trace.run_cons, hsame, List.filter_cons_of_neg (by simp [hinserted])]
      exact ih (hrest s hsame)
    | false =>
      obtain ⟨t, hstep⟩ := receive_isSome deployment cfg s a
      rw [List.filter_cons_of_pos (by simp [hinserted]), Trace.run_cons, Trace.run_cons, hstep]
      exact ih (hrest t hstep)

/-! ## Copies of what was applied -/

/-- Whatever was applied is recorded. -/
def Recorded (cfg : WebhookConfig) (s : PaymentDesk) : Prop :=
  ∀ content ∈ s.applied, ∃ e ∈ s.db.paymentEvents,
    e.signedDigest = some (cfg.sha256 (signedText (content.1.getD "undefined") content.2))

/-- A copy of what was applied is turned away. -/
theorem CopiesApplied.turnedAway (hs : Recorded cfg s) (hcopies : CopiesApplied s a) : TurnedAway cfg s a := by
  intro hinserted eventId order body _ happlies
  obtain ⟨e, he, hdigest⟩ := hs _ (hcopies hinserted)
  refine List.find?_eq_none.1 happlies.fresh e he ?_
  rw [Bool.or_eq_true, hdigest]
  exact .inr (beq_self_eq_true _)

theorem receive_recorded (hs : Recorded cfg s) (hcopies : CopiesApplied s a)
    (hstep : receive deployment cfg s a = some t) : Recorded cfg t := by
  by_cases haway : ∀ eventId order body, acceptDelivery cfg a.now a.delivery = .ok eventId →
      ¬ Applies cfg a.delivery eventId s.db order body
  · obtain ⟨answer, heval, hanswer⟩ := processWebhook_turnedAway deployment haway
    rw [receive, heval] at hstep
    simp only [hanswer, Bool.false_eq_true, if_false] at hstep
    cases hinserted : a.inserted with
    | true =>
      rw [hinserted] at hstep
      exact Option.some.inj hstep ▸ hs
    | false =>
      rw [hinserted] at hstep
      exact Option.some.inj hstep ▸ hs
  · have hgenuine : a.inserted = false := by
      rw [Bool.eq_false_iff]
      exact fun hinserted => haway (hcopies.turnedAway hs hinserted)
    simp only [not_forall, not_not] at haway
    obtain ⟨eventId, order, body, haccept, happlies⟩ := haway
    obtain ⟨current, u, heval, hevents⟩ := processWebhook_applies deployment haccept happlies
    rw [receive, heval, hgenuine] at hstep
    obtain rfl := Option.some.inj hstep
    intro content hcontent
    rw [hevents]
    obtain rfl | hbefore := List.mem_cons.1 hcontent
    · exact ⟨_, List.mem_append_right _ (List.mem_singleton_self _), rfl⟩
    · obtain ⟨e, he, hdigest⟩ := hs content hbefore
      exact ⟨e, List.mem_append_left _ he, hdigest⟩

/-- Copies of what was applied before have no influence. -/
theorem copies_turnedAway {start : Db}
    (hcopies : Trace.Meets (receive deployment cfg) CopiesApplied (open' start) items) :
    Trace.Meets (receive deployment cfg) (TurnedAway cfg) (open' start) items := by
  intro before a after s hsplit hrun
  have hopen : Recorded cfg (open' start) := fun _ hnone => absurd hnone List.not_mem_nil
  have hbefore : Recorded cfg s :=
    Trace.run_induct (Recorded cfg) hopen receive_recorded (Trace.Meets.of_append (hsplit ▸ hcopies)) hrun
  exact (hcopies before a after s hsplit hrun).turnedAway hbefore

/-! ## Insertions -/

/-- The genuine deliveries have the answers and leave the databases that they have without the inserted ones,
and no inserted delivery changes anything, exactly when every inserted delivery is turned away, as copies of
what was applied before are. -/
theorem insertions_without_influence (deployment : Deployment) (cfg : WebhookConfig) (start : Db)
    (items : List Arrival) :
    ((Trace.run (receive deployment cfg) (open' start) items =
          Trace.run (receive deployment cfg) (open' start) (items.filter fun a => !a.inserted) ∧
        (Trace.run (receive deployment cfg) (open' start) items).isSome ∧
        ∀ before a after s, items = before ++ a :: after →
          Trace.run (receive deployment cfg) (open' start) before = some s →
          a.inserted = true → receive deployment cfg s a = some s) ↔
      Trace.Meets (receive deployment cfg) (TurnedAway cfg) (open' start) items) ∧
    (Trace.Meets (receive deployment cfg) CopiesApplied (open' start) items →
      Trace.Meets (receive deployment cfg) (TurnedAway cfg) (open' start) items) := by
  refine ⟨⟨?_, fun haway => ?_⟩, copies_turnedAway⟩
  · rintro ⟨-, -, hsame⟩ before a after s hsplit hrun hinserted
    exact (receive_inserted deployment hinserted).1 (hsame before a after s hsplit hrun hinserted) hinserted
  · refine ⟨run_genuine haway, ?_, fun before a after s hsplit hrun hinserted => ?_⟩
    · obtain ⟨s, hrun⟩ := run_isSome deployment cfg (open' start) items
      rw [hrun]
      rfl
    · exact (receive_inserted deployment hinserted).2 (haway before a after s hsplit hrun)

/-! ## A retry that is signed anew -/

/-- A delivery about the sample order, signed at a time, under an event id. -/
def signedAt (timestamp eventId body : String) : Delivery :=
  let digits := ("s" ++ signedText timestamp body).toList.flatMap fun c => Nat.toDigits 16 c.toNat
  ⟨some (String.ofList digits), some timestamp, none, some eventId, body⟩

/-- A payment, its retry a second later, a copy of the retry under the event id of the refund, and the
refund. -/
def copiedRetry : List Arrival :=
  [⟨signedAt "0" "e1" "P", 1, false⟩, ⟨signedAt "1" "e1" "P", 1001, false⟩,
    ⟨signedAt "1" "e2" "P", 1002, true⟩, ⟨signedAt "2" "e2" "R", 2001, false⟩]

/-- The answers as a provider sees them, and how many events there are in the end. -/
def outcome (items : List Arrival) : Option (List (Option (Option PaymentStatus)) × Nat) :=
  (Trace.run (receive .replicaSet (sampleConfig .replicaSet).webhook) (open' orderedDb) items).map fun s =>
    (s.answers.map fun answer =>
      match answer.1 with
      | .ok (.order current) => some (some current.paymentStatus)
      | .ok .replay => some none
      | .error _ => none, s.db.paymentEvents.length)

/-- The retry is answered as a replay, its copy is recorded as a new event, and the refund is then answered as
a replay and not applied. -/
theorem insertions_without_influence_copiedRetry :
    outcome copiedRetry = some ([some (some .paid), some none, some none], 2) ∧
      outcome (copiedRetry.take 2) = some ([some (some .paid), some none], 1) ∧
      outcome (copiedRetry.filter fun a => !a.inserted) =
        some ([some (some .paid), some none, some (some .refunded)], 2) := by
  decide +kernel

end PaymentDesk

end Ecommerce
