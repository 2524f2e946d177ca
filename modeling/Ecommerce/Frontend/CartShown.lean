import Ecommerce.Model.Storefront
import Ecommerce.Trace.Run

/-!
# The cart that is shown

Every response overwrites the whole cart of the store, whatever was sent after its request and whoever is
signed in by then. The cart shown is the server's in the runs in which no response is overtaken by a later
change or by another user's sign-in.
-/

namespace Ecommerce

variable {r q : CartSending}

namespace CartSending

/-- The server processed both requests, this one first. -/
def Before (r q : CartSending) : Prop := ∃ a ∈ r.reply, ∃ b ∈ q.reply, a.1 < b.1

instance : Decidable (r.Before q) := inferInstanceAs (Decidable (∃ a ∈ r.reply, ∃ b ∈ q.reply, a.1 < b.1))

/-- A later change of the same cart. -/
def Changes (q r : CartSending) : Prop := q.user = r.user ∧ q.command ≠ .load ∧ r.Before q

instance : Decidable (q.Changes r) := inferInstanceAs (Decidable (_ ∧ _ ∧ _))

theorem not_before_self : ¬ r.Before r := by
  rintro ⟨a, ha, b, hb, hlt⟩
  obtain rfl : a = b := Option.some.inj (ha.symm.trans hb)
  exact lt_irrefl _ hlt

end CartSending

namespace Storefront

variable {s t : Storefront} {event : StorefrontEvent} {n : Nat} {x : CartSending}

/-! ## What is sent -/

theorem mem_of_outstanding (h : s.outstanding n = some r) : s.sendings[n]? = some r ∧ r.done = false := by
  obtain ⟨hget, hopen⟩ := Option.filter_eq_some_iff.1 h
  exact ⟨hget, by simpa using hopen⟩

theorem mem_set (hget : s.sendings[n]? = some r) : x ∈ s.sendings.set n x :=
  List.mem_set (List.getElem?_eq_some_iff.1 hget).1 x

/-- A request stays, unless it is the one that is replaced. -/
theorem mem_set_or (hget : s.sendings[n]? = some r) (hq : q ∈ s.sendings) : q = r ∨ q ∈ s.sendings.set n x := by
  obtain ⟨i, hi⟩ := List.mem_iff_getElem?.1 hq
  by_cases hni : n = i
  · subst hni
    exact .inl (Option.some.inj (hi.symm.trans hget))
  · right
    rw [List.mem_iff_getElem?]
    exact ⟨i, by rw [List.getElem?_set_ne hni, hi]⟩

/-! ## What the server holds -/

/-- Requests are numbered as the server processes them, and a user's cart is that of the last reply. -/
structure Served (s : Storefront) : Prop where
  user : ∀ r ∈ s.sendings, r.reply.isSome → r.user.isSome
  numbered : ∀ r ∈ s.sendings, ∀ reply ∈ r.reply, reply.1 < s.processed
  latest : ∀ r ∈ s.sendings, ∀ reply ∈ r.reply, ∀ user, r.user = some user →
    (∀ q ∈ s.sendings, ¬ q.Changes r) → s.carts user = reply.2

theorem Served.call (h : s.Served) (command : CartCommand) : (s.call command).Served := by
  have hcases : ∀ r ∈ (s.call command).sendings, r ∈ s.sendings ∨ r.reply = none := by
    intro r hr
    obtain hr | hr := List.mem_append.1 hr
    · exact .inl hr
    · obtain rfl := List.mem_singleton.1 hr
      exact .inr rfl
  refine ⟨fun r hr hreply => ?_, fun r hr reply hreply => ?_, fun r hr reply hreply user huser hlast => ?_⟩
  · obtain hr | hr := hcases r hr
    · exact h.user r hr hreply
    · simp [hr] at hreply
  · obtain hr | hr := hcases r hr
    · exact h.numbered r hr reply hreply
    · simp [hr] at hreply
  · obtain hr | hr := hcases r hr
    · exact h.latest r hr reply hreply user huser fun q hq => hlast q (List.mem_append.2 (.inl hq))
    · simp [hr] at hreply

theorem Served.finalize (h : s.Served) (hget : s.sendings[n]? = some r) : (s.finalize n r).Served := by
  have hr : r ∈ s.sendings := List.mem_of_getElem? hget
  refine ⟨fun q hq hreply => ?_, fun q hq reply hreply => ?_, fun q hq reply hreply user huser hlast => ?_⟩
  · obtain hq | rfl := List.mem_or_eq_of_mem_set hq
    · exact h.user q hq hreply
    · exact h.user r hr hreply
  · obtain hq | rfl := List.mem_or_eq_of_mem_set hq
    · exact h.numbered q hq reply hreply
    · exact h.numbered r hr reply hreply
  · have hold : ∀ p ∈ s.sendings, ¬ p.Changes q := by
      intro p hp
      obtain rfl | hp := mem_set_or (x := { r with done := true }) hget hp
      · exact hlast { p with done := true } (mem_set hget)
      · exact hlast p hp
    obtain hq | rfl := List.mem_or_eq_of_mem_set hq
    · exact h.latest q hq reply hreply user huser hold
    · exact h.latest r hr reply hreply user huser hold

theorem Served.process (h : s.Served) (hget : s.sendings[n]? = some r) (hnew : r.reply = none) {user : ObjectId}
    (huser : r.user = some user) : (s.process n r user).Served := by
  refine ⟨fun q hq hreply => ?_, fun q hq reply hreply => ?_, fun q hq reply hreply owner howner hlast => ?_⟩
  · obtain hq | rfl := List.mem_or_eq_of_mem_set hq
    · exact h.user q hq hreply
    · simp [huser]
  · obtain hq | rfl := List.mem_or_eq_of_mem_set hq
    · exact Nat.lt_succ_of_lt (h.numbered q hq reply hreply)
    · obtain rfl := Option.some.inj hreply
      exact Nat.lt_succ_self _
  · show Function.update s.carts user (r.command.apply (s.carts user)) owner = reply.2
    obtain hmem | rfl := List.mem_or_eq_of_mem_set hq
    · have hold : ∀ p ∈ s.sendings, ¬ p.Changes q := by
        intro p hp hchanges
        obtain rfl | hp := mem_set_or (x := { r with reply := some (s.processed, r.command.apply (s.carts user)) })
          hget hp
        · obtain ⟨-, -, -, -, b, hb, -⟩ := hchanges
          simp [hnew] at hb
        · exact hlast p hp hchanges
      have hcart := h.latest q hmem reply hreply owner howner hold
      by_cases hsame : owner = user
      · subst hsame
        -- Only a load can have been processed now, for the cart was changed last before.
        have hload : r.command = .load := by
          by_contra hchange
          refine hlast _ (mem_set hget) ⟨huser.trans howner.symm, hchange, reply, hreply, _, rfl, ?_⟩
          exact h.numbered q hmem reply hreply
        rw [Function.update_self, hload]
        exact hcart
      · rw [Function.update_of_ne hsame]
        exact hcart
    · obtain rfl := Option.some.inj hreply
      obtain rfl : user = owner := Option.some.inj (huser.symm.trans howner)
      exact Function.update_self ..

/-! ## What is shown -/

/-- The cart is the reply to a request of the signed-in user, and no later change is answered. -/
def Shown (s : Storefront) : Prop :=
  ∃ r ∈ s.sendings, r.user = s.signedIn ∧ (∃ reply ∈ r.reply, s.cart = reply.2) ∧
    ∀ q ∈ s.sendings, q.Changes r → q.done = false

/-- A request of the signed-in user is not answered. -/
def Waits (s : Storefront) : Prop := ∃ r ∈ s.sendings, r.user = s.signedIn ∧ r.done = false

structure Consistent (s : Storefront) : Prop where
  served : s.Served
  signedOut : s.signedIn = none → s.cart = []
  shown : s.signedIn.isSome → s.succeeded = true → s.Waits ∨ s.Shown

/-- Nothing is overtaken. Nobody signs in in another user's place, the server processes no change that was
given up, and a response arrives while its user is signed in and before those of later changes. -/
def InOrder (s : Storefront) : StorefrontEvent → Prop
  | .signIn user => s.signedIn = none ∨ s.signedIn = some user
  | .process n => ∀ r, s.sendings[n]? = some r → r.command ≠ .load → r.done = false
  | .respond n => ∀ r, s.outstanding n = some r →
      r.user = s.signedIn ∧ ∀ q ∈ s.sendings, q.Changes r → q.done = false
  | _ => True

theorem Waits.call (h : s.Waits) (command : CartCommand) : (s.call command).Waits := by
  obtain ⟨r, hr, huser, hopen⟩ := h
  exact ⟨r, List.mem_append.2 (.inl hr), huser, hopen⟩

theorem Shown.call (h : s.Shown) (command : CartCommand) : (s.call command).Shown := by
  obtain ⟨r, hr, huser, hcart, hlater⟩ := h
  refine ⟨r, List.mem_append.2 (.inl hr), huser, hcart, fun q hq hchanges => ?_⟩
  obtain hq | hq := List.mem_append.1 hq
  · exact hlater q hq hchanges
  · obtain rfl := List.mem_singleton.1 hq
    rfl

theorem Consistent.call (h : s.Consistent) (command : CartCommand) : (s.call command).Consistent where
  served := h.served.call command
  signedOut := h.signedOut
  shown hsigned hsucceeded := (h.shown hsigned hsucceeded).imp (·.call command) (·.call command)

theorem Served.frame (h : s.Served) (hsendings : t.sendings = s.sendings) (hcarts : t.carts = s.carts)
    (hprocessed : t.processed = s.processed) : t.Served := by
  obtain ⟨huser, hnumbered, hlatest⟩ := h
  rw [← hsendings] at huser hnumbered hlatest
  rw [← hprocessed] at hnumbered
  rw [← hcarts] at hlatest
  exact ⟨huser, hnumbered, hlatest⟩

/-- A load is sent on sign-in. -/
theorem waits_call_load (s : Storefront) : (s.call .load).Waits :=
  ⟨_, List.mem_append.2 (.inr (List.mem_singleton.2 rfl)), rfl, rfl⟩

theorem Consistent.signIn (h : s.Consistent) {user : ObjectId} (hwho : s.signedIn = none ∨ s.signedIn = some user) :
    (s.authenticate (some user)).Consistent := by
  obtain hnone | hsome := hwho
  · have heq : s.authenticate (some user) = Storefront.call .load { s with signedIn := some user } := by
      simp [authenticate, hnone]
    rw [heq]
    have hserved : Served { s with signedIn := some user } := h.served.frame rfl rfl rfl
    exact ⟨hserved.call .load, nofun, fun _ _ => .inl (waits_call_load _)⟩
  · have heq : s.authenticate (some user) = s := by
      rw [authenticate, if_pos (by rw [hsome]), ← hsome]
    rw [heq]
    exact h

theorem Consistent.signOut (h : s.Consistent) : (s.authenticate none).Consistent := by
  rw [authenticate]
  split
  · next hsame =>
    have hnone : s.signedIn = none := by simpa using hsame.symm
    exact ⟨h.served.frame rfl rfl rfl, fun _ => h.signedOut hnone, nofun⟩
  · exact ⟨h.served.frame rfl rfl rfl, fun _ => rfl, nofun⟩

theorem Consistent.process (h : s.Consistent) (hget : s.sendings[n]? = some r) (hnew : r.reply = none)
    {user : ObjectId} (huser : r.user = some user) (hwaits : r.command ≠ .load → r.done = false) :
    (s.process n r user).Consistent := by
  refine ⟨h.served.process hget hnew huser, h.signedOut, fun hsigned hsucceeded => ?_⟩
  obtain ⟨q, hq, hqs, hopen⟩ | ⟨q, hq, hqs, hcart, hlater⟩ := h.shown hsigned hsucceeded
  · left
    obtain rfl | hq := mem_set_or hget hq
    · exact ⟨_, mem_set hget, hqs, hopen⟩
    · exact ⟨q, hq, hqs, hopen⟩
  · right
    have hq : q ∈ (s.process n r user).sendings := by
      obtain rfl | hq := mem_set_or hget hq
      · obtain ⟨reply, hreply, -⟩ := hcart
        simp [hnew] at hreply
      · exact hq
    refine ⟨q, hq, hqs, hcart, fun p hp hchanges => ?_⟩
    obtain hp | rfl := List.mem_or_eq_of_mem_set hp
    · exact hlater p hp hchanges
    · exact hwaits hchanges.2.1

theorem Consistent.respond (h : s.Consistent) (hget : s.sendings[n]? = some r) {reply : Nat × List CartItem}
    (hreply : r.reply = some reply) (huser : r.user = s.signedIn)
    (hlater : ∀ q ∈ s.sendings, q.Changes r → q.done = false) : (s.respond n r reply.2).Consistent := by
  refine ⟨(h.served.finalize hget).frame rfl rfl rfl, fun hnone => ?_, fun _ _ => .inr ?_⟩
  · have hnone : s.signedIn = none := hnone
    have hsome := h.served.user r (List.mem_of_getElem? hget) (by simp [hreply])
    rw [huser, hnone] at hsome
    cases hsome
  · refine ⟨{ r with done := true }, mem_set hget, huser, ⟨reply, hreply, rfl⟩, fun q hq hchanges => ?_⟩
    obtain hq | rfl := List.mem_or_eq_of_mem_set hq
    · exact hlater q hq hchanges
    · exact absurd hchanges.2.2 CartSending.not_before_self

theorem Consistent.fail (h : s.Consistent) (hget : s.sendings[n]? = some r) : (s.fail n r).Consistent :=
  ⟨(h.served.finalize hget).frame rfl rfl rfl, h.signedOut, fun _ hsucceeded => by cases hsucceeded⟩

/-! ## Runs -/

theorem Consistent.step (h : s.Consistent) (horder : s.InOrder event) (hstep : s.step event = some t) :
    t.Consistent := by
  cases event with
  | call command =>
    obtain rfl := Option.some.inj hstep
    exact h.call command
  | signIn user =>
    obtain rfl := Option.some.inj hstep
    exact h.signIn horder
  | signOut =>
    obtain rfl := Option.some.inj hstep
    exact h.signOut
  | process n =>
    obtain ⟨r, hr, haccepted⟩ := Option.bind_eq_some_iff.1 hstep
    obtain ⟨hget, hnew⟩ := Option.filter_eq_some_iff.1 hr
    obtain ⟨user, huser, rfl⟩ := Option.map_eq_some_iff.1 haccepted
    exact h.process hget (by simpa using hnew) huser (horder r hget)
  | respond n =>
    obtain ⟨r, hr, hanswer⟩ := Option.bind_eq_some_iff.1 hstep
    obtain ⟨reply, hreply, rfl⟩ := Option.map_eq_some_iff.1 hanswer
    obtain ⟨huser, hlater⟩ := horder r hr
    exact h.respond (mem_of_outstanding hr).1 hreply huser hlater
  | fail n =>
    obtain ⟨r, hr, rfl⟩ := Option.map_eq_some_iff.1 hstep
    exact h.fail (mem_of_outstanding hr).1

theorem consistent_start (carts : ObjectId → List CartItem) (user : Option ObjectId) :
    (start carts user).Consistent := by
  have hempty : Served ⟨[], .idle, ∅, user, [], carts, 0, false⟩ := ⟨nofun, nofun, nofun⟩
  cases user with
  | none => exact ⟨hempty.frame rfl rfl rfl, fun _ => rfl, nofun⟩
  | some user => exact ⟨hempty.call .load, fun _ => rfl, fun _ hsucceeded => by cases hsucceeded⟩

instance : (event : StorefrontEvent) → Decidable (s.InOrder event)
  | .signIn user => inferInstanceAs (Decidable (s.signedIn = none ∨ s.signedIn = some user))
  | .process n => inferInstanceAs (Decidable (∀ r ∈ s.sendings[n]?, r.command ≠ .load → r.done = false))
  | .respond n => inferInstanceAs (Decidable (∀ r ∈ s.outstanding n,
      r.user = s.signedIn ∧ ∀ q ∈ s.sendings, q.Changes r → q.done = false))
  | .call _ | .signOut | .fail _ => isTrue trivial

/-- In a run in which nothing is overtaken, the cart shown is that of the signed-in user as soon as none of
the user's requests is outstanding and the last request succeeded, and no cart is shown when nobody is
signed in. -/
theorem cart_shown (carts : ObjectId → List CartItem) (user : Option ObjectId) (events : List StorefrontEvent)
    (s : Storefront) (horder : Trace.Meets step InOrder (start carts user) events)
    (hrun : Trace.run step (start carts user) events = some s) :
    (s.signedIn = none → s.cart = []) ∧
      ∀ current, s.signedIn = some current → s.succeeded = true →
        (∀ r ∈ s.sendings, r.user = some current → r.done = true) → s.cart = s.carts current := by
  have h : s.Consistent := Trace.run_induct Consistent (consistent_start carts user)
    (fun h horder hstep => h.step horder hstep) horder hrun
  refine ⟨h.signedOut, fun current hcurrent hsucceeded hquiet => ?_⟩
  obtain ⟨r, hr, huser, hopen⟩ | ⟨r, hr, huser, ⟨reply, hreply, hcart⟩, hlater⟩ :=
    h.shown (by simp [hcurrent]) hsucceeded
  · have hdone := hquiet r hr (huser.trans hcurrent)
    rw [hopen] at hdone
    cases hdone
  · rw [hcart, h.served.latest r hr reply hreply current (huser.trans hcurrent)]
    intro q hq hchanges
    have hdone := hquiet q hq (hchanges.1.trans (huser.trans hcurrent))
    rw [hlater q hq hchanges] at hdone
    cases hdone

/-- Two products are added, and the responses arrive the other way round. -/
def reordered : List StorefrontEvent :=
  [.signIn 7, .process 0, .respond 0, .call (.add 1 1), .call (.add 2 1), .process 1, .process 2, .respond 2,
    .respond 1]

/-- The product that was added last is not shown. -/
theorem not_cart_shown : ∃ s, Trace.run step (start (fun _ => []) none) reordered = some s ∧
    s.signedIn = some 7 ∧ s.succeeded = true ∧ (∀ r ∈ s.sendings, r.done = true) ∧
    s.cart = [⟨1, 1⟩] ∧ s.carts 7 = [⟨1, 1⟩, ⟨2, 1⟩] := by
  obtain ⟨s, hrun, h⟩ := (Option.any_eq_true _ _).1
    (by decide +kernel : (Trace.run step (start (fun _ => []) none) reordered).any fun s =>
      decide (s.signedIn = some 7 ∧ s.succeeded = true ∧ (∀ r ∈ s.sendings, r.done = true) ∧
        s.cart = [⟨1, 1⟩] ∧ s.carts 7 = [⟨1, 1⟩, ⟨2, 1⟩]))
  exact ⟨s, hrun, of_decide_eq_true h⟩

/-- The same with the responses in the order of the requests. -/
def ordered : List StorefrontEvent :=
  [.signIn 7, .process 0, .respond 0, .call (.add 1 1), .call (.add 2 1), .process 1, .process 2, .respond 1,
    .respond 2]

theorem cart_shown_ordered : ∃ s, Trace.run step (start (fun _ => []) none) ordered = some s ∧
    s.cart = s.carts 7 ∧ s.cart.length = 2 := by
  obtain ⟨s, hrun, h⟩ := (Option.any_eq_true _ _).1
    (by decide +kernel : (Trace.run step (start (fun _ => []) none) ordered).any fun s =>
      decide (s.signedIn = some 7 ∧ s.succeeded = true ∧ (∀ r ∈ s.sendings, r.done = true) ∧ s.cart.length = 2))
  obtain ⟨hsigned, hsucceeded, hdone, hlength⟩ := of_decide_eq_true h
  exact ⟨s, hrun, (cart_shown (fun _ => []) none ordered s (by decide +kernel) hrun).2 7 hsigned hsucceeded
    fun r hr _ => hdone r hr, hlength⟩

end Storefront

end Ecommerce
