import Ecommerce.Effect.Distinct
import Ecommerce.Effect.Latest
import Ecommerce.Model.Wishlists

/-!
# What is on a wishlist

Requests of all users, interleaved. A product is on a wishlist if and only if the latest edit of it there
added it, and every reply shows a wishlist as it was right after a call of its own request.
-/

namespace Ecommerce

open Effect Effect.Collection

namespace WishlistDb

variable {s : WishlistDb} {user user' : ObjectId} {tenant tenant' : String} {product : ObjectId}

/-- The ids on the wishlist of a user. Without a document there are none. -/
def listed (s : WishlistDb) (user : ObjectId) (tenant : String) : List ObjectId :=
  ((s.find user tenant).map (·.products)).getD []

/-- The products that a list of ids is populated with. -/
def shown (s : WishlistDb) (ids : List ObjectId) : List WishlistProduct :=
  (ids.filterMap s.products.get?).map PicturedProduct.wished

/-- The tenant sells the product. -/
def Sells (s : WishlistDb) (product : ObjectId) (tenant : String) : Prop :=
  ∃ p, s.products.get? product = some p ∧ p.tenant = tenant ∧ p.isActive ∧ p.deletedAt = none

/-- A user has one document of a tenant, and no product is on it twice. -/
structure Sound (s : WishlistDb) : Prop where
  one : s.wishlists.DistinctBy fun w => (w.user, w.tenant)
  nodup : ∀ w ∈ s.wishlists.docs, w.products.Nodup

theorem find_mem {w : Wishlist} (h : s.find user tenant = some w) :
    w ∈ s.wishlists.docs ∧ w.user = user ∧ w.tenant = tenant := by
  have hcond := List.find?_some h
  rw [Bool.and_eq_true, beq_iff_eq, beq_iff_eq] at hcond
  exact ⟨List.mem_of_find?_eq_some h, hcond⟩

/-- A patch of the document that a user has, for documents of all users. -/
theorem find_update {w : Wishlist} {f : Patch Wishlist} (hw : s.find user tenant = some w)
    (hf : ∀ a, (f.run a).user = a.user ∧ (f.run a).tenant = a.tenant) :
    find { s with wishlists := s.wishlists.update w.id f } user' tenant' =
      if user' = user ∧ tenant' = tenant then some (f.run w) else s.find user' tenant' := by
  have hfind : find { s with wishlists := s.wishlists.update w.id f } user' tenant' =
      (s.find user' tenant').map fun a => if Keyed.key a == w.id then f.run a else a :=
    find?_update _ _ fun a => by rw [(hf a).1, (hf a).2]
  rw [hfind]
  split
  · next hsame =>
    obtain ⟨rfl, rfl⟩ := hsame
    rw [hw]
    exact congrArg some (if_pos (beq_self_eq_true _))
  · next hother =>
    cases hx : s.find user' tenant' with
    | none => rfl
    | some x =>
      have hne : Keyed.key x ≠ w.id := by
        intro hid
        obtain ⟨hxmem, hxuser, hxtenant⟩ := find_mem hx
        obtain ⟨hwmem, hwuser, hwtenant⟩ := find_mem hw
        have hxw : x = w := Option.some_inj.1
          ((get?_eq_some.2 ⟨hxmem, rfl⟩).symm.trans (get?_eq_some.2 ⟨hwmem, hid.symm⟩))
        subst hxw
        exact hother ⟨hxuser.symm.trans hwuser, hxtenant.symm.trans hwtenant⟩
      exact congrArg some (if_neg (by simpa using hne))

theorem find_insert (hnone : s.find user tenant = none) :
    find ⟨s.products, s.wishlists.insert (newWishlist s.wishlists.next user tenant product) (key_newWishlist ..)⟩
        user' tenant' =
      if user' = user ∧ tenant' = tenant then some (newWishlist s.wishlists.next user tenant product)
      else s.find user' tenant' := by
  show List.find? _ (s.wishlists.docs ++ [_]) = _
  rw [List.find?_append]
  split
  · next hsame =>
    obtain ⟨rfl, rfl⟩ := hsame
    rw [show List.find? _ s.wishlists.docs = none from hnone]
    simp [newWishlist]
  · next hother =>
    have hlast : [newWishlist s.wishlists.next user tenant product].find?
        (fun w => w.user == user' && w.tenant == tenant') = none := by
      simp only [List.find?_singleton, newWishlist]
      rw [if_neg]
      simp only [Bool.and_eq_true, beq_iff_eq]
      rintro ⟨rfl, rfl⟩
      exact hother ⟨rfl, rfl⟩
    rw [hlast, Option.or_none]
    rfl

end WishlistDb

/-! ## Calls -/

section Calls

variable {s : WishlistDb} {user user' : ObjectId} {tenant tenant' : String} {product : ObjectId}

/-- What an addition leaves, for all users. -/
theorem exec_wishlistAdd_listed :
    (wishlistMongo.exec (.wishlistAdd user tenant product) s).2.listed user' tenant' =
      if (user' = user ∧ tenant' = tenant) ∧ product ∉ s.listed user tenant then s.listed user tenant ++ [product]
      else s.listed user' tenant' := by
  simp only [wishlistMongo, WishlistCall.exec]
  split
  · next w hw =>
    have hlisted : s.listed user tenant = w.products := by rw [WishlistDb.listed, hw]; rfl
    rw [WishlistDb.listed, WishlistDb.find_update hw fun a => ⟨rfl, rfl⟩]
    by_cases hsame : user' = user ∧ tenant' = tenant
    · rw [if_pos hsame]
      obtain ⟨rfl, rfl⟩ := hsame
      rw [hlisted]
      by_cases hmem : product ∈ w.products
      · simp [Wishlist.add, hmem]
      · simp [Wishlist.add, hmem]
    · rw [if_neg hsame, if_neg fun h => hsame h.1]
      rfl
  · next hnone =>
    have hlisted : s.listed user tenant = [] := by rw [WishlistDb.listed, hnone]; rfl
    rw [WishlistDb.listed, WishlistDb.find_insert hnone, hlisted]
    by_cases hsame : user' = user ∧ tenant' = tenant
    · simp [hsame, newWishlist]
    · rw [if_neg hsame, if_neg fun h => hsame h.1]
      rfl

/-- What a removal leaves. -/
theorem exec_wishlistPull_listed :
    (wishlistMongo.exec (.wishlistPull user tenant product) s).2.listed user' tenant' =
      if user' = user ∧ tenant' = tenant then (s.listed user tenant).filter (· ≠ product)
      else s.listed user' tenant' := by
  simp only [wishlistMongo, WishlistCall.exec]
  split
  · next w hw =>
    have hlisted : s.listed user tenant = w.products := by rw [WishlistDb.listed, hw]; rfl
    rw [WishlistDb.listed, WishlistDb.find_update hw fun a => ⟨rfl, rfl⟩]
    by_cases hsame : user' = user ∧ tenant' = tenant
    · rw [if_pos hsame, if_pos hsame, hlisted]
      rfl
    · rw [if_neg hsame, if_neg hsame]
      rfl
  · next hnone =>
    have hlisted : s.listed user tenant = [] := by rw [WishlistDb.listed, hnone]; rfl
    by_cases hsame : user' = user ∧ tenant' = tenant
    · obtain ⟨rfl, rfl⟩ := hsame
      rw [if_pos ⟨rfl, rfl⟩, hlisted]
      rfl
    · rw [if_neg hsame]

theorem exec_wishedProducts (o : WishlistCall) (s : WishlistDb) : (wishlistMongo.exec o s).2.products = s.products := by
  cases o with
  | wishlistAdd user tenant product =>
    simp only [wishlistMongo, WishlistCall.exec]
    split <;> rfl
  | wishlistPull user tenant product =>
    simp only [wishlistMongo, WishlistCall.exec]
    split <;> rfl
  | _ => rfl

theorem WishlistDb.Sound.update {f : Patch Wishlist} {id : ObjectId} (hs : s.Sound)
    (hf : ∀ a, (f.run a).user = a.user ∧ (f.run a).tenant = a.tenant)
    (hnodup : ∀ a : Wishlist, a.products.Nodup → (f.run a).products.Nodup) :
    WishlistDb.Sound { s with wishlists := s.wishlists.update id f } := by
  refine ⟨hs.one.modify fun a => by rw [(hf a).1, (hf a).2], fun w hw => ?_⟩
  obtain ⟨a, ha, rfl⟩ := mem_modify.1 hw
  split
  · exact hnodup a (hs.nodup a ha)
  · exact hs.nodup a ha

theorem WishlistDb.Sound.exec (hs : s.Sound) (o : WishlistCall) : (wishlistMongo.exec o s).2.Sound := by
  cases o with
  | wishlistAdd user tenant product =>
    simp only [wishlistMongo, WishlistCall.exec]
    split
    · refine hs.update (fun a => ⟨rfl, rfl⟩) fun a ha => ?_
      show List.Nodup (ite _ _ _)
      split
      · exact ha
      · next hnot => exact List.nodup_append.2 ⟨ha, List.nodup_singleton _, by grind⟩
    · next hnone =>
      refine ⟨hs.one.insert (key_newWishlist ..) fun w hw heq => ?_, fun w hw => ?_⟩
      · have hmiss := List.find?_eq_none.1 hnone w hw
        obtain ⟨huser, htenant⟩ := Prod.mk.inj heq
        exact hmiss (by simp [huser, htenant, newWishlist])
      · rcases (mem_insert (h := key_newWishlist ..)).1 hw with hw | rfl
        · exact hs.nodup w hw
        · exact List.nodup_singleton _
  | wishlistPull user tenant product =>
    simp only [wishlistMongo, WishlistCall.exec]
    split
    · exact hs.update (fun a => ⟨rfl, rfl⟩) fun a ha => ha.filter _
    · exact hs
  | _ => exact hs

/-- A call that edits another product, another wishlist or none leaves a product where it is. -/
theorem exec_listed_of_ne (o : WishlistCall) (hadd : o ≠ .wishlistAdd user tenant product)
    (hpull : o ≠ .wishlistPull user tenant product) :
    product ∈ (wishlistMongo.exec o s).2.listed user tenant ↔ product ∈ s.listed user tenant := by
  cases o with
  | wishlistAdd user' tenant' product' =>
    rw [exec_wishlistAdd_listed]
    split
    · next h =>
      obtain ⟨⟨rfl, rfl⟩, -⟩ := h
      have hne : product ≠ product' := by
        rintro rfl
        exact hadd rfl
      simp [hne]
    · rfl
  | wishlistPull user' tenant' product' =>
    rw [exec_wishlistPull_listed]
    split
    · next h =>
      obtain ⟨rfl, rfl⟩ := h
      have hne : product ≠ product' := by
        rintro rfl
        exact hpull rfl
      simp [hne]
    · rfl
  | _ => rfl

end Calls

/-! ## Requests -/

/-- The call by which a request reads or edits the wishlist. -/
def WishlistRequest.edit : WishlistRequest → WishlistCall
  | .show req => .wishlistFindOne req.user req.tenant
  | .add req productId => .wishlistAdd req.user req.tenant productId
  | .remove req productId => .wishlistPull req.user req.tenant productId

def WishlistRequest.req : WishlistRequest → AuthedRequest
  | .show req => req
  | .add req _ => req
  | .remove req _ => req

/-- The calls of a request. -/
def WishlistCall.Of (request : WishlistRequest) : WishlistCall → Prop
  | .productExists _ _ => True
  | .populate _ => True
  | o => o = request.edit

/-- The ids that a reply has. -/
def WishlistCall.listedIn : (o : WishlistCall) → Except ApiError o.Reply → Option (List ObjectId)
  | .wishlistFindOne _ _, .ok w => some (((w : Option Wishlist).map (·.products)).getD [])
  | .wishlistAdd _ _ _, .ok w => some (w : Wishlist).products
  | .wishlistPull _ _ _, .ok w => some (((w : Option Wishlist).map (·.products)).getD [])
  | _, _ => none

/-- What a request has found on the wishlist. Products are those at the start. -/
def wishlistMemo (start : WishlistDb) : Memo WishlistMongo ApiError (Option (List ObjectId)) where
  note o r g := (WishlistCall.listedIn o r).or g
  may
    | .wishlistAdd _ tenant product, _ => start.Sells product tenant
    | _, _ => True
  allows
    | .productExists id tenant, .ok found => (found : Bool) = true → start.Sells id tenant
    | .populate ids, .ok products => products = start.shown ids
    | _, _ => True

section Tracks

variable (start : WishlistDb)

/-- A reply shows the ids that the request has found. -/
def WishlistShows (start : WishlistDb) (r : Except ApiError (List WishlistProduct)) (g : Option (List ObjectId)) :
    Prop :=
  ∀ products, r = .ok products → ∃ ids, g = some ids ∧ products = start.shown ids

theorem showWishlist_shows (wishlist : Option Wishlist) :
    (wishlistMemo start).Tracks (WishlistShows start) (showWishlist wishlist)
      (some ((wishlist.map (·.products)).getD [])) := by
  cases wishlist with
  | none =>
    rintro products ⟨⟩
    exact ⟨[], rfl, rfl⟩
  | some w =>
    refine ⟨trivial, fun r hr => ?_⟩
    cases r with
    | error e =>
      rintro products ⟨⟩
    | ok shown =>
      rintro products ⟨⟩
      exact ⟨w.products, rfl, hr⟩

theorem wishlist_tracks (request : WishlistRequest) :
    (wishlistMemo start).Tracks (WishlistShows start) request.handler none := by
  have hfailed : ∀ (e : ApiError) g, WishlistShows start (.error e) g := by
    rintro e g products ⟨⟩
  obtain req | ⟨req, productId⟩ | ⟨req, productId⟩ := request
  · refine ⟨trivial, fun r _ => ?_⟩
    cases r with
    | error e => exact hfailed e _
    | ok wishlist => exact showWishlist_shows start wishlist
  · refine ⟨trivial, fun r hr => ?_⟩
    obtain e | (_ | _) := r
    · exact hfailed e _
    · exact hfailed _ _
    · refine ⟨hr rfl, fun r _ => ?_⟩
      cases r with
      | error e => exact hfailed e _
      | ok wishlist => exact showWishlist_shows start (some wishlist)
  · refine ⟨trivial, fun r _ => ?_⟩
    cases r with
    | error e => exact hfailed e _
    | ok wishlist => exact showWishlist_shows start wishlist

theorem showWishlist_issues (request : WishlistRequest) (wishlist : Option Wishlist) :
    (showWishlist wishlist).Issues (WishlistCall.Of request) := by
  cases wishlist with
  | none => trivial
  | some w => exact Prog.issues_perform trivial

theorem wishlist_issues (request : WishlistRequest) : request.handler.Issues (WishlistCall.Of request) := by
  have hedit : ∀ request : WishlistRequest, WishlistCall.Of request request.edit := by
    rintro (_ | _ | _) <;> rfl
  obtain req | ⟨req, productId⟩ | ⟨req, productId⟩ := request
  · exact (Prog.issues_perform (hedit _)).bind fun wishlist => showWishlist_issues _ _
  · refine (Prog.issues_perform trivial).bind fun found => ?_
    cases found with
    | false => trivial
    | true => exact (Prog.issues_perform (hedit (.add req productId))).bind fun wishlist => showWishlist_issues _ _
  · exact (Prog.issues_perform (hedit _)).bind fun wishlist => showWishlist_issues _ _

end Tracks

/-- Right after its edit, a request knows what is on the wishlist. -/
theorem exec_listedIn (request : WishlistRequest) (s : WishlistDb) :
    WishlistCall.listedIn request.edit (wishlistMongo.exec request.edit s).1 =
      some ((wishlistMongo.exec request.edit s).2.listed request.req.user request.req.tenant) := by
  obtain req | ⟨req, product⟩ | ⟨req, product⟩ := request
  · rfl
  · simp only [WishlistRequest.edit, WishlistRequest.req, wishlistMongo, WishlistCall.exec]
    split
    · next w hw =>
      rw [WishlistDb.listed, WishlistDb.find_update hw fun a => ⟨rfl, rfl⟩, if_pos ⟨rfl, rfl⟩]
      rfl
    · next hnone =>
      rw [WishlistDb.listed, WishlistDb.find_insert hnone, if_pos ⟨rfl, rfl⟩]
      rfl
  · simp only [WishlistRequest.edit, WishlistRequest.req, wishlistMongo, WishlistCall.exec]
    split
    · next w hw =>
      rw [WishlistDb.listed, WishlistDb.find_update hw fun a => ⟨rfl, rfl⟩, if_pos ⟨rfl, rfl⟩]
      rfl
    · next hnone =>
      rw [WishlistDb.listed, hnone]
      rfl

/-! ## Runs -/

section Runs

variable {admits : WishlistPool → Action WishlistRequest → Prop} {start d : WishlistPool}
variable {as : List (Action WishlistRequest)}

theorem wishlistMongo_allows {start s : WishlistDb} (o : WishlistCall) (hs : s.products = start.products) :
    (wishlistMemo start).allows o (wishlistMongo.exec o s).1 := by
  cases o with
  | productExists id tenant =>
    intro hfound
    obtain ⟨p, hp⟩ := Option.isSome_iff_exists.1 hfound
    obtain ⟨hget, hcond⟩ := Option.filter_eq_some_iff.1 hp
    simp only [Bool.and_eq_true, beq_iff_eq, Option.isNone_iff_eq_none] at hcond
    exact ⟨p, hs ▸ hget, hcond.1.1, hcond.1.2, hcond.2⟩
  | populate ids =>
    show (ids.filterMap s.products.get?).map PicturedProduct.wished = start.shown ids
    rw [hs]
    rfl
  | wishlistAdd user tenant product => exact trivial
  | wishlistPull user tenant product => exact trivial
  | wishlistFindOne user tenant => exact trivial

theorem listedIn_error (o : WishlistCall) (e : ApiError) : WishlistCall.listedIn o (.error e) = none := by
  cases o <;> rfl

theorem wishlist_noted (hstart : start.threads = []) (hrun : wishlistServer.Run admits start as d) :
    d.state.products = start.state.products ∧
      ∃ gs, (wishlistMemo start.state).Minutes (fun _ : WishlistRequest => WishlistShows start.state) d gs ∧
        ∀ i g ids, gs[i]? = some g → id g = some ids →
          Memo.NotedAt (wishlistMemo start.state) wishlistServer admits id start as d i ids := by
  refine Memo.noted_within (I := fun s : WishlistDb => s.products = start.state.products)
    id (wishlist_tracks start.state) (fun o s hs => wishlistMongo_allows o hs) (fun o => ?_) (fun l o k g _ => ?_)
    (fun _ => rfl) (fun o g => ?_) (fun o s hs => (exec_wishedProducts o s).trans hs) rfl hstart hrun
  · cases o <;> trivial
  · rintro products ⟨⟩
  · exact congrArg (Option.or · g) (listedIn_error o _)

/-- Only products that the tenant sells are added. -/
theorem sells_of_callsAt (hstart : start.threads = []) {n i : Nat} {user : ObjectId} {tenant : String}
    {product : ObjectId} (hcall : wishlistServer.CallsAt admits start as n i (.wishlistAdd user tenant product)) :
    start.state.Sells product tenant := by
  obtain ⟨-, e, hrun, hhead⟩ := hcall
  obtain ⟨-, gs, hminutes, -⟩ := wishlist_noted hstart hrun
  obtain ⟨g, -, hmay⟩ := hminutes.head hhead
  exact hmay

theorem run_wishlist_issues (hstart : start.threads = []) (hrun : wishlistServer.Run admits start as d) :
    ∀ t ∈ d.threads, t.prog.Issues (WishlistCall.Of t.label) := by
  refine hrun.invariant (P := fun c => ∀ t ∈ c.threads, t.prog.Issues (WishlistCall.Of t.label)) ?_ ?_
  · intro c a d _ hs hc
    exact System.step_issues (φ := WishlistCall.Of) wishlist_issues hs hc
  · rw [hstart]
    intro t ht
    cases ht

/-- A reply shows the wishlist as it was right after a call of the request. -/
theorem run_wishlist_replies (hstart : start.threads = []) (hrun : wishlistServer.Run admits start as d) {i : Nat}
    {request : WishlistRequest} {products : List WishlistProduct}
    (hdone : d.threads[i]? = some ⟨request, .done (.ok products)⟩) :
    ∃ n e, wishlistServer.CallsAt admits start as n i request.edit ∧
      wishlistServer.Run admits start (as.take (n + 1)) e ∧
      products = start.state.shown (e.state.listed request.req.user request.req.tenant) := by
  obtain ⟨-, gs, hminutes, hnoted⟩ := wishlist_noted hstart hrun
  obtain ⟨g, hg, hshows⟩ := hminutes.memo hdone
  obtain ⟨ids, hids, hproducts⟩ := hshows products rfl
  obtain ⟨before, middle, c, o, g', rfl, hbefore, hhead, -, hnot, hfound, hmiddle⟩ := hnoted i g ids hg hids
  obtain ⟨⟨label, p⟩, hthread, hof⟩ := Pool.head?_issues (run_wishlist_issues hstart hbefore) hhead
  obtain ⟨p', hp'⟩ := hmiddle.thread hthread
  obtain rfl : label = request := (Thread.mk.inj (Option.some_inj.1 (hp'.symm.trans hdone))).1
  have hedit : o = label.edit := by
    cases o with
    | productExists id tenant => exact absurd hfound hnot
    | populate ids => exact absurd hfound hnot
    | wishlistFindOne user tenant => exact hof
    | wishlistAdd user tenant product => exact hof
    | wishlistPull user tenant product => exact hof
  subst hedit
  cases hmiddle with
  | cons ha hs hrest =>
    rename_i e
    have hrun' : wishlistServer.Run admits start ((before ++ .act i :: middle).take (before.length + 1)) e := by
      rw [List.take_append, List.take_of_length_le (Nat.le_succ _), Nat.add_sub_cancel_left]
      exact hbefore.snoc ha hs
    refine ⟨before.length, e, ⟨by simp, c, ?_, hhead⟩, hrun', ?_⟩
    · rw [List.take_left]
      exact hbefore
    · obtain ⟨-, hquiet⟩ | ⟨j, o, hact, hhead', hstate⟩ := System.step_state hs
      · exact absurd hhead (hquiet i _ rfl)
      obtain rfl := Action.act.inj hact
      obtain rfl := Option.some_inj.1 (hhead.symm.trans hhead')
      have hlisted : ((WishlistCall.listedIn label.edit (wishlistMongo.exec label.edit c.state).1).or g') = some ids :=
        hfound
      rw [exec_listedIn] at hlisted
      rw [hstate, hproducts]
      exact congrArg start.state.shown (Option.some_inj.1 hlisted).symm

theorem run_wishlist_sound (hsound : start.state.Sound) (hrun : wishlistServer.Run admits start as d) :
    d.state.Sound := by
  refine hrun.invariant (P := fun c => c.state.Sound) (fun c a d _ hs hc => ?_) hsound
  obtain ⟨hsame, -⟩ | ⟨i, o, -, -, hsame⟩ := System.step_state hs
  · exact hsame ▸ hc
  · exact hsame ▸ hc.exec o

/-- What is on a wishlist, after the latest edits. -/
theorem run_listed (hrun : wishlistServer.Run admits start as d) (user : ObjectId) (tenant : String)
    (product : ObjectId) :
    product ∈ d.state.listed user tenant ↔
      wishlistServer.Latest admits start as (fun s => product ∈ s.listed user tenant)
        (· = .wishlistAdd user tenant product) (· = .wishlistPull user tenant product) := by
  refine (System.run_latest (I := fun _ => True) (fun s => product ∈ s.listed user tenant) _ _
    (fun _ _ _ => trivial) ?_ ?_ ?_ trivial hrun).2
  · rintro o s - rfl
    show product ∈ (wishlistMongo.exec _ s).2.listed user tenant
    rw [exec_wishlistAdd_listed]
    split
    · simp
    · grind
  · rintro o s - rfl
    show product ∉ (wishlistMongo.exec _ s).2.listed user tenant
    rw [exec_wishlistPull_listed, if_pos ⟨rfl, rfl⟩]
    simp
  · intro o s _ hadd hpull
    exact exec_listed_of_ne o hadd hpull

/-- In every run of wishlist requests, whatever fails, a product is on a user's wishlist exactly when the latest
edit of it there added it, no wishlist has a product twice or one that its tenant did not sell when it was
added, and every reply shows the user's wishlist as it was right after a call of its request. -/
theorem run_wishlists (hstart : start.threads = []) (hsound : start.state.Sound)
    (hrun : wishlistServer.Run admits start as d) :
    d.state.Sound ∧
      (∀ user tenant product, (product ∈ d.state.listed user tenant ↔
          wishlistServer.Latest admits start as (fun s => product ∈ s.listed user tenant)
            (· = .wishlistAdd user tenant product) (· = .wishlistPull user tenant product)) ∧
        (product ∈ d.state.listed user tenant →
          product ∈ start.state.listed user tenant ∨ start.state.Sells product tenant)) ∧
      ∀ i request products, d.threads[i]? = some ⟨request, .done (.ok products)⟩ →
        ∃ n e, wishlistServer.CallsAt admits start as n i request.edit ∧
          wishlistServer.Run admits start (as.take (n + 1)) e ∧
          products = start.state.shown (e.state.listed request.req.user request.req.tenant) := by
  refine ⟨run_wishlist_sound hsound hrun, fun user tenant product => ?_,
    fun i request products hdone => run_wishlist_replies hstart hrun hdone⟩
  have hlatest := run_listed hrun user tenant product
  refine ⟨hlatest, fun hmem => ?_⟩
  obtain ⟨n, i, o, hcall, rfl, -⟩ | ⟨hmem, -⟩ := hlatest.1 hmem
  · exact .inr (sells_of_callsAt hstart hcall)
  · exact .inl hmem

end Runs

/-- A shop with one product and no wishlists. -/
def mugWishlists : WishlistDb :=
  ⟨(∅ : Collection PicturedProduct).insert ⟨⟨⟨0, "t", none, "Mug", 9, 3, true, none⟩, 0, 0⟩, "mug.png"⟩ rfl, ∅⟩

theorem mugWishlists_sound : mugWishlists.Sound := by
  constructor
  · intro a ha
    cases ha
  · intro w hw
    cases hw

/-- A user saves the mug in two tabs, and takes it off in a third before either has come through. -/
def mugSaved : List (Action WishlistRequest) :=
  [.spawn (.add ⟨1, .user, "t"⟩ 0), .spawn (.remove ⟨1, .user, "t"⟩ 0), .spawn (.add ⟨1, .user, "t"⟩ 0),
    .act 0, .act 1, .act 2, .act 0, .act 2, .act 2, .fault 0]

theorem run_wishlists_mugSaved :
    ∃ d, wishlistServer.Run (fun _ _ => True) ⟨mugWishlists, []⟩ mugSaved d ∧ d.state.listed 1 "t" = [0] ∧
      wishlistServer.Latest (fun _ _ => True) ⟨mugWishlists, []⟩ mugSaved (fun s => 0 ∈ s.listed 1 "t")
        (· = .wishlistAdd 1 "t" 0) (· = .wishlistPull 1 "t" 0) := by
  obtain ⟨d, hd, h⟩ := (Option.any_eq_true _ _).1 (by decide +kernel :
    (wishlistServer.play (fun _ _ => true) ⟨mugWishlists, []⟩ mugSaved).any fun d =>
      decide (d.state.listed 1 "t" = [0]))
  have hlisted := of_decide_eq_true h
  have hrun : wishlistServer.Run (fun _ _ => True) ⟨mugWishlists, []⟩ mugSaved d :=
    (System.Run.of_play hd).mono fun _ _ _ => trivial
  obtain ⟨-, hlatest, -⟩ := run_wishlists rfl mugWishlists_sound hrun
  exact ⟨d, hrun, hlisted, (hlatest 1 "t" 0).1.1 (by rw [hlisted]; exact List.mem_singleton_self 0)⟩

end Ecommerce
