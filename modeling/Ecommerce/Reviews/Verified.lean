import Ecommerce.Effect.Distinct
import Ecommerce.Reviews.Totals
import Mathlib.Tactic.Linarith

/-!
# Who reviews what

Requests for all products and users, interleaved. A user has one review of a product, and has bought what
it is about. The totals of a product count reviews that are there, and lie on the scale.
-/

namespace Ecommerce

open Effect Effect.Collection

/-! ## What a request checks -/

namespace ReviewDb

/-- The tenant sells the product. -/
def Sells (s : ReviewDb) (product : ObjectId) (tenant : String) : Prop :=
  ∃ p, s.products.get? product = some p ∧ p.tenant = tenant ∧ p.isActive ∧ p.deletedAt = none

/-- The user has an order of the product that counts as a purchase. -/
def Purchased (s : ReviewDb) (user : ObjectId) (tenant : String) (product : ObjectId) : Prop :=
  ∃ o ∈ s.orders.docs, o.user = user ∧ o.tenant = tenant ∧ (∃ i ∈ o.items, i.product = product) ∧
    o.status ∈ PURCHASED

end ReviewDb

/-- A rating that reviews can have: none, or one on the scale. -/
def Rating.OnScale (r : Rating) : Prop := r.count = 0 ∧ r.average = 0 ∨ 0 < r.count ∧ 1 ≤ r.average ∧ r.average ≤ 5

/-- A request has written the review, of a product that it could find and its user has bought. -/
def Review.WrittenBy (start : ReviewDb) (requests : List ReviewRequest) (r : Review) : Prop :=
  ∃ request ∈ requests, r.user = request.req.user ∧ r.tenant = request.req.tenant ∧
    r.product = request.productId ∧ r.rating = request.value.rating ∧ r.status = .published ∧
    start.Sells r.product r.tenant ∧ start.Purchased r.user r.tenant r.product

theorem Review.WrittenBy.mono {start : ReviewDb} {requests requests' : List ReviewRequest} {r : Review}
    (h : r.WrittenBy start requests) (hsub : requests ⊆ requests') : r.WrittenBy start requests' := by
  obtain ⟨request, hmem, h⟩ := h
  exact ⟨request, hsub hmem, h⟩

/-- The state of reviews and totals that requests have made of the one at the start. -/
structure ReviewDb.Verified (start : ReviewDb) (requests : List ReviewRequest) (s : ReviewDb) : Prop where
  goods : ∀ id, (s.products.get? id).map (·.toProduct) = (start.products.get? id).map (·.toProduct)
  orders : s.orders = start.orders
  one : s.reviews.DistinctBy fun r => (r.user, r.tenant, r.product)
  scale : ∀ r ∈ s.reviews.docs, 1 ≤ r.rating ∧ r.rating ≤ 5
  written : ∀ r ∈ s.reviews.docs, r ∈ start.reviews.docs ∨ r.WrittenBy start requests
  kept : ∀ id r, start.reviews.get? id = some r →
    ∃ q, s.reviews.get? id = some q ∧ q.user = r.user ∧ q.tenant = r.tenant ∧ q.product = r.product
  totals : ∀ id p, s.products.get? id = some p → start.totals id = some ⟨p.ratingAverage, p.ratingCount⟩ ∨
    p.ratingCount ≤ (s.published id).length ∧ (⟨p.ratingAverage, p.ratingCount⟩ : Rating).OnScale

namespace ReviewDb

variable {start s : ReviewDb} {requests requests' : List ReviewRequest} {product : ObjectId} {tenant : String}

theorem Verified.mono (h : start.Verified requests s) (hsub : requests ⊆ requests') :
    start.Verified requests' s :=
  ⟨h.goods, h.orders, h.one, h.scale, fun r hr => (h.written r hr).imp_right fun hw => hw.mono hsub, h.kept,
    h.totals⟩

theorem Verified.sells (h : start.Verified requests s) (hsells : s.Sells product tenant) :
    start.Sells product tenant := by
  obtain ⟨p, hp, hcond⟩ := hsells
  have hgoods := h.goods product
  rw [hp] at hgoods
  obtain ⟨q, hq, hqp⟩ := Option.map_eq_some_iff.1 hgoods.symm
  refine ⟨q, hq, ?_⟩
  show q.toProduct.tenant = tenant ∧ q.toProduct.isActive ∧ q.toProduct.deletedAt = none
  rw [hqp]
  exact hcond

theorem averageOf_bounds (reviews : List Review) (h : ∀ r ∈ reviews, 1 ≤ r.rating ∧ r.rating ≤ 5) :
    (reviews.length : ℚ) ≤ (reviews.map fun r => (r.rating : ℚ)).sum ∧
      (reviews.map fun r => (r.rating : ℚ)).sum ≤ 5 * reviews.length := by
  induction reviews with
  | nil => simp
  | cons r reviews ih =>
    obtain ⟨hlow, hhigh⟩ := ih fun q hq => h q (List.mem_cons_of_mem _ hq)
    obtain ⟨hr, hr'⟩ := h r List.mem_cons_self
    have hr : (1 : ℚ) ≤ r.rating := by exact_mod_cast hr
    have hr' : (r.rating : ℚ) ≤ 5 := by exact_mod_cast hr'
    rw [List.map_cons, List.sum_cons, List.length_cons, Nat.cast_add, Nat.cast_one]
    constructor <;> linarith

/-- What an aggregation finds is on the scale. -/
theorem stats_onScale (hscale : ∀ r ∈ s.reviews.docs, 1 ≤ r.rating ∧ r.rating ≤ 5) (product : ObjectId) :
    (s.stats product).OnScale := by
  rw [stats]
  have hbounds := averageOf_bounds (s.published product) fun r hr => hscale r (List.mem_filter.1 hr).1
  rcases Nat.eq_zero_or_pos (s.published product).length with hnone | hsome
  · refine .inl ⟨hnone, ?_⟩
    rw [List.length_eq_zero_iff.1 hnone, averageOf]
    simp
  · refine .inr ⟨hsome, ?_⟩
    have hpos : (0 : ℚ) < (s.published product).length := by exact_mod_cast hsome
    rw [averageOf, le_div_iff₀ hpos, div_le_iff₀ hpos, one_mul]
    exact hbounds

end ReviewDb

/-! ## What a request has found -/

/-- The request, whether it has found the product and the purchase, and what it has aggregated. -/
structure VerifiedNote where
  request : ReviewRequest
  found : Bool
  purchased : Bool
  aggregated : Option (ObjectId × Rating)

namespace VerifiedNote

def start (request : ReviewRequest) : VerifiedNote := ⟨request, false, false, none⟩

def note : (o : ReviewCall) → Except ApiError o.Reply → VerifiedNote → VerifiedNote
  | .productExists _ _, .ok (found : Bool), g => { g with found }
  | .orderExists _ _ _, .ok (purchased : Bool), g => { g with purchased }
  | .reviewAggregate product, .ok rows, g => { g with aggregated := some (product, rows.head?.getD ⟨0, 0⟩) }
  | _, _, g => g

/-- A request asks about its own user and product, and writes once it has found both. -/
def may : ReviewCall → VerifiedNote → Prop
  | .productExists product tenant, g => product = g.request.productId ∧ tenant = g.request.req.tenant
  | .orderExists user tenant product, g =>
    user = g.request.req.user ∧ tenant = g.request.req.tenant ∧ product = g.request.productId
  | .reviewUpsert user tenant product value, g => g.found ∧ g.purchased ∧ user = g.request.req.user ∧
    tenant = g.request.req.tenant ∧ product = g.request.productId ∧ value = g.request.value
  | .productSetRating product rating, g => g.aggregated = some (product, rating)
  | .reviewAggregate _, _ => True

/-- What the note says of the database. -/
structure Backed (start : ReviewDb) (requests : List ReviewRequest) (g : VerifiedNote) (s : ReviewDb) : Prop where
  request : g.request ∈ requests
  found : g.found → start.Sells g.request.productId g.request.req.tenant
  purchased : g.purchased → start.Purchased g.request.req.user g.request.req.tenant g.request.productId
  aggregated : ∀ product rating, g.aggregated = some (product, rating) →
    rating.count ≤ (s.published product).length ∧ rating.OnScale

end VerifiedNote

def verifiedMemo : Memo ReviewMongo ApiError VerifiedNote where
  note := VerifiedNote.note
  may := VerifiedNote.may
  allows _ _ := True

theorem createReview_verified (request : ReviewRequest) :
    verifiedMemo.Tracks (fun _ _ => True) (reviewServer.code request) (.start request) := by
  have hcatch : ∀ (e : ApiError) (g : VerifiedNote), verifiedMemo.Tracks (α := Review) (fun _ _ => True)
      (if e = .duplicateKey then throw (CustomeErrorHandler.badRequest "Review already exists")
        else throw e) g := by
    intro e g
    split <;> trivial
  refine Memo.Tracks.catching ⟨⟨rfl, rfl⟩, fun r _ => ?_⟩
  obtain e | (_ | _) := r
  · exact hcatch e _
  · exact hcatch _ _
  refine ⟨⟨rfl, rfl, rfl⟩, fun r _ => ?_⟩
  obtain e | (_ | _) := r
  · exact hcatch e _
  · exact hcatch _ _
  refine ⟨⟨rfl, rfl, rfl, rfl, rfl, rfl⟩, fun r _ => ?_⟩
  obtain e | review := r
  · exact hcatch e _
  refine ⟨trivial, fun r _ => ?_⟩
  obtain e | rows := r
  · exact hcatch e _
  refine ⟨rfl, fun r _ => ?_⟩
  obtain e | _ := r
  · exact hcatch e _
  · trivial

/-! ## Calls -/

section Calls

variable {start s : ReviewDb} {requests : List ReviewRequest} {g : VerifiedNote}

/-- Published reviews stay published, of the product they are of. -/
theorem exec_published_le (o : ReviewCall) (s : ReviewDb) (product : ObjectId) :
    (s.published product).length ≤ ((reviewMongo.exec o s).2.published product).length := by
  cases o with
  | reviewUpsert user tenant other value =>
    simp only [reviewMongo, ReviewCall.exec]
    split
    · next r hr =>
      simp only [ReviewDb.published, update, Collection.modify]
      rw [← List.countP_eq_length_filter, ← List.countP_eq_length_filter, List.countP_map]
      refine List.countP_mono_left fun x _ hx => ?_
      simp only [Function.comp_apply]
      split
      · simp only [Bool.and_eq_true, beq_iff_eq] at hx
        simp [Review.save, hx.1]
      · exact hx
    · simp only [ReviewDb.published]
      exact ((List.sublist_append_left _ _).filter _).length_le
  | _ => exact le_rfl

theorem VerifiedNote.Backed.grow (h : g.Backed start requests s) (o : ReviewCall) :
    g.Backed start requests (reviewMongo.exec o s).2 where
  request := h.request
  found := h.found
  purchased := h.purchased
  aggregated product rating hr := by
    obtain ⟨hcount, hscale⟩ := h.aggregated product rating hr
    exact ⟨hcount.trans (exec_published_le o s product), hscale⟩

/-- A review that was there is written again, or a new one is inserted. -/
theorem exec_reviewUpsert_verified {user : ObjectId} {tenant : String} {product : ObjectId} {value : ReviewBody}
    (ho : VerifiedNote.may (.reviewUpsert user tenant product value) g) (hg : g.Backed start requests s)
    (hs : start.Verified requests s) :
    start.Verified requests (reviewMongo.exec (.reviewUpsert user tenant product value) s).2 := by
  have hle := exec_published_le (.reviewUpsert user tenant product value) s
  obtain ⟨hfound, hpurchased, rfl, rfl, rfl, rfl⟩ := ho
  have hchecked := And.intro (hg.found hfound) (hg.purchased hpurchased)
  simp only [reviewMongo, ReviewCall.exec] at hle ⊢
  split
  · next r hr =>
    rw [hr] at hle
    have hcond := List.find?_some hr
    simp only [Bool.and_eq_true, beq_iff_eq] at hcond
    obtain ⟨⟨huser, htenant⟩, hproduct⟩ := hcond
    have hrmem := List.mem_of_find?_eq_some hr
    have hmem : ∀ x ∈ (s.reviews.update r.id (Review.save g.request.value)).docs,
        x ∈ s.reviews.docs ∨ x = (Review.save g.request.value).run r := by
      intro x hx
      rcases (mem_update (get?_eq_some.2 ⟨hrmem, rfl⟩)).1 hx with ⟨hx, -⟩ | rfl
      · exact .inl hx
      · exact .inr rfl
    refine ⟨hs.goods, hs.orders, hs.one.modify fun _ => rfl, fun x hx => ?_, fun x hx => ?_, fun id x hx => ?_,
      fun id p hp => (hs.totals id p hp).imp_right (And.imp_left fun hcount => hcount.trans (hle id))⟩
    · rcases hmem x hx with hx | rfl
      · exact hs.scale x hx
      · exact ⟨g.request.value.one_le, g.request.value.le_five⟩
    · rcases hmem x hx with hx | rfl
      · exact hs.written x hx
      · refine .inr ⟨g.request, hg.request, huser, htenant, hproduct, rfl, rfl, ?_⟩
        show start.Sells r.product r.tenant ∧ start.Purchased r.user r.tenant r.product
        rw [huser, htenant, hproduct]
        exact hchecked
    · obtain ⟨q, hq, hsame⟩ := hs.kept id x hx
      show ∃ q, (s.reviews.update r.id _).get? id = some q ∧ _
      rw [get?_update, hq]
      split
      · exact ⟨_, rfl, hsame⟩
      · exact ⟨q, rfl, hsame⟩
  · next hnone =>
    rw [hnone] at hle
    refine ⟨hs.goods, hs.orders, hs.one.insert rfl fun b hb heq => ?_, fun x hx => ?_, fun x hx => ?_,
      fun id x hx => ?_,
      fun id p hp => (hs.totals id p hp).imp_right (And.imp_left fun hcount => hcount.trans (hle id))⟩
    · have hmiss := List.find?_eq_none.1 hnone b hb
      simp_all [newReview]
    · rcases (mem_insert (h := key_newReview ..)).1 hx with hx | rfl
      · exact hs.scale x hx
      · exact ⟨g.request.value.one_le, g.request.value.le_five⟩
    · rcases (mem_insert (h := key_newReview ..)).1 hx with hx | rfl
      · exact hs.written x hx
      · exact .inr ⟨g.request, hg.request, rfl, rfl, rfl, rfl, rfl, hchecked⟩
    · obtain ⟨q, hq, hsame⟩ := hs.kept id x hx
      exact ⟨q, (get?_insert _ _ (key_newReview ..) _).trans ((if_neg (get?_lt hq).ne).trans hq), hsame⟩

theorem exec_verified (o : ReviewCall) (ho : VerifiedNote.may o g) (hg : g.Backed start requests s)
    (hs : start.Verified requests s) : start.Verified requests (reviewMongo.exec o s).2 := by
  cases o with
  | reviewUpsert user tenant product value => exact exec_reviewUpsert_verified ho hg hs
  | productSetRating id rating =>
    refine ⟨fun i => ?_, hs.orders, hs.one, hs.scale, hs.written, hs.kept, fun i p hp => ?_⟩
    · show ((s.products.update id _).get? i).map _ = _
      rw [get?_update, ← hs.goods i]
      split
      · rw [Option.map_map]
        rfl
      · rfl
    · replace hp : (s.products.update id (RatedProduct.setRating rating)).get? i = some p := hp
      rw [get?_update] at hp
      split at hp
      · next heq =>
        subst heq
        obtain ⟨q, hq, rfl⟩ := Option.map_eq_some_iff.1 hp
        exact .inr (hg.aggregated i rating ho)
      · exact hs.totals i p hp
  | _ => exact hs

/-- What is noted is so. -/
theorem exec_note_verified (o : ReviewCall) (ho : VerifiedNote.may o g) (hg : g.Backed start requests s)
    (hs : start.Verified requests s) :
    (VerifiedNote.note o (reviewMongo.exec o s).1 g).Backed start requests (reviewMongo.exec o s).2 := by
  have hnext := hg.grow o
  cases o with
  | productExists product tenant =>
    obtain ⟨rfl, rfl⟩ := ho
    refine ⟨hg.request, fun hfound => ?_, hg.purchased, hg.aggregated⟩
    refine hs.sells ?_
    obtain ⟨p, hp⟩ := Option.isSome_iff_exists.1 hfound
    obtain ⟨hget, hcond⟩ := Option.filter_eq_some_iff.1 hp
    simp only [Bool.and_eq_true, beq_iff_eq, Option.isNone_iff_eq_none] at hcond
    exact ⟨p, hget, hcond.1.1, hcond.1.2, hcond.2⟩
  | orderExists user tenant product =>
    obtain ⟨rfl, rfl, rfl⟩ := ho
    refine ⟨hg.request, hg.found, fun hpurchased => ?_, hg.aggregated⟩
    obtain ⟨order, horder, hcond⟩ := List.any_eq_true.1 hpurchased
    simp only [Bool.and_eq_true, beq_iff_eq, List.any_eq_true, List.contains_iff_mem] at hcond
    exact ⟨order, hs.orders ▸ horder, hcond.1.1.1, hcond.1.1.2, hcond.1.2, hcond.2⟩
  | reviewAggregate product =>
    refine ⟨hg.request, hg.found, hg.purchased, ?_⟩
    rintro other rating ⟨⟩
    rw [ReviewDb.aggregate_head]
    exact ⟨le_rfl, ReviewDb.stats_onScale hs.scale product⟩
  | _ => exact hnext

theorem verifiedMemo_error (o : ReviewCall) (e : ApiError) (g : VerifiedNote) :
    verifiedMemo.note o (.error e) g = g := by
  cases o <;> rfl

end Calls

/-! ## Runs -/

section Runs

variable {start c : ReviewPool} {as : List (Action ReviewRequest)}

/-- In every run of review requests, whatever fails, a user has one review of a product, every review that
a request has written is of a product that its tenant sells and its user has bought, and the totals of
each product are as they were or on the scale, and count no more reviews than there are. -/
theorem run_reviews_verified (hstart : start.threads = [])
    (hone : start.state.reviews.DistinctBy fun r => (r.user, r.tenant, r.product))
    (hscale : ∀ r ∈ start.state.reviews.docs, 1 ≤ r.rating ∧ r.rating ≤ 5) (hrun : ReviewRun start as c) :
    start.state.Verified c.labels c.state := by
  have hfirst : start.state.Verified start.labels start.state := by
    refine ⟨fun _ => rfl, rfl, hone, hscale, fun r hr => .inl hr, fun id r hr => ⟨r, hr, rfl, rfl, rfl⟩,
      fun id p hp => .inl ?_⟩
    rw [ReviewDb.totals, hp]
    rfl
  exact (Memo.run_backed (Q := fun _ _ _ => True)
    (I := fun requests s => start.state.Verified requests s)
    (B := fun requests g s => g.Backed start.state requests s)
    createReview_verified (fun _ _ => trivial) (fun o => ⟨trivial, verifiedMemo_error o _⟩) (fun _ _ => trivial)
    (fun _ _ s hsub hs => ⟨hs.mono hsub, fun g hg => ⟨hsub hg.request, hg.found, hg.purchased, hg.aggregated⟩⟩)
    (fun _ _ _ hmem _ => ⟨hmem, by simp [VerifiedNote.start], by simp [VerifiedNote.start],
      by simp [VerifiedNote.start]⟩)
    (fun _ o g s hmay hg hs => ⟨exec_verified o hmay hg hs, exec_note_verified o hmay hg hs,
      fun g' hg' => hg'.grow o⟩)
    hstart (by simpa [Pool.labels, hstart] using hfirst) hrun).1

end Runs

/-- A buyer reviews twice at once, and somebody who has bought nothing tries to. -/
def reviewedTwice : List (Action ReviewRequest) :=
  [.spawn (ratedBy 1 4 (by decide)), .spawn (ratedBy 1 3 (by decide)), .spawn (ratedBy 3 1 (by decide)),
    .act 0, .act 1, .act 2, .act 0, .act 1, .act 2, .act 0, .act 1, .act 0, .act 1, .kill 0, .act 1]

theorem run_reviews_verified_reviewedTwice :
    ∃ c, ReviewRun ⟨boughtDb, []⟩ reviewedTwice c ∧ c.state.reviews.docs.map (·.rating) = [3] ∧
      c.state.totals 0 = some ⟨3, 1⟩ ∧ boughtDb.Verified c.labels c.state := by
  obtain ⟨c, hc, h⟩ := (Option.any_eq_true _ _).1 (by decide +kernel :
    (reviewServer.play (fun _ _ => true) ⟨boughtDb, []⟩ reviewedTwice).any fun c =>
      decide (c.state.reviews.docs.map (·.rating) = [3] ∧ c.state.totals 0 = some ⟨3, 1⟩))
  obtain ⟨hreviews, htotals⟩ := of_decide_eq_true h
  have hrun : ReviewRun ⟨boughtDb, []⟩ reviewedTwice c := (System.Run.of_play hc).mono fun _ _ _ => trivial
  exact ⟨c, hrun, hreviews, htotals,
    run_reviews_verified rfl (by intro a ha; cases ha) (by intro r hr; cases hr) hrun⟩

end Ecommerce
