import Ecommerce.Effect.Noted
import Ecommerce.Model.Reviews

/-!
# The totals of a product

Every request overwrites the totals of its product with an aggregate that it has taken before. So in
the end the product has the totals of its reviews as the request of the last overwrite has seen them.
-/

namespace Ecommerce

open Effect Effect.Collection

namespace ReviewDb

/-- What the totals of a product should be. Without reviews both are 0. -/
def stats (db : ReviewDb) (product : ObjectId) : Rating :=
  ⟨averageOf (db.published product), (db.published product).length⟩

/-- The totals that a product has. -/
def totals (db : ReviewDb) (product : ObjectId) : Option Rating :=
  (db.products.get? product).map fun p => ⟨p.ratingAverage, p.ratingCount⟩

/-- The product counts its published reviews, and has their average. -/
def Converged (db : ReviewDb) (product : ObjectId) : Prop :=
  ∀ p, db.products.get? product = some p →
    p.ratingCount = (db.published product).length ∧ p.ratingAverage = averageOf (db.published product)

theorem converged_iff {db : ReviewDb} {product : ObjectId} {r : Rating}
    (h : db.totals product = some r) : db.Converged product ↔ r = db.stats product := by
  obtain ⟨p, hp, rfl⟩ := Option.map_eq_some_iff.1 h
  constructor
  · intro hconverged
    obtain ⟨hcount, haverage⟩ := hconverged p hp
    rw [stats, hcount, haverage]
  · intro hstats p' hp'
    obtain rfl := Option.some_inj.1 (hp.symm.trans hp')
    exact ⟨congrArg Rating.count hstats, congrArg Rating.average hstats⟩

/-- The first row of the aggregation, or the default, has these. -/
theorem aggregate_head (db : ReviewDb) (product : ObjectId) :
    (db.aggregate product).head?.getD ⟨0, 0⟩ = db.stats product := by
  rw [aggregate, stats]
  split
  · next hnone => simp [hnone, averageOf]
  · rfl

end ReviewDb

/-! ## What a call changes -/

/-- Only an overwrite of the product changes its totals. -/
theorem exec_totals {o : ReviewCall} {product : ObjectId} (ho : ∀ r, o ≠ .productSetRating product r)
    (s : ReviewDb) : (reviewMongo.exec o s).2.totals product = s.totals product := by
  cases o with
  | productSetRating id rating =>
    have hid : product ≠ id := fun h => ho rating (h ▸ rfl)
    rw [ReviewDb.totals, ReviewDb.totals]
    show Option.map _ ((s.products.update id _).get? product) = _
    rw [get?_update, if_neg hid]
  | reviewUpsert user tenant product value =>
    simp only [reviewMongo, ReviewCall.exec]
    split <;> rfl
  | _ => rfl

theorem exec_productSetRating {product : ObjectId} {r r' : Rating} {s : ReviewDb}
    (h : s.totals product = some r') :
    (reviewMongo.exec (.productSetRating product r) s).2.totals product = some r := by
  obtain ⟨p, hp, -⟩ := Option.map_eq_some_iff.1 h
  show Option.map _ ((s.products.update product _).get? product) = _
  rw [get?_update_self, hp]
  rfl

/-- Products stay. -/
theorem exec_totals_isSome (o : ReviewCall) {product : ObjectId} {s : ReviewDb}
    (h : (s.totals product).isSome) : ((reviewMongo.exec o s).2.totals product).isSome := by
  by_cases ho : ∃ r, o = .productSetRating product r
  · obtain ⟨r, rfl⟩ := ho
    obtain ⟨r', hr'⟩ := Option.isSome_iff_exists.1 h
    rw [exec_productSetRating hr']
    rfl
  · rw [exec_totals fun r hr => ho ⟨r, hr⟩]
    exact h

/-- Only a review of the product changes what its totals should be. -/
theorem exec_stats {o : ReviewCall} {product : ObjectId}
    (ho : ∀ user tenant value, o ≠ .reviewUpsert user tenant product value) (s : ReviewDb) :
    (reviewMongo.exec o s).2.stats product = s.stats product := by
  have hstats : ∀ {t : ReviewDb}, t.published product = s.published product →
      t.stats product = s.stats product := by
    intro t h
    rw [ReviewDb.stats, ReviewDb.stats, h]
  cases o with
  | reviewUpsert user tenant other value =>
    have hother : other ≠ product := fun h => ho user tenant value (h ▸ rfl)
    refine hstats ?_
    simp only [reviewMongo, ReviewCall.exec]
    split
    · next r hr =>
      have hproduct : r.product = other := by
        have hfound := List.find?_some hr
        simp only [Bool.and_eq_true, beq_iff_eq] at hfound
        exact hfound.2
      have hget : s.reviews.get? r.id = some r := get?_eq_some.2 ⟨List.mem_of_find?_eq_some hr, rfl⟩
      rw [ReviewDb.published, ReviewDb.published]
      show ((s.reviews.update r.id (Review.save value)).docs).filter _ = _
      rw [update, Collection.modify, List.filter_map]
      -- The patched review is of another product before and after.
      have hsame : ∀ x ∈ s.reviews.docs, Keyed.key x == r.id → x.product ≠ product := by
        intro x hx hid
        obtain rfl := Option.some_inj.1 ((get?_eq_some.2 ⟨hx, by simpa using hid⟩).symm.trans hget)
        exact hproduct ▸ hother
      rw [List.filter_congr fun x hx => ?_]
      · refine (List.map_congr_left fun x hx => ?_).trans (List.map_id _)
        obtain ⟨hx, hpublished⟩ := List.mem_filter.1 hx
        simp only [Bool.and_eq_true, beq_iff_eq] at hpublished
        rw [if_neg fun hid => hsame x hx hid hpublished.1]
        rfl
      · simp only [Function.comp]
        split
        · next hid =>
          have hne := hsame x hx hid
          simp [Review.save, hne]
        · rfl
    · rw [ReviewDb.published, ReviewDb.published]
      show (s.reviews.docs ++ [_]).filter _ = _
      rw [List.filter_append, List.filter_cons_of_neg (by simp [newReview, hother]), List.filter_nil,
        List.append_nil]
  | _ => exact hstats rfl

/-! ## The note of a request -/

/-- What a request has aggregated, and the product whose totals it has overwritten. -/
structure ReviewNote where
  aggregated : Option (ObjectId × Rating)
  stored : Option ObjectId

namespace ReviewNote

def note : (o : ReviewCall) → Except ApiError o.Reply → ReviewNote → ReviewNote
  | .reviewAggregate product, .ok rows, g => { g with aggregated := some (product, rows.head?.getD ⟨0, 0⟩) }
  | .productSetRating product _, .ok _, g => { g with stored := some product }
  | _, _, g => g

/-- A request aggregates once, and overwrites with what it has aggregated. -/
def may : ReviewCall → ReviewNote → Prop
  | .reviewAggregate _, g => g.aggregated = none
  | .productSetRating product rating, g => g.aggregated = some (product, rating)
  | _, _ => True

end ReviewNote

def reviewMemo : Memo ReviewMongo ApiError ReviewNote where
  note := ReviewNote.note
  may := ReviewNote.may
  allows _ _ := True

/-- A request that returns has overwritten the totals of its product. -/
def ReviewRequest.Ends (request : ReviewRequest) : Except ApiError Review → ReviewNote → Prop
  | .ok _, g => g.stored = some request.productId
  | .error _, _ => True

theorem createReview_tracks (request : ReviewRequest) :
    reviewMemo.Tracks request.Ends (reviewServer.code request) ⟨none, none⟩ := by
  have hcatch : ∀ (e : ApiError) (g : ReviewNote), reviewMemo.Tracks request.Ends
      (if e = .duplicateKey then throw (CustomeErrorHandler.badRequest "Review already exists")
        else throw e) g := by
    intro e g
    split <;> trivial
  refine Memo.Tracks.catching ⟨trivial, fun r _ => ?_⟩
  obtain e | (_ | _) := r
  · exact hcatch e _
  · exact hcatch _ _
  refine ⟨trivial, fun r _ => ?_⟩
  obtain e | (_ | _) := r
  · exact hcatch e _
  · exact hcatch _ _
  refine ⟨trivial, fun r _ => ?_⟩
  obtain e | review := r
  · exact hcatch e _
  refine ⟨rfl, fun r _ => ?_⟩
  obtain e | rows := r
  · exact hcatch e _
  refine ⟨rfl, fun r _ => ?_⟩
  obtain e | _ := r
  · exact hcatch e _
  · exact rfl

/-- A call that writes reviews of this product only. -/
def ReviewCall.Reviews (product : ObjectId) : ReviewCall → Prop
  | .reviewUpsert _ _ reviewed _ => reviewed = product
  | _ => True

theorem createReview_issues (request : ReviewRequest) :
    (reviewServer.code request).Issues (ReviewCall.Reviews request.productId) := by
  have hcall : ∀ o : ReviewCall, o.Reviews request.productId →
      (reviewCall o).Issues (ReviewCall.Reviews request.productId) :=
    fun _ h => Prog.issues_perform (S := ReviewMongo) h
  refine Prog.Issues.catching ((hcall (.productExists ..) trivial).bind fun found => ?_) fun e => ?_
  · split
    · trivial
    refine (hcall (.orderExists ..) trivial).bind fun purchased => ?_
    split
    · trivial
    refine (hcall (.reviewUpsert ..) rfl).bind fun review => ?_
    have hrecalculate : (recalculateRating request.productId).Issues (ReviewCall.Reviews request.productId) :=
      (hcall (.reviewAggregate _) trivial).bind fun _ => hcall (.productSetRating ..) trivial
    exact hrecalculate.bind fun _ => trivial
  · split <;> trivial

theorem reviewMemo_error (o : ReviewCall) (e : ApiError) (g : ReviewNote) :
    reviewMemo.note o (.error e) g = g := by
  cases o <;> rfl

/-! ## Runs -/

/-- A run of review requests, whatever fails. -/
abbrev ReviewRun : ReviewPool → List (Action ReviewRequest) → ReviewPool → Prop :=
  reviewServer.Run fun _ _ => True

/-- Some request overwrites the totals of the product. -/
def Overwrites (c : ReviewPool) (as : List (Action ReviewRequest)) (product : ObjectId) : Prop :=
  ∃ before i after d rating, as = before ++ .act i :: after ∧ ReviewRun c before d ∧
    d.head? i = some (.productSetRating product rating)

/-- What the last overwrite of the product carries was aggregated when the product had reviews of
the same number and average as in the end. -/
def LastOverwriteCurrent (c : ReviewPool) (as : List (Action ReviewRequest)) (d : ReviewPool)
    (product : ObjectId) : Prop :=
  ∀ before middle after i e f g rating, as = before ++ .act i :: (middle ++ .act i :: after) →
    ReviewRun c before e → e.head? i = some (.reviewAggregate product) →
    ReviewRun e (.act i :: middle) f → f.head? i = some (.productSetRating product rating) →
    ReviewRun f [.act i] g → ¬ Overwrites g after product →
    e.state.stats product = d.state.stats product

section Runs

variable {c d e : ReviewPool} {as : List (Action ReviewRequest)} {product : ObjectId}

theorem totals_isSome (hrun : ReviewRun c as d) (hc : (c.state.totals product).isSome) :
    (d.state.totals product).isSome := by
  refine System.Run.invariant (P := fun c => (c.state.totals product).isSome) ?_ hrun hc
  intro c a d _ hs hc
  obtain ⟨hstate, -⟩ | ⟨i, o, -, -, hstate⟩ := System.step_state hs
  · exact hstate ▸ hc
  · exact hstate ▸ exec_totals_isSome o hc

theorem Overwrites.snoc {a : Action ReviewRequest} (hrun : ReviewRun c as d)
    (h : Overwrites c (as ++ [a]) product) :
    Overwrites c as product ∨ ∃ i rating, a = .act i ∧ d.head? i = some (.productSetRating product rating) := by
  obtain ⟨before, i, after, e, rating, has, hbefore, hhead⟩ := h
  rcases List.eq_nil_or_concat after with rfl | ⟨rest, b, rfl⟩
  · obtain ⟨rfl, hlast⟩ := List.append_inj' has rfl
    obtain rfl := List.singleton_inj.1 hlast
    obtain rfl := Option.some_inj.1 (hbefore.play_eq.symm.trans hrun.play_eq)
    exact .inr ⟨i, rating, rfl, hhead⟩
  · rw [List.concat_eq_append, ← List.cons_append, ← List.append_assoc] at has
    obtain ⟨rfl, -⟩ := List.append_inj' has rfl
    exact .inl ⟨before, i, rest, e, rating, rfl, hbefore, hhead⟩

/-- An overwrite sets the totals. -/
theorem overwrite_totals {i : Nat} {rating : Rating} (hd : (d.state.totals product).isSome)
    (hhead : d.head? i = some (.productSetRating product rating)) (hone : ReviewRun d [.act i] e) :
    e.state.totals product = some rating := by
  cases hone with
  | cons _ hs hrest =>
    cases hrest
    obtain ⟨-, hnone⟩ | ⟨j, o, hj, ho, hstate⟩ := System.step_state hs
    · exact absurd hhead (hnone i _ rfl)
    · obtain rfl := Action.act.inj hj
      obtain rfl := Option.some_inj.1 (hhead.symm.trans ho)
      obtain ⟨r, hr⟩ := Option.isSome_iff_exists.1 hd
      rw [hstate]
      exact exec_productSetRating hr

/-- The totals are what they were, or what the last overwrite carries. -/
theorem totals_last (hrun : ReviewRun c as d) (hc : (c.state.totals product).isSome) :
    (¬ Overwrites c as product ∧ d.state.totals product = c.state.totals product) ∨
      ∃ before i after e f rating, as = before ++ .act i :: after ∧ ReviewRun c before e ∧
        e.head? i = some (.productSetRating product rating) ∧ ReviewRun e [.act i] f ∧
        ReviewRun f after d ∧ ¬ Overwrites f after product ∧ d.state.totals product = some rating := by
  refine hrun.induct (P := fun as d => (¬ Overwrites c as product ∧
    d.state.totals product = c.state.totals product) ∨ ∃ before i after e f rating,
      as = before ++ .act i :: after ∧ ReviewRun c before e ∧
        e.head? i = some (.productSetRating product rating) ∧ ReviewRun e [.act i] f ∧
        ReviewRun f after d ∧ ¬ Overwrites f after product ∧ d.state.totals product = some rating) ?_ ?_
  · refine .inl ⟨?_, rfl⟩
    rintro ⟨before, i, after, e, rating, has, -⟩
    simp at has
  · intro as d a e hrun _ hs ih
    have hone : ReviewRun d [a] e := .cons trivial hs (.nil e)
    by_cases hoverwrite : ∃ i rating, a = .act i ∧ d.head? i = some (.productSetRating product rating)
    · obtain ⟨i, rating, rfl, hhead⟩ := hoverwrite
      refine .inr ⟨as, i, [], d, e, rating, rfl, hrun, hhead, hone, .nil e, ?_, ?_⟩
      · rintro ⟨before, j, after, x, r, has, -⟩
        simp at has
      · exact overwrite_totals (totals_isSome hrun hc) hhead hone
    · have hsame : e.state.totals product = d.state.totals product := by
        obtain ⟨hstate, -⟩ | ⟨i, o, rfl, ho, hstate⟩ := System.step_state hs
        · rw [hstate]
        · rw [hstate]
          exact exec_totals (fun r hr => hoverwrite ⟨i, r, rfl, hr ▸ ho⟩) d.state
      rcases ih with ⟨hnone, htotals⟩ | ⟨before, i, after, f, g, rating, rfl, hbefore, hhead, hg, hafter,
        hlast, htotals⟩
      · refine .inl ⟨fun h => ?_, hsame.trans htotals⟩
        rcases h.snoc hrun with h | h
        · exact hnone h
        · exact hoverwrite h
      · refine .inr ⟨before, i, after ++ [a], f, g, rating, by simp, hbefore, hhead, hg,
          hafter.snoc trivial hs, fun h => ?_, hsame.trans htotals⟩
        rcases h.snoc hafter with h | h
        · exact hlast h
        · exact hoverwrite h

/-- Along a run every request has a memo, and what it holds was noted at some step. -/
theorem review_noted {β : Type} (field : ReviewNote → Option β) (hfield : field ⟨none, none⟩ = none)
    (hstart : c.threads = []) (hrun : ReviewRun c as d) :
    ∃ gs, reviewMemo.Minutes ReviewRequest.Ends d gs ∧ ∀ i g b, gs[i]? = some g → field g = some b →
      Memo.NotedAt reviewMemo reviewServer (fun _ _ => True) field c as d i b :=
  Memo.noted field createReview_tracks (fun _ _ => trivial) (fun _ => trivial)
    (fun _ _ _ _ _ => trivial) (fun _ => hfield) (fun o g => congrArg field (reviewMemo_error o _ g))
    hstart hrun

/-- An overwrite carries what its request has aggregated before. -/
theorem overwrite_aggregated (hstart : c.threads = []) (hrun : ReviewRun c as d) {i : Nat} {rating : Rating}
    (hhead : d.head? i = some (.productSetRating product rating)) :
    ∃ before middle e, as = before ++ .act i :: middle ∧ ReviewRun c before e ∧
      e.head? i = some (.reviewAggregate product) ∧ ReviewRun e (.act i :: middle) d ∧
      rating = e.state.stats product := by
  obtain ⟨gs, hminutes, hnoted⟩ := review_noted ReviewNote.aggregated rfl hstart hrun
  obtain ⟨g, hi, haggregated⟩ := hminutes.head hhead
  obtain ⟨before, middle, e, o, x, has, hbefore, he, -, hnot, hfield, hmiddle⟩ :=
    hnoted i g _ hi haggregated
  refine ⟨before, middle, e, has, hbefore, ?_⟩
  cases o with
  | reviewAggregate other =>
    obtain ⟨rfl, rfl⟩ := Prod.mk.inj (Option.some_inj.1 hfield)
    exact ⟨he, hmiddle, ReviewDb.aggregate_head e.state other⟩
  | _ => exact absurd hfield hnot

/-- A request aggregates once: what it overwrites with is what it has aggregated. -/
theorem aggregated_overwrite {f : ReviewPool} {middle : List (Action ReviewRequest)} (hstart : c.threads = [])
    (hbefore : ReviewRun c as e) {i : Nat} {rating : Rating} {other : ObjectId}
    (hhead : e.head? i = some (.reviewAggregate product)) (hmiddle : ReviewRun e (.act i :: middle) f)
    (hstores : f.head? i = some (.productSetRating other rating)) : rating = e.state.stats product := by
  have hkeep : ∀ (o : ReviewCall) (r : Except ApiError o.Reply) (g : ReviewNote), ReviewNote.may o g →
      g.aggregated = some (product, e.state.stats product) →
        (ReviewNote.note o r g).aggregated = some (product, e.state.stats product) := by
    intro o r g hmay hg
    cases o with
    | reviewAggregate x => exact absurd (hg.symm.trans hmay) (by simp)
    | productSetRating x rating => cases r <;> exact hg
    | _ => exact hg
  obtain ⟨gs, hminutes, -⟩ := review_noted (β := Unit) (fun _ => none) rfl hstart hbefore
  obtain ⟨⟨l, p⟩, ht, hp⟩ := Option.bind_eq_some_iff.1 hhead
  obtain ⟨g, -, htracks⟩ := hminutes.memo ht
  cases p with
  | done r => cases hp
  | call o k =>
    obtain rfl := Option.some_inj.1 hp
    cases hmiddle with
    | @cons _ e' _ _ _ _ hs hrest =>
      obtain ⟨h, -⟩ | ⟨o, k', hcall, ⟨-, -, he'⟩ | ⟨h, -⟩ | ⟨h, -⟩⟩ := System.step_thread _ hs ht
      · exact absurd rfl h
      · obtain ⟨rfl, hk⟩ := Prog.call.inj hcall
        obtain rfl := eq_of_heq hk
        obtain ⟨p, g', hf, htracks', haggregated⟩ := Memo.Tracks.run (G := reviewMemo)
          (P := fun g => g.aggregated = some (product, e.state.stats product)) hrest (fun _ _ => trivial)
          (fun _ => trivial) (fun _ => trivial) hkeep he' (htracks.2 _ trivial)
          (by rw [← ReviewDb.aggregate_head]; rfl)
        rw [Pool.head?, hf, Option.bind_some] at hstores
        cases p with
        | done r => cases hstores
        | call o' k'' =>
          obtain rfl := Option.some_inj.1 hstores
          have hcarried : g'.aggregated = some (other, rating) := htracks'.1
          exact (Prod.mk.inj (Option.some_inj.1 (hcarried.symm.trans haggregated))).2
      · cases h
      · cases h

/-- Requests for other products leave what the totals of this one should be. -/
theorem stats_others (hstart : c.threads = []) (hrun : ReviewRun c as d)
    (hothers : ∀ t ∈ d.threads, t.label.productId ≠ product) : d.state.stats product = c.state.stats product := by
  refine (hrun.induct (P := fun _ d => (∀ t ∈ d.threads, t.label.productId ≠ product) →
    (∀ t ∈ d.threads, t.prog.Issues (ReviewCall.Reviews t.label.productId)) ∧
      d.state.stats product = c.state.stats product) ?_ ?_ hothers).2
  · exact fun _ => ⟨by simp [hstart], rfl⟩
  · intro as d a e _ _ hs ih hothers
    have hbefore : ∀ t ∈ d.threads, t.label.productId ≠ product := by
      rintro ⟨l, p⟩ ht
      obtain ⟨i, hi⟩ := List.mem_iff_getElem?.1 ht
      obtain ⟨p', hp', -⟩ := System.step_stays hs hi
      exact hothers ⟨l, p'⟩ (List.mem_of_getElem? hp')
    obtain ⟨hissues, hstats⟩ := ih hbefore
    refine ⟨System.step_issues (φ := fun l => ReviewCall.Reviews l.productId) createReview_issues hs hissues, ?_⟩
    obtain ⟨hstate, -⟩ | ⟨i, o, -, hhead, hstate⟩ := System.step_state hs
    · rw [hstate, hstats]
    · obtain ⟨t, ht, ho⟩ := Pool.head?_issues (φ := fun l => ReviewCall.Reviews l.productId) hissues hhead
      have hexec : (reviewMongo.exec o d.state).2.stats product = d.state.stats product := by
        refine exec_stats ?_ d.state
        rintro user tenant value rfl
        exact hbefore t (List.mem_of_getElem? ht) (Eq.symm ho)
      rw [hstate]
      exact hexec.trans hstats

/-- When all requests have succeeded, the totals of a product are right exactly if its reviews have
the number and the average that they had when the last overwrite's request aggregated them. -/
theorem ratings_converge (hstart : c.threads = []) {p : RatedProduct}
    (hproduct : c.state.products.get? product = some p) (hconverged : c.state.Converged product)
    (hrun : ReviewRun c as d) (hdone : ∀ t ∈ d.threads, ∃ review, t.prog = .done (.ok review)) :
    d.state.Converged product ↔ LastOverwriteCurrent c as d product := by
  have htotals : c.state.totals product = some ⟨p.ratingAverage, p.ratingCount⟩ := by
    rw [ReviewDb.totals, hproduct]
    rfl
  have hsome : (c.state.totals product).isSome := by rw [htotals]; rfl
  constructor
  · intro hd before middle after i e f g rating has hbefore haggregate hmiddle hstores hg hlast
    have hf : ReviewRun c (before ++ .act i :: middle) f := hbefore.append hmiddle
    have hrating : rating = e.state.stats product :=
      aggregated_overwrite hstart hbefore haggregate hmiddle hstores
    have hgtotals : g.state.totals product = some rating := overwrite_totals (totals_isSome hf hsome) hstores hg
    have hafter : ReviewRun g after d := (hf.append hg).rest (by simpa [has] using hrun)
    have hdtotals : d.state.totals product = some rating := by
      rcases totals_last hafter (by rw [hgtotals]; rfl) with ⟨-, hsame⟩ | ⟨b, j, rest, x, -, r, hb, hx, hr, -⟩
      · exact hsame.trans hgtotals
      · exact absurd ⟨b, j, rest, x, r, hb, hx, hr⟩ hlast
    rw [← hrating]
    exact (ReviewDb.converged_iff hdtotals).1 hd
  · intro hcurrent
    rcases totals_last hrun hsome with ⟨hnone, hsame⟩ | ⟨before, i, after, f, g, rating, rfl, hbefore, hhead,
      hg, hafter, hlast, hd⟩
    · -- A request for the product would have overwritten its totals.
      have hothers : ∀ t ∈ d.threads, t.label.productId ≠ product := by
        rintro t ht rfl
        obtain ⟨review, hreview⟩ := hdone t ht
        obtain ⟨gs, hminutes, hnoted⟩ := review_noted ReviewNote.stored rfl hstart hrun
        obtain ⟨i, hi⟩ := List.mem_iff_getElem?.1 ht
        obtain ⟨g, hgi, htracks⟩ := hminutes.memo hi
        rw [hreview] at htracks
        obtain ⟨before, middle, e, o, x, has, hbefore, he, -, hnot, hfield, -⟩ := hnoted i g _ hgi htracks
        cases o with
        | productSetRating other rating =>
          obtain rfl := Option.some_inj.1 hfield
          exact hnone ⟨before, i, middle, e, rating, has, hbefore, he⟩
        | _ => exact hnot hfield
      rw [ReviewDb.converged_iff (hsame.trans htotals), stats_others hstart hrun hothers]
      exact (ReviewDb.converged_iff htotals).1 hconverged
    · obtain ⟨before, middle, e, rfl, hbefore', he, hmiddle, rfl⟩ := overwrite_aggregated hstart hbefore hhead
      rw [ReviewDb.converged_iff hd]
      exact hcurrent before middle after i e f g _ (by simp) hbefore' he hmiddle hhead hg hlast

end Runs

/-! ## Two reviewers -/

/-- A delivered order of the product. -/
def boughtBy (id user : ObjectId) : Order :=
  ⟨id, user, "t", [⟨0, "mug", 10, 1⟩], 10, 10, 0, none, .delivered, .paid, .none, "manual", "r", [],
    ⟨"a", none, "c", "s", "p", "x"⟩, none, none, none, none, none, 0⟩

/-- A product without reviews that users 1 and 2 have bought. -/
def boughtDb : ReviewDb where
  products := (∅ : Collection RatedProduct).insert ⟨⟨0, "t", none, "mug", 10, 5, true, none⟩, 0, 0⟩ rfl
  orders := ((∅ : Collection Order).insert (boughtBy 0 1) rfl).insert (boughtBy 1 2) rfl
  reviews := ∅

/-- The request of a user who gives the product these stars. -/
def ratedBy (user : ObjectId) (rating : ℕ) (h : 1 ≤ rating ∧ rating ≤ 5) : ReviewRequest :=
  ⟨⟨user, .user, "t"⟩, 0, ⟨rating, none, none, h.1, h.2⟩⟩

theorem boughtDb_converged : boughtDb.Converged 0 :=
  (ReviewDb.converged_iff (by decide +kernel : boughtDb.totals 0 = some ⟨0, 0⟩)).2 (by decide +kernel)

/-- Both save their reviews before either aggregates. -/
def ratedBeforehand : List (Action ReviewRequest) :=
  [.spawn (ratedBy 1 5 (by decide)), .spawn (ratedBy 2 2 (by decide)), .act 0, .act 0, .act 0,
    .act 1, .act 1, .act 1, .act 0, .act 1, .act 0, .act 1]

theorem ratings_converge_ratedBeforehand :
    ∃ d, ReviewRun ⟨boughtDb, []⟩ ratedBeforehand d ∧ d.state.totals 0 = some ⟨7 / 2, 2⟩ ∧
      (d.state.Converged 0 ↔ LastOverwriteCurrent ⟨boughtDb, []⟩ ratedBeforehand d 0) := by
  obtain ⟨d, hd, h⟩ := (Option.any_eq_true _ _).1 (by decide +kernel :
    (reviewServer.play (fun _ a => a.unfailing) ⟨boughtDb, []⟩ ratedBeforehand).any fun d =>
      decide (d.threads.all fun t => t.prog.result?.any Except.isOk) &&
        decide (d.state.totals 0 = some ⟨7 / 2, 2⟩))
  simp only [Bool.and_eq_true, decide_eq_true_eq] at h
  have hrun : ReviewRun ⟨boughtDb, []⟩ ratedBeforehand d := (System.Run.of_play hd).mono fun _ _ _ => trivial
  refine ⟨d, hrun, h.2, ratings_converge rfl rfl boughtDb_converged hrun fun t ht => ?_⟩
  have hok := List.all_eq_true.1 h.1 t ht
  obtain ⟨l, (e | review) | _⟩ := t
  · cases hok
  · exact ⟨review, rfl⟩
  · cases hok

/-- The first aggregates its own review, and overwrites the totals after the second. -/
def ratedMeanwhile : List (Action ReviewRequest) :=
  [.spawn (ratedBy 1 5 (by decide)), .spawn (ratedBy 2 2 (by decide)), .act 0, .act 0, .act 0, .act 0,
    .act 1, .act 1, .act 1, .act 1, .act 1, .act 0]

/-- Both requests succeed. The product counts one review of its two. -/
theorem ratings_converge_counterexample :
    ∃ d, ReviewRun ⟨boughtDb, []⟩ ratedMeanwhile d ∧
      (d.threads.all fun t => t.prog.result?.any Except.isOk) ∧ d.state.totals 0 = some ⟨5, 1⟩ ∧
      (d.state.published 0).length = 2 ∧ ¬ d.state.Converged 0 := by
  obtain ⟨d, hd, h⟩ := (Option.any_eq_true _ _).1 (by decide +kernel :
    (reviewServer.play (fun _ a => a.unfailing) ⟨boughtDb, []⟩ ratedMeanwhile).any fun d =>
      decide (d.threads.all fun t => t.prog.result?.any Except.isOk) &&
        decide (d.state.totals 0 = some ⟨5, 1⟩ ∧ (d.state.published 0).length = 2))
  simp only [Bool.and_eq_true, decide_eq_true_eq] at h
  refine ⟨d, (System.Run.of_play hd).mono fun _ _ _ => trivial, h.1, h.2.1, h.2.2, fun hconverged => ?_⟩
  have hcount := congrArg Rating.count ((ReviewDb.converged_iff h.2.1).1 hconverged)
  simp [ReviewDb.stats, h.2.2] at hcount

end Ecommerce
