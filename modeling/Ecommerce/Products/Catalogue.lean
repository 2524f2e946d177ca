import Ecommerce.Products.Freshness

/-!
# Who changes a product

Whoever creates a product is its seller. A seller reaches its own products of its tenant only, and never what
only an administrator sets. What is deleted stays deleted, and is not edited any more.
-/

namespace Ecommerce

open Effect Effect.Collection

/-! ## Rights -/

/-- The request may change the product: what the filters of `update` and `delete` let it reach. -/
def ShopRequest.MayChange (p : CatalogProduct) : ShopRequest → Prop
  | .update _ req id _ _ =>
    id = p.id ∧ req.tenant = p.tenant ∧ p.deletedAt = none ∧ (req.role = .seller → p.seller = some req.user)
  | .delete _ tenant id => id = p.id ∧ tenant = p.tenant
  | .create .. | .list .. => False

/-- The request may put the product on sale again. -/
def ShopRequest.Activates (p : CatalogProduct) : ShopRequest → Prop
  | .update now req id value filePath =>
    (ShopRequest.update now req id value filePath).MayChange p ∧ req.role = .admin ∧
      value.isActive = some true
  | _ => False

/-- The request deletes the product. -/
def ShopRequest.Deletes (p : CatalogProduct) : ShopRequest → Prop
  | .delete _ tenant id => id = p.id ∧ tenant = p.tenant
  | _ => False

/-- The request has created the product as it is. -/
def ShopRequest.Creates (p : CatalogProduct) : ShopRequest → Prop
  | .create now req value filePath =>
    p = ProductDraft.record ⟨pickAllowedFields req.role value, filePath, req.user, req.tenant⟩ now p.id
  | _ => False

/-- What has become of a product, by the requests that there have been. -/
structure CatalogProduct.Follows (requests : List ShopRequest) (p q : CatalogProduct) : Prop where
  id : q.id = p.id
  tenant : q.tenant = p.tenant
  seller : q.seller = p.seller
  createdAt : q.createdAt = p.createdAt
  changed : q = p ∨ ∃ r ∈ requests, r.MayChange p
  active : q.isActive → p.isActive ∨ ∃ r ∈ requests, r.Activates p
  kept : q.deletedAt = p.deletedAt ∨ q.deletedAt.isSome ∧ ∃ r ∈ requests, r.Deletes p
  frozen : p.deletedAt.isSome → q = { p with deletedAt := q.deletedAt, isActive := q.isActive }

/-- No two products have one SKU. -/
def Shop.SkusDistinct (shop : Shop) : Prop :=
  ∀ p ∈ shop.products.docs, ∀ q ∈ shop.products.docs, p.sku.isSome → p.sku = q.sku → p.id = q.id

theorem CatalogProduct.Follows.refl (requests : List ShopRequest) (p : CatalogProduct) :
    p.Follows requests p :=
  ⟨rfl, rfl, rfl, rfl, .inl rfl, .inl, .inl rfl, fun _ => rfl⟩

theorem CatalogProduct.Follows.mono {requests requests' : List ShopRequest} {p q : CatalogProduct}
    (h : p.Follows requests q) (hsub : requests ⊆ requests') : p.Follows requests' q where
  id := h.id
  tenant := h.tenant
  seller := h.seller
  createdAt := h.createdAt
  changed := h.changed.imp_right fun ⟨r, hr, hmay⟩ => ⟨r, hsub hr, hmay⟩
  active hq := (h.active hq).imp_right fun ⟨r, hr, hmay⟩ => ⟨r, hsub hr, hmay⟩
  kept := h.kept.imp_right fun ⟨hsome, r, hr, hmay⟩ => ⟨hsome, r, hsub hr, hmay⟩
  frozen := h.frozen

/-- A product that is not deleted now was not deleted at the start either. -/
theorem CatalogProduct.Follows.live {requests : List ShopRequest} {p q : CatalogProduct}
    (h : p.Follows requests q) (hq : q.deletedAt = none) : p.deletedAt = none := by
  obtain hsame | ⟨hsome, -⟩ := h.kept
  · rw [← hsame, hq]
  · rw [hq] at hsome
    cases hsome

/-! ## Calls -/

/-- The changes that a request asks the database for. -/
def ShopRequest.Writes (request : ShopRequest) : ShopCall → Prop
  | .productCreate draft now => ∃ req input, request = .create now req input draft.image ∧
    draft = ⟨pickAllowedFields req.role input, draft.image, req.user, req.tenant⟩
  | .productUpdateOne filter value filePath => ∃ now req input,
    request = .update now req filter.id input filePath ∧ value = pickAllowedFields req.role input ∧
      filter = ⟨filter.id, req.tenant, if req.role = .seller then some req.user else none⟩
  | .productSoftDelete id tenant now => request = .delete now tenant id
  | _ => True

theorem readList_writes (cfg : ShopConfig) (request : ShopRequest) (tenant : String) (query : Query)
    (countFirst : Bool) : (ProductService.readList cfg tenant query countFirst).Issues request.Writes := by
  cases countFirst with
  | true => exact (Prog.issues_perform trivial).bind fun _ => (Prog.issues_perform trivial).bind fun _ => trivial
  | false => exact (Prog.issues_perform trivial).bind fun _ => (Prog.issues_perform trivial).bind fun _ => trivial

theorem code_writes (cfg : ShopConfig) (request : ShopRequest) : (request.code cfg).Issues request.Writes := by
  cases request with
  | create now req value filePath =>
    refine Prog.Issues.map ((Prog.issues_perform ⟨req, value, rfl, rfl⟩).bind fun document => ?_)
    exact (Prog.issues_perform trivial).bind fun _ => trivial
  | update now req id value filePath =>
    refine Prog.Issues.map ((Prog.issues_perform ⟨now, req, value, rfl, rfl, rfl⟩).bind fun found => ?_)
    cases found with
    | none => trivial
    | some document => exact (Prog.issues_perform trivial).bind fun _ => trivial
  | delete now tenant id =>
    have hcall : (shopCall (.productSoftDelete id tenant now)).Issues (ShopRequest.delete now tenant id).Writes :=
      ⟨rfl, fun _ => trivial⟩
    refine Prog.Issues.map (hcall.bind fun found => ?_)
    cases found with
    | none => trivial
    | some document => exact (Prog.issues_perform trivial).bind fun _ => trivial
  | list now storedAt tenant query countFirst =>
    refine Prog.Issues.map ((Prog.issues_perform trivial).bind fun found => ?_)
    cases found with
    | none =>
      exact (readList_writes cfg _ tenant query countFirst).bind fun _ =>
        (Prog.issues_perform trivial).bind fun _ => trivial
    | some cached => trivial

section Calls

variable {cfg : ShopConfig} {shop : Shop}

/-- What a call does to the products. -/
theorem exec_products (cfg : ShopConfig) (shop : Shop) (o : ShopCall) :
    ((shopMachine cfg).exec o shop).2.products = shop.products ∨
    (∃ draft now, o = .productCreate draft now ∧
      (∀ q ∈ shop.products.docs, draft.value.sku.isSome → q.sku ≠ draft.value.sku) ∧
      ((shopMachine cfg).exec o shop).2.products =
        shop.products.insert (draft.record now shop.products.next) (draft.key_record ..)) ∨
    (∃ filter value filePath p, o = .productUpdateOne filter value filePath ∧
      shop.products.get? filter.id = some p ∧ filter.accepts p ∧
      (∀ q ∈ shop.products.docs, q.id ≠ p.id →
        ((CatalogProduct.patch value filePath).run p).sku.isSome →
          q.sku ≠ ((CatalogProduct.patch value filePath).run p).sku) ∧
      ((shopMachine cfg).exec o shop).2.products =
        shop.products.update filter.id (CatalogProduct.patch value filePath)) ∨
    ∃ id now p, o = .productSoftDelete id p.tenant now ∧ shop.products.get? id = some p ∧
      ((shopMachine cfg).exec o shop).2.products = shop.products.update id (CatalogProduct.softDelete now) := by
  cases o with
  | productCreate draft now =>
    simp only [shopMachine, ShopCall.exec]
    split
    · exact .inl rfl
    · split
      · exact .inl rfl
      · next hfresh =>
        refine .inr (.inl ⟨draft, now, rfl, fun q hq hsome heq => hfresh ?_, rfl⟩)
        rw [Bool.and_eq_true, List.any_eq_true]
        exact ⟨hsome, q, hq, by simp [heq]⟩
  | productUpdateOne filter value filePath =>
    simp only [shopMachine, ShopCall.exec]
    split
    · next p hp =>
      split
      · exact .inl rfl
      · next haccepts =>
        split
        · exact .inl rfl
        · next hfresh =>
          refine .inr (.inr (.inl ⟨filter, value, filePath, p, rfl, hp, by simpa using haccepts, ?_, rfl⟩))
          intro q hq hne hsome heq
          refine hfresh ?_
          rw [Bool.and_eq_true, List.any_eq_true]
          exact ⟨hsome, q, hq, by simp [hne, heq]⟩
    · exact .inl rfl
  | productSoftDelete id tenant now =>
    simp only [shopMachine, ShopCall.exec]
    split
    · next p hp =>
      split
      · next htenant =>
        subst htenant
        exact .inr (.inr (.inr ⟨id, now, p, rfl, hp, rfl⟩))
      · exact .inl rfl
    · exact .inl rfl
  | _ => exact .inl rfl

/-- Only an administrator's update says whether a product is on sale. -/
theorem pickAllowedFields_isActive {role : Role} {value : ProductInput} {active : Bool}
    (h : (pickAllowedFields role value).isActive = some active) : role = .admin ∧ value.isActive = some active := by
  cases role with
  | admin => exact ⟨rfl, h⟩
  | seller => cases h
  | user => cases h

/-- An update that reaches the product, by a request of the run. -/
theorem CatalogProduct.Follows.update {requests : List ShopRequest} {p q : CatalogProduct} {now : Time}
    {req : AuthedRequest} {input : ProductInput} {filePath : Option String}
    (h : p.Follows requests q) (hmem : ShopRequest.update now req q.id input filePath ∈ requests)
    (haccepts : UpdateFilter.accepts ⟨q.id, req.tenant, if req.role = .seller then some req.user else none⟩ q) :
    p.Follows requests ((CatalogProduct.patch (pickAllowedFields req.role input) filePath).run q) := by
  simp only [UpdateFilter.accepts, Bool.and_eq_true, beq_iff_eq, Option.isNone_iff_eq_none] at haccepts
  obtain ⟨⟨htenant, hlive⟩, hseller⟩ := haccepts
  have hmay : (ShopRequest.update now req q.id input filePath).MayChange p := by
    refine ⟨h.id, htenant.symm.trans h.tenant, h.live hlive, fun hrole => ?_⟩
    rw [if_pos hrole, Option.all_some, beq_iff_eq] at hseller
    rw [← h.seller, hseller]
  refine ⟨h.id, h.tenant, h.seller, h.createdAt, .inr ⟨_, hmem, hmay⟩, fun hactive => ?_, h.kept,
    fun hdeleted => ?_⟩
  · cases hvalue : (pickAllowedFields req.role input).isActive with
    | none =>
      refine h.active ?_
      simpa [CatalogProduct.patch, hvalue] using hactive
    | some active =>
      obtain rfl : active = true := by simpa [CatalogProduct.patch, hvalue] using hactive
      obtain ⟨hrole, hinput⟩ := pickAllowedFields_isActive hvalue
      exact .inr ⟨_, hmem, hmay, hrole, hinput⟩
  · rw [h.live hlive] at hdeleted
    cases hdeleted

theorem CatalogProduct.Follows.softDelete {requests : List ShopRequest} {p q : CatalogProduct} {now : Time}
    (h : p.Follows requests q) (hmem : ShopRequest.delete now q.tenant q.id ∈ requests) :
    p.Follows requests ((CatalogProduct.softDelete now).run q) := by
  refine ⟨h.id, h.tenant, h.seller, h.createdAt, .inr ⟨_, hmem, h.id, h.tenant⟩, nofun,
    .inr ⟨rfl, _, hmem, h.id, h.tenant⟩, fun hdeleted => ?_⟩
  have hframe := h.frozen hdeleted
  rw [hframe]
  rfl

/-- A call of a request leaves every product followed. -/
theorem exec_follows {requests : List ShopRequest} {request : ShopRequest} {o : ShopCall} {id : ObjectId}
    {p q : CatalogProduct} (hmem : request ∈ requests) (ho : request.Writes o)
    (hq : shop.products.get? id = some q) (h : p.Follows requests q) :
    ∃ q', ((shopMachine cfg).exec o shop).2.products.get? id = some q' ∧ p.Follows requests q' := by
  obtain hsame | ⟨draft, now, rfl, -, hinsert⟩ | ⟨filter, value, filePath, r, rfl, hr, haccepts, -, hupdate⟩ |
    ⟨other, now, r, rfl, hr, hdelete⟩ := exec_products cfg shop o
  · exact ⟨q, by rw [hsame, hq], h⟩
  · exact ⟨q, by rw [hinsert, get?_insert, if_neg (get?_lt hq).ne, hq], h⟩
  · rw [hupdate, get?_update]
    split
    · next heq =>
      subst heq
      obtain rfl := Option.some_inj.1 (hq.symm.trans hr)
      obtain ⟨now, req, input, rfl, rfl, hfilter⟩ := ho
      have hid : filter.id = q.id := (get?_eq_some.1 hq).2.symm
      rw [hid] at hmem hfilter
      refine ⟨_, by rw [hq]; rfl, h.update hmem ?_⟩
      rwa [hfilter] at haccepts
    · exact ⟨q, hq, h⟩
  · rw [hdelete, get?_update]
    split
    · next heq =>
      subst heq
      obtain rfl := Option.some_inj.1 (hq.symm.trans hr)
      obtain rfl : request = .delete now q.tenant id := ho
      obtain rfl : q.id = id := (get?_eq_some.1 hq).2
      exact ⟨_, by rw [hq]; rfl, h.softDelete hmem⟩
    · exact ⟨q, hq, h⟩

/-- A product that was not there before a call has been created by its request. -/
theorem exec_creates {request : ShopRequest} {o : ShopCall} {id : ObjectId} {q : CatalogProduct}
    (ho : request.Writes o) (hnone : shop.products.get? id = none)
    (hq : ((shopMachine cfg).exec o shop).2.products.get? id = some q) : request.Creates q := by
  obtain hsame | ⟨draft, now, rfl, -, hinsert⟩ | ⟨filter, value, filePath, r, -, -, -, -, hupdate⟩ |
    ⟨other, now, r, -, -, hdelete⟩ := exec_products cfg shop o
  · rw [hsame, hnone] at hq
    cases hq
  · obtain ⟨req, input, rfl, hdraft⟩ := ho
    rw [hinsert, get?_insert] at hq
    split at hq
    · obtain rfl := Option.some_inj.1 hq
      show _ = ProductDraft.record _ now _
      rw [← hdraft]
      rfl
    · rw [hnone] at hq
      cases hq
  · rw [hupdate, get?_update, hnone] at hq
    split at hq <;> cases hq
  · rw [hdelete, get?_update, hnone] at hq
    split at hq <;> cases hq

/-- The unique index on SKUs. -/
theorem exec_skusDistinct (o : ShopCall) (h : shop.SkusDistinct) :
    ((shopMachine cfg).exec o shop).2.SkusDistinct := by
  unfold Shop.SkusDistinct at h ⊢
  obtain hsame | ⟨draft, now, -, hfresh, hinsert⟩ | ⟨filter, value, filePath, r, -, hr, -, hfresh, hupdate⟩ |
    ⟨other, now, r, -, -, hdelete⟩ := exec_products cfg shop o
  · rwa [hsame]
  · rw [hinsert]
    intro p hp q hq hsome hsku
    rcases mem_insert.1 hp with hp | rfl <;> rcases mem_insert.1 hq with hq | rfl
    · exact h p hp q hq hsome hsku
    · have hdrafted : draft.value.sku.isSome := by
        rw [show draft.value.sku = p.sku from hsku.symm]
        exact hsome
      exact absurd hsku (hfresh p hp hdrafted)
    · exact absurd hsku.symm (hfresh q hq hsome)
    · rfl
  · rw [hupdate]
    set f := CatalogProduct.patch value filePath
    have hid : r.id = filter.id := (get?_eq_some.1 hr).2
    have hafter : ∀ p ∈ (shop.products.update filter.id f).docs,
        (p ∈ shop.products.docs ∧ p.id ≠ r.id) ∨ p = f.run r := by
      intro p hp
      obtain ⟨q, hq, rfl⟩ := mem_modify.1 hp
      split
      · next hkey =>
        have hqr : q = r := by
          have hget : shop.products.get? filter.id = some q := get?_eq_some.2 ⟨hq, of_decide_eq_true hkey⟩
          exact Option.some_inj.1 (hget.symm.trans hr)
        exact .inr (by rw [hqr])
      · next hkey => exact .inl ⟨hq, fun heq => hkey (decide_eq_true (heq.trans hid))⟩
    intro p hp q hq hsome hsku
    rcases hafter p hp with ⟨hp, hpr⟩ | rfl <;> rcases hafter q hq with ⟨hq, hqr⟩ | rfl
    · exact h p hp q hq hsome hsku
    · exact absurd hsku (hfresh p hp hpr (hsku ▸ hsome))
    · exact absurd hsku.symm (hfresh q hq hqr hsome)
    · rfl
  · rw [hdelete]
    have hafter : ∀ p ∈ (shop.products.update other (CatalogProduct.softDelete now)).docs,
        ∃ q ∈ shop.products.docs, p.id = q.id ∧ p.sku = q.sku := by
      intro p hp
      obtain ⟨q, hq, rfl⟩ := mem_modify.1 hp
      refine ⟨q, hq, ?_⟩
      split <;> exact ⟨rfl, rfl⟩
    intro p hp q hq hsome hsku
    obtain ⟨p', hp', hpid, hpsku⟩ := hafter p hp
    obtain ⟨q', hq', hqid, hqsku⟩ := hafter q hq
    rw [hpid, hqid]
    exact h p' hp' q' hq' (hpsku ▸ hsome) (hpsku.symm.trans (hsku.trans hqsku))

end Calls

/-- Every product is what has become of one at the start, or of one that a request has created. -/
structure Shop.Traced (start : Shop) (requests : List ShopRequest) (shop : Shop) : Prop where
  kept : ∀ id p, start.products.get? id = some p →
    ∃ q, shop.products.get? id = some q ∧ p.Follows requests q
  created : ∀ id q, shop.products.get? id = some q → start.products.get? id = none →
    ∃ p, (∃ r ∈ requests, r.Creates p) ∧ p.Follows requests q

section Traced

variable {cfg : ShopConfig} {start shop : Shop} {requests requests' : List ShopRequest}

theorem Shop.Traced.refl (start : Shop) (requests : List ShopRequest) : start.Traced requests start := by
  refine ⟨fun id p hp => ⟨p, hp, .refl _ p⟩, fun id q hq hnone => ?_⟩
  rw [hq] at hnone
  cases hnone

theorem Shop.Traced.mono (h : start.Traced requests shop) (hsub : requests ⊆ requests') :
    start.Traced requests' shop where
  kept id p hp := by
    obtain ⟨q, hq, hfollows⟩ := h.kept id p hp
    exact ⟨q, hq, hfollows.mono hsub⟩
  created id q hq hnone := by
    obtain ⟨p, ⟨r, hr, hcreates⟩, hfollows⟩ := h.created id q hq hnone
    exact ⟨p, ⟨r, hsub hr, hcreates⟩, hfollows.mono hsub⟩

theorem Shop.Traced.exec (h : start.Traced requests shop) {request : ShopRequest} {o : ShopCall}
    (hmem : request ∈ requests) (ho : request.Writes o) :
    start.Traced requests ((shopMachine cfg).exec o shop).2 where
  kept id p hp := by
    obtain ⟨q, hq, hfollows⟩ := h.kept id p hp
    exact exec_follows hmem ho hq hfollows
  created id q hq hnone := by
    cases hbefore : shop.products.get? id with
    | none => exact ⟨q, ⟨request, hmem, exec_creates ho hbefore hq⟩, .refl _ q⟩
    | some q₀ =>
      obtain ⟨p, hcreated, hfollows⟩ := h.created id q₀ hbefore hnone
      obtain ⟨q', hq', hafter⟩ : ∃ q', ((shopMachine cfg).exec o shop).2.products.get? id = some q' ∧
          p.Follows requests q' := exec_follows hmem ho hbefore hfollows
      obtain rfl := Option.some_inj.1 (hq.symm.trans hq')
      exact ⟨p, hcreated, hafter⟩

end Traced

/-! ## Runs -/

section Runs

variable {cfg : ShopConfig} {c d : ShopPool} {as : List (Action ShopRequest)}

/-- Along every run, whatever fails, SKUs stay unique, and each product, of the start or as a request has
created it, is what the requests that had the right to change it have made of it. -/
theorem run_catalogue (hstart : c.threads = []) (hskus : c.state.SkusDistinct) (hrun : ShopRun cfg c as d) :
    d.state.SkusDistinct ∧
      (∀ id p, c.state.products.get? id = some p →
        ∃ q, d.state.products.get? id = some q ∧ p.Follows d.labels q) ∧
      ∀ id q, d.state.products.get? id = some q → c.state.products.get? id = none →
        ∃ p, (∃ r ∈ d.labels, r.Creates p) ∧ p.Follows d.labels q := by
  have htraced : (∀ t ∈ d.threads, t.prog.Issues t.label.Writes) ∧ d.state.SkusDistinct ∧
      c.state.Traced d.labels d.state := by
    refine hrun.induct (P := fun _ d => (∀ t ∈ d.threads, t.prog.Issues t.label.Writes) ∧ d.state.SkusDistinct ∧
      c.state.Traced d.labels d.state) ⟨by simp [hstart], hskus, .refl _ _⟩ ?_
    rintro as d a e - - hs ⟨hissues, hdistinct, htraced⟩
    refine ⟨System.step_issues (φ := ShopRequest.Writes) (code_writes cfg) hs hissues, ?_⟩
    have hsub := System.labels_subset hs
    obtain ⟨hstate, -⟩ | ⟨i, o, -, hhead, hstate⟩ := System.step_state hs
    · rw [hstate]
      exact ⟨hdistinct, htraced.mono hsub⟩
    · obtain ⟨t, ht, ho⟩ := Pool.head?_issues (φ := ShopRequest.Writes) hissues hhead
      have hmem : t.label ∈ e.labels := hsub (List.mem_map.2 ⟨t, List.mem_of_getElem? ht, rfl⟩)
      rw [hstate]
      exact ⟨exec_skusDistinct o hdistinct, (htraced.mono hsub).exec hmem ho⟩
  exact ⟨htraced.2.1, htraced.2.2.kept, htraced.2.2.created⟩

end Runs

/-- A mug and a vase of two sellers. -/
def vaseShop : Shop where
  products := ((∅ : Collection CatalogProduct).insert
    ⟨0, "t", some 7, "mug", "", 10, none, none, some "M1", 5, true, [], "mug.png", none, 0⟩ rfl).insert
    ⟨1, "t", some 8, "vase", "", 20, none, none, some "V1", 5, true, [], "vase.png", none, 0⟩ rfl
  memoryCache := JsMap.empty

/-- What a seller asks for: another price, and the product off sale. -/
def cheaper : ProductInput :=
  { name := none, description := none, price := some 15, size := none, category := none, sku := none,
    stock := none, isActive := some false, variants := none }

/-- The seller of the vase edits it, then tries the mug, and another tenant tries to delete the vase. -/
def sellerEdits : List (Action ShopRequest) :=
  [.spawn (.update 1 ⟨8, .seller, "t"⟩ 1 cheaper none), .spawn (.update 1 ⟨8, .seller, "t"⟩ 0 cheaper none),
    .spawn (.delete 2 "u" 1), .act 1, .act 0, .act 2, .fault 0]

theorem run_catalogue_sellerEdits :
    ∃ d, ShopRun sampleShop ⟨vaseShop, []⟩ sellerEdits d ∧
      d.state.products.docs.map (fun p => (p.price, p.isActive)) = [(10, true), (15, true)] ∧
      d.state.SkusDistinct := by
  obtain ⟨d, hd, h⟩ := (Option.any_eq_true _ _).1 (by decide +kernel :
    ((shopServer sampleShop).play (fun _ _ => true) ⟨vaseShop, []⟩ sellerEdits).any fun d =>
      decide (d.state.products.docs.map (fun p => (p.price, p.isActive)) = [(10, true), (15, true)]))
  have hrun : ShopRun sampleShop ⟨vaseShop, []⟩ sellerEdits d :=
    (System.Run.of_play hd).mono fun _ _ _ => trivial
  have hskus : vaseShop.SkusDistinct := by
    unfold Shop.SkusDistinct
    decide +kernel
  exact ⟨d, hrun, of_decide_eq_true h, (run_catalogue rfl hskus hrun).1⟩

end Ecommerce
