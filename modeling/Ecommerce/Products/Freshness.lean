import Ecommerce.Effect.Noted
import Ecommerce.Model.Shop
import Ecommerce.Products.Lru

/-!
# Lists after a change

A list that fills the cache has read the database at some step before. If a product is changed in
between and the cache is cleared, the list puts back what was just cleared. Without such lists, what
is in the cache was read after every change that has completed.
-/

namespace Ecommerce

open Effect Effect.Collection

/-! ## Calls -/

/-- The product that a call changes, and its tenant. -/
def ShopCall.target : ShopCall → Option (ObjectId × String)
  | .productUpdateOne filter _ _ => some (filter.id, filter.tenant)
  | .productSoftDelete id tenant _ => some (id, tenant)
  | _ => none

section Schedules

variable (cfg : ShopConfig)

/-- A run of the calls of the service, whatever fails. -/
abbrev ShopRun : ShopPool → List (Action ShopRequest) → ShopPool → Prop :=
  (shopServer cfg).Run fun _ _ => True

/-- Step `n` of the schedule is call `o` of thread `i`. -/
abbrev ShopCallsAt (c : ShopPool) (as : List (Action ShopRequest)) (n i : Nat) (o : ShopCall) : Prop :=
  (shopServer cfg).CallsAt (fun _ _ => True) c as n i o

/-- Thread `j` changes a product at step `w`, and has cleared the cache with step `x`. -/
def Completes (c : ShopPool) (as : List (Action ShopRequest)) (w x j : Nat) (write : ShopCall)
    (id : ObjectId) (tenant : String) : Prop :=
  w < x ∧ write.target = some (id, tenant) ∧ ShopCallsAt cfg c as w j write ∧
    ∃ now, ShopCallsAt cfg c as x j (.cache now (.del "products:"))

/-- No list stores what it has read before a change of a product of its tenant, once the change has
cleared the cache. -/
def StoresCurrent (c : ShopPool) (as : List (Action ShopRequest)) : Prop :=
  ∀ n w x p i j write id filter sort skip limit now key result ttlSeconds,
    n < w → x < p → Completes cfg c as w x j write id filter.tenant →
    ShopCallsAt cfg c as n i (.productFindList filter sort skip limit) →
    ¬ ShopCallsAt cfg c as p i (.cache now (.set key result ttlSeconds))

/-- A list that starts after a change of a product has completed returns the product, and all products of
its tenant, as they were at some time after the change, and not the product if it was deleted. -/
def InvalidationWins (c : ShopPool) (as : List (Action ShopRequest)) (d : ShopPool) : Prop :=
  ∀ w x j k write id tenant g request result, Completes cfg c as w x j write id tenant →
    ShopRun cfg c (as.take (x + 1)) g → g.threads.length ≤ k →
    d.threads[k]? = some ⟨request, .done (.ok (.list result))⟩ →
    (∃ n e, w < n ∧ ShopRun cfg c (as.take n) e ∧
      ∀ row ∈ result.data, row.id = id ∨ row.tenant = tenant → e.state.products.get? row.id = some row) ∧
    ∀ now, write = .productSoftDelete id tenant now → ∀ row ∈ result.data, row.id ≠ id

/-- The call that is made at step `n`, and by which thread. -/
def callAlong (c : ShopPool) (as : List (Action ShopRequest)) (n : Nat) : Option (Nat × ShopCall) :=
  match as[n]? with
  | some (.act i) =>
    ((shopServer cfg).play (fun _ _ => true) c (as.take n)).bind fun e => (e.head? i).map fun o => (i, o)
  | _ => none

/-- Whether lists store what is current, found out by playing the schedule. The tenants are not looked at. -/
def storesAlong (c : ShopPool) (as : List (Action ShopRequest)) : Bool :=
  (List.range as.length).all fun p => match callAlong cfg c as p with
    | some (i, .cache _ (.set ..)) => (List.range p).all fun x => match callAlong cfg c as x with
      | some (j, .cache _ (.del _)) => (List.range x).all fun w => match callAlong cfg c as w with
        | some (j', .productUpdateOne ..) | some (j', .productSoftDelete ..) =>
          j' != j || (List.range w).all fun n => match callAlong cfg c as n with
            | some (i', .productFindList ..) => i' != i
            | _ => true
        | _ => true
      | _ => true
    | _ => true

variable {cfg}

theorem callAlong_eq {c : ShopPool} {as : List (Action ShopRequest)} {n i : Nat} {o : ShopCall}
    (h : ShopCallsAt cfg c as n i o) : callAlong cfg c as n = some (i, o) := by
  obtain ⟨hstep, e, he, hhead⟩ := h
  rw [callAlong, hstep]
  show Option.bind _ _ = _
  rw [he.play_eq, Option.bind_some, hhead]
  rfl

theorem callsAt_of_callAlong {c : ShopPool} {as : List (Action ShopRequest)} {n i : Nat} {o : ShopCall}
    (h : callAlong cfg c as n = some (i, o)) : ShopCallsAt cfg c as n i o := by
  unfold callAlong at h
  split at h
  · next j hstep =>
    obtain ⟨e, he, hhead⟩ := Option.bind_eq_some_iff.1 h
    obtain ⟨o', ho', hpair⟩ := Option.map_eq_some_iff.1 hhead
    obtain ⟨rfl, rfl⟩ := Prod.mk.inj hpair
    exact ⟨hstep, e, (System.Run.of_play he).mono fun _ _ _ => trivial, ho'⟩
  · cases h

theorem StoresCurrent.of_storesAlong {c : ShopPool} {as : List (Action ShopRequest)}
    (h : storesAlong cfg c as) : StoresCurrent cfg c as := by
  rintro n w x p i j write id filter sort skip limit now key result ttlSeconds hnw hxp
    ⟨hwx, htarget, hw, now', hx⟩ hn hp
  have hstores := List.all_eq_true.1 h p (List.mem_range.2 hp.lt)
  rw [callAlong_eq hp] at hstores
  have hclears := List.all_eq_true.1 hstores x (List.mem_range.2 hxp)
  rw [callAlong_eq hx] at hclears
  have hwrites := List.all_eq_true.1 hclears w (List.mem_range.2 hwx)
  rw [callAlong_eq hw] at hwrites
  have hreads : (List.range w).all (fun n => match callAlong cfg c as n with
      | some (i', .productFindList ..) => i' != i
      | _ => true) := by
    cases write with
    | productUpdateOne filter value filePath => simpa using hwrites
    | productSoftDelete id tenant now => simpa using hwrites
    | _ => cases htarget
  have hread := List.all_eq_true.1 hreads n (List.mem_range.2 hnw)
  rw [callAlong_eq hn] at hread
  simp at hread

end Schedules

/-! ## The note of a request -/

/-- Where a list has its result from, and whether a change has found its product. -/
structure ShopNote where
  source : Option (ProductList ⊕ List CatalogProduct)
  missed : Bool

namespace ShopNote

def note : (o : ShopCall) → Except ApiError o.Reply → ShopNote → ShopNote
  | .cache _ (.get _), .ok (some cached), g => { g with source := some (.inl cached) }
  | .productFindList .., .ok rows, g => { g with source := some (.inr rows) }
  | .productUpdateOne .., .ok none, g => { g with missed := true }
  | .productSoftDelete .., .ok none, g => { g with missed := true }
  | _, _, g => g

/-- A list stores what it has read, and a change that has found its product clears the cache. -/
def may : ShopCall → ShopNote → Prop
  | .cache _ (.set key result _), g => key.startsWith "products:" ∧ g.source = some (.inr result.data)
  | .cache _ (.del keyPrefix), g => keyPrefix = "products:" ∧ g.missed = false
  | _, _ => True

end ShopNote

def shopMemo : Memo ShopCalls ApiError ShopNote where
  note := ShopNote.note
  may := ShopNote.may
  allows _ _ := True

/-- A list returns what it has found in the cache, or the rows that it has read. -/
def ShopRequest.Ends : Except ApiError ShopResponse → ShopNote → Prop
  | .ok (.list result), g => g.source = some (.inl result) ∨ g.source = some (.inr result.data)
  | _, _ => True

theorem shopMemo_error (o : ShopCall) (e : ApiError) (g : ShopNote) : shopMemo.note o (.error e) g = g := by
  cases o with
  | cache now op => cases op <;> rfl
  | _ => rfl

theorem cacheKey_startsWith (tenant : String) (query : Query) : (cacheKey tenant query).startsWith "products:" := by
  rw [String.startsWith_string_iff, cacheKey, String.toList_append, String.toList_append, String.toList_append,
    List.append_assoc, List.append_assoc]
  exact List.prefix_append _ _

section Tracks

variable (cfg : ShopConfig)

theorem readList_tracks (tenant : String) (query : Query) (countFirst : Bool) (g : ShopNote) :
    shopMemo.Tracks (fun r g' => ∀ data total, r = .ok (data, total) → g'.source = some (.inr data))
      (ProductService.readList cfg tenant query countFirst) g := by
  cases countFirst with
  | true =>
    refine ⟨trivial, fun r _ => ?_⟩
    obtain e | total := r
    · exact nofun
    refine ⟨trivial, fun r _ => ?_⟩
    obtain e | rows := r
    · exact nofun
    rintro _ _ ⟨⟩
    rfl
  | false =>
    refine ⟨trivial, fun r _ => ?_⟩
    obtain e | rows := r
    · exact nofun
    refine ⟨trivial, fun r _ => ?_⟩
    obtain e | total := r
    · exact nofun
    rintro _ _ ⟨⟩
    rfl

theorem list_tracks (now storedAt : Time) (tenant : String) (query : Query) (countFirst : Bool) :
    shopMemo.Tracks ShopRequest.Ends
      (ShopResponse.list <$> ProductService.list cfg now storedAt tenant query countFirst) ⟨none, false⟩ := by
  refine ⟨trivial, fun r _ => ?_⟩
  obtain e | (_ | cached) := r
  · trivial
  · show shopMemo.Tracks _ (Prog.bind (Prog.bind (ProductService.readList cfg tenant query countFirst) _) _) _
    refine Memo.Tracks.bind (Memo.Tracks.bind ((readList_tracks cfg tenant query countFirst _).weaken ?_))
    rintro (e | ⟨data, total⟩) g hg
    · trivial
    have hsource := hg data total rfl
    refine ⟨⟨cacheKey_startsWith tenant query, hsource⟩, fun r _ => ?_⟩
    obtain e | stored := r
    · trivial
    · exact Or.inr hsource
  · exact Or.inl rfl

theorem ShopRequest.tracks (request : ShopRequest) :
    shopMemo.Tracks ShopRequest.Ends (request.code cfg) ⟨none, false⟩ := by
  cases request with
  | create now req value filePath =>
    refine ⟨trivial, fun r _ => ?_⟩
    cases r with
    | error e => trivial
    | ok document => exact ⟨⟨rfl, rfl⟩, fun r _ => by cases r <;> trivial⟩
  | update now req id value filePath =>
    refine ⟨trivial, fun r _ => ?_⟩
    obtain e | (_ | document) := r
    · trivial
    · trivial
    · exact ⟨⟨rfl, rfl⟩, fun r _ => by cases r <;> trivial⟩
  | delete now tenant id =>
    refine ⟨trivial, fun r _ => ?_⟩
    obtain e | (_ | document) := r
    · trivial
    · trivial
    · exact ⟨⟨rfl, rfl⟩, fun r _ => by cases r <;> trivial⟩
  | list now storedAt tenant query countFirst => exact list_tracks cfg now storedAt tenant query countFirst

end Tracks

/-! ## Products -/

section Products

variable {cfg : ShopConfig}

/-- A row of a list is a product of its tenant that is there, and not deleted. -/
theorem mem_findList {shop : Shop} {filter : ProductFilter} {sort : String} {skip limit : ℤ}
    {row : CatalogProduct} (h : row ∈ (shop.repository cfg).findList filter sort skip limit) :
    shop.products.get? row.id = some row ∧ row.tenant = filter.tenant ∧ row.deletedAt = none := by
  have hmem := (cfg.arrange_perm _ _).mem_iff.1 (List.mem_of_mem_drop (List.mem_of_mem_take h))
  obtain ⟨hrow, hselects⟩ := List.mem_filter.1 hmem
  refine ⟨get?_eq_some.2 ⟨hrow, rfl⟩, ?_⟩
  simp only [ProductFilter.selects, Bool.and_eq_true, beq_iff_eq, Option.isNone_iff_eq_none] at hselects
  exact ⟨hselects.1.1.1.1.1.1.2, hselects.1.1.1.1.1.2⟩

/-- A product stays in its tenant, and stays deleted. -/
theorem exec_product (cfg : ShopConfig) (o : ShopCall) {shop : Shop} {id : ObjectId} {p : CatalogProduct}
    (hp : shop.products.get? id = some p) :
    ∃ q, ((shopMachine cfg).exec o shop).2.products.get? id = some q ∧ q.tenant = p.tenant ∧
      (p.deletedAt.isSome → q.deletedAt.isSome) := by
  have hupdated : ∀ other (f : Patch CatalogProduct), (f.run p).tenant = p.tenant →
      (p.deletedAt.isSome → (f.run p).deletedAt.isSome) → ∃ q,
        (shop.products.update other f).get? id = some q ∧ q.tenant = p.tenant ∧
          (p.deletedAt.isSome → q.deletedAt.isSome) := by
    intro other f htenant hdeleted
    rw [get?_update, hp]
    split
    · exact ⟨f.run p, rfl, htenant, hdeleted⟩
    · exact ⟨p, rfl, rfl, fun h => h⟩
  cases o with
  | productCreate draft now =>
    simp only [shopMachine, ShopCall.exec]
    (repeat' split) <;> first
      | exact ⟨p, hp, rfl, fun h => h⟩
      | exact ⟨p, (get?_insert _ _ (draft.key_record ..) _).trans ((if_neg (get?_lt hp).ne).trans hp), rfl, fun h => h⟩
  | productUpdateOne filter value filePath =>
    simp only [shopMachine, ShopCall.exec]
    (repeat' split) <;> first
      | exact ⟨p, hp, rfl, fun h => h⟩
      | exact hupdated _ _ rfl fun h => h
  | productSoftDelete other tenant now =>
    simp only [shopMachine, ShopCall.exec]
    (repeat' split) <;> first
      | exact ⟨p, hp, rfl, fun h => h⟩
      | exact hupdated _ _ rfl fun _ => rfl
  | _ => exact ⟨p, hp, rfl, fun h => h⟩

/-- What a change leaves of its product. -/
def Shop.Changed (shop : Shop) (write : ShopCall) (id : ObjectId) (tenant : String) : Prop :=
  ∃ p, shop.products.get? id = some p ∧ p.tenant = tenant ∧
    ∀ now, write = .productSoftDelete id tenant now → p.deletedAt.isSome

theorem exec_changed (o : ShopCall) {shop : Shop} {write : ShopCall} {id : ObjectId} {tenant : String}
    (h : shop.Changed write id tenant) : ((shopMachine cfg).exec o shop).2.Changed write id tenant := by
  obtain ⟨p, hp, rfl, hdeleted⟩ := h
  obtain ⟨q, hq, htenant, hkept⟩ := exec_product cfg o hp
  exact ⟨q, hq, htenant, fun now hwrite => hkept (hdeleted now (htenant ▸ hwrite))⟩

/-- A change that has found its product. -/
theorem exec_target {write : ShopCall} {id : ObjectId} {tenant : String}
    (htarget : write.target = some (id, tenant)) {shop : Shop} {g : ShopNote}
    (hfound : (ShopNote.note write ((shopMachine cfg).exec write shop).1 g).missed = false) :
    ((shopMachine cfg).exec write shop).2.Changed write id tenant := by
  cases write with
  | productUpdateOne filter value filePath =>
    obtain ⟨rfl, rfl⟩ := Prod.mk.inj (Option.some_inj.1 htarget)
    simp only [shopMachine, ShopCall.exec] at hfound ⊢
    split at hfound
    · next p hp =>
      by_cases haccepts : filter.accepts p
      · have htenant : p.tenant = filter.tenant := by
          simp only [UpdateFilter.accepts, Bool.and_eq_true, beq_iff_eq] at haccepts
          exact haccepts.1.1
        simp only [haccepts, Bool.not_true, Bool.false_eq_true, if_false]
        split
        · exact ⟨p, hp, htenant, by rintro _ ⟨⟩⟩
        · exact ⟨_, (get?_update_self _ _ _).trans (congrArg (Option.map _) hp), htenant, by rintro _ ⟨⟩⟩
      · simp [haccepts, ShopNote.note] at hfound
    · cases hfound
  | productSoftDelete id tenant now =>
    obtain ⟨rfl, rfl⟩ := Prod.mk.inj (Option.some_inj.1 htarget)
    simp only [shopMachine, ShopCall.exec] at hfound ⊢
    split at hfound
    · next p hp =>
      by_cases htenant : p.tenant = tenant
      · rw [if_pos htenant]
        exact ⟨_, (get?_update_self _ _ _).trans (congrArg (Option.map _) hp), htenant, fun _ _ => rfl⟩
      · simp [htenant, ShopNote.note] at hfound
    · cases hfound
  | _ => cases htarget

/-! ## The cache -/

/-- What a call leaves in the cache was there, or is what it stores. -/
theorem exec_memoryCache {o : ShopCall} {shop : Shop} {slot : Recency.Slot String ProductList Time}
    (h : slot ∈ ((shopMachine cfg).exec o shop).2.memoryCache.slots) :
    (slot ∈ shop.memoryCache.slots ∧ ∀ now keyPrefix, o = .cache now (.del keyPrefix) →
        slot.key.startsWith keyPrefix = false) ∨
      ∃ now ttlSeconds, o = .cache now (.set slot.key slot.value ttlSeconds) := by
  cases o with
  | cache now op =>
    obtain ⟨hold, hclears⟩ | ⟨ttlSeconds, rfl⟩ := mem_exec_slots h
    · refine .inl ⟨hold, ?_⟩
      rintro _ keyPrefix ⟨⟩
      exact hclears keyPrefix rfl
    · exact .inr ⟨now, ttlSeconds, rfl⟩
  | productCreate draft now =>
    refine .inl ⟨?_, by rintro _ _ ⟨⟩⟩
    simp only [shopMachine, ShopCall.exec] at h
    (repeat' split at h) <;> exact h
  | productUpdateOne filter value filePath =>
    refine .inl ⟨?_, by rintro _ _ ⟨⟩⟩
    simp only [shopMachine, ShopCall.exec] at h
    (repeat' split at h) <;> exact h
  | productSoftDelete id tenant now =>
    refine .inl ⟨?_, by rintro _ _ ⟨⟩⟩
    simp only [shopMachine, ShopCall.exec] at h
    (repeat' split at h) <;> exact h
  | productFindList filter sort skip limit => exact .inl ⟨h, by rintro _ _ ⟨⟩⟩
  | productCount filter => exact .inl ⟨h, by rintro _ _ ⟨⟩⟩

end Products

/-! ## Runs -/

section Runs

variable {cfg : ShopConfig} {c d e : ShopPool} {as : List (Action ShopRequest)}

/-- The rows are those that a list has read with step `n`. -/
def ListedAt (cfg : ShopConfig) (c : ShopPool) (as : List (Action ShopRequest)) (n : Nat)
    (filter : ProductFilter) (rows : List CatalogProduct) : Prop :=
  ∃ i sort skip limit e, ShopCallsAt cfg c as n i (.productFindList filter sort skip limit) ∧
    ShopRun cfg c (as.take n) e ∧ rows = (e.state.repository cfg).findList filter sort skip limit

theorem ListedAt.append {n : Nat} {filter : ProductFilter} {rows : List CatalogProduct}
    (h : ListedAt cfg c as n filter rows) (bs : List (Action ShopRequest)) :
    ListedAt cfg c (as ++ bs) n filter rows := by
  obtain ⟨i, sort, skip, limit, e, hcall, hrun, hrows⟩ := h
  refine ⟨i, sort, skip, limit, e, hcall.append bs, ?_, hrows⟩
  rwa [List.take_append_of_le_length hcall.lt.le]

theorem Completes.append {w x j : Nat} {write : ShopCall} {id : ObjectId} {tenant : String}
    (h : Completes cfg c as w x j write id tenant) (bs : List (Action ShopRequest)) :
    Completes cfg c (as ++ bs) w x j write id tenant := by
  obtain ⟨hlt, htarget, hw, now, hx⟩ := h
  exact ⟨hlt, htarget, hw.append bs, now, hx.append bs⟩

theorem Completes.take {w x j m : Nat} {write : ShopCall} {id : ObjectId} {tenant : String}
    (h : Completes cfg c as w x j write id tenant) (hm : x < m) :
    Completes cfg c (as.take m) w x j write id tenant := by
  obtain ⟨hlt, htarget, hw, now, hx⟩ := h
  exact ⟨hlt, htarget, hw.take (hlt.trans hm), now, hx.take hm⟩

theorem ListedAt.of_take {n m : Nat} {filter : ProductFilter} {rows : List CatalogProduct}
    (h : ListedAt cfg c (as.take m) n filter rows) : ListedAt cfg c as n filter rows := by
  have := h.append (as.drop m)
  rwa [List.take_append_drop] at this

theorem Completes.snoc_cases {a : Action ShopRequest} (hrun : ShopRun cfg c as d) {w x j : Nat}
    {write : ShopCall} {id : ObjectId} {tenant : String}
    (h : Completes cfg c (as ++ [a]) w x j write id tenant) :
    Completes cfg c as w x j write id tenant ∨
      ∃ now, a = .act j ∧ d.head? j = some (.cache now (.del "products:")) := by
  obtain ⟨hlt, htarget, hw, now, hx⟩ := h
  have hend := hx.lt
  rw [List.length_append, List.length_singleton] at hend
  rcases hx.snoc_cases hrun with hx | ⟨-, ha, hhead⟩
  · rcases hw.snoc_cases hrun with hw | ⟨hw, -⟩
    · exact .inl ⟨hlt, htarget, hw, now, hx⟩
    · omega
  · exact .inr ⟨now, ha, hhead⟩

theorem StoresCurrent.of_append {bs : List (Action ShopRequest)} (h : StoresCurrent cfg c (as ++ bs)) :
    StoresCurrent cfg c as :=
  fun n w x p i j write id filter sort skip limit now key result ttlSeconds hnw hxp hcompletes hread hset =>
    h n w x p i j write id filter sort skip limit now key result ttlSeconds hnw hxp (hcompletes.append bs)
      (hread.append bs) (hset.append bs)

theorem StoresCurrent.take (h : StoresCurrent cfg c as) (m : Nat) : StoresCurrent cfg c (as.take m) := by
  rw [← List.take_append_drop m as] at h
  exact h.of_append

/-- Along a run every request has a memo, and what is its source was found at some step. -/
theorem shop_noted (hstart : c.threads = []) (hrun : ShopRun cfg c as d) :
    ∃ gs, shopMemo.Minutes (fun _ => ShopRequest.Ends) d gs ∧ ∀ i g b, gs[i]? = some g → g.source = some b →
      Memo.NotedAt shopMemo (shopServer cfg) (fun _ _ => True) ShopNote.source c as d i b :=
  Memo.noted ShopNote.source (fun request => request.tracks cfg) (fun _ _ => trivial) (fun _ => trivial)
    (fun _ _ _ _ _ => trivial) (fun _ => rfl) (fun o g => congrArg ShopNote.source (shopMemo_error o _ g))
    hstart hrun

/-- Only a list's own read notes rows. -/
theorem source_of_inr {o : ShopCall} {r : Except ApiError o.Reply} {g : ShopNote}
    {rows : List CatalogProduct} (h : (ShopNote.note o r g).source = some (.inr rows))
    (ho : ∀ filter sort skip limit, o ≠ .productFindList filter sort skip limit) :
    g.source = some (.inr rows) := by
  unfold ShopNote.note at h
  split at h
  · cases h
  · exact absurd rfl (ho _ _ _ _)
  · exact h
  · exact h
  · exact h

/-- Only a hit notes a list. -/
theorem hit_of_inl {o : ShopCall} {shop : Shop} {g : ShopNote} {cached : ProductList}
    (h : (ShopNote.note o ((shopMachine cfg).exec o shop).1 g).source = some (.inl cached))
    (hnot : g.source ≠ some (.inl cached)) : ∃ slot ∈ shop.memoryCache.slots, slot.value = cached := by
  cases o with
  | cache now op =>
    cases op with
    | get key =>
      cases hreply : ((shopMachine cfg).exec (.cache now (.get key)) shop).1 with
      | error e =>
        rw [hreply] at h
        exact absurd h hnot
      | ok found =>
        rw [hreply] at h
        cases found with
        | none => exact absurd h hnot
        | some v =>
          obtain rfl := Sum.inl.inj (Option.some_inj.1 h)
          obtain ⟨slot, hslot, -, hvalue⟩ := mem_of_hit (Except.ok.inj hreply)
          exact ⟨slot, hslot, hvalue⟩
    | set key value ttlSeconds => exact absurd h hnot
    | del keyPrefix => exact absurd h hnot
  | productFindList filter sort skip limit => cases h
  | productCount filter => exact absurd h hnot
  | productCreate draft now => exact absurd h hnot
  | productUpdateOne filter value filePath =>
    have hsame : ∀ r : Except ApiError (Option CatalogProduct),
        (ShopNote.note (.productUpdateOne filter value filePath) r g).source = g.source := by
      rintro (e | (_ | document)) <;> rfl
    exact absurd ((hsame _).symm.trans h) hnot
  | productSoftDelete id tenant now =>
    have hsame : ∀ r : Except ApiError (Option CatalogProduct),
        (ShopNote.note (.productSoftDelete id tenant now) r g).source = g.source := by
      rintro (e | (_ | document)) <;> rfl
    exact absurd ((hsame _).symm.trans h) hnot

/-- Rows that are noted have been read. -/
theorem listedAt_of_noted {i : Nat} {rows : List CatalogProduct}
    (h : Memo.NotedAt shopMemo (shopServer cfg) (fun _ _ => True) ShopNote.source c as d i (.inr rows)) :
    ∃ n filter sort skip limit, ShopCallsAt cfg c as n i (.productFindList filter sort skip limit) ∧
      ListedAt cfg c as n filter rows := by
  obtain ⟨n, o, e, g, hcall, hrun, -, hnot, hfield⟩ := h.callsAt
  cases o with
  | productFindList filter sort skip limit =>
    obtain rfl := Sum.inr.inj (Option.some_inj.1 hfield)
    exact ⟨n, filter, sort, skip, limit, hcall, i, sort, skip, limit, e, hcall, hrun, rfl⟩
  | _ => exact absurd (source_of_inr hfield nofun) hnot

/-- What is in the cache was read after every change in its tenant that has cleared the cache since. -/
def CacheFresh (cfg : ShopConfig) (c : ShopPool) (as : List (Action ShopRequest)) (d : ShopPool) : Prop :=
  ∀ slot ∈ d.state.memoryCache.slots, slot.key.startsWith "products:" ∧
    ∃ n filter, ListedAt cfg c as n filter slot.value.data ∧
      ∀ w x j write id, n < w → ¬ Completes cfg c as w x j write id filter.tenant

theorem cacheFresh (hstart : c.threads = []) (hcache : c.state.memoryCache.slots = [])
    (hrun : ShopRun cfg c as d) (hcurrent : StoresCurrent cfg c as) : CacheFresh cfg c as d := by
  refine hrun.induct (P := fun as d => StoresCurrent cfg c as → CacheFresh cfg c as d) ?_ ?_ hcurrent
  · intro _ slot hslot
    rw [hcache] at hslot
    cases hslot
  · intro as d a e hrun _ hs ih hcurrent
    have hd := ih hcurrent.of_append
    -- An entry that was there stays fresh, unless the step clears it.
    have hkept : ∀ slot ∈ d.state.memoryCache.slots,
        (∀ j now, a = .act j → d.head? j = some (.cache now (.del "products:")) →
          slot.key.startsWith "products:" = false) →
        slot.key.startsWith "products:" ∧ ∃ n filter, ListedAt cfg c (as ++ [a]) n filter slot.value.data ∧
          ∀ w x j write id, n < w → ¬ Completes cfg c (as ++ [a]) w x j write id filter.tenant := by
      intro slot hslot hclears
      obtain ⟨hkey, n, filter, hlisted, hbefore⟩ := hd slot hslot
      refine ⟨hkey, n, filter, hlisted.append _, fun w x j write id hnw hcompletes => ?_⟩
      rcases hcompletes.snoc_cases hrun with hcompletes | ⟨now, ha, hhead⟩
      · exact hbefore w x j write id hnw hcompletes
      · simp [hclears j now ha hhead] at hkey
    obtain ⟨hstate, hnone⟩ | ⟨i, o, rfl, hhead, hstate⟩ := System.step_state hs
    · intro slot hslot
      rw [hstate] at hslot
      exact hkept slot hslot fun j now ha hhead => absurd hhead (hnone j _ ha)
    · intro slot hslot
      rw [hstate] at hslot
      obtain ⟨hold, hclears⟩ | ⟨now, ttlSeconds, rfl⟩ := exec_memoryCache hslot
      · refine hkept slot hold fun j now ha hclear => ?_
        obtain rfl := Action.act.inj ha
        exact hclears now _ (Option.some_inj.1 (hhead.symm.trans hclear))
      · obtain ⟨gs, hminutes, hnoted⟩ := shop_noted hstart hrun
        obtain ⟨g, hi, hkey, hsource⟩ := hminutes.head hhead
        obtain ⟨n, filter, sort, skip, limit, hcall, hlisted⟩ := listedAt_of_noted (hnoted i g _ hi hsource)
        refine ⟨hkey, n, filter, hlisted.append _, fun w x j write id hnw hcompletes => ?_⟩
        have hset : ShopCallsAt cfg c (as ++ [.act i]) as.length i
            (.cache now (.set slot.key slot.value ttlSeconds)) :=
          ⟨by simp, d, by rwa [List.take_left], hhead⟩
        rcases hcompletes.snoc_cases hrun with hold | ⟨now', ha, hclear⟩
        · obtain ⟨-, -, -, _, hx⟩ := hold
          exact hcurrent n w x as.length i j write id filter sort skip limit now _ _ ttlSeconds hnw hx.lt
            hcompletes (hcall.append _) hset
        · obtain rfl := Action.act.inj ha
          cases hhead.symm.trans hclear

/-- A product stays in its tenant. -/
theorem run_tenant (hrun : ShopRun cfg c as d) {id : ObjectId} {p : CatalogProduct}
    (hp : c.state.products.get? id = some p) :
    ∃ q, d.state.products.get? id = some q ∧ q.tenant = p.tenant := by
  refine hrun.invariant (P := fun c => ∃ q, c.state.products.get? id = some q ∧ q.tenant = p.tenant)
    (fun c a d _ hs hc => ?_) ⟨p, hp, rfl⟩
  obtain ⟨hsame, -⟩ | ⟨i, o, -, -, hsame⟩ := System.step_state hs
  · exact hsame ▸ hc
  · obtain ⟨q, hq, htenant⟩ := hc
    obtain ⟨r, hr, hkept, -⟩ := exec_product cfg o hq
    exact ⟨r, hsame ▸ hr, hkept.trans htenant⟩

/-- What a change has left stays. -/
theorem run_changed (hrun : ShopRun cfg c as d) {write : ShopCall} {id : ObjectId} {tenant : String}
    (h : c.state.Changed write id tenant) : d.state.Changed write id tenant := by
  refine hrun.invariant (P := fun c => c.state.Changed write id tenant) (fun c a d _ hs hc => ?_) h
  obtain ⟨hsame, -⟩ | ⟨i, o, -, -, hsame⟩ := System.step_state hs
  · exact hsame ▸ hc
  · exact hsame ▸ exec_changed o hc

/-- A change that clears the cache has found its product. -/
theorem changed_of_completes (hstart : c.threads = []) (hrun : ShopRun cfg c as d) {w x j : Nat}
    {write : ShopCall} {id : ObjectId} {tenant : String} (h : Completes cfg c as w x j write id tenant)
    (he : ShopRun cfg c (as.take (w + 1)) e) : e.state.Changed write id tenant := by
  obtain ⟨hwx, htarget, hw, now, hx⟩ := h
  obtain ⟨dw, hdw⟩ := System.Run.before hrun w
  obtain ⟨dx, hdx⟩ := System.Run.before hrun x
  obtain ⟨hhead, hs⟩ := hw.step hdw he
  have hkeep : ∀ (o : ShopCall) (r : Except ApiError o.Reply) (g : ShopNote), ShopNote.may o g →
      g.missed = true → (ShopNote.note o r g).missed = true := by
    intro o r g _ hg
    unfold ShopNote.note
    split <;> first | exact hg | rfl
  obtain ⟨gs, hminutes, -⟩ := shop_noted hstart hdw
  obtain ⟨⟨l, p⟩, ht, hp⟩ := Option.bind_eq_some_iff.1 hhead
  obtain ⟨g, -, htracks⟩ := hminutes.memo ht
  cases p with
  | done r => cases hp
  | call o k =>
    obtain rfl := Option.some_inj.1 hp
    obtain ⟨h, -⟩ | ⟨o, k', hcall, ⟨-, hstate, he'⟩ | ⟨h, -⟩ | ⟨h, -⟩⟩ := System.step_thread _ hs ht
    · exact absurd rfl h
    · obtain ⟨rfl, hk⟩ := Prog.call.inj hcall
      obtain rfl := eq_of_heq hk
      rw [hstate]
      refine exec_target (g := g) htarget (Bool.eq_false_of_not_eq_true fun hmissed => ?_)
      -- A change that has found nothing does not go on to clear the cache.
      obtain ⟨p, g', hpx, htracks', hmissed'⟩ := Memo.Tracks.run (G := shopMemo)
        (P := fun g => g.missed = true) (System.Run.between hwx he hdx) (fun _ _ => trivial)
        (fun _ => trivial) (fun _ => trivial) hkeep he' (htracks.2 _ trivial) hmissed
      obtain ⟨-, y, hy, hclears⟩ := hx
      obtain rfl := Option.some_inj.1 (hy.play_eq.symm.trans hdx.play_eq)
      rw [Pool.head?, hpx, Option.bind_some] at hclears
      cases p with
      | done r => cases hclears
      | call o' k'' =>
        obtain rfl := Option.some_inj.1 hclears
        simp [htracks'.1.2] at hmissed'
    · cases h
    · cases h

/-- A list that starts after a change has completed returns rows that were read after the change, unless they
are of another tenant. -/
theorem listed_after (hstart : c.threads = []) (hcache : c.state.memoryCache.slots = [])
    (hrun : ShopRun cfg c as d) (hcurrent : StoresCurrent cfg c as) {w x j k : Nat} {write : ShopCall}
    {id : ObjectId} {tenant : String} {g : ShopPool} {request : ShopRequest} {result : ProductList}
    (hcompletes : Completes cfg c as w x j write id tenant) (hg : ShopRun cfg c (as.take (x + 1)) g)
    (hlater : g.threads.length ≤ k) (hdone : d.threads[k]? = some ⟨request, .done (.ok (.list result))⟩) :
    ∃ n filter, (filter.tenant = tenant → w < n) ∧ ListedAt cfg c as n filter result.data := by
  have hwx := hcompletes.1
  obtain ⟨gs, hminutes, hnoted⟩ := shop_noted hstart hrun
  obtain ⟨memo, hk, hends⟩ := hminutes.memo hdone
  -- The list has looked for its result after it has started.
  have hposition : ∀ {n i o e}, i = k → ShopCallsAt cfg c as n i o → ShopRun cfg c (as.take n) e →
      e.head? i = some o → x < n := by
    rintro n i o e rfl hcall he hhead
    by_contra hle
    have hstarted := System.head?_lt hhead
    have hgrows := System.Run.length_le (System.Run.between (by omega : n ≤ x + 1) he hg)
    omega
  rcases hends with hsource | hsource
  · obtain ⟨n, o, e, memo', hcall, he, hhead, hnot, hfield⟩ := (hnoted k memo _ hk hsource).callsAt
    have hxn := hposition rfl hcall he hhead
    obtain ⟨slot, hslot, rfl⟩ := hit_of_inl hfield hnot
    obtain ⟨-, m, filter, hread, hbefore⟩ := cacheFresh hstart hcache he (hcurrent.take n) slot hslot
    refine ⟨m, filter, ?_, hread.of_take⟩
    rintro rfl
    have hcompleted := hcompletes.take hxn
    rcases Nat.lt_trichotomy m w with hlt | rfl | hlt
    · exact absurd hcompleted (hbefore w x j write id hlt)
    · obtain ⟨_, _, _, _, _, hlist, -⟩ := hread
      obtain ⟨-, rfl⟩ := hlist.unique hcompleted.2.2.1
      cases hcompletes.2.1
    · exact hlt
  · obtain ⟨n, filter, sort, skip, limit, hcall, hlisted⟩ := listedAt_of_noted (hnoted k memo _ hk hsource)
    obtain ⟨e, he, hhead⟩ := hcall.2
    exact ⟨n, filter, fun _ => hwx.trans (hposition rfl hcall he hhead), hlisted⟩

/-- A product that was deleted before a list has read is not listed. -/
theorem ListedAt.deleted {n w : Nat} {filter : ProductFilter} {rows : List CatalogProduct}
    (h : ListedAt cfg c as n filter rows) (hwn : w < n) {id : ObjectId} {tenant : String} {now : Time}
    (he : ShopRun cfg c (as.take (w + 1)) e)
    (hchanged : e.state.Changed (.productSoftDelete id tenant now) id tenant) : ∀ row ∈ rows, row.id ≠ id := by
  obtain ⟨i, sort, skip, limit, e', hcall, he', rfl⟩ := h
  rintro row hrow rfl
  obtain ⟨hget, -, hthere⟩ := mem_findList hrow
  obtain ⟨p, hp, -, hgone⟩ := run_changed (System.Run.between hwn he he') hchanged
  obtain rfl := Option.some_inj.1 (hp.symm.trans hget)
  simpa [hthere] using hgone now rfl

/-- A list of another tenant has read neither the product nor any other of the tenant of the change. -/
theorem ListedAt.elsewhere {n w : Nat} {filter : ProductFilter} {rows : List CatalogProduct}
    (h : ListedAt cfg c as n filter rows) (hnw : n ≤ w + 1) {write : ShopCall} {id : ObjectId} {tenant : String}
    (hne : filter.tenant ≠ tenant) (he : ShopRun cfg c (as.take (w + 1)) e)
    (hchanged : e.state.Changed write id tenant) : ∀ row ∈ rows, ¬ (row.id = id ∨ row.tenant = tenant) := by
  obtain ⟨i, sort, skip, limit, e', hcall, he', rfl⟩ := h
  intro row hrow
  obtain ⟨hget, htenant, -⟩ := mem_findList hrow
  rintro (rfl | rfl)
  · -- The product is of the tenant of the change, at the read as at the change.
    obtain ⟨p, hp, hptenant⟩ := run_tenant (System.Run.between hnw he' he) hget
    obtain ⟨q, hq, hqtenant, -⟩ := hchanged
    obtain rfl := Option.some_inj.1 (hp.symm.trans hq)
    exact hne (htenant.symm.trans (hptenant.symm.trans hqtenant))
  · exact hne htenant.symm

/-- A list that starts after a change has completed returns what was there after the change, as long
as no list stores what it has read before a change in its tenant that has cleared the cache. -/
theorem invalidation_wins (hstart : c.threads = []) (hcache : c.state.memoryCache.slots = [])
    (hrun : ShopRun cfg c as d) (hcurrent : StoresCurrent cfg c as) : InvalidationWins cfg c as d := by
  intro w x j k write id tenant g request result hcompletes hg hlater hdone
  obtain ⟨n, filter, hafter, hlisted⟩ := listed_after hstart hcache hrun hcurrent hcompletes hg hlater hdone
  obtain ⟨ew, hew⟩ := System.Run.before hrun (w + 1)
  have hchanged := changed_of_completes hstart hrun hcompletes hew
  by_cases hwn : w < n
  · refine ⟨?_, ?_⟩
    · obtain ⟨i, sort, skip, limit, e, hcall, he, hrows⟩ := hlisted
      exact ⟨n, e, hwn, he, fun row hrow _ => (mem_findList (hrows ▸ hrow)).1⟩
    · rintro now rfl
      exact hlisted.deleted hwn hew hchanged
  · have hother := hlisted.elsewhere (by omega : n ≤ w + 1) (fun h => hwn (hafter h)) hew hchanged
    exact ⟨⟨w + 1, ew, Nat.lt_succ_self w, hew, fun row hrow h => absurd h (hother row hrow)⟩,
      fun _ _ row hrow h => hother row hrow (.inl h)⟩

end Runs

/-! ## A deletion -/

/-- A configuration to try lists on. No text matches a search, and rows are listed as they are stored. -/
def sampleShop : ShopConfig where
  cache := ⟨100, 60⟩
  dates := ⟨fun _ => none, fun _ => ""⟩
  test _ _ := false
  arrange _ rows := rows
  arrange_perm _ _ := .refl _

/-- One product, and an empty cache. -/
def mugShop : Shop where
  products := (∅ : Collection CatalogProduct).insert
    ⟨0, "t", none, "mug", "", 10, none, none, none, 5, true, [], "mug.png", none, 0⟩ rfl
  memoryCache := JsMap.empty

/-- A list of all products. -/
def listAll (now storedAt : Time) : ShopRequest := .list now storedAt "t" (fun _ => none) false

/-- A list from its start to its end, the deletion of the mug, and another list. -/
def deletedBetween : List (Action ShopRequest) :=
  [.spawn (listAll 0 1), .act 0, .act 0, .act 0, .act 0, .spawn (.delete 2 "t" 0), .act 1, .act 1,
    .spawn (listAll 3 4), .act 2, .act 2, .act 2, .act 2]

/-- The rows that a thread has returned. -/
def rowsOf (d : ShopPool) (k : Nat) : Option (List ObjectId) :=
  d.threads[k]?.bind fun t => match t.prog.result? with
    | some (.ok (.list result)) => some (result.data.map (·.id))
    | _ => none

theorem invalidation_wins_deletedBetween :
    ∃ d, ShopRun sampleShop ⟨mugShop, []⟩ deletedBetween d ∧ rowsOf d 0 = some [0] ∧ rowsOf d 2 = some [] ∧
      InvalidationWins sampleShop ⟨mugShop, []⟩ deletedBetween d := by
  obtain ⟨d, hd, h⟩ := (Option.any_eq_true _ _).1 (by decide +kernel :
    ((shopServer sampleShop).play (fun _ a => a.unfailing) ⟨mugShop, []⟩ deletedBetween).any fun d =>
      decide (rowsOf d 0 = some [0] ∧ rowsOf d 2 = some []))
  simp only [decide_eq_true_eq] at h
  have hrun : ShopRun sampleShop ⟨mugShop, []⟩ deletedBetween d :=
    (System.Run.of_play hd).mono fun _ _ _ => trivial
  have hcurrent : StoresCurrent sampleShop ⟨mugShop, []⟩ deletedBetween := .of_storesAlong (by decide +kernel)
  exact ⟨d, hrun, h.1, h.2, invalidation_wins rfl rfl hrun hcurrent⟩

/-- The mug is deleted while a list is about to store its result. -/
def deletedMeanwhile : List (Action ShopRequest) :=
  [.spawn (listAll 0 2), .act 0, .act 0, .act 0, .spawn (.delete 1 "t" 0), .act 1, .act 1, .act 0,
    .spawn (listAll 3 4), .act 2]

/-- The list that starts after the deletion returns the mug. -/
theorem invalidation_wins_counterexample :
    ∃ d, ShopRun sampleShop ⟨mugShop, []⟩ deletedMeanwhile d ∧ rowsOf d 2 = some [0] ∧
      ¬ InvalidationWins sampleShop ⟨mugShop, []⟩ deletedMeanwhile d := by
  obtain ⟨d, hd, h⟩ := (Option.any_eq_true _ _).1 (by decide +kernel :
    ((shopServer sampleShop).play (fun _ a => a.unfailing) ⟨mugShop, []⟩ deletedMeanwhile).any fun d =>
      decide (rowsOf d 2 = some [0]))
  have hrows := of_decide_eq_true h
  have hrun : ShopRun sampleShop ⟨mugShop, []⟩ deletedMeanwhile d :=
    (System.Run.of_play hd).mono fun _ _ _ => trivial
  refine ⟨d, hrun, hrows, fun hwins => ?_⟩
  have hcompletes : Completes sampleShop ⟨mugShop, []⟩ deletedMeanwhile 5 6 1
      (.productSoftDelete 0 "t" 1) 0 "t" :=
    ⟨by decide, rfl, callsAt_of_callAlong (by decide +kernel), 1, callsAt_of_callAlong (by decide +kernel)⟩
  obtain ⟨g, hg, hstarted⟩ := (Option.any_eq_true _ _).1 (by decide +kernel :
    ((shopServer sampleShop).play (fun _ a => a.unfailing) ⟨mugShop, []⟩ (deletedMeanwhile.take 7)).any fun g =>
      decide (g.threads.length ≤ 2))
  obtain ⟨⟨request, p⟩, ht, hresult⟩ := Option.bind_eq_some_iff.1 hrows
  split at hresult
  · next result hdone =>
    have hp : p = .done (.ok (.list result)) := by
      cases p with
      | done r => exact congrArg Prog.done (Option.some_inj.1 hdone)
      | call o k => cases hdone
    obtain ⟨row, hrow, hid⟩ : ∃ row ∈ result.data, row.id = 0 := by
      have hmem : (0 : ObjectId) ∈ result.data.map (·.id) := by
        rw [Option.some_inj.1 hresult]
        exact List.mem_singleton_self _
      exact List.mem_map.1 hmem
    exact (hwins 5 6 1 2 _ 0 "t" g request result hcompletes
      ((System.Run.of_play hg).mono fun _ _ _ => trivial) (of_decide_eq_true hstarted) (hp ▸ ht)).2 1 rfl
      row hrow hid
  · cases hresult

end Ecommerce
