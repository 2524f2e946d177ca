import Mathlib.Data.List.Chain
import Mathlib.Data.List.Induction

/-!
# Hash-linked logs

A log whose entries are numbered from one and carry, in the part that is hashed, the hash of the
entry before them.

## Main definitions

* `Scheme` — how an entry is hashed, and where its number and its link are.
* `Scheme.Linked` — the check that goes through a log.

## Main results

* `Scheme.linked_concat` — what a new last entry has to satisfy.
* `Scheme.Intact.getLast?_of_free` — the last entry is the one whose next number is free.
* `Scheme.body_eq` — where hashes do not collide, the last hash determines all that is hashed.
-/

namespace Chain

/-- The hashed part of an entry, the hash it stores, and what the hashed part holds. -/
structure Scheme (E B H : Type*) where
  body : E → B
  head : E → H
  position : B → Nat
  previous : B → H
  digest : B → H
  genesis : H

namespace Scheme

variable {E B H : Type*} (S : Scheme E B H)

/-- The entries that may follow `n` entries of which the last one has the hash `h`. -/
def Linked : Nat → H → List E → Prop
  | _, _, [] => True
  | n, h, e :: es =>
    S.position (S.body e) = n + 1 ∧ S.previous (S.body e) = h ∧ S.head e = S.digest (S.body e) ∧
      Linked (n + 1) (S.head e) es

instance decidableLinked [DecidableEq H] : ∀ n h es, Decidable (S.Linked n h es)
  | _, _, [] => instDecidableTrue
  | n, _, e :: es =>
    have := decidableLinked (n + 1) (S.head e) es
    inferInstanceAs (Decidable (_ ∧ _ ∧ _ ∧ _))

/-- A whole log, from its first entry on. -/
def Intact (es : List E) : Prop := S.Linked 0 S.genesis es

instance [DecidableEq H] (es : List E) : Decidable (S.Intact es) :=
  inferInstanceAs (Decidable (S.Linked _ _ _))

/-- The hash that the next entry links to. -/
def lastHead (es : List E) : H := (es.getLast?.map S.head).getD S.genesis

variable {S} {n : Nat} {h : H} {e : E} {es es' : List E}

@[simp] theorem lastHead_concat : S.lastHead (es ++ [e]) = S.head e := by simp [lastHead]

theorem linked_concat :
    S.Linked n h (es ++ [e]) ↔
      S.Linked n h es ∧ S.position (S.body e) = n + es.length + 1 ∧
        S.previous (S.body e) = (es.getLast?.map S.head).getD h ∧ S.head e = S.digest (S.body e) := by
  induction es generalizing n h with
  | nil => simp [Linked]
  | cons d es ih =>
    have hlast : ((d :: es).getLast?.map S.head).getD h = (es.getLast?.map S.head).getD (S.head d) := by
      rw [List.getLast?_cons]
      cases es.getLast? <;> rfl
    have hlength : n + (d :: es).length + 1 = n + 1 + es.length + 1 := by simp; omega
    simp only [List.cons_append, Linked, ih, hlast, hlength, and_assoc]

theorem intact_concat :
    S.Intact (es ++ [e]) ↔
      S.Intact es ∧ S.position (S.body e) = es.length + 1 ∧ S.previous (S.body e) = S.lastHead es ∧
        S.head e = S.digest (S.body e) := by
  rw [Intact, linked_concat, Nat.zero_add]
  rfl

@[simp] theorem intact_nil : S.Intact [] := trivial

theorem Intact.position_eq (hs : S.Intact es) {i : Nat} (hi : es[i]? = some e) :
    S.position (S.body e) = i + 1 := by
  induction es using List.reverseRecOn with
  | nil => simp at hi
  | append_singleton es d ih =>
    obtain ⟨hes, hpos, -⟩ := intact_concat.1 hs
    obtain hlt | heq := Nat.lt_or_eq_of_le (Nat.le_of_lt_succ (by
      simpa using (List.getElem?_eq_some_iff.1 hi).1))
    · exact ih hes (by simpa [List.getElem?_append_left hlt] using hi)
    · obtain rfl : d = e := by simpa [heq] using hi
      rw [hpos, heq]

theorem Intact.head_eq (hs : S.Intact es) (he : e ∈ es) : S.head e = S.digest (S.body e) := by
  induction es using List.reverseRecOn with
  | nil => cases he
  | append_singleton es d ih =>
    obtain ⟨hes, -, -, hhead⟩ := intact_concat.1 hs
    obtain he | he := List.mem_append.1 he
    · exact ih hes he
    · obtain rfl := List.mem_singleton.1 he
      exact hhead

/-- The positions of an intact log are its indices, from one on. -/
theorem Intact.positions (hs : S.Intact es) :
    (es.map fun e => S.position (S.body e)) = List.range' 1 es.length := by
  refine List.ext_getElem (by simp) fun i hi _ => ?_
  have hlt : i < es.length := by simpa using hi
  simp [hs.position_eq (List.getElem?_eq_getElem hlt), Nat.add_comm]

/-- Each entry of an intact log links to the one before it. -/
theorem Intact.isChain (hs : S.Intact es) : es.IsChain fun d e => S.previous (S.body e) = S.head d := by
  induction es using List.reverseRecOn with
  | nil => exact .nil
  | append_singleton es d ih =>
    obtain ⟨hes, -, hprev, -⟩ := intact_concat.1 hs
    refine List.isChain_append.2 ⟨ih hes, .singleton d, fun x hx y hy => ?_⟩
    obtain rfl : d = y := by simpa using hy
    rw [hprev, lastHead, show es.getLast? = some x from hx]
    rfl

theorem Intact.first (hs : S.Intact es) (he : es.head? = some e) : S.previous (S.body e) = S.genesis := by
  cases es with
  | nil => cases he
  | cons d es =>
    obtain rfl := Option.some.inj he
    exact hs.2.1

/-- The entry that no other entry follows is the last one. -/
theorem Intact.getLast?_of_free (hs : S.Intact es) (he : e ∈ es)
    (hfree : ∀ d ∈ es, S.position (S.body d) ≠ S.position (S.body e) + 1) : es.getLast? = some e := by
  obtain ⟨i, hi⟩ := List.mem_iff_getElem?.1 he
  have hpos := hs.position_eq hi
  have hlast : es.length = i + 1 := by
    by_contra hne
    have hlt := (List.getElem?_eq_some_iff.1 hi).1
    have hnext : es[i + 1]? = some es[i + 1] := List.getElem?_eq_getElem (by omega)
    exact hfree _ (List.mem_of_getElem? hnext) (by rw [hs.position_eq hnext, hpos])
  rw [List.getLast?_eq_getElem?, hlast]
  exact hi

/-- Where the first position is free, nothing has been logged. -/
theorem Intact.eq_nil_of_free (hs : S.Intact es) (hfree : ∀ d ∈ es, S.position (S.body d) ≠ 1) : es = [] := by
  cases es with
  | nil => rfl
  | cons d es => exact absurd (hs.1) (by simpa using hfree d List.mem_cons_self)

/-- For logs of one length, the link of the next entry says what the last hash is. -/
theorem getLast?_eq_of_lastHead_eq (hlength : es.length = es'.length) (h : S.lastHead es = S.lastHead es') :
    es.getLast?.map S.head = es'.getLast?.map S.head := by
  obtain rfl | ⟨as, a, rfl⟩ := List.eq_nil_or_concat es
  · obtain rfl : es' = [] := List.length_eq_zero_iff.1 hlength.symm
    rfl
  · obtain rfl | ⟨bs, b, rfl⟩ := List.eq_nil_or_concat es'
    · simp at hlength
    · simpa [List.concat_eq_append] using h

/-- Where no entry of one log collides with one of the other, two intact logs that end in the same
hash agree on all that is hashed, from the last entry back to the first. -/
theorem body_eq (hinj : ∀ e ∈ es, ∀ e' ∈ es', S.digest (S.body e) = S.digest (S.body e') → S.body e = S.body e')
    (h : S.Intact es) (h' : S.Intact es')
    (hend : es.getLast?.map S.head = es'.getLast?.map S.head) : es.map S.body = es'.map S.body := by
  induction es using List.reverseRecOn generalizing es' with
  | nil =>
    obtain rfl : es' = [] := by simpa using hend.symm
    rfl
  | append_singleton es e ih =>
    obtain rfl | ⟨es', e', rfl⟩ := List.eq_nil_or_concat es'
    · simp at hend
    rw [List.concat_eq_append] at *
    obtain ⟨hes, hpos, hprev, hhead⟩ := intact_concat.1 h
    obtain ⟨hes', hpos', hprev', hhead'⟩ := intact_concat.1 h'
    have hbody : S.body e = S.body e' := by
      apply hinj e (by simp) e' (by simp)
      rw [← hhead, ← hhead']
      simpa using hend
    have hlength : es.length = es'.length := by
      rw [hbody] at hpos
      omega
    have hlast := getLast?_eq_of_lastHead_eq hlength (by rw [← hprev, ← hprev', hbody])
    have hinit := ih (fun d hd d' hd' => hinj d (by simp [hd]) d' (by simp [hd'])) hes hes' hlast
    simp [hinit, hbody]

end Scheme

end Chain
