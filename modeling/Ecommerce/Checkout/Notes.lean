import Ecommerce.Effect.Memo
import Ecommerce.Model.Calls

/-!
# Notes on a checkout

The rules by which the steps of a checkout keep to a memo, whatever the database replies. The list of
undo calls is part of what the steps say.
-/

namespace Ecommerce

open Effect

variable {γ α β : Type} {G : Memo Mongo ApiError γ}

/-- What a step of checkout does to the note: it returns with `Q`, or it throws with `E`. -/
def CheckoutM.Notes (G : Memo Mongo ApiError γ) (m : CheckoutM α) (P : List DbOp → γ → Prop)
    (Q : α → List DbOp → γ → Prop) (E : List DbOp → γ → Prop) : Prop :=
  ∀ undo g, P undo g → G.Tracks (fun r g => ∃ x undo, r = .ok (x, undo) ∧
    match x with
    | .ok a => Q a undo g
    | .error _ => E undo g) (m.run.run undo) g

namespace CheckoutM.Notes

variable {P : List DbOp → γ → Prop} {Q : α → List DbOp → γ → Prop} {R : β → List DbOp → γ → Prop}
  {E : List DbOp → γ → Prop}

theorem bind {m : CheckoutM α} {f : α → CheckoutM β} (h : m.Notes G P Q E)
    (hf : ∀ a, (f a).Notes G (Q a) R E) : (m >>= f).Notes G P R E := by
  intro undo g hP
  rw [checkoutM_bind]
  refine Memo.Tracks.bind ((h undo g hP).weaken ?_)
  rintro r g ⟨x, undo, rfl, hx⟩
  cases x with
  | ok a => exact hf a undo g hx
  | error e => exact ⟨_, _, rfl, hx⟩

theorem pure {a : α} (h : ∀ undo g, P undo g → Q a undo g) :
    (Pure.pure a : CheckoutM α).Notes G P Q E :=
  fun undo g hP => ⟨_, _, rfl, h undo g hP⟩

theorem throw {e : ApiError} (h : ∀ undo g, P undo g → E undo g) :
    (MonadExcept.throw e : CheckoutM α).Notes G P Q E :=
  fun undo g hP => ⟨_, _, rfl, h undo g hP⟩

theorem pushUndo {o : DbOp} {Q : Unit → List DbOp → γ → Prop}
    (h : ∀ undo g, P undo g → Q () (o :: undo) g) : (Ecommerce.pushUndo o).Notes G P Q E :=
  fun undo g hP => ⟨_, _, rfl, h undo g hP⟩

theorem attempt {p : MongoM α}
    (h : ∀ undo g, P undo g → G.Tracks (fun r g => match r with
      | .ok a => Q a undo g
      | .error _ => E undo g) p g) : (Ecommerce.attempt p).Notes G P Q E := by
  intro undo g hP
  refine Memo.Tracks.bind (Memo.Tracks.attempt ((h undo g hP).weaken fun r g hr => ?_))
  exact ⟨r, undo, rfl, hr⟩

/-- A single call. -/
theorem call {o : DbOp} {Q : o.Reply → List DbOp → γ → Prop}
    (h : ∀ undo g, P undo g → G.may o g ∧ ∀ r, G.allows o r →
      match r with
      | .ok a => Q a undo (G.note o r g)
      | .error _ => E undo (G.note o r g)) : (Ecommerce.attempt (db o)).Notes G P Q E := by
  intro undo g hP
  obtain ⟨hmay, hreply⟩ := h undo g hP
  refine ⟨hmay, fun r hr => ⟨r, undo, rfl, ?_⟩⟩
  have hr' := hreply r hr
  cases r <;> exact hr'

/-- Calls that the note is silent about. -/
theorem unnoted {p : MongoM α} (hp : p.Issues G.Unnoted) (hQ : ∀ a undo g, P undo g → Q a undo g)
    (hE : ∀ undo g, P undo g → E undo g) : (Ecommerce.attempt p).Notes G P Q E :=
  attempt fun undo g hP => Memo.tracks_unnoted hp fun r => by
    cases r with
    | ok a => exact hQ a undo g hP
    | error e => exact hE undo g hP

theorem forM {coupon : Option β} {f : β → CheckoutM PUnit} (hf : ∀ c, (f c).Notes G P (fun _ => P) E) :
    (coupon.forM f).Notes G P (fun _ => P) E := by
  cases coupon with
  | none => exact pure fun undo g h => h
  | some c => exact hf c

end CheckoutM.Notes
end Ecommerce
