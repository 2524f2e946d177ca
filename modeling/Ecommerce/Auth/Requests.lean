import Ecommerce.Effect.Memo
import Ecommerce.Model.Auth

/-!
# Requests by what they find

A sign-up, a sign-in and a refresh each look for one account, or create it, and start or go on with a
session of it. Whatever is remembered of their calls, what has to be shown of them is what they do from
that account on.
-/

namespace Ecommerce

open Effect

namespace AuthOp

/-- Calls of these requests that are neither for an account nor find one. -/
def Aside : AuthOp → Prop
  | .userExistsByEmail _ | .randomUUID | .signalCreate _ | .refreshConsume _ _ | .sessionOfToken _ _
  | .sessionRevoked _ _ => True
  | _ => False

end AuthOp

section Rules

variable {cfg : AuthConfig} {γ : Type} {G : Memo AuthMongo ApiError γ} {P : TokenPair → γ → Prop} {g : γ}

/-- Where nothing is returned there is nothing to show. -/
theorem tracks_thrown {α : Type} {R : α → γ → Prop} (e : ApiError) :
    G.Tracks (fun r g => ∀ a, r = .ok a → R a g) (throw e : AuthM α) g := by
  rintro a ⟨⟩

theorem register_rule {value : RegisterInput} {tenant : String} {req : AuthHttp} {now : Time} {C : γ → Prop}
    (haside : ∀ o : AuthOp, o.Aside → G.Unnoted o)
    (hcheck : G.Tracks (fun r g => ∀ u, r = .ok u → C g) (assertSelfSignupAllowed cfg tenant) g)
    (hcreate : ∀ g salt, C g →
      let draft : UserDraft := ⟨value.name, value.email, cfg.hash value.password salt, tenant⟩
      G.may (.userCreate draft) g ∧ ∀ user : User,
        G.Tracks (fun r g => ∀ out, r = .ok out → P out.1 g) (startSession cfg user req now)
          (G.note (.userCreate draft) (.ok user) g)) :
    G.Tracks (fun r g => ∀ pair, r = .ok pair → P pair g) (register cfg value tenant req now) g := by
  refine Memo.Tracks.bind (hcheck.weaken fun r g hr => ?_)
  cases r with
  | error e => rintro pair ⟨⟩
  | ok u =>
    have hC := hr u rfl
    obtain ⟨hmay, hnote⟩ := haside (.userExistsByEmail value.email) trivial g
    refine ⟨hmay, fun r _ => ?_⟩
    rw [hnote r]
    obtain e | (_ | _) := r
    · exact tracks_thrown e
    · obtain ⟨hmay, hnote⟩ := haside .randomUUID trivial g
      refine ⟨hmay, fun r _ => ?_⟩
      rw [hnote r]
      cases r with
      | error e => exact tracks_thrown e
      | ok salt =>
        obtain ⟨hmay, hstart⟩ := hcreate g salt hC
        refine ⟨hmay, fun r _ => ?_⟩
        cases r with
        | error e => exact tracks_thrown e
        | ok user =>
          revert user
          intro (user : User) _
          refine Memo.Tracks.done_bind (Memo.Tracks.bind ((hstart user).weaken fun r g hr => ?_))
          cases r with
          | error e => rintro pair ⟨⟩
          | ok out =>
            rintro pair ⟨⟩
            exact hr out rfl
    · exact tracks_thrown _

theorem login_rule {value : LoginInput} {tenant : String} {req : AuthHttp} {now : Time}
    (haside : ∀ o : AuthOp, o.Aside → G.Unnoted o) (hmay : G.may (.userFindByEmail value.email) g)
    (hfound : ∀ user : User, G.Tracks (fun r g => ∀ out, r = .ok out → P out.1 g) (startSession cfg user req now)
      (G.note (.userFindByEmail value.email) (.ok (some user)) g)) :
    G.Tracks (fun r g => ∀ result, r = .ok result → P result.tokens g) (login cfg value tenant req now) g := by
  have hwrong : ∀ (signal : SecuritySignal) (g : γ), G.Tracks
      (fun r g => ∀ result : LoginResult, r = .ok result → P result.tokens g)
      (authDb (.signalCreate signal) >>= fun _ => throw CustomeErrorHandler.wrongCredentials) g := by
    intro signal g
    refine ⟨(haside (.signalCreate signal) trivial g).1, fun r _ => ?_⟩
    cases r with
    | error e => exact tracks_thrown e
    | ok u => exact tracks_thrown _
  refine ⟨hmay, fun r _ => ?_⟩
  obtain e | (_ | user) := r
  · exact tracks_thrown e
  · exact hwrong _ _
  · refine Memo.Tracks.done_bind ?_
    dsimp only
    split
    · exact hwrong _ _
    · refine Memo.Tracks.bind ((hfound user).weaken fun r g hr => ?_)
      cases r with
      | error e => rintro result ⟨⟩
      | ok out =>
        refine ⟨(haside (.signalCreate _) trivial g).1, fun r _ => ?_⟩
        rw [(haside (.signalCreate _) trivial g).2 r]
        cases r with
        | error e => exact tracks_thrown e
        | ok u =>
          rintro result ⟨⟩
          exact hr out rfl

theorem refresh_rule {token : String} {now : Time} (haside : ∀ o : AuthOp, o.Aside → G.Unnoted o)
    (hmay : ∀ id, G.may (.userFindById id) g)
    (hfound : ∀ id (user : User) sessionId, G.Tracks (fun r g => ∀ pair, r = .ok pair → P pair g)
      (rotate cfg user sessionId now) (G.note (.userFindById id) (.ok (some user)) g)) :
    G.Tracks (fun r g => ∀ pair, r = .ok pair → P pair g) (refresh cfg token now) g := by
  unfold refresh
  split
  · exact tracks_thrown _
  next claims _ =>
  split
  · exact tracks_thrown _
  obtain ⟨hconsume, hnote⟩ := haside (.refreshConsume (tokenLookup cfg token) now) trivial g
  refine ⟨hconsume, fun r _ => ?_⟩
  rw [hnote r]
  obtain e | (_ | row) := r
  · exact tracks_thrown e
  · exact tracks_thrown _
  show G.Tracks _ (ite _ _ _) g
  split
  · exact tracks_thrown _
  refine ⟨hmay claims._id, fun r _ => ?_⟩
  obtain e | (_ | user) := r
  · exact tracks_thrown e
  · exact tracks_thrown _
  refine Memo.Tracks.done_bind (Memo.Tracks.bind ?_)
  have hsession : (sessionOf claims user.id row.id).Issues G.Unnoted := by
    rcases hsid : claims.sid with _ | _ | _ <;> rw [sessionOf, hsid]
    · exact Prog.issues_perform (haside _ trivial)
    · trivial
    · trivial
  refine Memo.tracks_unnoted hsession fun r => ?_
  obtain e | (_ | id) := r
  · rintro pair ⟨⟩
  · exact hfound claims._id user none
  · obtain ⟨hrevoked, hnote⟩ := haside (.sessionRevoked id none) trivial
      (G.note (.userFindById claims._id) (.ok (some user)) g)
    refine ⟨hrevoked, fun r _ => ?_⟩
    rw [hnote r]
    obtain e | (_ | _) := r
    · exact tracks_thrown e
    · exact hfound claims._id user (some id)
    · exact tracks_thrown _

end Rules

section Bounds

variable {φ : AuthOp → Prop}

theorem revokedSession_issues (claims : AccessTokenClaims) (h : ∀ id user, φ (.sessionRevoked id user)) :
    (revokedSession claims).Issues φ := by
  rcases hsid : claims.sid with _ | _ | _ <;> rw [revokedSession, hsid]
  · trivial
  · exact Prog.issues_perform (h _ _)
  · trivial

theorem logout_issues (cfg : AuthConfig) (refreshToken : String) (ctx : AuthContext) (now : Time)
    (hdelete : ∀ lookup user, φ (.refreshDelete lookup user))
    (hrevoke : ∀ id user now, φ (.sessionRevoke id user now)) :
    (logout cfg refreshToken ctx now).Issues φ := by
  refine (Prog.issues_perform (hdelete _ _)).bind fun _ => ?_
  cases ctx.sessionId with
  | none => trivial
  | some id => exact Prog.issues_perform (hrevoke _ _ _)

end Bounds

end Ecommerce
