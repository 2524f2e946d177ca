import Ecommerce.Effect.Memo
import Ecommerce.Model.Auth

/-!
# Deleting an account

`deleteData` of `controllers/auth/userControllers.ts` behind the `auth` and `stepUpAuth` middlewares, next to
the requests that concern sessions.
-/

namespace Ecommerce

open Effect

/-- What `deleteData` makes of an account. -/
def User.erase (now : Time) : Patch User :=
  ⟨fun u => { u with
    deletedAt := some now
    isActive := false
    email := s!"deleted-{u.id}@example.invalid"
    name := "Deleted User" }, fun _ => rfl⟩

inductive DeletionOp where
  /-- `User.updateOne({ _id }, { $set: { deletedAt, isActive: false, email, name } })` -/
  | userErase (id : ObjectId) (now : Time)
  deriving DecidableEq

def DeletionMongo : Signature := ⟨DeletionOp, fun _ => Unit⟩

/-- Addresses are unique, also those of deleted accounts. -/
def DeletionOp.exec : (o : DeletionOp) → AuthDb → Except ApiError Unit × AuthDb
  | .userErase id now, s =>
    match s.users.get? id with
    | none => (.ok (), s)
    | some u =>
      if s.users.docs.any fun v => v.id != id && v.email == ((User.erase now).run u).email then
        (.error .duplicateKey, s)
      else (.ok (), { s with users := s.users.update id (User.erase now) })

/-- The calls of sessions, and the one that deletes an account. -/
abbrev AccountMongo : Signature := AuthMongo.sum DeletionMongo

def deletionMongo : Machine DeletionMongo ApiError AuthDb := ⟨DeletionOp.exec, .database⟩

def accountMongo : Machine AccountMongo ApiError AuthDb := authMongo.sum deletionMongo

inductive AccountRequest where
  | auth (call : AuthCall)
  | deleteData (token : String) (userFirst : Bool) (now : Time)
  deriving DecidableEq

inductive AccountReply where
  | auth (reply : AuthReply)
  | deleted
  deriving DecidableEq, Repr

/-- The middlewares in front of `deleteData`. -/
def deleteDataGuards (cfg : AuthConfig) (token : String) (userFirst : Bool) (now : Time) : AuthM AuthContext := do
  let ctx ← auth cfg userFirst token now
  stepUpAuth ctx
  return ctx

def deleteData (cfg : AuthConfig) (token : String) (userFirst : Bool) (now : Time) :
    Prog AccountMongo ApiError AccountReply := do
  let ctx : AuthContext ← (deleteDataGuards cfg token userFirst now).inl
  let _ : Unit ← (Prog.perform (S := AccountMongo) (.inr (.userErase ctx.user now)))
  return .deleted

def AccountRequest.handler (cfg : AuthConfig) : AccountRequest → Prog AccountMongo ApiError AccountReply
  | .auth call => AccountReply.auth <$> (call.handler cfg).inl
  | .deleteData token userFirst now => Ecommerce.deleteData cfg token userFirst now

/-- All requests as a system of interleaved handlers. -/
def accountServer (cfg : AuthConfig) : System AccountMongo ApiError AccountReply AuthDb AccountRequest where
  machine := accountMongo
  code := AccountRequest.handler cfg

abbrev AccountPool := Pool AccountMongo ApiError AccountReply AuthDb AccountRequest

/-- The request that was the `i`th to start, once it has been answered without an error. -/
def answered? (c : AccountPool) (i : Nat) : Option (AccountRequest × AccountReply) :=
  c.threads[i]?.bind fun t =>
    match t.prog.result? with
    | some (.ok reply) => some (t.label, reply)
    | _ => none

end Ecommerce
