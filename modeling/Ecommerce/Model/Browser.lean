import Ecommerce.Model.Documents

/-!
# The session in the browser

`AuthService`, `TokenStorage` and `authInterceptor` of the frontend. A step of the browser is a call of the
service or a response that arrives; a response is delivered to all that wait for it before the next step.
`sessionStorage` is taken to work.
-/

namespace Ecommerce

/-- A token, with the user it was issued to. -/
structure Token where
  text : String
  user : ObjectId
  deriving DecidableEq, Repr

inductive AuthStatus where
  | initializing | authenticated | anonymous
  deriving DecidableEq, Repr

/-- What a request to the API is for. `restore` is the startup's wait for its refresh. -/
inductive ApiCall where
  | plain
  | profile (restoring : Bool)
  | restore
  | logout (refreshToken : Token)
  deriving DecidableEq, Repr

namespace ApiCall

/-- The tokens in the body of the request. -/
def body : ApiCall → List Token
  | .logout refreshToken => [refreshToken]
  | _ => []

def isProfile : ApiCall → Bool
  | .profile _ => true
  | _ => false

/-- Its caller can go away. The startup waits for its own requests, and nobody holds the subscription of a
`/logout`. -/
def isReleasable : ApiCall → Bool
  | .plain | .profile false => true
  | _ => false

end ApiCall

/-- How far the interceptor is with a request. -/
inductive Attempt where
  | first
  | awaiting (refresh : Nat)
  | retried
  | done
  deriving DecidableEq, Repr

structure ApiRequest where
  call : ApiCall
  attempt : Attempt
  deriving DecidableEq, Repr

/-- A request to `/refresh`. -/
structure RefreshRequest where
  token : Token
  done : Bool
  deriving DecidableEq, Repr

/-- A request to `/login` or `/register`, with the number of times that the session was cleared before. -/
structure SignInRequest where
  clears : Nat
  done : Bool
  deriving DecidableEq, Repr

/-- The state of a page. -/
structure Browser where
  access : Option Token
  refresh : Option Token
  user : Option ObjectId
  status : AuthStatus
  stepUpRequired : Bool
  refreshInFlight : Option Nat
  refreshes : List RefreshRequest
  requests : List ApiRequest
  signIns : List SignInRequest
  /-- History: the tokens that were sent, each with the user that had signed in last. -/
  sent : List (Token × Option ObjectId)
  /-- History: the user that has signed in last. -/
  signedIn : Option ObjectId
  /-- History: how many times the session was cleared. -/
  clears : Nat
  /-- History: the session was cleared, and no sign-in started later was answered. -/
  cleared : Bool
  deriving DecidableEq, Repr

namespace Browser

/-- A page that is loaded, with what the tab's storage holds. -/
def load (stored : Option Token) : Browser where
  access := none
  refresh := stored
  user := none
  status := .initializing
  stepUpRequired := false
  refreshInFlight := none
  refreshes := []
  requests := []
  signIns := []
  sent := []
  signedIn := stored.map Token.user
  clears := 0
  cleared := false

/-- `TokenStorage.save` -/
def save (accessToken refreshToken : Token) (s : Browser) : Browser :=
  { s with access := some accessToken, refresh := some refreshToken }

/-- `clearSession` -/
def clearSession (s : Browser) : Browser :=
  { s with
    access := none, refresh := none, user := none, stepUpRequired := false, status := .anonymous
    clears := s.clears + 1, cleared := true }

/-- The tokens are sent. -/
def send (tokens : List Token) (s : Browser) : Browser :=
  { s with sent := s.sent ++ tokens.map fun token => (token, s.signedIn) }

/-- A request to the API, to which the interceptor adds the access token. -/
def request (call : ApiCall) (s : Browser) : Browser :=
  { s.send (s.access.toList ++ call.body) with requests := s.requests ++ [⟨call, .first⟩] }

def setRequest (n : Nat) (r : ApiRequest) (s : Browser) : Browser := { s with requests := s.requests.set n r }

/-- `refreshAccessToken`: the refresh that the caller waits for, unless it fails at once. -/
def refreshAccessToken (s : Browser) : Option Nat × Browser :=
  match s.refresh with
  | none => (none, s)
  | some refreshToken =>
    match s.refreshInFlight with
    | some n => (some n, s)
    | none =>
      (some s.refreshes.length,
        { s.send [refreshToken] with
          refreshInFlight := some s.refreshes.length
          refreshes := s.refreshes ++ [⟨refreshToken, false⟩] })

/-- `init`, until it waits for a response. -/
def init (s : Browser) : Browser :=
  if s.refresh.isNone then { s with status := .anonymous }
  else
    match s.refreshAccessToken with
    | (none, t) => t.clearSession
    | (some n, t) => { t with requests := t.requests ++ [⟨.restore, .awaiting n⟩] }

/-- `logout` -/
def logout (s : Browser) : Browser :=
  match s.refresh, s.access with
  | some refreshToken, some _ => (s.request (.logout refreshToken)).clearSession
  | _, _ => s.clearSession

/-- The error of a request reaches its caller: `init` clears the session. -/
def fail (n : Nat) (r : ApiRequest) (s : Browser) : Browser :=
  let t := s.setRequest n { r with attempt := .done }
  if r.call = .profile true then t.clearSession else t

/-- The interceptor's `catchError`, for a first attempt that is answered with 401. -/
def unauthorized (n : Nat) (r : ApiRequest) (s : Browser) : Browser :=
  if s.status ≠ .authenticated then s.fail n r
  else
    match s.refreshAccessToken with
    | (none, t) => (t.clearSession).fail n r
    | (some k, t) => t.setRequest n { r with attempt := .awaiting k }

/-- What a request does when the refresh that it waits for succeeds: it is sent again as it was, but for the
access token, and the startup asks for the profile. -/
def ApiRequest.resume (k : Nat) (r : ApiRequest) : ApiRequest :=
  if r.attempt = .awaiting k then
    match r.call with
    | .restore => ⟨.profile true, .first⟩
    | call => ⟨call, .retried⟩
  else r

/-- A response of `/refresh` with new tokens. All that wait for it send the access token, and their bodies
once more, and then `finalize` empties the slot. -/
def refreshed (k : Nat) (r : RefreshRequest) (accessToken refreshToken : Token) (s : Browser) : Browser :=
  let waiting := s.requests.filter fun q => q.attempt = .awaiting k
  { (s.save accessToken refreshToken).send (waiting.flatMap fun q => accessToken :: q.call.body) with
    requests := s.requests.map (ApiRequest.resume k)
    refreshes := s.refreshes.set k { r with done := true }
    refreshInFlight := none }

/-- An error of `/refresh`: each of those that wait for it clears the session. The request goes on without
subscribers (`refCount: false`), and then nobody does. -/
def refreshFailed (k : Nat) (r : RefreshRequest) (s : Browser) : Browser :=
  let waits : ApiRequest → Bool := fun q => q.attempt = .awaiting k
  let t := if s.requests.any waits then s.clearSession else s
  { t with
    requests := s.requests.map fun q => if waits q then { q with attempt := .done } else q
    refreshes := s.refreshes.set k { r with done := true }
    refreshInFlight := none }

/-- The response of `/login` or `/register`, and the request for the profile that follows. -/
def signIn (n : Nat) (r : SignInRequest) (accessToken refreshToken : Token) (stepUp : Option Bool) (s : Browser) :
    Browser :=
  let t := { s.save accessToken refreshToken with
    stepUpRequired := stepUp.getD s.stepUpRequired
    signIns := s.signIns.set n { r with done := true }
    signedIn := some accessToken.user
    cleared := s.cleared && decide (r.clears < s.clears) }
  t.request (.profile false)

end Browser

/-- A call of the service, or a response that arrives. -/
inductive BrowserEvent where
  | init
  /-- `login` or `register` -/
  | startSignIn
  | request
  | loadProfile
  | refreshAccessToken
  | logout
  | sessionExpired
  /-- The response of a sign-in; that of `/login` says whether a step-up is required. -/
  | signedIn (n : Nat) (accessToken refreshToken : Token) (stepUp : Option Bool)
  | signInFailed (n : Nat)
  | refreshed (k : Nat) (accessToken refreshToken : Token)
  | refreshFailed (k : Nat)
  | responded (n : Nat)
  /-- The response of `/users`. -/
  | profile (n : Nat) (user : ObjectId)
  | unauthorized (n : Nat)
  | failed (n : Nat)
  /-- The caller of a request unsubscribes: it has left the page, or asks for something else. -/
  | unsubscribed (n : Nat)
  deriving DecidableEq, Repr

namespace Browser

/-- A request that is outstanding. -/
def outstanding (n : Nat) (s : Browser) : Option ApiRequest :=
  s.requests[n]?.filter fun r => r.attempt = .first ∨ r.attempt = .retried

def outstandingRefresh (k : Nat) (s : Browser) : Option RefreshRequest := s.refreshes[k]?.filter fun r => !r.done

def outstandingSignIn (n : Nat) (s : Browser) : Option SignInRequest := s.signIns[n]?.filter fun r => !r.done

/-- What an event leaves. Only outstanding requests are answered, and the server issues the two tokens of a
response to one user, which is the user of the token that it was sent if it was sent one. -/
def step (s : Browser) : BrowserEvent → Option Browser
  | .init => some s.init
  | .startSignIn => some { s with signIns := s.signIns ++ [⟨s.clears, false⟩] }
  | .request => some (s.request .plain)
  | .loadProfile => some (s.request (.profile false))
  | .refreshAccessToken => some s.refreshAccessToken.2
  | .logout => some s.logout
  | .sessionExpired => some s.clearSession
  | .signedIn n accessToken refreshToken stepUp =>
    if accessToken.user = refreshToken.user then
      (s.outstandingSignIn n).map fun r => s.signIn n r accessToken refreshToken stepUp
    else none
  | .signInFailed n =>
    (s.outstandingSignIn n).map fun r => { s with signIns := s.signIns.set n { r with done := true } }
  | .refreshed k accessToken refreshToken =>
    (s.outstandingRefresh k).bind fun r =>
      if accessToken.user = r.token.user ∧ refreshToken.user = r.token.user then
        some (s.refreshed k r accessToken refreshToken)
      else none
  | .refreshFailed k => (s.outstandingRefresh k).map fun r => s.refreshFailed k r
  | .responded n =>
    ((s.outstanding n).filter fun r => !r.call.isProfile).map fun r => s.setRequest n { r with attempt := .done }
  | .profile n user =>
    ((s.outstanding n).filter fun r => r.call.isProfile).map fun r =>
      { s.setRequest n { r with attempt := .done } with user := some user, status := .authenticated }
  | .unauthorized n =>
    (s.outstanding n).map fun r => if r.attempt = .first then s.unauthorized n r else s.fail n r
  | .failed n => (s.outstanding n).map fun r => s.fail n r
  | .unsubscribed n =>
    (s.requests[n]?.filter fun r => r.attempt ≠ .done ∧ r.call.isReleasable).map fun r =>
      s.setRequest n { r with attempt := .done }

end Browser

end Ecommerce
