import Mathlib.Algebra.Order.Field.Rat
import Mathlib.Data.List.DropRight
import SparkPulse.Program.Threads

/-!
# Logins and sessions

`auth.py` and `sessions.py`: a login that is started by a redirect to an identity provider, the
callback that ends it, the sessions that come of it, and the middleware that every request passes
through. A request is a program; what stands between two of its waits is one call, and so is each
transaction of the session store.

Whatever a provider answers, what `authlib` says of an ID token, the clock and the random tokens are
chosen by the schedule. The clock may go back.
-/

namespace SparkPulse.Auth

open Program

abbrev Tid := Nat

/-! ## Data -/

/-- What does not change while the server runs. -/
structure Env where
  /-- `SPARK_PULSE_AUTH_ENABLED` -/
  authVariable : Option String := none
  /-- `auth_enabled` of the settings, as a string. -/
  authSetting : String := "False"
  providerUrl : String
  clientId : String
  clientSecret : String
  externalUrl : String
  corsAllowedOrigins : List String
  deriving DecidableEq, Repr

/-- `config.auth_enabled` -/
def Env.authEnabled (env : Env) : Bool := (env.authVariable.getD env.authSetting).toLower = "true"

/-- `_oidc_configured`, where a setting that is true is spelt with a capital. -/
def Env.oidcConfigured (env : Env) : Bool :=
  env.authVariable.getD (if env.authEnabled then "True" else "False") = "true" &&
    env.providerUrl ≠ "" && env.clientId ≠ "" && env.clientSecret ≠ ""

structure Request where
  method : String
  path : String
  scheme : String
  netloc : String
  origin : Option String := none
  /-- The cookie. -/
  token : Option String := none
  /-- The code and the state of a callback. -/
  query : Option (String × String) := none
  deriving DecidableEq, Repr

/-- The OpenID configuration of a provider; an absent endpoint is empty. -/
structure Document where
  authorizationEndpoint : String := ""
  tokenEndpoint : String := ""
  userinfoEndpoint : String := ""
  jwksUri : String := ""
  issuer : String := ""
  algorithms : List String := []
  deriving DecidableEq, Repr

/-- What a token endpoint answers. -/
structure TokenData where
  accessToken : String := ""
  refreshToken : String := ""
  expiresIn : ℚ := 3600
  idToken : String := ""
  deriving DecidableEq, Repr

structure Claims where
  sub : String := ""
  nonce : Option String := none
  deriving DecidableEq, Repr

/-- What is known of a user: the subject, and what else the provider publishes. -/
structure UserInfo (ι : Type) where
  sub : String
  published : Option ι := none
  deriving DecidableEq, Repr

/-- One logged-in browser. -/
structure Session (ι : Type) where
  accessToken : String
  refreshToken : String
  expiresAt : ℚ
  createdAt : ℚ
  user : UserInfo ι
  deriving DecidableEq, Repr

/-- `HTTPException` -/
structure HttpError where
  status : Nat
  detail : String
  deriving DecidableEq, Repr

/-- Why an ID token was not decoded. -/
inductive Failure
  | jose (text : String)
  | other (text : String)
  deriving DecidableEq, Repr

inductive Response (ι : Type)
  | message (text : String)
  | redirect (url : String)
  /-- The redirect that sets the cookie. -/
  | welcome (token : String) (maxAge : ℚ) (secure : Bool)
  | loggedOut
  | refused (status : Nat) (detail : String)
  | me (user : UserInfo ι) (provider : String)
  /-- What some other endpoint answers. -/
  | served
  deriving DecidableEq, Repr

/-! ## Calls -/

inductive Call (ι : Type)
  /-- `_issue_state` -/
  | issueState
  /-- `_consume_state` -/
  | consumeState (state : String)
  /-- The document that is cached and fresh. -/
  | cached (provider : String)
  | fetchDocument (url : String)
  | cacheDocument (provider : String) (document : Document)
  | exchange (endpoint code redirectUri : String)
  | fetchKeys (uri : String)
  /-- `JsonWebToken.decode`, and `validate`. -/
  | decode (algorithms : List String) (issuer audience idToken keys : String)
  | userinfo (endpoint accessToken : String)
  | sweepSessions
  | createSession (accessToken refreshToken : String) (expiresIn : ℚ) (user : UserInfo ι)
  | getSession (token : String)
  | removeSession (token : String)
  /-- An endpoint is entered. -/
  | enter (request : Request)

@[reducible] def Call.Ret {ι : Type} : Call ι → Type
  | issueState => String × String
  | consumeState _ => Option String
  | cached _ => Option Document
  | fetchDocument _ => Except String (Nat × Option Document)
  | exchange .. => Except String (Nat × TokenData)
  | fetchKeys _ => Except String String
  | decode .. => Except Failure Claims
  | userinfo .. => Except String (Nat × Option ι)
  | createSession .. => String
  | getSession _ => Option (Session ι)
  | removeSession _ => Bool
  | cacheDocument .. | sweepSessions | enter _ => Unit

/-- A program of a request. -/
abbrev Op (ι : Type) := Prog (Call ι) Call.Ret HttpError

variable {ι : Type}

abbrev invoke (c : Call ι) : Op ι c.Ret := Prog.call c

def fail {α : Type} (status : Nat) (detail : String) : Op ι α := .raise ⟨status, detail⟩

/-! ## The flow -/

/-- `s.rstrip("/")` -/
def stripSlash (s : String) : String := .ofList (s.toList.rdropWhile (· = '/'))

/-- `discover` -/
def discover (providerUrl : String) : Op ι Document := do
  match ← invoke (.cached providerUrl) with
  | some document => return document
  | none =>
    match ← invoke (.fetchDocument
        s!"{stripSlash providerUrl}/.well-known/openid-configuration") with
    | .error _ => fail 502 "Failed to discover OIDC provider"
    | .ok (status, document) =>
      if status ≠ 200 then fail 502 "OIDC provider unreachable"
      else
        match document with
        | none => fail 500 "OIDC discovery document is unusable"
        | some document =>
          if document.authorizationEndpoint = "" then
            fail 500 "OIDC discovery document is unusable"
          else do
            invoke (.cacheDocument providerUrl document)
            return document

/-- The algorithms an ID token may be signed with. -/
def Document.signing (document : Document) : List String :=
  (if document.algorithms = [] then ["RS256"] else document.algorithms).filter
    fun alg ↦ alg.toLower ≠ "none"

section
variable (env : Env)

/-- `_verify_id_token` -/
def verifyIdToken (idToken : String) (document : Document) (nonce : String) : Op ι Claims := do
  if document.jwksUri = "" then fail 502 "OIDC provider publishes no JWKS endpoint"
  else
    match ← invoke (.fetchKeys document.jwksUri) with
    | .error _ => fail 502 "Could not fetch the OIDC signing keys"
    | .ok keys =>
      match ← invoke (.decode document.signing document.issuer env.clientId idToken keys) with
      | .error (.jose text) => fail 401 s!"Invalid ID token: {text}"
      | .error (.other text) => fail 500 text
      | .ok claims =>
        if nonce ≠ "" ∧ claims.nonce ≠ some nonce then
          fail 401 "ID token was issued for a different login"
        else return claims

def callbackPath : String := "/auth/callback"

/-- `callback_url` -/
def callbackUrl (request : Request) : String :=
  if env.externalUrl ≠ "" then s!"{env.externalUrl}{callbackPath}"
  else s!"{request.scheme}://{request.netloc}{callbackPath}"

/-- `login`; the parameters stand for their encoding. -/
def login (request : Request) : Op ι (Response ι) := do
  if env.oidcConfigured then
    let document ← discover env.providerUrl
    if document.authorizationEndpoint = "" then
      fail 500 "Missing authorization_endpoint in OIDC config"
    else
      let (state, nonce) ← invoke .issueState
      return .redirect (s!"{document.authorizationEndpoint}?response_type=code" ++
        s!"&client_id={env.clientId}&redirect_uri={callbackUrl env request}" ++
        s!"&scope=openid profile email&state={state}&nonce={nonce}")
  else return .message "Authentication is not configured"

/-- The user of a verified token: what is published may not rename the subject. -/
def userOf (document : Document) (accessToken : String) (claims : Claims) : Op ι (UserInfo ι) := do
  if document.userinfoEndpoint = "" then return { sub := claims.sub }
  else
    match ← invoke (.userinfo document.userinfoEndpoint accessToken) with
    | .error text => fail 500 text
    | .ok (status, published) =>
      return { sub := claims.sub, published := if status = 200 then published else none }

/-- `callback`, from the answer of the token endpoint on. -/
def establish (request : Request) (document : Document) (nonce : String) (data : TokenData) :
    Op ι (Response ι) := do
  if data.idToken = "" then fail 401 "OIDC provider returned no ID token"
  else
    let claims ← verifyIdToken env data.idToken document nonce
    let user ← userOf document data.accessToken claims
    invoke .sweepSessions
    let token ← invoke (.createSession data.accessToken data.refreshToken data.expiresIn user)
    return .welcome token data.expiresIn (request.scheme = "https")

/-- `callback` -/
def callback (request : Request) (code state : String) : Op ι (Response ι) := do
  if env.oidcConfigured then
    match ← invoke (.consumeState state) with
    | none => fail 400 "Invalid or expired authentication state"
    | some nonce =>
      let document ← discover env.providerUrl
      if document.tokenEndpoint = "" then fail 500 "Missing token_endpoint in OIDC config"
      else
        match ← invoke (.exchange document.tokenEndpoint code (callbackUrl env request)) with
        | .error text => fail 500 text
        | .ok (status, data) =>
          if status ≠ 200 then fail 401 "Token exchange failed"
          else establish env request document nonce data
  else return .message "Authentication is not configured"

/-- `logout` -/
def logout (request : Request) : Op ι (Response ι) := do
  match request.token with
  | none => return .loggedOut
  | some token =>
    if token = "" then return .loggedOut
    else
      let _ ← invoke (.removeSession token)
      return .loggedOut

/-- `get_me` -/
def getMe (request : Request) : Op ι (Response ι) := do
  match request.token with
  | none => fail 401 "Not authenticated"
  | some token =>
    if token = "" then fail 401 "Not authenticated"
    else
      match ← invoke (.getSession token) with
      | none => fail 401 "Not authenticated"
      | some session => return .me session.user env.providerUrl

/-! ## The middleware -/

def safeMethods : List String := ["GET", "HEAD", "OPTIONS", "TRACE"]

/-- What `CsrfMiddleware` lets through. -/
def csrfAllows (request : Request) : Bool :=
  request.method ∈ safeMethods ||
    match request.origin with
    | none => true
    | some origin => origin = "" || origin = s!"{request.scheme}://{request.netloc}" ||
        decide (stripSlash origin ∈ env.corsAllowedOrigins)

def publicPaths : List String :=
  ["/", "/login", "/health", "/auth/login", "/auth/callback", "/auth/logout", "/auth/me",
    "/api/config"]

def isPublic (path : String) : Bool :=
  path ∈ publicPaths || "/auth/".toList.isPrefixOf path.toList ||
    "/assets/".toList.isPrefixOf path.toList || "/static/".toList.isPrefixOf path.toList

/-- The endpoint of a request. -/
def route (request : Request) : Op ι (Response ι) := do
  invoke (.enter request)
  if request.path = "/auth/login" ∧ request.method = "GET" then login env request
  else if request.path = callbackPath ∧ request.method = "GET" then
    match request.query with
    | none => return .refused 422 "Field required"
    | some (code, state) => callback env request code state
  else if request.path = "/auth/logout" ∧ request.method = "POST" then logout request
  else if request.path = "/auth/me" ∧ request.method = "GET" then getMe env request
  else return .served

/-- `AuthMiddleware` -/
def authenticate (request : Request) : Op ι (Response ι) := do
  if env.authEnabled = false ∨ isPublic request.path = true then route env request
  else
    match request.token with
    | none => return .refused 401 "Not authenticated"
    | some token =>
      if token = "" then return .refused 401 "Not authenticated"
      else
        match ← invoke (.getSession token) with
        | none => return .refused 401 "Not authenticated"
        | some _ => route env request

/-- A request, from `CsrfMiddleware` on. -/
def handle (request : Request) : Op ι (Response ι) := do
  if csrfAllows env request then authenticate env request
  else
    let origin := request.origin.getD ""
    return .refused 403 s!"Cross-origin request from {origin} refused"

end

/-! ## The world -/

/-- What happened, and in which request. -/
inductive Event (ι : Type)
  | issued (thread : Tid) (state nonce : String) (minted : ℚ)
  | redeemed (thread : Tid) (state nonce : String) (now : ℚ)
  /-- An ID token was decoded, and found to be valid. -/
  | verified (thread : Tid) (algorithms : List String) (claims : Claims)
  | created (thread : Tid) (token : String) (session : Session ι)
  | removed (thread : Tid) (token : String)
  /-- The store was asked for a session, and had it. -/
  | loaded (thread : Tid) (token : String) (session : Session ι) (now : ℚ)
  /-- The store was asked for a session, and had none. -/
  | missed (thread : Tid) (token : String) (now : ℚ)
  | entered (thread : Tid) (request : Request)
  deriving DecidableEq, Repr

/-- The request of an event. -/
def Event.tid : Event ι → Tid
  | issued i .. | redeemed i .. | verified i .. | created i .. | removed i _ | loaded i ..
  | missed i .. | entered i _ => i

/-- What the requests share, and the history, latest first. -/
structure World (ι : Type) where
  /-- `_pending_states` -/
  pending : String → Option (ℚ × String) := fun _ ↦ none
  /-- `_discovery_cache` -/
  documents : String → Option (ℚ × Document) := fun _ ↦ none
  /-- The table of sessions. -/
  sessions : String → Option (Session ι) := fun _ ↦ none
  /-- The moment the store was read or swept last. -/
  clock : ℚ := 0
  log : List (Event ι) := []

def stateTtl : ℚ := 600

def discoveryTtl : ℚ := 3600

/-- What the schedule decides about one call. -/
structure Answer (ι : Type) where
  now : ℚ := 0
  /-- A second reading of the clock. -/
  later : ℚ := 0
  token : String := "token"
  nonce : String := "nonce"
  raises : Option String := none
  status : Nat := 200
  document : Option Document := none
  data : TokenData := {}
  claims : Except Failure Claims := .ok {}
  published : Option ι := none

def Answer.reply {α : Type} (a : Answer ι) (value : α) : Except String α :=
  match a.raises with
  | some text => .error text
  | none => .ok value

/-- `_sweep_states` -/
def sweepStates (now : ℚ) (pending : String → Option (ℚ × String)) :
    String → Option (ℚ × String) :=
  fun state ↦ (pending state).filter fun entry ↦ now - entry.1 ≤ stateTtl

/-- Whether a row has passed its expiry. -/
def Session.expired (session : Session ι) (now : ℚ) : Bool :=
  session.expiresAt ≠ 0 && session.expiresAt ≤ now

namespace World

/-- `_issue_state`, at two moments. -/
def issueState (i : Tid) (now later : ℚ) (state nonce : String) (w : World ι) : World ι :=
  { w with
    pending := Function.update (sweepStates now w.pending) state (some (later, nonce))
    log := .issued i state nonce later :: w.log }

/-- `_consume_state` -/
def consumeState (i : Tid) (now : ℚ) (state : String) (w : World ι) : Option String × World ι :=
  match sweepStates now w.pending state with
  | none => (none, { w with pending := sweepStates now w.pending })
  | some (_, nonce) =>
    (some nonce, { w with
      pending := Function.update (sweepStates now w.pending) state none
      log := .redeemed i state nonce now :: w.log })

/-- `sessions.create` -/
def createSession (i : Tid) (token : String) (session : Session ι) (w : World ι) : World ι :=
  { w with
    sessions := Function.update w.sessions token (some session)
    log := .created i token session :: w.log }

/-- `sessions.get` -/
def getSession (i : Tid) (now : ℚ) (token : String) (w : World ι) :
    Option (Session ι) × World ι :=
  match w.sessions token with
  | none => (none, { w with clock := now, log := .missed i token now :: w.log })
  | some session =>
    if session.expired now then
      (none, { w with
        sessions := Function.update w.sessions token none
        clock := now
        log := .missed i token now :: w.log })
    else (some session, { w with clock := now, log := .loaded i token session now :: w.log })

/-- `sessions.sweep` -/
def sweepSessions (now : ℚ) (w : World ι) : World ι :=
  { w with
    sessions := fun token ↦ (w.sessions token).filter fun session ↦ !session.expired now
    clock := now }

/-- `sessions.remove` -/
def removeSession (i : Tid) (token : String) (w : World ι) : Bool × World ι :=
  match w.sessions token with
  | none => (false, w)
  | some _ =>
    (true, { w with
      sessions := Function.update w.sessions token none
      log := .removed i token :: w.log })

end World

/-- One call. A random token is not empty. -/
def Call.exec (i : Tid) (w : World ι) (c : Call ι) (a : Answer ι) : Option (c.Ret × World ι) :=
  match c with
  | .issueState =>
    if a.token = "" ∨ a.nonce = "" then none
    else some ((a.token, a.nonce), w.issueState i a.now a.later a.token a.nonce)
  | .consumeState state => some (w.consumeState i a.now state)
  | .cached provider =>
    some (((w.documents provider).filter fun entry ↦ a.now - entry.1 < discoveryTtl).map Prod.snd, w)
  | .fetchDocument _ => some (a.reply (a.status, a.document), w)
  | .cacheDocument provider document =>
    some ((), { w with documents := Function.update w.documents provider (some (a.now, document)) })
  | .exchange .. => some (a.reply (a.status, a.data), w)
  | .fetchKeys _ => some (a.reply "", w)
  | .decode algorithms .. =>
    match a.claims with
    | .error x => some (.error x, w)
    | .ok claims => some (.ok claims, { w with log := .verified i algorithms claims :: w.log })
  | .userinfo .. => some (a.reply (a.status, a.published), w)
  | .sweepSessions => some ((), w.sweepSessions a.now)
  | .createSession accessToken refreshToken expiresIn user =>
    if a.token = "" then none
    else some (a.token, w.createSession i a.token
      { accessToken, refreshToken, expiresAt := a.now + expiresIn, createdAt := a.later, user })
  | .getSession token => some (w.getSession i a.now token)
  | .removeSession token => some (w.removeSession i token)
  | .enter request => some ((), { w with log := .entered i request :: w.log })

/-- All interleavings of some requests to a server that has just started. -/
def system (env : Env) (requests : Tid → Request) : Transition.System
    (Threads Tid (@Call.Ret ι) HttpError (Response ι) (World ι)) (Tid × Answer ι) :=
  Threads.system Call.exec fun s ↦
    s.pool = (fun i ↦ handle env (requests i)) ∧ s.world.pending = (fun _ ↦ none) ∧
      s.world.sessions = (fun _ ↦ none) ∧ s.world.clock = 0 ∧ s.world.log = []

end SparkPulse.Auth
