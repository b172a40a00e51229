import PiBuddyCam.AdminHttp

/-! The admin core as programs over its tables: `_authorize`, the handlers of login,
logout and the broker test, and `_dispatch`. -/
namespace PiBuddyCam.Admin

/-- The tables of the application, and how many tokens were drawn so far. -/
structure Tables where
  store : SessionStore := {}
  limiter : LoginRateLimiter := {}
  reauthAt : OrderedDict String ℚ := .empty
  drawn : ℕ := 0

/-- The calls on the tables and on the outside. `verify` is one check of a password
against the admin hash; it carries the peer and the time of the request, and the session
that is to be re-authenticated. `run` is the call of a route's handler on a request. -/
inductive Op where
  | validate (token : String) (now : ℚ)
  | csrfFor (token : String)
  | prune (now : ℚ)
  | newSession (now : ℚ)
  | overfull
  | evictOldest
  | revoke (token : String)
  | check (peer : String) (now : ℚ)
  | recordFailure (peer : String) (now : ℚ)
  | recordSuccess (peer : String)
  | reauthGet (token : String)
  | reauthPop (token : String)
  | reauthSet (token : String) (now : ℚ)
  | pruneReauth (now : ℚ)
  | verify (peer : String) (now : ℚ) (session : Option String) (password : Value)
  | setupAvailable
  | run (route : Route) (req : Request) (now : ℚ)

def Res : Op → Type
  | .validate _ _ | .overfull | .revoke _ | .verify _ _ _ _ | .setupAvailable => Bool
  | .csrfFor _ | .evictOldest => Option String
  | .newSession _ => String × String
  | .check _ _ => Bool × ℚ
  | .reauthGet _ => Option ℚ
  | _ => Unit

/-- What the tables leave open: the verdict on a password, and whether setup is available. -/
structure Choice where
  verifies : Bool := false
  setup : Bool := false

def reauthWindowSeconds : ℚ := 5*60

namespace Tables

def newSession (s : Tables) (tokens : ℕ → String) (now : ℚ) : (String × String) × Tables :=
  let n := s.store.firstFree tokens s.store.sessions.entries.length s.drawn
  ((tokens n, tokens (n+1)), { s with store := s.store.insert (tokens n) (tokens (n+1)) now, drawn := n+2 })

def pruneReauth (s : Tables) (now : ℚ) : Tables :=
  { s with reauthAt := s.reauthAt.filter fun e =>
      !(now - e.2 ≥ reauthWindowSeconds || (s.store.csrfFor e.1).isNone) }

def step (tokens : ℕ → String) (s : Tables) : (o : Op) → Choice → Res o × Tables
  | .validate token now, _ => ((s.store.validate token now).1, { s with store := (s.store.validate token now).2 })
  | .csrfFor token, _ => (s.store.csrfFor token, s)
  | .prune now, _ => ((), { s with store := s.store.prune now })
  | .newSession now, _ => s.newSession tokens now
  | .overfull, _ => (decide ((s.store.sessions.entries.length : ℤ) > s.store.maxSessions), s)
  | .evictOldest, _ => (s.store.oldest, { s with store := s.store.oldest.elim s.store s.store.drop })
  | .revoke token, _ => ((s.store.sessions.get? token).isSome, { s with store := s.store.drop token })
  | .check peer now, _ => ((s.limiter.check peer now).1, { s with limiter := (s.limiter.check peer now).2 })
  | .recordFailure peer now, _ => ((), { s with limiter := s.limiter.recordFailure peer now })
  | .recordSuccess peer, _ => ((), { s with limiter := s.limiter.recordSuccess peer })
  | .reauthGet token, _ => (s.reauthAt.get? token, s)
  | .reauthPop token, _ => ((), { s with reauthAt := s.reauthAt.pop token })
  | .reauthSet token now, _ => ((), { s with reauthAt := s.reauthAt.set token now })
  | .pruneReauth now, _ => ((), s.pruneReauth now)
  | .verify _ _ _ _, c => (c.verifies, s)
  | .setupAvailable, c => (c.setup, s)
  | .run _ _ _, _ => ((), s)

end Tables

abbrev Run := Prog Op Res

abbrev Entry := (o : Op) × Res o

abbrev Journal := Traced Op Res Tables

def journal (tokens : ℕ → String) : Machine Op Res Journal Choice := Machine.traced ⟨Tables.step tokens⟩

def sys (o : Op) : Run (Res o) := Prog.op o

def validate (token : String) (now : ℚ) : Run Bool := sys (.validate token now)

def csrfFor (token : String) : Run (Option String) := sys (.csrfFor token)

def check (peer : String) (now : ℚ) : Run (Bool × ℚ) := sys (.check peer now)

def recordFailure (peer : String) (now : ℚ) : Run Unit := sys (.recordFailure peer now)

def recordSuccess (peer : String) : Run Unit := sys (.recordSuccess peer)

def reauthGet (token : String) : Run (Option ℚ) := sys (.reauthGet token)

def reauthPop (token : String) : Run Unit := sys (.reauthPop token)

def verify (peer : String) (now : ℚ) (session : Option String) (password : Value) : Run Bool :=
  sys (.verify peer now session password)

def setupAvailable : Run Bool := sys .setupAvailable

def newSession (now : ℚ) : Run (String × String) := sys (.newSession now)

def overfull : Run Bool := sys .overfull

def create (now : ℚ) : Run String := do
  sys (.prune now)
  let session ← newSession now
  if ← overfull then
    let _ ← sys .evictOldest
    pure session.1
  else pure session.1

def isAscii (s : String) : Bool := s.toList.all fun c => c.toNat < 128

/-- `validate_csrf`; `none` is the `TypeError` of `compare_digest`. -/
def validateCsrf (token csrf : String) : Run (Option Bool) := do
  match ← csrfFor token with
  | none => pure (some false)
  | some expected => if isAscii expected && isAscii csrf then pure (some (expected == csrf)) else pure none

def changing (method : String) : Bool := ["POST", "PUT", "PATCH", "DELETE"].contains method

section Requests

variable (h : Host) (cfg : Config) (req : Request) (now : ℚ)

def reauthFresh (token : String) : Run Bool := do
  match ← reauthGet token with
  | none => pure false
  | some moment =>
    if now - moment ≥ reauthWindowSeconds then
      reauthPop token
      pure false
    else pure true

def reauthOk (token : String) (password : Option Value) : Run Bool :=
  match password with
  | some (.str password) =>
    if token = "" then pure false else verify req.peerIp now (some token) (.str password)
  | _ => pure false

def reauthenticate (token : String) (body : BodyData) : Run (Option Response) := do
  let verdict ← check req.peerIp now
  if !verdict.1 then pure (some (.rateLimited verdict.2))
  else if ← reauthOk req now token (body.lookup "password") then
    recordSuccess req.peerIp
    sys (.reauthSet token now)
    pure none
  else
    recordFailure req.peerIp now
    pure (some (.error 403 "re-authentication required"))

def authorizeReauth (policy : Policy) (token : String) (body : BodyData) : Run (Option Response) := do
  if policy = .reauthRequired ∨ policy = .reauthWindowOnly then
    if ← reauthFresh now token then pure none
    else if policy = .reauthWindowOnly then pure (some (.error 403 "re-authentication required"))
    else reauthenticate req now token body
  else pure none

/-- `_authorize`: `none`, or the answer that denies the request. -/
def authorize (policy : Policy) (body : BodyData) : Run (Option Response) := do
  let token := sessionToken h req
  if ← validate token now then
    sys (.pruneReauth now)
    if changing (h.upper req.method) then
      match ← validateCsrf token (csrfToken h req body) with
      | none => pure (some .raised)
      | some false => pure (some (.error 403 "invalid CSRF token"))
      | some true => authorizeReauth req now policy token body
    else authorizeReauth req now policy token body
  else pure (some (.error 401 "authentication required"))

def handleLogin (body : BodyData) : Run Response := do
  let verdict ← check req.peerIp now
  if !verdict.1 then pure (.rateLimited verdict.2)
  else if ← verify req.peerIp now none ((body.lookup "password").getD .null) then
    recordSuccess req.peerIp
    let token ← create now
    let csrf ← csrfFor token
    pure (.loggedIn token csrf)
  else
    recordFailure req.peerIp now
    pure (.error 401 "invalid credentials")

def handleLogout : Run Response := do
  let token := sessionToken h req
  let _ ← sys (.revoke token)
  reauthPop token
  pure .loggedOut

/-- `_authenticated_admin_session`; `none` is an exception. -/
def authenticatedAdminSession (body : BodyData) : Run (Option Bool) := do
  let token := sessionToken h req
  if token = "" then pure (some false)
  else if ← validate token now then validateCsrf token (csrfToken h req body)
  else pure (some false)

def bodyLength : ℕ :=
  match req.body with
  | .bytes b => b.length
  | .text s => s.toList.length

def isFlag : Option Value → Bool
  | none | some (.bool _) => true
  | _ => false

def isOptionalText : Option Value → Bool
  | none | some .null | some (.str _) => true
  | _ => false

def mqttTestError (body : BodyData) : Option Response :=
  if bodyLength req > 4096 then some (.error 413 "request body too large")
  else if !isFlag (body.lookup "use_stored_username") then some (.error 400 "use_stored_username must be a boolean")
  else if !isFlag (body.lookup "use_stored_password") then some (.error 400 "use_stored_password must be a boolean")
  else match body.lookup "uri" with
    | none | some .null | some (.bool _) | some .other | some (.str "") => some (.error 400 "mqtt uri is required")
    | some (.str _) =>
      if !isOptionalText (body.lookup "username") then some (.error 400 "mqtt username must be a string")
      else if !isOptionalText (body.lookup "password") then some (.error 400 "mqtt password must be a string")
      else if !isOptionalText (body.lookup "ca_file") then some (.error 400 "mqtt ca_file must be a string")
      else none

def handleMqttTest (body : BodyData) : Run Response :=
  if cfg.mqttProbe = false then pure (.answered .mqttTest)
  else match mqttTestError req body with
    | some response => pure response
    | none =>
      if body.lookup "use_stored_username" = some (.bool true) ∨
          body.lookup "use_stored_password" = some (.bool true) then do
        match ← authenticatedAdminSession h req now body with
        | none => pure .raised
        | some false => pure (.error 403 "authentication required")
        | some true => pure (.answered .mqttTest)
      else pure (.answered .mqttTest)

def callHandler (handler : Handler) (body : BodyData) : Run Response :=
  match handler with
  | .login => handleLogin req now body
  | .logout => handleLogout h req
  | .mqttTest => handleMqttTest h cfg req now body
  | handler => pure (.answered handler)

def captiveRedirect (method : String) : Option Response :=
  if cfg.mode = .admin || cfg.allowAnyHost then none
  else match header h req "Host" with
    | none => none
    | some host =>
      if PyText.strip host = "" || captivePortalHosts.contains (hostName h host) then none
      else if method = "GET" ∨ method = "HEAD" then some (.redirect captivePortalRoot)
      else some (.error 421 "misdirected request")

def runHandler (route : Route) (body : BodyData) : Run Response := do
  sys (.run route req now)
  callHandler h cfg req now route.handler body

def serveRoute (route : Route) (method : String) (body : BodyData) : Run Response := do
  match route.policy with
  | .publicAll => runHandler h cfg req now route body
  | .publicSetup =>
    if ← setupAvailable then runHandler h cfg req now route body
    else if method = "GET" then pure (.redirect "/admin")
    else pure (.error 409 "setup is not available")
  | .authenticated | .reauthRequired | .reauthWindowOnly =>
    match ← authorize h req now route.policy body with
    | some denied => pure denied
    | none => runHandler h cfg req now route body
  | .setupOrAuthenticated =>
    if ← setupAvailable then runHandler h cfg req now route body
    else match ← authorize h req now .authenticated body with
      | some denied => pure denied
      | none => runHandler h cfg req now route body

def requestMethod : String := h.upper (if req.method = "" then "GET" else req.method)

def requestPath : String := if req.path = "" then "/" else req.path

def dispatch : Run Response :=
  match captiveRedirect h cfg req (requestMethod h req) with
  | some captive => pure captive
  | none =>
    match matchRoute (requestMethod h req) (requestPath req) with
    | none =>
      if cfg.mode = .setup ∧ requestMethod h req = "GET" ∧ PyText.startswith (requestPath req) "/api/" = false then
        pure (.redirect "/")
      else pure (.error 404 "not found")
    | some route => serveRoute h cfg req now route (requestMethod h req) (parseBody h req)

end Requests

end PiBuddyCam.Admin
