import PiBuddyCam.AdminAuth
import PiBuddyCam.CrashProg
import PiBuddyCam.PyText

/-! `admin_http.py`: from a request to the handler of its route. The handlers themselves
are modelled where they use the sessions, the re-auth windows or the limiter. -/
namespace PiBuddyCam.Admin

/-- A value of a parsed body, as far as the handlers here look at it. -/
inductive Value where
  | null
  | bool (b : Bool)
  | str (s : String)
  | other
  deriving DecidableEq

abbrev BodyData := List (String × Value)

/-- What `json.loads` makes of a text. -/
inductive Loaded where
  | invalid | null | other
  | object (fields : BodyData)

/-- What the sources take from the standard library: the cases of a text, decoding with
replacement, `json.loads`, `parse_qs` (`none` for its `ValueError`) and
`SimpleCookie.load` (`none` for its `CookieError`). -/
structure Host where
  upper : String → String
  lower : String → String
  decode : List UInt8 → String
  loads : String → Loaded
  parseQs : String → Option (List (String × List String))
  loadCookie : String → Option (List (String × String))

inductive Body where
  | bytes (b : List UInt8)
  | text (s : String)

structure Request where
  method : String
  path : String
  headers : List (String × String) := []
  body : Body := .bytes []
  peerIp : String := ""

inductive Policy where
  | publicAll | publicSetup | authenticated | reauthRequired | reauthWindowOnly | setupOrAuthenticated
  deriving DecidableEq

/-- The handlers of the routes, `_handle_` left out. -/
inductive Handler where
  | root | admin | asset | setupPage | setupState | setupScan | setupStep | setupFinish | status | session
  | dashboard | liveFrame | liveStatus | localWebrtcStatus | mediaVideos | mediaVideoDownload | mediaFrames
  | mediaFrameDownload | mediaSessions | mediaSessionDelete | mediaBuild | mediaJob | system | networkGet
  | networkScan | networkPut | networkHostnamePut | networkNtpPut | timezones | gpioPins | update | updateCheck
  | updateInstall | diagnostics | reboot | settingsPatch | integrationsGet | integrationsMqttPut
  | integrationsPrusaPut | login | mqttTest | logout | reauth | configGet | configPut | ssh | recovery
  | resetBegin | resetConfirm | resetExecute
  deriving DecidableEq

/-- The patterns of the routes: a fixed path, or a path that ends in one segment. -/
inductive Pattern where
  | exact (path : String)
  | segment (stem : String)
  deriving DecidableEq

def Pattern.matches (p : Pattern) (path : String) : Bool :=
  match p with
  | .exact fixed => path == fixed || path == fixed ++ "\n"
  | .segment stem =>
    PyText.startswith path stem && path.toList.drop stem.toList.length ≠ [] &&
      !(path.toList.drop stem.toList.length).contains '/'

structure Route where
  method : String
  pattern : Pattern
  policy : Policy
  handler : Handler
  deriving DecidableEq

def routes : List Route :=
  [
    ⟨"GET", .exact "/", .publicAll, .root⟩,
    ⟨"GET", .exact "/admin", .publicAll, .admin⟩,
    ⟨"GET", .segment "/assets/", .publicAll, .asset⟩,
    ⟨"GET", .exact "/setup", .publicSetup, .setupPage⟩,
    ⟨"GET", .exact "/setup/state", .publicSetup, .setupState⟩,
    ⟨"POST", .exact "/setup/wifi/scan", .publicSetup, .setupScan⟩,
    ⟨"POST", .segment "/setup/step/", .publicSetup, .setupStep⟩,
    ⟨"POST", .exact "/setup/finish", .publicSetup, .setupFinish⟩,
    ⟨"GET", .exact "/api/status", .publicAll, .status⟩,
    ⟨"GET", .exact "/api/session", .authenticated, .session⟩,
    ⟨"GET", .exact "/api/dashboard", .authenticated, .dashboard⟩,
    ⟨"GET", .exact "/api/live/frame", .authenticated, .liveFrame⟩,
    ⟨"GET", .exact "/api/live/status", .authenticated, .liveStatus⟩,
    ⟨"GET", .exact "/api/live/webrtc/status", .authenticated, .localWebrtcStatus⟩,
    ⟨"GET", .exact "/api/media/timelapses", .authenticated, .mediaVideos⟩,
    ⟨"GET", .segment "/api/media/timelapses/", .authenticated, .mediaVideoDownload⟩,
    ⟨"GET", .exact "/api/media/frames", .authenticated, .mediaFrames⟩,
    ⟨"GET", .segment "/api/media/frames/", .authenticated, .mediaFrameDownload⟩,
    ⟨"GET", .exact "/api/media/sessions", .authenticated, .mediaSessions⟩,
    ⟨"DELETE", .segment "/api/media/sessions/", .reauthWindowOnly, .mediaSessionDelete⟩,
    ⟨"POST", .exact "/api/media/timelapses/build", .authenticated, .mediaBuild⟩,
    ⟨"GET", .segment "/api/media/jobs/", .authenticated, .mediaJob⟩,
    ⟨"GET", .exact "/api/system", .authenticated, .system⟩,
    ⟨"GET", .exact "/api/network", .authenticated, .networkGet⟩,
    ⟨"GET", .exact "/api/network/scan", .authenticated, .networkScan⟩,
    ⟨"PUT", .exact "/api/network", .reauthWindowOnly, .networkPut⟩,
    ⟨"PUT", .exact "/api/network/hostname", .reauthWindowOnly, .networkHostnamePut⟩,
    ⟨"PUT", .exact "/api/network/ntp", .authenticated, .networkNtpPut⟩,
    ⟨"GET", .exact "/api/timezones", .authenticated, .timezones⟩,
    ⟨"GET", .exact "/api/gpio/pins", .authenticated, .gpioPins⟩,
    ⟨"GET", .exact "/api/update", .authenticated, .update⟩,
    ⟨"POST", .exact "/api/update/check", .authenticated, .updateCheck⟩,
    ⟨"POST", .exact "/api/update/install", .reauthRequired, .updateInstall⟩,
    ⟨"GET", .exact "/api/diagnostics", .authenticated, .diagnostics⟩,
    ⟨"POST", .exact "/api/reboot", .reauthWindowOnly, .reboot⟩,
    ⟨"PATCH", .exact "/api/settings", .authenticated, .settingsPatch⟩,
    ⟨"GET", .exact "/api/integrations", .authenticated, .integrationsGet⟩,
    ⟨"PUT", .exact "/api/integrations/mqtt", .reauthWindowOnly, .integrationsMqttPut⟩,
    ⟨"PUT", .exact "/api/integrations/prusa", .reauthRequired, .integrationsPrusaPut⟩,
    ⟨"POST", .exact "/api/login", .publicAll, .login⟩,
    ⟨"POST", .exact "/api/mqtt/test", .setupOrAuthenticated, .mqttTest⟩,
    ⟨"POST", .exact "/api/logout", .authenticated, .logout⟩,
    ⟨"POST", .exact "/api/reauth", .reauthRequired, .reauth⟩,
    ⟨"GET", .exact "/api/config", .authenticated, .configGet⟩,
    ⟨"PUT", .exact "/api/config", .authenticated, .configPut⟩,
    ⟨"POST", .exact "/api/ssh", .reauthRequired, .ssh⟩,
    ⟨"POST", .exact "/api/recovery/enter-setup", .reauthRequired, .recovery⟩,
    ⟨"POST", .exact "/api/reset/begin", .reauthWindowOnly, .resetBegin⟩,
    ⟨"POST", .exact "/api/reset/confirm", .reauthWindowOnly, .resetConfirm⟩,
    ⟨"POST", .exact "/api/reset/execute", .reauthWindowOnly, .resetExecute⟩]

def matchRoute (method path : String) : Option Route :=
  routes.find? fun r => r.method == method && r.pattern.matches path

inductive Mode where
  | setup | admin
  deriving DecidableEq

/-- How the application is set up: `mqttProbe` says that a broker test is injected. -/
structure Config where
  mode : Mode := .admin
  allowAnyHost : Bool := false
  mqttProbe : Bool := true

section Parsing

variable (h : Host) (req : Request)

def header (name : String) : Option String :=
  (req.headers.find? fun e => h.lower e.1 == h.lower name).map Prod.snd

def sessionCookieName : String := "prusa_admin_session"

def sessionTokenFromCookie (cookieHeader : Option String) : String :=
  match cookieHeader with
  | none | some "" => ""
  | some text =>
    match h.loadCookie text with
    | none => ""
    | some cookie => (cookie.lookup sessionCookieName).getD ""

def sessionToken : String := sessionTokenFromCookie h (header h req "Cookie")

def csrfToken (body : BodyData) : String :=
  match header h req "X-CSRF-Token" with
  | none | some "" =>
    match body.lookup "csrf" with
    | some (.str csrf) => csrf
    | _ => ""
  | some csrf => csrf

def queryValue : List String → Value
  | [value] => .str value
  | _ => .other

def parseBody : BodyData :=
  let text := match req.body with
    | .bytes b => h.decode b
    | .text s => s
  let form := match h.parseQs text with
    | none => []
    | some parsed => parsed.map fun e => (e.1, queryValue e.2)
  let first := (text.toList.dropWhile PyText.isSpace).head?
  if PyText.strip text = "" then []
  else if PyText.contains "json" (h.lower ((header h req "Content-Type").getD "")) ||
      first == some '\x7b' || first == some '[' then
    match h.loads text with
    | .object fields => fields
    | .other => []
    | .invalid | .null => form
  else form

def hostName (host : String) : String :=
  let value := h.lower (PyText.strip host)
  let chars := value.toList
  if PyText.startswith value "[" then
    if chars.contains ']' then String.ofList (chars.takeWhile (· ≠ ']') ++ [']']) else value
  else if chars.count ':' = 1 then String.ofList (chars.takeWhile (· ≠ ':')) else value

end Parsing

def captivePortalHosts : List String := ["192.168.4.1", "localhost", "127.0.0.1", "[::1]"]

def captivePortalRoot : String := "http://192.168.4.1/"

/-- The answers: `answered` is that of a handler, `raised` an exception that leaves
`handle`. -/
inductive Response where
  | redirect (location : String)
  | error (status : ℕ) (text : String)
  | rateLimited (retryAfter : ℚ)
  | loggedIn (token : String) (csrf : Option String)
  | loggedOut
  | answered (handler : Handler)
  | raised

end PiBuddyCam.Admin
