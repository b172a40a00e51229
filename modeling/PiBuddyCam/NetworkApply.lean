import PiBuddyCam.WifiStation

/-! `network_apply.py`: the root transaction behind the console's network settings. The new
profile is applied and watched; when it does not come up the old one is put back, and when
that does not come up either the setup hotspot is started. -/
namespace PiBuddyCam.Network

/-- `_text`; `none` on any failure. -/
def commandText (args : List String) : Run (Option String) := do
  match (← sys (.command args) : Outcome) with
  | .done (some 0) out => pure (some out)
  | _ => pure none

def writeResult (state : ResultState) (reason : String) : Run Unit := do
  let now : Time ← sys .clock
  match (← sys (.writeResult ⟨state, reason, now⟩) : Option String) with
  | none => pure ()
  | some cls => sys (.log ("network_apply: could not write result: " ++ cls))

/-- The stored profile as `nmcli` shows it. -/
structure Profile where
  found : Bool := false
  ssid : String := ""
  hasWpa : Bool := false

def profileInfo : Run Profile := do
  match ← commandText ["nmcli", "-t", "-f", "802-11-wireless.ssid,802-11-wireless-security.key-mgmt", "connection",
      "show", connectionName] with
  | none => pure {}
  | some out =>
    let fields := terseMap out
    pure ⟨true, first fields "802-11-wireless.ssid", first fields "802-11-wireless-security.key-mgmt" ≠ ""⟩

def readyGateway (expected out : String) : Option String :=
  let fields := terseMap out
  let address := String.ofList ((first fields "IP4.ADDRESS").toList.takeWhile (· ≠ '/'))
  let gateway := first fields "IP4.GATEWAY"
  if !PyText.startswith (first fields "GENERAL.STATE") "100" || address = "" || gateway = "" then none
  else if expected ≠ "" ∧ address ≠ expected then none
  else some gateway

def linkReady (ifname expected : String) : Run (Option String) := do
  let out ← commandText ["nmcli", "-t", "-f", "GENERAL.STATE,IP4.ADDRESS,IP4.GATEWAY", "device", "show", ifname]
  pure ((out.filter (· ≠ "")).bind (readyGateway expected))

def ping (gateway : String) : Run Bool := do
  match (← sys (.command ["ping", "-c", "1", "-W", "2", gateway]) : Outcome) with
  | .done (some 0) _ => pure true
  | _ => pure false

/-- Whether one look at the link ends the wait, and else whether only the gateway was missing. -/
def lookOnce (ifname expected : String) (requirePing : Bool) : Run (Bool × Bool) := do
  match ← linkReady ifname expected with
  | none => pure (false, false)
  | some gateway =>
    let reached ← ping gateway
    pure (!requirePing || reached, true)

/-- The loop of `wait_healthy`, at most `polls` times; `none` when it goes on. -/
def pollHealthy (ifname expected : String) (requirePing : Bool) (deadline : Time) :
    ℕ → String → Run (Option (Bool × String))
  | 0, _ => pure none
  | polls+1, reason => do
    let (healthy, ready) ← lookOnce ifname expected requirePing
    if healthy then pure (some (true, ""))
    else
      let reason := if ready then "gateway unreachable" else reason
      let now : Time ← sys .monotonic
      if now ≥ deadline then pure (some (false, reason))
      else
        sys .sleep
        pollHealthy ifname expected requirePing deadline polls reason

def waitHealthy (polls : ℕ) (ifname expected : String) (requirePing : Bool) (timeout : Time) :
    Run (Option (Bool × String)) := do
  let start : Time ← sys .monotonic
  pollHealthy ifname expected requirePing (start + timeout) polls "no IPv4 address or default route"

def takeSnapshot : Run (Option String) := sys .readKeyfile

/-- The snapshot is written next to the keyfile and put in its place; the class of an error. -/
def rewriteKeyfile (snapshot : String) : Run (Option String) := do
  match (← sys .openRestore : Option String) with
  | some cls => pure (some cls)
  | none =>
    match (← sys (.writeRestore snapshot) : Option String) with
    | some cls => pure (some cls)
    | none => sys .replaceKeyfile

def reloadCommand : List String := ["nmcli", "connection", "reload"]

def restore : Option String → Run Bool
  | none => do
    let _ ← commandText deleteCommand
    let _ ← commandText reloadCommand
    pure true
  | some snapshot => do
    match ← rewriteKeyfile snapshot with
    | some cls =>
      sys (.log ("network_apply: snapshot restore failed: " ++ cls))
      pure false
    | none =>
      let _ ← commandText reloadCommand
      let _ ← commandText upCommand
      pure true

def startHotspot (reason : String) : Run ResultState := do
  let started ← (do
    match (← sys .startHotspot : Except String Bool) with
    | .ok started => pure started
    | .error cls =>
      sys (.log ("network_apply: hotspot start failed: " ++ cls))
      pure false : Run Bool)
  let state := if started then ResultState.hotspot else .reverted
  writeResult state (reason ++ "; previous network did not come back")
  pure state

def oldProfileHealthy (polls : ℕ) (ifname : String) (restored : Bool) (snapshot : Option String) :
    Run (Option Bool) := do
  if restored && snapshot.isSome then
    let healthy ← waitHealthy polls ifname "" false 30
    pure (healthy.map Prod.fst)
  else pure (some false)

def revert (polls : ℕ) (ifname : String) (snapshot : Option String) (reason : String) : Run (Option ResultState) := do
  let reason := if reason = "" then "activation failed" else reason
  sys (.log ("network_apply: apply failed (" ++ reason ++ "); restoring the previous profile"))
  let restored ← restore snapshot
  match ← oldProfileHealthy polls ifname restored snapshot with
  | none => pure none
  | some true =>
    writeResult .reverted reason
    pure (some .reverted)
  | some false =>
    let state ← startHotspot reason
    pure (some state)

def Request.ipv4 (request : Request) : Ipv4 :=
  match request.static with
  | some s => .manual (some s.address) (some (toString s.prefixLength)) (some s.gateway) s.dns
  | none => .auto

def applyAndWatch (printable : Char → Bool) (polls : ℕ) (ifname : String) (request : Request) (profile : Profile) :
    Run (Option (Bool × String)) := do
  let keep := !request.psk.given && profile.found && profile.hasWpa && profile.ssid = request.ssid
  match ← apply printable (some request.ssid) (.key request.psk) ifname none request.ipv4 keep (some profile.found) with
  | none => pure none
  | some (false, reason) => pure (some (false, reason))
  | some (true, _) =>
    waitHealthy polls ifname ((request.static.map Static.address).getD "") request.static.isSome 60

/-- `run`; no state when it raises or goes on polling. -/
def run (printable : Char → Bool) (polls : ℕ) (ifname : String) (request : Request) : Run (Option ResultState) := do
  writeResult .applying ""
  let profile ← profileInfo
  let snapshot ← takeSnapshot
  match ← applyAndWatch printable polls ifname request profile with
  | none => pure none
  | some (true, _) =>
    writeResult .applied ""
    pure (some .applied)
  | some (false, reason) => revert polls ifname snapshot reason

def main (printable : Char → Bool) (polls : ℕ) (request : Option Request) : Run (Option ResultState) :=
  match request with
  | none => do
    writeResult .reverted "invalid request"
    pure (some .reverted)
  | some request => run printable polls "wlan0" request

end PiBuddyCam.Network
