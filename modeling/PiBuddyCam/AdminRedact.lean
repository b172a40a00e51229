import PiBuddyCam.AdminRuns
import PiBuddyCam.AdminSessions
import PiBuddyCam.ConfigSchema

/-! `redact` and the answers that carry the CSRF token of a session. Every body passes the scrubber, which
replaces each known secret wherever it occurs. -/
namespace PiBuddyCam.Admin

/-- A value of a response. Numbers are `other`; tuples and sets are lists. -/
inductive Json where
  | null
  | bool (b : Bool)
  | other
  | str (s : String)
  | list (items : List Json)
  | dict (entries : List (String × Json))

def redactKeys : List String :=
  ["token", "access-token", "refresh-token", "registration-token", "camera-token", "prusa-token", "fingerprint",
    "camera-fingerprint", "password", "password-hash", "admin-password", "admin-password-hash", "mqtt-password",
    "mqtt-pass", "mqtt-username", "mqtt-user", "username", "user", "psk", "wifi-psk", "wifi-password", "secret",
    "client-secret", "api-key", "cookie", "set-cookie", "authorization"]

def sensitiveHeaders : List String :=
  ["cookie", "set-cookie", "authorization", "x-camera-token", "x-camera-fingerprint", "x-api-key", "x-auth-token"]

/-- The lower case, as far as it can be one of an ASCII text: beside the letters of ASCII only the Kelvin sign
has one there. -/
def lowerChar (c : Char) : Char := if c = '\u212a' then 'k' else c.toLower

def normalizeKey (key : String) : String :=
  String.ofList ((PyText.strip key).toList.map fun c => if lowerChar c = '_' then '-' else lowerChar c)

def isSensitiveKey (key : String) : Bool := normalizeKey key ∈ redactKeys || normalizeKey key ∈ sensitiveHeaders

def redacted : String := "<redacted>"

def secretValues (secrets : List String) : List String := secrets.filter (· ≠ "")

def scrubString (value : String) (secrets : List String) : String :=
  secrets.foldl (fun value secret => PyText.replace value secret redacted) value

mutual

def redactWith (secrets : List String) : Json → Json
  | .str s => .str (scrubString s secrets)
  | .list items => .list (redactItems secrets items)
  | .dict entries => .dict (redactEntries secrets entries)
  | .null => .null
  | .bool b => .bool b
  | .other => .other

def redactItems (secrets : List String) : List Json → List Json
  | [] => []
  | item :: items => redactWith secrets item :: redactItems secrets items

def redactEntries (secrets : List String) : List (String × Json) → List (String × Json)
  | [] => []
  | (key, item) :: entries =>
    (key, if isSensitiveKey key then .str redacted else redactWith secrets item) :: redactEntries secrets entries

end

def redact (value : Json) (secrets : List String) : Json := redactWith (secretValues secrets) value

/-- What the setup wizard holds, each table with the values that are strings. -/
structure Wizard where
  token : String := ""
  adminHash : String := ""
  wifi : List (String × String) := []
  mqtt : List (String × String) := []

/-- What a response is made with: `adminHash` is the injected hash, and `secrets` what `load_secrets` returns,
`none` where it raises. -/
structure Site where
  mode : Mode := .admin
  adminHash : String := ""
  secrets : Option Config.Secrets := some {}
  wizard : Option Wizard := none

namespace Site

variable (site : Site)

def encodedPassword : String :=
  if site.adminHash ≠ "" then site.adminHash
  else (site.secrets.bind Config.Secrets.passwordHash).getD ""

def storedSecretValues : List String :=
  match site.secrets with
  | none => []
  | some s => [s.token, s.username, s.password, s.psk].filterMap (·.filter (· ≠ ""))

def wizardValues (wizard : Wizard) : List String :=
  [wizard.token, wizard.adminHash].filter (· ≠ "") ++
    [wizard.wifi, wizard.mqtt].flatMap fun table =>
      ["psk", "password", "username"].filterMap fun key => (table.lookup key).filter (· ≠ "")

def knownSecrets : List String :=
  [site.encodedPassword].filter (· ≠ "") ++ site.storedSecretValues ++
    match site.wizard with
    | none => []
    | some wizard => wizardValues wizard

def Spares (text : String) : Prop :=
  ∀ secret ∈ site.knownSecrets, secret ≠ "" → PyText.contains secret text = false

end Site

def Mode.name : Mode → String
  | .setup => "setup"
  | .admin => "admin"

def Site.sessionBody (site : Site) (csrf : Option String) : Json :=
  redact (.dict [("ok", .bool true), ("mode", .str site.mode.name), ("csrf", csrf.elim .null .str)]) site.knownSecrets

def handleSession (site : Site) (h : Host) (req : Request) : Run Json := do
  let csrf ← csrfFor (sessionToken h req)
  pure (site.sessionBody csrf)

def returnedCsrf : Json → Option String
  | .dict entries =>
    match entries.lookup "csrf" with
    | some (.str csrf) => some csrf
    | _ => none
  | _ => none

def CsrfAccepted (tokens : ℕ → String) (s : Tables) (token : String) (csrf : Option String) : Prop :=
  ∃ value, csrf = some value ∧ ∀ choice, ((validateCsrf token value).run ⟨Tables.step tokens⟩ choice s).1 = some true

section Scrubbing

theorem mem_replace {c : Char} {value secret : String} (hc : c ∈ redacted.toList) (h : c ∈ value.toList) :
    c ∈ (PyText.replace value secret redacted).toList := by
  rw [PyText.replace, String.toList_ofList]
  exact PyText.mem_replaceFrom hc h

theorem mem_scrubString {c : Char} (hc : c ∈ redacted.toList) (secrets : List String) {value : String}
    (h : c ∈ value.toList) : c ∈ (scrubString value secrets).toList := by
  induction secrets generalizing value with
  | nil => exact h
  | cons secret secrets ih => exact ih (mem_replace hc h)

/-- A text without the mark of a replacement comes out as it is exactly when no secret occurs in it. -/
theorem scrubString_eq_self_iff {value : String} (hvalue : '<' ∉ value.toList) (secrets : List String)
    (hsecrets : ∀ secret ∈ secrets, secret ≠ "") :
    scrubString value secrets = value ↔ ∀ secret ∈ secrets, PyText.contains secret value = false := by
  have hmark : '<' ∈ redacted.toList := by decide
  induction secrets with
  | nil => simp [scrubString]
  | cons secret secrets ih =>
    have hrest := ih fun s hs => hsecrets s (List.mem_cons_of_mem secret hs)
    have hne : secret.toList ≠ [] := fun hnil => hsecrets secret List.mem_cons_self (String.toList_eq_nil_iff.mp hnil)
    rw [List.forall_mem_cons]
    by_cases hin : secret.toList <:+: value.toList
    · -- the replacement leaves its mark, which no later one takes away
      have hone : '<' ∈ (PyText.replace value secret redacted).toList := by
        rw [PyText.replace, String.toList_ofList]
        exact PyText.mem_replaceFrom_new hmark hne hin
      have hall := mem_scrubString hmark secrets hone
      constructor
      · intro heq
        rw [scrubString, List.foldl_cons] at heq
        rw [scrubString, heq] at hall
        exact absurd hall hvalue
      · intro hnot
        rw [(PyText.contains_iff secret value).mpr hin] at hnot
        cases hnot.1
    · have hkeep : PyText.replace value secret redacted = value := by
        rw [PyText.replace, PyText.replaceFrom_eq_self hin, String.ofList_toList]
      have hfalse : PyText.contains secret value = false := by
        rw [← Bool.not_eq_true, PyText.contains_iff]
        exact hin
      rw [scrubString, List.foldl_cons, hkeep]
      exact hrest.trans ⟨fun h => ⟨hfalse, h⟩, fun h => h.2⟩

theorem isSensitiveKey_csrf : isSensitiveKey "csrf" = false := by decide +kernel

theorem returnedCsrf_sessionBody (site : Site) (csrf : Option String) :
    returnedCsrf (site.sessionBody csrf) = csrf.map fun c => scrubString c (secretValues site.knownSecrets) := by
  cases csrf <;>
    simp [Site.sessionBody, redact, redactWith, redactEntries, returnedCsrf, isSensitiveKey_csrf, List.lookup_cons]

end Scrubbing

def UrlSafe (token : String) : Prop := ∀ c ∈ token.toList, c.isAlphanum = true ∨ c = '-' ∨ c = '_'

theorem UrlSafe.mark {token : String} (h : UrlSafe token) : '<' ∉ token.toList := by
  intro hmem
  rcases h '<' hmem with halnum | hminus | hline
  · exact absurd halnum (by decide)
  · exact absurd hminus (by decide)
  · exact absurd hline (by decide)

theorem toNat_lt_of_isAlphanum {c : Char} (h : c.isAlphanum = true) : c.toNat < 128 := by
  delta Char.isAlphanum Char.isAlpha Char.isUpper Char.isLower Char.isDigit at h
  simp only [Bool.or_eq_true, Bool.and_eq_true, decide_eq_true_eq, UInt32.le_iff_toNat_le, ge_iff_le] at h
  have hval : c.toNat = c.val.toNat := rfl
  have hupper : 'Z'.val.toNat = 90 := rfl
  have hlower : 'z'.val.toNat = 122 := rfl
  have hdigit : '9'.val.toNat = 57 := rfl
  omega

theorem UrlSafe.ascii {token : String} (h : UrlSafe token) : isAscii token = true := by
  apply List.all_eq_true.mpr
  intro c hc
  rw [decide_eq_true_eq]
  rcases h c hc with halnum | rfl | rfl
  · exact toNat_lt_of_isAlphanum halnum
  · decide
  · decide

section Acceptance

variable {tokens : ℕ → String} {s : Tables} {token csrf : String}

theorem run_validateCsrf (value : String) (choice : ℕ → Choice) :
    ((validateCsrf token value).run ⟨Tables.step tokens⟩ choice s).1 =
      match s.store.csrfFor token with
      | none => some false
      | some expected => if isAscii expected && isAscii value then some (expected == value) else none := by
  change ((match s.store.csrfFor token with
    | none => pure (some false)
    | some expected => if isAscii expected && isAscii value then pure (some (expected == value)) else pure none :
      Run (Option Bool)).run _ _ _).1 = _
  cases s.store.csrfFor token with
  | none => rfl
  | some expected =>
    dsimp only
    split_ifs
    · rfl
    · rfl

theorem csrfAccepted_iff (hget : s.store.csrfFor token = some csrf) (hascii : isAscii csrf = true) (value : String) :
    CsrfAccepted tokens s token (some value) ↔ value = csrf := by
  constructor
  · rintro ⟨v, hv, hrun⟩
    obtain rfl := Option.some.inj hv
    have h := hrun fun _ => {}
    rw [run_validateCsrf, hget] at h
    dsimp only at h
    split_ifs at h
    exact (eq_of_beq (Option.some.inj h)).symm
  · rintro rfl
    refine ⟨value, rfl, fun choice => ?_⟩
    rw [run_validateCsrf, hget]
    simp [hascii]

theorem not_csrfAccepted (hget : s.store.csrfFor token = none) (value : Option String) :
    ¬ CsrfAccepted tokens s token value := by
  rintro ⟨v, -, hrun⟩
  have h := hrun fun _ => {}
  rw [run_validateCsrf, hget] at h
  cases h

theorem csrfAccepted_body_iff (site : Site) (hget : s.store.csrfFor token = some csrf) (hsafe : UrlSafe csrf) :
    CsrfAccepted tokens s token (returnedCsrf (site.sessionBody (some csrf))) ↔ site.Spares csrf := by
  have hne : ∀ secret ∈ secretValues site.knownSecrets, secret ≠ "" := by
    intro secret hsecret
    simpa using (List.mem_filter.mp hsecret).2
  rw [returnedCsrf_sessionBody, Option.map_some, csrfAccepted_iff hget hsafe.ascii,
    scrubString_eq_self_iff hsafe.mark _ hne, Site.Spares]
  simp [secretValues]

end Acceptance

section Eviction

variable {s : SessionStore} {token csrf : String} {now : ℚ}

theorem csrfFor_place (hfresh : s.sessions.get? token = none) :
    (Crowded s now → (s.place token csrf now).1.csrfFor token = none) ∧
      (¬ Crowded s now → (s.place token csrf now).1.csrfFor token = some csrf) := by
  rw [← @place_evicted_iff s token csrf now hfresh, SessionStore.csrfFor, get?_place]
  constructor
  · intro h
    rw [if_pos h]
    rfl
  · intro h
    rw [if_neg h, SessionStore.insert, OrderedDict.get?_set_self]
    rfl

end Eviction

def Drawn (tokens : ℕ → String) (s : Tables) : Prop :=
  ∀ t r, s.store.sessions.get? t = some r → (∃ i < s.drawn, t = tokens i) ∧ ∃ j, r.csrf = tokens j

section Drawing

variable {tokens : ℕ → String} {s : Tables}

theorem Drawn.shrink (hs : Drawn tokens s) {u : Tables} (hdrawn : u.drawn = s.drawn)
    (hsub : ∀ t r, u.store.sessions.get? t = some r → ∃ r', s.store.sessions.get? t = some r' ∧ r.csrf = r'.csrf) :
    Drawn tokens u := by
  intro t r hr
  obtain ⟨r', hr', hcsrf⟩ := hsub t r hr
  rw [hdrawn, hcsrf]
  exact hs t r' hr'

theorem Drawn.step (hs : Drawn tokens s) (o : Op) (c : Choice) : Drawn tokens (Tables.step tokens s o c).2 := by
  have hdrop (token : String) : Drawn tokens { s with store := s.store.drop token } := by
    refine hs.shrink rfl fun t r hr => ⟨r, ?_, rfl⟩
    exact ((OrderedDict.get?_pop_eq_some_iff _ _ _ _).mp hr).1
  cases o with
  | validate token now =>
    refine hs.shrink rfl fun t r hr => ?_
    change (s.store.validate token now).2.sessions.get? t = some r at hr
    rcases s.store.validate_cases token now with ⟨-, hcase⟩ | ⟨old, hget, ⟨-, hcase⟩ | ⟨-, hcase⟩⟩ <;> rw [hcase] at hr
    · exact ⟨r, hr, rfl⟩
    · exact ⟨r, ((OrderedDict.get?_pop_eq_some_iff _ _ _ _).mp hr).1, rfl⟩
    · change (s.store.sessions.set token _).get? t = some r at hr
      rw [OrderedDict.get?_set] at hr
      split_ifs at hr with ht
      · exact ⟨old, ht ▸ hget, by rw [← Option.some.inj hr]⟩
      · exact ⟨r, hr, rfl⟩
  | prune now =>
    refine hs.shrink rfl fun t r hr => ⟨r, ?_, rfl⟩
    exact ((OrderedDict.get?_filter _ _ _ _).mp hr).1
  | newSession now =>
    have hle := le_firstFree s.store tokens s.store.sessions.entries.length s.drawn
    intro t r hr
    change (s.store.sessions.set _ _).get? t = some r at hr
    rw [OrderedDict.get?_set] at hr
    split_ifs at hr with ht
    · refine ⟨⟨_, ?_, ht⟩, ⟨s.store.firstFree tokens s.store.sessions.entries.length s.drawn + 1, ?_⟩⟩
      · exact Nat.lt_add_of_pos_right (by decide)
      · rw [← Option.some.inj hr]
    · obtain ⟨⟨i, hi, hti⟩, hcsrf⟩ := hs t r hr
      exact ⟨⟨i, show i < _+2 by omega, hti⟩, hcsrf⟩
  | evictOldest =>
    change Drawn tokens { s with store := s.store.oldest.elim s.store s.store.drop }
    cases s.store.oldest with
    | none => exact hs
    | some token => exact hdrop token
  | revoke token => exact hdrop token
  | _ => exact hs

theorem safe_drawn {α : Type} {A : Choice → Prop} (p : Run α) (hs : Drawn tokens s) :
    Prog.Safe ⟨Tables.step tokens⟩ A (Drawn tokens) p (fun _ => Drawn tokens) s := by
  induction p generalizing s with
  | ret a => exact hs
  | call o k ih => exact fun c _ => ⟨hs.step o c, ih _ (hs.step o c)⟩

theorem drawn_of_reached {h : Host} {cfg : Config} {s : Tables} {t : Journal} (hempty : s.store.sessions = .empty)
    (ht : Reached tokens h cfg s t) : Drawn tokens t.state := by
  have hkeep {α : Type} (p : Run α) (cs : List Choice) (u : Journal) (hu : Drawn tokens u.state) :
      Drawn tokens (p.exec (journal tokens) cs u).2.state :=
    ((safe_drawn (A := fun _ => True) p hu).traced.exec hu fun _ _ => trivial).1
  induction ht with
  | start =>
    intro t r hr
    rw [hempty] at hr
    cases hr
  | request req now cs _ ih => exact hkeep _ cs _ ih
  | socket token now cs _ ih => exact hkeep _ cs _ ih

theorem Drawn.free (hs : Drawn tokens s) (htokens : Function.Injective tokens) (now : ℚ) :
    (s.store.prune now).sessions.get? (tokens s.drawn) = none := by
  cases hget : (s.store.prune now).sessions.get? (tokens s.drawn) with
  | none => rfl
  | some r =>
    obtain ⟨⟨i, hi, heq⟩, -⟩ := hs _ r ((OrderedDict.get?_filter _ _ _ _).mp hget).1
    exact absurd (htokens heq) (by omega)

theorem firstFree_eq {store : SessionStore} {n : ℕ} (hfree : store.sessions.get? (tokens n) = none) (rounds : ℕ) :
    store.firstFree tokens rounds n = n := by
  cases rounds with
  | zero => rfl
  | succ rounds => rw [SessionStore.firstFree, hfree]; rfl

theorem safe_create (now : ℚ) (hfree : (s.store.prune now).sessions.get? (tokens s.drawn) = none) :
    Prog.Safe ⟨Tables.step tokens⟩ (fun _ => True) (fun _ => True) (create now)
      (fun token u => token = tokens s.drawn ∧
        u.store = ((s.store.prune now).place (tokens s.drawn) (tokens (s.drawn+1)) now).1) s := by
  obtain ⟨store, hstore⟩ : ∃ store, store = (s.store.prune now).insert (tokens s.drawn) (tokens (s.drawn+1)) now :=
    ⟨_, rfl⟩
  set out := Tables.newSession { s with store := s.store.prune now } tokens now with hout
  have hnew : out = ((tokens s.drawn, tokens (s.drawn+1)), { s with store := store, drawn := s.drawn+2 }) := by
    rw [hout, Tables.newSession, hstore]
    rw [firstFree_eq hfree]
  apply (Prog.safe_op_bind _ _).mpr
  intro _ _
  refine ⟨trivial, ?_⟩
  apply (Prog.safe_op_bind _ _).mpr
  intro _ _
  refine ⟨trivial, ?_⟩
  apply (Prog.safe_op_bind _ _).mpr
  intro _ _
  refine ⟨trivial, ?_⟩
  change Prog.Safe _ _ _ (if decide ((out.2.store.sessions.entries.length : ℤ) > out.2.store.maxSessions) = true then
      sys .evictOldest >>= fun _ => pure out.1.1 else pure out.1.1 : Run String) _ out.2
  rw [hnew]
  by_cases hfull : (store.sessions.entries.length : ℤ) > store.maxSessions
  · rw [decide_eq_true hfull, if_pos rfl]
    apply (Prog.safe_op_bind _ _).mpr
    intro _ _
    refine ⟨trivial, rfl, ?_⟩
    rw [SessionStore.place_full (hstore ▸ hfull), ← hstore]
    rfl
  · rw [decide_eq_false hfull, if_neg Bool.false_ne_true]
    refine ⟨rfl, ?_⟩
    rw [SessionStore.place_room (hstore ▸ hfull), ← hstore]

theorem safe_handleLogin (htokens : Function.Injective tokens) (hs : Drawn tokens s) (req : Request) (now : ℚ)
    (body : BodyData) :
    Prog.Safe ⟨Tables.step tokens⟩ (fun _ => True) (fun _ => True) (handleLogin req now body)
      (fun response u => ∀ token csrf, response = .loggedIn token csrf → token = tokens s.drawn ∧
        u.store = ((s.store.prune now).place (tokens s.drawn) (tokens (s.drawn+1)) now).1 ∧
          csrf = u.store.csrfFor token) s := by
  have hfree := hs.free htokens now
  -- up to the new session only the limiter changes
  have hquiet {o : Op} {u : Tables} (hu : u.store = s.store ∧ u.drawn = s.drawn)
      (ho : ∀ c, (Tables.step tokens u o c).2.store = u.store ∧ (Tables.step tokens u o c).2.drawn = u.drawn) :
      Prog.Safe ⟨Tables.step tokens⟩ (fun _ => True) (fun _ => True) (sys o)
        (fun _ u => u.store = s.store ∧ u.drawn = s.drawn) u :=
    fun c _ => ⟨trivial, (ho c).1.trans hu.1, (ho c).2.trans hu.2⟩
  apply (hquiet ⟨rfl, rfl⟩ fun _ => ⟨rfl, rfl⟩).bind
  intro verdict u hu
  split_ifs
  · intro token csrf h
    cases h
  apply (hquiet hu fun _ => ⟨rfl, rfl⟩).bind
  intro verified u hu
  split_ifs
  · apply (hquiet hu fun _ => ⟨rfl, rfl⟩).bind
    intro _ u hu
    apply (safe_create now (by rw [hu.1, hu.2]; exact hfree)).bind
    intro token v hv
    rw [hu.1, hu.2] at hv
    intro _ _
    refine ⟨trivial, ?_⟩
    intro token' csrf h
    cases h
    exact ⟨hv.1, hv.2, rfl⟩
  · apply (hquiet hu fun _ => ⟨rfl, rfl⟩).bind
    intro _ u _ token csrf h
    cases h

end Drawing

/-- In every run with distinct URL-safe tokens: the CSRF value in the answer to a login is accepted for its session
exactly when no known secret occurs in the token that was drawn for it and the table is not crowded; and the one in
the answer to a session request, exactly when no known secret occurs in the session's token. -/
theorem returned_csrf_accepted_iff {tokens : ℕ → String} {h : Host} {cfg : Config} {s : Tables} {t : Journal}
    (htokens : Function.Injective tokens) (hsafe : ∀ n, UrlSafe (tokens n)) (hempty : s.store.sessions = .empty)
    (ht : Reached tokens h cfg s t) (site : Site) :
    (∀ req now body cs token csrf,
      ((handleLogin req now body).exec (journal tokens) cs t).1 = some (.loggedIn token csrf) →
        (CsrfAccepted tokens ((handleLogin req now body).exec (journal tokens) cs t).2.state token
            (returnedCsrf (site.sessionBody csrf)) ↔
          ¬ Crowded (t.state.store.prune now) now ∧ site.Spares (tokens (t.state.drawn+1)))) ∧
    ∀ req csrf choice, t.state.store.csrfFor (sessionToken h req) = some csrf →
      (CsrfAccepted tokens t.state (sessionToken h req)
          (returnedCsrf ((handleSession site h req).run ⟨Tables.step tokens⟩ choice t.state).1) ↔ site.Spares csrf) := by
  have hdrawn := drawn_of_reached hempty ht
  constructor
  · intro req now body cs token csrf hlogin
    have hexec := ((safe_handleLogin htokens hdrawn req now body).traced.exec trivial fun _ _ => trivial).2 _ hlogin
    obtain ⟨htoken, hstore, hcsrf⟩ := hexec token csrf rfl
    obtain ⟨hgone, hkept⟩ := @csrfFor_place _ _ (tokens (t.state.drawn+1)) now (hdrawn.free htokens now)
    rw [← hstore, ← htoken] at hgone hkept
    by_cases hcrowded : Crowded (t.state.store.prune now) now
    · constructor
      · intro haccepted
        exact absurd haccepted (not_csrfAccepted (hgone hcrowded) _)
      · intro hboth
        exact absurd hcrowded hboth.1
    · rw [hcsrf, hkept hcrowded]
      have hspares : ¬ Crowded (t.state.store.prune now) now ∧ site.Spares (tokens (t.state.drawn+1)) ↔
          site.Spares (tokens (t.state.drawn+1)) := and_iff_right hcrowded
      exact (csrfAccepted_body_iff site (hkept hcrowded) (hsafe _)).trans hspares.symm
  · intro req csrf choice hget
    have hbody : ((handleSession site h req).run ⟨Tables.step tokens⟩ choice t.state).1 =
        site.sessionBody (t.state.store.csrfFor (sessionToken h req)) := rfl
    obtain ⟨r, hr, hcsrf⟩ := Option.map_eq_some_iff.mp hget
    obtain ⟨-, j, hj⟩ := hdrawn _ r hr
    have hurl : UrlSafe csrf := by
      rw [← hcsrf, hj]
      exact hsafe j
    rw [hbody, hget]
    exact csrfAccepted_body_iff site hget hurl

theorem tallies_urlSafe (n : ℕ) : UrlSafe (tallies n) := by
  intro c hc
  rw [tallies, String.toList_ofList] at hc
  rw [List.eq_of_mem_replicate hc]
  decide

def firstLogin : Option Response × Journal :=
  (handleLogin (post "/api/login") 0 [("password", .str "secret")]).exec (journal tallies)
    (List.replicate 20 { verifies := true }) ⟨{}, []⟩

theorem firstLogin_response : firstLogin.1 = some (.loggedIn "t" (some "tt")) := by rfl

/-- An MQTT user name that is one letter of the session's CSRF token: the body returns another value, and the store
refuses it. -/
theorem oneLetterUser_csrf_refused :
    firstLogin.1 = some (.loggedIn "t" (some "tt")) ∧
      returnedCsrf (Site.sessionBody { secrets := some { username := some "t" } } (some "tt")) =
        some "<redacted><redacted>" ∧
      ¬ CsrfAccepted tallies firstLogin.2.state "t"
        (returnedCsrf (Site.sessionBody { secrets := some { username := some "t" } } (some "tt"))) := by
  have hstore : firstLogin.2.state.store.csrfFor "t" = some "tt" := by decide +kernel
  have hbody : returnedCsrf (Site.sessionBody { secrets := some { username := some "t" } } (some "tt")) =
      some "<redacted><redacted>" := by
    rw [returnedCsrf_sessionBody]
    decide +kernel
  refine ⟨firstLogin_response, hbody, ?_⟩
  rw [hbody, csrfAccepted_iff hstore (by decide)]
  decide

/-- A user name that does not occur in it. -/
theorem otherUser_csrf_accepted :
    CsrfAccepted tallies firstLogin.2.state "t"
      (returnedCsrf (Site.sessionBody { secrets := some { username := some "camera" } } (some "tt"))) := by
  have hstart : Reached tallies plainHost {} {} ⟨{}, []⟩ := .start
  have hboth := returned_csrf_accepted_iff tallies_injective tallies_urlSafe rfl hstart
    { secrets := some { username := some "camera" } }
  apply (hboth.1 (post "/api/login") 0 [("password", .str "secret")] (List.replicate 20 { verifies := true }) "t"
    (some "tt") firstLogin_response).mpr
  constructor
  · intro hcrowded
    exact absurd hcrowded.1 (by decide)
  · intro secret hsecret _
    have hknown : Site.knownSecrets { secrets := some { username := some "camera" } } = ["camera"] := by decide
    rw [hknown, List.mem_singleton] at hsecret
    rw [hsecret]
    decide

end PiBuddyCam.Admin
