import PiBuddyCam.AdminSafety

/-! Runs of the admin core: requests in any order, from any peers, and the session checks
of the transport in between. -/
namespace PiBuddyCam.Admin

/-- What the application can come to. A request may end early, by an exception or with
the process. -/
inductive Reached (tokens : ℕ → String) (h : Host) (cfg : Config) (s : Tables) : Journal → Prop
  | start : Reached tokens h cfg s ⟨s, []⟩
  | request {t : Journal} (req : Request) (now : ℚ) (cs : List Choice) : Reached tokens h cfg s t →
      Reached tokens h cfg s ((dispatch h cfg req now).exec (journal tokens) cs t).2
  /-- `validate_session_token`. -/
  | socket {t : Journal} (token : String) (now : ℚ) (cs : List Choice) : Reached tokens h cfg s t →
      Reached tokens h cfg s ((validate token now).exec (journal tokens) cs t).2

section

variable {tokens : ℕ → String} {h : Host} {cfg : Config} {s : Tables} {t : Journal}

theorem sound_of_reached (htokens : Function.Injective tokens) (hsessions : s.store.sessions = .empty)
    (hwindows : s.reauthAt = .empty) (ht : Reached tokens h cfg s t) :
    Sound ⟨tokens, h, s.store.idleTtl, s.store.absoluteTtl⟩ t := by
  induction ht with
  | start =>
    refine ⟨Trace.OnlyAfter.nil _, rfl, rfl, fun token r hr => ?_, fun token htoken => ?_⟩
    · rw [hsessions] at hr
      exact nomatch hr
    · rw [hsessions, hwindows] at htoken
      exact htoken.elim (nomatch ·) (nomatch ·)
  | request req now cs _ ih => exact ((keeps_dispatch htokens ih cfg req now).exec ih fun _ _ => trivial).1
  | socket token now cs _ ih =>
    have hwithin : (validate token now).Within Op.Quiet := ⟨trivial, fun _ => trivial⟩
    exact ((keeps_quiet hwithin ih).exec ih fun _ _ => trivial).1

/-- In every run with distinct tokens, the handler of a protected route runs only for a
request that is admitted, and the admin password is verified only directly after the
limiter allowed the peer at that time. A request for a window-only route verifies no
password and tells the limiter about none. -/
theorem handlers_run_only_when_admitted (htokens : Function.Injective tokens)
    (hsessions : s.store.sessions = .empty) (hwindows : s.reauthAt = .empty) (ht : Reached tokens h cfg s t) :
    (∀ before route req now after, t.log = before ++ ⟨.run route req now, ()⟩ :: after → route.policy.Protected →
        Admitted h s.store.idleTtl s.store.absoluteTtl route.policy req now before) ∧
      (∀ before peer now session password ok after,
        t.log = before ++ ⟨.verify peer now session password, ok⟩ :: after →
          ∃ rest retryAfter, before = rest ++ [⟨.check peer now, (true, retryAfter)⟩]) ∧
      ∀ req now cs route, matchRoute (requestMethod h req) (requestPath req) = some route →
        route.policy = .reauthWindowOnly →
          ∃ own, ((dispatch h cfg req now).exec (journal tokens) cs t).2.log = t.log ++ own ∧
            ∀ e ∈ own, ¬ Charges e := by
  have hsound := sound_of_reached htokens hsessions hwindows ht
  refine ⟨fun before route req now after hlog => ?_, fun before peer now session password ok after hlog => ?_,
    fun req now cs route hroute hpolicy => ?_⟩
  · exact hsound.order before _ after hlog
  · exact hsound.order before _ after hlog
  · have hgrown := (Prog.Within.log (m := ⟨Tables.step tokens⟩) (A := fun _ => True)
      (dispatch_within_free cfg hroute hpolicy : (dispatch h cfg req now).Within Op.Free) t).exec
        ⟨[], (List.append_nil _).symm, List.forall_mem_nil _⟩ fun c (_ : c ∈ cs) => trivial
    obtain ⟨own, hlog, hfree⟩ := hgrown.1
    exact ⟨own, hlog, fun e he => (hfree e he).not_charges e.2⟩

end

def plainHost : Host where
  upper := id
  lower := id
  decode _ := ""
  loads _ := .object [("password", .str "secret")]
  parseQs _ := none
  loadCookie text := some [(sessionCookieName, text)]

def tallies (n : ℕ) : String := String.ofList (List.replicate (n+1) 't')

theorem tallies_injective : Function.Injective tallies := by
  intro m n he
  have hlength := congrArg (fun s : String => s.toList.length) he
  simpa [tallies] using hlength

def post (path : String) : Request where
  method := "POST"
  path := path
  headers := [("Cookie", "t"), ("X-CSRF-Token", "tt")]
  body := .text "\x7b\x7d"

def served (req : Request) (now : ℚ) (t : Journal) : Journal :=
  ((dispatch plainHost {} req now).exec (journal tallies) (List.replicate 20 { verifies := true }) t).2

def rebootRun : Journal :=
  served (post "/api/reboot") 30 (served (post "/api/reauth") 10 (served (post "/api/login") 0 ⟨{}, []⟩))

theorem rebootRun_admitted :
    rebootRun.log.any (fun e => match e.1 with
      | .run route _ _ => route.handler == .reboot
      | _ => false) = true ∧
      ∀ before route req now after, rebootRun.log = before ++ ⟨.run route req now, ()⟩ :: after →
        route.policy.Protected → Admitted plainHost (30*60) (12*60*60) route.policy req now before := by
  have hreached : Reached tallies plainHost {} {} rebootRun :=
    .request _ _ _ (.request _ _ _ (.request _ _ _ .start))
  exact ⟨by decide +kernel, (handlers_run_only_when_admitted tallies_injective rfl rfl hreached).1⟩

end PiBuddyCam.Admin
