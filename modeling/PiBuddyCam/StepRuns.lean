/-! Systems that take one step after another: `step s e` is the state after the event `e`, or `none`
where the event cannot happen. -/
namespace StepRuns

variable {σ ι : Type} (step : σ → ι → Option σ)

def run (s : σ) : List ι → Option σ
  | [] => some s
  | e :: events => (step s e).bind fun t => run t events

/-- Each event meets the condition in the state that it happens in. -/
def AllMeet (P : σ → ι → Prop) (s : σ) : List ι → Prop
  | [] => True
  | e :: events => P s e ∧ ∀ t, step s e = some t → AllMeet P t events

variable {step} {events : List ι}

theorem AllMeet.cons {P : σ → ι → Prop} {s t : σ} {e : ι} (he : P s e) (hst : step s e = some t)
    (h : AllMeet step P t events) : AllMeet step P s (e :: events) :=
  ⟨he, fun _ hu => Option.some.inj (hst.symm.trans hu) ▸ h⟩

theorem allMeet_of_forall {P : σ → ι → Prop} (h : ∀ s, ∀ e ∈ events, P s e) (s : σ) :
    AllMeet step P s events := by
  induction events generalizing s with
  | nil => trivial
  | cons e events ih =>
    exact ⟨h s e List.mem_cons_self, fun t _ => ih (fun u f hf => h u f (List.mem_cons_of_mem e hf)) t⟩

/-- What every step keeps that meets the condition holds after every such run. -/
theorem inv_of_run {P : σ → ι → Prop} {inv : σ → Prop}
    (hstep : ∀ s e t, inv s → P s e → step s e = some t → inv t) {s t : σ} (hs : inv s)
    (hmeet : AllMeet step P s events) (hrun : run step s events = some t) : inv t := by
  induction events generalizing s with
  | nil => exact Option.some.inj hrun ▸ hs
  | cons e events ih =>
    obtain ⟨u, hu, hrest⟩ := Option.bind_eq_some_iff.mp hrun
    exact ih (hstep s e u hs hmeet.1 hu) (hmeet.2 u hu) hrest

theorem inv_of_steps {inv : σ → Prop} (hstep : ∀ s e t, inv s → step s e = some t → inv t) {s t : σ}
    (hs : inv s) (hrun : run step s events = some t) : inv t :=
  inv_of_run (P := fun _ _ => True) (fun s e t h _ => hstep s e t h) hs (allMeet_of_forall (fun _ _ _ => trivial) s) hrun

/-- Where every step that breaks the condition leaves a lasting flaw, a run without the flaw met it. -/
theorem allMeet_of_run {P : σ → ι → Prop} {inv flaw : σ → Prop}
    (hstep : ∀ s e t, inv s → P s e → step s e = some t → inv t)
    (hflaw : ∀ s e t, inv s → ¬ P s e → step s e = some t → flaw t)
    (hstays : ∀ s e t, flaw s → step s e = some t → flaw t) {s t : σ} (hs : inv s)
    (hrun : run step s events = some t) (ht : ¬ flaw t) : AllMeet step P s events := by
  induction events generalizing s with
  | nil => trivial
  | cons e events ih =>
    obtain ⟨u, hu, hrest⟩ := Option.bind_eq_some_iff.mp hrun
    have he : P s e := Classical.byContradiction fun hnot =>
      ht (inv_of_steps hstays (hflaw s e u hs hnot hu) hrest)
    exact .cons he hu (ih (hstep s e u hs he hu) hrest)

end StepRuns
