import PiBuddyCam.FactoryReset

/-! The two-step confirmation over whole sequences of calls: what must have been called before
an `execute` that touches the volume. -/
namespace PiBuddyCam.Reset

open LinkTree LinkTree.Os

/-- The calls of the confirmation. `begin` has the token that the factory yields; `execute` has what the clock says and
what becomes of each operation on the volume. -/
inductive Call where
  | begin (drawn : String) (reason : Option String)
  | confirm (token : Option String)
  | execute (token : Option String) (includeTimelapse : Bool) (times : Times) (chances : ℕ → Chance Content)

structure System where
  reset : FactoryReset
  volume : Fs

namespace System

variable (s : Setup)

def step (sys : System) : Call → System
  | .begin drawn reason => { sys with reset := sys.reset.begin drawn reason }
  | .confirm token => { sys with reset := (sys.reset.confirm token).2 }
  | .execute token includeTimelapse times chances =>
    let out := (sys.reset.execute s token includeTimelapse times).run (LinkTree.volume Content) chances sys.volume
    ⟨out.1.2, out.2⟩

def after (sys : System) (calls : List Call) : System := calls.foldl (step s) sys

theorem after_append (sys : System) (calls more : List Call) :
    sys.after s (calls ++ more) = (sys.after s calls).after s more := List.foldl_append

end System

/-- The call is an `execute` that the gate lets through. -/
def Authorised (f : FactoryReset) : Call → Prop
  | .execute token _ _ _ => f.gate token = none
  | _ => False

def Call.IsBegin : Call → Prop
  | .begin _ _ => True
  | _ => False

theorem gate_eq_none_iff {f : FactoryReset} {token : Option String} :
    f.gate token = none ↔ f.begun = true ∧ f.confirmed = true ∧ token = some f.token := by
  unfold FactoryReset.gate
  cases f.begun <;> cases f.confirmed <;> simp

theorem volume_step {s : Setup} {sys : System} {c : Call} (hc : ¬ Authorised sys.reset c) :
    (sys.step s c).volume = sys.volume := by
  cases c with
  | begin drawn reason => rfl
  | confirm token => rfl
  | execute token includeTimelapse times chances =>
    obtain ⟨reason, hreason⟩ := Option.ne_none_iff_exists'.mp hc
    simp only [System.step, FactoryReset.execute, hreason]
    rfl

theorem reset_execute (s : Setup) (sys : System) (token : Option String) (includeTimelapse : Bool) (times : Times)
    (chances : ℕ → Chance Content) :
    (sys.reset.gate token = none ∧ (sys.step s (.execute token includeTimelapse times chances)).reset.begun = false) ∨
    (sys.reset.gate token ≠ none ∧ ∃ report,
      (sys.step s (.execute token includeTimelapse times chances)).reset = { sys.reset with lastReport := report }) := by
  cases hgate : sys.reset.gate token with
  | some reason =>
    refine Or.inr ⟨nofun, some (refused reason ""), ?_⟩
    simp only [System.step, FactoryReset.execute, hgate]
    rfl
  | none =>
    refine Or.inl ⟨rfl, ?_⟩
    simp only [System.step, FactoryReset.execute, hgate]
    -- whatever is performed, the object that comes with the report is not begun
    have hkeep : (sys.reset.execute s token includeTimelapse times).Safe (LinkTree.volume Content) (fun _ => True)
        (fun _ => True) (fun out _ => out.2.begun = false) sys.volume := by
      simp only [FactoryReset.execute, hgate]
      apply (Prog.safe_trivial (s.perform times includeTimelapse) sys.volume).bind
      intro report t _
      rfl
    have hrun := hkeep.run (f := chances) fun _ => trivial
    simp only [FactoryReset.execute, hgate] at hrun
    exact hrun

/-- Since its `begin`, which issued the token, there was no other `begin` and no authorised `execute`; and where the
object is confirmed, a confirmation of that token that succeeded. -/
structure Since (s : Setup) (start : System) (early : List Call) (reason : Option String) (mid : List Call)
    (f : FactoryReset) : Prop where
  latest : ∀ c ∈ mid, ¬ c.IsBegin
  unused : ∀ a c b, mid = a ++ c :: b → ¬ Authorised (start.after s (early ++ .begin f.token reason :: a)).reset c
  confirmed : f.confirmed = true → ∃ a b, mid = a ++ .confirm (some f.token) :: b ∧
    ((start.after s (early ++ .begin f.token reason :: a)).reset.confirm (some f.token)).1 = true

section History

variable {s : Setup} {start : System} {early mid : List Call} {reason : Option String} {f g : FactoryReset}

theorem Since.snoc (h : Since s start early reason mid f) {c : Call} (hc : ¬ c.IsBegin)
    (hauth : ¬ Authorised (start.after s (early ++ .begin f.token reason :: mid)).reset c) (htoken : g.token = f.token)
    (hconfirmed : g.confirmed = true → f.confirmed = true ∨ (c = .confirm (some f.token) ∧
      ((start.after s (early ++ .begin f.token reason :: mid)).reset.confirm (some f.token)).1 = true)) :
    Since s start early reason (mid ++ [c]) g where
  latest x hx := by
    rcases List.mem_append.mp hx with hx | hx
    · exact h.latest x hx
    · rw [List.mem_singleton.mp hx]
      exact hc
  unused a x b hab := by
    rw [htoken]
    rcases List.eq_nil_or_concat' b with rfl | ⟨b, last, rfl⟩
    · obtain ⟨rfl, hx⟩ := List.append_inj' hab rfl
      rw [← List.singleton_inj.mp hx]
      exact hauth
    · rw [← List.cons_append, ← List.append_assoc] at hab
      exact h.unused a x b (List.append_inj' hab rfl).1
  confirmed hg := by
    rw [htoken]
    rcases hconfirmed hg with hf | ⟨rfl, hnow⟩
    · obtain ⟨a, b, hab, hdone⟩ := h.confirmed hf
      refine ⟨a, b ++ [c], ?_, hdone⟩
      rw [hab, List.append_assoc, List.cons_append]
    · exact ⟨mid, [], rfl, hnow⟩

theorem since_of_begun (s : Setup) (v : Fs) (calls : List Call) :
    (System.after s ⟨{}, v⟩ calls).reset.begun = true → ∃ early reason mid,
      calls = early ++ .begin (System.after s ⟨{}, v⟩ calls).reset.token reason :: mid ∧
      Since s ⟨{}, v⟩ early reason mid (System.after s ⟨{}, v⟩ calls).reset := by
  induction calls using List.reverseRecOn with
  | nil =>
    intro hbegun
    cases hbegun
  | append_singleton calls c ih =>
    obtain ⟨sys, hsys⟩ : ∃ sys, sys = System.after s ⟨{}, v⟩ calls := ⟨_, rfl⟩
    have hstep : System.after s ⟨{}, v⟩ (calls ++ [c]) = sys.step s c := by
      rw [System.after_append, ← hsys]
      rfl
    rw [hstep]
    rw [← hsys] at ih
    intro hbegun
    -- a call that keeps the token goes behind what is there already
    have hmore (hold : sys.reset.begun = true) (hc : ¬ c.IsBegin) (hauth : ¬ Authorised sys.reset c)
        (htoken : (sys.step s c).reset.token = sys.reset.token)
        (hconfirmed : (sys.step s c).reset.confirmed = true → sys.reset.confirmed = true ∨
          (c = .confirm (some sys.reset.token) ∧ (sys.reset.confirm (some sys.reset.token)).1 = true)) :
        ∃ early reason mid, calls ++ [c] = early ++ .begin (sys.step s c).reset.token reason :: mid ∧
          Since s ⟨{}, v⟩ early reason mid (sys.step s c).reset := by
      obtain ⟨early, reason, mid, hcalls, hsince⟩ := ih hold
      have hnow : System.after s ⟨{}, v⟩ (early ++ .begin sys.reset.token reason :: mid) = sys := by
        rw [← hcalls, hsys]
      refine ⟨early, reason, mid ++ [c], ?_, hsince.snoc hc ?_ htoken ?_⟩
      · rw [htoken, hcalls, List.append_assoc, List.cons_append]
      · rw [hnow]
        exact hauth
      · rw [hnow]
        exact hconfirmed
    cases c with
    | begin drawn reason =>
      refine ⟨calls, reason, [], rfl, List.forall_mem_nil _, ?_, nofun⟩
      intro a c b hab
      exact absurd hab (List.append_ne_nil_of_right_ne_nil a (List.cons_ne_nil c b)).symm
    | confirm token =>
      cases token with
      | none => exact hmore hbegun (fun h => h) (fun h => h) rfl Or.inl
      | some token =>
        by_cases hrefused : sys.reset.begun = false ∨ token = "" ∨ token ≠ sys.reset.token
        · have hsame : (sys.reset.confirm (some token)).2 = sys.reset := by
            rw [FactoryReset.confirm, if_pos hrefused]
          have hreset : (sys.step s (.confirm (some token))).reset = sys.reset := hsame
          rw [hreset] at hbegun hmore ⊢
          exact hmore hbegun (fun h => h) (fun h => h) rfl Or.inl
        · have hdone : sys.reset.confirm (some token) = (true, { sys.reset with confirmed := true }) := by
            rw [FactoryReset.confirm, if_neg hrefused]
          have hreset : (sys.step s (.confirm (some token))).reset = { sys.reset with confirmed := true } := by
            rw [System.step, hdone]
          rw [not_or, not_or, not_not] at hrefused
          obtain ⟨-, -, rfl⟩ := hrefused
          rw [hreset] at hbegun hmore ⊢
          exact hmore hbegun (fun h => h) (fun h => h) rfl fun _ => Or.inr ⟨rfl, by rw [hdone]⟩
    | execute token includeTimelapse times chances =>
      rcases reset_execute s sys token includeTimelapse times chances with ⟨-, hended⟩ | ⟨hgate, report, hreset⟩
      · rw [hended] at hbegun
        cases hbegun
      · rw [hreset] at hbegun hmore ⊢
        exact hmore hbegun (fun h => h) hgate rfl Or.inl

end History

/-- For every sequence of calls on a new object: a call that changes anything on the volume is an `execute` that the
gate lets through. Its token is that of the latest `begin`; since then a confirmation of it has succeeded, and no
`execute` was let through. So between two that are let through there is another `begin` with its confirmation. -/
theorem execute_confirmed (s : Setup) (v : Fs) (calls : List Call) (call : Call) :
    ((System.step s (System.after s ⟨{}, v⟩ calls) call).volume ≠ (System.after s ⟨{}, v⟩ calls).volume →
      Authorised (System.after s ⟨{}, v⟩ calls).reset call) ∧
    (Authorised (System.after s ⟨{}, v⟩ calls).reset call →
      ∃ token includeTimelapse times chances early reason mid late,
        call = .execute (some token) includeTimelapse times chances ∧
        calls = early ++ .begin token reason :: (mid ++ .confirm (some token) :: late) ∧
        ((System.after s ⟨{}, v⟩ (early ++ .begin token reason :: mid)).reset.confirm (some token)).1 = true ∧
        (∀ c ∈ mid ++ .confirm (some token) :: late, ¬ c.IsBegin) ∧
        ∀ a c b, mid ++ .confirm (some token) :: late = a ++ c :: b →
          ¬ Authorised (System.after s ⟨{}, v⟩ (early ++ .begin token reason :: a)).reset c) ∧
    ∀ a earlier b, calls = a ++ earlier :: b → Authorised (System.after s ⟨{}, v⟩ a).reset earlier →
      Authorised (System.after s ⟨{}, v⟩ calls).reset call →
        ∃ token reason mid late, Call.confirm (some token) ∈ late ∧ b = mid ++ .begin token reason :: late ∧
          ∃ includeTimelapse times chances, call = .execute (some token) includeTimelapse times chances := by
  refine ⟨?_, (and_iff_left_of_imp fun hsplit => ?_).mpr ?_⟩
  · intro hchanged
    by_contra hauth
    exact hchanged (volume_step hauth)
  · intro a earlier b hcalls hearlier hauth
    obtain ⟨token, includeTimelapse, times, chances, early, reason, mid, late, rfl, hlate, -, -, hunused⟩ := hsplit hauth
    -- the earlier one stands before the `begin`, or it would be one that was let through since
    rw [hlate] at hcalls
    rcases List.append_eq_append_iff.mp hcalls with ⟨more, rfl, hmore⟩ | ⟨more, rfl, hmore⟩
    · cases more with
      | nil =>
        rw [List.nil_append] at hmore
        obtain ⟨rfl, -⟩ := List.cons_eq_cons.mp hmore
        exact hearlier.elim
      | cons first more =>
        obtain ⟨rfl, hrest⟩ := List.cons_eq_cons.mp hmore
        exact absurd hearlier (hunused more earlier b hrest)
    · cases more with
      | nil =>
        rw [List.nil_append] at hmore
        obtain ⟨rfl, -⟩ := List.cons_eq_cons.mp hmore
        exact hearlier.elim
      | cons first more =>
        obtain ⟨rfl, rfl⟩ := List.cons_eq_cons.mp hmore
        exact ⟨token, reason, more, mid ++ .confirm (some token) :: late,
          List.mem_append_right mid List.mem_cons_self, rfl, includeTimelapse, times, chances, rfl⟩
  · intro hauth
    cases call with
    | begin drawn reason => exact hauth.elim
    | confirm token => exact hauth.elim
    | execute token includeTimelapse times chances =>
      obtain ⟨hbegun, hconfirmed, rfl⟩ := gate_eq_none_iff.mp hauth
      obtain ⟨early, reason, mid, hcalls, hsince⟩ := since_of_begun s v calls hbegun
      obtain ⟨a, b, rfl, hdone⟩ := hsince.confirmed hconfirmed
      exact ⟨_, includeTimelapse, times, chances, early, reason, a, b, rfl, hcalls, hdone, hsince.latest,
        hsince.unused⟩

end PiBuddyCam.Reset
