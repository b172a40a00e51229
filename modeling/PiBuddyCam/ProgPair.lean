import Mathlib.Data.List.Forall2
import PiBuddyCam.CrashProg

/-! What a program can return whatever its operations return, and two programs that make
the same calls. -/
namespace Prog

variable {Op : Type} {Res : Op → Type} {α β γ δ : Type}

/-- Every operation is in `P` and every result in `Q`. -/
def Yields (P : Op → Prop) (Q : α → Prop) : Prog Op Res α → Prop
  | .ret a => Q a
  | .call o k => P o ∧ ∀ r, Yields P Q (k r)

section Yields

variable {P P' : Op → Prop} {Q Q' : α → Prop} {p : Prog Op Res α}

theorem Yields.bind {R : β → Prop} {f : α → Prog Op Res β} (hp : p.Yields P Q)
    (hf : ∀ a, Q a → (f a).Yields P R) : (p >>= f).Yields P R := by
  induction p with
  | ret a => exact hf a hp
  | call o k ih => exact ⟨hp.1, fun r => ih r (hp.2 r)⟩

theorem Yields.mono (hp : p.Yields P Q) (hP : ∀ o, P o → P' o) (hQ : ∀ a, Q a → Q' a) : p.Yields P' Q' := by
  induction p with
  | ret a => exact hQ a hp
  | call o k ih => exact ⟨hP o hp.1, fun r => ih r (hp.2 r)⟩

theorem Within.yields (hp : p.Within P) : p.Yields P (fun _ => True) := by
  induction p with
  | ret a => trivial
  | call o k ih => exact ⟨hp.1, fun r => ih r (hp.2 r)⟩

theorem Yields.within (hp : p.Yields P Q) : p.Within P := by
  induction p with
  | ret a => trivial
  | call o k ih => exact ⟨hp.1, fun r => ih r (hp.2 r)⟩

theorem Yields.safe {σ ι : Type} {m : Machine Op Res σ ι} {A : ι → Prop} {J : σ → Prop} {s : σ}
    (hp : p.Yields P Q) (hs : J s) (hstep : ∀ t o c, P o → A c → J t → J (m.step t o c).2) :
    p.Safe m A J (fun a t => Q a ∧ J t) s := by
  induction p generalizing s with
  | ret a => exact ⟨hp, hs⟩
  | call o k ih =>
    intro c hc
    have hJ := hstep s o c hp.1 hc hs
    exact ⟨hJ, ih _ (hp.2 _) hJ⟩

end Yields

/-- The two programs make the same calls, all in `P`, and their results are related. -/
inductive Alike (P : Op → Prop) (R : α → β → Prop) : Prog Op Res α → Prog Op Res β → Prop
  | ret {a : α} {b : β} (h : R a b) : Alike P R (.ret a) (.ret b)
  | call {o : Op} {k : Res o → Prog Op Res α} {k' : Res o → Prog Op Res β} (ho : P o)
    (h : ∀ r, Alike P R (k r) (k' r)) : Alike P R (.call o k) (.call o k')

section Alike

variable {P : Op → Prop} {R : α → β → Prop} {p : Prog Op Res α} {q : Prog Op Res β}

theorem Alike.op_bind {o : Op} {f : Res o → Prog Op Res α} {g : Res o → Prog Op Res β} (ho : P o)
    (h : ∀ r, Alike P R (f r) (g r)) : Alike P R (op o >>= f) (op o >>= g) := .call ho h

theorem Alike.bind {S : γ → δ → Prop} {f : α → Prog Op Res γ} {g : β → Prog Op Res δ} (h : Alike P R p q)
    (hfg : ∀ a b, R a b → Alike P S (f a) (g b)) : Alike P S (p >>= f) (q >>= g) := by
  induction h with
  | ret h => exact hfg _ _ h
  | call ho _ ih => exact .call ho ih

/-- Side by side on one machine, with the same choices, both end in the same state. -/
theorem Alike.run {σ ι : Type} (h : Alike P R p q) (m : Machine Op Res σ ι) (f : ℕ → ι) (s : σ) :
    R (p.run m f s).1 (q.run m f s).1 ∧ (p.run m f s).2 = (q.run m f s).2 := by
  induction h generalizing f s with
  | ret h => exact ⟨h, rfl⟩
  | call _ _ ih => exact ih _ _ _

theorem Alike.yields (h : Alike P R p q) : p.Yields P (fun a => ∃ b, R a b) := by
  induction h with
  | ret h => exact ⟨_, h⟩
  | call ho _ ih => exact ⟨ho, ih⟩

end Alike

/-- The two programs go in step: their calls are related by `C`, and whenever the answers are
related by `E` so are the rests, and at the end the results. -/
inductive Paired (C : Op → Op → Prop) (E : (o : Op) → Res o → (o' : Op) → Res o' → Prop) (R : α → β → Prop) :
    Prog Op Res α → Prog Op Res β → Prop
  | ret {a : α} {b : β} (h : R a b) : Paired C E R (.ret a) (.ret b)
  | call {o o' : Op} {k : Res o → Prog Op Res α} {k' : Res o' → Prog Op Res β} (ho : C o o')
    (h : ∀ r r', E o r o' r' → Paired C E R (k r) (k' r')) : Paired C E R (.call o k) (.call o' k')

section Paired

variable {C : Op → Op → Prop} {E : (o : Op) → Res o → (o' : Op) → Res o' → Prop}
variable {R : α → β → Prop} {p : Prog Op Res α} {q : Prog Op Res β}

theorem Paired.bind {S : γ → δ → Prop} {f : α → Prog Op Res γ} {g : β → Prog Op Res δ} (h : Paired C E R p q)
    (hfg : ∀ a b, R a b → Paired C E S (f a) (g b)) : Paired C E S (p >>= f) (q >>= g) := by
  induction h with
  | ret h => exact hfg _ _ h
  | call ho _ ih => exact .call ho fun r r' hr => ih r r' hr

/-- A program goes in step with itself. -/
theorem Within.paired {P : Op → Prop} (hp : p.Within P) (h : ∀ o, P o → C o o ∧ ∀ r r', E o r o r' → r = r') :
    Paired C E Eq p p := by
  induction p with
  | ret a => exact .ret rfl
  | call o k ih =>
    refine .call (h o hp.1).1 fun r r' hr => ?_
    rw [(h o hp.1).2 r r' hr]
    exact ih r' (hp.2 r')

/-- Side by side on one machine whose answers to related calls are related, the results are
related, and the logs are so entry by entry. -/
theorem Paired.run {σ ι : Type} {m : Machine Op Res σ ι} {f g : ℕ → ι} (h : Paired C E R p q)
    (hstep : ∀ s s' o o' n, C o o' → E o (m.step s o (f n)).1 o' (m.step s' o' (g n)).1)
    (t t' : Traced Op Res σ)
    (ht : List.Forall₂ (fun e e' => C e.1 e'.1 ∧ E e.1 e.2 e'.1 e'.2) t.log t'.log) :
    R (p.run m.traced f t).1 (q.run m.traced g t').1 ∧
      List.Forall₂ (fun e e' => C e.1 e'.1 ∧ E e.1 e.2 e'.1 e'.2) (p.run m.traced f t).2.log
        (q.run m.traced g t').2.log := by
  induction h generalizing f g t t' with
  | ret h => exact ⟨h, ht⟩
  | call ho _ ih =>
    have hr := hstep t.state t'.state _ _ 0 ho
    refine ih _ _ hr (fun s s' o o' n => hstep s s' o o' (n+1)) _ _ ?_
    exact List.rel_append ht (.cons ⟨ho, hr⟩ .nil)

end Paired

end Prog
