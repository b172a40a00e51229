import Mathlib.Data.List.Basic

/-! Programs over a set of operations, run by a machine that settles the outside
world one choice at a time. A power cut is a list of choices that ends before the
program does. `Safe` says what holds after every operation and at the end. -/

inductive Prog (Op : Type) (Res : Op → Type) (α : Type) where
  | ret (a : α)
  | call (o : Op) (k : Res o → Prog Op Res α)

structure Machine (Op : Type) (Res : Op → Type) (σ ι : Type) where
  step : σ → (o : Op) → ι → Res o × σ

namespace Prog

variable {Op : Type} {Res : Op → Type} {σ ι α β γ : Type}

def bind : Prog Op Res α → (α → Prog Op Res β) → Prog Op Res β
  | .ret a, f => f a
  | .call o k, f => .call o (fun r => (k r).bind f)

instance : Monad (Prog Op Res) where
  pure := .ret
  bind := bind

def op (o : Op) : Prog Op Res (Res o) := .call o .ret

/-- Run with a list of choices; `none` when they run out, the power cut. -/
def exec (m : Machine Op Res σ ι) : Prog Op Res α → List ι → σ → Option α × σ
  | .ret a, _, s => (some a, s)
  | .call _ _, [], s => (none, s)
  | .call o k, c :: cs, s => exec m (k (m.step s o c).1) cs (m.step s o c).2

def run (m : Machine Op Res σ ι) : Prog Op Res α → (ℕ → ι) → σ → α × σ
  | .ret a, _, s => (a, s)
  | .call o k, f, s => run m (k (m.step s o (f 0)).1) (fun n => f (n+1)) (m.step s o (f 0)).2

/-- With every choice in `A`, the state is in `I` after each operation of the program
and in `Q` at its end. -/
def Safe (m : Machine Op Res σ ι) (A : ι → Prop) (I : σ → Prop) :
    Prog Op Res α → (α → σ → Prop) → σ → Prop
  | .ret a, Q, s => Q a s
  | .call o k, Q, s => ∀ c, A c →
      I (m.step s o c).2 ∧ Safe m A I (k (m.step s o c).1) Q (m.step s o c).2

/-- `I` holds after each operation and at the end. -/
abbrev Keeps (m : Machine Op Res σ ι) (A : ι → Prop) (I : σ → Prop) (p : Prog Op Res α) (s : σ) : Prop :=
  Safe m A I p (fun _ => I) s

/-- Every operation that the program can come to is in `P`. -/
def Within (P : Op → Prop) : Prog Op Res α → Prop
  | .ret _ => True
  | .call o k => P o ∧ ∀ r, Within P (k r)

section Rules

variable {m : Machine Op Res σ ι} {A : ι → Prop} {I J : σ → Prop} {s : σ}
variable {p : Prog Op Res α} {Q R : α → σ → Prop}

theorem safe_bind (f : α → Prog Op Res β) {Q : β → σ → Prop} :
    Safe m A I (p >>= f) Q s ↔ Safe m A I p (fun a t => Safe m A I (f a) Q t) s := by
  induction p generalizing s with
  | ret a => exact Iff.rfl
  | call o k ih =>
    constructor
    · intro h c hc
      exact ⟨(h c hc).1, (ih _).mp (h c hc).2⟩
    · intro h c hc
      exact ⟨(h c hc).1, (ih _).mpr (h c hc).2⟩

theorem safe_op_bind (o : Op) (f : Res o → Prog Op Res β) {Q : β → σ → Prop} :
    Safe m A I (op o >>= f) Q s ↔
      ∀ c, A c → I (m.step s o c).2 ∧ Safe m A I (f (m.step s o c).1) Q (m.step s o c).2 := Iff.rfl

theorem Safe.mono (h : Safe m A I p Q s) (hI : ∀ t, I t → J t) (hQ : ∀ a t, Q a t → R a t) :
    Safe m A J p R s := by
  induction p generalizing s with
  | ret a => exact hQ a s h
  | call o k ih => exact fun c hc => ⟨hI _ (h c hc).1, ih _ (h c hc).2⟩

theorem safe_trivial (p : Prog Op Res α) (s : σ) : Safe m A (fun _ => True) p (fun _ _ => True) s := by
  induction p generalizing s with
  | ret a => trivial
  | call o k ih => exact fun c _ => ⟨trivial, ih _ _⟩

theorem Safe.post (h : Safe m A I p Q s) (hQ : ∀ a t, Q a t → R a t) : Safe m A I p R s :=
  h.mono (fun _ ht => ht) hQ

theorem Safe.keep (h : Safe m A I p Q s) (hs : I s) :
    Safe m A I p (fun a t => Q a t ∧ I t) s := by
  induction p generalizing s with
  | ret a => exact ⟨h, hs⟩
  | call o k ih => exact fun c hc => ⟨(h c hc).1, ih _ (h c hc).2 (h c hc).1⟩

theorem Safe.conj (h : Safe m A I p Q s) (h' : Safe m A J p R s) :
    Safe m A (fun t => I t ∧ J t) p (fun a t => Q a t ∧ R a t) s := by
  induction p generalizing s with
  | ret a => exact ⟨h, h'⟩
  | call o k ih =>
    exact fun c hc => ⟨⟨(h c hc).1, (h' c hc).1⟩, ih _ (h c hc).2 (h' c hc).2⟩

theorem Safe.bind {f : α → Prog Op Res β} {R : β → σ → Prop} (h : Safe m A I p Q s)
    (hf : ∀ a t, Q a t → Safe m A I (f a) R t) : Safe m A I (p >>= f) R s :=
  (safe_bind f).mpr (h.post hf)

variable {P : Op → Prop}

theorem Within.safe (hp : Within P p) (hs : J s)
    (hstep : ∀ t o c, P o → A c → J t → J (m.step t o c).2) :
    Safe m A J p (fun _ => J) s := by
  induction p generalizing s with
  | ret a => exact hs
  | call o k ih =>
    intro c hc
    have hJ := hstep s o c hp.1 hc hs
    exact ⟨hJ, ih _ (hp.2 _) hJ⟩

theorem Within.opBind {o : Op} {f : Res o → Prog Op Res β} (ho : P o) (hf : ∀ r, Within P (f r)) :
    Within P (op o >>= f) := ⟨ho, hf⟩

theorem Within.bind {f : α → Prog Op Res β} (hp : Within P p)
    (hf : ∀ a, Within P (f a)) : Within P (p >>= f) := by
  induction p with
  | ret a => exact hf a
  | call o k ih => exact ⟨hp.1, fun r => ih r (hp.2 r)⟩

theorem Within.mono {P P' : Op → Prop} (hp : Within P p) (h : ∀ o, P o → P' o) : Within P' p := by
  induction p with
  | ret a => trivial
  | call o k ih => exact ⟨h o hp.1, fun r => ih r (hp.2 r)⟩

theorem Within.forM {xs : List β} {f : β → Prog Op Res Unit}
    (h : ∀ x ∈ xs, Within P (f x)) : Within P (xs.forM f) := by
  induction xs with
  | nil => trivial
  | cons x xs ih =>
    apply Within.bind (h x List.mem_cons_self)
    intro _
    exact ih (fun y hy => h y (List.mem_cons_of_mem x hy))

theorem Safe.exec {cs : List ι} (h : Safe m A I p Q s) (hs : I s) (hcs : ∀ c ∈ cs, A c) :
    I (p.exec m cs s).2 ∧ ∀ a, (p.exec m cs s).1 = some a → Q a (p.exec m cs s).2 := by
  induction p generalizing s cs with
  | ret a =>
    refine ⟨hs, fun b hb => ?_⟩
    obtain rfl : a = b := Option.some.inj hb
    exact h
  | call o k ih =>
    cases cs with
    | nil => exact ⟨hs, fun b hb => nomatch hb⟩
    | cons c cs =>
      have hc := h c (hcs c List.mem_cons_self)
      exact ih _ hc.2 hc.1 (fun d hd => hcs d (List.mem_cons_of_mem c hd))

theorem Safe.run {f : ℕ → ι} (h : Safe m A I p Q s) (hf : ∀ n, A (f n)) :
    Q (p.run m f s).1 (p.run m f s).2 := by
  induction p generalizing s f with
  | ret a => exact h
  | call o k ih => exact ih _ (h (f 0) (hf 0)).2 (fun n => hf (n+1))

end Rules

section Failing

variable {ε : Type}

def andThen (p : Prog Op Res (Except ε α)) (f : α → Prog Op Res (Except ε β)) : Prog Op Res (Except ε β) := do
  match ← p with
  | .error e => pure (.error e)
  | .ok a => f a

def foldOk (f : α → β → Prog Op Res (Except ε α)) : List β → α → Prog Op Res (Except ε α)
  | [], a => pure (.ok a)
  | x :: xs, a => (f a x).andThen (foldOk f xs)

/-- What holds at the end, after a result and after an error. -/
def Ended (Q : α → σ → Prop) (E : ε → σ → Prop) : Except ε α → σ → Prop
  | .ok a, s => Q a s
  | .error e, s => E e s

variable {m : Machine Op Res σ ι} {A : ι → Prop} {I : σ → Prop} {s : σ} {E : ε → σ → Prop}
variable {p : Prog Op Res (Except ε α)}

theorem Safe.andThen {f : α → Prog Op Res (Except ε β)} {Q : α → σ → Prop}
    {R : β → σ → Prop} (hp : Safe m A I p (Ended Q E) s) (hf : ∀ a t, Q a t → Safe m A I (f a) (Ended R E) t) :
    Safe m A I (p.andThen f) (Ended R E) s := by
  apply hp.bind
  intro r t hr
  cases r with
  | error e => exact hr
  | ok a => exact hf a t hr

variable {f : α → β → Prog Op Res (Except ε α)} {xs : List β}

/-- `J` says what holds of the elements so far, of the result and of the state. -/
theorem safe_foldOk {J : List β → α → σ → Prop} {a : α}
    (hs : J [] a s) (h : ∀ done x rest, xs = done ++ x :: rest → ∀ a t, J done a t →
      Safe m A I (f a x) (Ended (J (done ++ [x])) E) t) : Safe m A I (foldOk f xs a) (Ended (J xs) E) s := by
  -- the loop has done `done` of the list
  have hloop (rest done : List β) (hxs : xs = done ++ rest) (a : α) (t : σ) (ht : J done a t) :
      Safe m A I (foldOk f rest a) (Ended (J xs) E) t := by
    induction rest generalizing done a t with
    | nil =>
      rw [List.append_nil] at hxs
      rw [hxs]
      exact ht
    | cons x rest ih =>
      apply (h done x rest hxs a t ht).andThen
      intro a' t' ht'
      apply ih (done ++ [x]) _ a' t' ht'
      rw [hxs, List.append_assoc, List.singleton_append]
  exact hloop xs [] rfl a s hs

theorem Safe.andThen_keep {f : α → Prog Op Res (Except ε β)} {G : σ → Prop}
    (hp : Safe m A I p (fun _ => G) s) (hf : ∀ a t, G t → Safe m A I (f a) (fun _ => G) t) :
    Safe m A I (p.andThen f) (fun _ => G) s := by
  apply hp.bind
  intro r t hr
  cases r with
  | error e => exact hr
  | ok a => exact hf a t hr

theorem safe_foldOk_keep {G : σ → Prop} {a : α} (hs : G s)
    (h : ∀ x ∈ xs, ∀ a t, G t → Safe m A I (f a x) (fun _ => G) t) : Safe m A I (foldOk f xs a) (fun _ => G) s := by
  induction xs generalizing a s with
  | nil => exact hs
  | cons x xs ih =>
    apply (h x List.mem_cons_self a s hs).andThen_keep
    intro a' t ht
    exact ih ht fun y hy => h y (List.mem_cons_of_mem x hy)

theorem Within.andThen {P : Op → Prop} {f : α → Prog Op Res (Except ε β)}
    (hp : Within P p) (hf : ∀ a, Within P (f a)) : Within P (p.andThen f) := by
  apply hp.bind
  intro r
  cases r with
  | error e => trivial
  | ok a => exact hf a

theorem Within.foldOk {P : Op → Prop}
    (h : ∀ a, ∀ x ∈ xs, Within P (f a x)) (a : α) : Within P (foldOk f xs a) := by
  induction xs generalizing a with
  | nil => trivial
  | cons x xs ih =>
    apply (h a x List.mem_cons_self).andThen
    exact ih fun a y hy => h a y (List.mem_cons_of_mem x hy)

end Failing

end Prog

structure Traced (Op : Type) (Res : Op → Type) (σ : Type) where
  state : σ
  log : List ((o : Op) × Res o)

def Machine.traced {Op : Type} {Res : Op → Type} {σ ι : Type} (m : Machine Op Res σ ι) :
    Machine Op Res (Traced Op Res σ) ι where
  step t o c := ((m.step t.state o c).1, ⟨(m.step t.state o c).2, t.log ++ [⟨o, (m.step t.state o c).1⟩]⟩)

namespace Prog

variable {Op : Type} {Res : Op → Type} {σ ι α : Type}
variable {m : Machine Op Res σ ι} {A : ι → Prop} {I : σ → Prop} {p : Prog Op Res α}

theorem Safe.traced {Q : α → σ → Prop} {t : Traced Op Res σ} (h : Safe m A I p Q t.state) :
    Safe m.traced A (fun t => I t.state) p (fun a t => Q a t.state) t := by
  induction p generalizing t with
  | ret a => exact h
  | call o k ih => exact fun c hc => ⟨(h c hc).1, ih _ (h c hc).2⟩

theorem run_traced (p : Prog Op Res α) (m : Machine Op Res σ ι) (f : ℕ → ι) (t : Traced Op Res σ) :
    (p.run m.traced f t).1 = (p.run m f t.state).1 ∧ (p.run m.traced f t).2.state = (p.run m f t.state).2 := by
  induction p generalizing f t with
  | ret a => exact ⟨rfl, rfl⟩
  | call o k ih => exact ih _ _ _

theorem Within.log {P : Op → Prop} (hp : Within P p) (t : Traced Op Res σ) :
    Safe m.traced A (fun u => ∃ more, u.log = t.log ++ more ∧ ∀ e ∈ more, P e.1) p
      (fun _ u => ∃ more, u.log = t.log ++ more ∧ ∀ e ∈ more, P e.1) t := by
  apply hp.safe
  · exact ⟨[], (List.append_nil _).symm, fun e he => nomatch he⟩
  · rintro u o c ho - ⟨more, hmore, hP⟩
    refine ⟨more ++ [⟨o, (m.step u.state o c).1⟩], ?_, ?_⟩
    · simp only [Machine.traced, hmore, List.append_assoc]
    · intro e he
      rcases List.mem_append.mp he with he | he
      · exact hP e he
      · rw [List.mem_singleton.mp he]
        exact ho

end Prog
