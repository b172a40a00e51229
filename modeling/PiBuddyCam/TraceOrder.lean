import Mathlib.Data.List.Forall2
import PiBuddyCam.CrashProg

/-! The order of events in a log. What only the log decides is shown on a machine that
has no state: every operation may return anything. -/
namespace Trace

variable {ε : Type} {l : List ε} {x : ε}

def InOrder (Ps : List (ε → Prop)) (l : List ε) : Prop :=
  ∃ xs, xs.Sublist l ∧ List.Forall₂ (fun P x => P x) Ps xs

def OnlyAfter (R : ε → List ε → Prop) (l : List ε) : Prop := ∀ pre e post, l = pre ++ e :: post → R e pre

def Answered (P B : ε → Prop) (l : List ε) : Prop := ∀ pre e post, l = pre ++ e :: post → P e → ∃ b ∈ post, B b

theorem InOrder.nil (l : List ε) : InOrder [] l := ⟨[], List.nil_sublist l, .nil⟩

theorem InOrder.append {Ps : List (ε → Prop)} (h : InOrder Ps l) (more : List ε) : InOrder Ps (l ++ more) := by
  obtain ⟨xs, hxs, hPs⟩ := h
  exact ⟨xs, hxs.trans (List.sublist_append_left l more), hPs⟩

theorem InOrder.snoc {Ps : List (ε → Prop)} {P : ε → Prop} (h : InOrder Ps l) (hx : P x) :
    InOrder (Ps ++ [P]) (l ++ [x]) := by
  obtain ⟨xs, hxs, hPs⟩ := h
  exact ⟨xs ++ [x], hxs.append (List.Sublist.refl [x]), List.rel_append hPs (.cons hx .nil)⟩

theorem split_snoc {pre post : List ε} {e : ε} (h : l ++ [x] = pre ++ e :: post) :
    (pre = l ∧ e = x ∧ post = []) ∨ ∃ post', post = post' ++ [x] ∧ l = pre ++ e :: post' := by
  rcases List.eq_nil_or_concat' post with rfl | ⟨post', y, rfl⟩
  · obtain ⟨hl, hx⟩ := List.append_inj' h rfl
    exact Or.inl ⟨hl.symm, (List.singleton_inj.mp hx).symm, rfl⟩
  · have h' : l ++ [x] = (pre ++ e :: post') ++ [y] := by
      rw [h, List.append_assoc, List.cons_append]
    obtain ⟨hl, hx⟩ := List.append_inj' h' rfl
    rw [← List.singleton_inj.mp hx]
    exact Or.inr ⟨post', rfl, hl⟩

theorem OnlyAfter.nil (R : ε → List ε → Prop) : OnlyAfter R [] := by
  intro pre e post h
  exact absurd h.symm (by simp)

theorem OnlyAfter.snoc {R : ε → List ε → Prop} (h : OnlyAfter R l) (hx : R x l) : OnlyAfter R (l ++ [x]) := by
  intro pre e post he
  rcases split_snoc he with ⟨rfl, rfl, _⟩ | ⟨post', _, hl⟩
  · exact hx
  · exact h pre e post' hl

variable {P B : ε → Prop}

theorem Answered.of_none (h : ∀ e ∈ l, ¬ P e) : Answered P B l := by
  rintro pre e post rfl he
  exact absurd he (h e (List.mem_append_right pre List.mem_cons_self))

theorem Answered.append {more : List ε} (h : Answered P B l) (hmore : ∀ e ∈ more, ¬ P e) :
    Answered P B (l ++ more) := by
  intro pre e post he hP
  rcases List.append_eq_append_iff.mp he with ⟨as, rfl, has⟩ | ⟨bs, rfl, hbs⟩
  · exact absurd hP (hmore e (has ▸ List.mem_append_right as List.mem_cons_self))
  · rcases List.cons_eq_append_iff.mp hbs with ⟨rfl, hm⟩ | ⟨bs', rfl, rfl⟩
    · exact absurd hP (hmore e (hm ▸ List.mem_cons_self))
    · obtain ⟨b, hb, hB⟩ := h pre e bs' rfl hP
      exact ⟨b, List.mem_append_left more hb, hB⟩

theorem Answered.snoc (l : List ε) (hB : B x) (hP : ¬ P x) : Answered P B (l ++ [x]) := by
  intro pre e post he hPe
  rcases split_snoc he with ⟨_, rfl, _⟩ | ⟨post', rfl, _⟩
  · exact absurd hPe hP
  · exact ⟨x, List.mem_append_right post' List.mem_cons_self, hB⟩

end Trace

def traceMachine (Op : Type) (Res : Op → Type) : Machine Op Res (List ((o : Op) × Res o)) ((o : Op) → Res o) where
  step l o c := (c o, l ++ [⟨o, c o⟩])

namespace Prog

variable {Op : Type} {Res : Op → Type} {σ ι α β : Type}
variable {I : List ((o : Op) × Res o) → Prop} {l : List ((o : Op) × Res o)}

def LogSafe (I : List ((o : Op) × Res o) → Prop) (p : Prog Op Res α) (Q : α → List ((o : Op) × Res o) → Prop)
    (l : List ((o : Op) × Res o)) : Prop :=
  p.Safe (traceMachine Op Res) (fun _ => True) I Q l

theorem logSafe_op_bind {o : Op} {f : Res o → Prog Op Res β} {Q : β → List ((o : Op) × Res o) → Prop}
    (h : ∀ r, I (l ++ [⟨o, r⟩]) ∧ (f r).LogSafe I Q (l ++ [⟨o, r⟩])) : (op o >>= f).LogSafe I Q l :=
  fun c _ => h (c o)

theorem LogSafe.traced {m : Machine Op Res σ ι} {A : ι → Prop} {p : Prog Op Res α}
    {Q : α → List ((o : Op) × Res o) → Prop} {t : Traced Op Res σ} (h : p.LogSafe I Q t.log) :
    p.Safe m.traced A (fun t => I t.log) (fun a t => Q a t.log) t := by
  induction p generalizing t with
  | ret a => exact h
  | call o k ih =>
    intro c _
    obtain ⟨hI, hk⟩ := h (fun o => (m.step t.state o c).1) trivial
    exact ⟨hI, ih _ hk⟩

end Prog
