import PiBuddyCam.LinkTree

/-! Walks along a path and the directories that they enter, and the real path, which needs
nothing to exist. -/
namespace LinkTree

def Named (name : String) : Prop := name ≠ "" ∧ name ≠ "." ∧ name ≠ ".."

instance (name : String) : Decidable (Named name) := inferInstanceAs (Decidable (_ ∧ _))

namespace Tree

variable {β : Type} {t u : Tree β} {follow : Bool} {n k : ℕ} {cur d p : Path} {name : String}
variable {parts rest : List String}

section Steps

theorem walk_nil (t : Tree β) (follow : Bool) (n : ℕ) (cur : Path) : t.walk follow n cur [] = some cur := by
  obtain ⟨jump, hjump⟩ := t.walk_eq_walkWith follow n
  rw [hjump, walkWith]

theorem walk_stay (hname : name = "" ∨ name = ".") :
    t.walk follow n cur (name :: rest) = t.walk follow n cur rest := by
  obtain ⟨jump, hjump⟩ := t.walk_eq_walkWith follow n
  rw [hjump, walkWith, if_pos hname]

theorem walk_up : t.walk follow n cur (".." :: rest) = t.walk follow n cur.dropLast rest := by
  obtain ⟨jump, hjump⟩ := t.walk_eq_walkWith follow n
  rw [hjump, walkWith, if_neg (by decide), if_pos rfl]

theorem walk_dir (hname : Named name) (hnode : t.node (cur ++ [name]) = some .dir) :
    t.walk follow n cur (name :: rest) = t.walk follow n (cur ++ [name]) rest := by
  obtain ⟨jump, hjump⟩ := t.walk_eq_walkWith follow n
  rw [hjump, walkWith, if_neg (not_or.mpr ⟨hname.1, hname.2.1⟩), if_neg hname.2.2, hnode]

theorem walk_last (hname : Named name) (hnode : follow = false ∨ ∀ target, t.node (cur ++ [name]) ≠ some (.link target)) :
    t.walk follow n cur [name] = some (cur ++ [name]) := by
  obtain ⟨jump, hjump⟩ := t.walk_eq_walkWith follow n
  rw [hjump, walkWith, if_neg (not_or.mpr ⟨hname.1, hname.2.1⟩), if_neg hname.2.2]
  split
  · rfl
  · rename_i target htarget
    rcases hnode with hnode | hnode
    · rw [if_pos ⟨rfl, hnode⟩]
    · exact absurd htarget (hnode target)
  · rw [if_pos rfl]
  · rw [if_pos rfl]

theorem not_stop (hfollow : rest ≠ [] ∨ follow = true) : ¬ (rest = [] ∧ follow = false) := by
  rintro ⟨hnil, hstop⟩
  rcases hfollow with hne | hyes
  · exact hne hnil
  · rw [hstop] at hyes
    cases hyes

theorem walk_link {target : Route} (hname : Named name) (hnode : t.node (cur ++ [name]) = some (.link target))
    (hfollow : rest ≠ [] ∨ follow = true) :
    t.walk follow (n+1) cur (name :: rest) = t.walk follow n (target.start cur) (target.parts ++ rest) := by
  rw [walk, walkWith, if_neg (not_or.mpr ⟨hname.1, hname.2.1⟩), if_neg hname.2.2, hnode]
  dsimp only
  rw [if_neg (not_stop hfollow)]

theorem walk_link_zero {target : Route} (hname : Named name) (hnode : t.node (cur ++ [name]) = some (.link target))
    (hfollow : rest ≠ [] ∨ follow = true) : t.walk follow 0 cur (name :: rest) = none := by
  rw [walk, walkWith, if_neg (not_or.mpr ⟨hname.1, hname.2.1⟩), if_neg hname.2.2, hnode]
  rw [if_neg (not_stop hfollow)]

theorem walk_blocked (hname : Named name) (hdir : t.node (cur ++ [name]) ≠ some .dir)
    (hlink : ∀ target, t.node (cur ++ [name]) ≠ some (.link target)) (hrest : rest ≠ []) :
    t.walk follow n cur (name :: rest) = none := by
  obtain ⟨jump, hjump⟩ := t.walk_eq_walkWith follow n
  rw [hjump, walkWith, if_neg (not_or.mpr ⟨hname.1, hname.2.1⟩), if_neg hname.2.2]
  split
  · rename_i hnode
    exact absurd hnode hdir
  · rename_i target hnode
    exact absurd hnode (hlink target)
  · rw [if_neg hrest]
  · rw [if_neg hrest]

end Steps

theorem component_cases (name : String) : (name = "" ∨ name = ".") ∨ name = ".." ∨ Named name := by
  unfold Named
  by_cases h1 : name = ""
  · exact Or.inl (Or.inl h1)
  by_cases h2 : name = "."
  · exact Or.inl (Or.inr h2)
  by_cases h3 : name = ".."
  · exact Or.inr (Or.inl h3)
  · exact Or.inr (Or.inr ⟨h1, h2, h3⟩)

theorem walk_cons_cases (h : t.walk follow n cur (name :: rest) = some p) :
    ((name = "" ∨ name = ".") ∧ t.walk follow n cur rest = some p) ∨
    (name = ".." ∧ t.walk follow n cur.dropLast rest = some p) ∨
    (Named name ∧ t.node (cur ++ [name]) = some .dir ∧ t.walk follow n (cur ++ [name]) rest = some p) ∨
    (∃ m target, n = m+1 ∧ Named name ∧ t.node (cur ++ [name]) = some (.link target) ∧
      t.walk follow m (target.start cur) (target.parts ++ rest) = some p) ∨
    (rest = [] ∧ Named name ∧ t.node (cur ++ [name]) ≠ some .dir ∧ p = cur ++ [name]) := by
  rcases component_cases name with hname | rfl | hname
  · rw [walk_stay hname] at h
    exact Or.inl ⟨hname, h⟩
  · rw [walk_up] at h
    exact Or.inr (Or.inl ⟨rfl, h⟩)
  by_cases hdir : t.node (cur ++ [name]) = some .dir
  · rw [walk_dir hname hdir] at h
    exact Or.inr (Or.inr (Or.inl ⟨hname, hdir, h⟩))
  by_cases hlink : ∃ target, t.node (cur ++ [name]) = some (.link target)
  · obtain ⟨target, htarget⟩ := hlink
    by_cases hgo : rest ≠ [] ∨ follow = true
    · cases n with
      | zero =>
        rw [walk_link_zero hname htarget hgo] at h
        cases h
      | succ m =>
        rw [walk_link hname htarget hgo] at h
        exact Or.inr (Or.inr (Or.inr (Or.inl ⟨m, target, rfl, hname, htarget, h⟩)))
    · rw [not_or, not_not, Bool.not_eq_true] at hgo
      obtain ⟨rfl, hstop⟩ := hgo
      rw [walk_last hname (Or.inl hstop)] at h
      exact Or.inr (Or.inr (Or.inr (Or.inr ⟨rfl, hname, hdir, (Option.some.inj h).symm⟩)))
  · by_cases hrest : rest = []
    · subst hrest
      rw [walk_last hname (Or.inr (not_exists.mp hlink))] at h
      exact Or.inr (Or.inr (Or.inr (Or.inr ⟨rfl, hname, hdir, (Option.some.inj h).symm⟩)))
    · rw [walk_blocked hname hdir (not_exists.mp hlink) hrest] at h
      cases h

/-- A walk that goes on behind `parts`, or ends in a directory, has entered the directory that `parts` leads to. -/
theorem enters_of_walk (hend : rest ≠ [] ∨ t.node p = some .dir) (h : t.walk follow n cur (parts ++ rest) = some p) :
    ∃ d k, t.Enters n cur parts d k ∧ t.walk follow k d rest = some p := by
  -- a link takes one off `n` and puts its target in front
  induction n using Nat.strongRecOn generalizing cur parts with
  | _ n ihn =>
    induction parts generalizing cur with
    | nil => exact ⟨cur, n, .here, h⟩
    | cons name parts ih =>
      rw [List.cons_append] at h
      rcases walk_cons_cases h with ⟨hname, hw⟩ | ⟨rfl, hw⟩ | ⟨hname, hdir, hw⟩ | ⟨m, target, rfl, hname, hlink, hw⟩ |
        ⟨hnil, -, hnot, rfl⟩
      · obtain ⟨d, k, hd, hp⟩ := ih hw
        exact ⟨d, k, .stay hname hd, hp⟩
      · obtain ⟨d, k, hd, hp⟩ := ih hw
        exact ⟨d, k, .up hd, hp⟩
      · obtain ⟨d, k, hd, hp⟩ := ih hw
        exact ⟨d, k, .down hname.1 hname.2.1 hname.2.2 hdir hd, hp⟩
      · rw [← List.append_assoc] at hw
        obtain ⟨d, k, hd, hp⟩ := ihn m (Nat.lt_succ_self m) hw
        exact ⟨d, k, .jump hname.1 hname.2.1 hname.2.2 hlink hd, hp⟩
      · rcases hend with hrest | hdir
        · exact absurd (List.append_eq_nil_iff.mp hnil).2 hrest
        · exact absurd hdir hnot

namespace Enters

variable {e : Path} {j : ℕ} {more : List String}

theorem walk_true (h : t.Enters n cur parts d k) : t.walk true n cur parts = some d := by
  induction h with
  | here => exact walk_nil t true _ _
  | stay hname _ ih => rw [walk_stay hname, ih]
  | up _ ih => rw [walk_up, ih]
  | down h1 h2 h3 hnode _ ih => rw [walk_dir ⟨h1, h2, h3⟩ hnode, ih]
  | jump h1 h2 h3 hnode _ ih => rw [walk_link ⟨h1, h2, h3⟩ hnode (Or.inr rfl), ih]

theorem trans (h : t.Enters n cur parts d k) (h' : t.Enters k d more e j) : t.Enters n cur (parts ++ more) e j := by
  induction h with
  | here => exact h'
  | stay hname _ ih => exact .stay hname (ih h')
  | up _ ih => exact .up (ih h')
  | down h1 h2 h3 hnode _ ih => exact .down h1 h2 h3 hnode (ih h')
  | jump h1 h2 h3 hnode _ ih =>
    have hrest := ih h'
    rw [List.append_assoc] at hrest
    exact .jump h1 h2 h3 hnode hrest

theorem snoc (h : t.Enters n cur parts d k) (hname : Named name) (hnode : t.node (d ++ [name]) = some .dir) :
    t.Enters n cur (parts ++ [name]) (d ++ [name]) k :=
  h.trans (.down hname.1 hname.2.1 hname.2.2 hnode .here)

theorem unique (h : t.Enters n cur parts d k) (h' : t.Enters n cur parts e j) : d = e :=
  Option.some.inj (h.walk_true.symm.trans h'.walk_true)

end Enters

theorem exists_of_walk_snoc (hname : Named name) (h : t.walk false n cur (parts ++ [name]) = some p) :
    ∃ d k, t.Enters n cur parts d k ∧ p = d ++ [name] := by
  obtain ⟨d, k, hd, hp⟩ := enters_of_walk (Or.inl (List.cons_ne_nil _ _)) h
  rw [walk_last hname (Or.inl rfl)] at hp
  exact ⟨d, k, hd, (Option.some.inj hp).symm⟩

theorem Enters.walk_snoc (h : t.Enters n cur parts d k) (hname : Named name) :
    t.walk false n cur (parts ++ [name]) = some (d ++ [name]) := by
  rw [h.walk false (List.cons_ne_nil _ _), walk_last hname (Or.inl rfl)]

theorem Enters.walk_snoc_true (h : t.Enters n cur parts d k) (hname : Named name)
    (hnode : ∀ target, t.node (d ++ [name]) ≠ some (.link target)) :
    t.walk true n cur (parts ++ [name]) = some (d ++ [name]) := by
  rw [h.walk true (List.cons_ne_nil _ _), walk_last hname (Or.inr hnode)]

section Real

def collapse : Path → List String → Path
  | cur, [] => cur
  | cur, name :: rest =>
    if name = "" ∨ name = "." then collapse cur rest
    else if name = ".." then collapse cur.dropLast rest
    else collapse (cur ++ [name]) rest

def realWith (t : Tree β) (jump : Path → String → Route → List String → Path) : Path → List String → Path
  | cur, [] => cur
  | cur, name :: rest =>
    if name = "" ∨ name = "." then realWith t jump cur rest
    else if name = ".." then realWith t jump cur.dropLast rest
    else match t.node (cur ++ [name]) with
      | some (.link target) => jump cur name target rest
      | _ => realWith t jump (cur ++ [name]) rest

/-- The real path, with at most so many links; behind them the rest is kept as it is. -/
def real (t : Tree β) : ℕ → Path → List String → Path
  | 0 => t.realWith fun cur name _ rest => collapse (cur ++ [name]) rest
  | n+1 => t.realWith fun cur _ target rest => real t n (target.start cur) (target.parts ++ rest)

theorem real_eq_realWith (t : Tree β) (n : ℕ) : ∃ jump, t.real n = t.realWith jump := by
  cases n with
  | zero => exact ⟨_, rfl⟩
  | succ k => exact ⟨_, rfl⟩

theorem real_nil (t : Tree β) (n : ℕ) (cur : Path) : t.real n cur [] = cur := by
  obtain ⟨jump, hjump⟩ := t.real_eq_realWith n
  rw [hjump, realWith]

theorem real_stay (hname : name = "" ∨ name = ".") : t.real n cur (name :: rest) = t.real n cur rest := by
  obtain ⟨jump, hjump⟩ := t.real_eq_realWith n
  rw [hjump, realWith, if_pos hname]

theorem real_up : t.real n cur (".." :: rest) = t.real n cur.dropLast rest := by
  obtain ⟨jump, hjump⟩ := t.real_eq_realWith n
  rw [hjump, realWith, if_neg (by decide), if_pos rfl]

theorem real_plain (hname : Named name) (hnode : ∀ target, t.node (cur ++ [name]) ≠ some (.link target)) :
    t.real n cur (name :: rest) = t.real n (cur ++ [name]) rest := by
  obtain ⟨jump, hjump⟩ := t.real_eq_realWith n
  rw [hjump, realWith, if_neg (not_or.mpr ⟨hname.1, hname.2.1⟩), if_neg hname.2.2]
  split
  · rename_i target htarget
    exact absurd htarget (hnode target)
  · rfl

theorem real_link {target : Route} (hname : Named name) (hnode : t.node (cur ++ [name]) = some (.link target)) :
    t.real (n+1) cur (name :: rest) = t.real n (target.start cur) (target.parts ++ rest) := by
  rw [real, realWith, if_neg (not_or.mpr ⟨hname.1, hname.2.1⟩), if_neg hname.2.2, hnode]

theorem Enters.real_append (h : t.Enters n cur parts d k) (rest : List String) {m : ℕ} (hm : n ≤ m) :
    ∃ j, k ≤ j ∧ t.real m cur (parts ++ rest) = t.real j d rest := by
  induction h generalizing m with
  | here => exact ⟨m, hm, rfl⟩
  | stay hname _ ih =>
    rw [List.cons_append, real_stay hname]
    exact ih hm
  | up _ ih =>
    rw [List.cons_append, real_up]
    exact ih hm
  | @down n k cur d name parts h1 h2 h3 hnode _ ih =>
    have hplain (target : Route) : t.node (cur ++ [name]) ≠ some (.link target) := by
      intro htarget
      rw [hnode] at htarget
      cases htarget
    rw [List.cons_append, real_plain ⟨h1, h2, h3⟩ hplain]
    exact ih hm
  | jump h1 h2 h3 hnode _ ih =>
    obtain ⟨m, rfl⟩ : ∃ i, m = i+1 := ⟨m-1, by omega⟩
    rw [List.cons_append, real_link ⟨h1, h2, h3⟩ hnode, ← List.append_assoc]
    exact ih (Nat.le_of_succ_le_succ hm)

theorem Enters.real_eq (h : t.Enters n cur parts d k) {m : ℕ} (hm : n ≤ m) : t.real m cur parts = d := by
  obtain ⟨j, -, hj⟩ := h.real_append [] hm
  rw [List.append_nil] at hj
  rw [hj, real_nil]

theorem Enters.real_snoc (h : t.Enters n cur parts d k) (hname : Named name)
    (hnode : ∀ target, t.node (d ++ [name]) ≠ some (.link target)) {m : ℕ} (hm : n ≤ m) :
    t.real m cur (parts ++ [name]) = d ++ [name] := by
  obtain ⟨j, -, hj⟩ := h.real_append [name] hm
  rw [hj, real_plain hname hnode, real_nil]

theorem real_congr (h : ∀ q target, t.node q = some (.link target) ↔ u.node q = some (.link target)) (n : ℕ) :
    t.real n = u.real n := by
  have hwith (f g : Path → String → Route → List String → Path) (hfg : f = g) : t.realWith f = u.realWith g := by
    subst hfg
    funext cur parts
    induction parts generalizing cur with
    | nil => rw [realWith, realWith]
    | cons name parts ih =>
      rw [realWith, realWith, ih, ih, ih]
      by_cases hlink : ∃ target, t.node (cur ++ [name]) = some (.link target)
      · obtain ⟨target, htarget⟩ := hlink
        rw [htarget, (h _ _).mp htarget]
      · have hu : ∀ target, u.node (cur ++ [name]) ≠ some (.link target) :=
          fun target htarget => hlink ⟨target, (h _ _).mpr htarget⟩
        split_ifs
        · rfl
        · rfl
        · split
          · rename_i target htarget
            exact absurd htarget (not_exists.mp hlink target)
          · rfl
  induction n with
  | zero => exact hwith _ _ rfl
  | succ n ih =>
    rw [real, real]
    apply hwith
    rw [ih]

end Real

end Tree

end LinkTree
