import PiBuddyCam.Volume

/-! The directory that a route enters on a volume, and how the calls see it. -/
namespace LinkTree

variable {β : Type}

namespace Route

variable (r : Route)

theorem join_nil : r.join [] = r := by
  rw [join, List.append_nil]

theorem join_join (names more : List String) : (r.join names).join more = r.join (names ++ more) := by
  rw [join, join, join, List.append_assoc]

end Route

namespace Volume

def Reaches (v : Volume β) (r : Route) (d : Path) : Prop := ∃ k, v.Enters Tree.maxLinks (r.start v.cwd) r.parts d k

variable {v u : Volume β} {r : Route} {d e p : Path} {name : String} {names : List String}

namespace Reaches

theorem unique (h : v.Reaches r d) (h' : v.Reaches r e) : d = e := by
  obtain ⟨_, hd⟩ := h
  obtain ⟨_, he⟩ := h'
  exact hd.unique he

theorem join (h : v.Reaches r d) (hname : Named name) (hnode : v.node (d ++ [name]) = some .dir) :
    v.Reaches (r.join [name]) (d ++ [name]) := by
  obtain ⟨k, hk⟩ := h
  exact ⟨k, hk.snoc hname hnode⟩

theorem upper (h : v.Reaches (r.join names) e) : ∃ d, v.Reaches r d := by
  obtain ⟨k, hk⟩ := h
  by_cases hnil : names = []
  · rw [hnil, Route.join_nil] at hk
    exact ⟨e, k, hk⟩
  · obtain ⟨d, j, hd, -⟩ := Tree.enters_of_walk (Or.inl hnil) hk.walk_true
    exact ⟨d, j, hd⟩

theorem locate_true (h : v.Reaches r d) : v.locate true r = some d := by
  obtain ⟨k, hk⟩ := h
  exact hk.walk_true

theorem locate_join (h : v.Reaches r d) (hname : Named name) : v.locate false (r.join [name]) = some (d ++ [name]) := by
  obtain ⟨k, hk⟩ := h
  exact hk.walk_snoc hname

theorem lstat_join (h : v.Reaches r d) (hname : Named name) : v.lstat (r.join [name]) = v.node (d ++ [name]) := by
  rw [lstat, h.locate_join hname, Option.bind_some]

theorem locate_true_join (h : v.Reaches r d) (hname : Named name)
    (hnode : ∀ target, v.node (d ++ [name]) ≠ some (.link target)) :
    v.locate true (r.join [name]) = some (d ++ [name]) := by
  obtain ⟨k, hk⟩ := h
  exact hk.walk_snoc_true hname hnode

theorem stat_join (h : v.Reaches r d) (hname : Named name)
    (hnode : ∀ target, v.node (d ++ [name]) ≠ some (.link target)) :
    v.stat (r.join [name]) = v.node (d ++ [name]) := by
  rw [stat, h.locate_true_join hname hnode, Option.bind_some]

theorem realpath (h : v.Reaches r d) {hops : ℕ} (hhops : Tree.maxLinks ≤ hops) : v.realpath hops r = d := by
  obtain ⟨k, hk⟩ := h
  exact hk.real_eq hhops

theorem realpath_join (h : v.Reaches r d) (hname : Named name)
    (hnode : ∀ target, v.node (d ++ [name]) ≠ some (.link target)) {hops : ℕ} (hhops : Tree.maxLinks ≤ hops) :
    v.realpath hops (r.join [name]) = d ++ [name] := by
  obtain ⟨k, hk⟩ := h
  exact hk.real_snoc hname hnode hhops

end Reaches

theorem islink_eq_false_iff : v.islink r = false ↔ ∀ target, v.lstat r ≠ some (.link target) := by
  unfold islink
  split
  · rename_i target htarget
    rw [htarget]
    simp
  · rename_i hnot
    simpa using hnot

theorem isdir_eq_true_iff : v.isdir r = true ↔ v.stat r = some .dir := decide_eq_true_iff

theorem reaches_of_isdir (h : v.isdir r = true) : ∃ d, v.Reaches r d ∧ v.node d = some .dir := by
  rw [isdir_eq_true_iff, stat, Option.bind_eq_some_iff] at h
  obtain ⟨d, hd, hnode⟩ := h
  have hwalk : v.walk true Tree.maxLinks (r.start v.cwd) (r.parts ++ []) = some d := by
    rw [List.append_nil]
    exact hd
  obtain ⟨e, k, hk, he⟩ := Tree.enters_of_walk (Or.inr hnode) hwalk
  rw [Tree.walk_nil] at he
  exact ⟨d, ⟨k, Option.some.inj he ▸ hk⟩, hnode⟩

theorem reaches_of_locate_join (hname : Named name) (h : v.locate false (r.join [name]) = some p) :
    ∃ d, v.Reaches r d ∧ p = d ++ [name] := by
  obtain ⟨d, k, hk, hp⟩ := Tree.exists_of_walk_snoc hname h
  exact ⟨d, ⟨k, hk⟩, hp⟩

theorem reaches_of_entry_join (hname : Named name) (h : v.entry (r.join [name]) = some p) :
    ∃ d, v.Reaches r d ∧ p = d ++ [name] := by
  have hlast : (r.join [name]).parts.getLastD "" = name := List.getLastD_concat
  rw [entry, hlast, if_pos hname] at h
  exact reaches_of_locate_join hname h

theorem reaches_of_isdir_join (hname : Named name) (hdir : v.isdir (r.join [name]) = true)
    (hlink : v.islink (r.join [name]) = false) : ∃ d, v.Reaches r d ∧ v.node (d ++ [name]) = some .dir := by
  rw [isdir_eq_true_iff, stat, Option.bind_eq_some_iff] at hdir
  obtain ⟨p, hp, hnode⟩ := hdir
  obtain ⟨d, k, hk, -⟩ := Tree.enters_of_walk (Or.inl (List.cons_ne_nil name [])) hp
  have hd : v.Reaches r d := ⟨k, hk⟩
  refine ⟨d, hd, ?_⟩
  rw [islink_eq_false_iff, hd.lstat_join hname] at hlink
  have hat : v.locate true (r.join [name]) = some (d ++ [name]) := hd.locate_true_join hname hlink
  have hpd : some p = some (d ++ [name]) := Eq.trans (Eq.symm hp) hat
  rw [← Option.some.inj hpd]
  exact hnode

section Change

theorem Grown.reaches (h : Grown v u) (hr : v.Reaches r d) : u.Reaches r d := by
  obtain ⟨k, hk⟩ := hr
  refine ⟨k, ?_⟩
  rw [h.cwd]
  exact hk.mono (fun p hp => h.node p _ hp) fun p target hp => h.node p _ hp

/-- The directories and links of `u` are those of `v`, or some of them. -/
structure Tied (v u : Volume β) : Prop where
  dirs : ∀ p, u.node p = some .dir → v.node p = some .dir
  links : ∀ p target, u.node p = some (.link target) → v.node p = some (.link target)
  cwd : u.cwd = v.cwd

namespace Tied

theorem refl (v : Volume β) : Tied v v := ⟨fun _ h => h, fun _ _ h => h, rfl⟩

theorem reaches (h : Tied v u) (hr : u.Reaches r d) : v.Reaches r d := by
  obtain ⟨k, hk⟩ := hr
  refine ⟨k, ?_⟩
  rw [← h.cwd]
  exact hk.mono h.dirs h.links

theorem islink (h : Tied v u) (hname : Named name) (hlink : v.islink (r.join [name]) = false) :
    u.islink (r.join [name]) = false := by
  rw [islink_eq_false_iff] at hlink ⊢
  intro target hu
  obtain ⟨p, hp, hnode⟩ := Option.bind_eq_some_iff.mp hu
  obtain ⟨d, hd, rfl⟩ := reaches_of_locate_join hname hp
  exact hlink target (((h.reaches hd).lstat_join hname).trans (h.links _ _ hnode))

theorem edit {w : Volume β} (h : Tied v u) (hw : Edit u w p none) : Tied v w := by
  have hold (q : Path) (x : Node) (hq : w.node q = some x) : u.node q = some x := by
    by_cases hne : q = p
    · rw [hne, hw.self] at hq
      cases hq
    · rwa [hw.other q hne] at hq
  exact ⟨fun q hq => h.dirs q (hold q _ hq), fun q target hq => h.links q target (hold q _ hq), hw.cwd.trans h.cwd⟩

theorem write (h : Tied v u) (p : Path) (content : β) : Tied v (u.write p content).2 := by
  rcases u.write_cases p content with ⟨-, i, -, hnode, -, -, hcwd⟩ | ⟨-, -, hself, hother, -, -, hcwd⟩ | ⟨-, hsame⟩
  · refine ⟨fun q hq => h.dirs q ?_, fun q target hq => h.links q target ?_, hcwd.trans h.cwd⟩
    · rwa [hnode] at hq
    · rwa [hnode] at hq
  · -- the new entry is a file
    have hne (q : Path) (x : Node) (hx : ∀ i, x ≠ .file i) (hq : (u.write p content).2.node q = some x) :
        u.node q = some x := by
      by_cases he : q = p
      · rw [he, hself] at hq
        exact absurd (Option.some.inj hq).symm (hx _)
      · rwa [hother q he] at hq
    exact ⟨fun q hq => h.dirs q (hne q _ nofun hq), fun q target hq => h.links q target (hne q _ nofun hq),
      hcwd.trans h.cwd⟩
  · rw [hsame]
    exact h

end Tied

end Change

end Volume

namespace Act

def Flat : Act β → Prop
  | .mkdir _ | .replace _ _ => False
  | _ => True

end Act

namespace Volume.Tied

variable {v u : Volume β}

theorem step (h : Tied v u) {o : Act β} (ho : o.Flat) (c : Chance β) : Tied v (u.step o c).2 := by
  cases o with
  | look | scan _ => exact h
  | mkdir p => exact ho.elim
  | write p content => exact u.of_attemptWrite (Tied v) c h (h.write p)
  | remove p =>
    apply u.of_attempt (Tied v) c h
    rcases u.remove_cases p with ⟨-, -, -, hedit⟩ | ⟨-, hsame⟩
    · exact h.edit hedit
    · rw [hsame]
      exact h
  | rmdir p =>
    apply u.of_attempt (Tied v) c h
    rcases u.rmdir_cases p with ⟨-, -, hedit⟩ | ⟨-, hsame⟩
    · exact h.edit hedit
    · rw [hsame]
      exact h
  | replace p q => exact ho.elim

end Volume.Tied

end LinkTree
