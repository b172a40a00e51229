import Mathlib.Data.List.Dedup
import Mathlib.Data.List.DropRight
import PiBuddyCam.LinkWalk

/-! A file tree with directories that can be listed, the calls on single entries, and what
is left alone by those that only add or only remove. -/
namespace LinkTree

/-- An entry stands in a directory, under a name that the listing of it has. The names of
entries that are gone may stay in `names`. -/
structure Volume (β : Type) extends Tree β where
  names : Path → List String
  child : ∀ d name, node (d ++ [name]) ≠ none → node d = some .dir ∧ Named name ∧ name ∈ names d
  cwd : Path

variable {β : Type}

namespace Volume

section Reading

variable (v : Volume β)

def list (d : Path) : List String := ((v.names d).filter fun name => (v.node (d ++ [name])).isSome).dedup

def locate (follow : Bool) (r : Route) : Option Path := v.resolve v.cwd follow r

def stat (r : Route) : Option Node := (v.locate true r).bind v.node

def lstat (r : Route) : Option Node := (v.locate false r).bind v.node

def exists? (r : Route) : Bool := (v.stat r).isSome

def lexists (r : Route) : Bool := (v.lstat r).isSome

def isdir (r : Route) : Bool := v.stat r = some .dir

def islink (r : Route) : Bool :=
  match v.lstat r with
  | some (.link _) => true
  | _ => false

def realpath (hops : ℕ) (r : Route) : Path := v.real hops (r.start v.cwd) r.parts

def entry (r : Route) : Option Path := if Named (r.parts.getLastD "") then v.locate false r else none

def Room (p : Path) : Prop := p ≠ [] ∧ v.node p.dropLast = some .dir ∧ Named (p.getLastD "")

instance (p : Path) : Decidable (v.Room p) := inferInstanceAs (Decidable (_ ∧ _))

variable {v}

theorem mem_list {d : Path} {name : String} : name ∈ v.list d ↔ v.node (d ++ [name]) ≠ none := by
  unfold list
  rw [List.mem_dedup, List.mem_filter, Option.isSome_iff_ne_none]
  constructor
  · intro h
    exact h.2
  · intro h
    exact ⟨(v.child d name h).2.2, h⟩

theorem named_of_mem_list {d : Path} {name : String} (h : name ∈ v.list d) : Named name :=
  (v.child d name (mem_list.mp h)).2.1

theorem node_eq_none_of_child {p : Path} (hp : v.node p ≠ some .dir) (name : String) : v.node (p ++ [name]) = none := by
  by_contra hne
  exact hp (v.child p name hne).1

end Reading

section Changing

def set (v : Volume β) (p : Path) (x : Option Node) (hp : p ≠ []) (hfile : ∀ i, x = some (.file i) → i < v.next)
    (hup : x ≠ none → v.Room p) (hdown : x ≠ some .dir → ∀ name, v.node (p ++ [name]) = none) : Volume β where
  node := Function.update v.node p x
  data := v.data
  next := v.next
  root := by
    rw [Function.update_of_ne hp.symm]
    exact v.root
  used q i hq := by
    by_cases h : q = p
    · rw [h, Function.update_self] at hq
      exact hfile i hq
    · rw [Function.update_of_ne h] at hq
      exact v.used q i hq
  names := Function.update v.names p.dropLast (v.names p.dropLast ++ [p.getLastD ""])
  child d name hne := by
    have hnames (h : name ∈ v.names d) :
        name ∈ Function.update v.names p.dropLast (v.names p.dropLast ++ [p.getLastD ""]) d := by
      by_cases hd : d = p.dropLast
      · subst hd
        rw [Function.update_self]
        exact List.mem_append_left _ h
      · rwa [Function.update_of_ne hd]
    by_cases he : d ++ [name] = p
    · subst he
      rw [Function.update_self] at hne
      obtain ⟨-, hdir, hname⟩ := hup hne
      rw [List.dropLast_concat] at hdir ⊢
      rw [List.getLastD_concat] at hname ⊢
      have hne : d ≠ d ++ [name] := fun h => List.cons_ne_nil _ _ (List.self_eq_append_right.mp h)
      refine ⟨?_, hname, ?_⟩
      · rw [Function.update_of_ne hne, hdir]
      · rw [Function.update_self]
        exact List.mem_append_right _ (List.mem_singleton.mpr rfl)
    · rw [Function.update_of_ne he] at hne
      obtain ⟨hdir, hname, hmem⟩ := v.child d name hne
      refine ⟨?_, hname, hnames hmem⟩
      by_cases hd : d = p
      · subst hd
        rw [Function.update_self]
        by_contra hx
        exact hne (hdown hx name)
      · rw [Function.update_of_ne hd, hdir]
  cwd := v.cwd

def fill (v : Volume β) (data : ℕ → β) (next : ℕ) (hnext : v.next ≤ next) : Volume β :=
  { v with
    data := data
    next := next
    used := fun p i hp => Nat.lt_of_lt_of_le (v.used p i hp) hnext }

def mkdir (v : Volume β) (p : Path) : Except Fault Unit × Volume β :=
  if v.node p ≠ none then (.error .fileExists, v)
  else if h : v.Room p then (.ok (), v.set p (some .dir) h.1 (by simp) (fun _ => h) (by simp))
  else (.error .other, v)

def create (v : Volume β) (p : Path) (content : β) (hnone : v.node p = none) (hroom : v.Room p) : Volume β :=
  (v.fill (Function.update v.data v.next content) (v.next+1) (Nat.le_succ _)).set p (some (.file v.next)) hroom.1
    (by rintro i hi; cases hi; exact Nat.lt_succ_self _) (fun _ => hroom)
    fun _ => node_eq_none_of_child fun hd => nomatch hnone.symm.trans hd

def write (v : Volume β) (p : Path) (content : β) : Except Fault Unit × Volume β :=
  match h : v.node p with
  | some (.file i) => (.ok (), v.fill (Function.update v.data i content) v.next (Nat.le_refl _))
  | none => if hroom : v.Room p then (.ok (), v.create p content h hroom) else (.error .other, v)
  | some .dir | some (.link _) => (.error .other, v)

def remove (v : Volume β) (p : Path) : Except Fault Unit × Volume β :=
  if h : v.node p = none ∨ v.node p = some .dir then (.error .other, v)
  else
    (.ok (), v.set p none (by rintro rfl; exact h (Or.inr v.root)) (by simp) (by simp)
      fun _ => node_eq_none_of_child fun hd => h (Or.inr hd))

def rmdir (v : Volume β) (p : Path) : Except Fault Unit × Volume β :=
  if h : p ≠ [] ∧ v.node p = some .dir ∧ v.list p = [] then
    (.ok (), v.set p none h.1 (by simp) (by simp) fun _ name => by
      by_contra hne
      exact List.not_mem_nil (h.2.2 ▸ mem_list.mpr hne))
  else (.error .other, v)

def sameFile (v : Volume β) (p q : Path) : Bool :=
  match v.node p, v.node q with
  | some (.file i), some (.file j) => i = j
  | _, _ => false

def replace (v : Volume β) (p q : Path) : Except Fault Unit × Volume β :=
  if v.node p = none ∨ v.node p = some .dir then (.error .other, v)
  else if p = q ∨ v.sameFile p q then (.ok (), v)
  else if h : v.node q ≠ some .dir ∧ v.Room q then
    (.ok (), ((v.set q (v.node p) h.2.1 (v.used p) (fun _ => h.2) fun _ => node_eq_none_of_child h.1).remove p).2)
  else (.error .other, v)

variable {v : Volume β} {p q : Path} {x : Option Node} (hp : p ≠ []) (hfile : ∀ i, x = some (.file i) → i < v.next)
  (hup : x ≠ none → v.Room p) (hdown : x ≠ some .dir → ∀ name, v.node (p ++ [name]) = none)

theorem set_self : (v.set p x hp hfile hup hdown).node p = x := by
  simp only [set, Function.update_self]

theorem set_of_ne (hq : q ≠ p) : (v.set p x hp hfile hup hdown).node q = v.node q := by
  simp only [set, Function.update_of_ne hq]

end Changing

section Effects

/-- From `v` to `u` one entry has changed. -/
structure Edit (v u : Volume β) (p : Path) (x : Option Node) : Prop where
  self : u.node p = x
  other : ∀ q, q ≠ p → u.node q = v.node q
  data : u.data = v.data
  next : u.next = v.next
  cwd : u.cwd = v.cwd

variable {v : Volume β} {p q : Path}

theorem edit_set {x : Option Node} (hp : p ≠ []) (hfile : ∀ i, x = some (.file i) → i < v.next)
    (hup : x ≠ none → v.Room p) (hdown : x ≠ some .dir → ∀ name, v.node (p ++ [name]) = none) :
    Edit v (v.set p x hp hfile hup hdown) p x :=
  ⟨set_self hp hfile hup hdown, fun _ hq => set_of_ne hp hfile hup hdown hq, rfl, rfl, rfl⟩

variable (v : Volume β) (p : Path)

theorem mkdir_cases :
    ((v.mkdir p).1 = .ok () ∧ v.node p = none ∧ Edit v (v.mkdir p).2 p (some .dir)) ∨
      ((v.mkdir p).1 ≠ .ok () ∧ (v.mkdir p).2 = v) := by
  unfold mkdir
  split_ifs with hnode hroom
  · exact Or.inr ⟨nofun, rfl⟩
  · exact Or.inl ⟨rfl, not_not.mp hnode, edit_set hroom.1 (by simp) (fun _ => hroom) (by simp)⟩
  · exact Or.inr ⟨nofun, rfl⟩

theorem remove_cases :
    ((v.remove p).1 = .ok () ∧ v.node p ≠ none ∧ v.node p ≠ some .dir ∧ Edit v (v.remove p).2 p none) ∨
      ((v.remove p).1 ≠ .ok () ∧ (v.remove p).2 = v) := by
  unfold remove
  split_ifs with h
  · exact Or.inr ⟨nofun, rfl⟩
  · rw [not_or] at h
    have hroot : p ≠ [] := by
      rintro rfl
      exact h.2 v.root
    exact Or.inl ⟨rfl, h.1, h.2, edit_set hroot (by simp) (by simp) fun _ => node_eq_none_of_child h.2⟩

theorem rmdir_cases :
    ((v.rmdir p).1 = .ok () ∧ v.node p = some .dir ∧ Edit v (v.rmdir p).2 p none) ∨
      ((v.rmdir p).1 ≠ .ok () ∧ (v.rmdir p).2 = v) := by
  unfold rmdir
  split_ifs with h
  · have hempty (name : String) : v.node (p ++ [name]) = none := by
      by_contra hne
      exact List.not_mem_nil (h.2.2 ▸ mem_list.mpr hne)
    exact Or.inl ⟨rfl, h.2.1, edit_set h.1 (by simp) (by simp) fun _ => hempty⟩
  · exact Or.inr ⟨nofun, rfl⟩

theorem write_cases (content : β) :
    ((v.write p content).1 = .ok () ∧ ∃ i, v.node p = some (.file i) ∧ (v.write p content).2.node = v.node ∧
      (v.write p content).2.data = Function.update v.data i content ∧ (v.write p content).2.next = v.next ∧
      (v.write p content).2.cwd = v.cwd) ∨
    ((v.write p content).1 = .ok () ∧ v.node p = none ∧ (v.write p content).2.node p = some (.file v.next) ∧
      (∀ q, q ≠ p → (v.write p content).2.node q = v.node q) ∧
      (v.write p content).2.data = Function.update v.data v.next content ∧
      (v.write p content).2.next = v.next+1 ∧ (v.write p content).2.cwd = v.cwd) ∨
    ((v.write p content).1 ≠ .ok () ∧ (v.write p content).2 = v) := by
  unfold write
  split
  · rename_i i hi
    exact Or.inl ⟨rfl, i, hi, rfl, rfl, rfl, rfl⟩
  · rename_i hnone
    split_ifs with hroom
    · have hself : (v.create p content hnone hroom).node p = some (.file v.next) := set_self hroom.1 _ _ _
      have hother (q : Path) (hq : q ≠ p) : (v.create p content hnone hroom).node q = v.node q :=
        set_of_ne hroom.1 _ _ _ hq
      exact Or.inr (Or.inl ⟨rfl, hnone, hself, hother, rfl, rfl, rfl⟩)
    · exact Or.inr (Or.inr ⟨nofun, rfl⟩)
  · exact Or.inr (Or.inr ⟨nofun, rfl⟩)
  · exact Or.inr (Or.inr ⟨nofun, rfl⟩)

theorem replace_cases (p q : Path) :
    (v.replace p q).2 = v ∨
      ((v.replace p q).1 = .ok () ∧ p ≠ q ∧ v.node p ≠ some .dir ∧ v.node q ≠ some .dir ∧ (v.replace p q).2.node p = none ∧
        (v.replace p q).2.node q = v.node p ∧ (∀ r, r ≠ p → r ≠ q → (v.replace p q).2.node r = v.node r) ∧
        (v.replace p q).2.data = v.data ∧ (v.replace p q).2.next = v.next ∧ (v.replace p q).2.cwd = v.cwd) := by
  unfold replace
  split_ifs with hnode hsame hroom
  · exact Or.inl rfl
  · exact Or.inl rfl
  · rw [not_or] at hnode hsame
    have hw := edit_set hroom.2.1 (v.used p) (fun _ => hroom.2) fun _ => node_eq_none_of_child hroom.1
    have hp := hw.other p hsame.1
    rcases remove_cases (v.set q (v.node p) hroom.2.1 (v.used p) (fun _ => hroom.2)
      fun _ => node_eq_none_of_child hroom.1) p with ⟨-, -, -, hu⟩ | ⟨hfail, -⟩
    · refine Or.inr ⟨rfl, hsame.1, hnode.2, hroom.1, hu.self, ?_, ?_, ?_, ?_, ?_⟩
      · rw [hu.other q (Ne.symm hsame.1), hw.self]
      · intro r hrp hrq
        rw [hu.other r hrp, hw.other r hrq]
      · exact hu.data.trans hw.data
      · exact hu.next.trans hw.next
      · exact hu.cwd.trans hw.cwd
    · -- the entry is still there, so it can be taken away
      refine absurd ?_ hfail
      unfold remove
      rw [dif_neg]
      rw [hp, not_or]
      exact hnode
  · exact Or.inl rfl

end Effects

section Finite

def UsesBelow (next : ℕ) : Node → Bool
  | .file i => i < next
  | _ => true

/-- The root is there, every other entry stands in a directory under a name of its own, and files have used numbers. -/
def Closed (entries : List (Path × Node)) (next : ℕ) : Prop :=
  entries.lookup [] = some .dir ∧ (∀ e ∈ entries, e.1 = [] ∨
    (entries.lookup e.1.dropLast = some .dir ∧ Named (e.1.getLastD ""))) ∧
  ∀ e ∈ entries, UsesBelow next e.2 = true

instance (entries : List (Path × Node)) (next : ℕ) : Decidable (Closed entries next) :=
  inferInstanceAs (Decidable (_ ∧ _ ∧ _))

theorem mem_of_lookup {entries : List (Path × Node)} {p : Path} {x : Node} (h : entries.lookup p = some x) :
    (p, x) ∈ entries := by
  obtain ⟨before, after, rfl, -⟩ := List.lookup_eq_some_iff.mp h
  exact List.mem_append_right _ List.mem_cons_self

def ofEntries (entries : List (Path × Node)) (data : ℕ → β) (next : ℕ) (cwd : Path) (h : Closed entries next) :
    Volume β where
  node p := entries.lookup p
  data := data
  next := next
  root := h.1
  used p i hp := of_decide_eq_true (h.2.2 (p, .file i) (mem_of_lookup hp))
  names d := (entries.filter fun e => e.1.dropLast = d).map fun e => e.1.getLastD ""
  child d name hne := by
    obtain ⟨x, hx⟩ := Option.ne_none_iff_exists'.mp hne
    have hmem := mem_of_lookup hx
    rcases h.2.1 _ hmem with hnil | ⟨hdir, hname⟩
    · exact absurd hnil (List.append_ne_nil_of_right_ne_nil _ (List.cons_ne_nil _ _))
    · dsimp only at hdir hname
      rw [List.dropLast_concat] at hdir
      rw [List.getLastD_concat] at hname
      refine ⟨hdir, hname, List.mem_map.mpr ⟨_, List.mem_filter.mpr ⟨hmem, ?_⟩, List.getLastD_concat⟩⟩
      simp only [List.dropLast_concat, decide_true]
  cwd := cwd

end Finite

end Volume

inductive Act (β : Type) where
  | look
  | scan (p : Path)
  | mkdir (p : Path)
  | write (p : Path) (content : β)
  | remove (p : Path)
  | rmdir (p : Path)
  | replace (p q : Path)

namespace Act

def Res : Act β → Type
  | .look => Volume β
  | .scan _ => Except Fault (List String)
  | _ => Except Fault Unit

def Adds : Act β → Prop
  | .look | .scan _ | .mkdir _ | .write _ _ => True
  | _ => False

end Act

/-- What the outside world settles: whether a change fails, what a failed write leaves in the file, and whether a
directory can be read. -/
structure Chance (β : Type) where
  fails : Bool := false
  cut : Option β := none
  unreadable : Bool := false

namespace Volume

def attempt (v : Volume β) (c : Chance β) (change : Except Fault Unit × Volume β) : Except Fault Unit × Volume β :=
  if c.fails then (.error .other, v) else change

def attemptWrite (v : Volume β) (c : Chance β) (p : Path) (content : β) : Except Fault Unit × Volume β :=
  match c.cut with
  | none => v.attempt c (v.write p content)
  | some part => if c.fails then (.error .other, (v.write p part).2) else v.write p content

def step (v : Volume β) : (o : Act β) → Chance β → o.Res × Volume β
  | .look, _ => (v, v)
  | .scan p, c => (if c.unreadable = false ∧ v.node p = some .dir then .ok (v.list p) else .error .other, v)
  | .mkdir p, c => v.attempt c (v.mkdir p)
  | .write p content, c => v.attemptWrite c p content
  | .remove p, c => v.attempt c (v.remove p)
  | .rmdir p, c => v.attempt c (v.rmdir p)
  | .replace p q, c => v.attempt c (v.replace p q)

theorem attempt_cases (v : Volume β) (c : Chance β) (change : Except Fault Unit × Volume β) :
    v.attempt c change = change ∨ v.attempt c change = (.error .other, v) := by
  unfold attempt
  split_ifs
  · exact Or.inr rfl
  · exact Or.inl rfl

theorem attemptWrite_cases (v : Volume β) (c : Chance β) (p : Path) (content : β) :
    v.attemptWrite c p content = v.write p content ∨ v.attemptWrite c p content = (.error .other, v) ∨
      ∃ part, v.attemptWrite c p content = (.error .other, (v.write p part).2) := by
  unfold attemptWrite
  split
  · exact (v.attempt_cases c _).imp_right Or.inl
  · rename_i part _
    split_ifs
    · exact Or.inr (Or.inr ⟨part, rfl⟩)
    · exact Or.inl rfl

section Attempts

variable (v : Volume β) (P : Volume β → Prop) (c : Chance β)

theorem of_attempt {change : Except Fault Unit × Volume β} (h : P v) (hchange : P change.2) :
    P (v.attempt c change).2 := by
  rcases v.attempt_cases c change with he | he
  · rw [he]
    exact hchange
  · rw [he]
    exact h

theorem of_attemptWrite {p : Path} {content : β} (h : P v) (hwrite : ∀ content, P (v.write p content).2) :
    P (v.attemptWrite c p content).2 := by
  rcases v.attemptWrite_cases c p content with he | he | ⟨part, he⟩
  · rw [he]
    exact hwrite content
  · rw [he]
    exact h
  · rw [he]
    exact hwrite part

end Attempts

/-- Everything of `v` is still there, and no links are new. -/
structure Grown (v u : Volume β) : Prop where
  node : ∀ p x, v.node p = some x → u.node p = some x
  links : ∀ p target, u.node p = some (.link target) → v.node p = some (.link target)
  cwd : u.cwd = v.cwd

variable {v u w : Volume β} {p : Path}

namespace Grown

theorem refl (v : Volume β) : Grown v v := ⟨fun _ _ h => h, fun _ _ h => h, rfl⟩

theorem add (h : Grown v u) (hnone : u.node p = none) (hself : ∀ target, w.node p ≠ some (.link target))
    (hother : ∀ q, q ≠ p → w.node q = u.node q) (hcwd : w.cwd = u.cwd) : Grown v w := by
  refine ⟨fun q x hq => ?_, fun q target hq => ?_, hcwd.trans h.cwd⟩
  · have hne : q ≠ p := by
      rintro rfl
      rw [h.node q x hq] at hnone
      cases hnone
    rw [hother q hne, h.node q x hq]
  · have hne : q ≠ p := by
      rintro rfl
      exact hself target hq
    rw [hother q hne] at hq
    exact h.links q target hq

theorem mkdir (h : Grown v u) (p : Path) : Grown v (u.mkdir p).2 := by
  rcases u.mkdir_cases p with ⟨-, hnone, hedit⟩ | ⟨-, hsame⟩
  · exact h.add hnone (by rw [hedit.self]; exact nofun) hedit.other hedit.cwd
  · rw [hsame]
    exact h

theorem write (h : Grown v u) (p : Path) (content : β) : Grown v (u.write p content).2 := by
  rcases u.write_cases p content with ⟨-, i, -, hnode, -, -, hcwd⟩ | ⟨-, hnone, hself, hother, -, -, hcwd⟩ | ⟨-, hsame⟩
  · refine ⟨fun q x hq => ?_, fun q target hq => ?_, hcwd.trans h.cwd⟩
    · rw [hnode, h.node q x hq]
    · rw [hnode] at hq
      exact h.links q target hq
  · exact h.add hnone (by rw [hself]; exact nofun) hother hcwd
  · rw [hsame]
    exact h

theorem step (h : Grown v u) {o : Act β} (ho : o.Adds) (c : Chance β) : Grown v (u.step o c).2 := by
  cases o with
  | look | scan _ => exact h
  | mkdir p => exact u.of_attempt (Grown v) c h (h.mkdir p)
  | write p content => exact u.of_attemptWrite (Grown v) c h (h.write p)
  | remove p => exact ho.elim
  | rmdir p => exact ho.elim
  | replace p q => exact ho.elim

theorem realpath (h : Grown v u) (hops : ℕ) (r : Route) : u.realpath hops r = v.realpath hops r := by
  have hreal : u.real hops = v.real hops :=
    Tree.real_congr (fun q target => ⟨h.links q target, h.node q _⟩) hops
  rw [Volume.realpath, Volume.realpath, hreal, h.cwd]

end Grown

end Volume

def volume (β : Type) : Machine (Act β) Act.Res (Volume β) (Chance β) := ⟨fun v o c => v.step o c⟩

end LinkTree
