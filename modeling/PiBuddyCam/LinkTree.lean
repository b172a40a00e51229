import Mathlib.Logic.Function.Basic
import PiBuddyCam.CrashProg

/-! A file tree with symbolic and hard links: entries under canonical paths, the walk of
the kernel along a path, and what stays below one directory while calls change the tree. -/
namespace LinkTree

abbrev Path := List String

structure Route where
  absolute : Bool
  parts : List String
  deriving DecidableEq

def Route.start (r : Route) (cur : Path) : Path := if r.absolute then [] else cur

def Route.join (r : Route) (parts : List String) : Route := ⟨r.absolute, r.parts ++ parts⟩

def Route.Descends (r : Route) : Prop := r.absolute = false ∧ ".." ∉ r.parts

def Route.Below (dest r : Route) : Prop := ∃ parts, parts ≠ [] ∧ ".." ∉ parts ∧ r = dest.join parts

inductive Node where
  | dir
  | file (ino : ℕ)
  | link (target : Route)
  deriving DecidableEq

/-- Files are known by their number; the numbers from `next` on are free. -/
structure Tree (β : Type) where
  node : Path → Option Node
  data : ℕ → β
  next : ℕ
  root : node [] = some .dir
  used : ∀ p i, node p = some (.file i) → i < next

variable {β : Type}

namespace Tree

/-- The walk along a path, from a directory on. `jump` goes on at the target of a link.
The last component need not exist, and is followed only if `follow` says so. -/
def walkWith (t : Tree β) (follow : Bool) (jump : Path → List String → Option Path) :
    Path → List String → Option Path
  | cur, [] => some cur
  | cur, name :: rest =>
    if name = "" ∨ name = "." then walkWith t follow jump cur rest
    else if name = ".." then walkWith t follow jump cur.dropLast rest
    else match t.node (cur ++ [name]) with
      | some .dir => walkWith t follow jump (cur ++ [name]) rest
      | some (.link target) =>
        if rest = [] ∧ follow = false then some (cur ++ [name])
        else jump (target.start cur) (target.parts ++ rest)
      | some (.file _) | none => if rest = [] then some (cur ++ [name]) else none

def walk (t : Tree β) (follow : Bool) : ℕ → Path → List String → Option Path
  | 0 => t.walkWith follow (fun _ _ => none)
  | n+1 => t.walkWith follow (walk t follow n)

def maxLinks : ℕ := 40

def resolve (t : Tree β) (cwd : Path) (follow : Bool) (r : Route) : Option Path :=
  t.walk follow maxLinks (r.start cwd) r.parts

def lookup (t : Tree β) (cwd : Path) (follow : Bool) (r : Route) : Option Node :=
  (t.resolve cwd follow r).bind t.node

def put (t : Tree β) (p : Path) (x : Option Node) (hp : t.node p ≠ some .dir)
    (hx : ∀ i, x = some (.file i) → i < t.next) : Tree β where
  node := Function.update t.node p x
  data := t.data
  next := t.next
  root := by
    rw [Function.update_of_ne, t.root]
    rintro rfl
    exact hp t.root
  used := by
    intro q i hq
    by_cases h : q = p
    · subst h
      rw [Function.update_self] at hq
      exact hx i hq
    · rw [Function.update_of_ne h] at hq
      exact t.used q i hq

def allocate (t : Tree β) (content : β) : Tree β where
  node := t.node
  data := Function.update t.data t.next content
  next := t.next+1
  root := t.root
  used q i hq := Nat.lt_succ_of_lt (t.used q i hq)

def create (t : Tree β) (p : Path) (content : β) (hp : t.node p ≠ some .dir) : Tree β :=
  (t.allocate content).put p (some (.file t.next)) hp fun i hi => by
    obtain rfl : t.next = i := by injection hi with hi; injection hi
    exact Nat.lt_succ_self _

def overwrite (t : Tree β) (i : ℕ) (content : β) : Tree β :=
  { t with data := Function.update t.data i content }

/-- The route leads to the directory `d`, with `k` of `n` links left. -/
inductive Enters (t : Tree β) : ℕ → Path → List String → Path → ℕ → Prop
  | here {n : ℕ} {cur : Path} : Enters t n cur [] cur n
  | stay {n k : ℕ} {cur d : Path} {name : String} {rest : List String} : name = "" ∨ name = "." →
      Enters t n cur rest d k → Enters t n cur (name :: rest) d k
  | up {n k : ℕ} {cur d : Path} {rest : List String} :
      Enters t n cur.dropLast rest d k → Enters t n cur (".." :: rest) d k
  | down {n k : ℕ} {cur d : Path} {name : String} {rest : List String} : name ≠ "" → name ≠ "." → name ≠ ".." →
      t.node (cur ++ [name]) = some .dir → Enters t n (cur ++ [name]) rest d k → Enters t n cur (name :: rest) d k
  | jump {n k : ℕ} {cur d : Path} {name : String} {rest : List String} {target : Route} :
      name ≠ "" → name ≠ "." → name ≠ ".." → t.node (cur ++ [name]) = some (.link target) →
      Enters t n (target.start cur) (target.parts ++ rest) d k → Enters t (n+1) cur (name :: rest) d k

theorem walk_eq_walkWith (t : Tree β) (follow : Bool) (n : ℕ) :
    ∃ jump, t.walk follow n = t.walkWith follow jump := by
  cases n with
  | zero => exact ⟨_, rfl⟩
  | succ k => exact ⟨_, rfl⟩

theorem Enters.walk {t : Tree β} {n k : ℕ} {cur d : Path} {parts rest : List String}
    (h : t.Enters n cur parts d k) (follow : Bool) (hrest : rest ≠ []) :
    t.walk follow n cur (parts ++ rest) = t.walk follow k d rest := by
  induction h with
  | here => rfl
  | @stay n k cur d name parts hname _ ih =>
    obtain ⟨jump, hjump⟩ := t.walk_eq_walkWith follow n
    rw [← ih, hjump, List.cons_append, walkWith, if_pos hname]
  | @up n k cur d parts _ ih =>
    obtain ⟨jump, hjump⟩ := t.walk_eq_walkWith follow n
    rw [← ih, hjump, List.cons_append, walkWith, if_neg (by decide), if_pos rfl]
  | @down n k cur d name parts h1 h2 h3 hnode _ ih =>
    obtain ⟨jump, hjump⟩ := t.walk_eq_walkWith follow n
    rw [← ih, hjump, List.cons_append, walkWith, if_neg (not_or.mpr ⟨h1, h2⟩), if_neg h3, hnode]
  | @jump n k cur d name parts target h1 h2 h3 hnode _ ih =>
    have hne : ¬ (parts ++ rest = [] ∧ follow = false) := fun h => hrest (List.append_eq_nil_iff.mp h.1).2
    rw [← ih, Tree.walk, List.cons_append, walkWith, if_neg (not_or.mpr ⟨h1, h2⟩), if_neg h3, hnode]
    dsimp only
    rw [if_neg hne, List.append_assoc]

theorem Enters.mono {t u : Tree β} {n k : ℕ} {cur d : Path} {parts : List String}
    (h : t.Enters n cur parts d k) (hdir : ∀ p, t.node p = some .dir → u.node p = some .dir)
    (hlink : ∀ p target, t.node p = some (.link target) → u.node p = some (.link target)) :
    u.Enters n cur parts d k := by
  induction h with
  | here => exact .here
  | stay hname _ ih => exact .stay hname ih
  | up _ ih => exact .up ih
  | down h1 h2 h3 hnode _ ih => exact .down h1 h2 h3 (hdir _ hnode) ih
  | jump h1 h2 h3 hnode _ ih => exact .jump h1 h2 h3 (hlink _ _ hnode) ih

def LinksDescend (t : Tree β) (d : Path) : Prop :=
  ∀ p target, d <+: p → t.node p = some (.link target) → target.Descends

theorem walkWith_below {t : Tree β} {d : Path} {follow : Bool} {jump : Path → List String → Option Path}
    (hlinks : t.LinksDescend d)
    (hjump : ∀ cur parts p, d <+: cur → ".." ∉ parts → jump cur parts = some p → d <+: p) :
    ∀ {parts : List String} {cur p : Path}, d <+: cur → ".." ∉ parts →
      t.walkWith follow jump cur parts = some p → d <+: p := by
  intro parts
  induction parts with
  | nil =>
    intro cur p hcur _ hp
    exact Option.some.inj hp ▸ hcur
  | cons name rest ih =>
    intro cur p hcur hparts hp
    rw [List.mem_cons, not_or] at hparts
    have hdown : d <+: cur ++ [name] := hcur.trans (List.prefix_append _ _)
    rw [walkWith] at hp
    by_cases hstay : name = "" ∨ name = "."
    · rw [if_pos hstay] at hp
      exact ih hcur hparts.2 hp
    rw [if_neg hstay, if_neg (Ne.symm hparts.1)] at hp
    have hlast (hx : (if rest = [] then some (cur ++ [name]) else none) = some p) : d <+: p := by
      split_ifs at hx
      exact Option.some.inj hx ▸ hdown
    split at hp
    · exact ih hdown hparts.2 hp
    · rename_i target hnode
      obtain ⟨hrel, hdots⟩ := hlinks _ target hdown hnode
      split_ifs at hp
      · exact Option.some.inj hp ▸ hdown
      · refine hjump _ _ p ?_ ?_ hp
        · rw [Route.start, hrel]
          exact hcur
        · exact fun hmem => (List.mem_append.mp hmem).elim hdots hparts.2
    · exact hlast hp
    · exact hlast hp

theorem walk_below {t : Tree β} {d : Path} (hlinks : t.LinksDescend d) (follow : Bool) (n : ℕ) {cur p : Path}
    {parts : List String} (hcur : d <+: cur) (hparts : ".." ∉ parts) (hp : t.walk follow n cur parts = some p) :
    d <+: p := by
  induction n generalizing cur p parts with
  | zero => exact walkWith_below hlinks (fun _ _ _ _ _ (h : none = some _) => nomatch h) hcur hparts hp
  | succ n ih => exact walkWith_below hlinks (fun _ _ _ hc hd h => ih hc hd h) hcur hparts hp

end Tree

inductive Call (β : Type) where
  | exists? (r : Route)
  | lexists (r : Route)
  | isdir (r : Route)
  | mkdir (r : Route)
  | write (r : Route) (content : β)
  | unlink (r : Route)
  | symlink (target r : Route)
  | link (src r : Route)

inductive Fault where
  | fileExists | other
  deriving DecidableEq

def Call.Res : Call β → Type
  | .exists? _ | .lexists _ | .isdir _ => Bool
  | _ => Except Fault Unit

/-- The call changes nothing, or leads into the directory and makes no link out of it. -/
def Call.Below (dest : Route) : Call β → Prop
  | .exists? _ | .lexists _ | .isdir _ => True
  | .mkdir r | .write r _ | .unlink r => dest.Below r
  | .symlink target r => target.Descends ∧ dest.Below r
  | .link src r => dest.Below src ∧ dest.Below r

/-- What the tree leaves open: whether a call fails, and whether `link` follows a link. -/
structure Choice where
  fails : Bool := false
  followSrc : Bool := false

namespace Tree

def mkdir (t : Tree β) (p : Path) : Except Fault Unit × Tree β :=
  match h : t.node p with
  | none => (.ok (), t.put p (some .dir) (by simp [h]) (by simp))
  | some _ => (.error .fileExists, t)

def write (t : Tree β) (p : Path) (content : β) : Except Fault Unit × Tree β :=
  match h : t.node p with
  | none => (.ok (), t.create p content (by simp [h]))
  | some (.file i) => (.ok (), t.overwrite i content)
  | some _ => (.error .other, t)

def unlink (t : Tree β) (p : Path) : Except Fault Unit × Tree β :=
  if h : t.node p = none ∨ t.node p = some .dir then (.error .other, t)
  else (.ok (), t.put p none (fun hd => h (Or.inr hd)) (by simp))

def symlink (t : Tree β) (target : Route) (p : Path) : Except Fault Unit × Tree β :=
  match h : t.node p with
  | none => (.ok (), t.put p (some (.link target)) (by simp [h]) (by simp))
  | some _ => (.error .fileExists, t)

def link (t : Tree β) (q p : Path) : Except Fault Unit × Tree β :=
  if hq : t.node q = none ∨ t.node q = some .dir then (.error .other, t)
  else match h : t.node p with
    | none => (.ok (), t.put p (t.node q) (by simp [h]) (fun i hi => t.used q i hi))
    | some _ => (.error .fileExists, t)

def on (t : Tree β) (c : Choice) (p : Option Path) (f : Path → Except Fault Unit × Tree β) :
    Except Fault Unit × Tree β :=
  match p with
  | some p => if c.fails then (.error .other, t) else f p
  | none => (.error .other, t)

def step (cwd : Path) (t : Tree β) : (o : Call β) → Choice → o.Res × Tree β
  | .exists? r, c => (!c.fails && (t.lookup cwd true r).isSome, t)
  | .lexists r, c => (!c.fails && (t.lookup cwd false r).isSome, t)
  | .isdir r, c => (!c.fails && t.lookup cwd true r == some .dir, t)
  | .mkdir r, c => t.on c (t.resolve cwd false r) t.mkdir
  | .write r content, c => t.on c (t.resolve cwd true r) (t.write · content)
  | .unlink r, c => t.on c (t.resolve cwd false r) t.unlink
  | .symlink target r, c => t.on c (t.resolve cwd false r) (t.symlink target)
  | .link src r, c =>
    t.on c (t.resolve cwd c.followSrc src) fun q => t.on c (t.resolve cwd false r) (t.link q)

def Own (t : Tree β) (d : Path) (i : ℕ) : Prop := t.next ≤ i ∨ ∃ q, d <+: q ∧ t.node q = some (.file i)

/-- From `t` to `u` nothing has changed but below the directory, and nothing below it
leads out. -/
structure Confined (d : Path) (t u : Tree β) : Prop where
  outside : ∀ p, ¬ d <+: p → u.node p = t.node p
  dirs : ∀ p, t.node p = some .dir → u.node p = some .dir
  links : u.LinksDescend d
  files : ∀ p i, d <+: p → u.node p = some (.file i) → t.Own d i
  data : ∀ i, ¬ t.Own d i → u.data i = t.data i
  next : t.next ≤ u.next

def Plain (t : Tree β) (d : Path) : Prop := ∀ p target, d <+: p → t.node p ≠ some (.link target)

theorem Confined.refl {d : Path} {t : Tree β} (h : t.Plain d) : Confined d t t where
  outside _ _ := rfl
  dirs _ hp := hp
  links p target hp hnode := absurd hnode (h p target hp)
  files p _ hp hnode := Or.inr ⟨p, hp, hnode⟩
  data _ _ := rfl
  next := Nat.le_refl _

variable {x : Option Node}

theorem put_self {t : Tree β} {p : Path} (hp : t.node p ≠ some .dir)
    (hx : ∀ i, x = some (.file i) → i < t.next) : (t.put p x hp hx).node p = x := by
  simp only [put, Function.update_self]

theorem put_of_ne {t : Tree β} {p q : Path} (hp : t.node p ≠ some .dir)
    (hx : ∀ i, x = some (.file i) → i < t.next) (hq : q ≠ p) : (t.put p x hp hx).node q = t.node q := by
  simp only [put, Function.update_of_ne hq]

variable {t u : Tree β}

theorem Confined.put {d p : Path} (h : Confined d t u) (hp : d <+: p)
    (hdir : u.node p ≠ some .dir) (hx : ∀ i, x = some (.file i) → i < u.next)
    (hlink : ∀ target, x = some (.link target) → target.Descends) (hfile : ∀ i, x = some (.file i) → t.Own d i) :
    Confined d t (u.put p x hdir hx) where
  outside q hq := by
    have hne : q ≠ p := fun e => hq (e ▸ hp)
    rw [put_of_ne hdir hx hne, h.outside q hq]
  dirs q hq := by
    have hne : q ≠ p := fun e => hdir (e ▸ h.dirs q hq)
    rw [put_of_ne hdir hx hne, h.dirs q hq]
  links q target hq hnode := by
    by_cases e : q = p
    · rw [e, put_self] at hnode
      exact hlink target hnode
    · rw [put_of_ne hdir hx e] at hnode
      exact h.links q target hq hnode
  files q i hq hnode := by
    by_cases e : q = p
    · rw [e, put_self] at hnode
      exact hfile i hnode
    · rw [put_of_ne hdir hx e] at hnode
      exact h.files q i hq hnode
  data := h.data
  next := h.next

theorem Confined.overwrite {d : Path} {i : ℕ} (h : Confined d t u) (hi : t.Own d i) (content : β) :
    Confined d t (u.overwrite i content) where
  outside := h.outside
  dirs := h.dirs
  links := h.links
  files := h.files
  data j hj := by
    have hne : j ≠ i := fun e => hj (e ▸ hi)
    exact (Function.update_of_ne hne _ _).trans (h.data j hj)
  next := h.next

theorem Confined.allocate {d : Path} (h : Confined d t u) (content : β) :
    Confined d t (u.allocate content) where
  outside := h.outside
  dirs := h.dirs
  links := h.links
  files := h.files
  data j hj := by
    have hne : j ≠ u.next := fun e => hj (Or.inl (e ▸ h.next))
    exact (Function.update_of_ne hne _ _).trans (h.data j hj)
  next := Nat.le_succ_of_le h.next

theorem Confined.create {d p : Path} (h : Confined d t u) (hp : d <+: p)
    (hdir : u.node p ≠ some .dir) (content : β) : Confined d t (u.create p content hdir) := by
  refine (h.allocate content).put hp hdir _ (fun _ he => nomatch he) fun i he => ?_
  obtain rfl : u.next = i := by injection he with he; injection he
  exact Or.inl h.next

section Below

variable {d cwd : Path} {dest : Route} {k : ℕ} {t u : Tree β}

theorem Confined.enters (h : Confined d t u) (hplain : t.Plain d)
    (hdest : t.Enters maxLinks (dest.start cwd) dest.parts d k) :
    u.Enters maxLinks (dest.start cwd) dest.parts d k := by
  refine hdest.mono h.dirs fun p target hp => ?_
  have hout : ¬ d <+: p := fun hin => hplain p target hin hp
  rw [h.outside p hout, hp]

variable {p : Path}

theorem Confined.resolve (h : Confined d t u) (hplain : t.Plain d)
    (hdest : t.Enters maxLinks (dest.start cwd) dest.parts d k) {r : Route} (hr : dest.Below r) {follow : Bool}
    (hp : u.resolve cwd follow r = some p) : d <+: p := by
  obtain ⟨parts, hne, hdots, rfl⟩ := hr
  have hwalk := (h.enters hplain hdest).walk follow hne
  exact walk_below h.links follow k List.prefix_rfl hdots (hwalk.symm.trans hp)

theorem Confined.on (h : Confined d t u) (c : Choice) {p : Option Path} {f : Path → Except Fault Unit × Tree β}
    (hf : ∀ q, p = some q → Confined d t (f q).2) : Confined d t (u.on c p f).2 := by
  unfold Tree.on
  split
  · split_ifs
    · exact h
    · exact hf _ rfl
  · exact h

theorem Confined.mkdir (h : Confined d t u) (hp : d <+: p) : Confined d t (u.mkdir p).2 := by
  unfold Tree.mkdir
  split
  · rename_i hnone
    exact h.put hp (by simp [hnone]) (by simp) (fun _ he => nomatch he) fun _ he => nomatch he
  · exact h

theorem Confined.write (h : Confined d t u) (hp : d <+: p) (content : β) :
    Confined d t (u.write p content).2 := by
  unfold Tree.write
  split
  · rename_i hnone
    exact h.create hp (by simp [hnone]) content
  · rename_i i hi
    exact h.overwrite (h.files p i hp hi) content
  · exact h

theorem Confined.unlink (h : Confined d t u) (hp : d <+: p) : Confined d t (u.unlink p).2 := by
  unfold Tree.unlink
  split_ifs with hnone
  · exact h
  · exact h.put hp (fun hd => hnone (Or.inr hd)) (by simp) (fun _ he => nomatch he) fun _ he => nomatch he

theorem Confined.symlink (h : Confined d t u) {target : Route} (htarget : target.Descends)
    (hp : d <+: p) : Confined d t (u.symlink target p).2 := by
  unfold Tree.symlink
  split
  · rename_i hnone
    refine h.put hp (by simp [hnone]) (by simp) (fun target' he => ?_) fun _ he => nomatch he
    obtain rfl : target = target' := by injection he with he; injection he
    exact htarget
  · exact h

theorem Confined.link (h : Confined d t u) {q p : Path} (hq : d <+: q) (hp : d <+: p) :
    Confined d t (u.link q p).2 := by
  unfold Tree.link
  split_ifs
  · exact h
  split
  · rename_i hnone
    exact h.put hp (by simp [hnone]) (u.used q) (fun target he => h.links q target hq he) fun i he => h.files q i hq he
  · exact h

theorem Confined.step (h : Confined d t u) (hplain : t.Plain d)
    (hdest : t.Enters maxLinks (dest.start cwd) dest.parts d k) {o : Call β} (ho : o.Below dest) (c : Choice) :
    Confined d t (u.step cwd o c).2 := by
  have hin {r : Route} (hr : dest.Below r) {follow : Bool} {p : Path} (hp : u.resolve cwd follow r = some p) :
      d <+: p := h.resolve hplain hdest hr hp
  cases o with
  | exists? r | lexists r | isdir r => exact h
  | mkdir r => exact h.on c fun p hp => h.mkdir (hin ho hp)
  | write r content => exact h.on c fun p hp => h.write (hin ho hp) content
  | unlink r => exact h.on c fun p hp => h.unlink (hin ho hp)
  | symlink target r => exact h.on c fun p hp => h.symlink ho.1 (hin ho.2 hp)
  | link src r => exact h.on c fun q hq => h.on c fun p hp => h.link (hin ho.1 hq) (hin ho.2 hp)

end Below

end Tree

def fileSystem (β : Type) (cwd : Path) : Machine (Call β) Call.Res (Tree β) Choice := ⟨fun t o c => t.step cwd o c⟩

/-- A program whose calls all lead into the directory leaves the rest of the tree alone,
wherever it stops. -/
theorem confined_of_within {α : Type} {p : Prog (Call β) Call.Res α} {d cwd : Path} {dest : Route} {k : ℕ}
    {t : Tree β} (hp : p.Within (Call.Below dest)) (hplain : t.Plain d)
    (hdest : t.Enters Tree.maxLinks (dest.start cwd) dest.parts d k) :
    p.Safe (fileSystem β cwd) (fun _ => True) (t.Confined d ·) (fun _ u => t.Confined d u) t :=
  hp.safe (.refl hplain) fun _ _ c ho _ hu => hu.step hplain hdest ho c

end LinkTree
