import PiBuddyCam.ArchiveModel
import PiBuddyCam.VolumeRoutes

/-! The names that `media_library.py` and `timelapse.py` take for media files and session folders, and what
they stand for once they are joined to a directory. -/
namespace PiBuddyCam.MediaNames

open LinkTree Archive

inductive Kind where
  | video | frame
  deriving DecidableEq

def maxNameChars : ℕ := 128

/-- `[A-Za-z0-9._-]`. -/
def safeChar (c : Char) : Bool := c.isAlphanum || c == '.' || c == '_' || c == '-'

/-- One place of a pattern of fixed length. -/
inductive Place where
  | char (x : Char) | digit

def Place.takes : Place → Char → Bool
  | .char x, c => c == x
  | .digit, c => c.isDigit

def literal (text : String) : List Place := text.toList.map .char

def digits (n : ℕ) : List Place := List.replicate n .digit

def fits : List Place → List Char → Bool
  | [], [] => true
  | p :: ps, c :: cs => p.takes c && fits ps cs
  | _, _ => false

def safeChars (cs : List Char) : Bool := cs ≠ [] && cs.all safeChar

def frameName : List Place :=
  literal "timelapse_" ++ digits 2 ++ literal "-" ++ digits 2 ++ literal "-" ++ digits 2 ++ literal "-" ++ digits 3 ++
    literal ".jpg"

def videoName : List Char → Bool
  | [] => false
  | c :: cs => c.isAlphanum && ".avi".toList.isSuffixOf cs && (cs.take (cs.length - 4)).all safeChar

def sessionName : List Place := literal "session_" ++ digits 8 ++ literal "-" ++ digits 6

/-- `re.match('^…$', name)`: the `$` matches at the end and before a line feed that ends the text. -/
def matchLine (whole : List Char → Bool) (name : String) : Bool :=
  whole name.toList || whole (PyText.beforeDollar name.toList)

def classifyName (name : String) : Option Kind :=
  if name = "" ∨ name.length > maxNameChars then none
  else if name ≠ PyText.basename name then none
  else if PyText.startswith name "." || PyText.contains "/" name || PyText.contains "\\" name then none
  else if matchLine safeChars name = false then none
  else if matchLine (fits frameName) name then some .frame
  else if matchLine videoName name then some .video
  else none

def validSessionName (name : String) : Bool := matchLine (fits sessionName) name

/-- `os.path.join`. -/
def joinText (directory name : String) : String :=
  if PyText.startswith name "/" then name
  else if directory = "" || PyText.endswith directory "/" then directory ++ name
  else directory ++ "/" ++ name

def sessionDir {β : Type} (v : Volume β) (directory session : String) : Option String :=
  if validSessionName session then
    if v.lstat (route (joinText directory session)) = some .dir then some (joinText directory session) else none
  else none

def Accepted (name : String) : Prop := classifyName name ≠ none ∨ validSessionName name = true

/-- Joined to any directory, the name stands for an entry of it, and a session folder is a directory there. -/
def Inside (name : String) : Prop :=
  ∀ (β : Type) (v : Volume β) (directory : String) (d : Path), v.Reaches (route directory) d →
    v.locate false (route (joinText directory name)) = some (d ++ [name]) ∧
      (sessionDir v directory name ≠ none → v.node (d ++ [name]) = some .dir)

structure Safe (name : String) : Prop where
  chars : ∀ c ∈ name.toList, safeChar c = true
  start : PyText.startswith name "." = false
  frame : classifyName name = some .frame → fits frameName name.toList = true
  video : classifyName name = some .video → PyText.endswith name ".avi" = true
  session : validSessionName name = true → fits sessionName name.toList = true
  inside : Inside name

section Join

variable {name : String}

theorem parts_append (a b : String) : parts (a ++ "/" ++ b) = parts a ++ parts b := by
  have hsplit := List.splitOn_append_cons_self (a := '/') a.toList b.toList
  rw [parts, String.toList_append, String.toList_append, List.append_assoc]
  exact (congrArg (List.map String.ofList) hsplit).trans List.map_append

theorem parts_plain (hname : '/' ∉ name.toList) : parts name = [name] := by
  rw [parts, List.splitOn_eq_singleton hname, List.map_singleton, String.ofList_toList]

theorem isabs_append {a : String} (ha : a ≠ "") (b : String) : isabs (a ++ b) = isabs a := by
  obtain ⟨c, cs, hcs⟩ := List.exists_cons_of_ne_nil fun h => ha (String.toList_eq_nil_iff.mp h)
  rw [isabs, isabs, PyText.startswith, PyText.startswith, String.toList_append, hcs]
  exact congrArg₂ and rfl rfl

/-- The route of the joined path is that of the directory, up to the empty part behind a slash at its end. -/
theorem route_joinText (hname : '/' ∉ name.toList) (directory : String) :
    (∃ r : Route, route directory = r.join [""] ∧ route (joinText directory name) = r.join [name]) ∨
      route (joinText directory name) = (route directory).join [name] := by
  have hrelative : isabs name = false := by
    rw [Bool.eq_false_iff, isabs, ne_eq, PyText.startswith_iff]
    exact fun h => hname (h.subset (List.mem_singleton.mpr rfl))
  have habs : PyText.startswith name "/" = false := hrelative
  rw [joinText, habs, if_neg Bool.false_ne_true]
  by_cases hempty : directory = ""
  · subst hempty
    refine Or.inl ⟨⟨false, []⟩, rfl, ?_⟩
    rw [decide_eq_true rfl, Bool.true_or, if_pos rfl, String.empty_append, route, hrelative, parts_plain hname]
    rfl
  by_cases hslash : PyText.endswith directory "/" = true
  · obtain ⟨init, hinit⟩ := List.isSuffixOf_iff_suffix.mp hslash
    obtain rfl : directory = String.ofList init ++ "/" := by
      rw [← String.toList_inj, String.toList_append, String.toList_ofList, ← hinit]
    refine Or.inl ⟨⟨isabs (String.ofList init ++ "/"), parts (String.ofList init)⟩, ?_, ?_⟩
    · have hparts := parts_append (String.ofList init) ""
      rw [String.append_empty] at hparts
      rw [route, hparts]
      rfl
    · rw [hslash, Bool.or_true, if_pos rfl, route, isabs_append hempty, parts_append, parts_plain hname]
      rfl
  · rw [Bool.not_eq_true] at hslash
    rw [hslash, decide_eq_false hempty, Bool.or_false, if_neg Bool.false_ne_true]
    refine Or.inr ?_
    rw [route, parts_append, parts_plain hname, String.append_assoc, isabs_append hempty]
    rfl

theorem inside_of_plain (hnamed : Named name) (hname : '/' ∉ name.toList) : Inside name := by
  intro β v directory d hd
  have hentry : v.locate false (route (joinText directory name)) = some (d ++ [name]) := by
    rcases route_joinText hname directory with ⟨r, hr, hjoin⟩ | hjoin
    · rw [hr] at hd
      obtain ⟨e, k, he⟩ := hd.upper
      -- the empty part stays where the walk has come to
      have hstay : v.Reaches (r.join [""]) e := ⟨k, he.trans (.stay (Or.inl rfl) .here)⟩
      rw [hjoin, hd.unique hstay]
      exact Volume.Reaches.locate_join ⟨k, he⟩ hnamed
    · rw [hjoin]
      exact hd.locate_join hnamed
  refine ⟨hentry, fun hsession => ?_⟩
  by_contra hnode
  refine hsession ?_
  have hlstat : v.lstat (route (joinText directory name)) ≠ some .dir := by
    rwa [Volume.lstat, hentry, Option.bind_some]
  rw [sessionDir, if_neg hlstat, ite_self]

end Join

section Patterns

variable {name : String}

def Place.safe : Place → Bool
  | .char x => safeChar x
  | .digit => true

theorem Place.safe_of_takes {p : Place} (hp : p.safe = true) {c : Char} (hc : p.takes c = true) : safeChar c = true := by
  cases p with
  | char x => rwa [eq_of_beq hc]
  | digit =>
    have hdigit : c.isDigit = true := hc
    rw [safeChar, Char.isAlphanum, hdigit, Bool.or_true]
    rfl

theorem safe_of_fits {ps : List Place} {cs : List Char} (hps : ∀ p ∈ ps, p.safe = true) (h : fits ps cs = true) :
    ∀ c ∈ cs, safeChar c = true := by
  fun_induction fits ps cs with
  | case1 => exact List.forall_mem_nil _
  | case2 p ps c cs ih =>
    rw [Bool.and_eq_true] at h
    rw [List.forall_mem_cons] at hps ⊢
    exact ⟨Place.safe_of_takes hps.1 h.1, ih hps.2 h.2⟩
  | case3 => cases h

theorem head?_of_fits {x : Char} {ps : List Place} {cs : List Char} (h : fits (.char x :: ps) cs = true) :
    cs.head? = some x := by
  cases cs with
  | nil => cases h
  | cons c cs =>
    have hc : (c == x) = true := (Bool.and_eq_true_iff.mp h).1
    rw [List.head?_cons, eq_of_beq hc]

theorem matchLine_eq (hline : PyText.endswith name "\n" = false) (whole : List Char → Bool) :
    matchLine whole name = whole name.toList := by
  have hlast : name.toList.getLast? ≠ some '\n' := by
    intro h
    obtain ⟨init, hinit⟩ := List.getLast?_eq_some_iff.mp h
    rw [PyText.endswith, hinit] at hline
    exact absurd (List.isSuffixOf_iff_suffix.mpr (List.suffix_append _ _)) (Bool.eq_false_iff.mp hline)
  rw [matchLine, PyText.beforeDollar, if_neg hlast, Bool.or_self]

theorem classifyName_eq_some {kind : Kind} (h : classifyName name = some kind) :
    PyText.startswith name "." = false ∧ matchLine safeChars name = true ∧
      (kind = .frame → matchLine (fits frameName) name = true) ∧ (kind = .video → matchLine videoName name = true) := by
  unfold classifyName at h
  split_ifs at h with _ _ hparts hchars hframe hvideo
  all_goals
    cases h
    rw [Bool.not_eq_true, Bool.or_eq_false_iff, Bool.or_eq_false_iff] at hparts
    rw [Bool.not_eq_false] at hchars
  · exact ⟨hparts.1.1, hchars, fun _ => hframe, nofun⟩
  · exact ⟨hparts.1.1, hchars, nofun, fun _ => hvideo⟩

theorem endswith_of_videoName (h : videoName name.toList = true) : PyText.endswith name ".avi" = true := by
  cases hname : name.toList with
  | nil =>
    rw [hname] at h
    cases h
  | cons c cs =>
    rw [hname, videoName, Bool.and_eq_true, Bool.and_eq_true] at h
    have hsuffix := (List.isSuffixOf_iff_suffix.mp h.1.2).trans (List.suffix_cons c cs)
    rw [PyText.endswith, hname]
    exact List.isSuffixOf_iff_suffix.mpr hsuffix

/-- An accepted name that does not end in a line feed has one character at least, and only safe ones. -/
theorem plain_of_accepted (h : Accepted name) (hline : PyText.endswith name "\n" = false) :
    (∀ c ∈ name.toList, safeChar c = true) ∧ PyText.startswith name "." = false ∧ name ≠ "" := by
  rcases h with hmedia | hsession
  · obtain ⟨kind, hkind⟩ := Option.ne_none_iff_exists'.mp hmedia
    obtain ⟨hstart, hchars, -, -⟩ := classifyName_eq_some hkind
    rw [matchLine_eq hline, safeChars, Bool.and_eq_true, decide_eq_true_iff, List.all_eq_true] at hchars
    refine ⟨hchars.2, hstart, ?_⟩
    rintro rfl
    exact hchars.1 rfl
  · rw [validSessionName, matchLine_eq hline] at hsession
    have hhead : name.toList.head? = some 's' := head?_of_fits hsession
    refine ⟨safe_of_fits (by decide) hsession, ?_, ?_⟩
    · rw [Bool.eq_false_iff, ne_eq, PyText.startswith_iff]
      rintro ⟨rest, hrest⟩
      rw [← hrest] at hhead
      have hdot : some '.' = some 's' := hhead
      exact absurd hdot (by decide)
    · rintro rfl
      cases hhead

end Patterns

/-- A name that is accepted is safe exactly if it does not end in a line feed, which the `$` of the patterns
lets pass. -/
theorem accepted_safe_iff (name : String) (h : Accepted name) : Safe name ↔ PyText.endswith name "\n" = false := by
  constructor
  · intro hsafe
    rw [Bool.eq_false_iff]
    intro hline
    have hmem : '\n' ∈ name.toList := (List.isSuffixOf_iff_suffix.mp hline).subset (List.mem_singleton.mpr rfl)
    exact absurd (hsafe.chars _ hmem) (by decide)
  · intro hline
    obtain ⟨hchars, hstart, hne⟩ := plain_of_accepted h hline
    have hslash : '/' ∉ name.toList := fun hmem => absurd (hchars _ hmem) (by decide)
    have hnamed : Named name := by
      refine ⟨hne, ?_, ?_⟩
      · rintro rfl
        exact absurd hstart (by decide)
      · rintro rfl
        exact absurd hstart (by decide)
    refine ⟨hchars, hstart, fun hframe => ?_, fun hvideo => ?_, fun hsession => ?_, inside_of_plain hnamed hslash⟩
    · have hmatch := (classifyName_eq_some hframe).2.2.1 rfl
      rwa [matchLine_eq hline] at hmatch
    · have hmatch := (classifyName_eq_some hvideo).2.2.2 rfl
      rw [matchLine_eq hline] at hmatch
      exact endswith_of_videoName hmatch
    · rwa [validSessionName, matchLine_eq hline] at hsession

theorem accepted_safe_first_build : Accepted "timelapse_10-20-30-400.avi" ∧ Safe "timelapse_10-20-30-400.avi" := by
  have haccepted : Accepted "timelapse_10-20-30-400.avi" := Or.inl (by decide +kernel)
  exact ⟨haccepted, (accepted_safe_iff _ haccepted).mpr (by decide)⟩

theorem newline_accepted : classifyName "a.avi\n" = some .video ∧ validSessionName "session_20250101-120000\n" = true ∧
    ¬ Safe "a.avi\n" ∧ ¬ Safe "session_20250101-120000\n" := by
  refine ⟨by decide +kernel, by decide +kernel, fun h => ?_, fun h => ?_⟩
  · exact absurd (h.chars '\n' (by decide)) (by decide)
  · exact absurd (h.chars '\n' (by decide)) (by decide)

end PiBuddyCam.MediaNames
