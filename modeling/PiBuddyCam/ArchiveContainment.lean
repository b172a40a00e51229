import PiBuddyCam.ArchiveModel

/-! What the checks on the members of a bundle are worth: extraction of an accepted
archive stays in the destination. -/
namespace PiBuddyCam.Archive

open LinkTree

section Text

theorem replaceFrom_singleton (a b : Char) (cs : List Char) :
    PyText.replaceFrom [a] [b] 0 cs = cs.map fun c => if c = a then b else c := by
  induction cs with
  | nil => rfl
  | cons c cs ih =>
    rw [PyText.replaceFrom, List.isPrefixOf_cons_cons, List.isPrefixOf_nil_left, Bool.and_true, List.map_cons]
    by_cases hc : c = a
    · rw [if_pos (beq_iff_eq.mpr hc.symm), if_pos hc]
      exact congrArg (b :: ·) ih
    · rw [if_neg fun he => hc (beq_iff_eq.mp he).symm, if_neg hc, ih]

theorem splitOn_cons (a c : Char) (cs : List Char) :
    (c :: cs).splitOn a = if c = a then [] :: cs.splitOn a else (cs.splitOn a).modifyHead (c :: ·) := by
  rw [List.splitOn, List.splitOnP_cons_eq_if_modifyHead]
  simp only [beq_iff_eq]
  rfl

/-- The pieces of a text without the letter `b` are still there when each `b` becomes a
separator. The first piece is told apart because it is the one that letters join. -/
theorem splitOn_map (a b : Char) (cs : List Char) :
    ∃ h tl h' tl', cs.splitOn a = h :: tl ∧ (cs.map fun c => if c = b then a else c).splitOn a = h' :: tl' ∧
      (b ∉ h → h' = h) ∧ ∀ p ∈ tl, b ∉ p → p ∈ tl' := by
  induction cs with
  | nil => exact ⟨[], [], [], [], rfl, rfl, fun _ => rfl, fun _ hp => nomatch hp⟩
  | cons c cs ih =>
    obtain ⟨h, tl, h', tl', hsplit, hsplit', hhead, htail⟩ := ih
    have hpieces (p : List Char) (hp : p ∈ h :: tl) (hb : b ∉ p) : p ∈ h' :: tl' := by
      rcases List.mem_cons.mp hp with rfl | hp
      · rw [hhead hb]
        exact List.mem_cons_self
      · exact List.mem_cons_of_mem _ (htail p hp hb)
    rw [List.map_cons, splitOn_cons, splitOn_cons, hsplit, hsplit']
    by_cases hca : c = a
    · have hsep : (if c = b then a else c) = a := by split_ifs <;> trivial
      rw [if_pos hca, if_pos hsep]
      exact ⟨_, _, _, _, rfl, rfl, fun _ => rfl, hpieces⟩
    rw [if_neg hca]
    by_cases hcb : c = b
    · rw [if_pos hcb, if_pos rfl, List.modifyHead_cons]
      refine ⟨_, _, _, _, rfl, rfl, fun hb => absurd List.mem_cons_self (hcb ▸ hb), fun p hp hb => ?_⟩
      exact List.mem_cons_of_mem _ (htail p hp hb)
    · rw [if_neg hcb, if_neg hca, List.modifyHead_cons, List.modifyHead_cons]
      refine ⟨_, _, _, _, rfl, rfl, fun hb => ?_, htail⟩
      rw [hhead fun hmem => hb (List.mem_cons_of_mem _ hmem)]

theorem toList_normalized (name : String) :
    (normalized name).toList = name.toList.map fun c => if c = '\\' then '/' else c := by
  rw [normalized, PyText.replace, String.toList_ofList]
  exact replaceFrom_singleton '\\' '/' name.toList

/-- A component that the checks look for among those of the normalised name is not among
those of the name itself. -/
theorem dots_not_mem_parts {name : String} (h : (parts (normalized name)).contains ".." = false) :
    ".." ∉ parts name := by
  intro hmem
  obtain ⟨p, hp, hdots⟩ := List.mem_map.mp hmem
  obtain rfl : p = ['.', '.'] := by
    rw [← String.toList_ofList (l := p), hdots]
    rfl
  have hmem' : ['.', '.'] ∈ (normalized name).toList.splitOn '/' := by
    obtain ⟨h, tl, h', tl', hsplit, hsplit', hhead, htail⟩ := splitOn_map '/' '\\' name.toList
    rw [toList_normalized, hsplit']
    rw [hsplit] at hp
    rcases List.mem_cons.mp hp with rfl | hp
    · rw [hhead (by decide)]
      exact List.mem_cons_self
    · exact List.mem_cons_of_mem _ (htail _ hp (by decide))
  have hcontains : (parts (normalized name)).contains ".." = true :=
    List.contains_iff_mem.mpr (List.mem_map.mpr ⟨_, hmem', rfl⟩)
  rw [hcontains] at h
  exact nomatch h

theorem rstrip_parts_ne_nil {name : String} (hname : name ≠ "") (hrel : isabs name = false) :
    rstrip (parts name) ≠ [] := by
  cases hchars : name.toList with
  | nil => exact absurd (String.toList_eq_nil_iff.mp hchars) hname
  | cons c cs =>
    have hc : c ≠ '/' := by
      rintro rfl
      rw [isabs, PyText.startswith, hchars] at hrel
      exact Bool.false_ne_true hrel.symm
    obtain ⟨h, tl, hsplit⟩ := List.exists_cons_of_ne_nil (List.splitOnP_ne_nil (· == '/') cs)
    have hmem : String.ofList (c :: h) ∈ parts name := by
      rw [parts, hchars, splitOn_cons, if_neg hc, List.splitOn, hsplit, List.modifyHead_cons]
      exact List.mem_cons_self
    intro hnil
    have hempty := List.rdropWhile_eq_nil_iff.mp hnil _ hmem
    have hchars' := congrArg String.toList (of_decide_eq_true hempty)
    rw [String.toList_ofList] at hchars'
    cases hchars'

theorem mem_of_mem_rstrip {p : String} {ps : List String} (h : p ∈ rstrip ps) : p ∈ ps :=
  (List.rdropWhile_prefix _ ps).subset h

end Text

section Acceptance

variable {β : Type} {t : LinkTree.Tree β}

theorem of_escapes_eq_false {base : Path} {name : String} (h : escapes t base name = .ok false) :
    name ≠ "" ∧ isabs name = false ∧ ".." ∉ parts name := by
  unfold escapes at h
  split_ifs at h with hempty habs hdots
  · exact absurd h (by simp)
  · exact absurd h (by simp)
  · exact absurd h (by simp)
  rw [Bool.or_eq_true, not_or, Bool.not_eq_true, Bool.not_eq_true] at habs
  exact ⟨hempty, habs.2, dots_not_mem_parts (Bool.not_eq_true _ ▸ hdots)⟩

variable {destReal : Path}

theorem of_validateLink_ok {m : Member} {name : String} (h : validateLink t m name destReal = .ok ()) :
    (route m.linkname.text).Descends := by
  unfold validateLink at h
  split at h
  · rename_i linkname hlink
    split_ifs at h with _ habs hdots
    rw [Bool.or_eq_true, not_or, Bool.not_eq_true, Bool.not_eq_true] at habs
    rw [hlink]
    exact ⟨habs.2, dots_not_mem_parts (Bool.not_eq_true _ ▸ hdots)⟩
  · exact nomatch h

structure Accepted (m : Member) : Prop where
  named : m.name.text ≠ ""
  relative : isabs m.name.text = false
  descends : ".." ∉ parts m.name.text
  link : m.type = .sym ∨ m.type = .lnk → (route m.linkname.text).Descends

theorem of_checkSize_ok {m : Member} {size : ℤ} (h : checkSize m = .ok size) : size = m.declaredSize := by
  unfold checkSize Attr.orZero at h
  unfold Member.declaredSize
  cases hsize : m.size with
  | missing =>
    rw [hsize] at h
    exact (Except.ok.inj h).symm
  | int n =>
    rw [hsize] at h
    dsimp only at h
    split_ifs at h
    exact (Except.ok.inj h).symm
  | bool b | str s | other =>
    rw [hsize] at h
    exact nomatch h

theorem of_refuse_ok {condition : Bool} {reason : String} (h : refuse condition reason = .ok ()) :
    condition = false := by
  cases condition with
  | false => rfl
  | true => exact nomatch h

theorem of_validateMember_ok {m : Member} {size : ℤ} (h : validateMember t m destReal = .ok size) :
    Accepted m ∧ size = m.declaredSize := by
  unfold validateMember at h
  split at h
  · rename_i name hname
    split_ifs at h
    obtain ⟨escaping, hescapes, h⟩ := Except.exists_of_bind_eq_ok h
    obtain ⟨_, hrefuse, h⟩ := Except.exists_of_bind_eq_ok h
    obtain ⟨_, _, h⟩ := Except.exists_of_bind_eq_ok h
    obtain ⟨_, _, h⟩ := Except.exists_of_bind_eq_ok h
    obtain ⟨_, _, h⟩ := Except.exists_of_bind_eq_ok h
    obtain ⟨size', hsize, h⟩ := Except.exists_of_bind_eq_ok h
    obtain ⟨_, hlink, h⟩ := Except.exists_of_bind_eq_ok h
    obtain rfl : size' = size := Except.ok.inj h
    obtain rfl := of_refuse_ok hrefuse
    obtain ⟨hnamed, hrel, hdots⟩ := of_escapes_eq_false hescapes
    refine ⟨⟨?_, ?_, ?_, fun htype => ?_⟩, of_checkSize_ok hsize⟩
    · rwa [hname]
    · rwa [hname]
    · rwa [hname]
    · have hcheck : (m.type == .sym || m.type == .lnk) = true := by
        rcases htype with htype | htype <;> rw [htype] <;> rfl
      rw [checkLink, if_pos hcheck] at hlink
      exact of_validateLink_ok hlink
  · exact nomatch h

theorem of_validateLoop_ok {members : List Member} {count : ℕ} {total : ℤ}
    (htotal : total ≤ maxTotalExtractedSize) (h : validateLoop t destReal count total members = .ok ()) :
    (∀ m ∈ members, Accepted m) ∧ total + (members.map Member.declaredSize).sum ≤ maxTotalExtractedSize := by
  induction members generalizing count total with
  | nil => exact ⟨List.forall_mem_nil _, by simpa using htotal⟩
  | cons m members ih =>
    unfold validateLoop at h
    split_ifs at h
    obtain ⟨size, hmember, h⟩ := Except.exists_of_bind_eq_ok h
    obtain ⟨_, hrefuse, h⟩ := Except.exists_of_bind_eq_ok h
    obtain ⟨haccepted, rfl⟩ := of_validateMember_ok hmember
    have hle : total + m.declaredSize ≤ maxTotalExtractedSize :=
      Int.not_lt.mp (of_decide_eq_false (of_refuse_ok hrefuse))
    obtain ⟨hall, hsum⟩ := ih hle h
    refine ⟨List.forall_mem_cons.mpr ⟨haccepted, hall⟩, ?_⟩
    rwa [List.map_cons, List.sum_cons, ← Int.add_assoc]

theorem of_validateArchiveMembers_ok {cwd : Path} {members : List Member} {dest : String}
    (h : validateArchiveMembers t cwd (some members) dest = .ok ()) :
    (∀ m ∈ members, Accepted m) ∧ (members.map Member.declaredSize).sum ≤ maxTotalExtractedSize := by
  unfold validateArchiveMembers at h
  split_ifs at h
  dsimp only at h
  split at h
  · exact nomatch h
  · have hloop := of_validateLoop_ok (by decide) h
    rwa [Int.zero_add] at hloop

end Acceptance

section Calls

variable {dest target : Route} {ps : List String}

theorem below_join (hne : ps ≠ []) (hdots : ".." ∉ ps) : dest.Below (dest.join ps) :=
  ⟨ps, hne, hdots, rfl⟩

theorem makedir_within (ht : dest.Below target) : (makedir target).Within (Call.Below dest) := by
  refine .opBind ht fun (r : Except Fault Unit) => ?_
  match r with
  | .error .fileExists =>
    refine .opBind trivial fun (b : Bool) => ?_
    cases b <;> trivial
  | .error .other | .ok () => trivial

theorem mkdirExistOk_within (ht : dest.Below target) : (mkdirExistOk target).Within (Call.Below dest) := by
  refine .opBind ht fun (r : Except Fault Unit) => ?_
  cases r with
  | ok _ => trivial
  | error e =>
    refine .opBind trivial fun (b : Bool) => ?_
    cases b <;> trivial

theorem makedirs_within (hdots : ".." ∉ ps) : (makedirs dest ps).Within (Call.Below dest) := by
  induction ps with
  | nil => trivial
  | cons tail head ih =>
    have hhead := ih fun hmem => hdots (List.mem_cons_of_mem _ hmem)
    have hhere : (mkdirExistOk (dest.join (tail :: head).reverse)).Within (Call.Below dest) :=
      mkdirExistOk_within (below_join (by simp) fun hmem => hdots (List.mem_reverse.mp hmem))
    unfold makedirs
    split
    · exact hhead
    split
    · exact hhere
    refine .opBind trivial fun (b : Bool) => ?_
    cases b with
    | true => exact hhere
    | false =>
      refine hhead.bind fun r => ?_
      split
      · trivial
      split
      · trivial
      · exact hhere

theorem makeUpper_within (hdots : ".." ∉ ps) : (makeUpper dest ps).Within (Call.Below dest) := by
  unfold makeUpper
  dsimp only
  split_ifs
  · trivial
  refine .opBind trivial fun (b : Bool) => ?_
  cases b
  · refine makedirs_within fun hmem => hdots ?_
    exact List.mem_of_mem_dropLast (mem_of_mem_rstrip (List.mem_reverse.mp hmem))
  · trivial

theorem replacing_within {make : Run (Except Fault Unit)} (ht : dest.Below target)
    (hmake : make.Within (Call.Below dest)) : (replacing target make).Within (Call.Below dest) := by
  refine .opBind trivial fun (b : Bool) => ?_
  cases b
  · exact hmake
  refine .opBind ht fun (r : Except Fault Unit) => ?_
  cases r
  · trivial
  · exact hmake

theorem makePlain_within {m : Member} (ht : dest.Below target) (hm : Accepted m) :
    (makePlain target m).Within (Call.Below dest) := by
  unfold makePlain
  split
  · exact makedir_within ht
  · rename_i htype
    exact replacing_within ht ⟨⟨hm.link (Or.inl htype), ht⟩, fun _ => trivial⟩
  all_goals first | trivial | exact ⟨ht, fun _ => trivial⟩

theorem makeHardlink_within {linkname : String} {fallback : Run (Except Fault Unit)} (ht : dest.Below target)
    (hlink : (route linkname).Descends) (hfallback : fallback.Within (Call.Below dest)) :
    (makeHardlink dest target linkname fallback).Within (Call.Below dest) := by
  have hsrc : dest.Below (joinPath dest linkname) := by
    rw [joinPath, if_neg (Bool.not_eq_true _ ▸ hlink.1)]
    refine below_join ?_ hlink.2
    exact fun h => List.splitOnP_ne_nil _ _ (List.map_eq_nil_iff.mp h)
  refine .opBind trivial fun (b : Bool) => ?_
  cases b
  · exact hfallback
  · exact replacing_within ht ⟨⟨hsrc, ht⟩, fun _ => trivial⟩

attribute [local irreducible] makeUpper

theorem extractEarlier_within {below : List String} (hne : below ≠ []) (hdots : ".." ∉ below)
    {earlier : List Member} (hearlier : ∀ m ∈ earlier, Accepted m) (linkname : String) :
    (extractEarlier dest below earlier linkname).Within (Call.Below dest) := by
  have ht : dest.Below (dest.join below) := below_join hne hdots
  induction earlier generalizing linkname with
  | nil => trivial
  | cons m earlier ih =>
    obtain ⟨hm, hearlier⟩ := List.forall_mem_cons.mp hearlier
    unfold extractEarlier
    split
    · refine (makeUpper_within hdots).bind fun r => ?_
      cases r with
      | error e => trivial
      | ok _ =>
        split_ifs with htype
        · exact makeHardlink_within ht (hm.link (Or.inr htype)) (ih hearlier _)
        · exact makePlain_within ht hm
    · exact ih hearlier linkname

theorem extractMember_within {earlier : List Member} (hearlier : ∀ m ∈ earlier, Accepted m) {m : Member}
    (hm : Accepted m) : (extractMember dest earlier m).Within (Call.Below dest) := by
  have hne := rstrip_parts_ne_nil hm.named hm.relative
  have hdots : ".." ∉ rstrip (parts m.name.text) := fun hmem => hm.descends (mem_of_mem_rstrip hmem)
  have ht : dest.Below (dest.join (rstrip (parts m.name.text))) := below_join hne hdots
  refine (makeUpper_within hdots).bind fun r => ?_
  cases r with
  | error e => trivial
  | ok _ =>
    split_ifs with htype
    · exact makeHardlink_within ht (hm.link (Or.inr htype)) (extractEarlier_within hne hdots hearlier _)
    · exact makePlain_within ht hm

attribute [local irreducible] extractMember

theorem extractAll_within {earlier members : List Member} (hearlier : ∀ m ∈ earlier, Accepted m)
    (hmembers : ∀ m ∈ members, Accepted m) : (extractAll dest earlier members).Within (Call.Below dest) := by
  induction members generalizing earlier with
  | nil => trivial
  | cons m members ih =>
    obtain ⟨hm, hmembers⟩ := List.forall_mem_cons.mp hmembers
    refine .bind (extractMember_within hearlier hm) fun r => ?_
    cases r with
    | error e => trivial
    | ok _ =>
      have hseen : ∀ x ∈ m :: earlier, Accepted x := List.forall_mem_cons.mpr ⟨hm, hearlier⟩
      exact ih hseen hmembers

end Calls

theorem below_dropLast {d p : Path} (hp : d <+: p) (hne : d ≠ p) : d <+: p.dropLast := by
  rcases List.eq_nil_or_concat' p with rfl | ⟨init, last, rfl⟩
  · exact absurd (List.prefix_nil.mp hp) hne
  · rw [List.dropLast_concat]
    exact (List.prefix_concat_iff.mp hp).resolve_left hne

def extracted (cwd : Path) (dest : String) (members : List Member) (cs : List Choice) (t : LinkTree.Tree Content) :
    LinkTree.Tree Content :=
  ((extractAll (route dest) [] members).exec (fileSystem Content cwd) cs t).2

/-- Extraction of an archive that the validator accepted, into a directory `d` without
links: at every point of it the entries outside are as they were, a file that has names
only outside has its content and gets no name inside, and no link inside leads out. The
declared sizes add up to at most the limit. -/
theorem accepted_archive_stays_inside {t0 t : LinkTree.Tree Content} {cwd0 cwd d : Path} {dest : String}
    {members : List Member} {k : ℕ} (haccepted : validateArchiveMembers t0 cwd0 (some members) dest = .ok ())
    (hdest : t.Enters LinkTree.Tree.maxLinks ((route dest).start cwd) (parts dest) d k) (hdir : t.node d = some .dir)
    (hplain : t.Plain d) (cs : List Choice) :
    (∀ p, ¬ d <+: p → (extracted cwd dest members cs t).node p = t.node p) ∧
      (∀ p i, t.node p = some (.file i) → (∀ q, d <+: q → t.node q ≠ some (.file i)) →
        (extracted cwd dest members cs t).data i = t.data i ∧
          ∀ q, d <+: q → (extracted cwd dest members cs t).node q ≠ some (.file i)) ∧
      (∀ p target, d <+: p → (extracted cwd dest members cs t).node p = some (.link target) →
        ∀ follow n q, (extracted cwd dest members cs t).walk follow n (target.start p.dropLast) target.parts = some q →
          d <+: q) ∧
      (members.map Member.declaredSize).sum ≤ maxTotalExtractedSize := by
  obtain ⟨hmembers, hsum⟩ := of_validateArchiveMembers_ok haccepted
  have hwithin : (extractAll (route dest) [] members).Within (Call.Below (route dest)) :=
    extractAll_within (List.forall_mem_nil _) hmembers
  have hconf : t.Confined d (extracted cwd dest members cs t) :=
    ((confined_of_within hwithin hplain hdest).exec (.refl hplain) fun _ _ => trivial).1
  refine ⟨hconf.outside, fun p i hp hout => ?_, fun p target hp hlink follow n q hq => ?_, hsum⟩
  · have hown : ¬ t.Own d i := by
      rintro (hnew | ⟨q, hq, hnode⟩)
      · exact absurd (t.used p i hp) (Nat.not_lt.mpr hnew)
      · exact hout q hq hnode
    exact ⟨hconf.data i hown, fun q hq hnode => hown (hconf.files q i hq hnode)⟩
  · have hne : d ≠ p := by
      rintro rfl
      exact nomatch (hconf.dirs d hdir).symm.trans hlink
    obtain ⟨hrel, hdots⟩ := hconf.links p target hp hlink
    refine LinkTree.Tree.walk_below hconf.links follow n ?_ hdots hq
    rw [Route.start, hrel]
    exact below_dropLast hp hne

/-- An empty `/srv/app`, next to `/etc/passwd`. -/
def sampleTree : LinkTree.Tree Content where
  node p :=
    if p = [] ∨ p = ["etc"] ∨ p = ["srv"] ∨ p = ["srv", "app"] then some .dir
    else if p = ["etc", "passwd"] then some (.file 0) else none
  data _ := [1]
  next := 1
  root := by decide
  used p i := by
    split_ifs <;> simp +contextual [eq_comm]

theorem sampleTree_plain : sampleTree.Plain ["srv", "app"] := by
  intro p target _
  dsimp only [sampleTree]
  split_ifs <;> simp

def sampleMembers : List Member :=
  [{ name := .str "sub/", type := .dir }, { name := .str "l", type := .sym, linkname := .str "sub" },
    { name := .str "l/x", type := .reg, size := .int 1, data := [7] },
    { name := .str "h", type := .lnk, linkname := .str "l/x" }]

theorem sampleMembers_stay_inside :
    (extracted [] "/srv/app" sampleMembers (List.replicate 20 {}) sampleTree).node ["srv", "app", "h"] =
        some (.file 1) ∧
      ∀ p, ¬ ["srv", "app"] <+: p →
        (extracted [] "/srv/app" sampleMembers (List.replicate 20 {}) sampleTree).node p = sampleTree.node p := by
  have haccepted : validateArchiveMembers sampleTree [] (some sampleMembers) "/srv/app" = .ok () := by
    decide +kernel
  have hdest : sampleTree.Enters LinkTree.Tree.maxLinks [] ["", "srv", "app"] ["srv", "app"] LinkTree.Tree.maxLinks :=
    .stay (Or.inl rfl) (.down (by decide) (by decide) (by decide) (by decide)
      (.down (by decide) (by decide) (by decide) (by decide) .here))
  have hinside := @accepted_archive_stays_inside _ _ [] [] _ _ _ _ haccepted hdest (by decide) sampleTree_plain
    (List.replicate 20 {})
  exact ⟨by decide +kernel, hinside.1⟩

end PiBuddyCam.Archive
