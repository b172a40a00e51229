import PiBuddyCam.UpdaterFrame

/-! The invariant of the releases directory: both links are absent or lead to a
directory that a release can run from. -/
namespace PiBuddyCam.Updater

def Live (d : Disk) (l : Loc) : Prop :=
  l = factoryApp ∨ ∃ version files, l = .entry version ∧ isSemver version = true ∧ d.node version = some (.dir files)

def LinkOk (d : Disk) (link : String) : Prop :=
  d.node link = none ∨ ∃ l, d.node link = some (.link l) ∧ Live d l

theorem LinkOk.live {d : Disk} {link : String} {l : Loc} (h : LinkOk d link) (hl : d.node link = some (.link l)) :
    Live d l := by
  rcases h with hnone | ⟨l', hl', hlive⟩
  · exact nomatch hnone.symm.trans hl
  · rw [Node.link.inj (Option.some.inj (hl.symm.trans hl'))]
    exact hlive

theorem Live.version {d : Disk} {version : String} (h : Live d (.entry version)) :
    isSemver version = true ∧ ∃ files, d.node version = some (.dir files) := by
  rcases h with hf | ⟨v, files, hv, hsem, hdir⟩
  · exact nomatch hf
  · rw [Loc.entry.inj hv]
    exact ⟨hsem, files, hdir⟩

structure WellFormed (d : Disk) : Prop where
  factory : d.isdir factoryApp = true
  current : LinkOk d currentLink
  previous : LinkOk d previousLink

/-- The entries that the two links need: themselves and what they point at. -/
def Kept (d : Disk) (x : String) : Prop :=
  x = currentLink ∨ x = previousLink ∨ d.node currentLink = some (.link (.entry x)) ∨
    d.node previousLink = some (.link (.entry x))

theorem isSemver_ne {version x : String} {c : Char} (hv : isSemver version = true) (hx : x.toList.head? = some c)
    (hc : isDigit c = false) : version ≠ x := by
  intro he
  obtain ⟨c', hc', hdigit⟩ := head?_of_isSemver version hv
  rw [he, hx] at hc'
  rw [Option.some.inj hc', hdigit] at hc
  exact Bool.noConfusion hc

variable {link : String}

theorem head?_tmpLink (pid : ℕ) {c : Char} (h : link.toList.head? = some c) :
    (tmpLink pid link).toList.head? = some c := by
  cases hl : link.toList with
  | nil => simp [hl] at h
  | cons a l =>
    rw [hl] at h
    simpa [tmpLink, hl] using h

theorem head?_of_isPrefix {p x : List Char} {c : Char} (h : p <+: x) (hp : p.head? = some c) : x.head? = some c := by
  obtain ⟨r, rfl⟩ := h
  cases p with
  | nil => simp at hp
  | cons a p => simpa using hp

theorem head?_of_isStagingName {x : String} (h : isStagingName x = true) : x.toList.head? = some '.' := by
  have hstart := (PyText.startswith_iff x ".").mp (Bool.and_eq_true _ _ ▸ h).1
  exact head?_of_isPrefix hstart (by decide)

variable {d : Disk}

/-- A kept name is a link's name or a version, so it starts with none of the characters
that a temporary, hidden or staging name starts with. -/
theorem head?_of_kept (hd : WellFormed d) {x : String} (hx : Kept d x) (hcur : x ≠ currentLink)
    (hprev : x ≠ previousLink) : isSemver x = true := by
  rcases hx with rfl | rfl | h | h
  · exact absurd rfl hcur
  · exact absurd rfl hprev
  · exact (hd.current.live h).version.1
  · exact (hd.previous.live h).version.1

theorem not_kept_of_dot (hd : WellFormed d) {x : String} (hx : x.toList.head? = some '.') :
    ¬ Kept d x := by
  intro hk
  have hcur : x ≠ currentLink := by
    rintro rfl
    exact absurd hx (by decide)
  have hprev : x ≠ previousLink := by
    rintro rfl
    exact absurd hx (by decide)
  exact isSemver_ne (head?_of_kept hd hk hcur hprev) hx (by decide) rfl

theorem not_kept_of_tmpLink (hd : WellFormed d) (pid : ℕ) (link : String)
    (hlink : link = currentLink ∨ link = previousLink) : ¬ Kept d (tmpLink pid link) := by
  intro hk
  have hhead : ∃ c, (tmpLink pid link).toList.head? = some c ∧ isDigit c = false := by
    rcases hlink with rfl | rfl
    · exact ⟨'c', head?_tmpLink pid (by decide), by decide⟩
    · exact ⟨'p', head?_tmpLink pid (by decide), by decide⟩
  obtain ⟨c, hc, hdigit⟩ := hhead
  have hne (other : String) (hother : other = currentLink ∨ other = previousLink) : tmpLink pid link ≠ other := by
    intro he
    have hlen := congrArg (fun s => s.toList.length) he
    rcases hlink with rfl | rfl <;> rcases hother with rfl | rfl <;>
      simp [tmpLink, currentLink, previousLink] at hlen
  exact isSemver_ne (head?_of_kept hd hk (hne _ (Or.inl rfl)) (hne _ (Or.inr rfl))) hc hdigit rfl

theorem follow_outside (d : Disk) (fuel : ℕ) (path : String) : d.follow fuel (.outside path) = .outside path := by
  cases fuel with
  | zero => rfl
  | succ n => rfl

variable {l : Loc}

theorem follow_live (hl : Live d l) (fuel : ℕ) : d.follow fuel l = l := by
  rcases hl with rfl | ⟨v, files, rfl, _, hdir⟩
  · exact follow_outside d fuel _
  · cases fuel with
    | zero => rfl
    | succ n => simp only [Disk.follow, hdir]

theorem realpath_link (hlink : d.node link = some (.link l)) (hl : Live d l) :
    d.realpath (.entry link) = l := by
  simp only [Disk.realpath, Disk.follow, hlink]
  exact follow_live hl 39

theorem isdir_live (hd : WellFormed d) (hl : Live d l) : d.isdir l = true := by
  have hreal : d.realpath l = l := follow_live hl 40
  rcases hl with rfl | ⟨v, files, rfl, _, hdir⟩
  · exact hd.factory
  · simp only [Disk.isdir, hreal, hdir]

theorem isdir_link (hd : WellFormed d) (hlink : d.node link = some (.link l))
    (hl : Live d l) : d.isdir (.entry link) = true := by
  have h := isdir_live hd hl
  rw [Disk.isdir, show d.realpath l = l from follow_live hl 40] at h
  rw [Disk.isdir, realpath_link hlink hl]
  exact h

theorem currentTarget_link (hd : WellFormed d) (hlink : d.node currentLink = some (.link l))
    (hl : Live d l) : currentTarget d = l := by
  simp only [currentTarget, realpath_link hlink hl, isdir_live hd hl, if_pos]

theorem currentTarget_none (hnone : d.node currentLink = none) : currentTarget d = factoryApp := by
  have hreal : d.realpath (.entry currentLink) = .entry currentLink := by
    simp only [Disk.realpath, Disk.follow, hnone]
  have hdir : d.isdir (.entry currentLink) = false := by
    simp only [Disk.isdir, hreal, hnone]
  simp only [currentTarget, hreal, hdir, Bool.false_eq_true, if_false]

theorem live_currentTarget (hd : WellFormed d) : Live d (currentTarget d) := by
  rcases hd.current with hnone | ⟨l, hlink, hl⟩
  · rw [currentTarget_none hnone]
    exact Or.inl rfl
  · rw [currentTarget_link hd hlink hl]
    exact hl

variable {d d' : Disk}

theorem Live.of_node (hl : Live d l)
    (hnode : ∀ x, l = .entry x → d'.node x = d.node x) : Live d' l := by
  rcases hl with rfl | ⟨v, files, rfl, hsem, hdir⟩
  · exact Or.inl rfl
  · exact Or.inr ⟨v, files, rfl, hsem, (hnode v rfl).trans hdir⟩

theorem Live.of_versions (hl : Live d l) (hnode : ∀ x, isSemver x = true → d'.node x = d.node x) : Live d' l := by
  apply hl.of_node
  rintro x rfl
  exact hnode x hl.version.1

theorem LinkOk.of_node (h : LinkOk d link) (hnode : d'.node link = d.node link)
    (hlive : ∀ l, d.node link = some (.link l) → Live d l → Live d' l) : LinkOk d' link := by
  rcases h with hnone | ⟨l, hsome, hl⟩
  · exact Or.inl (hnode.trans hnone)
  · exact Or.inr ⟨l, hnode.trans hsome, hlive l hsome hl⟩

theorem isdir_factory_of_outsideDirs (h : d'.outsideDirs = d.outsideDirs) :
    d'.isdir factoryApp = d.isdir factoryApp := by
  simp only [Disk.isdir, Disk.realpath, factoryApp, follow_outside, h]

theorem WellFormed.of_frame (hd : WellFormed d) (h : Frame (fun x => ¬ Kept d x) d d') :
    WellFormed d' := by
  have hkeep (x : String) (hx : Kept d x) : d'.node x = d.node x := h.node x (not_not.mpr hx)
  have hlink (link : String) (hk : Kept d link) (hok : LinkOk d link)
      (hpoint : ∀ x, d.node link = some (.link (.entry x)) → Kept d x) : LinkOk d' link := by
    refine hok.of_node (hkeep link hk) fun l hl hlive => hlive.of_node ?_
    rintro x rfl
    exact hkeep x (hpoint x hl)
  exact
    { factory := (isdir_factory_of_outsideDirs h.outsideDirs).trans hd.factory
      current := hlink _ (Or.inl rfl) hd.current (fun x hx => Or.inr (Or.inr (Or.inl hx)))
      previous := hlink _ (Or.inr (Or.inl rfl)) hd.previous (fun x hx => Or.inr (Or.inr (Or.inr hx))) }

theorem kept_of_frame (h : Frame (fun x => ¬ Kept d x) d d') (x : String) : Kept d' x ↔ Kept d x := by
  have hcur := h.node currentLink (not_not.mpr (Or.inl rfl))
  have hprev := h.node previousLink (not_not.mpr (Or.inr (Or.inl rfl)))
  simp only [Kept, hcur, hprev]

theorem currentTarget_congr (hd : WellFormed d) (hd' : WellFormed d')
    (h : d'.node currentLink = d.node currentLink) : currentTarget d' = currentTarget d := by
  rcases hd.current with hnone | ⟨l, hlink, hl⟩
  · rw [currentTarget_none hnone, currentTarget_none (h.trans hnone)]
  · have hlink' := h.trans hlink
    rw [currentTarget_link hd hlink hl, currentTarget_link hd' hlink' (hd'.current.live hlink')]

theorem currentTarget_of_frame (hd : WellFormed d) (h : Frame (fun x => ¬ Kept d x) d d') :
    currentTarget d' = currentTarget d :=
  currentTarget_congr hd (hd.of_frame h) (h.node currentLink (not_not.mpr (Or.inl rfl)))

theorem WellFormed.of_swap (hd : WellFormed d) {target : Loc} (hlink : link = currentLink ∨ link = previousLink)
    (hlive : Live d target) (hframe : Frame (· = link) d d') (hnew : d'.node link = some (.link target)) :
    WellFormed d' := by
  have hne (x : String) (hx : isSemver x = true) : x ≠ link := by
    rintro rfl
    rcases hlink with rfl | rfl <;> exact absurd hx (by decide)
  have hkeepLive (l : Loc) (hl : Live d l) : Live d' l := hl.of_versions fun x hx => hframe.node x (hne x hx)
  have hother (other : String) (hok : LinkOk d other) : LinkOk d' other := by
    by_cases he : other = link
    · rw [he]
      exact Or.inr ⟨target, hnew, hkeepLive target hlive⟩
    · exact hok.of_node (hframe.node other he) fun l _ => hkeepLive l
  exact
    { factory := (isdir_factory_of_outsideDirs hframe.outsideDirs).trans hd.factory
      current := hother _ hd.current
      previous := hother _ hd.previous }

theorem WellFormed.of_drop (hd : WellFormed d) : WellFormed (d.del currentLink) := by
  refine ⟨(isdir_factory_of_outsideDirs rfl).trans hd.factory, Or.inl (d.node_del_self _), ?_⟩
  refine hd.previous.of_node (d.node_del_of_ne (by decide)) fun l _ hl => hl.of_versions fun x hx => ?_
  exact d.node_del_of_ne (isSemver_ne hx (c := 'c') (by decide) (by decide))

end PiBuddyCam.Updater
