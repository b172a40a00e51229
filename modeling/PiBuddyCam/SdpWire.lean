import PiBuddyCam.SdpMids

/-! The wire form of an SDP text: the ids are replaced by their numbers in all places at once, and the inverse
mapping gives the text back. -/
namespace PiBuddyCam.Sdp

open LineRegex

section Renaming

variable {f g : Text → Text} {line out : Text}

def Names (line id : Text) : Prop :=
  (∃ rest, MidLine line id rest) ∨ ∃ semantics ids rest, GroupLine line semantics ids rest ∧ id ∈ ids

theorem Renamed.congr (h : Renamed f line out) (hfg : ∀ id, Names line id → f id = g id) : Renamed g line out := by
  cases h with
  | mid h =>
    rw [hfg _ (.inl ⟨_, h⟩)]
    exact .mid h
  | group h =>
    rw [List.map_congr_left fun id hid => hfg id (.inr ⟨_, _, _, h, hid⟩)]
    exact .group h
  | other hmid hgroup => exact .other hmid hgroup

variable {id semantics rest : Text} {ids : List Text} (hword : ∀ id, Word id → Word (f id))

include hword

theorem MidLine.rename (h : MidLine line id rest) : MidLine (midKey ++ f id ++ rest) (f id) rest :=
  ⟨rfl, hword id h.id, h.stops⟩

theorem GroupLine.rename (h : GroupLine line semantics ids rest) :
    GroupLine (groupKey ++ semantics ++ blankWords (ids.map f) ++ rest) semantics (ids.map f) rest := by
  refine ⟨rfl, h.semantics, ⟨fun hnil => h.ids.1 (List.map_eq_nil_iff.mp hnil), ?_⟩, h.ends⟩
  exact List.forall_mem_map.mpr fun id hid => hword id (h.ids.2 id hid)

theorem Renamed.inverse (h : Renamed f line out) (hgf : ∀ id, Names line id → g (f id) = id) : Renamed g out line := by
  cases h with
  | mid h =>
    rename_i id rest
    have hback : line = midKey ++ g (f id) ++ rest := by
      rw [hgf id (.inl ⟨rest, h⟩)]
      exact h.eq
    rw [hback]
    exact .mid (h.rename hword)
  | group h =>
    rename_i semantics rest ids
    have hback : line = groupKey ++ semantics ++ blankWords ((ids.map f).map g) ++ rest := by
      have hids : (ids.map f).map g = ids := by
        rw [List.map_map]
        exact (List.map_congr_left fun id hid => hgf id (.inr ⟨_, _, _, h, hid⟩)).trans (List.map_id ids)
      rw [hids]
      exact h.eq
    rw [hback]
    exact .group (h.rename hword)
  | other hmid hgroup => exact .other hmid hgroup

theorem Renamed.newline (h : Renamed f line out) (hline : '\n' ∉ line) : '\n' ∉ out := by
  cases h with
  | mid h =>
    rw [h.eq] at hline
    simp only [List.mem_append, not_or] at hline ⊢
    exact ⟨⟨hline.1.1, (h.rename hword).id.newline⟩, hline.2⟩
  | group h =>
    rw [h.eq] at hline
    simp only [List.mem_append, not_or] at hline ⊢
    exact ⟨⟨hline.1.1, newline_blankWords (h.rename hword).ids.2⟩, hline.2⟩
  | other hmid hgroup => exact hline

theorem Renamed.midLine_eq (h : Renamed f line out) :
    (midLine out).map Match.groups = ((midLine line).map Match.groups).map f := by
  cases h with
  | mid h =>
    rw [(h.rename hword).match_eq, h.match_eq]
    rfl
  | group h =>
    rw [midLine_eq_none fun _ _ => (h.rename hword).not_midLine, midLine_eq_none fun _ _ => h.not_midLine]
    rfl
  | other hmid hgroup =>
    rw [midLine_eq_none hmid]
    rfl

omit hword

theorem Renamed.eq_of_eq_self (h : Renamed f line out) (hf : ∀ id, f id = id) : out = line := by
  cases h with
  | mid h => rw [hf, h.eq]
  | group h => rw [(List.map_congr_left fun id _ => hf id).trans (List.map_id _), h.eq]
  | other hmid hgroup => rfl

theorem exists_renamed (f : Text → Text) (line : Text) : ∃ out, Renamed f line out := by
  by_cases hmid : ∃ id rest, MidLine line id rest
  · obtain ⟨id, rest, h⟩ := hmid
    exact ⟨_, .mid h⟩
  by_cases hgroup : ∃ semantics ids rest, GroupLine line semantics ids rest
  · obtain ⟨semantics, ids, rest, h⟩ := hgroup
    exact ⟨_, .group h⟩
  exact ⟨line, .other (fun id rest h => hmid ⟨id, rest, h⟩) fun semantics ids rest h => hgroup ⟨semantics, ids, rest, h⟩⟩

def renameMid (f : Text → Text) : Text → Text := subLine midLine fun id => midKey ++ f id

def renameGroup (f : Text → Text) : Text → Text :=
  subLine groupLine fun g => g.1 ++ ' ' :: [' '].intercalate (g.2.map f)

/-- Of the two substitutions at most one changes a line. -/
theorem Renamed.eq (h : Renamed f line out) : renameGroup f (renameMid f line) = out := by
  cases h with
  | mid h =>
    rename_i id rest
    have hfirst : renameMid f line = midKey ++ f id ++ rest := by
      rw [renameMid, subLine, h.match_eq]
      dsimp only
      rw [h.drop_eq]
    have hsecond : groupLine (midKey ++ f id ++ rest) = none := by
      refine groupLine_eq_none fun semantics ids tail hgroup => ?_
      have heq := hgroup.eq
      rw [List.append_assoc, List.append_assoc, List.append_assoc] at heq
      exact midKey_ne_groupKey _ _ heq
    rw [hfirst, renameGroup, subLine, hsecond]
  | group h =>
    rw [renameMid, subLine, midLine_eq_none fun _ _ => h.not_midLine, renameGroup, subLine, h.match_eq]
    dsimp only
    rw [h.drop_eq, join_eq_blankWords fun hnil => h.ids.1 (List.map_eq_nil_iff.mp hnil)]
  | other hmid hgroup => rw [renameMid, subLine, midLine_eq_none hmid, renameGroup, subLine, groupLine_eq_none hgroup]

theorem renamed_self (f : Text → Text) (line : Text) : Renamed f line (renameGroup f (renameMid f line)) := by
  obtain ⟨out, h⟩ := exists_renamed f line
  rw [h.eq]
  exact h

theorem remap_intercalate (mapping : Mapping) (hword : ∀ id, Word id → Word (rename mapping id)) {lines : List Text}
    (hlines : ∀ l ∈ lines, '\n' ∉ l) :
    remap (['\n'].intercalate lines) mapping =
      ['\n'].intercalate (lines.map fun l => renameGroup (rename mapping) (renameMid (rename mapping) l)) := by
  unfold remap
  split_ifs with hempty
  · have hself (id : Text) : rename mapping id = id := by
      rw [rename, OrderedDict.get?, hempty]
      rfl
    rw [(List.map_congr_left fun line _ => (renamed_self _ line).eq_of_eq_self hself).trans (List.map_id _)]
  · have hinner : ∀ l ∈ lines.map (renameMid (rename mapping)), '\n' ∉ l := by
      refine List.forall_mem_map.mpr fun line hline => ?_
      rw [renameMid, subLine]
      cases hm : midLine line with
      | none => exact hlines line hline
      | some m =>
        obtain ⟨rest, hmid, _⟩ := midLine_eq_some hm
        have hid := (hword m.groups hmid.id).newline
        have hdrop : '\n' ∉ line.drop m.length := fun hmem => hlines line hline (List.mem_of_mem_drop hmem)
        simp only [List.mem_append, not_or]
        exact ⟨⟨by decide, hid⟩, hdrop⟩
    rw [sub_intercalate _ midLine_local hlines]
    exact (sub_intercalate _ groupLine_local hinner).trans (by rw [List.map_map]; rfl)

theorem mids_intercalate {lines : List Text} (hlines : ∀ l ∈ lines, '\n' ∉ l) :
    mids (['\n'].intercalate lines) = lines.flatMap fun l => ((midLine l).map Match.groups).toList :=
  finditer_intercalate midLine_local hlines

theorem mids_renamed {lines outs : List Text} (h : List.Forall₂ (Renamed f) lines outs)
    (hword : ∀ id, Word id → Word (f id)) :
    (outs.flatMap fun l => ((midLine l).map Match.groups).toList) =
      (lines.flatMap fun l => ((midLine l).map Match.groups).toList).map f := by
  induction h with
  | nil => rfl
  | cons hline _ ih =>
    rw [List.flatMap_cons, List.flatMap_cons, List.map_append, ih, hline.midLine_eq hword, Option.toList_map]

end Renaming

section Numbering

variable {found : List Text}

theorem str_injective : Function.Injective str := by
  intro a b h
  have := congrArg (Nat.ofDigitChars 10 · 0) h
  simpa only [str, Nat.ofDigitChars_ten_toDigits] using this

theorem word_str (index : ℕ) : Word (str index) where
  nonempty := List.ne_nil_of_length_pos Nat.length_toDigits_pos
  visible := by
    intro c hc
    have hdigit := Nat.isDigit_of_mem_toDigits (by omega) (by omega) hc
    rw [visible, PyText.isSpace_of_isDigit hdigit, Bool.not_false]

theorem mem_numbering {id wire : Text} :
    (id, wire) ∈ numbering found ↔ ∃ i, found[i]? = some id ∧ id ≠ str i ∧ wire = str i := by
  simp only [numbering, List.mem_map, List.mem_filter, decide_eq_true_eq, Prod.exists, Prod.mk.injEq,
    List.mk_mem_zipIdx_iff_getElem?]
  constructor
  · rintro ⟨a, i, ⟨hget, hne⟩, rfl, rfl⟩
    exact ⟨i, hget, hne, rfl⟩
  · rintro ⟨i, hget, hne, rfl⟩
    exact ⟨id, i, ⟨hget, hne⟩, rfl, rfl⟩

theorem entries_numbering (h : found.Nodup) : (OrderedDict.ofList (numbering found)).entries = numbering found := by
  apply OrderedDict.entries_ofList
  have hsublist : ((numbering found).map Prod.fst).Sublist (found.zipIdx.map Prod.fst) := by
    rw [numbering, List.map_map]
    exact List.filter_sublist.map _
  rw [List.zipIdx_map_fst] at hsublist
  exact h.sublist hsublist

variable {id : Text}

theorem index_unique (h : found.Nodup) {i j : ℕ} (hi : found[i]? = some id) (hj : found[j]? = some id) :
    i = j := by
  obtain ⟨hlt, _⟩ := List.getElem?_eq_some_iff.mp hi
  exact (List.getElem?_inj hlt h).mp (hi.trans hj.symm)

/-- An id that the mapping does not hold stays as it is. -/
theorem rename_eq {mapping : Mapping} {wire : Text} (h : ∀ x, (id, x) ∈ mapping.entries ↔ x = wire ∧ id ≠ wire) :
    rename mapping id = wire := by
  rw [rename]
  cases hget : mapping.get? id with
  | none =>
    by_contra hne
    have hsome := (OrderedDict.get?_eq_some_iff _ _ _).mpr ((h wire).mpr ⟨rfl, hne⟩)
    rw [hget] at hsome
    cases hsome
  | some x => exact ((h x).mp ((OrderedDict.get?_eq_some_iff _ _ _).mp hget)).1

theorem rename_numbering (h : found.Nodup) {i : ℕ} (hi : found[i]? = some id) :
    rename (OrderedDict.ofList (numbering found)) id = str i := by
  refine rename_eq fun x => ?_
  rw [entries_numbering h, mem_numbering]
  constructor
  · rintro ⟨j, hj, hne, rfl⟩
    rw [index_unique h hj hi] at hne ⊢
    exact ⟨rfl, hne⟩
  · rintro ⟨rfl, hne⟩
    exact ⟨i, hi, hne, rfl⟩

theorem entries_inverse :
    (OrderedDict.ofList ((numbering found).map Prod.swap)).entries = (numbering found).map Prod.swap := by
  apply OrderedDict.entries_ofList
  have hsublist : (((numbering found).map Prod.swap).map Prod.fst).Sublist ((found.zipIdx.map Prod.snd).map str) := by
    rw [numbering, List.map_map, List.map_map, List.map_map]
    exact List.filter_sublist.map _
  rw [List.zipIdx_map_snd] at hsublist
  exact ((List.nodup_range' ..).map str_injective).sublist hsublist

theorem rename_inverse {i : ℕ} (hi : found[i]? = some id) :
    rename (OrderedDict.ofList ((numbering found).map Prod.swap)) (str i) = id := by
  refine rename_eq fun x => ?_
  rw [entries_inverse, List.mem_map]
  constructor
  · rintro ⟨⟨a, b⟩, hab, hswap⟩
    obtain ⟨rfl, rfl⟩ := Prod.mk.inj hswap
    obtain ⟨j, hj, hne, hstr⟩ := mem_numbering.mp hab
    obtain rfl := str_injective hstr
    obtain rfl := Option.some.inj (hi.symm.trans hj)
    exact ⟨rfl, hne.symm⟩
  · rintro ⟨rfl, hne⟩
    exact ⟨(x, str i), mem_numbering.mpr ⟨i, hi, hne.symm, rfl⟩, rfl⟩

theorem word_rename {mapping : Mapping} (h : ∀ e ∈ mapping.entries, Word e.2) (hid : Word id) :
    Word (rename mapping id) := by
  rw [rename]
  cases hget : mapping.get? id with
  | none => exact hid
  | some wire => exact h _ ((OrderedDict.get?_eq_some_iff _ _ _).mp hget)

end Numbering

/-- For distinct ids, and groups of those only, the wire form has the sections numbered in order, in the lines of the
sections and of the groups, and every other line as it was; and the inverse mapping gives the text back. -/
theorem toWire_numbers_sections (text : Text) (hmids : (mids text).Nodup)
    (hgroups : ∀ line ∈ text.splitOn '\n', ∀ semantics ids rest, GroupLine line semantics ids rest →
      ∀ id ∈ ids, id ∈ mids text) :
    List.Forall₂ (Renamed fun id => str ((mids text).idxOf id)) (text.splitOn '\n') ((toWire text).1.splitOn '\n') ∧
    mids (toWire text).1 = (List.range (mids text).length).map str ∧
    fromWire (toWire text).1 (toWire text).2 = text := by
  obtain ⟨lines, hsplit⟩ : ∃ lines, lines = text.splitOn '\n' := ⟨_, rfl⟩
  have hlines : ∀ l ∈ lines, '\n' ∉ l := hsplit ▸ newline_notMem_splitOn text
  have htext : text = ['\n'].intercalate lines := by rw [hsplit, List.intercalate_splitOn]
  obtain ⟨found, hfound⟩ : ∃ found, found = mids text := ⟨_, rfl⟩
  obtain ⟨mapping, hmapping⟩ : ∃ mapping, mapping = OrderedDict.ofList (numbering found) := ⟨_, rfl⟩
  have hwire : toWire text = (remap text mapping, mapping) := by rw [toWire, hmapping, hfound]
  have hids : found = lines.flatMap fun l => ((midLine l).map Match.groups).toList := by
    rw [hfound, htext, mids_intercalate hlines]
  rw [← hsplit, ← hfound] at hgroups
  rw [← hfound] at hmids
  rw [hwire, ← hsplit, ← hfound]
  -- every id of a line is one of a section, and goes to its number
  have hnames (line : Text) (hline : line ∈ lines) (id : Text) (hid : Names line id) :
      found[found.idxOf id]? = some id := by
    apply List.getElem?_idxOf
    rcases hid with ⟨rest, hmid⟩ | ⟨semantics, ids, rest, hgroup, hid⟩
    · rw [hids, List.mem_flatMap]
      refine ⟨line, hline, ?_⟩
      rw [hmid.match_eq]
      exact List.mem_cons_self
    · exact hgroups line hline semantics ids rest hgroup id hid
  have hnumber (line : Text) (hline : line ∈ lines) (id : Text) (hid : Names line id) :
      rename mapping id = str (found.idxOf id) := by
    rw [hmapping]
    exact rename_numbering hmids (hnames line hline id hid)
  have hentries : mapping.entries = numbering found := by rw [hmapping, entries_numbering hmids]
  have hword (id : Text) (hid : Word id) : Word (rename mapping id) := by
    apply word_rename ?_ hid
    rintro ⟨_, wire⟩ he
    rw [hentries] at he
    obtain ⟨i, _, _, rfl⟩ := mem_numbering.mp he
    exact word_str i
  obtain ⟨outs, houts⟩ : ∃ outs, outs = lines.map fun l => renameGroup (rename mapping) (renameMid (rename mapping) l) :=
    ⟨_, rfl⟩
  have hremap : remap text mapping = ['\n'].intercalate outs := by
    rw [htext, remap_intercalate mapping hword hlines, houts]
  have hrenamed : List.Forall₂ (Renamed (rename mapping)) lines outs := by
    rw [houts, List.forall₂_map_right_iff]
    exact List.forall₂_same.mpr fun line _ => renamed_self _ line
  have hall : List.Forall₂ (fun line out => line ∈ lines ∧ Renamed (rename mapping) line out) lines outs :=
    (List.forall₂_and_left _ _).mpr ⟨fun _ h => h, hrenamed⟩
  have hnewline : ∀ out ∈ outs, '\n' ∉ out := by
    rw [houts]
    exact List.forall_mem_map.mpr fun line hline => (renamed_self _ line).newline hword (hlines line hline)
  have hne : outs ≠ [] := by
    rw [houts, hsplit, ne_eq, List.map_eq_nil_iff]
    exact List.splitOn_ne_nil _ _
  rw [hremap, List.splitOn_intercalate '\n' hnewline hne, mids_intercalate hnewline]
  refine ⟨hall.imp fun line out h => h.2.congr (hnumber line h.1), ?_, ?_⟩
  · rw [mids_renamed hrenamed hword, ← hids]
    apply List.ext_getElem?
    intro i
    rw [List.getElem?_map, List.getElem?_map]
    cases hget : found[i]? with
    | none =>
      rw [List.getElem?_eq_none (by rw [List.length_range]; exact List.getElem?_eq_none_iff.mp hget)]
      rfl
    | some id =>
      obtain ⟨hlt, _⟩ := List.getElem?_eq_some_iff.mp hget
      rw [List.getElem?_range hlt, Option.map_some, Option.map_some, hmapping, rename_numbering hmids hget]
  · rw [fromWire, hentries]
    obtain ⟨back, hback⟩ : ∃ back, back = OrderedDict.ofList ((numbering found).map Prod.swap) := ⟨_, rfl⟩
    have hwordBack (id : Text) (hid : Word id) : Word (rename back id) := by
      apply word_rename ?_ hid
      rw [hback, entries_inverse]
      rintro ⟨wire, id⟩ he
      obtain ⟨⟨_, _⟩, hpair, hswap⟩ := List.mem_map.mp he
      obtain ⟨rfl, rfl⟩ := Prod.mk.inj hswap
      obtain ⟨i, hi, _, _⟩ := mem_numbering.mp hpair
      have hmem := List.mem_of_getElem? hi
      rw [hids, List.mem_flatMap] at hmem
      obtain ⟨line, _, hline⟩ := hmem
      rw [Option.mem_toList] at hline
      obtain ⟨m, hm, rfl⟩ := Option.map_eq_some_iff.mp hline
      obtain ⟨rest, hmid, _⟩ := midLine_eq_some hm
      exact hmid.id
    have hundone : ∀ line ∈ lines, renameGroup (rename back) (renameMid (rename back)
        (renameGroup (rename mapping) (renameMid (rename mapping) line))) = line := by
      intro line hline
      refine Renamed.eq ((renamed_self _ line).inverse hword fun id hid => ?_)
      rw [hnumber line hline id hid, hback]
      exact rename_inverse (hnames line hline id hid)
    rw [← hback, remap_intercalate back hwordBack hnewline, houts, List.map_map]
    exact (congrArg _ ((List.map_congr_left hundone).trans (List.map_id _))).trans htext.symm

def swapped : Text := "a=group:BUNDLE 1 0\r\na=mid:1\r\nm=video 9\r\na=mid:0\r\n".toList

theorem swapped_numbered :
    (toWire swapped).1 = "a=group:BUNDLE 0 1\r\na=mid:0\r\nm=video 9\r\na=mid:1\r\n".toList ∧
      fromWire (toWire swapped).1 (toWire swapped).2 = swapped := by
  have hgroups : ∀ line ∈ swapped.splitOn '\n', ∀ m ∈ groupLine line, ∀ id ∈ m.groups.2, id ∈ mids swapped := by
    decide +kernel
  constructor
  · decide +kernel
  · exact (toWire_numbers_sections swapped (by decide +kernel) fun line hline _ _ _ hgroup =>
      hgroups line hline _ hgroup.match_eq).2.2

end PiBuddyCam.Sdp
