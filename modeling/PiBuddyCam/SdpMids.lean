import Mathlib.Data.List.TakeWhile
import PiBuddyCam.LineRegex
import PiBuddyCam.OrderedDict
import PiBuddyCam.PyText

/-! The ids of the media sections of an SDP text, numbered for the viewer and mapped back. -/
namespace PiBuddyCam.Sdp

open LineRegex PyText

abbrev Text := List Char

def visible (c : Char) : Bool := !isSpace c

def literal : Text → Text → Option Text
  | [], text => some text
  | _ :: _, [] => none
  | l :: lit, c :: text => if l = c then literal lit text else none

def midKey : Text := ['a', '=', 'm', 'i', 'd', ':']

def groupKey : Text := ['a', '=', 'g', 'r', 'o', 'u', 'p', ':']

def midLine : Pattern Text := fun text =>
  (literal midKey text).bind fun rest =>
    let value := rest.takeWhile visible
    if value = [] then none else some ⟨midKey.length + value.length, value⟩

def words : (fuel : ℕ) → Text → List Text × Text
  | fuel+1, ' ' :: text =>
    let word := text.takeWhile visible
    if word = [] then ([], ' ' :: text)
    else (word :: (words fuel (text.dropWhile visible)).1, (words fuel (text.dropWhile visible)).2)
  | _, text => ([], text)

def blankWords (ids : List Text) : Text := ids.flatMap (' ' :: ·)

/-- `_GROUP_LINE`, with its first group and the words of the second one. The semantics cannot give a character
back, as a blank must follow. -/
def groupLine : Pattern (Text × List Text) := fun text =>
  (literal groupKey text).bind fun rest =>
    let semantics := rest.takeWhile visible
    let tail := rest.dropWhile visible
    let ids := (words tail.length tail).1
    if semantics = [] ∨ ids = [] then none
    else some ⟨groupKey.length + semantics.length + (blankWords ids).length, groupKey ++ semantics, ids⟩

def mids (text : Text) : List Text := finditer midLine text

abbrev Mapping := OrderedDict Text Text

def rename (mapping : Mapping) (i : Text) : Text := (mapping.get? i).getD i

def remap (text : Text) (mapping : Mapping) : Text :=
  if mapping.entries = [] then text
  else sub groupLine (fun g => g.1 ++ ' ' :: [' '].intercalate (g.2.map (rename mapping)))
    (sub midLine (fun id => midKey ++ rename mapping id) text)

def str (index : ℕ) : Text := Nat.toDigits 10 index

def numbering (found : List Text) : List (Text × Text) :=
  (found.zipIdx.filter fun e => e.1 ≠ str e.2).map fun e => (e.1, str e.2)

def toWire (text : Text) : Text × Mapping :=
  let mapping := OrderedDict.ofList (numbering (mids text))
  (remap text mapping, mapping)

def fromWire (text : Text) (mapping : Mapping) : Text :=
  remap text (OrderedDict.ofList (mapping.entries.map Prod.swap))

structure Word (w : Text) : Prop where
  nonempty : w ≠ []
  visible : ∀ c ∈ w, visible c = true

def Stops (rest : Text) : Prop := ∀ c, rest.head? = some c → visible c = false

/-- A text where words behind single blanks have ended. -/
structure Ends (rest : Text) : Prop where
  stops : Stops rest
  noWord : ∀ tail, rest = ' ' :: tail → Stops tail

/-- A line `a=mid:<id>`, with what stands behind it. -/
structure MidLine (line id rest : Text) : Prop where
  eq : line = midKey ++ id ++ rest
  id : Word id
  stops : Stops rest

/-- A line `a=group:<semantics> <id> …`, with what stands behind it. -/
structure GroupLine (line semantics : Text) (ids : List Text) (rest : Text) : Prop where
  eq : line = groupKey ++ semantics ++ blankWords ids ++ rest
  semantics : Word semantics
  ids : ids ≠ [] ∧ ∀ id ∈ ids, Word id
  ends : Ends rest

inductive Renamed (f : Text → Text) : Text → Text → Prop
  | mid {line id rest : Text} (h : MidLine line id rest) : Renamed f line (midKey ++ f id ++ rest)
  | group {line semantics rest : Text} {ids : List Text} (h : GroupLine line semantics ids rest) :
    Renamed f line (groupKey ++ semantics ++ blankWords (ids.map f) ++ rest)
  | other {line : Text} (hmid : ∀ id rest, ¬ MidLine line id rest)
    (hgroup : ∀ semantics ids rest, ¬ GroupLine line semantics ids rest) : Renamed f line line

section Words

variable {w rest : Text}

theorem takeWhile_word (hw : ∀ c ∈ w, visible c = true) (hrest : Stops rest) : (w ++ rest).takeWhile visible = w := by
  rw [List.takeWhile_append_of_pos hw]
  cases rest with
  | nil => exact List.append_nil w
  | cons c rest => rw [List.takeWhile_cons_of_neg (by rw [hrest c rfl]; exact Bool.false_ne_true), List.append_nil]

theorem dropWhile_word (hw : ∀ c ∈ w, visible c = true) (hrest : Stops rest) : (w ++ rest).dropWhile visible = rest := by
  rw [List.dropWhile_append_of_pos hw]
  cases rest with
  | nil => rfl
  | cons c rest => rw [List.dropWhile_cons_of_neg (by rw [hrest c rfl]; exact Bool.false_ne_true)]

theorem word_takeWhile {text : Text} (h : text.takeWhile visible ≠ []) : Word (text.takeWhile visible) :=
  ⟨h, fun _ hc => List.mem_takeWhile_imp hc⟩

theorem stops_dropWhile (text : Text) : Stops (text.dropWhile visible) := by
  intro c hc
  have hnot := List.head?_dropWhile_not visible text
  rw [hc] at hnot
  exact hnot

theorem Stops.append_newline (h : Stops rest) (more : Text) : Stops (rest ++ '\n' :: more) := by
  cases rest with
  | nil =>
    intro c hc
    obtain rfl : '\n' = c := Option.some.inj hc
    decide
  | cons c rest => exact h

theorem Ends.append_newline (h : Ends rest) (more : Text) : Ends (rest ++ '\n' :: more) where
  stops := h.stops.append_newline more
  noWord := by
    intro tail htail
    cases rest with
    | nil => exact absurd (List.cons.inj htail).1 (by decide)
    | cons c rest =>
      obtain ⟨rfl, rfl⟩ := List.cons.inj htail
      exact (h.noWord rest rfl).append_newline more

theorem stops_blankWords (ids : List Text) (hrest : Stops rest) : Stops (blankWords ids ++ rest) := by
  cases ids with
  | nil => exact hrest
  | cons id ids =>
    intro c hc
    obtain rfl : ' ' = c := Option.some.inj hc
    decide

variable {ids : List Text}

theorem words_blankWords (hids : ∀ id ∈ ids, Word id) (hrest : Ends rest) (fuel : ℕ)
    (hfuel : ids.length ≤ fuel) : words fuel (blankWords ids ++ rest) = (ids, rest) := by
  induction ids generalizing fuel with
  | nil =>
    change words fuel rest = ([], rest)
    unfold words
    split
    · rename_i fuel text
      have htake : text.takeWhile visible = [] := by
        cases text with
        | nil => rfl
        | cons c text => rw [List.takeWhile_cons_of_neg (by rw [hrest.noWord _ rfl c rfl]; exact Bool.false_ne_true)]
      rw [if_pos htake]
    · rfl
  | cons id ids ih =>
    obtain ⟨hid, hmore⟩ := List.forall_mem_cons.mp hids
    obtain ⟨fuel, rfl⟩ : ∃ n, fuel = n+1 := ⟨fuel-1, by rw [List.length_cons] at hfuel; omega⟩
    have htext : blankWords (id :: ids) ++ rest = ' ' :: (id ++ (blankWords ids ++ rest)) := by
      rw [blankWords, List.flatMap_cons, List.cons_append, List.cons_append, List.append_assoc]
      rfl
    have hstops := stops_blankWords ids hrest.stops
    have hnext := ih hmore fuel (Nat.le_of_succ_le_succ hfuel)
    rw [htext, words, takeWhile_word hid.visible hstops, dropWhile_word hid.visible hstops, if_neg hid.nonempty, hnext]

theorem words_spec (fuel : ℕ) (text : Text) (hfuel : text.length ≤ fuel) :
    text = blankWords (words fuel text).1 ++ (words fuel text).2 ∧ (∀ id ∈ (words fuel text).1, Word id) ∧
      (Stops text → Ends (words fuel text).2) := by
  induction fuel generalizing text with
  | zero =>
    obtain rfl : text = [] := List.length_eq_zero_iff.mp (Nat.le_zero.mp hfuel)
    exact ⟨rfl, List.forall_mem_nil _, fun h => ⟨h, nofun⟩⟩
  | succ fuel ih =>
    unfold words
    split
    · rename_i n tail heq
      obtain rfl : fuel = n := Nat.succ.inj heq
      dsimp only
      split_ifs with hword
      · refine ⟨rfl, List.forall_mem_nil _, fun h => ⟨h, fun t ht => ?_⟩⟩
        obtain rfl : tail = t := (List.cons.inj ht).2
        intro c hc
        have hall := stops_dropWhile tail
        rw [← List.takeWhile_append_dropWhile (p := visible) (l := tail), hword, List.nil_append] at hc
        exact hall c hc
      · have hlength : (tail.dropWhile visible).length ≤ fuel := by
          have := (List.dropWhile_suffix (p := visible) (l := tail)).length_le
          rw [List.length_cons] at hfuel
          omega
        obtain ⟨htext, hids, hends⟩ := ih (tail.dropWhile visible) hlength
        refine ⟨?_, List.forall_mem_cons.mpr ⟨word_takeWhile hword, hids⟩, fun _ => hends (stops_dropWhile tail)⟩
        rw [blankWords, List.flatMap_cons, List.cons_append, List.cons_append, List.append_assoc]
        change ' ' :: tail = ' ' :: (tail.takeWhile visible ++ (blankWords _ ++ _))
        rw [← htext, List.takeWhile_append_dropWhile]
    · rename_i hblank
      refine ⟨rfl, List.forall_mem_nil _, fun h => ⟨h, fun t ht => ?_⟩⟩
      exact absurd ht (hblank fuel t rfl)

theorem Stops.of_append {more : Text} (h : Stops (rest ++ more)) : Stops rest := by
  cases rest with
  | nil => exact nofun
  | cons c rest => exact h

theorem Ends.of_append {more : Text} (h : Ends (rest ++ more)) : Ends rest where
  stops := h.stops.of_append
  noWord := by
    rintro tail rfl
    exact (h.noWord (tail ++ more) rfl).of_append

theorem Word.newline (h : Word w) : '\n' ∉ w := fun hmem => absurd (h.visible _ hmem) (by decide)

theorem newline_blankWords (hids : ∀ id ∈ ids, Word id) : '\n' ∉ blankWords ids := by
  intro hmem
  obtain ⟨id, hid, hmem⟩ := List.mem_flatMap.mp hmem
  rcases List.mem_cons.mp hmem with heq | hmem
  · exact absurd heq (by decide)
  · exact (hids id hid).newline hmem

theorem length_le_blankWords (ids : List Text) : ids.length ≤ (blankWords ids).length := by
  induction ids with
  | nil => exact Nat.zero_le _
  | cons id ids ih =>
    rw [blankWords, List.flatMap_cons, List.length_append, List.length_cons, List.length_cons]
    rw [blankWords] at ih
    omega

theorem join_eq_blankWords (h : ids ≠ []) : ' ' :: [' '].intercalate ids = blankWords ids := by
  induction ids with
  | nil => exact absurd rfl h
  | cons id ids ih =>
    cases ids with
    | nil => simp [blankWords]
    | cons next ids =>
      have hnext := ih (List.cons_ne_nil _ _)
      rw [List.intercalate_cons_cons, List.append_assoc, List.singleton_append, hnext, blankWords, List.flatMap_cons]
      rfl

end Words

section Patterns

variable {line id rest semantics : Text} {ids : List Text}

theorem literal_append (lit rest : Text) : literal lit (lit ++ rest) = some rest := by
  induction lit with
  | nil => rfl
  | cons c lit ih => rw [List.cons_append, literal, if_pos rfl, ih]

theorem eq_of_literal {lit text rest : Text} (h : literal lit text = some rest) : text = lit ++ rest := by
  induction lit generalizing text with
  | nil => exact Option.some.inj h
  | cons l lit ih =>
    cases text with
    | nil => cases h
    | cons c text =>
      rw [literal] at h
      split_ifs at h with hc
      rw [ih h, hc, List.cons_append]

theorem split_newline {a b l more : Text} (ha : '\n' ∉ a) (h : l ++ '\n' :: more = a ++ b) :
    ∃ t, l = a ++ t ∧ b = t ++ '\n' :: more := by
  rcases List.append_eq_append_iff.mp h with ⟨t, ha', hb⟩ | ⟨t, hl, hb⟩
  · cases t with
    | nil => exact ⟨[], by rw [ha', List.append_nil, List.append_nil], by rw [List.nil_append] at hb ⊢; exact hb.symm⟩
    | cons c t =>
      obtain ⟨rfl, _⟩ := List.cons.inj hb
      exact absurd (ha' ▸ List.mem_append_right l List.mem_cons_self) ha
  · exact ⟨t, hl, hb⟩

theorem MidLine.match_eq (h : MidLine line id rest) : midLine line = some ⟨midKey.length + id.length, id⟩ := by
  rw [midLine, h.eq, List.append_assoc, literal_append, Option.bind_some, takeWhile_word h.id.visible h.stops,
    if_neg h.id.nonempty]

theorem MidLine.drop_eq (h : MidLine line id rest) : line.drop (midKey.length + id.length) = rest := by
  rw [h.eq, ← List.length_append, List.drop_left]

theorem midLine_eq_some {m : Match Text} (h : midLine line = some m) :
    ∃ rest, MidLine line m.groups rest ∧ m.length = midKey.length + m.groups.length := by
  obtain ⟨tail, htail, hm⟩ := Option.bind_eq_some_iff.mp h
  dsimp only at hm
  split_ifs at hm with hvalue
  cases hm
  refine ⟨tail.dropWhile visible, ⟨?_, word_takeWhile hvalue, stops_dropWhile tail⟩, rfl⟩
  rw [eq_of_literal htail, List.append_assoc, List.takeWhile_append_dropWhile]

theorem midLine_eq_none (h : ∀ id rest, ¬ MidLine line id rest) : midLine line = none := by
  refine Option.eq_none_iff_forall_ne_some.mpr fun m hm => ?_
  obtain ⟨rest, hline, -⟩ := midLine_eq_some hm
  exact h m.groups rest hline

theorem MidLine.newline (h : MidLine line id rest) (more : Text) :
    MidLine (line ++ '\n' :: more) id (rest ++ '\n' :: more) :=
  ⟨by rw [h.eq, List.append_assoc _ rest], h.id, h.stops.append_newline more⟩

theorem MidLine.of_newline {more : Text} (h : MidLine (line ++ '\n' :: more) id rest) : ∃ t, MidLine line id t := by
  have hnewline : '\n' ∉ midKey ++ id := fun hmem => (List.mem_append.mp hmem).elim (by decide) h.id.newline
  obtain ⟨t, hline, hrest⟩ := split_newline hnewline h.eq
  exact ⟨t, hline, h.id, (hrest ▸ h.stops).of_append⟩

theorem midLine_local : midLine.Local where
  pos := by
    intro l m hm
    obtain ⟨rest, _, hlength⟩ := midLine_eq_some hm
    rw [hlength]
    exact Nat.add_pos_left (by decide) _
  within := by
    intro l m _ hm
    obtain ⟨rest, hline, hlength⟩ := midLine_eq_some hm
    rw [hlength, hline.eq, List.length_append, List.length_append]
    omega
  append := by
    intro l more _
    cases hm : midLine l with
    | some m =>
      obtain ⟨rest, hline, _⟩ := midLine_eq_some hm
      rw [(hline.newline more).match_eq, ← hm, hline.match_eq]
    | none =>
      refine midLine_eq_none fun id rest hline => ?_
      obtain ⟨t, hline⟩ := hline.of_newline
      rw [hline.match_eq] at hm
      cases hm

theorem GroupLine.match_eq (h : GroupLine line semantics ids rest) :
    groupLine line =
      some ⟨groupKey.length + semantics.length + (blankWords ids).length, groupKey ++ semantics, ids⟩ := by
  have hstops := stops_blankWords ids h.ends.stops
  have hlength : ids.length ≤ (blankWords ids ++ rest).length := by
    have hwords := length_le_blankWords ids
    rw [List.length_append]
    omega
  rw [groupLine, h.eq, List.append_assoc, List.append_assoc, literal_append, Option.bind_some]
  dsimp only
  rw [takeWhile_word h.semantics.visible hstops, dropWhile_word h.semantics.visible hstops,
    words_blankWords h.ids.2 h.ends _ hlength, if_neg (not_or_intro h.semantics.nonempty h.ids.1)]

theorem GroupLine.drop_eq (h : GroupLine line semantics ids rest) :
    line.drop (groupKey.length + semantics.length + (blankWords ids).length) = rest := by
  rw [h.eq, ← List.length_append, ← List.length_append, List.drop_left]

theorem groupLine_eq_some {m : Match (Text × List Text)} (h : groupLine line = some m) :
    ∃ semantics rest, GroupLine line semantics m.groups.2 rest ∧
      m.length = groupKey.length + semantics.length + (blankWords m.groups.2).length := by
  obtain ⟨tail, htail, hm⟩ := Option.bind_eq_some_iff.mp h
  dsimp only at hm
  split_ifs at hm with hvalue
  obtain ⟨hsemantics, hids⟩ := not_or.mp hvalue
  cases hm
  obtain ⟨hwords, hword, hends⟩ := words_spec _ (tail.dropWhile visible) le_rfl
  refine ⟨_, _, ⟨?_, word_takeWhile hsemantics, ⟨hids, hword⟩, hends (stops_dropWhile tail)⟩, rfl⟩
  rw [List.append_assoc _ (blankWords _), ← hwords, List.append_assoc, List.takeWhile_append_dropWhile]
  exact eq_of_literal htail

theorem groupLine_eq_none (h : ∀ semantics ids rest, ¬ GroupLine line semantics ids rest) : groupLine line = none := by
  refine Option.eq_none_iff_forall_ne_some.mpr fun m hm => ?_
  obtain ⟨semantics, rest, hline, -⟩ := groupLine_eq_some hm
  exact h semantics m.groups.2 rest hline

theorem GroupLine.newline (h : GroupLine line semantics ids rest) (more : Text) :
    GroupLine (line ++ '\n' :: more) semantics ids (rest ++ '\n' :: more) :=
  ⟨by rw [h.eq, List.append_assoc _ rest], h.semantics, h.ids, h.ends.append_newline more⟩

theorem GroupLine.of_newline {more : Text} (h : GroupLine (line ++ '\n' :: more) semantics ids rest) :
    ∃ t, GroupLine line semantics ids t := by
  have hnewline : '\n' ∉ groupKey ++ semantics ++ blankWords ids := by
    intro hmem
    rcases List.mem_append.mp hmem with hmem | hmem
    · exact (List.mem_append.mp hmem).elim (by decide) h.semantics.newline
    · exact newline_blankWords h.ids.2 hmem
  obtain ⟨t, hline, hrest⟩ := split_newline hnewline h.eq
  exact ⟨t, hline, h.semantics, h.ids, (hrest ▸ h.ends).of_append⟩

theorem groupLine_local : groupLine.Local where
  pos := by
    intro l m hm
    obtain ⟨semantics, rest, _, hlength⟩ := groupLine_eq_some hm
    have hkey : 0 < groupKey.length := by decide
    omega
  within := by
    intro l m _ hm
    obtain ⟨semantics, rest, hline, hlength⟩ := groupLine_eq_some hm
    rw [hlength, hline.eq, List.length_append, List.length_append, List.length_append]
    omega
  append := by
    intro l more _
    cases hm : groupLine l with
    | some m =>
      obtain ⟨semantics, rest, hline, _⟩ := groupLine_eq_some hm
      rw [(hline.newline more).match_eq, ← hm, hline.match_eq]
    | none =>
      refine groupLine_eq_none fun semantics ids rest hline => ?_
      obtain ⟨t, hline⟩ := hline.of_newline
      rw [hline.match_eq] at hm
      cases hm

theorem midKey_ne_groupKey (a b : Text) : midKey ++ a ≠ groupKey ++ b := by
  intro h
  have hthird := congrArg (·[2]?) h
  exact absurd hthird (by simp [midKey, groupKey])

theorem GroupLine.not_midLine (h : GroupLine line semantics ids rest) {id tail : Text} : ¬ MidLine line id tail := by
  intro hmid
  have heq := hmid.eq.symm.trans h.eq
  rw [List.append_assoc, List.append_assoc, List.append_assoc] at heq
  exact midKey_ne_groupKey _ _ heq

end Patterns

end PiBuddyCam.Sdp
