import PiBuddyCam.PyNumber

/-! `parse_range`: the one byte range of a `Range` header, against the size of a file. -/
namespace PiBuddyCam.Media

open PyText

abbrev Text := List Char

/-- What `parse_range` does: it returns `None` or a range, or raises `RangeNotSatisfiable` or a `ValueError`. -/
inductive Outcome where
  | absent
  | range (start stop : ℕ)
  | notSatisfiable
  | valueError
deriving DecidableEq

def unitName : Text := ['b', 'y', 't', 'e', 's', '=']

/-- The texts before and after the dash, `none` where the header is refused before. Of the characters outside
ASCII none has a lower case among those of the unit. -/
def fields (value : Text) : Option (Text × Text) :=
  let spec := trim value
  if (spec.take unitName.length).map Char.toLower ≠ unitName then none
  else
    let ranges := trim (spec.drop unitName.length)
    if ',' ∈ ranges ∨ '-' ∉ ranges then none
    else some (trim (ranges.takeWhile (· ≠ '-')), trim ((ranges.dropWhile (· ≠ '-')).drop 1))

def closedRange (first last : Text) (size : ℕ) : Outcome :=
  if isdigit first = false then .notSatisfiable
  else match int first with
    | none => .valueError
    | some start =>
      if size = 0 ∨ size ≤ start then .notSatisfiable
      else if last = [] then .range start (size-1)
      else if isdigit last = false then .notSatisfiable
      else match int last with
        | none => .valueError
        | some stop => if stop < start then .notSatisfiable else .range start (min stop (size-1))

def suffixRange (last : Text) (size : ℕ) : Outcome :=
  if isdigit last = false then .notSatisfiable
  else match int last with
    | none => .valueError
    | some suffix => if suffix = 0 ∨ size = 0 then .notSatisfiable else .range (size-suffix) (size-1)

def parseRange (value : Option Text) (size : ℕ) : Outcome :=
  match value with
  | none => .absent
  | some value =>
    match fields value with
    | none => .notSatisfiable
    | some (first, last) =>
      if first = [] ∧ last = [] then .notSatisfiable
      else if first ≠ [] then closedRange first last size
      else suffixRange last size

/-- The header is `bytes=first-last`, with white space around its parts. -/
def Spec (value first last : Text) : Prop :=
  ∃ a u b c d e, Blank a ∧ u.map Char.toLower = unitName ∧ Blank b ∧ Blank c ∧ Blank d ∧ Blank e ∧
    value = a ++ u ++ b ++ first ++ c ++ '-' :: (d ++ last ++ e)

/-- The range that `first-last`, `first-` or `-last` denotes in a file of this size. -/
inductive Reads (size : ℕ) : Text → Text → ℕ → ℕ → Prop
  | closed {first last : Text} (hfirst : first ≠ [] ∧ Decimal first) (hlast : last ≠ [] ∧ Decimal last)
    (hstart : number first < size) (hstop : number first ≤ number last) :
    Reads size first last (number first) (min (number last) (size-1))
  | toEnd {first : Text} (hfirst : first ≠ [] ∧ Decimal first) (hstart : number first < size) :
    Reads size first [] (number first) (size-1)
  | suffix {last : Text} (hlast : last ≠ [] ∧ Decimal last) (hsuffix : 0 < number last) (hsize : 0 < size) :
    Reads size [] last (size - number last) (size-1)

def Denotes (header : Text) (size start stop : ℕ) : Prop :=
  ∃ first last, Spec header first last ∧ Reads size first last start stop

/-- The outcome is the right one: no header, a range that is in the file and the one denoted, or a refusal
where none is denoted. -/
def Right (value : Option Text) (size : ℕ) : Outcome → Prop
  | .absent => value = none
  | .range start stop => start ≤ stop ∧ stop < size ∧ ∃ header, value = some header ∧ Denotes header size start stop
  | .notSatisfiable => ∀ header, value = some header → ∀ start stop, ¬ Denotes header size start stop
  | .valueError => False

/-- Each of the two numbers that is read has at most 4300 digits, and only decimal ones. The second is not read
where the first lies past the end. -/
structure Readable (first last : Text) (size : ℕ) : Prop where
  before : isdigit first = true → Decimal first ∧ first.length ≤ 4300
  behind : isdigit last = true → first = [] ∨ isdigit first = true ∧ number first < size →
    Decimal last ∧ last.length ≤ 4300

section Fields

variable {value first last : Text}

structure Parts (first last : Text) : Prop where
  before : Trimmed first
  behind : Trimmed last
  dash : '-' ∉ first
  comma : ',' ∉ first ∧ ',' ∉ last

theorem cut_dash {x : Text} (hx : '-' ∉ x) (y : Text) : (x ++ '-' :: y).takeWhile (· ≠ '-') = x ∧
    ((x ++ '-' :: y).dropWhile (· ≠ '-')).drop 1 = y := by
  have hfront : ∀ c ∈ x, decide (c ≠ '-') = true := fun c hc => decide_eq_true fun heq => hx (heq ▸ hc)
  rw [List.takeWhile_append_of_pos hfront, List.dropWhile_append_of_pos hfront, List.takeWhile_cons_of_neg (by decide),
    List.dropWhile_cons_of_neg (by decide), List.append_nil, List.drop_one, List.tail_cons]
  exact ⟨rfl, rfl⟩

theorem spec_of_fields (h : fields value = some (first, last)) : Spec value first last := by
  unfold fields at h
  dsimp only at h
  split_ifs at h with hunit hshape
  rw [not_not] at hunit
  have hdash := not_not.mp (not_or.mp hshape).2
  obtain ⟨rfl, rfl⟩ := Prod.mk.inj (Option.some.inj h)
  obtain ⟨-, a, e, ha, he, hvalue⟩ := trim_spec value
  obtain ⟨-, b, e', hb, he', htail⟩ := trim_spec ((trim value).drop unitName.length)
  obtain ⟨x, y, hranges, hx⟩ := List.eq_append_cons_of_mem hdash
  rw [hranges] at htail ⊢
  rw [(cut_dash hx y).1, (cut_dash hx y).2]
  obtain ⟨-, b', c, hb', hc, hxsplit⟩ := trim_spec x
  obtain ⟨-, d, e'', hd, he'', hysplit⟩ := trim_spec y
  refine ⟨a, (trim value).take unitName.length, b ++ b', c, d, e'' ++ e' ++ e, ha, hunit, hb.append hb', hc, hd,
    (he''.append he').append he, ?_⟩
  calc value = a ++ ((trim value).take unitName.length ++ (trim value).drop unitName.length) ++ e := by
        rw [List.take_append_drop]
        exact hvalue
    _ = a ++ ((trim value).take unitName.length ++
          (b ++ ((b' ++ trim x ++ c) ++ '-' :: (d ++ trim y ++ e'')) ++ e')) ++ e := by
        rw [← hxsplit, ← hysplit, ← htail]
    _ = _ := by simp only [List.append_assoc, List.cons_append]

theorem fields_of_spec (h : Spec value first last) (hparts : Parts first last) :
    fields value = some (first, last) := by
  obtain ⟨a, u, b, c, d, e, ha, hu, hb, hc, hd, he, rfl⟩ := h
  have hdash : isSpace '-' = false := by decide
  have hcomma : isSpace ',' = false := by decide
  obtain ⟨x, hx⟩ : ∃ x, x = b ++ first ++ c := ⟨_, rfl⟩
  obtain ⟨y, hy⟩ : ∃ y, y = d ++ last ++ e := ⟨_, rfl⟩
  have hfirst : trim (x.dropWhile isSpace) = first := by rw [trim_dropWhile, hx, trim_eq hb hparts.before hc]
  have hlast : trim (y.rdropWhile isSpace) = last := by rw [trim_rdropWhile, hy, trim_eq hd hparts.behind he]
  have hvalue : trim (a ++ u ++ b ++ first ++ c ++ '-' :: y) = u ++ (x ++ '-' :: y.rdropWhile isSpace) := by
    -- no letter of the unit is white space
    have hunit : (u ++ x).dropWhile isSpace = u ++ x := by
      cases u with
      | nil => cases hu
      | cons z u =>
        refine List.dropWhile_cons_of_neg fun hspace => ?_
        have hlower : z.toLower = 'b' := (List.cons.inj hu).1
        rw [toLower_of_isSpace hspace] at hlower
        rw [hlower] at hspace
        cases hspace
    rw [trim_around hdash, List.append_assoc a, List.append_assoc a, List.append_assoc a, List.dropWhile_append_of_pos ha,
      List.append_assoc u, List.append_assoc u, ← hx, hunit, List.append_assoc]
  have hranges : trim (x ++ '-' :: y.rdropWhile isSpace) = x.dropWhile isSpace ++ '-' :: y.rdropWhile isSpace := by
    rw [trim_around hdash, List.rdropWhile_idempotent]
  have hmem {z : Char} (hz : isSpace z = false) : z ∉ first → z ∉ x.dropWhile isSpace := by
    intro hnot hmem
    have hmem := (List.dropWhile_suffix _).subset hmem
    simp only [hx, List.mem_append, hb.notMem hz, hnot, hc.notMem hz, or_self] at hmem
  have hbehind : ',' ∉ y.rdropWhile isSpace := by
    intro hmem
    have hmem := (List.rdropWhile_prefix _ _).subset hmem
    simp only [hy, List.mem_append, hd.notMem hcomma, hparts.comma.2, he.notMem hcomma, or_self] at hmem
  have hshape : ¬ (',' ∈ x.dropWhile isSpace ++ '-' :: y.rdropWhile isSpace ∨
      '-' ∉ x.dropWhile isSpace ++ '-' :: y.rdropWhile isSpace) := by
    simp [hmem hcomma hparts.comma.1, hbehind]
  have hlength : u.length = unitName.length := by rw [← hu, List.length_map]
  unfold fields
  dsimp only
  rw [← hy, hvalue, ← hlength, List.take_left, List.drop_left, if_neg (not_not.mpr hu), hranges, if_neg hshape,
    (cut_dash (hmem hdash hparts.dash) _).1, (cut_dash (hmem hdash hparts.dash) _).2, hfirst, hlast]

theorem parts_of_decimal (hfirst : Decimal first) (hlast : Decimal last) : Parts first last where
  before := hfirst.trimmed
  behind := hlast.trimmed
  dash := fun hmem => (decimal_plain (hfirst _ hmem)).2.1 rfl
  comma := ⟨fun hmem => (decimal_plain (hfirst _ hmem)).2.2 rfl, fun hmem => (decimal_plain (hlast _ hmem)).2.2 rfl⟩

variable {size start stop : ℕ}

theorem Reads.decimal (h : Reads size first last start stop) : Decimal first ∧ Decimal last := by
  cases h with
  | closed hfirst hlast => exact ⟨hfirst.2, hlast.2⟩
  | toEnd hfirst => exact ⟨hfirst.2, List.forall_mem_nil _⟩
  | suffix hlast => exact ⟨List.forall_mem_nil _, hlast.2⟩

theorem Denotes.fields (h : Denotes value size start stop) :
    ∃ first last, fields value = some (first, last) ∧ Reads size first last start stop := by
  obtain ⟨first, last, hspec, hreads⟩ := h
  exact ⟨first, last, fields_of_spec hspec (parts_of_decimal hreads.decimal.1 hreads.decimal.2), hreads⟩

theorem denotes_iff (h : fields value = some (first, last)) :
    Denotes value size start stop ↔ Reads size first last start stop := by
  constructor
  · intro hdenotes
    obtain ⟨first', last', hfields, hreads⟩ := hdenotes.fields
    obtain ⟨rfl, rfl⟩ := Prod.mk.inj (Option.some.inj (h.symm.trans hfields))
    exact hreads
  · intro hreads
    exact ⟨first, last, spec_of_fields h, hreads⟩

end Fields

section Numbers

variable {first last : Text} {size : ℕ}

/-- The outcome is the right one for the texts before and behind the dash. -/
def RightFor (first last : Text) (size : ℕ) : Outcome → Prop
  | .absent => False
  | .range start stop => start ≤ stop ∧ stop < size ∧ Reads size first last start stop
  | .notSatisfiable => ∀ start stop, ¬ Reads size first last start stop
  | .valueError => False

theorem int_eq {text : Text} (h : Decimal text ∧ text.length ≤ 4300) : int text = some (number text) := if_pos h

theorem int_eq_none {text : Text} (h : ¬ (Decimal text ∧ text.length ≤ 4300)) : int text = none := if_neg h

theorem not_decimal {text : Text} (hne : text ≠ []) (h : isdigit text = false) : ¬ Decimal text :=
  fun hdecimal => Bool.false_ne_true (h ▸ isdigit_of_decimal hdecimal hne)

theorem closedRange_right_iff (hfirst : first ≠ []) :
    RightFor first last size (closedRange first last size) ↔ Readable first last size := by
  unfold closedRange
  split
  · rename_i hdigit
    refine iff_of_true (fun _ _ hreads => not_decimal hfirst hdigit hreads.decimal.1) ⟨fun h => ?_, fun _ h => ?_⟩
    · rw [hdigit] at h
      cases h
    · rcases h with h | h
      · exact absurd h hfirst
      · rw [hdigit] at h
        cases h.1
  rename_i hdigit
  rw [Bool.not_eq_false] at hdigit
  by_cases hread : Decimal first ∧ first.length ≤ 4300
  swap
  · rw [int_eq_none hread]
    exact iff_of_false id fun h => hread (h.before hdigit)
  rw [int_eq hread]
  dsimp only
  split
  · have hnot : ¬ number first < size := by omega
    refine iff_of_true (fun start stop hreads => ?_) ⟨fun _ => hread, fun _ h => ?_⟩
    · cases hreads with
      | closed _ _ hstart => exact hnot hstart
      | toEnd _ hstart => exact hnot hstart
      | suffix _ => exact hfirst rfl
    · rcases h with h | h
      · exact absurd h hfirst
      · exact absurd h.2 hnot
  have hstart : number first < size := by omega
  split
  · rename_i hnil
    subst hnil
    exact iff_of_true ⟨by omega, by omega, .toEnd ⟨hfirst, hread.1⟩ hstart⟩ ⟨fun _ => hread, nofun⟩
  rename_i hnil
  split
  · rename_i hdigitLast
    refine iff_of_true (fun _ _ hreads => not_decimal hnil hdigitLast hreads.decimal.2) ⟨fun _ => hread, fun h _ => ?_⟩
    rw [hdigitLast] at h
    cases h
  rename_i hdigitLast
  rw [Bool.not_eq_false] at hdigitLast
  by_cases hreadLast : Decimal last ∧ last.length ≤ 4300
  swap
  · rw [int_eq_none hreadLast]
    exact iff_of_false id fun h => hreadLast (h.behind hdigitLast (.inr ⟨hdigit, hstart⟩))
  rw [int_eq hreadLast]
  dsimp only
  have hreadable : Readable first last size := ⟨fun _ => hread, fun _ _ => hreadLast⟩
  split
  · rename_i hback
    refine iff_of_true (fun start stop hreads => ?_) hreadable
    cases hreads with
    | closed _ _ _ hstop => exact absurd hstop (Nat.not_le.mpr hback)
    | toEnd _ => exact hnil rfl
    | suffix _ => exact hfirst rfl
  · exact iff_of_true ⟨by omega, by omega, .closed ⟨hfirst, hread.1⟩ ⟨hnil, hreadLast.1⟩ hstart (by omega)⟩ hreadable

theorem suffixRange_right_iff (hlast : last ≠ []) :
    RightFor [] last size (suffixRange last size) ↔ Readable [] last size := by
  unfold suffixRange
  split
  · rename_i hdigit
    refine iff_of_true (fun _ _ hreads => not_decimal hlast hdigit hreads.decimal.2) ⟨nofun, fun h _ => ?_⟩
    rw [hdigit] at h
    cases h
  rename_i hdigit
  rw [Bool.not_eq_false] at hdigit
  by_cases hread : Decimal last ∧ last.length ≤ 4300
  swap
  · rw [int_eq_none hread]
    exact iff_of_false id fun h => hread (h.behind hdigit (.inl rfl))
  rw [int_eq hread]
  dsimp only
  have hreadable : Readable [] last size := ⟨nofun, fun _ _ => hread⟩
  split
  · refine iff_of_true (fun start stop hreads => ?_) hreadable
    cases hreads with
    | closed hfirst => exact hfirst.1 rfl
    | toEnd hfirst => exact hfirst.1 rfl
    | suffix _ hsuffix hsize => omega
  · exact iff_of_true ⟨by omega, by omega, .suffix ⟨hlast, hread.1⟩ (by omega) (by omega)⟩ hreadable

end Numbers

/-- `parse_range` does what it should for exactly those headers whose numbers can be read. For the others, which
pass `isdigit`, a `ValueError` escapes. -/
theorem parseRange_right_iff (value : Option Text) (size : ℕ) :
    Right value size (parseRange value size) ↔
      ∀ header first last, value = some header → fields header = some (first, last) → Readable first last size := by
  cases value with
  | none => exact iff_of_true rfl nofun
  | some header =>
    cases hfields : fields header with
    | none =>
      have hparse : parseRange (some header) size = .notSatisfiable := by
        rw [parseRange, hfields]
      rw [hparse]
      refine iff_of_true (fun header' hvalue start stop hdenotes => ?_) fun header' first last hvalue hsome => ?_
      · obtain rfl := Option.some.inj hvalue
        obtain ⟨first, last, hsome, _⟩ := hdenotes.fields
        rw [hfields] at hsome
        cases hsome
      · obtain rfl := Option.some.inj hvalue
        rw [hfields] at hsome
        cases hsome
    | some parts =>
      obtain ⟨first, last⟩ := parts
      have hparse : parseRange (some header) size = if first = [] ∧ last = [] then .notSatisfiable
          else if first ≠ [] then closedRange first last size else suffixRange last size := by
        rw [parseRange, hfields]
      have hreadable : (∀ header' first' last', some header = some header' → fields header' = some (first', last') →
          Readable first' last' size) ↔ Readable first last size := by
        constructor
        · intro h
          exact h header first last rfl hfields
        · intro h header' first' last' hvalue hsome
          obtain rfl := Option.some.inj hvalue
          obtain ⟨rfl, rfl⟩ := Prod.mk.inj (Option.some.inj (hfields.symm.trans hsome))
          exact h
      have hright (outcome : Outcome) : Right (some header) size outcome ↔ RightFor first last size outcome := by
        cases outcome with
        | absent => exact iff_of_false nofun id
        | range start stop =>
          simp only [Right, RightFor, Option.some.injEq, exists_eq_left', denotes_iff hfields]
        | notSatisfiable =>
          simp only [Right, RightFor, Option.some.injEq, forall_eq', denotes_iff hfields]
        | valueError => exact Iff.rfl
      rw [hreadable, hright, hparse]
      by_cases hempty : first = [] ∧ last = []
      · rw [if_pos hempty, hempty.1, hempty.2]
        refine iff_of_true (fun start stop hreads => ?_) ⟨nofun, nofun⟩
        cases hreads with
        | toEnd hfirst => exact hfirst.1 rfl
        | suffix hlast => exact hlast.1 rfl
        | closed hfirst => exact hfirst.1 rfl
      rw [if_neg hempty]
      by_cases hfirst : first = []
      · rw [if_neg (not_not.mpr hfirst), hfirst]
        exact suffixRange_right_iff fun hlast => hempty ⟨hfirst, hlast⟩
      · rw [if_pos hfirst]
        exact closedRange_right_iff hfirst

theorem parseRange_long {digits : Text} (hdigits : Decimal digits) (hlong : 4300 < digits.length) (size : ℕ) :
    parseRange (some (unitName ++ digits ++ ['-'])) size = .valueError := by
  have hne : digits ≠ [] := List.ne_nil_of_length_pos (Nat.lt_of_le_of_lt (Nat.zero_le _) hlong)
  have hspec : Spec (unitName ++ digits ++ ['-']) digits [] := by
    refine ⟨[], unitName, [], [], [], [], blank_nil, by decide, blank_nil, blank_nil, blank_nil, blank_nil, ?_⟩
    simp only [List.nil_append, List.append_nil]
  have hfields := fields_of_spec hspec (parts_of_decimal hdigits (List.forall_mem_nil _))
  have hint : int digits = none := int_eq_none fun h => Nat.not_le.mpr hlong h.2
  have hdigit : ¬ isdigit digits = false := by
    rw [isdigit_of_decimal hdigits hne]
    exact nofun
  rw [parseRange, hfields]
  dsimp only
  rw [if_neg fun h => hne h.1, if_pos hne, closedRange, if_neg hdigit, hint]

/-- A superscript two passes `isdigit`, and so does a number of 4301 digits; `int` takes neither. -/
theorem digits_raise_valueError :
    parseRange (some "bytes=\u00b2-".toList) 10 = .valueError ∧
    parseRange (some (unitName ++ List.replicate 4301 '0' ++ ['-'])) 10 = .valueError := by
  constructor
  · decide +kernel
  · apply parseRange_long
    · intro c hc
      rw [(List.mem_replicate.mp hc).2]
      decide
    · rw [List.length_replicate]
      decide

end PiBuddyCam.Media
