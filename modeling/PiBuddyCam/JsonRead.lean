import PiBuddyCam.JsonText
import PiBuddyCam.TomlText

/-! `json.loads`, and `json.dump` with `indent=2` and `sort_keys=True`: what the second writes, the first reads. A float
is the text it is written as, which is that of no other float. -/
namespace JsonText

section Reader

def isBlank (c : Char) : Bool := c = ' ' || c = '\t' || c = '\n' || c = '\r'

def skip (cs : List Char) : List Char := cs.dropWhile isBlank

def hex4 (a b c d : Char) : Option ℕ := [a, b, c, d].foldlM (fun n x => (TomlText.hexValue x).map (16*n+·)) 0

def shortEscape (e : Char) : Option Char :=
  if e = '/' then some '/' else (shortEscapes.find? (·.2 = e)).map Prod.fst

/-- A string behind its opening quote, and what follows its closing one. The halves of a pair are still apart. -/
def readUnits : List Char → Option (List ℕ × List Char)
  | [] => none
  | c :: cs =>
    if c = '"' then some ([], cs)
    else if c = '\\' then
      match cs with
      | [] => none
      | 'u' :: a :: b :: c :: d :: cs => do
        let n ← hex4 a b c d
        (readUnits cs).map fun r => (n :: r.1, r.2)
      | e :: cs => do
        let c ← shortEscape e
        (readUnits cs).map fun r => (c.toNat :: r.1, r.2)
    else if c.toNat < 0x20 then none
    else (readUnits cs).map fun r => (c.toNat :: r.1, r.2)

def isHigh (n : ℕ) : Bool := 0xd800 ≤ n && n ≤ 0xdbff

def isLow (n : ℕ) : Bool := 0xdc00 ≤ n && n ≤ 0xdfff

def unitChar (n : ℕ) : Char := if n.isValidChar then Char.ofNat n else '\ufffd'

def join : List ℕ → List Char
  | [] => []
  | [n] => [unitChar n]
  | n :: m :: rest =>
    if isHigh n && isLow m then Char.ofNat (0x10000 + (n-0xd800)*0x400 + (m-0xdc00)) :: join rest
    else unitChar n :: join (m :: rest)

def readString (cs : List Char) : Option (String × List Char) :=
  (readUnits cs).map fun r => (String.ofList (join r.1), r.2)

def readDigits : List Char → Option (List Char × List Char)
  | [] => none
  | c :: cs =>
    if c = '0' then some ([c], cs)
    else if c.isDigit then some (c :: cs.takeWhile Char.isDigit, cs.dropWhile Char.isDigit)
    else none

def readInteger : List Char → Option (List Char × List Char)
  | '-' :: cs => (readDigits cs).map fun p => ('-' :: p.1, p.2)
  | cs => readDigits cs

def readTail (before cs : List Char) : List Char × List Char :=
  if cs.takeWhile Char.isDigit = [] then ([], before ++ cs)
  else (before ++ cs.takeWhile Char.isDigit, cs.dropWhile Char.isDigit)

def readFraction : List Char → List Char × List Char
  | '.' :: cs => readTail ['.'] cs
  | cs => ([], cs)

def readExponent : List Char → List Char × List Char
  | [] => ([], [])
  | e :: cs =>
    if e = 'e' || e = 'E' then
      match cs with
      | [] => ([], [e])
      | sign :: ds => if sign = '+' || sign = '-' then readTail [e, sign] ds else readTail [e] cs
    else ([], e :: cs)

def floatOf (text : List Char) : Option Value :=
  if h : text ≠ [] ∧ text.all isPlain = true then some (.float ⟨text, h.1, List.all_eq_true.mp h.2⟩) else none

def intOf (text : List Char) : Option Value := do
  let n ← TomlText.readInt text
  if isShort n then some (.int n) else none

def numberOf (integer fraction exponent : List Char) : Option Value :=
  if fraction = [] ∧ exponent = [] then intOf integer else floatOf (integer ++ fraction ++ exponent)

def readNumber (cs : List Char) : Option (Value × List Char) := do
  let (integer, cs) ← readInteger cs
  let (fraction, cs) := readFraction cs
  let (exponent, cs) := readExponent cs
  (numberOf integer fraction exponent).map fun v => (v, cs)

def constants : List (List Char × Option Value) :=
  [("null".toList, some .null), ("true".toList, some (.bool true)), ("false".toList, some (.bool false)),
    ("NaN".toList, floatOf "NaN".toList), ("Infinity".toList, floatOf "Infinity".toList),
    ("-Infinity".toList, floatOf "-Infinity".toList)]

def readConstant (cs : List Char) : Option (Value × List Char) := do
  let (word, v) ← constants.find? fun e => e.1.isPrefixOf cs
  v.map fun v => (v, cs.drop word.length)

def readScalar (cs : List Char) : Option (Value × List Char) := readNumber cs <|> readConstant cs

mutual

def readValue : ℕ → List Char → Option (Value × List Char)
  | 0, _ => none
  | n+1, cs =>
    match cs with
    | '"' :: cs => (readString cs).map fun r => (.str r.1, r.2)
    | '[' :: cs =>
      match skip cs with
      | ']' :: cs => some (.list [], cs)
      | cs => (readItems n cs).map fun r => (.list r.1, r.2)
    | '\x7b' :: cs =>
      match skip cs with
      | '\x7d' :: cs => some (.dict [], cs)
      | cs => (readMembers n cs).map fun r => (.dict (OrderedDict.ofList r.1).entries, r.2)
    | cs => readScalar cs

def readItems : ℕ → List Char → Option (List Value × List Char)
  | 0, _ => none
  | n+1, cs => do
    let (v, cs) ← readValue n cs
    match skip cs with
    | ']' :: cs => some ([v], cs)
    | ',' :: cs => (readItems n (skip cs)).map fun r => (v :: r.1, r.2)
    | _ => none

def readMembers : ℕ → List Char → Option (List (String × Value) × List Char)
  | 0, _ => none
  | n+1, cs =>
    match cs with
    | '"' :: cs => do
      let (key, cs) ← readString cs
      match skip cs with
      | ':' :: cs => do
        let (v, cs) ← readValue n (skip cs)
        match skip cs with
        | '\x7d' :: cs => some ([(key, v)], cs)
        | ',' :: cs => (readMembers n (skip cs)).map fun r => ((key, v) :: r.1, r.2)
        | _ => none
      | _ => none
    | _ => none

end

/-- `json.loads(text)`, with `none` for its `ValueError`. A step of the reader takes a character, or goes into a list or
dict that has one. -/
def loads (text : List Char) : Option Value := do
  let (v, rest) ← if text.head? = some '\ufeff' then none else readValue (2*text.length+2) (skip text)
  if skip rest = [] then some v else none

end Reader

section Writer

def lineAt (level : ℕ) : List Char := '\n' :: List.replicate (2*level) ' '

def block (before after : Char) (level : ℕ) (texts : List (List Char)) : List Char :=
  if texts = [] then [before, after]
  else before :: (lineAt (level+1) ++ (',' :: lineAt (level+1)).intercalate texts ++ lineAt level ++ [after])

mutual

/-- `json.dump(value, f, indent=2, sort_keys=True)` from a level on, with `none` for its `ValueError`. -/
def dumpAt (level : ℕ) : Value → Option (List Char)
  | .null => some "null".toList
  | .bool b => some (if b then "true".toList else "false".toList)
  | .int n => if isShort n then some n.repr.toList else none
  | .float x => some x.text
  | .str s => some (quote s)
  | .list items => (dumpItems (level+1) items).map (block '[' ']' level)
  | .dict entries => (dumpEntries (level+1) entries).map fun pairs => block '\x7b' '\x7d' level ((sortKeys pairs).map pair)

def dumpItems (level : ℕ) : List Value → Option (List (List Char))
  | [] => some []
  | item :: items => do
    let text ← dumpAt level item
    let texts ← dumpItems level items
    pure (text :: texts)

def dumpEntries (level : ℕ) : List (String × Value) → Option (List (String × List Char))
  | [] => some []
  | (key, item) :: entries => do
    let text ← dumpAt level item
    let pairs ← dumpEntries level entries
    pure ((key, text) :: pairs)

end

end Writer

section Strings

theorem hexValue_digitChar : ∀ k < 16, TomlText.hexValue (Nat.digitChar k) = some k := by decide

theorem readUnits_unit16 {n : ℕ} (hn : n < 0x10000) (rest : List Char) :
    readUnits (unit16 n ++ rest) = (readUnits rest).map fun r => (n :: r.1, r.2) := by
  have hdigit (m : ℕ) : TomlText.hexValue (Nat.digitChar (m%16)) = some (m%16) := hexValue_digitChar _ (by omega)
  have hhex : hex4 (Nat.digitChar (n/4096%16)) (Nat.digitChar (n/256%16)) (Nat.digitChar (n/16%16))
      (Nat.digitChar (n%16)) = some n := by
    simp only [hex4, List.foldlM_cons, List.foldlM_nil, hdigit, Option.map_some, Option.bind_eq_bind, Option.bind_some,
      Option.pure_def, Option.some.injEq]
    omega
  calc readUnits (unit16 n ++ rest)
    _ = (hex4 (Nat.digitChar (n/4096%16)) (Nat.digitChar (n/256%16)) (Nat.digitChar (n/16%16))
        (Nat.digitChar (n%16))).bind fun m => (readUnits rest).map fun r => (m :: r.1, r.2) := rfl
    _ = (readUnits rest).map fun r => (n :: r.1, r.2) := by rw [hhex, Option.bind_some]

theorem readUnits_short : ∀ e ∈ shortEscapes, ∀ rest : List Char,
    readUnits ('\\' :: e.2 :: rest) = (readUnits rest).map fun r => (e.1.toNat :: r.1, r.2) := by
  intro e he rest
  simp only [shortEscapes, List.mem_cons, List.not_mem_nil, or_false] at he
  rcases he with rfl | rfl | rfl | rfl | rfl | rfl | rfl <;> rfl

def units (c : Char) : List ℕ :=
  if c.toNat < 0x10000 then [c.toNat] else [0xd800 + (c.toNat-0x10000)/0x400, 0xdc00 + (c.toNat-0x10000)%0x400]

theorem toNat_lt (c : Char) : c.toNat < 0x110000 := by
  have hvalid : c.toNat.isValidChar := c.valid
  rcases hvalid with h | h
  · omega
  · exact h.2

theorem not_surrogate (c : Char) : c.toNat < 0xd800 ∨ 0xdfff < c.toNat := by
  have hvalid : c.toNat.isValidChar := c.valid
  rcases hvalid with h | h
  · exact Or.inl h
  · exact Or.inr h.1

theorem readUnits_escape (c : Char) (rest : List Char) :
    readUnits (escape c ++ rest) = (readUnits rest).map fun r => (units c ++ r.1, r.2) := by
  have hlt := toNat_lt c
  unfold escape
  split
  · rename_i x letter hfind
    have hmem := List.mem_of_find?_eq_some hfind
    have hx : x = c := by simpa using List.find?_some hfind
    have hunits : units c = [c.toNat] := by
      have hsmall : ∀ e ∈ shortEscapes, e.1.toNat < 0x10000 := by decide
      rw [units, if_pos (hx ▸ hsmall _ hmem)]
    rw [hunits, ← hx]
    exact readUnits_short _ hmem rest
  · rename_i hfind
    split_ifs with hplain hunit
    · -- the character itself, which is neither a quote nor a backslash
      have hne : ∀ e ∈ shortEscapes, e.1 ≠ c := by simpa using hfind
      have hquote : c ≠ '"' := fun h => hne ('"', '"') (by decide) h.symm
      have hback : c ≠ '\\' := fun h => hne ('\\', '\\') (by decide) h.symm
      rw [isPlain, Bool.and_eq_true, decide_eq_true_eq, decide_eq_true_eq] at hplain
      rw [List.singleton_append, readUnits.eq_def]
      simp only [hquote, hback, if_false, if_neg (show ¬ c.toNat < 0x20 by omega), units,
        if_pos (show c.toNat < 0x10000 by omega), List.singleton_append]
    · rw [readUnits_unit16 hunit, units, if_pos hunit]
      rfl
    · rw [List.append_assoc, readUnits_unit16 (by omega), readUnits_unit16 (by omega), units, if_neg hunit,
        Option.map_map]
      rfl

theorem join_cons {n : ℕ} (h : isHigh n = false) (rest : List ℕ) : join (n :: rest) = unitChar n :: join rest := by
  cases rest with
  | nil => rfl
  | cons m rest => rw [join, h, Bool.false_and, if_neg Bool.false_ne_true]

theorem join_units (cs : List Char) : join (cs.flatMap units) = cs := by
  induction cs with
  | nil => rfl
  | cons c cs ih =>
    have hlt := toNat_lt c
    rw [List.flatMap_cons, units]
    split_ifs with hunit
    · have hhigh : isHigh c.toNat = false := by
        have hnot := not_surrogate c
        rw [isHigh, Bool.and_eq_false_iff, decide_eq_false_iff_not, decide_eq_false_iff_not]
        omega
      have hvalid : c.toNat.isValidChar := c.valid
      rw [List.singleton_append, join_cons hhigh, unitChar, if_pos hvalid, Char.ofNat_toNat, ih]
    · have hboth : (isHigh (0xd800 + (c.toNat-0x10000)/0x400) && isLow (0xdc00 + (c.toNat-0x10000)%0x400)) = true := by
        simp only [isHigh, isLow, Bool.and_eq_true, decide_eq_true_eq]
        omega
      have hsum : 0x10000 + (0xd800 + (c.toNat-0x10000)/0x400 - 0xd800)*0x400 +
          (0xdc00 + (c.toNat-0x10000)%0x400 - 0xdc00) = c.toNat := by omega
      rw [List.cons_append, List.singleton_append, join, if_pos hboth, hsum, Char.ofNat_toNat, ih]

theorem readUnits_text (cs rest : List Char) :
    readUnits (cs.flatMap escape ++ '"' :: rest) = some (cs.flatMap units, rest) := by
  induction cs with
  | nil =>
    rw [List.flatMap_nil, List.nil_append, readUnits.eq_def]
    rfl
  | cons c cs ih => rw [List.flatMap_cons, List.append_assoc, readUnits_escape, ih, Option.map_some, List.flatMap_cons]

theorem readString_quote (s : String) (rest : List Char) :
    readString (s.toList.flatMap escape ++ '"' :: rest) = some (s, rest) := by
  rw [readString, readUnits_text, Option.map_some, join_units, String.ofList_toList]

end Strings

section Numbers

def isNumeral (c : Char) : Bool := c.isDigit || c = '.' || c = 'e' || c = 'E' || c = '+' || c = '-'

def Ends (rest : List Char) : Prop := ∀ c, rest.head? = some c → isNumeral c = false

variable {cs rest : List Char}

theorem Ends.notDigit (h : Ends rest) {c : Char} (hc : rest.head? = some c) : c.isDigit = false := by
  have hnot := h c hc
  simp only [isNumeral, Bool.or_eq_false_iff] at hnot
  exact hnot.1.1.1.1.1

theorem takeWhile_ends (h : Ends rest) : (cs ++ rest).takeWhile Char.isDigit = cs.takeWhile Char.isDigit := by
  induction cs with
  | nil =>
    cases rest with
    | nil => rfl
    | cons c rest => simp [h.notDigit rfl]
  | cons c cs ih => rw [List.cons_append, List.takeWhile_cons, List.takeWhile_cons, ih]

theorem dropWhile_ends (h : Ends rest) : (cs ++ rest).dropWhile Char.isDigit = cs.dropWhile Char.isDigit ++ rest := by
  induction cs with
  | nil =>
    cases rest with
    | nil => rfl
    | cons c rest => simp [h.notDigit rfl]
  | cons c cs ih =>
    rw [List.cons_append, List.dropWhile_cons, List.dropWhile_cons, ih]
    split_ifs <;> rfl

theorem readDigits_append {p : List Char × List Char} (hread : readDigits cs = some p) (h : Ends rest) :
    readDigits (cs ++ rest) = some (p.1, p.2 ++ rest) := by
  cases cs with
  | nil => cases hread
  | cons c cs =>
    rw [readDigits] at hread
    rw [List.cons_append, readDigits, takeWhile_ends h, dropWhile_ends h]
    split_ifs at hread ⊢ <;> cases hread <;> rfl

theorem readInteger_append {p : List Char × List Char} (hread : readInteger cs = some p) (h : Ends rest) :
    readInteger (cs ++ rest) = some (p.1, p.2 ++ rest) := by
  unfold readInteger at hread
  split at hread
  · obtain ⟨q, hq, rfl⟩ := Option.map_eq_some_iff.mp hread
    rw [List.cons_append, readInteger, readDigits_append hq h, Option.map_some]
  · rename_i hminus
    unfold readInteger
    split
    · rename_i ds heq
      cases cs with
      | nil => cases hread
      | cons c cs =>
        obtain ⟨rfl, -⟩ := List.cons.inj heq
        exact absurd rfl (hminus cs)
    · exact readDigits_append hread h

theorem readTail_append (before : List Char) (h : Ends rest) :
    readTail before (cs ++ rest) = ((readTail before cs).1, (readTail before cs).2 ++ rest) := by
  rw [readTail, readTail, takeWhile_ends h, dropWhile_ends h]
  split_ifs
  · rw [List.append_assoc]
  · rfl

theorem readFraction_append (h : Ends rest) :
    readFraction (cs ++ rest) = ((readFraction cs).1, (readFraction cs).2 ++ rest) := by
  cases cs with
  | nil =>
    rw [List.nil_append, readFraction]
    · rfl
    · rintro ds rfl
      exact absurd (h '.' rfl) (by decide)
  | cons c cs =>
    by_cases hc : c = '.'
    · subst hc
      exact readTail_append _ h
    · rw [List.cons_append, readFraction, readFraction]
      · rfl
      · exact fun ds heq => hc (List.cons.inj heq).1
      · exact fun ds heq => hc (List.cons.inj heq).1

theorem readExponent_append (h : Ends rest) :
    readExponent (cs ++ rest) = ((readExponent cs).1, (readExponent cs).2 ++ rest) := by
  cases cs with
  | nil =>
    cases rest with
    | nil => rfl
    | cons c rest =>
      have hnot := h c rfl
      simp only [isNumeral, Bool.or_eq_false_iff, decide_eq_false_iff_not] at hnot
      simp [readExponent, hnot]
  | cons e cs =>
    unfold readExponent
    dsimp only [List.cons_append]
    split_ifs with he
    · cases cs with
      | nil =>
        -- the letter is the end of the text, and neither a sign nor a digit follows
        cases rest with
        | nil => rfl
        | cons c rest =>
          have hnot := h c rfl
          simp only [isNumeral, Bool.or_eq_false_iff, decide_eq_false_iff_not] at hnot
          simp [hnot, readTail]
      | cons sign ds =>
        dsimp only [List.cons_append]
        split_ifs
        · exact readTail_append _ h
        · rw [← List.cons_append]
          exact readTail_append _ h
    · rfl

theorem readNumber_append {p : Value × List Char} (hread : readNumber cs = some p) (h : Ends rest) :
    readNumber (cs ++ rest) = some (p.1, p.2 ++ rest) := by
  obtain ⟨⟨integer, ds⟩, hinteger, hread⟩ := Option.bind_eq_some_iff.mp hread
  replace hread : (numberOf integer (readFraction ds).1 (readExponent (readFraction ds).2).1).map
      (fun v => (v, (readExponent (readFraction ds).2).2)) = some p := hread
  obtain ⟨v, hv, rfl⟩ := Option.map_eq_some_iff.mp hread
  rw [readNumber, readInteger_append hinteger h]
  simp only [Option.bind_eq_bind, Option.bind_some, readFraction_append h, readExponent_append h, hv, Option.map_some]

theorem readDigits_toDigits (n : ℕ) : readDigits (Nat.toDigits 10 n) = some (Nat.toDigits 10 n, []) := by
  have hdigits : ∀ c ∈ Nat.toDigits 10 n, c.isDigit = true :=
    fun c hc => Nat.isDigit_of_mem_toDigits (by omega) (by omega) hc
  have hzero := TomlText.head?_toDigits n
  obtain ⟨c, ds, hds⟩ := List.exists_cons_of_ne_nil (Nat.toDigits_ne_nil (n := n) (b := 10))
  rw [hds] at hdigits hzero ⊢
  obtain ⟨hc, hrest⟩ := List.forall_mem_cons.mp hdigits
  rw [readDigits]
  split_ifs with hfirst
  · -- a number that begins with zero is zero
    have hn := hzero (congrArg some hfirst)
    rw [hn, Nat.toDigits_zero] at hds
    rw [← (List.cons.inj hds).2]
  · have htake := @TomlText.takeWhile_word Char.isDigit ds [] hrest nofun
    have hdrop := @TomlText.dropWhile_word Char.isDigit ds [] hrest nofun
    rw [List.append_nil] at htake hdrop
    rw [htake, hdrop]

theorem readInteger_repr (n : ℤ) : readInteger n.repr.toList = some (n.repr.toList, []) := by
  rw [Int.repr_eq_if]
  split_ifs with hn
  · rw [Nat.toList_repr]
    unfold readInteger
    split
    · rename_i ds heq
      have hdigit := Nat.isDigit_of_mem_toDigits (b := 10) (c := '-') (n := n.toNat) (by omega) (by omega)
        (heq ▸ List.mem_cons_self)
      exact absurd hdigit (by decide)
    · exact readDigits_toDigits _
  · have hminus : "-".toList = ['-'] := rfl
    rw [String.toList_append, Nat.toList_repr, hminus, List.singleton_append, readInteger, readDigits_toDigits,
      Option.map_some]

theorem readNumber_repr {n : ℤ} (h : isShort n = true) : readNumber n.repr.toList = some (.int n, []) := by
  rw [readNumber, readInteger_repr]
  simp only [Option.bind_eq_bind, Option.bind_some, readFraction, readExponent, numberOf, and_self, if_true, intOf,
    TomlText.readInt_repr, h, Option.map_some]

end Numbers

section Scalars

variable {cs rest : List Char}

theorem readScalar_eq_none {c : Char} (hc : c ∈ [' ', '\t', '\n', '\r', '"', '[', ']', '\x7b', '\x7d', '\ufeff'])
    (cs : List Char) : readScalar (c :: cs) = none := by
  simp only [List.mem_cons, List.not_mem_nil, or_false] at hc
  rcases hc with rfl | rfl | rfl | rfl | rfl | rfl | rfl | rfl | rfl | rfl <;> rfl

theorem readConstant_append : ∀ e ∈ constants, ∀ v, e.2 = some v → readScalar (e.1 ++ rest) = some (v, rest) := by
  intro e he v hv
  simp only [constants, List.mem_cons, List.not_mem_nil, or_false] at he
  rcases he with rfl | rfl | rfl | rfl | rfl | rfl <;> cases hv <;> rfl

theorem readConstant_eq {v : Value} (h : readConstant cs = some (v, [])) : ∃ e ∈ constants, cs = e.1 ∧ e.2 = some v := by
  obtain ⟨e, hfind, h⟩ := Option.bind_eq_some_iff.mp h
  obtain ⟨w, hw, h⟩ := Option.map_eq_some_iff.mp h
  obtain ⟨rfl, hdrop⟩ := Prod.mk.inj h
  obtain ⟨tail, htail⟩ : e.1 <+: cs := by simpa using List.find?_some hfind
  rw [← htail, List.drop_left] at hdrop
  rw [hdrop, List.append_nil] at htail
  exact ⟨e, List.mem_of_find?_eq_some hfind, htail.symm, hw⟩

theorem readScalar_append {v : Value} (hread : readScalar cs = some (v, [])) (h : Ends rest) :
    readScalar (cs ++ rest) = some (v, rest) := by
  cases hnumber : readNumber cs with
  | some p =>
    obtain rfl : p = (v, []) := by simpa [readScalar, hnumber] using hread
    simp [readScalar, readNumber_append hnumber h]
  | none =>
    replace hread : readConstant cs = some (v, []) := by simpa [readScalar, hnumber] using hread
    obtain ⟨e, he, rfl, hv⟩ := readConstant_eq hread
    exact readConstant_append e he v hv

end Scalars

section Values

/-- The text stands for the value, wherever no number goes on behind it. -/
structure Reads (text : List Char) (v : Value) : Prop where
  start : ∃ c cs, text = c :: cs ∧ isBlank c = false ∧ c ≠ ']' ∧ c ≠ '\ufeff'
  read : ∀ n rest, 2*text.length ≤ n → Ends rest → readValue n (text ++ rest) = some (v, rest)

variable {text rest : List Char} {v : Value}

theorem skip_cons {c : Char} (hc : isBlank c = false) (cs : List Char) : skip (c :: cs) = c :: cs := by
  rw [skip, List.dropWhile_cons, hc, if_neg Bool.false_ne_true]

theorem skip_lineAt (level : ℕ) (cs : List Char) : skip (lineAt level ++ cs) = skip cs := by
  refine List.dropWhile_append_of_pos fun c hc => ?_
  rcases List.mem_cons.mp hc with rfl | hc
  · decide
  · rw [(List.mem_replicate.mp hc).2]
    decide

theorem ends_lineAt (level : ℕ) (cs : List Char) : Ends (lineAt level ++ cs) := by
  intro c hc
  cases hc
  decide

theorem ends_comma (cs : List Char) : Ends (',' :: cs) := by
  intro c hc
  cases hc
  decide

theorem Reads.skip (h : Reads text v) (rest : List Char) : JsonText.skip (text ++ rest) = text ++ rest := by
  obtain ⟨c, cs, rfl, hc, -, -⟩ := h.start
  exact skip_cons hc _

theorem reads_scalar (hread : readScalar text = some (v, [])) : Reads text v := by
  cases text with
  | nil => cases hread
  | cons c cs =>
    have hnot (hc : c ∈ [' ', '\t', '\n', '\r', '"', '[', ']', '\x7b', '\x7d', '\ufeff']) : False := by
      rw [readScalar_eq_none hc] at hread
      cases hread
    simp only [List.mem_cons, List.not_mem_nil, or_false] at hnot
    refine ⟨⟨c, cs, rfl, ?_, ?_, ?_⟩, fun n rest hn hrest => ?_⟩
    · simp only [isBlank, Bool.or_eq_false_iff, decide_eq_false_iff_not]
      tauto
    · tauto
    · tauto
    · obtain ⟨m, rfl⟩ : ∃ m, n = m+1 := ⟨n-1, by simp only [List.length_cons] at hn; omega⟩
      have hother {d : Char} (hd : c ≠ d) (ds : List Char) : c :: (cs ++ rest) = d :: ds → False :=
        fun heq => hd (List.cons.inj heq).1
      have hvalue : readValue (m+1) (c :: (cs ++ rest)) = readScalar (c :: (cs ++ rest)) := by
        rw [readValue]
        · exact hother (by tauto)
        · exact hother (by tauto)
        · exact hother (by tauto)
      rw [List.cons_append, hvalue, ← List.cons_append]
      exact readScalar_append hread hrest

theorem reads_quote (s : String) : Reads (quote s) (.str s) := by
  refine ⟨⟨'"', s.toList.flatMap escape ++ ['"'], rfl, by decide, by decide, by decide⟩, fun n rest hn _ => ?_⟩
  obtain ⟨m, rfl⟩ : ∃ m, n = m+1 := ⟨n-1, by simp only [quote, List.length_cons] at hn; omega⟩
  rw [quote, List.cons_append, List.append_assoc, List.singleton_append, readValue, readString_quote]
  rfl

section Lists

theorem intercalate_start (sep text : List Char) (texts : List (List Char)) :
    ∃ more, sep.intercalate (text :: texts) = text ++ more := by
  cases texts with
  | nil => exact ⟨[], by rw [List.intercalate_singleton, List.append_nil]⟩
  | cons next texts => exact ⟨_, by rw [List.intercalate_cons_cons, List.append_assoc]⟩

/-- The reader `many` of what stands between brackets takes the text for the entry, behind which the closing bracket or
a comma may follow. -/
structure Separated {β : Type} (many : ℕ → List Char → Option (List β × List Char)) (close : Char)
    (p : List Char × β) : Prop where
  start : ∃ c cs, p.1 = c :: cs ∧ isBlank c = false ∧ c ≠ close
  last : ∀ n level rest, 2*p.1.length < n → many n (p.1 ++ (lineAt level ++ close :: rest)) = some ([p.2], rest)
  next : ∀ n tail, 2*p.1.length ≤ n →
    many (n+1) (p.1 ++ ',' :: tail) = (many n (JsonText.skip tail)).map fun r => (p.2 :: r.1, r.2)

variable {β : Type} {many : ℕ → List Char → Option (List β × List Char)} {opening close : Char}
variable {p : List Char × β} {pieces : List (List Char × β)} (level : ℕ)

theorem Separated.skip (h : Separated many close p) (cs : List Char) : JsonText.skip (p.1 ++ cs) = p.1 ++ cs := by
  obtain ⟨c, ds, hp, hc, -⟩ := h.start
  rw [hp]
  exact skip_cons hc _

theorem many_lines (hne : pieces ≠ []) (h : ∀ p ∈ pieces, Separated many close p) {n : ℕ}
    (hn : 2*((',' :: lineAt (level+1)).intercalate (pieces.map Prod.fst)).length < n) (rest : List Char) :
    many n ((',' :: lineAt (level+1)).intercalate (pieces.map Prod.fst) ++ (lineAt level ++ close :: rest)) =
      some (pieces.map Prod.snd, rest) := by
  induction pieces generalizing n with
  | nil => exact absurd rfl hne
  | cons p pieces ih =>
    obtain ⟨hp, hpieces⟩ := List.forall_mem_cons.mp h
    cases pieces with
    | nil =>
      rw [List.map_singleton, List.intercalate_singleton] at hn ⊢
      exact hp.last n level rest hn
    | cons q pieces =>
      rw [List.map_cons, List.map_cons, List.intercalate_cons_cons, List.append_assoc, List.length_append,
        List.length_append, List.length_cons] at hn
      obtain ⟨m, rfl⟩ : ∃ m, n = m+1 := ⟨n-1, by omega⟩
      have hrest := ih (List.cons_ne_nil _ _) hpieces (n := m) (by rw [List.map_cons]; omega)
      obtain ⟨more, hmore⟩ := intercalate_start (',' :: lineAt (level+1)) q.1 (pieces.map Prod.fst)
      rw [List.map_cons, hmore, List.append_assoc] at hrest
      rw [List.map_cons, List.map_cons, List.intercalate_cons_cons, hmore, List.append_assoc, List.append_assoc,
        List.append_assoc, List.cons_append, hp.next m _ (by omega), skip_lineAt, (hpieces q List.mem_cons_self).skip,
        hrest]
      rfl

theorem reads_block {f : List β → Value} (hopening : isBlank opening = false ∧ opening ≠ ']' ∧ opening ≠ '\ufeff')
    (hempty : ∀ n rest, readValue (n+1) (opening :: close :: rest) = some (f [], rest))
    (hmany : ∀ n cs, (skip cs).head? ≠ some close →
      readValue (n+1) (opening :: cs) = (many n (skip cs)).map fun r => (f r.1, r.2))
    (h : ∀ p ∈ pieces, Separated many close p) :
    Reads (block opening close level (pieces.map Prod.fst)) (f (pieces.map Prod.snd)) := by
  unfold block
  split_ifs with hnil
  · obtain rfl := List.map_eq_nil_iff.mp hnil
    refine ⟨⟨opening, [close], rfl, hopening⟩, fun n rest hn _ => ?_⟩
    obtain ⟨m, rfl⟩ : ∃ m, n = m+1 := ⟨n-1, by simp only [List.length_cons] at hn; omega⟩
    exact hempty m rest
  · have hne : pieces ≠ [] := fun heq => hnil (by rw [heq, List.map_nil])
    refine ⟨⟨opening, _, rfl, hopening⟩, fun n rest hn _ => ?_⟩
    simp only [List.length_cons, List.length_append, List.length_nil] at hn
    obtain ⟨m, rfl⟩ : ∃ m, n = m+1 := ⟨n-1, by omega⟩
    have hlines := many_lines level hne h (n := m) (by omega) rest
    obtain ⟨p, ps, rfl⟩ := List.exists_cons_of_ne_nil hne
    have hp := h p List.mem_cons_self
    obtain ⟨more, hmore⟩ := intercalate_start (',' :: lineAt (level+1)) p.1 (ps.map Prod.fst)
    rw [List.map_cons, hmore, List.append_assoc] at hlines
    rw [List.map_cons, hmore]
    simp only [List.cons_append, List.append_assoc, List.nil_append]
    have hskip : skip (lineAt (level+1) ++ (p.1 ++ (more ++ (lineAt level ++ close :: rest)))) =
        p.1 ++ (more ++ (lineAt level ++ close :: rest)) := by
      rw [skip_lineAt, hp.skip]
    rw [hmany, hskip, hlines, Option.map_some]
    obtain ⟨c, cs, htext, -, hc⟩ := hp.start
    rw [hskip, htext]
    exact fun heq => hc (Option.some.inj heq)

theorem separated_item (h : Reads text v) : Separated readItems ']' (text, v) where
  start := by
    obtain ⟨c, cs, htext, hblank, hc, -⟩ := h.start
    exact ⟨c, cs, htext, hblank, hc⟩
  last n level rest hn := by
    obtain ⟨m, rfl⟩ : ∃ m, n = m+1 := ⟨n-1, by omega⟩
    have hclose : skip (lineAt level ++ ']' :: rest) = ']' :: rest := by
      rw [skip_lineAt, skip_cons (by decide)]
    rw [readItems, h.read m _ (Nat.le_of_lt_succ hn) (ends_lineAt level _)]
    simp only [Option.bind_eq_bind, Option.bind_some, hclose]
  next n tail hn := by
    rw [readItems, h.read n _ hn (ends_comma _)]
    simp only [Option.bind_eq_bind, Option.bind_some, skip_cons (c := ',') (by decide)]

theorem reads_list {pieces : List (List Char × Value)} (h : ∀ p ∈ pieces, Reads p.1 p.2) :
    Reads (block '[' ']' level (pieces.map Prod.fst)) (.list (pieces.map Prod.snd)) := by
  refine reads_block level (by decide) (fun _ _ => rfl) (fun n cs hcs => ?_) fun p hp => separated_item (h p hp)
  rw [readValue]
  split
  · rename_i ds heq
    exact absurd (congrArg List.head? heq) hcs
  · rfl

theorem separated_member (h : Reads text v) (key : String) : Separated readMembers '\x7d' (pair (key, text), (key, v)) := by
  have htext (after : List Char) :
      pair (key, text) ++ after = '"' :: (key.toList.flatMap escape ++ '"' :: ':' :: ' ' :: (text ++ after)) := by
    simp [pair, quote]
  have hblank (after : List Char) : skip (' ' :: (text ++ after)) = text ++ after := h.skip after
  have hlength : text.length + 4 ≤ (pair (key, text)).length := by
    simp only [pair, quote, List.length_append, List.length_cons, List.length_nil]
    omega
  refine ⟨⟨'"', _, rfl, by decide, by decide⟩, fun n level rest (hn : 2*(pair (key, text)).length < n) => ?_,
    fun n tail (hn : 2*(pair (key, text)).length ≤ n) => ?_⟩
  · obtain ⟨m, rfl⟩ : ∃ m, n = m+1 := ⟨n-1, by omega⟩
    have hread := h.read m (lineAt level ++ '\x7d' :: rest) (by omega) (ends_lineAt level _)
    rw [htext, readMembers, readString_quote]
    simp only [Option.bind_eq_bind, Option.bind_some, skip_cons (c := ':') (by decide), hblank, hread, skip_lineAt,
      skip_cons (c := '\x7d') (by decide)]
  · have hread := h.read n (',' :: tail) (by omega) (ends_comma _)
    rw [htext, readMembers, readString_quote]
    simp only [Option.bind_eq_bind, Option.bind_some, skip_cons (c := ':') (by decide), hblank, hread,
      skip_cons (c := ',') (by decide)]

theorem reads_dict {pieces : List (String × List Char × Value)} (h : ∀ p ∈ pieces, Reads p.2.1 p.2.2)
    (hkeys : (pieces.map fun p => p.1).Nodup) :
    Reads (block '\x7b' '\x7d' level (pieces.map fun p => pair (p.1, p.2.1))) (.dict (pieces.map fun p => (p.1, p.2.2))) := by
  have hentries : (OrderedDict.ofList (pieces.map fun p => (p.1, p.2.2))).entries = pieces.map fun p => (p.1, p.2.2) :=
    OrderedDict.entries_ofList _ (by rw [List.map_map]; exact hkeys)
  have hmembers : ∀ p ∈ pieces.map (fun p => (pair (p.1, p.2.1), (p.1, p.2.2))), Separated readMembers '\x7d' p := by
    intro p hp
    obtain ⟨q, hq, rfl⟩ := List.mem_map.mp hp
    exact separated_member (h q hq) q.1
  have hread : Reads (block '\x7b' '\x7d' level _) _ :=
    reads_block (f := fun entries => .dict (OrderedDict.ofList entries).entries) level (by decide) (fun _ _ => rfl)
      (fun n cs hcs => ?_) hmembers
  · simp only [List.map_map, Function.comp_def, hentries] at hread
    exact hread
  · rw [readValue]
    split
    · rename_i ds heq
      exact absurd (congrArg List.head? heq) hcs
    · rfl

end Lists

end Values

mutual

/-- The values that a program can have: no key occurs twice, and a float's text is that of a float. -/
def Value.Proper : Value → Prop
  | .null | .bool _ | .int _ | .str _ => True
  | .float x => readScalar x.text = some (.float x, [])
  | .list items => ProperItems items
  | .dict entries => (entries.map Prod.fst).Nodup ∧ ProperEntries entries

def ProperItems : List Value → Prop
  | [] => True
  | item :: items => item.Proper ∧ ProperItems items

def ProperEntries : List (String × Value) → Prop
  | [] => True
  | (_, item) :: entries => item.Proper ∧ ProperEntries entries

end

theorem properEntries_iff {entries : List (String × Value)} : ProperEntries entries ↔ ∀ e ∈ entries, e.2.Proper := by
  induction entries with
  | nil => exact ⟨fun _ => List.forall_mem_nil _, fun _ => trivial⟩
  | cons e entries ih => rw [ProperEntries, ih, List.forall_mem_cons]

def sortEntries (entries : List (String × Value)) : List (String × Value) :=
  entries.insertionSort fun a b => a.1 ≤ b.1

mutual

/-- The value with every dict in the order of its keys. To a program it is the same value. -/
def Value.sorted : Value → Value
  | .null => .null
  | .bool b => .bool b
  | .int n => .int n
  | .float x => .float x
  | .str s => .str s
  | .list items => .list (sortedItems items)
  | .dict entries => .dict (sortEntries (sortedEntries entries))

def sortedItems : List Value → List Value
  | [] => []
  | item :: items => item.sorted :: sortedItems items

def sortedEntries : List (String × Value) → List (String × Value)
  | [] => []
  | (key, item) :: entries => (key, item.sorted) :: sortedEntries entries

end

theorem keys_sortedEntries (entries : List (String × Value)) :
    (sortedEntries entries).map Prod.fst = entries.map Prod.fst := by
  induction entries with
  | nil => rfl
  | cons e entries ih => rw [sortedEntries, List.map_cons, List.map_cons, ih]

mutual

theorem reads_dumpAt : ∀ {v : Value} {level : ℕ} {text : List Char}, v.Proper → dumpAt level v = some text →
    Reads text v.sorted
  | .null, level, text, _, h => by
    cases h
    exact reads_scalar (by rfl)
  | .bool b, level, text, _, h => by
    cases h
    cases b with
    | false => exact reads_scalar (by rfl)
    | true => exact reads_scalar (by rfl)
  | .int n, level, text, _, h => by
    rw [dumpAt] at h
    split_ifs at h with hshort
    cases h
    refine reads_scalar ?_
    rw [readScalar, readNumber_repr hshort]
    rfl
  | .float x, level, text, hproper, h => by
    cases h
    exact reads_scalar hproper
  | .str s, level, text, _, h => by
    cases h
    exact reads_quote s
  | .list items, level, text, hproper, h => by
    rw [dumpAt] at h
    obtain ⟨texts, htexts, rfl⟩ := Option.map_eq_some_iff.mp h
    obtain ⟨pieces, hpieces, rfl, hvalues⟩ := reads_dumpItems hproper htexts
    rw [Value.sorted, ← hvalues]
    exact reads_list level hpieces
  | .dict entries, level, text, hproper, h => by
    rw [dumpAt] at h
    obtain ⟨pairs, hpairs, rfl⟩ := Option.map_eq_some_iff.mp h
    obtain ⟨pieces, hpieces, rfl, hvalues⟩ := reads_dumpEntries hproper.2 hpairs
    -- the texts and the values are sorted by the same keys
    obtain ⟨inOrder, hinOrder⟩ : ∃ l, l = pieces.insertionSort fun a b => a.1 ≤ b.1 := ⟨_, rfl⟩
    have hsort {β : Type} (f : List Char × Value → β) : (pieces.map fun p => (p.1, f p.2)).insertionSort
        (fun a b => a.1 ≤ b.1) = inOrder.map fun p => (p.1, f p.2) := by
      rw [hinOrder]
      symm
      refine List.map_insertionSort (fun a b => a.1 ≤ b.1) (fun a b => a.1 ≤ b.1) (fun p => (p.1, f p.2)) pieces ?_
      exact fun _ _ _ _ => Iff.rfl
    have htexts : sortKeys (pieces.map fun p => (p.1, p.2.1)) = inOrder.map fun p => (p.1, p.2.1) := hsort Prod.fst
    have hsorted : sortEntries (pieces.map fun p => (p.1, p.2.2)) = inOrder.map fun p => (p.1, p.2.2) := hsort Prod.snd
    have hperm : inOrder.Perm pieces := hinOrder ▸ List.perm_insertionSort _ _
    have hkeys : (inOrder.map fun p => p.1).Nodup := by
      have hnames : (pieces.map fun p => p.1) = entries.map Prod.fst := by
        rw [← keys_sortedEntries, ← hvalues, List.map_map]
        rfl
      rw [(hperm.map _).nodup_iff, hnames]
      exact hproper.1
    rw [Value.sorted, ← hvalues, hsorted, htexts, List.map_map]
    exact reads_dict level (fun p hp => hpieces p (hperm.mem_iff.mp hp)) hkeys

theorem reads_dumpItems : ∀ {items : List Value} {level : ℕ} {texts : List (List Char)}, ProperItems items →
    dumpItems level items = some texts → ∃ pieces : List (List Char × Value), (∀ p ∈ pieces, Reads p.1 p.2) ∧
      pieces.map Prod.fst = texts ∧ pieces.map Prod.snd = sortedItems items
  | [], level, texts, _, h => by
    cases h
    exact ⟨[], List.forall_mem_nil _, rfl, rfl⟩
  | item :: items, level, texts, hproper, h => by
    rw [dumpItems] at h
    obtain ⟨text, htext, h⟩ := Option.bind_eq_some_iff.mp h
    obtain ⟨texts, htexts, h⟩ := Option.bind_eq_some_iff.mp h
    cases h
    have hfirst := reads_dumpAt hproper.1 htext
    obtain ⟨pieces, hpieces, rfl, hvalues⟩ := reads_dumpItems hproper.2 htexts
    refine ⟨(text, item.sorted) :: pieces, List.forall_mem_cons.mpr ⟨hfirst, hpieces⟩, rfl, ?_⟩
    rw [List.map_cons, hvalues, sortedItems]

theorem reads_dumpEntries : ∀ {entries : List (String × Value)} {level : ℕ} {pairs : List (String × List Char)},
    ProperEntries entries → dumpEntries level entries = some pairs →
      ∃ pieces : List (String × List Char × Value), (∀ p ∈ pieces, Reads p.2.1 p.2.2) ∧
        pieces.map (fun p => (p.1, p.2.1)) = pairs ∧ pieces.map (fun p => (p.1, p.2.2)) = sortedEntries entries
  | [], level, pairs, _, h => by
    cases h
    exact ⟨[], List.forall_mem_nil _, rfl, rfl⟩
  | (key, item) :: entries, level, pairs, hproper, h => by
    rw [dumpEntries] at h
    obtain ⟨text, htext, h⟩ := Option.bind_eq_some_iff.mp h
    obtain ⟨pairs, hpairs, h⟩ := Option.bind_eq_some_iff.mp h
    cases h
    have hfirst := reads_dumpAt hproper.1 htext
    obtain ⟨pieces, hpieces, rfl, hvalues⟩ := reads_dumpEntries hproper.2 hpairs
    refine ⟨(key, text, item.sorted) :: pieces, List.forall_mem_cons.mpr ⟨hfirst, hpieces⟩, rfl, ?_⟩
    rw [List.map_cons, hvalues, sortedEntries]

end

theorem loads_dumpAt {v : Value} {text : List Char} (hproper : v.Proper) (h : dumpAt 0 v = some text) :
    loads (text ++ ['\n']) = some v.sorted := by
  have hreads := reads_dumpAt hproper h
  have hmark : (text ++ ['\n']).head? ≠ some '\ufeff' := by
    obtain ⟨c, cs, rfl, -, -, hc⟩ := hreads.start
    exact fun hfirst => hc (Option.some.inj hfirst)
  have hend : Ends ['\n'] := ends_lineAt 0 []
  have hread := hreads.read (2*(text ++ ['\n']).length + 2) ['\n'] (by rw [List.length_append]; omega) hend
  rw [loads, if_neg hmark, hreads.skip, hread]
  rfl

end JsonText
