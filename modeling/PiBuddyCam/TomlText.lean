import Mathlib.Algebra.Order.Ring.Int
import PiBuddyCam.OrderedDict

/-! A reader for the line-based part of TOML 1.0: comments, bare and quoted keys, tables, and basic
strings, decimal integers, booleans and arrays of those as values. What TOML has beyond that (other
strings, dotted keys, arrays of tables, values over several lines) is refused. -/
namespace TomlText

/-- A value in a table. Floats and dates are `other`, and of a table further down only that it is one
is kept. -/
inductive Value where
  | str (s : String)
  | int (n : ℤ)
  | bool (b : Bool)
  | array (items : List Value)
  | table
  | other

inductive Item where
  | value (v : Value)
  | table (entries : OrderedDict String Value)

abbrev Document := OrderedDict String Item

def illegal (c : Char) : Bool := (c.toNat < 0x20 && c ≠ '\t') || c.toNat == 0x7f

def isBlank (c : Char) : Bool := c = ' ' || c = '\t'

def isBare (c : Char) : Bool := c.isAlphanum || c = '_' || c = '-'

def skipBlank (cs : List Char) : List Char := cs.dropWhile isBlank

def atEnd (cs : List Char) : Bool :=
  match skipBlank cs with
  | [] => true
  | c :: cs => c = '#' && cs.all fun c => !illegal c

def hexValue (c : Char) : Option ℕ :=
  if c.isDigit then some (c.toNat - '0'.toNat)
  else if 'a' ≤ c ∧ c ≤ 'f' then some (c.toNat - 'a'.toNat+10)
  else if 'A' ≤ c ∧ c ≤ 'F' then some (c.toNat - 'A'.toNat+10)
  else none

def unicode (digits : List Char) : Option Char := do
  let n ← digits.foldlM (fun n c => (hexValue c).map (16*n+·)) 0
  if n.isValidChar then some (Char.ofNat n) else none

def shortEscape (c : Char) : Option Char :=
  match c with
  | 'b' => some '\x08'
  | 't' => some '\t'
  | 'n' => some '\n'
  | 'f' => some '\x0c'
  | 'r' => some '\r'
  | '"' => some '"'
  | '\\' => some '\\'
  | _ => none

def readString : List Char → Option (List Char × List Char)
  | [] => none
  | c :: cs =>
    if c = '"' then some ([], cs)
    else if c = '\\' then
      match cs with
      | [] => none
      | e :: cs =>
        match shortEscape e with
        | some c => (readString cs).map fun r => (c :: r.1, r.2)
        | none =>
          match e, cs with
          | 'u', a :: b :: c :: d :: cs => do
            let x ← unicode [a, b, c, d]
            let r ← readString cs
            pure (x :: r.1, r.2)
          | 'U', a :: b :: c :: d :: f :: g :: h :: i :: cs => do
            let x ← unicode [a, b, c, d, f, g, h, i]
            let r ← readString cs
            pure (x :: r.1, r.2)
          | _, _ => none
    else if illegal c then none
    else (readString cs).map fun r => (c :: r.1, r.2)

def readKey (cs : List Char) : Option (List Char × List Char) :=
  match cs with
  | '"' :: cs => readString cs
  | cs => if cs.takeWhile isBare = [] then none else some (cs.takeWhile isBare, cs.dropWhile isBare)

def readNat (digits : List Char) : Option ℕ :=
  if digits ≠ [] ∧ digits.all Char.isDigit ∧ (digits.head? = some '0' → digits = ['0']) then
    some (Nat.ofDigitChars 10 digits 0)
  else none

def readInt (word : List Char) : Option ℤ :=
  match word with
  | '-' :: digits => (readNat digits).map fun n : ℕ => -(n : ℤ)
  | '+' :: digits => (readNat digits).map fun n : ℕ => (n : ℤ)
  | digits => (readNat digits).map fun n : ℕ => (n : ℤ)

def isWord (c : Char) : Bool := isBare c || c = '+' || c = '.' || c = ':'

def wordValue (word : List Char) : Option Value :=
  if word = "true".toList then some (.bool true)
  else if word = "false".toList then some (.bool false)
  else (readInt word).map .int

def readScalar (cs : List Char) : Option (Value × List Char) :=
  match cs with
  | '"' :: cs =>
    if ['"', '"'].isPrefixOf cs then none
    else (readString cs).map fun r => (.str (String.ofList r.1), r.2)
  | cs => (wordValue (cs.takeWhile isWord)).map fun v => (v, cs.dropWhile isWord)

def readItems : ℕ → List Char → Option (List Value × List Char)
  | 0, _ => none
  | n+1, cs =>
    match skipBlank cs with
    | ']' :: cs => some ([], cs)
    | cs =>
      match readScalar cs with
      | none => none
      | some (v, cs) =>
        match skipBlank cs with
        | ',' :: cs => (readItems n cs).map fun r => (v :: r.1, r.2)
        | ']' :: cs => some ([v], cs)
        | _ => none

def readValue (cs : List Char) : Option (Value × List Char) :=
  match cs with
  | '[' :: cs => (readItems cs.length cs).map fun r => (.array r.1, r.2)
  | cs => readScalar cs

inductive Line where
  | blank
  | header (key : String)
  | pair (key : String) (v : Value)

def readLine (cs : List Char) : Option Line :=
  if atEnd cs then some .blank
  else match skipBlank cs with
    | '[' :: cs => do
      let (key, cs) ← readKey (skipBlank cs)
      match skipBlank cs with
      | ']' :: cs => if atEnd cs then some (.header (String.ofList key)) else none
      | _ => none
    | cs => do
      let (key, cs) ← readKey cs
      match skipBlank cs with
      | '=' :: cs =>
        let (v, cs) ← readValue (skipBlank cs)
        if atEnd cs then some (.pair (String.ofList key) v) else none
      | _ => none

structure Builder where
  doc : Document := .empty
  current : Option String := none

namespace Builder

def add (b : Builder) (key : String) (v : Value) : Option Builder :=
  match b.current with
  | none => if (b.doc.get? key).isSome then none else some { b with doc := b.doc.set key (.value v) }
  | some name =>
    match b.doc.get? name with
    | some (.table entries) =>
      if (entries.get? key).isSome then none
      else some { b with doc := b.doc.set name (.table (entries.set key v)) }
    | _ => none

def step (b : Builder) : Line → Option Builder
  | .blank => some b
  | .header key => if (b.doc.get? key).isSome then none else some ⟨b.doc.set key (.table .empty), some key⟩
  | .pair key v => b.add key v

end Builder

def readLines (b : Builder) (lines : List (List Char)) : Option Builder :=
  lines.foldlM (fun b cs => (readLine cs).bind b.step) b

def read (text : String) : Option Document := (readLines {} (text.toList.splitOn '\n')).map Builder.doc

section Pieces

variable {p : Char → Bool} {word rest : List Char}

theorem takeWhile_word (hword : ∀ c ∈ word, p c = true) (hrest : ∀ c, rest.head? = some c → p c = false) :
    (word ++ rest).takeWhile p = word := by
  rw [List.takeWhile_append_of_pos hword]
  cases rest with
  | nil => simp
  | cons c cs => simp [hrest c rfl]

theorem dropWhile_word (hword : ∀ c ∈ word, p c = true) (hrest : ∀ c, rest.head? = some c → p c = false) :
    (word ++ rest).dropWhile p = rest := by
  rw [List.dropWhile_append_of_pos hword]
  cases rest with
  | nil => rfl
  | cons c cs => rw [List.dropWhile_cons, hrest c rfl]; rfl

theorem skipBlank_eq_self {cs : List Char} (h : ∀ c, cs.head? = some c → isBlank c = false) : skipBlank cs = cs :=
  @dropWhile_word isBlank [] cs (by simp) h

theorem skipBlank_cons {c : Char} (hc : isBlank c = false) (cs : List Char) : skipBlank (c :: cs) = c :: cs :=
  List.dropWhile_cons_of_neg (Bool.eq_false_iff.mp hc)

theorem skipBlank_blank (cs : List Char) : skipBlank (' ' :: cs) = skipBlank cs := rfl

theorem atEnd_cons {c : Char} {cs : List Char} (hblank : isBlank c = false) (hcomment : c ≠ '#') :
    atEnd (c :: cs) = false := by
  rw [atEnd, skipBlank_cons hblank]
  simp [hcomment]

theorem isBare_quote : isBare '"' = false := by decide

theorem readKey_bare (hne : word ≠ []) (hword : ∀ c ∈ word, isBare c = true)
    (hrest : ∀ c, rest.head? = some c → isBare c = false) : readKey (word ++ rest) = some (word, rest) := by
  cases word with
  | nil => exact absurd rfl hne
  | cons c cs =>
    have hquote : c ≠ '"' := by
      intro hc
      have hbare := hword c List.mem_cons_self
      rw [hc, isBare_quote] at hbare
      cases hbare
    unfold readKey
    split
    · rename_i heq
      exact absurd (List.cons.inj heq).1 hquote
    · rw [takeWhile_word hword hrest, dropWhile_word hword hrest, if_neg hne]

theorem isBare_not_blank {c : Char} (h : isBare c = true) : isBlank c = false ∧ c ≠ '#' ∧ c ≠ '[' := by
  refine ⟨?_, ?_, ?_⟩
  · by_contra hblank
    simp only [isBlank, Bool.not_eq_false, Bool.or_eq_true, decide_eq_true_eq] at hblank
    rcases hblank with rfl | rfl
    · exact absurd h (by decide)
    · exact absurd h (by decide)
  · rintro rfl
    exact absurd h (by decide)
  · rintro rfl
    exact absurd h (by decide)

theorem readLine_header (hne : word ≠ []) (hword : ∀ c ∈ word, isBare c = true) :
    readLine ('[' :: (word ++ [']'])) = some (.header (String.ofList word)) := by
  have hkey : readKey (word ++ [']']) = some (word, [']']) := by
    apply readKey_bare hne hword
    rintro c ⟨⟩
    decide
  have hskip : skipBlank (word ++ [']']) = word ++ [']'] := by
    obtain ⟨c, cs, rfl⟩ := List.exists_cons_of_ne_nil hne
    exact skipBlank_cons (isBare_not_blank (hword c List.mem_cons_self)).1 _
  rw [readLine, atEnd_cons (by decide) (by decide), skipBlank_cons (by decide)]
  simp only [Bool.false_eq_true, if_false, hskip, hkey, Option.bind_eq_bind, Option.bind_some]
  rfl

theorem readLine_pair {keyText key text : List Char} {v : Value}
    (hkey : readKey (keyText ++ ' ' :: '=' :: ' ' :: text) = some (key, ' ' :: '=' :: ' ' :: text))
    (hne : keyText ≠ []) (hstart : ∀ c, keyText.head? = some c → isBlank c = false ∧ c ≠ '#' ∧ c ≠ '[')
    (htext : ∀ c, text.head? = some c → isBlank c = false) (hvalue : readValue text = some (v, [])) :
    readLine (keyText ++ ' ' :: '=' :: ' ' :: text) = some (.pair (String.ofList key) v) := by
  obtain ⟨c, cs, rfl⟩ := List.exists_cons_of_ne_nil hne
  obtain ⟨hblank, hcomment, hbracket⟩ := hstart c rfl
  have hskip : skipBlank (' ' :: text) = text := skipBlank_eq_self htext
  have hassign : skipBlank (' ' :: '=' :: ' ' :: text) = '=' :: ' ' :: text :=
    skipBlank_cons (c := '=') (by decide) _
  rw [List.cons_append] at hkey ⊢
  rw [readLine, atEnd_cons hblank hcomment, skipBlank_cons hblank]
  simp only [Bool.false_eq_true, if_false]
  split
  · rename_i heq
    exact absurd (List.cons.inj heq).1 hbracket
  · simp only [hkey, hassign, hskip, hvalue, Option.bind_eq_bind, Option.bind_some]
    rfl

end Pieces

section Values

variable (n : ℕ)

theorem head?_toDigits (h : (Nat.toDigits 10 n).head? = some '0') : n = 0 := by
  induction n using Nat.strongRecOn with
  | ind n ih =>
    by_cases hn : n < 10
    · have hchar : ∀ m < 10, m.digitChar = '0' → m = 0 := by decide
      rw [Nat.toDigits_of_lt_base hn] at h
      exact hchar n hn (Option.some.inj h)
    · have hne : Nat.toDigits 10 (n/10) ≠ [] := Nat.toDigits_ne_nil
      rw [Nat.toDigits_of_base_le (by omega) (by omega), List.head?_append_of_ne_nil _ hne] at h
      have hdiv := ih (n/10) (by omega) h
      omega

theorem readNat_toDigits : readNat (Nat.toDigits 10 n) = some n := by
  have hdigits : (Nat.toDigits 10 n).all Char.isDigit = true :=
    List.all_eq_true.mpr fun c hc => Nat.isDigit_of_mem_toDigits (by omega) (by omega) hc
  have hzero : (Nat.toDigits 10 n).head? = some '0' → Nat.toDigits 10 n = ['0'] := by
    intro h
    rw [head?_toDigits n h, Nat.toDigits_zero]
  rw [readNat, if_pos ⟨Nat.toDigits_ne_nil, hdigits, hzero⟩, Nat.ofDigitChars_ten_toDigits]

theorem isDigit_word {c : Char} (h : c.isDigit = true) : isWord c = true ∧ c ≠ '"' ∧ c ≠ '-' ∧ c ≠ '+' ∧ c ≠ '[' := by
  have halnum : c.isAlphanum = true := by rw [Char.isAlphanum, h, Bool.or_true]
  refine ⟨by simp [isWord, isBare, halnum], ?_, ?_, ?_, ?_⟩
  all_goals
    rintro rfl
    exact absurd h (by decide)

theorem readInt_digits {digits : List Char} (hdigits : ∀ c ∈ digits, c.isDigit = true) :
    readInt digits = (readNat digits).map fun n : ℕ => (n : ℤ) := by
  unfold readInt
  split
  · exact absurd rfl (isDigit_word (hdigits _ List.mem_cons_self)).2.2.1
  · exact absurd rfl (isDigit_word (hdigits _ List.mem_cons_self)).2.2.2.1
  · rfl

theorem readInt_repr (n : ℤ) : readInt n.repr.toList = some n := by
  rw [Int.repr_eq_if]
  split_ifs with hn
  · rw [Nat.toList_repr, readInt_digits fun c hc => Nat.isDigit_of_mem_toDigits (by omega) (by omega) hc,
      readNat_toDigits, Option.map_some, Int.toNat_of_nonneg hn]
  · have hminus : "-".toList = ['-'] := rfl
    rw [String.toList_append, Nat.toList_repr, hminus, List.singleton_append, readInt, readNat_toDigits,
      Option.map_some, Option.some.injEq]
    omega

theorem wordValue_repr (n : ℤ) : wordValue n.repr.toList = some (.int n) := by
  have hother {word : List Char} (hnone : readInt word = none) : n.repr.toList ≠ word := by
    intro heq
    rw [← heq, readInt_repr] at hnone
    cases hnone
  rw [wordValue, if_neg (hother (by decide)), if_neg (hother (by decide)), readInt_repr, Option.map_some]

theorem isWord_repr (n : ℤ) : ∀ c ∈ n.repr.toList, isWord c = true := by
  have hdigits (m : ℕ) : ∀ c ∈ m.repr.toList, isWord c = true := by
    intro c hc
    rw [Nat.toList_repr] at hc
    exact (isDigit_word (Nat.isDigit_of_mem_toDigits (by omega) (by omega) hc)).1
  rw [Int.repr_eq_if]
  split_ifs
  · exact hdigits _
  · intro c hc
    rw [String.toList_append, List.mem_append] at hc
    cases hc with
    | inl hminus =>
      rw [List.mem_singleton.mp hminus]
      decide
    | inr hdigit => exact hdigits _ c hdigit

variable {text rest : List Char} {v : Value}

theorem readScalar_word (hword : ∀ c ∈ text, isWord c = true) (hrest : ∀ c, rest.head? = some c → isWord c = false ∧ c ≠ '"')
    (hv : wordValue text = some v) : readScalar (text ++ rest) = some (v, rest) := by
  have hquote (cs : List Char) : text ++ rest ≠ '"' :: cs := by
    intro heq
    cases text with
    | nil => exact (hrest '"' (by rw [← List.nil_append rest, heq]; rfl)).2 rfl
    | cons c text =>
      have hc := hword c List.mem_cons_self
      rw [(List.cons.inj heq).1] at hc
      exact absurd hc (by decide)
  unfold readScalar
  split
  · rename_i heq
    exact absurd heq (hquote _)
  · have hnot (c : Char) (hc : rest.head? = some c) := (hrest c hc).1
    rw [takeWhile_word hword hnot, dropWhile_word hword hnot, hv, Option.map_some]

theorem readString_quote (rest : List Char) : readString ('"' :: rest) = some ([], rest) := by
  rw [readString.eq_def]
  rfl

theorem readString_plain {c : Char} (hquote : c ≠ '"') (hback : c ≠ '\\') (hc : illegal c = false) (rest : List Char) :
    readString (c :: rest) = (readString rest).map fun r => (c :: r.1, r.2) := by
  rw [readString.eq_def]
  simp [hquote, hback, hc]

theorem readString_short {e c : Char} (he : shortEscape e = some c) (rest : List Char) :
    readString ('\\' :: e :: rest) = (readString rest).map fun r => (c :: r.1, r.2) := by
  rw [readString.eq_def]
  simp [he]

theorem readString_unicode {x a b c d : Char} (hx : unicode [a, b, c, d] = some x) (rest : List Char) :
    readString ('\\' :: 'u' :: a :: b :: c :: d :: rest) = (readString rest).map fun r => (x :: r.1, r.2) := by
  have hu : shortEscape 'u' = none := by decide
  rw [readString.eq_def]
  simp [hu, hx, Option.map_eq_bind]

theorem readString_flatMap {escape : Char → List Char}
    (hescape : ∀ c rest, readString (escape c ++ rest) = (readString rest).map fun r => (c :: r.1, r.2))
    (cs rest : List Char) : readString (cs.flatMap escape ++ '"' :: rest) = some (cs, rest) := by
  induction cs with
  | nil => exact readString_quote rest
  | cons c cs ih => rw [List.flatMap_cons, List.append_assoc, hescape, ih, Option.map_some]

theorem readScalar_string {s : List Char} (hread : readString (text ++ '"' :: rest) = some (s, rest))
    (htext : text.head? ≠ some '"') (hrest : rest.head? ≠ some '"') :
    readScalar ('"' :: (text ++ '"' :: rest)) = some (.str (String.ofList s), rest) := by
  have hthree : ¬ ['"', '"'].isPrefixOf (text ++ '"' :: rest) = true := by
    intro h
    rw [List.isPrefixOf_iff_prefix] at h
    obtain ⟨tail, htail⟩ := h
    cases text with
    | nil =>
      cases htail
      exact hrest rfl
    | cons c text => exact htext (congrArg some (List.cons.inj htail).1.symm)
  rw [readScalar, if_neg hthree, hread, Option.map_some]

/-- The text stands for the value, where an item of an array may stand. -/
structure Scans (text : List Char) (v : Value) : Prop where
  start : ∃ c cs, text = c :: cs ∧ isBlank c = false ∧ c ≠ ']'
  read : ∀ rest, rest.head? = some ',' ∨ rest.head? = some ']' → readScalar (text ++ rest) = some (v, rest)

theorem readItems_blank (cs : List Char) : readItems n (' ' :: cs) = readItems n cs := by
  cases n with
  | zero => rfl
  | succ n => rw [readItems, readItems, skipBlank_blank]

theorem readItems_scan (htext : Scans text v) (hrest : rest.head? = some ',' ∨ rest.head? = some ']') :
    readItems (n+1) (text ++ rest) =
      match skipBlank rest with
      | ',' :: cs => (readItems n cs).map fun r => (v :: r.1, r.2)
      | ']' :: cs => some ([v], cs)
      | _ => none := by
  have hread := htext.read rest hrest
  obtain ⟨c, cs, rfl, hblank, hclose⟩ := htext.start
  rw [List.cons_append] at hread ⊢
  rw [readItems, skipBlank_cons hblank]
  split
  · rename_i heq
    exact absurd (List.cons.inj heq).1 hclose
  · rw [hread]

theorem readItems_last (htext : Scans text v) : readItems (n+1) (text ++ ']' :: rest) = some ([v], rest) := by
  rw [readItems_scan n htext (Or.inr rfl), skipBlank_cons (by decide)]
  rfl

theorem readItems_next (htext : Scans text v) (rest : List Char) :
    readItems (n+1) (text ++ ',' :: rest) = (readItems n rest).map fun r => (v :: r.1, r.2) := by
  rw [readItems_scan n htext (Or.inl rfl), skipBlank_cons (by decide)]
  rfl

variable (pieces : List (List Char × Value))

theorem readItems_intercalate (hpieces : ∀ p ∈ pieces, Scans p.1 p.2)
    (n : ℕ) (hn : pieces.length < n) :
    readItems n ([',', ' '].intercalate (pieces.map Prod.fst) ++ ']' :: rest) = some (pieces.map Prod.snd, rest) := by
  induction pieces generalizing n with
  | nil =>
    obtain ⟨m, rfl⟩ := Nat.exists_eq_add_of_lt hn
    rfl
  | cons p pieces ih =>
    obtain ⟨m, rfl⟩ : ∃ m, n = m+1 := ⟨n-1, by omega⟩
    have hp := hpieces p List.mem_cons_self
    cases pieces with
    | nil =>
      simp only [List.map_cons, List.map_nil, List.intercalate_singleton]
      exact readItems_last m hp
    | cons q pieces =>
      have hrest := ih (fun r hr => hpieces r (List.mem_cons_of_mem p hr)) m (by simpa using hn)
      simp only [List.map_cons] at hrest ⊢
      rw [List.intercalate_cons_cons, List.append_assoc, List.append_assoc]
      have hnext := readItems_next m hp (' ' :: ([',', ' '].intercalate (q.1 :: pieces.map Prod.fst) ++ ']' :: rest))
      rw [readItems_blank, hrest, Option.map_some] at hnext
      exact hnext

theorem length_le_intercalate {α : Type} (sep : List α) (l : List (List α)) (hl : ∀ x ∈ l, x ≠ []) :
    l.length ≤ (sep.intercalate l).length := by
  induction l with
  | nil => simp
  | cons x l ih =>
    have hx := List.length_pos_iff.mpr (hl x List.mem_cons_self)
    cases l with
    | nil =>
      rw [List.intercalate_singleton, List.length_singleton]
      exact hx
    | cons y l =>
      have hrest := ih fun z hz => hl z (List.mem_cons_of_mem x hz)
      rw [List.intercalate_cons_cons, List.length_append, List.length_append, List.length_cons]
      omega

theorem notMem_intercalate {α : Type} {sep : List α} {c : α} (hsep : c ∉ sep) {l : List (List α)} (hl : ∀ x ∈ l, c ∉ x) :
    c ∉ sep.intercalate l := by
  induction l with
  | nil => simp
  | cons x l ih =>
    have hx := hl x List.mem_cons_self
    cases l with
    | nil =>
      rw [List.intercalate_singleton]
      exact hx
    | cons y l =>
      have hrest := ih fun z hz => hl z (List.mem_cons_of_mem x hz)
      rw [List.intercalate_cons_cons, List.mem_append, List.mem_append]
      tauto

theorem readValue_array (hpieces : ∀ p ∈ pieces, Scans p.1 p.2) :
    readValue ('[' :: ([',', ' '].intercalate (pieces.map Prod.fst) ++ [']'])) =
      some (.array (pieces.map Prod.snd), []) := by
  have hlength : pieces.length < ([',', ' '].intercalate (pieces.map Prod.fst) ++ [']']).length := by
    have hne : ∀ text ∈ pieces.map Prod.fst, text ≠ [] := by
      intro text htext
      obtain ⟨p, hp, rfl⟩ := List.mem_map.mp htext
      obtain ⟨c, cs, hcs, -⟩ := (hpieces p hp).start
      rw [hcs]
      exact List.cons_ne_nil c cs
    have hle := length_le_intercalate [',', ' '] _ hne
    rw [List.length_map] at hle
    rw [List.length_append, List.length_singleton]
    omega
  rw [readValue, readItems_intercalate pieces hpieces _ hlength, Option.map_some]

theorem readValue_scalar (h : text.head? ≠ some '[') : readValue text = readScalar text := by
  unfold readValue
  split
  · exact absurd rfl h
  · rfl

end Values

section Lines

theorem readLines_eq {texts : List (List Char)} {lines : List Line}
    (h : List.Forall₂ (fun cs line => readLine cs = some line) texts lines) (b : Builder) :
    readLines b texts = lines.foldlM Builder.step b := by
  induction h generalizing b with
  | nil => rfl
  | cons hline _ ih =>
    rw [readLines, List.foldlM_cons, hline, List.foldlM_cons, Option.bind_some]
    cases hstep : b.step _ with
    | none => rfl
    | some b' => exact ih b'

def pairLines (pairs : List (String × Value)) : List Line := pairs.map fun e => .pair e.1 e.2

variable (pairs : List (String × Value))

/-- Pairs with new keys fill one dictionary of a builder: the document, or its last table. -/
theorem steps_pairs {ν : Type} {f : Value → ν} {b : OrderedDict String ν → Builder}
    (hb : ∀ d (e : String × Value), d.get? e.1 = none → (b d).step (.pair e.1 e.2) = some (b (d.set e.1 (f e.2))))
    (hpairs : (pairs.map Prod.fst).Nodup) (d : OrderedDict String ν) (hd : ∀ e ∈ pairs, d.get? e.1 = none) :
    (pairLines pairs).foldlM Builder.step (b d) = some (b (pairs.foldl (fun d e => d.set e.1 (f e.2)) d)) := by
  induction pairs generalizing d with
  | nil => rfl
  | cons e pairs ih =>
    rw [pairLines, List.map_cons, List.foldlM_cons, hb d e (hd e List.mem_cons_self)]
    exact ih hpairs.of_cons _ (d.get?_set_of_nodup hpairs hd _)

theorem steps_table (hpairs : (pairs.map Prod.fst).Nodup) (doc : Document)
    (current : Option String) (name : String) (hname : doc.get? name = none) :
    (.header name :: pairLines pairs).foldlM Builder.step ⟨doc, current⟩ =
      some ⟨doc.set name (.table (.ofList pairs)), some name⟩ := by
  have hheader : Builder.step ⟨doc, current⟩ (.header name) = some ⟨doc.set name (.table .empty), some name⟩ := by
    simp [Builder.step, hname]
  rw [List.foldlM_cons, hheader]
  refine steps_pairs pairs (f := id) (b := fun entries => ⟨doc.set name (.table entries), some name⟩) ?_ hpairs .empty
    fun _ _ => rfl
  intro entries e he
  simp [Builder.step, Builder.add, OrderedDict.get?_set_self, he, OrderedDict.set_set]

def documentEntries (pairs : List (String × Value)) (tables : List (String × List (String × Value))) :
    List (String × Item) :=
  pairs.map (fun e => (e.1, .value e.2)) ++ tables.map fun t => (t.1, .table (.ofList t.2))

def documentOf (pairs : List (String × Value)) (tables : List (String × List (String × Value))) : Document :=
  .ofList (documentEntries pairs tables)

def tableLines (t : String × List (String × Value)) : List Line := .blank :: .header t.1 :: pairLines t.2

variable (tables : List (String × List (String × Value)))

theorem steps_tables (hnames : (tables.map Prod.fst).Nodup)
    (hpairs : ∀ t ∈ tables, (t.2.map Prod.fst).Nodup) (doc : Document) (current : Option String)
    (hdoc : ∀ t ∈ tables, doc.get? t.1 = none) :
    ∃ last, (tables.flatMap tableLines).foldlM Builder.step ⟨doc, current⟩ =
      some ⟨tables.foldl (fun d t => d.set t.1 (.table (.ofList t.2))) doc, last⟩ := by
  induction tables generalizing doc current with
  | nil => exact ⟨current, rfl⟩
  | cons t tables ih =>
    have hstep : (tableLines t).foldlM Builder.step ⟨doc, current⟩ =
        some ⟨doc.set t.1 (.table (.ofList t.2)), some t.1⟩ :=
      steps_table t.2 (hpairs t List.mem_cons_self) doc current t.1 (hdoc t List.mem_cons_self)
    rw [List.flatMap_cons, List.foldlM_append, hstep]
    exact ih hnames.of_cons (fun u hu => hpairs u (List.mem_cons_of_mem t hu)) _ _ (doc.get?_set_of_nodup hnames hdoc _)

theorem steps_document
    (hnames : (pairs.map Prod.fst ++ tables.map Prod.fst).Nodup) (hpairs : ∀ t ∈ tables, (t.2.map Prod.fst).Nodup) :
    ((pairLines pairs ++ tables.flatMap tableLines).foldlM Builder.step {}).map Builder.doc =
      some (documentOf pairs tables) := by
  obtain ⟨hscalars, htables, hdisjoint⟩ := List.nodup_append.mp hnames
  have hfirst := steps_pairs pairs (f := Item.value) (b := fun d => ⟨d, none⟩)
    (fun d e he => by simp [Builder.step, Builder.add, he]) hscalars .empty fun _ _ => rfl
  have hvalues : pairs.foldl (fun d e => d.set e.1 (.value e.2)) .empty =
      OrderedDict.ofList (pairs.map fun e => (e.1, Item.value e.2)) := by
    rw [OrderedDict.ofList, List.foldl_map]
  have hkeys : ((pairs.map fun e => (e.1, Item.value e.2)).map Prod.fst) = pairs.map Prod.fst := by
    rw [List.map_map]
    rfl
  have hnew (t : String × List (String × Value)) (ht : t ∈ tables) :
      (OrderedDict.ofList (pairs.map fun e => (e.1, Item.value e.2))).get? t.1 = none := by
    rw [OrderedDict.get?_eq_none_iff, OrderedDict.keys, OrderedDict.entries_ofList _ (hkeys ▸ hscalars), hkeys]
    intro hmem
    exact hdisjoint t.1 hmem t.1 (List.mem_map_of_mem ht) rfl
  obtain ⟨last, hlast⟩ := steps_tables tables htables hpairs _ none hnew
  rw [hvalues] at hfirst
  rw [List.foldlM_append]
  change (((pairLines pairs).foldlM Builder.step ⟨.empty, none⟩).bind _).map _ = _
  rw [hfirst, Option.bind_some, hlast, Option.map_some]
  simp only [documentOf, documentEntries, OrderedDict.ofList, List.foldl_append, List.foldl_map]

structure LineOf (text : String) (line : Line) : Prop where
  read : readLine text.toList = some line
  newline : '\n' ∉ text.toList

theorem lineOf_blank : LineOf "" .blank := ⟨rfl, by decide⟩

structure BareName (name : String) : Prop where
  ne : name.toList ≠ []
  bare : ∀ c ∈ name.toList, isBare c = true

instance (name : String) : Decidable (BareName name) :=
  decidable_of_iff (name.toList ≠ [] ∧ name.toList.all isBare = true)
    ⟨fun h => ⟨h.1, List.all_eq_true.mp h.2⟩, fun h => ⟨h.1, List.all_eq_true.mpr h.2⟩⟩

theorem BareName.newline {name : String} (h : BareName name) : '\n' ∉ name.toList := by
  intro hmem
  have hbare := h.bare _ hmem
  exact absurd hbare (by decide)

theorem lineOf_header {name line : String} (h : BareName name) (hline : "[" ++ name ++ "]" = line) :
    LineOf line (.header name) := by
  have htext : line.toList = '[' :: (name.toList ++ [']']) := by simp [← hline]
  constructor
  · rw [htext, readLine_header h.ne h.bare, String.ofList_toList]
  · rw [htext]
    simp [h.newline]

structure Written (text : String) (v : Value) : Prop where
  read : readValue text.toList = some (v, [])
  start : ∀ c, text.toList.head? = some c → isBlank c = false
  newline : '\n' ∉ text.toList

theorem written_word {text : String} {v : Value} (hword : ∀ c ∈ text.toList, isWord c = true)
    (hv : wordValue text.toList = some v) : Written text v where
  read := by
    have hread := @readScalar_word text.toList [] v hword (by simp) hv
    rw [List.append_nil] at hread
    rw [readValue_scalar _, hread]
    intro h
    exact absurd (hword _ (List.mem_of_mem_head? h)) (by decide)
  start := by
    intro c hc
    have hc' := hword c (List.mem_of_mem_head? hc)
    by_contra hblank
    simp only [isBlank, Bool.not_eq_false, Bool.or_eq_true, decide_eq_true_eq] at hblank
    rcases hblank with rfl | rfl
    · exact absurd hc' (by decide)
    · exact absurd hc' (by decide)
  newline := by
    intro hmem
    exact absurd (hword _ hmem) (by decide)

theorem toList_pair (key text : String) :
    (key ++ " = " ++ text).toList = key.toList ++ ' ' :: '=' :: ' ' :: text.toList := by
  simp

theorem lineOf_pair {key text : String} {v : Value} (hkey : BareName key) (htext : Written text v) :
    LineOf (key ++ " = " ++ text) (.pair key v) := by
  have hread : readKey (key.toList ++ ' ' :: '=' :: ' ' :: text.toList) =
      some (key.toList, ' ' :: '=' :: ' ' :: text.toList) := by
    apply readKey_bare hkey.ne hkey.bare
    rintro c ⟨⟩
    decide
  have hstart (c : Char) (hc : key.toList.head? = some c) := isBare_not_blank (hkey.bare c (List.mem_of_mem_head? hc))
  constructor
  · rw [toList_pair, readLine_pair hread hkey.ne hstart htext.start htext.read, String.ofList_toList]
  · rw [toList_pair]
    simp [hkey.newline, htext.newline]

theorem lineOf_quotedPair {key : List Char} {body text : String} {v : Value}
    (hkey : ∀ rest, readString (body.toList ++ '"' :: rest) = some (key, rest)) (hbody : '\n' ∉ body.toList)
    (htext : Written text v) :
    LineOf ("\"" ++ body ++ "\"" ++ " = " ++ text) (.pair (String.ofList key) v) := by
  have hquoted : ("\"" ++ body ++ "\"").toList = '"' :: (body.toList ++ ['"']) := by simp
  have hread : readKey (("\"" ++ body ++ "\"").toList ++ ' ' :: '=' :: ' ' :: text.toList) =
      some (key, ' ' :: '=' :: ' ' :: text.toList) := by
    rw [hquoted, List.cons_append, List.append_assoc]
    exact hkey _
  constructor
  · rw [toList_pair, readLine_pair hread (by simp [hquoted]) (by rw [hquoted]; rintro c ⟨⟩; decide) htext.start
      htext.read]
  · rw [toList_pair, hquoted]
    simp [hbody, htext.newline]

theorem read_intercalate {texts : List String} {lines : List Line} (h : List.Forall₂ LineOf texts lines)
    (hne : texts ≠ []) :
    read ("\n".intercalate texts ++ "\n") = (lines.foldlM Builder.step {}).map Builder.doc := by
  have hall : List.Forall₂ LineOf (texts ++ [""]) (lines ++ [.blank]) :=
    List.rel_append h (.cons lineOf_blank .nil)
  have hnewline : ∀ text ∈ texts ++ [""], '\n' ∉ text.toList :=
    ((List.forall₂_and_left _ _).mp (hall.imp fun _ _ hline => ⟨hline.newline, hline⟩)).1
  have htext : "\n".intercalate texts ++ "\n" = "\n".intercalate (texts ++ [""]) := by
    rw [String.intercalate_append_of_ne_nil hne (by simp), String.intercalate_singleton, String.append_empty]
  have hsplit : ("\n".intercalate (texts ++ [""])).toList.splitOn '\n' = (texts ++ [""]).map String.toList := by
    rw [String.toList_intercalate]
    apply List.splitOn_intercalate
    · intro cs hcs
      obtain ⟨text, htext, rfl⟩ := List.mem_map.mp hcs
      exact hnewline text htext
    · simp
  have hread : List.Forall₂ (fun cs line => readLine cs = some line) ((texts ++ [""]).map String.toList)
      (lines ++ [.blank]) := by
    rw [List.forall₂_map_left_iff]
    exact hall.imp fun _ _ hline => hline.read
  have hblank (b : Builder) : [Line.blank].foldlM Builder.step b = some b := rfl
  rw [read, htext, hsplit, readLines_eq hread, List.foldlM_append]
  cases lines.foldlM Builder.step {} with
  | none => rfl
  | some b => rw [Option.bind_eq_bind, Option.bind_some, hblank]

end Lines

end TomlText
