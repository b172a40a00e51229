import Mathlib.Data.List.Sort
import Mathlib.Data.String.Basic

/-! `json.dumps` as Python writes it by default: ASCII only, and on one line. -/
namespace JsonText

def isPlain (c : Char) : Bool := 0x20 ≤ c.toNat && c.toNat ≤ 0x7e

/-- What a float is written as: its `repr`, or the name of one that is no number. -/
structure FloatText where
  text : List Char
  nonempty : text ≠ []
  plain : ∀ c ∈ text, isPlain c = true

/-- A value that has a text. The keys of a dict are in the order of insertion. -/
inductive Value where
  | null
  | bool (b : Bool)
  | int (n : ℤ)
  | float (x : FloatText)
  | str (s : String)
  | list (items : List Value)
  | dict (entries : List (String × Value))

def unit16 (n : ℕ) : List Char :=
  '\\' :: 'u' :: [n/4096%16, n/256%16, n/16%16, n%16].map Nat.digitChar

def shortEscapes : List (Char × Char) :=
  [('"', '"'), ('\\', '\\'), ('\n', 'n'), ('\r', 'r'), ('\t', 't'), ('\x0c', 'f'), ('\x08', 'b')]

/-- What a character of a string is written as; one beyond the first 65536 is written as a pair of surrogates. -/
def escape (c : Char) : List Char :=
  match shortEscapes.find? (·.1 = c) with
  | some (_, letter) => ['\\', letter]
  | none =>
    if isPlain c then [c]
    else if c.toNat < 0x10000 then unit16 c.toNat
    else unit16 (0xd800 + (c.toNat-0x10000)/0x400) ++ unit16 (0xdc00 + (c.toNat-0x10000)%0x400)

def quote (s : String) : List Char := '"' :: (s.toList.flatMap escape ++ ['"'])

def maxDigits : ℕ := 4300

def isShort (n : ℤ) : Bool := (Nat.toDigits 10 n.natAbs).length ≤ maxDigits

def bracket (before after : Char) (texts : List (List Char)) : List Char :=
  before :: ([',', ' '].intercalate texts ++ [after])

def pair (e : String × List Char) : List Char := quote e.1 ++ (':' :: ' ' :: e.2)

def sortKeys (pairs : List (String × List Char)) : List (String × List Char) :=
  pairs.insertionSort fun a b => a.1 ≤ b.1

mutual

def dumps : Value → Option (List Char)
  | .null => some ['n', 'u', 'l', 'l']
  | .bool b => some (if b then ['t', 'r', 'u', 'e'] else ['f', 'a', 'l', 's', 'e'])
  | .int n => if isShort n then some n.repr.toList else none
  | .float x => some x.text
  | .str s => some (quote s)
  | .list items => (dumpsItems items).map (bracket '[' ']')
  | .dict entries => (dumpsEntries entries).map fun pairs => bracket '\x7b' '\x7d' ((sortKeys pairs).map pair)

def dumpsItems : List Value → Option (List (List Char))
  | [] => some []
  | item :: items => do
    let text ← dumps item
    let texts ← dumpsItems items
    pure (text :: texts)

def dumpsEntries : List (String × Value) → Option (List (String × List Char))
  | [] => some []
  | (key, item) :: entries => do
    let text ← dumps item
    let pairs ← dumpsEntries entries
    pure ((key, text) :: pairs)

end

/-- A text of one line: not empty, and of plain characters only. -/
structure OneLine (text : List Char) : Prop where
  nonempty : text ≠ []
  plain : ∀ c ∈ text, isPlain c = true

section Pieces

theorem plain_digit : ∀ n < 16, isPlain (Nat.digitChar n) = true := by decide

theorem plain_unit16 (n : ℕ) : ∀ c ∈ unit16 n, isPlain c = true := by
  intro c hc
  rw [unit16, List.mem_cons, List.mem_cons, List.mem_map] at hc
  rcases hc with rfl | rfl | ⟨digit, hdigit, rfl⟩
  · decide
  · decide
  · have hlt : digit < 16 := by
      simp only [List.mem_cons, List.not_mem_nil, or_false] at hdigit
      omega
    exact plain_digit digit hlt

theorem plain_shortEscapes : ∀ e ∈ shortEscapes, isPlain e.2 = true := by decide

theorem plain_escape (c : Char) : ∀ d ∈ escape c, isPlain d = true := by
  unfold escape
  split
  · rename_i letter hfind
    have hletter := plain_shortEscapes _ (List.mem_of_find?_eq_some hfind)
    exact List.forall_mem_cons.mpr ⟨by decide, List.forall_mem_singleton.mpr hletter⟩
  · split_ifs with hplain
    · exact List.forall_mem_singleton.mpr hplain
    · exact plain_unit16 _
    · intro d hd
      rcases List.mem_append.mp hd with hd | hd
      · exact plain_unit16 _ d hd
      · exact plain_unit16 _ d hd

theorem oneLine_quote (s : String) : OneLine (quote s) where
  nonempty := List.cons_ne_nil _ _
  plain := by
    intro c hc
    rw [quote, List.mem_cons, List.mem_append, List.mem_flatMap, List.mem_singleton] at hc
    rcases hc with rfl | ⟨d, _, hd⟩ | rfl
    · decide
    · exact plain_escape d c hd
    · decide

theorem oneLine_repr (n : ℤ) : OneLine n.repr.toList := by
  have hdigits (m : ℕ) : OneLine m.repr.toList := by
    rw [Nat.toList_repr]
    refine ⟨List.ne_nil_of_length_pos Nat.length_toDigits_pos, fun c hc => ?_⟩
    have hdigit := Nat.isDigit_of_mem_toDigits (by omega) (by omega) hc
    rw [Char.isDigit_iff_toNat] at hdigit
    have hzero : '0'.toNat = 48 := rfl
    have hnine : '9'.toNat = 57 := rfl
    rw [isPlain, Bool.and_eq_true, decide_eq_true_eq, decide_eq_true_eq]
    omega
  rw [Int.repr_eq_if]
  split_ifs
  · exact hdigits _
  · rw [String.toList_append]
    refine ⟨List.append_ne_nil_of_right_ne_nil _ (hdigits _).nonempty, fun c hc => ?_⟩
    rcases List.mem_append.mp hc with hc | hc
    · rw [List.mem_singleton.mp hc]
      decide
    · exact (hdigits _).plain c hc

theorem plain_intercalate {texts : List (List Char)} (h : ∀ text ∈ texts, OneLine text) :
    ∀ c ∈ [',', ' '].intercalate texts, isPlain c = true := by
  induction texts with
  | nil => exact List.forall_mem_nil _
  | cons text texts ih =>
    have htext := (h text List.mem_cons_self).plain
    have hcomma : ∀ c ∈ [',', ' '], isPlain c = true := List.all_eq_true.mp (by decide)
    cases texts with
    | nil =>
      rw [List.intercalate_singleton]
      exact htext
    | cons next texts =>
      have hrest := ih fun x hx => h x (List.mem_cons_of_mem _ hx)
      intro c hc
      rw [List.intercalate_cons_cons, List.mem_append, List.mem_append] at hc
      rcases hc with (hc | hc) | hc
      · exact htext c hc
      · exact hcomma c hc
      · exact hrest c hc

theorem oneLine_bracket {before after : Char} (hbefore : isPlain before = true) (hafter : isPlain after = true)
    {texts : List (List Char)} (h : ∀ text ∈ texts, OneLine text) : OneLine (bracket before after texts) where
  nonempty := List.cons_ne_nil _ _
  plain := by
    intro c hc
    rw [bracket, List.mem_cons, List.mem_append, List.mem_singleton] at hc
    rcases hc with rfl | hc | rfl
    · exact hbefore
    · exact plain_intercalate h c hc
    · exact hafter

theorem oneLine_pair {e : String × List Char} (h : OneLine e.2) : OneLine (pair e) where
  nonempty := List.append_ne_nil_of_right_ne_nil _ (List.cons_ne_nil _ _)
  plain := by
    intro c hc
    rw [pair, List.mem_append, List.mem_cons, List.mem_cons] at hc
    rcases hc with hc | rfl | rfl | hc
    · exact (oneLine_quote e.1).plain c hc
    · decide
    · decide
    · exact h.plain c hc

end Pieces

mutual

theorem oneLine_dumps : ∀ {v : Value} {text : List Char}, dumps v = some text → OneLine text
  | .null, text, h => by
    cases h
    exact ⟨by decide, List.all_eq_true.mp (by decide)⟩
  | .bool b, text, h => by
    cases h
    cases b with
    | false => exact ⟨by decide, List.all_eq_true.mp (by decide)⟩
    | true => exact ⟨by decide, List.all_eq_true.mp (by decide)⟩
  | .int n, text, h => by
    rw [dumps] at h
    split_ifs at h
    cases h
    exact oneLine_repr n
  | .float x, text, h => by
    cases h
    exact ⟨x.nonempty, x.plain⟩
  | .str s, text, h => by
    cases h
    exact oneLine_quote s
  | .list items, text, h => by
    rw [dumps] at h
    obtain ⟨texts, htexts, rfl⟩ := Option.map_eq_some_iff.mp h
    exact oneLine_bracket (by decide) (by decide) (oneLine_dumpsItems htexts)
  | .dict entries, text, h => by
    rw [dumps] at h
    obtain ⟨pairs, hpairs, rfl⟩ := Option.map_eq_some_iff.mp h
    apply oneLine_bracket (by decide) (by decide)
    intro text htext
    obtain ⟨e, he, rfl⟩ := List.mem_map.mp htext
    exact oneLine_pair (oneLine_dumpsEntries hpairs e ((List.mem_insertionSort _).mp he))

theorem oneLine_dumpsItems : ∀ {items : List Value} {texts : List (List Char)}, dumpsItems items = some texts →
    ∀ text ∈ texts, OneLine text
  | [], texts, h => by
    cases h
    exact List.forall_mem_nil _
  | item :: items, texts, h => by
    rw [dumpsItems] at h
    obtain ⟨first, hfirst, h⟩ := Option.bind_eq_some_iff.mp h
    obtain ⟨rest, hrest, h⟩ := Option.bind_eq_some_iff.mp h
    cases h
    exact List.forall_mem_cons.mpr ⟨oneLine_dumps hfirst, oneLine_dumpsItems hrest⟩

theorem oneLine_dumpsEntries : ∀ {entries : List (String × Value)} {pairs : List (String × List Char)},
    dumpsEntries entries = some pairs → ∀ e ∈ pairs, OneLine e.2
  | [], pairs, h => by
    cases h
    exact List.forall_mem_nil _
  | (key, item) :: entries, pairs, h => by
    rw [dumpsEntries] at h
    obtain ⟨first, hfirst, h⟩ := Option.bind_eq_some_iff.mp h
    obtain ⟨rest, hrest, h⟩ := Option.bind_eq_some_iff.mp h
    cases h
    exact List.forall_mem_cons.mpr ⟨oneLine_dumps hfirst, oneLine_dumpsEntries hrest⟩

end

def encode (text : List Char) : List UInt8 := text.map fun c => UInt8.ofNat c.toNat

def newline : UInt8 := 10

theorem OneLine.newline_notMem {text : List Char} (h : OneLine text) : newline ∉ encode text := by
  intro hmem
  obtain ⟨c, hc, hbyte⟩ := List.mem_map.mp hmem
  have hplain := h.plain c hc
  rw [isPlain, Bool.and_eq_true, decide_eq_true_eq, decide_eq_true_eq] at hplain
  have hnat : c.toNat % 2^8 = 10 := by
    have := congrArg UInt8.toNat hbyte
    rwa [UInt8.toNat_ofNat'] at this
  omega

theorem OneLine.encode_ne_nil {text : List Char} (h : OneLine text) : encode text ≠ [] :=
  fun hnil => h.nonempty (List.map_eq_nil_iff.mp hnil)

end JsonText
