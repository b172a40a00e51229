import Mathlib.Data.List.Infix

/-! The operations of Python's `str` that the sources use, over the list of characters
of a string, and the rule for a chain of calls that can raise. -/
namespace PyText

def startswith (s p : String) : Bool := p.toList.isPrefixOf s.toList

def endswith (s p : String) : Bool := p.toList.isSuffixOf s.toList

def contains (sub s : String) : Bool := s.toList.tails.any (sub.toList.isPrefixOf ·)

def take (n : ℕ) (s : String) : String := String.ofList (s.toList.take n)

def dropRight (n : ℕ) (s : String) : String := String.ofList (s.toList.take (s.toList.length - n))

def isSpace (c : Char) : Bool :=
  let n := c.toNat
  (9 ≤ n && n ≤ 13) || (0x1c ≤ n && n ≤ 0x20) || n == 0x85 || n == 0xa0 || n == 0x1680 ||
    (0x2000 ≤ n && n ≤ 0x200a) || n == 0x2028 || n == 0x2029 || n == 0x202f || n == 0x205f || n == 0x3000

def strip (s : String) : String :=
  String.ofList ((s.toList.dropWhile isSpace).reverse.dropWhile isSpace).reverse

def isControl (c : Char) : Bool := c.toNat ≤ 0x1f || c.toNat == 0x7f

/-- `re.sub('[\x00-\x1f\x7f]+', ' ', s)`: each run becomes one blank. `skip` says that
the run's blank is already written. -/
def squashControl (skip : Bool) : List Char → List Char
  | [] => []
  | c :: cs =>
    if isControl c then if skip then squashControl true cs else ' ' :: squashControl true cs
    else c :: squashControl false cs

/-- `s.replace(old, new)` for a non-empty `old`; `skip` counts the characters left of
the occurrence that was just replaced. -/
def replaceFrom (old new : List Char) : ℕ → List Char → List Char
  | _, [] => []
  | skip+1, _ :: cs => replaceFrom old new skip cs
  | 0, c :: cs =>
    if old.isPrefixOf (c :: cs) then new ++ replaceFrom old new (old.length-1) cs
    else c :: replaceFrom old new 0 cs

def replace (s old new : String) : String :=
  String.ofList (replaceFrom old.toList new.toList 0 s.toList)

def replaceFirst (old new : List Char) : List Char → List Char
  | [] => []
  | c :: cs => if old.isPrefixOf (c :: cs) then new ++ (c :: cs).drop old.length else c :: replaceFirst old new cs

def replaceOnce (s old new : String) : String := String.ofList (replaceFirst old.toList new.toList s.toList)

def beforeDollar (cs : List Char) : List Char := if cs.getLast? = some '\n' then cs.dropLast else cs

def basename (path : String) : String :=
  String.ofList (path.toList.reverse.takeWhile (· ≠ '/')).reverse

theorem startswith_iff (s p : String) : startswith s p = true ↔ p.toList <+: s.toList := by
  rw [startswith, List.isPrefixOf_iff_prefix]

theorem contains_iff (sub s : String) : contains sub s = true ↔ sub.toList <:+: s.toList := by
  simp only [contains, List.any_eq_true, List.mem_tails, List.isPrefixOf_iff_prefix]
  constructor
  · rintro ⟨t, hsuffix, hprefix⟩
    exact hprefix.isInfix.trans hsuffix.isInfix
  · rintro ⟨a, b, hab⟩
    exact ⟨sub.toList ++ b, ⟨a, by rw [← hab, List.append_assoc]⟩, List.prefix_append _ _⟩

theorem isSpace_of_isDigit {c : Char} (h : c.isDigit = true) : isSpace c = false := by
  rw [Char.isDigit_iff_toNat] at h
  have hzero : '0'.toNat = 48 := rfl
  have hnine : '9'.toNat = 57 := rfl
  simp only [isSpace, Bool.or_eq_false_iff, Bool.and_eq_false_iff, decide_eq_false_iff_not, beq_eq_false_iff_ne]
  omega

theorem head?_beforeDollar (cs : List Char) (c : Char) (h : (beforeDollar cs).head? = some c) :
    cs.head? = some c := by
  unfold beforeDollar at h
  split_ifs at h
  · rw [List.head?_dropLast] at h
    split_ifs at h
    exact h
  · exact h

section Strip

theorem head?_dropWhile_isSpace {cs : List Char} {c : Char} (h : (cs.dropWhile isSpace).head? = some c) :
    isSpace c = false := by
  have hnot := List.head?_dropWhile_not isSpace cs
  rw [h] at hnot
  exact hnot

theorem getLast?_strip {s : String} {c : Char} (h : (strip s).toList.getLast? = some c) : isSpace c = false := by
  rw [strip, String.toList_ofList, List.getLast?_reverse] at h
  exact head?_dropWhile_isSpace h

theorem head?_strip {s : String} {c : Char} (h : (strip s).toList.head? = some c) : isSpace c = false := by
  rw [strip, String.toList_ofList, List.head?_reverse] at h
  -- what is cut off at the end leaves the first character where it is
  obtain ⟨front, hfront⟩ : (s.toList.dropWhile isSpace).reverse.dropWhile isSpace <:+ (s.toList.dropWhile isSpace).reverse :=
    List.dropWhile_suffix _
  have hlast : (s.toList.dropWhile isSpace).reverse.getLast? = some c := by
    rw [← hfront, List.getLast?_append, h]
    rfl
  rw [List.getLast?_reverse] at hlast
  exact head?_dropWhile_isSpace hlast

theorem strip_eq_self {s : String} (hhead : ∀ c, s.toList.head? = some c → isSpace c = false)
    (hlast : ∀ c, s.toList.getLast? = some c → isSpace c = false) : strip s = s := by
  have hkeep (cs : List Char) (h : ∀ c, cs.head? = some c → isSpace c = false) : cs.dropWhile isSpace = cs := by
    cases cs with
    | nil => rfl
    | cons c cs => rw [List.dropWhile_cons, h c rfl]; rfl
  have hreverse := hkeep s.toList.reverse fun c hc => hlast c (by rwa [List.head?_reverse] at hc)
  rw [strip, hkeep _ hhead, hreverse, List.reverse_reverse, String.ofList_toList]

end Strip

section Replace

variable {old new : List Char} {cs : List Char}

theorem replaceFrom_eq_self (h : ¬ old <:+: cs) : replaceFrom old new 0 cs = cs := by
  induction cs with
  | nil => rfl
  | cons c cs ih =>
    have hhead : ¬ old.isPrefixOf (c :: cs) = true := by
      rw [List.isPrefixOf_iff_prefix]
      exact fun hpre => h hpre.isInfix
    have htail : ¬ old <:+: cs := fun hin => h (hin.trans (List.suffix_cons c cs).isInfix)
    rw [replaceFrom, if_neg hhead, ih htail]

theorem infix_replaceFrom (hold : old ≠ []) (h : old <:+: cs) : new <:+: replaceFrom old new 0 cs := by
  induction cs with
  | nil => exact absurd (List.infix_nil.mp h) hold
  | cons d cs ih =>
    rw [replaceFrom]
    split_ifs with hpre
    · exact (List.prefix_append _ _).isInfix
    · have htail : old <:+: cs := by
        rcases List.infix_cons_iff.mp h with hhead | htail
        · exact absurd (List.isPrefixOf_iff_prefix.mpr hhead) hpre
        · exact htail
      exact (ih htail).trans (List.suffix_cons d _).isInfix

theorem mem_replaceFrom_new {c : Char} (hc : c ∈ new) (hold : old ≠ []) (h : old <:+: cs) :
    c ∈ replaceFrom old new 0 cs := (infix_replaceFrom hold h).subset hc

theorem mem_of_mem_replaceFrom {c : Char} (skip : ℕ) (h : c ∈ replaceFrom old new skip cs) :
    c ∈ cs ∨ c ∈ new := by
  induction cs generalizing skip with
  | nil =>
    rw [replaceFrom] at h
    cases h
  | cons d cs ih =>
    cases skip with
    | succ skip => exact (ih skip h).imp_left (List.mem_cons_of_mem d)
    | zero =>
      rw [replaceFrom] at h
      split_ifs at h
      · rcases List.mem_append.mp h with h | h
        · exact Or.inr h
        · exact (ih _ h).imp_left (List.mem_cons_of_mem d)
      · rcases List.mem_cons.mp h with rfl | h
        · exact Or.inl List.mem_cons_self
        · exact (ih _ h).imp_left (List.mem_cons_of_mem d)

theorem replaceFirst_split (hold : old ≠ []) (h : old <:+: cs) :
    ∃ before behind, cs = before ++ old ++ behind ∧ replaceFirst old new cs = before ++ new ++ behind := by
  induction cs with
  | nil => exact absurd (List.infix_nil.mp h) hold
  | cons c cs ih =>
    rw [replaceFirst]
    split_ifs with hpre
    · obtain ⟨behind, hbehind⟩ := List.isPrefixOf_iff_prefix.mp hpre
      refine ⟨[], behind, hbehind.symm, ?_⟩
      rw [← hbehind, List.drop_left, List.nil_append]
    · have htail : old <:+: cs := by
        rcases List.infix_cons_iff.mp h with hhead | htail
        · exact absurd (List.isPrefixOf_iff_prefix.mpr hhead) hpre
        · exact htail
      obtain ⟨before, behind, hcs, hreplaced⟩ := ih htail
      exact ⟨c :: before, behind, congrArg (c :: ·) hcs, congrArg (c :: ·) hreplaced⟩

theorem infix_of_notMem {w x y : List Char} {c : Char} (hc : c ∉ w) (h : w <:+: x ++ c :: y) : w <:+: x ∨ w <:+: y := by
  have hnil {u : List Char} (hu : c ∉ u) (h : u <+: c :: y) : u = [] := by
    cases u with
    | nil => rfl
    | cons a u => exact absurd ((List.cons_prefix_cons.mp h).1 ▸ List.mem_cons_self) hu
  rcases List.infix_append_iff.mp h with hx | hy | ⟨u, v, rfl, hu, hv⟩
  · exact Or.inl hx
  · rcases List.infix_cons_iff.mp hy with hhead | htail
    · exact Or.inl (hnil hc hhead ▸ List.nil_infix)
    · exact Or.inr htail
  · rw [hnil (fun hmem => hc (List.mem_append_right u hmem)) hv, List.append_nil]
    exact Or.inl hu.isInfix

theorem mem_replaceFrom {c : Char} (hc : c ∈ new) (h : c ∈ cs) : c ∈ replaceFrom old new 0 cs := by
  induction cs with
  | nil => cases h
  | cons d cs ih =>
    rw [replaceFrom]
    split_ifs
    · exact List.mem_append_left _ hc
    · rcases List.mem_cons.mp h with rfl | htail
      · exact List.mem_cons_self
      · exact List.mem_cons_of_mem d (ih htail)

end Replace

end PyText

theorem Except.exists_of_bind_eq_ok {ε α β : Type} {x : Except ε α} {f : α → Except ε β} {b : β}
    (h : x >>= f = .ok b) : ∃ a, x = .ok a ∧ f a = .ok b := by
  cases x with
  | error e => cases h
  | ok a => exact ⟨a, rfl, h⟩

theorem Except.bind_eq_ok {ε α β : Type} {x : Except ε α} {f : α → Except ε β} {a : α} {b : β}
    (hx : x = .ok a) (hf : f a = .ok b) : x >>= f = .ok b := by
  rw [hx]
  exact hf
