import Mathlib.Data.List.DropRight
import Mathlib.Data.List.TakeWhile
import PiBuddyCam.PyText

/-! `str.strip`, `str.isdigit` and `int` of a text, as Python 3.13 has them with the tables of Unicode 15.1. -/
namespace PyText

section Trim

def trim (cs : List Char) : List Char := ((cs.dropWhile isSpace).reverse.dropWhile isSpace).reverse

def Blank (cs : List Char) : Prop := ∀ c ∈ cs, isSpace c = true

structure Trimmed (cs : List Char) : Prop where
  head : ∀ c, cs.head? = some c → isSpace c = false
  last : ∀ c, cs.getLast? = some c → isSpace c = false

variable {l w r : List Char}

theorem Blank.append (hl : Blank l) (hr : Blank r) : Blank (l ++ r) :=
  List.forall_mem_append.mpr ⟨hl, hr⟩

theorem blank_nil : Blank [] := List.forall_mem_nil _

theorem Blank.notMem (h : Blank l) {c : Char} (hc : isSpace c = false) : c ∉ l :=
  fun hmem => Bool.false_ne_true (hc ▸ h c hmem)

theorem toLower_of_isSpace {c : Char} (h : isSpace c = true) : c.toLower = c := by
  unfold Char.toLower
  split_ifs with hupper
  · -- no upper-case letter of ASCII is white space
    have hlow : 'A'.toNat ≤ c.toNat := hupper.1
    have hhigh : c.toNat ≤ 'Z'.toNat := hupper.2
    have hA : 'A'.toNat = 65 := rfl
    have hZ : 'Z'.toNat = 90 := rfl
    simp only [isSpace, Bool.or_eq_true, Bool.and_eq_true, decide_eq_true_eq, beq_iff_eq] at h
    omega
  · rfl

theorem trim_eq (hl : Blank l) (hw : Trimmed w) (hr : Blank r) : trim (l ++ w ++ r) = w := by
  have hkeep (cs : List Char) (h : ∀ c, cs.head? = some c → isSpace c = false) : cs.dropWhile isSpace = cs := by
    cases cs with
    | nil => rfl
    | cons c cs => rw [List.dropWhile_cons_of_neg (by rw [h c rfl]; exact Bool.false_ne_true)]
  have hall (cs : List Char) (h : Blank cs) : cs.dropWhile isSpace = [] := List.dropWhile_eq_nil_iff.mpr h
  have hreverse : Blank r.reverse := fun c hc => hr c (List.mem_reverse.mp hc)
  rw [trim, List.append_assoc, List.dropWhile_append_of_pos hl]
  cases w with
  | nil => rw [List.nil_append, hall r hr]; rfl
  | cons c w =>
    rw [hkeep (c :: w ++ r) hw.head, List.reverse_append, List.dropWhile_append_of_pos hreverse, hkeep _ ?_,
      List.reverse_reverse]
    intro d hd
    rw [List.head?_reverse] at hd
    exact hw.last d hd

theorem trim_spec (cs : List Char) : Trimmed (trim cs) ∧ ∃ l r, Blank l ∧ Blank r ∧ cs = l ++ trim cs ++ r := by
  obtain ⟨front, hfront⟩ : ∃ front, front = cs.dropWhile isSpace := ⟨_, rfl⟩
  have hback : front.reverse = front.reverse.takeWhile isSpace ++ front.reverse.dropWhile isSpace :=
    List.takeWhile_append_dropWhile.symm
  have hsplit : front = trim cs ++ (front.reverse.takeWhile isSpace).reverse := by
    rw [trim, ← hfront, ← List.reverse_append, ← hback, List.reverse_reverse]
  have hcs : cs = cs.takeWhile isSpace ++ front := by
    rw [hfront, List.takeWhile_append_dropWhile]
  refine ⟨⟨?_, ?_⟩, cs.takeWhile isSpace, (front.reverse.takeWhile isSpace).reverse, ?_, ?_, ?_⟩
  · intro c hc
    have hhead : front.head? = some c := by
      rw [hsplit, List.head?_append, hc]
      rfl
    rw [hfront] at hhead
    exact head?_dropWhile_isSpace hhead
  · intro c hc
    rw [trim, List.getLast?_reverse] at hc
    exact head?_dropWhile_isSpace hc
  · exact fun c hc => List.mem_takeWhile_imp hc
  · exact fun c hc => List.mem_takeWhile_imp (List.mem_reverse.mp hc)
  · rw [List.append_assoc, ← hsplit]
    exact hcs

theorem trim_dropWhile (cs : List Char) : trim (cs.dropWhile isSpace) = trim cs := by
  rw [trim, List.dropWhile_idempotent, trim]

theorem trim_rdropWhile (cs : List Char) : trim (cs.rdropWhile isSpace) = trim cs := by
  obtain ⟨htrimmed, l, r, hl, hr, hcs⟩ := trim_spec (cs.rdropWhile isSpace)
  have hback : Blank (cs.rtakeWhile isSpace) := fun c hc => List.mem_takeWhile_imp (List.mem_reverse.mp hc)
  have hsplit : cs = l ++ trim (cs.rdropWhile isSpace) ++ (r ++ cs.rtakeWhile isSpace) := by
    rw [← List.append_assoc, ← hcs, List.rdropWhile_append_rtakeWhile]
  exact ((congrArg trim hsplit).trans (trim_eq hl htrimmed (hr.append hback))).symm

theorem trim_around {c : Char} (hc : isSpace c = false) (cs ds : List Char) :
    trim (cs ++ c :: ds) = cs.dropWhile isSpace ++ c :: ds.rdropWhile isSpace := by
  have hdrop (cs ds : List Char) : (cs ++ c :: ds).dropWhile isSpace = cs.dropWhile isSpace ++ c :: ds := by
    induction cs with
    | nil => exact List.dropWhile_cons_of_neg (Bool.eq_false_iff.mp hc)
    | cons d cs ih =>
      simp only [List.cons_append, List.dropWhile_cons, ih]
      split_ifs <;> rfl
  rw [trim, hdrop, List.reverse_append, List.reverse_cons, List.append_assoc, List.singleton_append, hdrop,
    List.reverse_append, List.reverse_cons, List.append_assoc, List.singleton_append, List.reverse_reverse]
  rfl

end Trim

section Digits

def decimalZeros : List ℕ :=
  [0x30, 0x660, 0x6f0, 0x7c0, 0x966, 0x9e6, 0xa66, 0xae6, 0xb66, 0xbe6, 0xc66, 0xce6, 0xd66, 0xde6, 0xe50, 0xed0, 0xf20,
    0x1040, 0x1090, 0x17e0, 0x1810, 0x1946, 0x19d0, 0x1a80, 0x1a90, 0x1b50, 0x1bb0, 0x1c40, 0x1c50, 0xa620, 0xa8d0, 0xa900,
    0xa9d0, 0xa9f0, 0xaa50, 0xabf0, 0xff10, 0x104a0, 0x10d30, 0x11066, 0x110f0, 0x11136, 0x111d0, 0x112f0, 0x11450, 0x114d0,
    0x11650, 0x116c0, 0x11730, 0x118e0, 0x11950, 0x11c50, 0x11d50, 0x11da0, 0x11f50, 0x16a60, 0x16ac0, 0x16b50, 0x1d7ce,
    0x1d7d8, 0x1d7e2, 0x1d7ec, 0x1d7f6, 0x1e140, 0x1e2f0, 0x1e4f0, 0x1e950, 0x1fbf0]

/-- The digits that are not decimal, first and last of each run: superscripts, circled digits and the like. -/
def otherDigits : List (ℕ × ℕ) :=
  [(0xb2, 0xb3), (0xb9, 0xb9), (0x1369, 0x1371), (0x19da, 0x19da), (0x2070, 0x2070), (0x2074, 0x2079), (0x2080, 0x2089),
    (0x2460, 0x2468), (0x2474, 0x247c), (0x2488, 0x2490), (0x24ea, 0x24ea), (0x24f5, 0x24fd), (0x24ff, 0x24ff),
    (0x2776, 0x277e), (0x2780, 0x2788), (0x278a, 0x2792), (0x10a40, 0x10a43), (0x10e60, 0x10e68), (0x11052, 0x1105a),
    (0x1f100, 0x1f10a)]

def decimal (c : Char) : Option ℕ :=
  (decimalZeros.find? fun base => base ≤ c.toNat && c.toNat < base+10).map (c.toNat - ·)

def isDigitChar (c : Char) : Bool :=
  (decimal c).isSome || otherDigits.any fun run => run.1 ≤ c.toNat && c.toNat ≤ run.2

def isdigit (text : List Char) : Bool := !text.isEmpty && text.all isDigitChar

def number (text : List Char) : ℕ := text.foldl (fun n c => 10*n + (decimal c).getD 0) 0

def Decimal (text : List Char) : Prop := ∀ c ∈ text, (decimal c).isSome = true

instance (text : List Char) : Decidable (Decimal text) := List.decidableBAll (fun c => (decimal c).isSome = true) text

/-- `int(text)` of a text with digits only, with `none` for its `ValueError`: for a digit that is not decimal, and
for more than 4300 of them. -/
def int (text : List Char) : Option ℕ := if Decimal text ∧ text.length ≤ 4300 then some (number text) else none

theorem isdigit_of_decimal {text : List Char} (h : Decimal text) (hne : text ≠ []) : isdigit text = true := by
  rw [isdigit, Bool.and_eq_true, Bool.not_eq_true', List.isEmpty_eq_false_iff, List.all_eq_true]
  refine ⟨hne, fun c hc => ?_⟩
  rw [isDigitChar, h c hc, Bool.true_or]

theorem decimal_plain {c : Char} (h : (decimal c).isSome = true) : isSpace c = false ∧ c ≠ '-' ∧ c ≠ ',' := by
  rw [decimal, Option.isSome_map, List.find?_isSome] at h
  obtain ⟨base, hbase, hrange⟩ := h
  rw [Bool.and_eq_true, decide_eq_true_eq, decide_eq_true_eq] at hrange
  have htable : ∀ base ∈ decimalZeros, ∀ digit < 10, isSpace (Char.ofNat (base+digit)) = false ∧
      Char.ofNat (base+digit) ≠ '-' ∧ Char.ofNat (base+digit) ≠ ',' := by decide +kernel
  have hc := htable base hbase (c.toNat-base) (by omega)
  rwa [Nat.add_sub_cancel' hrange.1, Char.ofNat_toNat] at hc

theorem Decimal.trimmed {text : List Char} (h : Decimal text) : Trimmed text where
  head := fun c hc => (decimal_plain (h c (List.mem_of_mem_head? hc))).1
  last := fun c hc => (decimal_plain (h c (List.mem_of_mem_getLast? hc))).1

end Digits

end PyText
