import Mathlib.Data.List.Infix

/-! UTF-8 over lists of bytes: where a piece of ASCII stands in the bytes it stands in the text,
and the decoder that puts U+FFFD for what it cannot read does not make up any. -/
namespace Utf8

def encode (cs : List Char) : List UInt8 := cs.flatMap String.utf8EncodeChar

def Plain (c : Char) : Prop := 0 < c.toNat ∧ c.toNat < 128

instance (c : Char) : Decidable (Plain c) := inferInstanceAs (Decidable (_ ∧ _))

theorem encode_cons (c : Char) (cs : List Char) : encode (c :: cs) = String.utf8EncodeChar c ++ encode cs := rfl

theorem encode_append (cs ds : List Char) : encode (cs ++ ds) = encode cs ++ encode ds := List.flatMap_append

theorem utf8EncodeChar_cases (c : Char) :
    (c.toNat < 128 ∧ String.utf8EncodeChar c = [UInt8.ofNat c.toNat]) ∨
      (128 ≤ c.toNat ∧ ∀ b ∈ String.utf8EncodeChar c, 128 ≤ b.toNat) := by
  have hbyte (n : ℕ) (h : 128 ≤ n % 256) : 128 ≤ (UInt8.ofNat n).toNat := by rwa [UInt8.toNat_ofNat']
  have hval : c.toNat = c.val.toNat := rfl
  unfold String.utf8EncodeChar
  dsimp only
  split_ifs with h1 h2 h3
  · exact Or.inl ⟨by omega, by rw [hval]⟩
  all_goals
    refine Or.inr ⟨by omega, fun b hb => ?_⟩
    simp only [List.mem_cons, List.not_mem_nil, or_false] at hb
    rcases hb with rfl | hb
    · exact hbyte _ (by omega)
  · rw [hb]
    exact hbyte _ (by omega)
  · rcases hb with rfl | rfl
    · exact hbyte _ (by omega)
    · exact hbyte _ (by omega)
  · rcases hb with rfl | rfl | rfl
    · exact hbyte _ (by omega)
    · exact hbyte _ (by omega)
    · exact hbyte _ (by omega)

theorem utf8EncodeChar_plain {c : Char} (h : Plain c) : String.utf8EncodeChar c = [UInt8.ofNat c.toNat] := by
  rcases utf8EncodeChar_cases c with hc | hc
  · exact hc.2
  · exact absurd h.2 (by omega)

theorem toNat_ofNat_of_lt {n : ℕ} (h : n < 128) : (UInt8.ofNat n).toNat = n := by
  rw [UInt8.toNat_ofNat']
  omega

theorem encode_ascii {cs : List Char} (h : ∀ c ∈ cs, c.toNat < 128) :
    encode cs = cs.map fun c => UInt8.ofNat c.toNat := by
  induction cs with
  | nil => rfl
  | cons c cs ih =>
    obtain ⟨hc, hcs⟩ := List.forall_mem_cons.mp h
    rcases utf8EncodeChar_cases c with ⟨-, hbyte⟩ | ⟨hhigh, -⟩
    · rw [encode_cons, hbyte, ih hcs, List.map_cons, List.singleton_append]
    · omega

theorem prefix_of_encode {p cs : List Char} (hp : ∀ c ∈ p, Plain c) (h : encode p <+: encode cs) : p <+: cs := by
  induction p generalizing cs with
  | nil => exact List.nil_prefix
  | cons x p ih =>
    obtain ⟨hx, hp⟩ := List.forall_mem_cons.mp hp
    rw [encode_cons, utf8EncodeChar_plain hx] at h
    cases cs with
    | nil => exact absurd h (by simp [encode])
    | cons c cs =>
      rw [encode_cons] at h
      rcases utf8EncodeChar_cases c with ⟨hlt, hc⟩ | ⟨-, hc⟩
      · rw [hc] at h
        obtain ⟨hbyte, hrest⟩ := List.cons_prefix_cons.mp h
        have hnat := congrArg UInt8.toNat hbyte
        rw [toNat_ofNat_of_lt hx.2, toNat_ofNat_of_lt hlt] at hnat
        obtain rfl : x = c := Char.toNat_inj.mp hnat
        exact List.cons_prefix_cons.mpr ⟨rfl, ih hp hrest⟩
      · obtain ⟨b, bs, hbs⟩ := List.exists_cons_of_ne_nil (String.utf8EncodeChar_ne_nil (c := c))
        rw [hbs] at h hc
        obtain ⟨rfl, -⟩ := List.cons_prefix_cons.mp h
        have hhigh := hc _ List.mem_cons_self
        rw [toNat_ofNat_of_lt hx.2] at hhigh
        exact absurd hx.2 (by omega)

theorem infix_of_high {b : UInt8} {l high rest : List UInt8} (hb : b.toNat < 128) (hhigh : ∀ x ∈ high, 128 ≤ x.toNat)
    (h : b :: l <:+: high ++ rest) : b :: l <:+: rest := by
  induction high with
  | nil => exact h
  | cons x high ih =>
    obtain ⟨hx, hhigh⟩ := List.forall_mem_cons.mp hhigh
    rw [List.cons_append] at h
    rcases List.infix_cons_iff.mp h with h | h
    · obtain ⟨rfl, -⟩ := List.cons_prefix_cons.mp h
      omega
    · exact ih hhigh h

theorem infix_of_encode {p cs : List Char} (hp : ∀ c ∈ p, Plain c) (h : encode p <:+: encode cs) : p <:+: cs := by
  cases p with
  | nil => exact List.nil_infix
  | cons x p =>
    obtain ⟨hx, -⟩ := List.forall_mem_cons.mp hp
    have hfirst : encode (x :: p) = UInt8.ofNat x.toNat :: encode p := by
      rw [encode_cons, utf8EncodeChar_plain hx]
      rfl
    induction cs with
    | nil => exact absurd h (by simp [encode])
    | cons c cs ih =>
      rw [encode_cons c] at h
      rcases utf8EncodeChar_cases c with ⟨-, hc⟩ | ⟨-, hc⟩
      · have hbyte : String.utf8EncodeChar c ++ encode cs = UInt8.ofNat c.toNat :: encode cs := by
          rw [hc]
          rfl
        rw [hbyte] at h
        rcases List.infix_cons_iff.mp h with h | h
        · rw [← hbyte, ← encode_cons] at h
          exact (prefix_of_encode hp h).isInfix
        · exact (ih h).trans (List.infix_cons List.infix_rfl)
      · rw [hfirst] at h ih
        have hlow : (UInt8.ofNat x.toNat).toNat < 128 := by
          rw [toNat_ofNat_of_lt hx.2]
          exact hx.2
        exact (ih (infix_of_high hlow hc h)).trans (List.infix_cons List.infix_rfl)

section Replace

/-- For the first byte of a sequence: how many follow, and the bounds of the one next to it. -/
def lead (b : ℕ) : Option (ℕ × ℕ × ℕ) :=
  if 0xC2 ≤ b ∧ b ≤ 0xDF then some (1, 0x80, 0xBF)
  else if b = 0xE0 then some (2, 0xA0, 0xBF)
  else if b = 0xED then some (2, 0x80, 0x9F)
  else if 0xE1 ≤ b ∧ b ≤ 0xEF then some (2, 0x80, 0xBF)
  else if b = 0xF0 then some (3, 0x90, 0xBF)
  else if b = 0xF4 then some (3, 0x80, 0x8F)
  else if 0xF1 ≤ b ∧ b ≤ 0xF3 then some (3, 0x80, 0xBF)
  else none

/-- The bytes that do follow, at most so many, the first of them between the bounds. -/
def following : ℕ → ℕ → ℕ → List UInt8 → List UInt8
  | 0, _, _, _ => []
  | _+1, _, _, [] => []
  | n+1, low, high, b :: rest => if low ≤ b.toNat ∧ b.toNat ≤ high then b :: following n 0x80 0xBF rest else []

def leadBits (count b : ℕ) : ℕ := b - (if count = 1 then 0xC0 else if count = 2 then 0xE0 else 0xF0)

def codePoint (bits : ℕ) (bytes : List UInt8) : ℕ := bytes.foldl (fun n b => n*64 + (b.toNat-0x80)) bits

/-- `bytes.decode('utf-8', 'replace')`: the longest start of a sequence that cannot be completed
becomes one U+FFFD. -/
def decodeReplace : List UInt8 → List Char
  | [] => []
  | b :: rest =>
    if b.toNat < 128 then Char.ofNat b.toNat :: decodeReplace rest
    else match lead b.toNat with
      | none => '�' :: decodeReplace rest
      | some (count, low, high) =>
        let bytes := following count low high rest
        (if bytes.length = count then Char.ofNat (codePoint (leadBits count b.toNat) bytes) else '�') ::
          decodeReplace (rest.drop bytes.length)
termination_by bytes => bytes.length
decreasing_by
  all_goals simp only [List.length_cons, List.length_drop]; omega

theorem codePoint_cons (bits : ℕ) (b : UInt8) (bytes : List UInt8) :
    codePoint bits (b :: bytes) = codePoint (bits*64 + (b.toNat-0x80)) bytes := by
  rw [codePoint, List.foldl_cons, ← codePoint]

theorem le_codePoint (bits : ℕ) (bytes : List UInt8) : bits ≤ codePoint bits bytes := by
  induction bytes generalizing bits with
  | nil => exact le_rfl
  | cons b bytes ih =>
    rw [codePoint_cons]
    exact le_trans (by omega) (ih _)

theorem lead_bounds {b count low high : ℕ} (h : lead b = some (count, low, high)) :
    1 ≤ count ∧ (count = 1 → 2 ≤ leadBits count b) ∧ 130 ≤ leadBits count b*64 + low := by
  have hall : ∀ b : Fin 256, ∀ r ∈ lead b.val,
      1 ≤ r.1 ∧ (r.1 = 1 → 2 ≤ leadBits r.1 b.val) ∧ 130 ≤ leadBits r.1 b.val*64 + r.2.1 := by decide +kernel
  have hb : b < 256 := by
    by_contra hb
    unfold lead at h
    split_ifs at h <;> omega
  exact hall ⟨b, hb⟩ _ h

theorem codePoint_ge {b count low high : ℕ} (h : lead b = some (count, low, high)) {rest : List UInt8}
    (hlength : (following count low high rest).length = count) :
    128 ≤ codePoint (leadBits count b) (following count low high rest) := by
  obtain ⟨hcount, hone, hbits⟩ := lead_bounds h
  obtain ⟨n, rfl⟩ : ∃ n, count = n+1 := ⟨count-1, by omega⟩
  cases rest with
  | nil => exact absurd hlength (by simp [following])
  | cons b₁ rest =>
    unfold following at hlength ⊢
    split_ifs at hlength ⊢ with hb₁
    rw [codePoint_cons]
    cases hbytes : following n 0x80 0xBF rest with
    | nil =>
      -- the last byte was the only one
      rw [hbytes] at hlength
      have htwo := hone hlength.symm
      exact le_trans (by omega) (le_codePoint _ _)
    | cons b₂ bytes =>
      rw [codePoint_cons]
      exact le_trans (by omega) (le_codePoint _ _)

theorem charOfNat_toNat (n : ℕ) : (Char.ofNat n).toNat = if n.isValidChar then n else 0 := by
  by_cases hvalid : n.isValidChar
  · rw [if_pos hvalid, Char.ofNat, dif_pos hvalid]
    rfl
  · rw [if_neg hvalid, Char.ofNat, dif_neg hvalid]
    rfl

theorem ofNat_ne_plain {n : ℕ} (hn : 128 ≤ n) {c : Char} (hc : Plain c) : Char.ofNat n ≠ c := by
  rintro rfl
  obtain ⟨hpos, hlt⟩ := hc
  by_cases hvalid : n.isValidChar
  · rw [charOfNat_toNat, if_pos hvalid] at hlt
    omega
  · rw [charOfNat_toNat, if_neg hvalid] at hpos
    omega

theorem decodeReplace_ascii {bytes : List UInt8} (h : ∀ b ∈ bytes, b.toNat < 128) :
    decodeReplace bytes = bytes.map fun b => Char.ofNat b.toNat := by
  induction bytes with
  | nil => rw [decodeReplace, List.map_nil]
  | cons b bytes ih =>
    obtain ⟨hb, hbytes⟩ := List.forall_mem_cons.mp h
    rw [decodeReplace, if_pos hb, ih hbytes, List.map_cons]

theorem map_ofNat_toNat {cs : List Char} (h : ∀ c ∈ cs, c.toNat < 128) :
    cs.map ((fun b : UInt8 => Char.ofNat b.toNat) ∘ fun c => UInt8.ofNat c.toNat) = cs := by
  have hback : ∀ c ∈ cs, ((fun b : UInt8 => Char.ofNat b.toNat) ∘ fun c => UInt8.ofNat c.toNat) c = id c := by
    intro c hc
    rw [Function.comp_apply, toNat_ofNat_of_lt (h c hc), Char.ofNat_toNat, id]
  rw [List.map_congr_left hback, List.map_id]

theorem prefix_of_decodeReplace {p : List Char} {raw : List UInt8} (hp : ∀ c ∈ p, Plain c)
    (h : p <+: decodeReplace raw) : encode p <+: raw := by
  induction p generalizing raw with
  | nil => exact List.nil_prefix
  | cons x p ih =>
    obtain ⟨hx, hp⟩ := List.forall_mem_cons.mp hp
    have hmark : '�' ≠ x := by
      rintro rfl
      exact absurd hx (by decide)
    cases raw with
    | nil =>
      rw [decodeReplace] at h
      exact absurd h (by simp)
    | cons b rest =>
      rw [decodeReplace] at h
      split_ifs at h with hb
      · obtain ⟨hfirst, hrest⟩ := List.cons_prefix_cons.mp h
        have hbyte : UInt8.ofNat x.toNat = b := by
          have hvalid : b.toNat.isValidChar := Or.inl (by omega)
          rw [hfirst, charOfNat_toNat, if_pos hvalid, UInt8.ofNat_toNat]
        rw [encode_cons, utf8EncodeChar_plain hx, hbyte]
        exact List.cons_prefix_cons.mpr ⟨rfl, ih hp hrest⟩
      · split at h
        · exact absurd (List.cons_prefix_cons.mp h).1.symm hmark
        · next hlead =>
          have hfirst := (List.cons_prefix_cons.mp h).1
          split_ifs at hfirst with hlength
          · exact absurd hfirst.symm (ofNat_ne_plain (codePoint_ge hlead hlength) hx)
          · exact absurd hfirst.symm hmark

end Replace

end Utf8
