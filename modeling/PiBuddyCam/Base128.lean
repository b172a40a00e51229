import Mathlib.Data.Nat.Bits
import Mathlib.Tactic.Ring

/-! Base-128 numerals: seven payload bits a byte, least significant group first,
the top bit of a byte set when another one follows. -/

namespace Base128

def encode (n : ℕ) : List UInt8 :=
  if 127 < n then UInt8.ofNat (n % 128 ||| 128) :: encode (n / 128) else [UInt8.ofNat n]
termination_by n
decreasing_by omega

/-- Read one numeral, adding its groups to `acc` from bit `shift` upwards. A list
that ends inside the numeral gives what was read so far. -/
def decodeFrom (shift acc : ℕ) : List UInt8 → ℕ × List UInt8
  | [] => (acc, [])
  | b :: rest =>
    let acc' := acc ||| ((b &&& 0x7F).toNat <<< shift)
    if b &&& 0x80 = 0 then (acc', rest) else decodeFrom (shift+7) acc' rest

def decode (data : List UInt8) : ℕ × List UInt8 := decodeFrom 0 0 data

variable (n : ℕ)

theorem encode_ne_nil : encode n ≠ [] := by
  rw [encode]
  split_ifs <;> exact List.cons_ne_nil _ _

theorem decodeFrom_length_le (shift acc : ℕ) (data : List UInt8) :
    (decodeFrom shift acc data).2.length ≤ data.length := by
  induction data generalizing shift acc with
  | nil => simp [decodeFrom]
  | cons b rest ih =>
    rw [decodeFrom]
    split_ifs
    · simp
    · exact (ih _ _).trans (by simp)

theorem decodeFrom_suffix (shift acc : ℕ) (data : List UInt8) : (decodeFrom shift acc data).2 <:+ data := by
  induction data generalizing shift acc with
  | nil => exact List.suffix_rfl
  | cons b rest ih =>
    rw [decodeFrom]
    split_ifs
    · exact List.suffix_cons b rest
    · exact (ih _ _).trans (List.suffix_cons b rest)

theorem decode_length_lt (data : List UInt8) (h : data ≠ []) : (decode data).2.length < data.length := by
  obtain ⟨b, rest, rfl⟩ := List.exists_cons_of_ne_nil h
  rw [decode, decodeFrom]
  split_ifs
  · simp
  · have := decodeFrom_length_le (0+7) (0 ||| ((b &&& 0x7F).toNat <<< 0)) rest
    simp only [List.length_cons]
    omega

theorem continuation_byte :
    (UInt8.ofNat (n % 128 ||| 128) &&& 0x7F).toNat = n % 128 ∧
      UInt8.ofNat (n % 128 ||| 128) &&& 0x80 ≠ 0 := by
  have hlt : n % 128 < 128 := Nat.mod_lt _ (by norm_num)
  have hall : ∀ i : Fin 128, (UInt8.ofNat (i.val ||| 128) &&& 0x7F).toNat = i.val ∧
      UInt8.ofNat (i.val ||| 128) &&& 0x80 ≠ 0 := by decide +kernel
  exact hall ⟨n % 128, hlt⟩

theorem final_byte (h : ¬ 127 < n) :
    (UInt8.ofNat n &&& 0x7F).toNat = n ∧ UInt8.ofNat n &&& 0x80 = 0 := by
  have hall : ∀ i : Fin 128, (UInt8.ofNat i.val &&& 0x7F).toNat = i.val ∧
      UInt8.ofNat i.val &&& 0x80 = 0 := by decide +kernel
  exact hall ⟨n, by omega⟩

theorem or_shiftLeft (acc n shift : ℕ) (h : acc < 2^shift) : acc ||| (n <<< shift) = acc + n*2^shift := by
  rw [Nat.or_comm, Nat.shiftLeft_eq, mul_comm n, ← Nat.two_pow_add_eq_or_of_lt h]
  ring

/-- Reading back a numeral gives its value above the bits already read, and leaves
what followed it. -/
theorem decodeFrom_encode (n shift acc : ℕ) (h : acc < 2^shift) (rest : List UInt8) :
    decodeFrom shift acc (encode n ++ rest) = (acc + n*2^shift, rest) := by
  induction n using Nat.strong_induction_on generalizing shift acc with
  | _ n ih =>
    rw [encode]
    split_ifs with hn
    · obtain ⟨hlow, hbit⟩ := continuation_byte n
      have hacc : acc + n%128*2^shift < 2^(shift+7) := by
        have hmod : n%128 + 1 ≤ 128 := Nat.mod_lt _ (by norm_num)
        calc
          acc + n%128*2^shift < 2^shift + n%128*2^shift := by omega
          _ = (n%128 + 1)*2^shift := by ring
          _ ≤ 128*2^shift := Nat.mul_le_mul_right _ hmod
          _ = 2^(shift+7) := by ring
      rw [List.cons_append, decodeFrom, if_neg hbit, hlow, or_shiftLeft _ _ _ h,
        ih (n/128) (by omega) (shift+7) _ hacc]
      have hdiv : n%128 + 128*(n/128) = n := Nat.mod_add_div n 128
      have hval : acc + n%128*2^shift + n/128*2^(shift+7) = acc + n*2^shift := by
        conv_rhs => rw [← hdiv]
        ring
      rw [hval]
    · obtain ⟨hlow, hbit⟩ := final_byte n hn
      rw [List.cons_append, decodeFrom, if_pos hbit, hlow, or_shiftLeft _ _ _ h, List.nil_append]

theorem decode_encode (rest : List UInt8) : decode (encode n ++ rest) = (n, rest) := by
  rw [decode, decodeFrom_encode n 0 0 (by norm_num)]
  simp

end Base128
