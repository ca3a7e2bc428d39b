import Mathlib

/-! # Decimal numerals as bytes

`numeral n` is the decimal numeral of `n` in ASCII, most significant digit
first; `value` is the number that a machine accumulates which reads digits from
left to right, and `value32` the one that a 32-bit machine accumulates. Reading
a numeral back gives the number (`value_numeral`), modulo `2 ^ 32` in the second
case (`value32_ofNat`).
-/

namespace Decimal

/-- An ASCII digit. -/
def IsDigit (b : UInt8) : Prop := 0x30 ≤ b ∧ b ≤ 0x39

instance : DecidablePred IsDigit := fun _ => inferInstanceAs (Decidable (_ ∧ _))

/-- The decimal numeral of `n` without leading zeros. -/
def numeral (n : Nat) : List UInt8 := (Nat.toDigits 10 n).map fun c => UInt8.ofNat c.toNat

/-- Continues `acc` with the digits of `bs`. -/
def value (acc : Nat) (bs : List UInt8) : Nat :=
  bs.foldl (fun v b => v * 10 + (b.toNat - 0x30)) acc

@[simp] theorem value_cons (acc : Nat) (b : UInt8) (bs : List UInt8) :
    value acc (b :: bs) = value (acc * 10 + (b.toNat - 0x30)) bs := by
  simp only [value, List.foldl_cons]

theorem numeral_ne_nil (n : Nat) : numeral n ≠ [] := by
  simp [numeral, Nat.toDigits_ne_nil]

/-- A digit character fits a byte. -/
theorem toNat_ofNat_digit {c : Char} (h : c.isDigit = true) :
    (UInt8.ofNat c.toNat).toNat = c.toNat ∧ 0x30 ≤ c.toNat ∧ c.toNat ≤ 0x39 := by
  have hc : 48 ≤ c.toNat ∧ c.toNat ≤ 57 := by
    simpa [Char.isDigit, UInt32.le_iff_toNat_le] using h
  refine ⟨UInt8.toNat_ofNat_of_lt' ?_, hc.1, hc.2⟩
  exact Nat.lt_of_le_of_lt hc.2 (by decide)

/-- A numeral has digits only. -/
theorem isDigit_of_mem_numeral {n : Nat} {b : UInt8} (h : b ∈ numeral n) : IsDigit b := by
  obtain ⟨c, hc, rfl⟩ := List.mem_map.mp h
  have hdigit := toNat_ofNat_digit (Nat.isDigit_of_mem_toDigits (by decide) (by decide) hc)
  constructor
  · rw [UInt8.le_iff_toNat_le, hdigit.1]
    exact hdigit.2.1
  · rw [UInt8.le_iff_toNat_le, hdigit.1]
    exact hdigit.2.2

/-- On characters the accumulation is the one of the library. -/
theorem value_map_ofNat (acc : Nat) (cs : List Char) (h : ∀ c ∈ cs, c.isDigit = true) :
    value acc (cs.map fun c => UInt8.ofNat c.toNat) = Nat.ofDigitChars 10 cs acc := by
  induction cs generalizing acc with
  | nil => rfl
  | cons c cs ih =>
      have hc := toNat_ofNat_digit (h c List.mem_cons_self)
      rw [List.map_cons, value_cons, hc.1, Nat.ofDigitChars_cons, Nat.mul_comm acc 10]
      exact ih _ (fun c' hc' => h c' (List.mem_cons_of_mem c hc'))

/-- Reading a numeral gives the number back. -/
theorem value_numeral (n : Nat) : value 0 (numeral n) = n := by
  have hdigits : ∀ c ∈ Nat.toDigits 10 n, c.isDigit = true :=
    fun c hc => Nat.isDigit_of_mem_toDigits (by decide) (by decide) hc
  rw [numeral, value_map_ofNat 0 _ hdigits, Nat.ofDigitChars_ten_toDigits]

/-! ## 32-bit accumulation -/

/-- The accumulation in `u32` arithmetic, which wraps. -/
def value32 (acc : UInt32) (bs : List UInt8) : UInt32 :=
  bs.foldl (fun v b => v * 10 + (b - 0x30).toUInt32) acc

@[simp] theorem value32_cons (acc : UInt32) (b : UInt8) (bs : List UInt8) :
    value32 acc (b :: bs) = value32 (acc * 10 + (b - 0x30).toUInt32) bs := by
  simp only [value32, List.foldl_cons]

/-- The digit as a machine word. The subtraction does not wrap, as a digit is not below `0`. -/
theorem toUInt32_digit {b : UInt8} (h : IsDigit b) :
    (b - 0x30).toUInt32 = UInt32.ofNat (b.toNat - 0x30) := by
  have hb : b.toNat < 256 := b.toNat_lt
  apply UInt32.toNat.inj
  rw [UInt8.toNat_toUInt32, UInt8.toNat_sub_of_le _ _ h.1, UInt32.toNat_ofNat_of_lt']
  · rfl
  · exact Nat.lt_of_le_of_lt (Nat.sub_le _ _) (Nat.lt_trans hb (by decide))

/-- The wrapping accumulation computes the value modulo `2 ^ 32`. -/
theorem value32_ofNat (acc : Nat) (bs : List UInt8) (h : ∀ b ∈ bs, IsDigit b) :
    value32 (UInt32.ofNat acc) bs = UInt32.ofNat (value acc bs) := by
  induction bs generalizing acc with
  | nil => rfl
  | cons b bs ih =>
      rw [value32_cons, value_cons, ← ih _ (fun b' hb' => h b' (List.mem_cons_of_mem b hb')),
        toUInt32_digit (h b List.mem_cons_self), UInt32.ofNat_add, UInt32.ofNat_mul]
      rfl

/-- A numeral of a `u32` is read back exactly. -/
theorem value32_numeral (n : UInt32) : value32 0 (numeral n.toNat) = n := by
  have h := value32_ofNat 0 (numeral n.toNat) (fun _ hb => isDigit_of_mem_numeral hb)
  rw [value_numeral, UInt32.ofNat_toNat] at h
  exact h

/-- The digits of two strings, read on. -/
theorem value_append (acc : Nat) (bs cs : List UInt8) :
    value acc (bs ++ cs) = value (value acc bs) cs := by
  rw [value, List.foldl_append]
  rfl

/-- One digit more at the end. -/
theorem value_snoc (bs : List UInt8) (b : UInt8) :
    value 0 (bs ++ [b]) = value 0 bs * 10 + (b.toNat - 0x30) := by
  rw [value_append]
  rfl

/-- More digits, a larger number. -/
theorem le_value (acc : Nat) (bs : List UInt8) : acc ≤ value acc bs := by
  induction bs generalizing acc with
  | nil => exact le_rfl
  | cons b bs ih =>
      rw [value_cons]
      have hstep := ih (acc * 10 + (b.toNat - 0x30))
      omega

/-- `n` digits make a number of at most `n` digits. -/
theorem value_lt_pow {bs : List UInt8} (h : ∀ b ∈ bs, IsDigit b) : value 0 bs < 10 ^ bs.length := by
  induction bs using List.reverseRecOn with
  | nil => decide
  | append_singleton bs b ih =>
      have hinit := ih (fun b' hb' => h b' (List.mem_append_left _ hb'))
      have hdigit : b.toNat ≤ 0x39 := (h b (by simp)).2
      rw [value_snoc, List.length_append, List.length_singleton, Nat.pow_succ]
      omega

theorem value32_snoc (bs : List UInt8) (b : UInt8) :
    value32 0 (bs ++ [b]) = value32 0 bs * 10 + (b - 0x30).toUInt32 := by
  rw [value32, List.foldl_append]
  rfl

/-- A number below `2 ^ 32` is accumulated exactly. -/
theorem toNat_value32 {bs : List UInt8} (h : ∀ b ∈ bs, IsDigit b) (hlt : value 0 bs < 2 ^ 32) :
    (value32 0 bs).toNat = value 0 bs := by
  have hvalue := value32_ofNat 0 bs h
  rw [show (0 : UInt32) = UInt32.ofNat 0 from rfl, hvalue, UInt32.toNat_ofNat_of_lt' hlt]

/-! ## Runs of digits -/

/-- Where a run of digits may begin: not right after a digit. -/
def LeftEnd (bs : List UInt8) : Prop := ∀ b ∈ bs.getLast?, ¬ IsDigit b

/-- Where a run of digits may end: not right before a digit. -/
def RightEnd (bs : List UInt8) : Prop := ∀ b ∈ bs.head?, ¬ IsDigit b

/-- `ds` is a maximal run of digits in `bs`. -/
def IsRun (bs ds : List UInt8) : Prop :=
  ds ≠ [] ∧ (∀ b ∈ ds, IsDigit b) ∧ ∃ pre post, bs = pre ++ ds ++ post ∧ LeftEnd pre ∧ RightEnd post

/-- After a symbol that is no digit a run may begin. -/
theorem leftEnd_snoc {bs : List UInt8} {b : UInt8} (hb : ¬ IsDigit b) : LeftEnd (bs ++ [b]) := by
  intro x hx
  rw [List.getLast?_concat, Option.mem_some_iff] at hx
  rw [← hx]
  exact hb

theorem not_leftEnd_snoc {bs : List UInt8} {b : UInt8} (hb : IsDigit b) :
    ¬ LeftEnd (bs ++ [b]) := by
  intro h
  exact h b (by rw [List.getLast?_concat]; rfl) hb

/-- The runs of a short string are small numbers. -/
theorem IsRun.value_lt {bs ds : List UInt8} (h : IsRun bs ds) (hlen : bs.length ≤ 9) :
    value 0 ds < 2 ^ 32 := by
  obtain ⟨-, hdigits, pre, post, rfl, -, -⟩ := h
  have hds : ds.length ≤ 9 := by
    simp only [List.length_append] at hlen
    omega
  calc value 0 ds < 10 ^ ds.length := value_lt_pow hdigits
    _ ≤ 10 ^ 9 := Nat.pow_le_pow_right (by decide) hds
    _ < 2 ^ 32 := by decide

/-- A string that is not all digits, cut at the last symbol that is none. -/
theorem exists_last_nondigit {bs : List UInt8} (h : ¬ ∀ b ∈ bs, IsDigit b) :
    ∃ front b back, bs = front ++ b :: back ∧ ¬ IsDigit b ∧ ∀ b' ∈ back, IsDigit b' := by
  induction bs using List.reverseRecOn with
  | nil => exact absurd (by simp) h
  | append_singleton bs b ih =>
      by_cases hb : IsDigit b
      · have hbs : ¬ ∀ b ∈ bs, IsDigit b := by
          intro hall
          apply h
          intro b' hb'
          rcases List.mem_append.mp hb' with hb' | hb'
          · exact hall b' hb'
          · rw [List.mem_singleton.mp hb']
            exact hb
        -- the last one is in front of `b`, which goes to the digits behind it
        obtain ⟨front, x, back, rfl, hx, hback⟩ := ih hbs
        refine ⟨front, x, back ++ [b], by simp, hx, ?_⟩
        intro b' hb'
        rcases List.mem_append.mp hb' with hb' | hb'
        · exact hback b' hb'
        · rw [List.mem_singleton.mp hb']
          exact hb
      · exact ⟨bs, b, [], rfl, hb, by simp⟩

end Decimal
