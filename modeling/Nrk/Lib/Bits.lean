import Mathlib.Tactic

/-! # The lowest set bit of a machine word

`trailing_zeros`, `wrapping_neg` and `set_bit` on `w`-bit words. -/

namespace Nat

/-- `uN::trailing_zeros` of a `w`-bit value: `w` for zero. -/
def trailing_zeros : ℕ → ℕ → ℕ
  | 0, _ => 0
  | w + 1, x => if x % 2 = 1 then 0 else trailing_zeros w (x / 2) + 1

/-- `uN::wrapping_neg` of a `w`-bit value. -/
def wrapping_neg (w x : ℕ) : ℕ := (2 ^ w - x) % 2 ^ w

variable {w x : ℕ}

theorem testBit_trailing_zeros (hx : 0 < x) (hw : x < 2 ^ w) :
    trailing_zeros w x < w ∧ x.testBit (trailing_zeros w x) = true ∧
      ∀ j < trailing_zeros w x, x.testBit j = false := by
  induction w generalizing x with
  | zero => omega
  | succ w ih =>
      by_cases hodd : x % 2 = 1
      · simp only [trailing_zeros, hodd, if_true]
        exact ⟨Nat.succ_pos w, by simp [hodd], fun j hj => absurd hj (Nat.not_lt_zero j)⟩
      · -- an even word: its trailing zeros are those of `x / 2`, one further up
        have hhalf : 0 < x / 2 := by omega
        obtain ⟨hlt, hbit, hlow⟩ := ih hhalf (by rw [pow_succ] at hw; omega)
        simp only [trailing_zeros, if_neg hodd]
        refine ⟨by omega, by rw [← testBit_div_two]; exact hbit, fun j hj => ?_⟩
        cases j with
        | zero => simpa using hodd
        | succ j => rw [← testBit_div_two]; exact hlow j (by omega)

theorem eq_two_pow_trailing_zeros_mul (hx : 0 < x) (hw : x < 2 ^ w) :
    x = 2 ^ trailing_zeros w x * (x / 2 ^ trailing_zeros w x) ∧
      (x / 2 ^ trailing_zeros w x) % 2 = 1 := by
  obtain ⟨-, hbit, hlow⟩ := testBit_trailing_zeros hx hw
  have hmod : x % 2 ^ trailing_zeros w x = 0 := by
    apply eq_of_testBit_eq
    intro j
    rw [testBit_mod_two_pow, zero_testBit]
    by_cases hj : j < trailing_zeros w x
    · simp [hj, hlow j hj]
    · simp [hj]
  refine ⟨(Nat.mul_div_cancel' (Nat.dvd_of_mod_eq_zero hmod)).symm, ?_⟩
  have := testBit_div_two_pow x 0 (n := trailing_zeros w x)
  rw [Nat.zero_add, hbit, testBit_zero] at this
  simpa using this

theorem and_two_pow_sub_of_odd {n y : ℕ} (hodd : y % 2 = 1) (hy : y < 2 ^ n) :
    y &&& (2 ^ n - y) = 1 := by
  apply eq_of_testBit_eq
  intro j
  -- the bits of `2 ^ n - y` are those of `y - 1` flipped below `n`
  have hneg := testBit_two_pow_sub_succ (show y - 1 < 2 ^ n by omega) j
  rw [show y - 1 + 1 = y by omega] at hneg
  rw [testBit_and, hneg]
  cases j with
  | zero =>
      have hn : 0 < n := by
        rcases n with _ | n
        · simp at hy; omega
        · omega
      simp [testBit_zero, hodd, hn, show (y - 1) % 2 = 0 by omega]
  | succ j =>
      -- above bit zero, `y - 1` and `y` agree
      have hhalf : (y - 1) / 2 = y / 2 := by omega
      rw [testBit_succ, testBit_succ, testBit_succ, hhalf]
      cases (y / 2).testBit j <;> simp

/-- `x & x.wrapping_neg()` is the lowest set bit of a non-zero `x`. -/
theorem and_wrapping_neg (hx : 0 < x) (hw : x < 2 ^ w) :
    x &&& wrapping_neg w x = 2 ^ trailing_zeros w x := by
  obtain ⟨hlt, -, -⟩ := testBit_trailing_zeros hx hw
  obtain ⟨hxy, hodd⟩ := eq_two_pow_trailing_zeros_mul hx hw
  set t := trailing_zeros w x
  set y := x / 2 ^ t
  -- both words are `2 ^ t` times an odd number
  have hyw : y < 2 ^ (w - t) := by
    rw [Nat.div_lt_iff_lt_mul (Nat.two_pow_pos t), ← pow_add, Nat.sub_add_cancel hlt.le]
    exact hw
  have hneg : wrapping_neg w x = 2 ^ t * (2 ^ (w - t) - y) := by
    rw [wrapping_neg, Nat.mod_eq_of_lt (by omega), Nat.mul_sub, ← pow_add,
      Nat.add_sub_cancel' hlt.le, ← hxy]
  rw [hneg, hxy]
  apply eq_of_testBit_eq
  intro j
  rw [testBit_and, testBit_two_pow_mul, testBit_two_pow_mul, testBit_two_pow]
  have hbits := congrArg (fun v => v.testBit (j - t)) (and_two_pow_sub_of_odd hodd hyw)
  simp only [testBit_and] at hbits
  by_cases hj : t ≤ j
  · rcases Nat.eq_or_lt_of_le hj with rfl | hj'
    · simpa using hbits
    · have : (1 : ℕ).testBit (j - t) = false := by
        rw [show j - t = (j - t - 1) + 1 by omega, testBit_succ]
        simp
      rw [this] at hbits
      simp only [hj, decide_true, Bool.true_and]
      rw [show (y.testBit (j - t) && (2 ^ (w - t) - y).testBit (j - t)) = false from hbits]
      simp [show t ≠ j by omega]
  · simp [hj, show t ≠ j by omega]

/-- `BitField::set_bit` on a `w`-bit word, past its assertion `bit < w`: `x |= 1 << bit` or
`x &= !(1 << bit)`. -/
def set_bit (w x bit : ℕ) (value : Bool) : ℕ :=
  if value then x ||| 2 ^ bit else x &&& (2 ^ w - 1 - 2 ^ bit)

theorem testBit_set_bit {bit : ℕ} (hx : x < 2 ^ w) (hbit : bit < w) (value : Bool) (j : ℕ) :
    (set_bit w x bit value).testBit j = if j = bit then value else x.testBit j := by
  have hpow : 2 ^ bit < 2 ^ w := Nat.pow_lt_pow_right (by decide) hbit
  cases value with
  | true =>
      simp only [set_bit, if_true, testBit_or, testBit_two_pow]
      by_cases hj : j = bit
      · simp [hj]
      · simp [hj, Ne.symm hj]
  | false =>
      -- `!(1 << bit)` is `2 ^ w - (2 ^ bit + 1)`: every bit below `w` but `bit`
      simp only [set_bit, Bool.false_eq_true, if_false, testBit_and,
        show 2 ^ w - 1 - 2 ^ bit = 2 ^ w - (2 ^ bit + 1) by omega,
        testBit_two_pow_sub_succ hpow, testBit_two_pow]
      by_cases hj : j = bit
      · simp [hj]
      · by_cases hjw : j < w
        · simp [hj, Ne.symm hj, hjw]
        · simp [hj, hjw, testBit_lt_two_pow (lt_of_lt_of_le hx
            (Nat.pow_le_pow_right (by decide) (Nat.le_of_not_lt hjw)))]

theorem set_bit_lt {bit : ℕ} (hx : x < 2 ^ w) (hbit : bit < w) (value : Bool) :
    set_bit w x bit value < 2 ^ w := by
  apply lt_pow_two_of_testBit
  intro j hj
  rw [testBit_set_bit hx hbit, if_neg (by omega), testBit_lt_two_pow (lt_of_lt_of_le hx
    (Nat.pow_le_pow_right (by decide) hj))]

end Nat

namespace List

/-- Listing the numbers below `n` that satisfy `p`, where `t` is the least of them: `t`, then
those that satisfy `p` without `t`. This is how an iterator over set bits that clears the
lowest one at each step walks the set. -/
theorem filter_range_eq_cons {n t : ℕ} {p p' : ℕ → Bool} (ht : t < n) (hpt : p t = true)
    (hbefore : ∀ j < t, p j = false) (hp' : ∀ j, p' j = (p j && decide (j ≠ t))) :
    (range n).filter p = t :: (range n).filter p' := by
  have hsplit : range n = range t ++ t :: range' (t + 1) (n - (t + 1)) := by
    have happ := range'_append_1 (s := 0) (m := t) (n := n - t)
    rw [Nat.zero_add, Nat.add_sub_cancel' ht.le] at happ
    rw [range_eq_range', range_eq_range', ← happ, show n - t = n - (t + 1) + 1 by omega,
      range'_succ]
  have hlow : ∀ q : ℕ → Bool, (∀ j < t, q j = false) → (range t).filter q = [] := by
    intro q hq
    rw [filter_eq_nil_iff]
    intro j hj
    simp [hq j (mem_range.mp hj)]
  rw [hsplit, filter_append, filter_append, hlow p hbefore,
    hlow p' fun j hj => by simp [hp', hbefore j hj], filter_cons_of_pos hpt,
    filter_cons_of_neg (by simp [hp'])]
  -- above `t`, `p` and `p'` agree
  simp only [nil_append, cons.injEq, true_and]
  apply filter_congr
  intro j hj
  rw [mem_range'_1] at hj
  rw [hp', show decide (j ≠ t) = true by simp only [decide_eq_true_eq]; omega, Bool.and_true]

end List
