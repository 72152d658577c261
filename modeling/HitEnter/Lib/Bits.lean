import Mathlib

/-! Numbers of a fixed width as rows of bits, the highest first, and a row of such numbers
as the bits of each in turn. -/

namespace HitEnter.Lib.Bits

/-- The last `width` bits of `n`, the highest first. -/
def bits : ℕ → ℕ → List Bool
  | 0, _ => []
  | width + 1, n => n.testBit width :: bits width n

@[simp] theorem length_bits (width n : ℕ) : (bits width n).length = width := by
  induction width with
  | zero => rfl
  | succ width ih => simp [bits, ih]

/-- Nothing past the width shows. -/
theorem bits_congr {width a b : ℕ} (same : ∀ i < width, a.testBit i = b.testBit i) : bits width a = bits width b := by
  induction width with
  | zero => rfl
  | succ width ih =>
    rw [bits, bits, same width (Nat.lt_succ_self width), ih fun i small => same i (Nat.lt_succ_of_lt small)]

theorem testBit_of_bits {width a b : ℕ} (same : bits width a = bits width b) : ∀ i < width, a.testBit i = b.testBit i := by
  induction width with
  | zero => exact fun i none_ => absurd none_ (Nat.not_lt_zero i)
  | succ width ih =>
    intro i small
    obtain ⟨top, rest⟩ := List.cons.inj same
    obtain rfl | below := Nat.eq_or_lt_of_le (Nat.le_of_lt_succ small)
    · exact top
    · exact ih rest i below

/-- Two numbers of the width are told apart by their bits. -/
theorem bits_injective {width a b : ℕ} (smallA : a < 2 ^ width) (smallB : b < 2 ^ width)
    (same : bits width a = bits width b) : a = b := by
  refine Nat.eq_of_testBit_eq fun i => ?_
  by_cases inside : i < width
  · exact testBit_of_bits same i inside
  · have past : 2 ^ width ≤ 2 ^ i := Nat.pow_le_pow_right Nat.two_pos (Nat.not_lt.mp inside)
    rw [Nat.testBit_lt_two_pow (smallA.trans_le past), Nat.testBit_lt_two_pow (smallB.trans_le past)]

/-- The bits of a number are those above a place and those below it. -/
theorem bits_split (high low n : ℕ) : bits (high + low) n = bits high (n >>> low) ++ bits low n := by
  induction high with
  | zero => rw [Nat.zero_add, bits, List.nil_append]
  | succ high ih => rw [Nat.succ_add, bits, bits, ih, Nat.testBit_shiftRight, Nat.add_comm low high, List.cons_append]

theorem bits_mod (width n : ℕ) : bits width (n % 2 ^ width) = bits width n :=
  bits_congr fun i inside => by rw [Nat.testBit_mod_two_pow, decide_eq_true inside, Bool.true_and]

/-- A number written after another. -/
theorem bits_or {low back : ℕ} (high front : ℕ) (small : back < 2 ^ low) :
    bits (high + low) (front <<< low ||| back) = bits high front ++ bits low back := by
  have above : (front <<< low ||| back) >>> low = front := by
    rw [← Nat.shiftLeft_add_eq_or_of_lt small, Nat.shiftLeft_eq, Nat.shiftRight_eq_div_pow, Nat.add_comm,
      Nat.add_mul_div_right _ _ (Nat.two_pow_pos low), Nat.div_eq_of_lt small, Nat.zero_add]
  have below : (front <<< low ||| back) % 2 ^ low = back := by
    rw [← Nat.shiftLeft_add_eq_or_of_lt small, Nat.shiftLeft_eq, Nat.mul_add_mod', Nat.mod_eq_of_lt small]
  rw [bits_split, above, ← bits_mod low, below]

theorem bits_zero (width : ℕ) : bits width 0 = List.replicate width false := by
  induction width with
  | zero => rfl
  | succ width ih => rw [bits, ih, Nat.zero_testBit, List.replicate_succ]

/-! ### Rows of numbers -/

section Rows
variable {α : Type} {value : α → ℕ} {width : ℕ}

theorem length_flatMap_bits (row : List α) : (row.flatMap fun x => bits width (value x)).length = width * row.length := by
  rw [List.length_flatMap]
  simp [Nat.mul_comm]

/-- Rows of the same length with the same bits are the same. -/
theorem flatMap_bits_injective (apart : Function.Injective value) (small : ∀ x, value x < 2 ^ width)
    {row other : List α} (long : row.length = other.length)
    (same : (row.flatMap fun x => bits width (value x)) = other.flatMap fun x => bits width (value x)) : row = other := by
  induction row generalizing other with
  | nil => exact (List.length_eq_zero_iff.mp long.symm).symm
  | cons x rest ih =>
    cases other with
    | nil => cases long
    | cons y others =>
      rw [List.flatMap_cons, List.flatMap_cons] at same
      obtain ⟨first, later⟩ := List.append_inj same (by simp)
      rw [apart (bits_injective (small x) (small y) first), ih (Nat.succ.inj long) later]

/-- Two rows whose bits agree but for less than a number's worth of them at the end are the
same, where the ends are less than a number apart. -/
theorem eq_of_flatMap_bits_append (apart : Function.Injective value) (small : ∀ x, value x < 2 ^ width)
    {row other : List α} {ends otherEnds : List Bool} (short : ends.length < width) (shortToo : otherEnds.length < width)
    (same : (row.flatMap fun x => bits width (value x)) ++ ends =
      (other.flatMap fun x => bits width (value x)) ++ otherEnds) : row = other := by
  have lengths := congrArg List.length same
  rw [List.length_append, List.length_append, length_flatMap_bits, length_flatMap_bits] at lengths
  have quotient (count : ℕ) {rest : ℕ} (few : rest < width) : (width * count + rest) / width = count := by
    rw [Nat.mul_add_div (Nat.zero_lt_of_lt few), Nat.div_eq_of_lt few, Nat.add_zero]
  have long : row.length = other.length := by
    rw [← quotient row.length short, lengths, quotient other.length shortToo]
  have whole : (row.flatMap fun x => bits width (value x)).length = (other.flatMap fun x => bits width (value x)).length := by
    rw [length_flatMap_bits, length_flatMap_bits, long]
  exact flatMap_bits_injective apart small long (List.append_inj same whole).1

end Rows

end HitEnter.Lib.Bits
