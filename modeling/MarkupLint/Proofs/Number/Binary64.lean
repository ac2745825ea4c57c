import MarkupLint.Number.Binary64
import Mathlib.Algebra.Order.Field.Rat
import Mathlib.Data.Rat.Lemmas
import Mathlib.Tactic.Positivity

/-!
# The range of binary numbers

Which binary numbers are above zero, and which whole numbers are so large that the nearest binary
number is infinite.  The largest finite number is one unit of its last digit below the power of two
that would need one more digit; from half a unit below that power on, a whole number is rounded to
it, and so to infinity.
-/

namespace MarkupLint
namespace Number

theorem scaleQuotient_pos (numerator : Nat) (exponent : Int) :
    0 < (scaleQuotient numerator 1 exponent).2 := by
  rw [scaleQuotient]
  split
  · exact Nat.one_pos
  · exact Nat.mul_pos Nat.one_pos (Nat.two_pow_pos _)

theorem scaleQuotient_neg (numerator exponent : Nat) :
    scaleQuotient numerator 1 (-(exponent + 1 : Nat)) = (numerator, 2 * 2 ^ exponent) := by
  rw [scaleQuotient, if_neg (by omega), Nat.one_mul, ← Nat.pow_succ', neg_neg, Int.toNat_natCast]
  rfl

theorem scaleQuotient_pos_iff {numerator : Nat} {exponent : Int} :
    0 < (scaleQuotient numerator 1 exponent).1 ↔ 0 < numerator := by
  rw [scaleQuotient]
  split
  · exact Nat.mul_pos_iff_of_pos_right (Nat.two_pow_pos _)
  · rfl

/-- Below a limit, a quotient is rounded to the limit if it is nearer than one half, or if it is one
half away and the whole number below is odd. -/
theorem roundQuotient_eq_succ_iff
    {numerator half whole : Nat}
    (isOdd : whole % 2 = 1)
    (bounded : numerator < (whole + 1) * (2 * half)) :
    roundQuotient numerator (2 * half) = whole + 1 ↔ whole * (2 * half) + half ≤ numerator := by
  have pos : 0 < 2 * half := Nat.pos_of_mul_pos_left (Nat.zero_lt_of_lt bounded)
  have split := Nat.div_add_mod numerator (2 * half)
  have rest := Nat.mod_lt numerator pos
  have most := (Nat.div_lt_iff_lt_mul pos).mpr bounded
  unfold roundQuotient
  simp only
  generalize numerator / (2 * half) = quotient at split most ⊢
  generalize numerator % (2 * half) = remainder at split rest ⊢
  rcases Nat.lt_or_ge quotient whole with less | same
  · have step := Nat.mul_le_mul_left (2 * half) (Nat.succ_le_of_lt less)
    rw [Nat.mul_succ] at step
    rw [Nat.mul_comm whole]
    split_ifs <;> omega
  · obtain rfl : quotient = whole := by omega
    rw [Nat.mul_comm quotient]
    split_ifs <;> omega

/-- A quotient that is not below one is not rounded to zero. -/
theorem roundQuotient_pos
    {numerator denominator : Nat}
    (pos : 0 < denominator)
    (large : denominator ≤ numerator) :
    0 < roundQuotient numerator denominator := by
  have whole : 0 < numerator / denominator := Nat.div_pos large pos
  unfold roundQuotient
  simp only
  split_ifs <;> omega

end Number

namespace Binary64

/-- A number is above zero if it has a value above zero or is infinite without a minus sign. -/
theorem isPositive_iff {number : Binary64} :
    number.isPositive = true ↔
      number = .infinite false ∨ ∃ value, number.toRat? = some value ∧ 0 < value := by
  cases number with
  | nan => simp [isPositive, toRat?]
  | infinite isNegative => cases isNegative <;> simp [isPositive, toRat?]
  | finite isNegative significand exponent =>
    have below := Number.scaleQuotient_pos significand exponent
    have pos_iff := @Number.scaleQuotient_pos_iff significand exponent
    simp only [isPositive, toRat?, magnitude, Rat.mkRat_eq_div]
    generalize Number.scaleQuotient significand 1 exponent = quotient at below pos_iff
    have value_pos_iff :
        (0 : Rat) < (quotient.1 : Int) / (quotient.2 : Nat) ↔ 0 < significand := by
      rw [div_pos_iff_of_pos_right (Nat.cast_pos.mpr below), ← pos_iff]
      simp
    have nonneg : (0 : Rat) ≤ (quotient.1 : Int) / (quotient.2 : Nat) := by
      rw [Int.cast_natCast]
      positivity
    cases isNegative with
    | true => simpa using nonneg
    | false => simpa using value_pos_iff.symm

/-- The exponent of a whole number leaves its significand 53 bits. -/
theorem exponentOf_one {number : Nat} (nonzero : number ≠ 0) :
    exponentOf number 1 = (number.log2 : Int) - 52 := by
  have above := Nat.log2_self_le nonzero
  have full : ∀ estimate : Int, estimate = number.log2 - 53 →
      ¬(Number.scaleQuotient number 1 (-estimate)).1 /
          (Number.scaleQuotient number 1 (-estimate)).2 < significandLimit := by
    rintro estimate rfl
    rw [Nat.not_lt, Nat.le_div_iff_mul_le (Number.scaleQuotient_pos number _), significandLimit,
      Number.scaleQuotient]
    split
    · next small =>
      calc 2 ^ 53 * 1
        _ = 2 ^ number.log2 * 2 ^ (-((number.log2 : Int) - 53)).toNat := by
          rw [← Nat.pow_add, Nat.mul_one]
          congr 1
          omega
        _ ≤ number * 2 ^ (-((number.log2 : Int) - 53)).toNat := Nat.mul_le_mul_right _ above
    · next large =>
      calc 2 ^ 53 * (1 * 2 ^ (- -((number.log2 : Int) - 53)).toNat)
        _ = 2 ^ number.log2 := by
          rw [Nat.one_mul, ← Nat.pow_add]
          congr 1
          omega
        _ ≤ number := above
  simp only [exponentOf, show Nat.log2 1 = 0 from rfl, Nat.cast_zero, sub_zero, if_neg (full _ rfl),
    leastExponent]
  omega

/-- A number is rounded to infinity if its exponent is too large once the significand is carried. -/
theorem ofQuotient_one_eq_infinite_iff {number : Nat} (nonzero : number ≠ 0) (isNegative : Bool) :
    (∃ sign, ofQuotient isNegative number 1 = .infinite sign) ↔
      let scaled := Number.scaleQuotient number 1 (52 - (number.log2 : Int))
      1023 < number.log2 ∨
        number.log2 = 1023 ∧ Number.roundQuotient scaled.1 scaled.2 = significandLimit := by
  rw [ofQuotient, if_neg nonzero, exponentOf_one nonzero]
  simp only [greatestExponent, neg_sub]
  split
  · next carried =>
    split
    · next large =>
      simp only at large
      exact iff_of_true ⟨_, rfl⟩ (by omega)
    · next small =>
      simp only at small
      refine iff_of_false (fun infinite => nomatch infinite) ?_
      omega
  · next fitting =>
    split
    · next large =>
      simp only at large
      exact iff_of_true ⟨_, rfl⟩ (by omega)
    · next small =>
      simp only at small
      refine iff_of_false (fun infinite => nomatch infinite) ?_
      omega

/-- A whole number is rounded to infinity from half a unit below the power of two on that is behind
the largest finite number. -/
theorem ofInt_eq_infinite_iff {number : Int} (positive : 0 < number) :
    (∃ isNegative, ofInt number = .infinite isNegative) ↔ (2 : Int) ^ 1024 - 2 ^ 970 ≤ number := by
  obtain ⟨number, rfl⟩ := Int.eq_ofNat_of_zero_le positive.le
  have nonzero : number ≠ 0 := by omega
  have bound_iff : (2 : Int) ^ 1024 - 2 ^ 970 ≤ number ↔ 2 ^ 1024 ≤ number + 2 ^ 970 := by
    rw [sub_le_iff_le_add]
    exact_mod_cast Iff.rfl
  have below : ∀ digits, number.log2 < digits → number < 2 ^ digits :=
    fun digits => (Nat.log2_lt nonzero).mp
  have above : ∀ digits, digits ≤ number.log2 → 2 ^ digits ≤ number :=
    fun digits => (Nat.le_log2 nonzero).mp
  have top : ∀ digits unit, 2 ^ (digits + (unit + 1)) = 2 ^ digits * (2 * 2 ^ unit) := by
    intro digits unit
    rw [Nat.pow_add, Nat.pow_succ']
  rw [bound_iff, ofInt, Int.natAbs_natCast, ofQuotient_one_eq_infinite_iff nonzero]
  rcases Nat.lt_trichotomy number.log2 1023 with less | same | more
  · have most := below (52 + (970 + 1)) (by omega)
    rw [top] at most
    rw [show 1024 = 53 + (970 + 1) from rfl, top]
    generalize 2 ^ 970 = unit at most ⊢
    omega
  · have most := below (53 + (970 + 1)) (by omega)
    have scaled : Number.scaleQuotient number 1 (52 - (number.log2 : Int)) =
        (number, 2 * 2 ^ 970) := by
      rw [← Number.scaleQuotient_neg, same]
      rfl
    rw [top] at most
    rw [show 1024 = 53 + (970 + 1) from rfl, top, scaled, significandLimit]
    simp only
    generalize 2 ^ 970 = unit at most ⊢
    have rounded := @Number.roundQuotient_eq_succ_iff number unit (2 ^ 53 - 1) rfl most
    have added : (2 ^ 53 - 1) * (2 * unit) + unit ≤ number ↔
        2 ^ 53 * (2 * unit) ≤ number + unit := by omega
    rw [← added, ← rounded]
    simp [same]
  · have least := above 1024 more
    exact iff_of_true (.inl more) (least.trans (Nat.le_add_right _ _))

/-- A whole number above zero is rounded to a number above zero. -/
theorem isPositive_ofInt {number : Int} (positive : 0 < number) :
    (ofInt number).isPositive = true := by
  obtain ⟨number, rfl⟩ := Int.eq_ofNat_of_zero_le positive.le
  have nonzero : number ≠ 0 := by omega
  have large : (Number.scaleQuotient number 1 (52 - (number.log2 : Int))).2 ≤
      (Number.scaleQuotient number 1 (52 - (number.log2 : Int))).1 := by
    have above := Nat.log2_self_le nonzero
    rw [Number.scaleQuotient]
    split
    · exact Nat.mul_pos (Nat.pos_of_ne_zero nonzero) (Nat.two_pow_pos _)
    · refine le_trans ?_ above
      rw [Nat.one_mul]
      exact Nat.pow_le_pow_right (by decide) (by omega)
  have rounded := Number.roundQuotient_pos (Number.scaleQuotient_pos number _) large
  have sign : decide ((number : Int) < 0) = false := by simp
  rw [ofInt, Int.natAbs_natCast, ofQuotient, if_neg nonzero, exponentOf_one nonzero, sign]
  simp only [neg_sub]
  split_ifs with carried
  · rfl
  · simp [isPositive, carried, significandLimit]
  · rfl
  · simpa [isPositive] using rounded

end Binary64
end MarkupLint
