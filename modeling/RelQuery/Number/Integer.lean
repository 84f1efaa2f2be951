import RelQuery.Number.Binary64

/-! Doubles and 64-bit integers. An integer becomes the nearest double, a tie going to the even one; the
other way the fraction is cut off. So a double has the value of an integer exactly if it comes back
from that integer unchanged. -/
namespace RelQuery.Binary64

/-- The quotient to the nearest whole number, a tie going to the even one. -/
def nearestQuotient (n d : Nat) : Nat :=
  if 2 * (n % d) < d ∨ 2 * (n % d) = d ∧ n / d % 2 = 0 then n / d else n / d + 1

/-- The 53 leading bits of a whole number, with zeros behind those of a shorter one. -/
def leadingBits (m : Nat) : Nat :=
  let e := Nat.log2 m
  if e ≤ 52 then m * powerOfTwo (52 - e) else nearestQuotient m (powerOfTwo (e - 52))

/-- The magnitude bits of the nearest double. The hidden bit is added to the exponent field, and so is
the carry of a number that rounds up to the next power of two. -/
def wholeBits (m : Nat) : Nat :=
  if m = 0 then 0 else (Nat.log2 m + 1022) * hiddenBit + leadingBits m

/-- The nearest double, a tie going to the even one. -/
def ofInt64 (n : Int64) : Binary64 :=
  ⟨((if n.toInt < 0 then signBit else 0) + wholeBits n.toInt.natAbs).toUInt64⟩

/-- 2⁶³, the first double past the 64-bit integers. -/
def integerLimit : Binary64 := ⟨0x43e0000000000000⟩

/-- The value without its fraction, cut to the range of 64-bit integers. NaN gives zero. -/
def toInt64 (x : Binary64) : Int64 :=
  if x.isNaN then 0
  else Int64.ofInt (max Int64.minValue.toInt (min (x.scaled.tdiv unit) Int64.maxValue.toInt))

/-- The 64-bit integer that has exactly this value. -/
def integer? (x : Binary64) : Option Int64 :=
  if x.isNaN || x.scaled < -integerLimit.scaled || integerLimit.scaled ≤ x.scaled then none
  else if (ofInt64 x.toInt64).scaled = x.scaled then some x.toInt64
  else none

/-! Rounding -/

theorem hiddenBitEq : hiddenBit = 4503599627370496 := rfl

theorem signBitEq : signBit = 9223372036854775808 := rfl

theorem powerOfTwoPositive (n : Nat) : 0 < powerOfTwo n := Nat.pow_pos (by decide)

theorem powerOfTwoAdd (a b : Nat) : powerOfTwo (a + b) = powerOfTwo a * powerOfTwo b := Nat.pow_add ..

theorem powerOfTwoLe {a b : Nat} (le : a ≤ b) : powerOfTwo a ≤ powerOfTwo b :=
  Nat.pow_le_pow_right (by decide) le

theorem nearestQuotientLow (n d : Nat) : n / d ≤ nearestQuotient n d := by
  unfold nearestQuotient
  split <;> omega

theorem nearestQuotientHigh (n d : Nat) : nearestQuotient n d ≤ n / d + 1 := by
  unfold nearestQuotient
  split <;> omega

theorem nearestQuotientExact {n d : Nat} (positive : 0 < d) (exact : n % d = 0) :
    nearestQuotient n d = n / d := by
  simp [nearestQuotient, exact, positive]

theorem log2Bounds {m : Nat} (some : m ≠ 0) :
    powerOfTwo m.log2 ≤ m ∧ m < powerOfTwo (m.log2 + 1) :=
  ⟨Nat.log2_self_le some, Nat.lt_log2_self⟩

theorem leadingBitsBounds {m : Nat} (some : m ≠ 0) :
    hiddenBit ≤ leadingBits m ∧ leadingBits m ≤ 2 * hiddenBit := by
  obtain ⟨low, high⟩ := log2Bounds some
  unfold leadingBits
  simp only
  split
  · rename_i short
    have scale := powerOfTwoPositive (52 - m.log2)
    have below : hiddenBit = powerOfTwo m.log2 * powerOfTwo (52 - m.log2) := by
      rw [← powerOfTwoAdd, Nat.add_sub_cancel' short]
      rfl
    have above : 2 * hiddenBit = powerOfTwo (m.log2 + 1) * powerOfTwo (52 - m.log2) := by
      rw [powerOfTwoAdd, below, Nat.mul_comm 2, Nat.mul_right_comm]
      rfl
    rw [above, below]
    exact ⟨Nat.mul_le_mul_right _ low, Nat.mul_le_mul_right _ (Nat.le_of_lt high)⟩
  · rename_i long
    have scale := powerOfTwoPositive (m.log2 - 52)
    have below : hiddenBit * powerOfTwo (m.log2 - 52) ≤ m := by
      refine Nat.le_trans (Nat.le_of_eq ?_) low
      rw [hiddenBit, ← powerOfTwoAdd]
      congr 1
      omega
    have above : m < 2 * hiddenBit * powerOfTwo (m.log2 - 52) := by
      refine Nat.lt_of_lt_of_le high (Nat.le_of_eq ?_)
      have two : 2 * hiddenBit = powerOfTwo 53 := rfl
      rw [two, ← powerOfTwoAdd]
      congr 1
      omega
    have first := (Nat.le_div_iff_mul_le scale).mpr below
    have last := (Nat.div_lt_iff_lt_mul scale).mpr above
    have grows := nearestQuotientLow m (powerOfTwo (m.log2 - 52))
    have once := nearestQuotientHigh m (powerOfTwo (m.log2 - 52))
    omega

/-- The whole number that a magnitude is rounded to. -/
def rounded (m : Nat) : Nat :=
  if m.log2 ≤ 52 then m
  else nearestQuotient m (powerOfTwo (m.log2 - 52)) * powerOfTwo (m.log2 - 52)

theorem leadingBitsScale {m : Nat} :
    leadingBits m * powerOfTwo (m.log2 + 1022) = rounded m * unit := by
  unfold leadingBits rounded
  simp only
  split
  · rename_i short
    have places : 52 - m.log2 + (m.log2 + 1022) = 1074 := by omega
    rw [Nat.mul_assoc, ← powerOfTwoAdd, places]
    rfl
  · rename_i long
    have places : m.log2 + 1022 = m.log2 - 52 + 1074 := by omega
    rw [places, powerOfTwoAdd, Nat.mul_assoc]
    rfl

section
variable {negative : Bool} {body : Nat}

theorem packedBits (fits : body < signBit) :
    ((if negative then signBit else 0) + body).toUInt64.toNat =
      (if negative then signBit else 0) + body := by
  rw [signBitEq] at *
  rw [Nat.toUInt64_eq, UInt64.toNat_ofNat', Nat.mod_eq_of_lt]
  split <;> omega

theorem packedFields (fits : body < signBit) :
    let x : Binary64 := ⟨((if negative then signBit else 0) + body).toUInt64⟩
    x.negative = negative ∧ x.exponentField = body / hiddenBit ∧ x.fraction = body % hiddenBit := by
  simp only [Binary64.negative, exponentField, fraction, packedBits fits]
  rw [signBitEq] at *
  rw [hiddenBitEq]
  cases negative
  · refine ⟨?_, ?_, ?_⟩
    · simp only [Bool.false_eq_true, if_false, beq_eq_false_iff_ne]
      omega
    · simp only [Bool.false_eq_true, if_false]
      omega
    · simp only [Bool.false_eq_true, if_false]
      omega
  · refine ⟨?_, ?_, ?_⟩
    · simp only [if_true, beq_iff_eq]
      omega
    · simp only [if_true]
      omega
    · simp only [if_true]
      omega

end

theorem wholeBitsSome {m : Nat} (some : m ≠ 0) :
    wholeBits m = (m.log2 + 1022) * hiddenBit + leadingBits m := if_neg some

theorem wholeBitsFit {m : Nat} (small : m ≤ signBit) : wholeBits m < signBit := by
  by_cases zero : m = 0
  · rw [zero]
    decide
  · have top : m.log2 < 64 := (Nat.log2_lt zero).mpr (Nat.lt_of_le_of_lt small (by decide))
    obtain ⟨_, high⟩ := leadingBitsBounds zero
    rw [wholeBitsSome zero]
    rw [hiddenBitEq] at *
    rw [signBitEq]
    omega

/-- The magnitude of the double that packs the bits of a whole number. -/
theorem magnitudeOfFields {x : Binary64} {m : Nat} (small : m ≤ signBit)
    (exponent : x.exponentField = wholeBits m / hiddenBit)
    (fraction : x.fraction = wholeBits m % hiddenBit) : x.magnitude = rounded m * unit := by
  by_cases zero : m = 0
  · subst zero
    have none : x.fraction = 0 := fraction
    have first : x.exponentField = 0 := exponent
    simp [magnitude, significand, none, first, rounded]
  · obtain ⟨low, high⟩ := leadingBitsBounds zero
    rw [wholeBitsSome zero] at exponent fraction
    rw [hiddenBitEq] at *
    rw [← leadingBitsScale]
    by_cases carry : leadingBits m = 2 * 4503599627370496
    · have field : x.exponentField = m.log2 + 1024 := by omega
      have rest : x.fraction = 0 := by omega
      have up : powerOfTwo (m.log2 + 1023) = powerOfTwo (m.log2 + 1022) * 2 := Nat.pow_succ ..
      simp only [magnitude, significand, field, rest, Nat.shiftLeft_eq, hiddenBitEq]
      rw [if_neg (by omega), carry]
      show _ * powerOfTwo (m.log2 + 1023) = _
      rw [up]
      omega
    · have field : x.exponentField = m.log2 + 1023 := by omega
      have rest : x.fraction + 4503599627370496 = leadingBits m := by omega
      simp only [magnitude, significand, field, Nat.shiftLeft_eq, hiddenBitEq]
      rw [if_neg (by omega), Nat.add_comm, rest]
      rfl

theorem natAbsFits (n : Int64) : n.toInt.natAbs ≤ signBit := by
  have low := Int64.minValue_le_toInt n
  have high := Int64.toInt_le n
  have lowest : Int64.minValue.toInt = -9223372036854775808 := rfl
  have highest : Int64.maxValue.toInt = 9223372036854775807 := rfl
  rw [signBitEq]
  omega

/-- An integer as a double has the place of a whole number. -/
theorem scaledOfInt64 (n : Int64) : (ofInt64 n).scaled =
    (if n.toInt < 0 then -(rounded n.toInt.natAbs : Int) else rounded n.toInt.natAbs) * unit := by
  have small := natAbsFits n
  obtain ⟨sign, exponent, fraction⟩ :=
    @packedFields (decide (n.toInt < 0)) _ (wholeBitsFit small)
  simp only [decide_eq_true_eq] at sign exponent fraction
  have magnitude := magnitudeOfFields small exponent fraction
  unfold ofInt64 scaled
  rw [sign, magnitude]
  simp only [decide_eq_true_eq]
  split
  · rw [Int.natCast_mul, Int.neg_mul]
  · rw [Int.natCast_mul]

theorem roundedExact {m : Nat} (exact : m.log2 ≤ 52 ∨ powerOfTwo (m.log2 - 52) ∣ m) : rounded m = m := by
  unfold rounded
  split
  · rfl
  · rename_i long
    have divides := exact.resolve_left long
    rw [nearestQuotientExact (powerOfTwoPositive _) (Nat.mod_eq_zero_of_dvd divides)]
    exact Nat.div_mul_cancel divides

theorem roundedLow {m : Nat} (long : 52 < m.log2) : powerOfTwo 53 ≤ rounded m := by
  have some : m ≠ 0 := by
    rintro rfl
    simp at long
  obtain ⟨low, _⟩ := leadingBitsBounds some
  unfold leadingBits at low
  unfold rounded
  rw [if_neg (by omega)] at *
  refine Nat.le_trans ?_ (Nat.mul_le_mul low (powerOfTwoLe (show 1 ≤ m.log2 - 52 by omega)))
  exact Nat.le_of_eq rfl

/-! Whole numbers among the doubles -/

theorem unitPositive : (0 : Int) < unit := Int.natCast_pos.mpr (powerOfTwoPositive 1074)

theorem integerLimitScaled : integerLimit.scaled = 9223372036854775808 * unit := by decide +kernel

theorem significandFits (x : Binary64) : x.significand < powerOfTwo 53 := by
  have rest : x.fraction < hiddenBit := Nat.mod_lt _ (by decide)
  have top : powerOfTwo 53 = 2 * hiddenBit := rfl
  unfold significand
  split <;> omega

theorem powerOfTwoLt {a b : Nat} (less : powerOfTwo a < powerOfTwo b) : a < b :=
  (Nat.pow_lt_pow_iff_right (by decide)).mp less

/-- A whole number that is a short multiple of a power of two has no bits to lose. -/
theorem shortMultiple {s k m : Nat} (short : s < powerOfTwo 53) (same : s * powerOfTwo k = m * unit) :
    m.log2 ≤ 52 ∨ powerOfTwo (m.log2 - 52) ∣ m := by
  by_cases few : m.log2 ≤ 52
  · exact .inl few
  · have some : m ≠ 0 := by
      rintro rfl
      simp at few
    have scale := powerOfTwoPositive 1074
    have less : powerOfTwo (m.log2 + 1074) < powerOfTwo (53 + k) := by
      rw [powerOfTwoAdd, powerOfTwoAdd]
      calc powerOfTwo m.log2 * powerOfTwo 1074 ≤ m * unit := Nat.mul_le_mul_right _ (log2Bounds some).1
        _ = s * powerOfTwo k := same.symm
        _ < powerOfTwo 53 * powerOfTwo k := Nat.mul_lt_mul_of_pos_right short (powerOfTwoPositive k)
    have places := powerOfTwoLt less
    obtain ⟨j, split⟩ : ∃ j, k = m.log2 - 52 + j + 1074 := ⟨k - (m.log2 + 1022), by omega⟩
    rw [split, powerOfTwoAdd, ← Nat.mul_assoc] at same
    have whole := Nat.eq_of_mul_eq_mul_right scale same
    right
    rw [powerOfTwoAdd] at whole
    exact ⟨s * powerOfTwo j, whole.symm.trans (Nat.mul_left_comm ..)⟩

theorem magnitudeEq (x : Binary64) : x.magnitude = x.significand * powerOfTwo (x.exponentField - 1) :=
  Nat.shiftLeft_eq ..

/-- Doubles of 2⁵³ and more are whole numbers. -/
theorem largeWhole {x : Binary64} (large : powerOfTwo 53 * unit ≤ x.magnitude) : unit ∣ x.magnitude := by
  rw [magnitudeEq] at *
  have less : powerOfTwo 53 * unit < powerOfTwo 53 * powerOfTwo (x.exponentField - 1) :=
    Nat.lt_of_le_of_lt large
      (Nat.mul_lt_mul_of_pos_right (significandFits x) (powerOfTwoPositive _))
  have more : unit < powerOfTwo (x.exponentField - 1) := Nat.lt_of_mul_lt_mul_left less
  rw [unit] at more
  have places : 1074 < x.exponentField - 1 := powerOfTwoLt more
  obtain ⟨j, places⟩ := Nat.exists_eq_add_of_lt places
  rw [places, Nat.add_assoc, powerOfTwoAdd]
  exact Nat.dvd_mul_left_of_dvd (Nat.dvd_mul_right ..) _

theorem scaledAbs (x : Binary64) : x.scaled.natAbs = x.magnitude := by
  unfold scaled
  split <;> omega

section
variable {x : Binary64} {n : Int64} {k : Int}

theorem toInt64Whole (number : x.isNaN = false) (whole : x.scaled = k * unit)
    (low : -9223372036854775808 ≤ k) (high : k < 9223372036854775808) : x.toInt64.toInt = k := by
  have lowest : Int64.minValue.toInt = -9223372036854775808 := rfl
  have highest : Int64.maxValue.toInt = 9223372036854775807 := rfl
  have cut : x.scaled.tdiv unit = k := by
    rw [whole]
    exact Int.mul_tdiv_cancel _ (Int.ne_of_gt unitPositive)
  have clamped : max Int64.minValue.toInt (min (x.scaled.tdiv unit) Int64.maxValue.toInt) = k := by
    rw [cut]
    omega
  rw [toInt64, number, if_neg (by decide), clamped]
  exact Int64.toInt_ofInt_of_le low high

/-- An integer that is the value of a double becomes that double. -/
theorem ofInt64Whole (whole : x.scaled = n.toInt * unit) : (ofInt64 n).scaled = n.toInt * unit := by
  have magnitude : x.significand * powerOfTwo (x.exponentField - 1) = n.toInt.natAbs * unit := by
    rw [← magnitudeEq, ← scaledAbs, whole, Int.natAbs_mul, Int.natAbs_natCast]
  have exact := roundedExact (shortMultiple (significandFits x) magnitude)
  rw [scaledOfInt64, exact]
  congr 1
  split <;> omega

theorem integerIff : x.integer? = some n ↔ x.isNaN = false ∧ n.toInt * unit = x.scaled := by
  have low := Int64.minValue_le_toInt n
  have high := Int64.toInt_le n
  have lowest : Int64.minValue.toInt = -9223372036854775808 := rfl
  have highest : Int64.maxValue.toInt = 9223372036854775807 := rfl
  have positive := unitPositive
  unfold integer?
  rw [integerLimitScaled]
  constructor
  · intro found
    split at found
    · cases found
    · rename_i within
      simp only [Bool.or_eq_true, decide_eq_true_eq, not_or, Bool.not_eq_true, Int.not_lt,
        Int.not_le] at within
      obtain ⟨⟨number, above⟩, below⟩ := within
      split at found
      · rename_i back
        cases found
        refine ⟨number, ?_⟩
        -- The double is the whole number that its own integer is rounded to.
        generalize whole : (if x.toInt64.toInt < 0 then -(rounded x.toInt64.toInt.natAbs : Int)
          else rounded x.toInt64.toInt.natAbs) = k
        have place : x.scaled = k * unit := by rw [← back, scaledOfInt64, whole]
        rw [place] at above below
        rw [← Int.neg_mul] at above
        rw [toInt64Whole number place (Int.le_of_mul_le_mul_right above positive)
          (Int.lt_of_mul_lt_mul_right below (Int.le_of_lt positive)), place]
      · cases found
  · rintro ⟨number, place⟩
    have same : x.toInt64 = n :=
      Int64.toInt_inj.mp (toInt64Whole number place.symm (by omega) (by omega))
    have above : -(9223372036854775808 * unit : Int) ≤ x.scaled := by
      rw [← place, ← Int.neg_mul]
      exact Int.mul_le_mul_of_nonneg_right (by omega) (Int.le_of_lt positive)
    have below : x.scaled < 9223372036854775808 * unit := by
      rw [← place]
      exact Int.mul_lt_mul_of_pos_right (by omega) positive
    rw [number, same, ofInt64Whole place.symm, if_pos place, if_neg]
    simp only [Bool.false_or, Bool.or_eq_true, decide_eq_true_eq, not_or, Int.not_lt, Int.not_le]
    exact ⟨above, below⟩

/-- A number with a fraction is compared with an integer as it is with the nearest double of it. -/
theorem compareRounded (number : x.isNaN = false) (above : -integerLimit.scaled ≤ x.scaled)
    (below : x.scaled < integerLimit.scaled) (fraction : x.integer? = none) :
    compare (ofInt64 n).scaled x.scaled = compare (n.toInt * unit) x.scaled := by
  have positive := unitPositive
  rw [integerLimitScaled] at above below
  rw [scaledOfInt64]
  by_cases short : n.toInt.natAbs.log2 ≤ 52
  · rw [roundedExact (.inl short)]
    congr 2
    split <;> omega
  · -- Both the integer and its double are beyond every number with a fraction.
    have some : n.toInt.natAbs ≠ 0 := by
      intro zero
      simp [zero] at short
    have own : powerOfTwo 53 ≤ n.toInt.natAbs :=
      Nat.le_trans (powerOfTwoLe (by omega)) (log2Bounds some).1
    have near : powerOfTwo 53 ≤ rounded n.toInt.natAbs := roundedLow (by omega)
    have small : x.magnitude < powerOfTwo 53 * unit := by
      refine Nat.not_le.mp fun large => ?_
      obtain ⟨k, whole⟩ := Int.ofNat_dvd_left.mpr (scaledAbs x ▸ largeWhole large)
      rw [Int.mul_comm] at whole
      rw [whole, ← Int.neg_mul] at above
      rw [whole] at below
      have low := Int.le_of_mul_le_mul_right above positive
      have high := Int.lt_of_mul_lt_mul_right below (Int.le_of_lt positive)
      have held : (Int64.ofInt k).toInt = k := Int64.toInt_ofInt_of_le low high
      have found := integerIff.mpr ⟨number, held.symm ▸ whole.symm⟩
      cases found.symm.trans fraction
    obtain ⟨low, high⟩ : -(powerOfTwo 53 * unit : Int) < x.scaled ∧
        x.scaled < powerOfTwo 53 * unit := by
      rw [← scaledAbs] at small
      have bound : (powerOfTwo 53 : Int) * unit = (powerOfTwo 53 * unit : Nat) := (Int.natCast_mul ..).symm
      rw [bound]
      generalize powerOfTwo 53 * unit = limit at small
      omega
    rw [← Int.neg_mul] at low
    split
    · have beyond {k : Int} (far : k ≤ -powerOfTwo 53) : k * unit < x.scaled :=
        Int.lt_of_le_of_lt (Int.mul_le_mul_of_nonneg_right far (Int.le_of_lt positive)) low
      rw [Int.compare_eq_ite_lt, Int.compare_eq_ite_lt, if_pos (beyond (by omega)),
        if_pos (beyond (by omega))]
    · have beyond {k : Int} (far : powerOfTwo 53 ≤ k) : x.scaled < k * unit :=
        Int.lt_of_lt_of_le high (Int.mul_le_mul_of_nonneg_right far (Int.le_of_lt positive))
      have left := beyond (k := rounded n.toInt.natAbs) (by omega)
      have right := beyond (k := n.toInt) (by omega)
      rw [Int.compare_eq_ite_lt, Int.compare_eq_ite_lt, if_neg (Int.lt_asymm left),
        if_neg (Int.lt_asymm right), if_pos left, if_pos right]

end

end RelQuery.Binary64
