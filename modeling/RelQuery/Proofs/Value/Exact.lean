import Mathlib.Data.EReal.Basic
import Mathlib.Data.Int.ConditionallyCompleteOrder
import Mathlib.Order.Compare
import Mathlib.Tactic.FieldSimp
import Mathlib.Tactic.NormNum
import Mathlib.Tactic.Ring
import RelQuery.Proofs.Value.Equality

/-! Numbers compare by their exact values. The value of a double is read off its fields as IEEE 754 gives
it, with the infinities at the ends of the real line and NaN above them. Its place is that value in
units of the smallest double, so that comparing places compares values. -/
namespace RelQuery

namespace Binary64

/-- The absolute value of a finite double: its fraction behind a one, or behind a zero where the
exponent field is zero. -/
noncomputable def absoluteReal (x : Binary64) : ℝ :=
  if x.exponentField = 0 then (x.fraction : ℝ) / 2 ^ 52 * 2 ^ (-1022 : ℤ)
  else (1 + (x.fraction : ℝ) / 2 ^ 52) * 2 ^ ((x.exponentField : ℤ) - 1023)

noncomputable def real (x : Binary64) : ℝ :=
  if x.negative then -x.absoluteReal else x.absoluteReal

def infinity : Nat := hiddenBit * powerOfTwo 2046

theorem powerReal (n : Nat) : (powerOfTwo n : ℝ) = 2 ^ n := by simp [powerOfTwo]

theorem magnitudeReal (x : Binary64) : (x.magnitude : ℝ) = x.absoluteReal * 2 ^ (1074 : ℤ) := by
  rw [magnitudeEq, Nat.cast_mul, powerReal]
  unfold significand absoluteReal
  split
  · rename_i lowest
    have scale : (2 : ℝ) ^ (-1022 : ℤ) * 2 ^ (1074 : ℤ) = 2 ^ 52 := by
      rw [← zpow_add₀ (two_ne_zero' ℝ)]
      norm_num
    rw [lowest, mul_assoc, scale]
    simp
  · rename_i higher
    obtain ⟨e, above⟩ := Nat.exists_eq_succ_of_ne_zero higher
    have scale : (2 : ℝ) ^ ((x.exponentField : ℤ) - 1023) * 2 ^ (1074 : ℤ) = 2 ^ 52 * 2 ^ e := by
      rw [above, ← zpow_add₀ (two_ne_zero' ℝ), ← pow_add, ← zpow_natCast]
      congr 1
      push_cast
      ring
    rw [mul_assoc, scale, above, Nat.succ_sub_one, Nat.cast_add, hiddenBit, powerReal]
    field_simp

/-- The place of a double is its value in units of the smallest double. -/
theorem scaledReal (x : Binary64) : (x.scaled : ℝ) = x.real * 2 ^ (1074 : ℤ) := by
  unfold scaled real
  split
  · rw [Int.cast_neg, Int.cast_natCast, magnitudeReal, neg_mul]
  · rw [Int.cast_natCast, magnitudeReal]

theorem magnitudeFinite {x : Binary64} (finite : x.exponentField ≠ 2047) : x.magnitude < infinity := by
  have bound : x.exponentField < 2048 := Nat.mod_lt _ (by decide)
  have top : infinity = powerOfTwo 53 * powerOfTwo 2045 := by
    rw [infinity, hiddenBit, ← powerOfTwoAdd, ← powerOfTwoAdd]
  rw [top, magnitudeEq]
  calc x.significand * powerOfTwo (x.exponentField - 1)
      ≤ x.significand * powerOfTwo 2045 := Nat.mul_le_mul_left _ (powerOfTwoLe (by omega))
    _ < powerOfTwo 53 * powerOfTwo 2045 :=
      Nat.mul_lt_mul_of_pos_right (significandFits x) (powerOfTwoPositive _)

theorem magnitudeInfinite {x : Binary64} (last : x.exponentField = 2047) (none : x.fraction = 0) :
    x.magnitude = infinity := by
  rw [magnitudeEq, significand, last, none, if_neg (by decide), Nat.add_zero, infinity]

theorem unitReal : (unit : ℝ) = 2 ^ (1074 : ℤ) := by
  rw [unit, powerReal, ← zpow_natCast]
  rfl

theorem powerOfTwoMono {a b : Nat} (less : a < b) : powerOfTwo a < powerOfTwo b :=
  Nat.pow_lt_pow_right (by decide) less

/-- Every 64-bit integer is far from infinity. -/
theorem integerFinite (n : Int64) : (n.toInt * unit).natAbs < infinity := by
  have small := natAbsFits n
  rw [Int.natAbs_mul, Int.natAbs_natCast, infinity, hiddenBit, unit, ← powerOfTwoAdd]
  calc n.toInt.natAbs * powerOfTwo 1074 ≤ powerOfTwo 63 * powerOfTwo 1074 := Nat.mul_le_mul_right _ small
    _ = powerOfTwo (63 + 1074) := (powerOfTwoAdd ..).symm
    _ < powerOfTwo (52 + 2046) := powerOfTwoMono (by omega)

/-- The value on the real line with its two ends, of a double that is not NaN. -/
noncomputable def extended (x : Binary64) : EReal :=
  if x.isInfinite then if x.negative then ⊥ else ⊤ else x.real

end Binary64

namespace Value

open Binary64

/-- The exact value of a number. NaN is above the real line and its ends. -/
noncomputable def exactValue : Value → Option (WithTop EReal)
  | int n => some ((n.toInt : ℝ) : EReal)
  | float x => some (if x.isNaN then ⊤ else x.extended)
  | _ => none

/-- The value at a place. -/
noncomputable def valueAt (k : Int) : EReal :=
  if k = infinity then ⊤ else if k = -infinity then ⊥ else ((k : ℝ) / 2 ^ (1074 : ℤ) : ℝ)

theorem scalePositive : (0 : ℝ) < 2 ^ (1074 : ℤ) := zpow_pos two_pos _

theorem valueAtMono : StrictMonoOn valueAt {k | k.natAbs ≤ infinity} := by
  intro j low k high less
  change j.natAbs ≤ infinity at low
  change k.natAbs ≤ infinity at high
  unfold valueAt
  rw [if_neg (show ¬j = infinity by omega), if_neg (show ¬k = -infinity by omega)]
  by_cases first : j = -infinity
  · rw [if_pos first]
    split
    · exact bot_lt_top
    · exact EReal.bot_lt_coe _
  · rw [if_neg first]
    split
    · exact EReal.coe_lt_top _
    · exact EReal.coe_lt_coe_iff.mpr (div_lt_div_of_pos_right (Int.cast_lt.mpr less) scalePositive)

theorem valueAtInt (n : Int64) : valueAt (n.toInt * unit) = ((n.toInt : ℝ) : EReal) := by
  have far := integerFinite n
  unfold valueAt
  rw [if_neg (by omega), if_neg (by omega), Int.cast_mul, Int.cast_natCast, unitReal,
    mul_div_cancel_right₀ _ scalePositive.ne']

theorem valueAtFloat {x : Binary64} (number : x.isNaN = false) : valueAt x.scaled = x.extended := by
  have positive : 0 < infinity := Nat.mul_pos (powerOfTwoPositive 52) (powerOfTwoPositive 2046)
  unfold valueAt extended
  cases infinite : x.isInfinite with
  | true =>
      obtain ⟨last, none⟩ : x.exponentField = 2047 ∧ x.fraction = 0 := by
        simpa [isInfinite] using infinite
      unfold scaled
      rw [magnitudeInfinite last none]
      cases x.negative
      · simp only [Bool.false_eq_true, if_false, if_true]
      · simp only [if_true]
        rw [if_neg (by omega)]
  | false =>
      have finite : x.exponentField ≠ 2047 := by
        intro last
        simp only [isNaN, isInfinite, last, BEq.rfl, Bool.true_and, bne_eq_false_iff_eq,
          beq_eq_false_iff_ne] at number infinite
        exact infinite number
      have below := magnitudeFinite finite
      rw [← scaledAbs] at below
      rw [if_neg (by omega), if_neg (by omega), scaledReal, mul_div_cancel_right₀ _ scalePositive.ne']
      simp

theorem placeBound {a : Value} {k : Int} (found : a.place = some k) : k.natAbs ≤ infinity := by
  cases a with
  | int n =>
      cases found
      exact (integerFinite n).le
  | float x =>
      simp only [place] at found
      split at found
      · cases found
      · rename_i number
        cases found
        rw [scaledAbs]
        by_cases last : x.exponentField = 2047
        · have none : x.fraction = 0 := by simpa [isNaN, last] using number
          exact (magnitudeInfinite last none).le
        · exact (magnitudeFinite last).le
  | _ => cases found

/-- Places on the real line with its ends, and the missing one above them. -/
noncomputable def valueAtPlace : Option Int → WithTop EReal
  | some k => valueAt k
  | none => ⊤

theorem exactPlace {a : Value} {v : WithTop EReal} (number : a.exactValue = some v) :
    a.rank = 2 ∧ v = valueAtPlace a.place := by
  cases a with
  | int n =>
      cases number
      exact ⟨rfl, congrArg WithTop.some (valueAtInt n).symm⟩
  | float x =>
      cases number
      refine ⟨rfl, ?_⟩
      cases number : x.isNaN with
      | true => simp [place, number, valueAtPlace]
      | false => simp [place, number, valueAtPlace, valueAtFloat number]
  | _ => cases number

theorem orderPlacesValues {p q : Option Int} (left : ∀ k, p = some k → k.natAbs ≤ infinity)
    (right : ∀ k, q = some k → k.natAbs ≤ infinity) :
    orderPlaces p q = cmp (valueAtPlace p) (valueAtPlace q) := by
  cases p with
  | some j =>
      cases q with
      | some k =>
          have places := valueAtMono.cmp_map_eq (left j rfl) (right k rfl)
          have whole : StrictMono (WithTop.some : EReal → WithTop EReal) := WithTop.coe_strictMono
          rw [valueAtPlace, valueAtPlace, whole.cmp_map_eq, places]
          exact (cmp_eq_compare j k).symm
      | none => exact (cmp_eq_lt_iff ..).mpr (WithTop.coe_lt_top _) |>.symm
  | none =>
      cases q with
      | some k => exact (cmp_eq_gt_iff ..).mpr (WithTop.coe_lt_top _) |>.symm
      | none => exact (cmp_self_eq_eq _).symm

theorem orderExact {a b : Value} {v w : WithTop EReal} (left : a.exactValue = some v)
    (right : b.exactValue = some w) : a.order b = cmp v w := by
  obtain ⟨number, rfl⟩ := exactPlace left
  obtain ⟨other, rfl⟩ := exactPlace right
  rw [orderNumbers number other]
  exact orderPlacesValues (fun _ => placeBound) (fun _ => placeBound)

/-- The order of values is total up to equality, equality is what it calls equal, and numbers of both
kinds compare by their exact values. -/
theorem ordersExactly :
    (∀ a b : Value, (a.order b).isLE ∨ (b.order a).isLE) ∧
      (∀ a b : Value, a.order b = (b.order a).swap) ∧
      (∀ a b c : Value, (a.order b).isLE → (b.order c).isLE → (a.order c).isLE) ∧
      (∀ a b : Value, (a.order b).isLE → (b.order a).isLE → a.same b = true) ∧
      (∀ a b : Value, a.order b = .eq ↔ a.same b = true) ∧
      Equivalence (fun a b : Value => a.same b = true) ∧
      ∀ (a b : Value) (v w : WithTop EReal), a.exactValue = some v → b.exactValue = some w →
        a.order b = cmp v w := by
  have total (a b : Value) : (a.order b).isLE ∨ (b.order a).isLE := by
    rw [orderSwap b a]
    cases a.order b <;> simp
  have antisymmetric (a b : Value) (le : (a.order b).isLE) (ge : (b.order a).isLE) :
      a.same b = true := by
    rw [sameIff]
    rw [orderSwap b a] at ge
    cases order : a.order b <;> simp [order] at le ge ⊢
  have equivalence : Equivalence (fun a b : Value => a.same b = true) := by
    constructor
    · intro a
      exact (sameIff a a).mpr Std.ReflCmp.compare_self
    · intro a b same
      rw [sameIff] at *
      rw [orderSwap, same]
      rfl
    · intro a b c ab bc
      rw [sameIff] at *
      exact Std.TransCmp.eq_trans ab bc
  exact ⟨total, orderSwap, fun a b c => orderTrans, antisymmetric, fun a b => (sameIff a b).symm,
    equivalence, fun a b v w => orderExact⟩

example : (int Int64.maxValue).order (float integerLimit) = .lt := by decide +kernel

end Value

end RelQuery
