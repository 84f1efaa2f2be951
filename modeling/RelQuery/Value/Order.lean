import RelQuery.Value.Basic
import Std.Data.ExtTreeMap

/-! The order of values is total, and so is that of keys, so that maps can be ordered by them. Numbers
are placed on a line that ends with NaN; values of different ranks are told apart by rank alone. -/
namespace RelQuery

namespace Value

/-- The place of a number in units of the smallest double; NaN has none. -/
def place : Value → Option Int
  | int n => some (n.toInt * Binary64.unit)
  | float x => if x.isNaN then none else some x.scaled
  | _ => none

/-- The order of places, with the missing one last. -/
def orderPlaces : Option Int → Option Int → Ordering
  | some a, some b => compare a b
  | some _, none => .lt
  | none, some _ => .gt
  | none, none => .eq

theorem orderPlacesSwap (a b : Option Int) : orderPlaces a b = (orderPlaces b a).swap := by
  cases a <;> cases b <;> simp only [orderPlaces, Ordering.swap]
  exact Std.OrientedCmp.eq_swap

theorem orderPlacesTrans {a b c : Option Int} (ab : (orderPlaces a b).isLE)
    (bc : (orderPlaces b c).isLE) : (orderPlaces a c).isLE := by
  cases a <;> cases b <;> cases c <;> simp_all [orderPlaces]
  exact Std.TransCmp.isLE_trans ab bc

theorem compareScaled (a b : Int) :
    compare (a * Binary64.unit) (b * Binary64.unit) = compare a b := by
  simp only [Int.compare_eq_ite_lt, Int.mul_lt_mul_right Binary64.unitPositive]

/-- An integer and a double that is not NaN are compared by their places, which no rounding moves past
each other. -/
theorem orderIntScaled (n : Int64) {x : Binary64} (number : x.isNaN = false) :
    orderIntFloat n x = compare (n.toInt * Binary64.unit) x.scaled := by
  have positive := Int.le_of_lt Binary64.unitPositive
  have limit := Binary64.integerLimitScaled
  have low := Int64.minValue_le_toInt n
  have high := Int64.toInt_le n
  have lowest : Int64.minValue.toInt = -9223372036854775808 := rfl
  have highest : Int64.maxValue.toInt = 9223372036854775807 := rfl
  unfold orderIntFloat
  rw [number, Bool.false_or]
  split
  · rename_i above
    have less : n.toInt * Binary64.unit < x.scaled := by
      refine Int.lt_of_lt_of_le ?_ (of_decide_eq_true above)
      rw [limit]
      exact Int.mul_lt_mul_of_pos_right (by omega) Binary64.unitPositive
    rw [Int.compare_eq_ite_lt, if_pos less]
  · rename_i below
    split
    · rename_i under
      have more : x.scaled < n.toInt * Binary64.unit := by
        refine Int.lt_of_lt_of_le under ?_
        rw [limit, ← Int.neg_mul]
        exact Int.mul_le_mul_of_nonneg_right (by omega) positive
      rw [Int.compare_eq_ite_lt, if_neg (Int.lt_asymm more), if_pos more]
    · rename_i within
      split
      · rename_i found
        rw [← (Binary64.integerIff.mp found).2, compareScaled]
      · rename_i fraction
        exact Binary64.compareRounded number (Int.not_lt.mp within)
          (Int.not_le.mp (by simpa using below)) fraction

theorem orderIntPlace (n : Int64) (x : Binary64) :
    orderIntFloat n x = orderPlaces (int n).place (float x).place := by
  cases h : x.isNaN with
  | true =>
      simp only [orderIntFloat, place, h]
      rfl
  | false =>
      rw [orderIntScaled n h]
      simp only [place, h]
      rfl

theorem orderFloatPlaces (x y : Binary64) :
    orderFloats x y = orderPlaces (float x).place (float y).place := by
  cases h : x.isNaN <;> cases h' : y.isNaN <;> simp only [orderFloats, place, h, h'] <;> rfl

theorem orderNumbers {a b : Value} (left : a.rank = 2) (right : b.rank = 2) :
    a.order b = orderPlaces a.place b.place := by
  cases a with
  | int n =>
      cases b with
      | int m => exact (compareScaled n.toInt m.toInt).symm
      | float y => exact orderIntPlace n y
      | _ => cases right
  | float x =>
      cases b with
      | int m =>
          exact (congrArg Ordering.swap (orderIntPlace m x)).trans (orderPlacesSwap _ _).symm
      | float y => exact orderFloatPlaces x y
      | _ => cases right
  | _ => cases left

theorem orderRanks {a b : Value} (apart : a.rank ≠ b.rank) :
    a.order b = compare a.rank b.rank := by
  cases a <;> cases b <;> simp [rank] at apart <;> rfl

theorem orderSwap (a b : Value) : a.order b = (b.order a).swap := by
  by_cases apart : a.rank = b.rank
  · by_cases number : a.rank = 2
    · rw [orderNumbers number (apart ▸ number), orderNumbers (apart ▸ number) number]
      exact orderPlacesSwap _ _
    · cases a <;> cases b <;> simp [rank] at apart number <;> simp only [order, rank]
      all_goals exact Std.OrientedCmp.eq_swap
  · rw [orderRanks apart, orderRanks (Ne.symm apart)]
    exact Std.OrientedCmp.eq_swap

/-- A value that is not above another has no higher rank. -/
theorem rankLe {a b : Value} (le : (a.order b).isLE) : a.rank ≤ b.rank := by
  by_cases apart : a.rank = b.rank
  · exact Nat.le_of_eq apart
  · rw [orderRanks apart] at le
    exact Nat.isLE_compare.mp le

theorem orderTrans {a b c : Value} (ab : (a.order b).isLE) (bc : (b.order c).isLE) :
    (a.order c).isLE := by
  have rab := rankLe ab
  have rbc := rankLe bc
  by_cases apart : a.rank = c.rank
  · have same : a.rank = b.rank := by omega
    by_cases number : a.rank = 2
    · rw [orderNumbers number (by omega)] at ab ⊢
      rw [orderNumbers (by omega) (by omega)] at bc
      exact orderPlacesTrans ab bc
    · cases a <;> cases b <;> simp [rank] at same number <;> cases c <;> simp [rank] at apart <;>
        simp only [order, rank] at ab bc ⊢
      all_goals exact Std.TransCmp.isLE_trans ab bc
  · rw [orderRanks apart]
    exact Nat.isLE_compare.mpr (by omega)

instance : Std.OrientedCmp order := ⟨orderSwap _ _⟩

instance : Std.TransCmp order := ⟨orderTrans⟩

end Value

namespace Key

instance : Std.TransCmp order := inferInstanceAs (Std.TransCmp (List.compareLex Value.order))

end Key

end RelQuery
