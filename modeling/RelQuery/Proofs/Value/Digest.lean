import RelQuery.Proofs.Value.Equality

/-! What values are hashed by. It is the same for equal values: a double that is an integer is hashed as that
integer, and no two of the other doubles are equal, but for NaN. -/
namespace RelQuery

namespace Binary64

variable {x y : Binary64}

theorem magnitudeBelow (x : Binary64) : x.magnitude < powerOfTwo (52 + x.exponentField) := by
  rw [magnitudeEq]
  by_cases subnormal : x.exponentField = 0
  · rw [significand, if_pos subnormal, subnormal, Nat.zero_sub]
    exact Nat.lt_of_le_of_lt (Nat.le_of_eq (Nat.mul_one _)) (Nat.mod_lt _ (powerOfTwoPositive 52))
  · have places : 52 + x.exponentField = 53 + (x.exponentField - 1) := by omega
    rw [places, powerOfTwoAdd]
    exact Nat.mul_lt_mul_of_pos_right (significandFits x) (powerOfTwoPositive _)

theorem magnitudeAbove (normal : x.exponentField ≠ 0) : powerOfTwo (51 + x.exponentField) ≤ x.magnitude := by
  have places : 51 + x.exponentField = 52 + (x.exponentField - 1) := by omega
  rw [magnitudeEq, significand, if_neg normal, places, powerOfTwoAdd]
  exact Nat.mul_le_mul_right _ (Nat.le_add_right ..)

theorem magnitudeLess (less : x.exponentField < y.exponentField) : x.magnitude < y.magnitude :=
  calc x.magnitude < powerOfTwo (52 + x.exponentField) := magnitudeBelow x
    _ ≤ powerOfTwo (51 + y.exponentField) := powerOfTwoLe (by omega)
    _ ≤ y.magnitude := magnitudeAbove (by omega)

theorem magnitudeFields (same : x.magnitude = y.magnitude) :
    x.exponentField = y.exponentField ∧ x.fraction = y.fraction := by
  have exponent : x.exponentField = y.exponentField := by
    rcases Nat.lt_trichotomy x.exponentField y.exponentField with less | equal | more
    · exact absurd same (Nat.ne_of_lt (magnitudeLess less))
    · exact equal
    · exact absurd same (Nat.ne_of_gt (magnitudeLess more))
  refine ⟨exponent, ?_⟩
  rw [magnitudeEq, magnitudeEq, exponent] at same
  have whole := Nat.eq_of_mul_eq_mul_right (powerOfTwoPositive _) same
  simp only [significand, exponent] at whole
  split at whole <;> omega

theorem ofFields (sign : x.negative = y.negative) (exponent : x.exponentField = y.exponentField)
    (fraction : x.fraction = y.fraction) : x = y := by
  obtain ⟨x⟩ := x
  obtain ⟨y⟩ := y
  have bound := x.toNat_lt
  have bound' := y.toNat_lt
  have sign : x.toNat / signBit = 1 ↔ y.toNat / signBit = 1 := by
    simpa only [negative, beq_iff_eq] using Bool.eq_iff_iff.mp sign
  simp only [exponentField, Binary64.fraction, signBitEq, hiddenBitEq] at sign exponent fraction
  rw [Binary64.mk.injEq, ← UInt64.toNat_inj]
  omega

/-- Doubles other than zero have places of their own. -/
theorem scaledInjective (same : x.scaled = y.scaled) (other : x.scaled ≠ 0) : x = y := by
  have magnitude : x.magnitude = y.magnitude := by rw [← scaledAbs, ← scaledAbs, same]
  obtain ⟨exponent, fraction⟩ := magnitudeFields magnitude
  refine ofFields ?_ exponent fraction
  simp only [scaled, magnitude] at same other
  cases sign : x.negative <;> cases sign' : y.negative <;> simp only [sign, sign'] at same other ⊢
  all_goals simp at same other
  all_goals omega

end Binary64

/-- What a value is hashed by. -/
inductive Digest where
  | null
  | boolean (b : Bool)
  | int (n : Int64)
  | float (bits : UInt64)
  | string (s : String)
  | dateTime (n : Int64)
  | bytes (bs : List UInt8)
  deriving DecidableEq

namespace Value

/-- Doubles that are integers are hashed as those, and every NaN as one and the same. -/
def digest : Value → Digest
  | null => .null
  | boolean b => .boolean b
  | int n => .int n
  | float x =>
      match x.integer? with
      | some n => .int n
      | none => .float (if x.isNaN then Binary64.nan.bits else x.bits)
  | string s => .string s
  | dateTime n => .dateTime n
  | bytes bs => .bytes bs

theorem floatDigest {x y : Binary64} (same : (float x).same (float y) = true) :
    (float x).digest = (float y).digest := by
  simp only [Value.same, Bool.or_eq_true] at same
  split at same
  · rename_i either
    obtain ⟨left, right⟩ := Bool.and_eq_true_iff.mp same
    have none {x : Binary64} (nan : x.isNaN = true) : x.integer? = none := by
      rw [Binary64.integer?, nan]
      rfl
    simp [digest, none, left, right]
  · rename_i numbers
    simp only [not_or, Bool.not_eq_true] at numbers
    have place : x.scaled = y.scaled := by simpa using same
    have integer : x.integer? = y.integer? := by
      ext n
      rw [Binary64.integerIff, Binary64.integerIff, numbers.1, numbers.2, place]
    cases whole : x.integer? with
    | some n => simp [digest, ← integer, whole]
    | none =>
        have other : x.scaled ≠ 0 := by
          intro zero
          have nothing : (0 : Int64).toInt = 0 := rfl
          have found : x.integer? = some 0 :=
            Binary64.integerIff.mpr ⟨numbers.1, by rw [zero, nothing, Int.zero_mul]⟩
          rw [whole] at found
          cases found
        rw [Binary64.scaledInjective place other]

theorem sameDigest {a b : Value} (same : a.same b = true) : a.digest = b.digest := by
  cases a with
  | int n =>
      cases b with
      | int m => rw [eq_of_beq (show (n == m) = true from same)]
      | float y => simp [digest, eq_of_beq (show (y.integer? == some n) = true from same)]
      | _ => cases same
  | float x =>
      cases b with
      | int m => simp [digest, eq_of_beq (show (x.integer? == some m) = true from same)]
      | float y => exact floatDigest same
      | _ => cases same
  | _ => cases b <;> simp_all [Value.same]

end Value

namespace Key

def digest (k : Key) : List Digest := k.map Value.digest

theorem sameDigest {k l : Key} (same : k.same l = true) : k.digest = l.digest := by
  induction k generalizing l with
  | nil =>
      cases l with
      | nil => rfl
      | cons => cases same
  | cons v k ih =>
      cases l with
      | nil => cases same
      | cons w l =>
          obtain ⟨first, rest⟩ := Bool.and_eq_true_iff.mp same
          rw [digest, List.map_cons, Value.sameDigest first]
          exact congrArg _ (ih rest)

end Key

end RelQuery
