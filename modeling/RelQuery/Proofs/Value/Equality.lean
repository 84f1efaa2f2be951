import RelQuery.Value.Order

/-! Equality of values is what their order says. An integer and a double are equal exactly if the double
has the integer's place on the number line. -/
namespace RelQuery

namespace Value

theorem sameIntFloat (n : Int64) (x : Binary64) :
    (x.integer? == some n) = true ↔ orderIntFloat n x = .eq := by
  rw [beq_iff_eq, Binary64.integerIff]
  cases number : x.isNaN with
  | true =>
      have above : orderIntFloat n x = .lt := by rw [orderIntFloat, number, Bool.true_or, if_pos rfl]
      rw [above]
      exact iff_of_false (fun same => by cases same.1) (fun same => by cases same)
  | false =>
      rw [orderIntScaled n number]
      simp only [true_and, Std.LawfulEqCmp.compare_eq_iff_eq]

theorem sameFloats (x y : Binary64) : same (float x) (float y) = true ↔ orderFloats x y = .eq := by
  cases left : x.isNaN <;> cases right : y.isNaN <;>
    simp [same, orderFloats, left, right]

theorem sameIff (a b : Value) : a.same b = true ↔ a.order b = .eq := by
  cases a with
  | int n =>
      cases b with
      | int m => simp [same, order, Int64.toInt_inj]
      | float y => exact sameIntFloat n y
      | _ => simp [same, order, rank]
  | float x =>
      cases b with
      | int m =>
          rw [order, Ordering.swap_eq_eq]
          exact sameIntFloat m x
      | float y => exact sameFloats x y
      | _ => simp [same, order, rank]
  | dateTime n =>
      cases b with
      | dateTime m => simp [same, order, Int64.toInt_inj]
      | _ => simp [same, order, rank]
  | bytes as =>
      cases b with
      | bytes bs =>
          have equal : List.compareLex compare as bs = .eq ↔ as = bs :=
            Std.LawfulEqCmp.compare_eq_iff_eq
          simp [same, order, equal]
      | _ => simp [same, order, rank]
  | _ => cases b <;> simp [same, order, rank]

end Value

namespace Key

theorem sameIff (a b : Key) : a.same b = true ↔ order a b = .eq := by
  induction a generalizing b with
  | nil => cases b <;> simp [same, order, List.compareLex]
  | cons v a ih =>
      cases b with
      | nil => simp [same, order, List.compareLex]
      | cons w b =>
          rw [same, Bool.and_eq_true, Value.sameIff, ih, order, List.compareLex_cons_cons,
            Ordering.then_eq_eq]

theorem sameSelf (k : Key) : k.same k = true := (sameIff k k).mpr Std.ReflCmp.compare_self

theorem sameSymm (a b : Key) : a.same b = b.same a := by
  rw [Bool.eq_iff_iff, sameIff, sameIff]
  exact Std.OrientedCmp.eq_comm

theorem sameLeft {a b : Key} (same : a.same b = true) (c : Key) : a.same c = b.same c := by
  rw [Bool.eq_iff_iff, sameIff, sameIff, Std.TransCmp.congr_left ((sameIff ..).mp same)]

theorem sameRight {a b : Key} (same : a.same b = true) (c : Key) : c.same a = c.same b := by
  rw [sameSymm c a, sameSymm c b, sameLeft same]

end Key

end RelQuery
