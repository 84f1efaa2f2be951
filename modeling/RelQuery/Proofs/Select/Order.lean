import RelQuery.Select.Order
import RelQuery.Value.Order

/-! The order of keys under criteria is total, and sorting by it is stable: a row comes before another if its key
is smaller, or if no criterion tells the two apart and it came first in the input. -/
namespace RelQuery.Key

variable {ds : List Direction} {a b c : Key}

theorem orderAtSwap (a b : Option Value) : orderAt a b = (orderAt b a).swap := by
  cases a <;> cases b <;> simp only [orderAt, Ordering.swap]
  exact Std.OrientedCmp.eq_swap

theorem orderAtTrans {a b c : Option Value} (ab : (orderAt a b).isLE) (bc : (orderAt b c).isLE) :
    (orderAt a c).isLE := by
  cases a <;> cases b <;> cases c <;> simp_all [orderAt]
  exact Std.TransCmp.isLE_trans ab bc

instance : Std.OrientedCmp orderAt := ⟨orderAtSwap _ _⟩

instance : Std.TransCmp orderAt := ⟨orderAtTrans⟩

theorem transOn {α β : Type} (cmp : β → β → Ordering) [Std.TransCmp cmp] (f : α → β) :
    Std.TransCmp fun a b => cmp (f a) (f b) where
  eq_swap := Std.OrientedCmp.eq_swap
  isLE_trans := Std.TransCmp.isLE_trans

theorem transApply {α : Type} (cmp : α → α → Ordering) [Std.TransCmp cmp] (d : Direction) :
    Std.TransCmp fun a b => d.apply (cmp a b) := by
  cases d with
  | asc => exact inferInstanceAs (Std.TransCmp cmp)
  | desc =>
      have turned : (fun a b => Direction.desc.apply (cmp a b)) = fun a b => cmp b a := by
        funext a b
        exact Std.OrientedCmp.eq_swap.symm
      rw [turned]
      exact inferInstance

/-- Every criterion orders keys, and so do all of them one after another. -/
theorem transBy (ds : List Direction) : Std.TransCmp (compareBy ds) := by
  induction ds with
  | nil =>
      exact { eq_swap := rfl, isLE_trans := fun _ _ => rfl }
  | cons d ds ih =>
      have own := transApply orderAt d
      have first := transOn (fun a b => d.apply (orderAt a b)) (List.head? : Key → Option Value)
      have rest := transOn (compareBy ds) (List.tail : Key → Key)
      exact inferInstanceAs (Std.TransCmp (compareLex (fun a b : Key => d.apply (orderAt a.head? b.head?))
        fun a b : Key => compareBy ds a.tail b.tail))

instance (ds : List Direction) : Std.TransCmp (compareBy ds) := transBy ds

theorem notAfter : (compareBy ds a b != .gt) = true ↔ (compareBy ds a b).isLE := by
  cases compareBy ds a b <;> simp

/-- Sorting keeps the input order of items that no criterion tells apart. -/
theorem sortByStable {α : Type} {before : Key × α → Key × α → Prop} {keyed : List (Key × α)}
    (ds : List Direction) (input : keyed.Pairwise before) : (sortBy ds keyed).Pairwise fun a b =>
      compareBy ds a.1 b.1 = .lt ∨ compareBy ds a.1 b.1 = .eq ∧ before a b := by
  have trans (a b c : Key × α) : (compareBy ds a.1 b.1 != .gt) = true → (compareBy ds b.1 c.1 != .gt) = true →
      (compareBy ds a.1 c.1 != .gt) = true := by
    simp only [notAfter]
    exact Std.TransCmp.isLE_trans
  have total (a b : Key × α) : ((compareBy ds a.1 b.1 != .gt) || (compareBy ds b.1 a.1 != .gt)) = true := by
    rw [@Std.OrientedCmp.eq_swap _ (compareBy ds) _ b.1 a.1]
    cases compareBy ds a.1 b.1 <;> rfl
  -- items with their places in the input, which decide where the keys do not
  rw [sortBy, ← List.mergeSort_zipIdx, List.pairwise_map]
  have sorted := List.pairwise_mergeSort (List.zipIdxLE_trans trans) (List.zipIdxLE_total total) keyed.zipIdx
  have apart : (keyed.zipIdx.mergeSort (List.zipIdxLE fun a b => compareBy ds a.1 b.1 != .gt)).Pairwise
      fun x y => x.2 ≠ y.2 := by
    rw [← List.pairwise_map (R := (· ≠ ·)) (f := Prod.snd)]
    refine ((List.mergeSort_perm ..).map Prod.snd).nodup_iff.mpr ?_
    rw [List.zipIdx_map_snd]
    exact List.nodup_range' ..
  refine (sorted.and apart).imp_of_mem fun {x y} left right both => ?_
  obtain ⟨within, place⟩ :=
    List.getElem?_eq_some_iff.mp (List.mem_zipIdx_iff_getElem?.mp (List.mem_mergeSort.mp left))
  obtain ⟨within', place'⟩ :=
    List.getElem?_eq_some_iff.mp (List.mem_zipIdx_iff_getElem?.mp (List.mem_mergeSort.mp right))
  obtain ⟨ordered, other⟩ := both
  simp only [List.zipIdxLE] at ordered
  have back := @Std.OrientedCmp.eq_swap _ (compareBy ds) _ y.1.1 x.1.1
  cases order : compareBy ds x.1.1 y.1.1 with
  | lt => exact .inl rfl
  | gt => simp [order] at ordered
  | eq =>
      have earlier : x.2 < y.2 := by
        have least : x.2 ≤ y.2 := by simpa [order, back] using ordered
        omega
      rw [← place, ← place']
      exact .inr ⟨rfl, List.pairwise_iff_getElem.mp input _ _ within within' earlier⟩

end RelQuery.Key
