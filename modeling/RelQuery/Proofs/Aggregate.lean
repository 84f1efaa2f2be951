import Mathlib
import RelQuery.Aggregate

/-! Sums of integers. The total runs along the inputs and has to fit in 64 bits after each of them, so a sum that
fits can fail in one order and not in another. It is the same in every order if it does not fit, or if the positive
integers have a sum that fits and the negative ones too. -/
namespace RelQuery

namespace Value

/-- Whether 64 bits hold an integer. -/
def Fits (n : Int) : Prop := Int64.minValue.toInt ≤ n ∧ n ≤ Int64.maxValue.toInt

instance (n : Int) : Decidable (Fits n) := inferInstanceAs (Decidable (_ ∧ _))

/-- A cell of a column of integers. -/
def ofCell : Option Int64 → Value
  | some n => .int n
  | none => .null

theorem fitsIff {n : Int} : Fits n ↔ -2 ^ 63 ≤ n ∧ n < 2 ^ 63 := by
  have least : Int64.minValue.toInt = -2 ^ 63 := rfl
  have greatest : Int64.maxValue.toInt = 2 ^ 63 - 1 := rfl
  unfold Fits
  omega

theorem fitsInt (n : Int64) : Fits n.toInt := ⟨Int64.minValue_le_toInt n, Int64.toInt_le n⟩

theorem fitsBetween {a b n : Int} (least : Fits a) (greatest : Fits b) (low : a ≤ n) (high : n ≤ b) : Fits n :=
  ⟨Int.le_trans least.1 low, Int.le_trans high greatest.2⟩

theorem ofIntFits {n : Int} {m : Int64} : ofInt? n = some m ↔ Fits n ∧ m.toInt = n := by
  unfold ofInt?
  split
  · rename_i fits
    have bounds := fitsIff.mp fits
    have same : (Int64.ofInt n).toInt = n := Int64.toInt_ofInt_of_le bounds.1 bounds.2
    rw [Option.some.injEq, ← Int64.toInt_inj, same]
    exact ⟨fun own => ⟨fits, own.symm⟩, fun own => own.2.symm⟩
  · rename_i past
    exact iff_of_false nofun fun own => past own.1

theorem fitsHeld {n : Int} (fits : Fits n) : ∃ m : Int64, m.toInt = n :=
  ⟨_, (ofIntFits.mp (if_pos fits)).2⟩

end Value

namespace Aggregate
open Value (Fits ofCell fitsInt fitsBetween fitsIff fitsHeld ofIntFits)

variable {ns ms : List Int64} {t : Int} {total : Int64}

def exactSum (ns : List Int64) : Int := (ns.map Int64.toInt).sum

theorem exactCons (n : Int64) (ns : List Int64) : exactSum (n :: ns) = n.toInt + exactSum ns := rfl

theorem exactPerm (same : ms.Perm ns) : exactSum ms = exactSum ns := (same.map Int64.toInt).sum_eq

/-- A total and all that follow it fit. -/
def Runs (t : Int) (ns : List Int64) : Prop := ∀ k, Fits (t + exactSum (ns.take k))

theorem runsNil : Runs t [] ↔ Fits t := by simp [Runs, exactSum]

theorem runsCons {n : Int64} : Runs t (n :: ns) ↔ Fits t ∧ Runs (t + n.toInt) ns := by
  have later (k : Nat) : t + exactSum ((n :: ns).take (k + 1)) = t + n.toInt + exactSum (ns.take k) := by
    rw [List.take_succ_cons, exactCons, Int.add_assoc]
  constructor
  · intro runs
    exact ⟨by simpa [exactSum] using runs 0, fun k => later k ▸ runs (k + 1)⟩
  · rintro ⟨first, runs⟩ k
    cases k with
    | zero => simpa [exactSum] using first
    | succ k => exact later k ▸ runs k

theorem runsEnd (runs : Runs t ns) : Fits (t + exactSum ns) := by
  have last := runs ns.length
  rwa [List.take_length] at last

theorem runsWhole (runs : Runs 0 ns) : Fits (exactSum ns) := Int.zero_add (exactSum ns) ▸ runsEnd runs

theorem sumIntsSome {first : Int64} :
    sumInts first ns = some total ↔ Runs first.toInt ns ∧ total.toInt = first.toInt + exactSum ns := by
  induction ns generalizing first with
  | nil =>
      rw [sumInts, runsNil, Option.some.injEq, ← Int64.toInt_inj, and_iff_right (fitsInt first)]
      simp [exactSum, eq_comm]
  | cons n ns ih =>
      rw [sumInts, Option.bind_eq_some_iff, runsCons, and_iff_right (fitsInt first), exactCons, ← Int.add_assoc]
      constructor
      · rintro ⟨next, own, rest⟩
        obtain ⟨_, same⟩ := ofIntFits.mp own
        rw [← same]
        exact ih.mp rest
      · rintro ⟨runs, last⟩
        have fits : Fits (first.toInt + n.toInt) := by simpa [exactSum] using runs 0
        obtain ⟨next, own⟩ : ∃ next, Value.ofInt? (first.toInt + n.toInt) = some next :=
          ⟨_, if_pos fits⟩
        have same := (ofIntFits.mp own).2
        rw [← same] at runs last
        exact ⟨next, own, ih.mpr ⟨runs, last⟩⟩

/-! Sums over cells -/

def integers (cells : List (Option Int64)) : List Int64 := cells.filterMap id

variable {cells others : List (Option Int64)}

theorem presentCells (cells : List (Option Int64)) :
    (cells.map ofCell).filter (!·.isNull) = (integers cells).map .int := by
  induction cells with
  | nil => rfl
  | cons cell cells ih => cases cell <;> simpa [integers, ofCell, Value.isNull] using ih

theorem computeCells (cells : List (Option Int64)) : compute .sum false (cells.map ofCell) =
    if integers cells = [] then .ok .null
    else (sumInts 0 (integers cells)).elim (.error (.invalidOperation .sumOverflow)) (.ok ∘ .int) := by
  have all (ns : List Int64) : (ns.map Value.int).mapM Value.int? = some ns := by
    induction ns with
    | nil => rfl
    | cons n ns ih => simp [Value.int?, ih]
  simp only [compute, presentCells, Bool.false_eq_true, if_false, sum, all, List.isEmpty_iff,
    List.map_eq_nil_iff]
  cases sumInts 0 (integers cells) <;> rfl

theorem computeInt (some : integers cells ≠ []) : compute .sum false (cells.map ofCell) = .ok (.int total) ↔
    Runs 0 (integers cells) ∧ total.toInt = exactSum (integers cells) := by
  have own := @sumIntsSome (integers cells) total 0
  rw [Int64.toInt_zero, Int.zero_add] at own
  rw [computeCells, if_neg some, ← own]
  cases sumInts 0 (integers cells) <;> simp

theorem computeOverflow : compute .sum false (cells.map ofCell) = .error (.invalidOperation .sumOverflow) ↔
    ¬Runs 0 (integers cells) := by
  have own (total : Int64) := @sumIntsSome (integers cells) total 0
  rw [Int64.toInt_zero] at own
  rw [computeCells]
  split
  · rename_i none
    rw [none, runsNil]
    exact iff_of_false nofun (not_not_intro (fitsInt 0))
  · cases sums : sumInts 0 (integers cells) with
    | some total => exact iff_of_false nofun (not_not_intro ((own total).mp sums).1)
    | none =>
        refine iff_of_true rfl fun runs => ?_
        obtain ⟨total, same⟩ := fitsHeld (runsEnd runs)
        cases sums.symm.trans ((own total).mpr ⟨runs, same⟩)

/-! Reordering -/

def positives (ns : List Int64) : List Int64 := ns.filter (0 < ·)

def negatives (ns : List Int64) : List Int64 := ns.filter (· < 0)

theorem exactFilter (p : Int64 → Bool) (n : Int64) (ns : List Int64) :
    exactSum ((n :: ns).filter p) = (if p n then n.toInt else 0) + exactSum (ns.filter p) := by
  rw [List.filter_cons]
  split
  · exact exactCons ..
  · exact (Int.zero_add _).symm

/-- Some of the integers have no less than the negative ones together and no more than the positive ones. -/
theorem exactSublist (part : ms.Sublist ns) :
    exactSum (negatives ns) ≤ exactSum ms ∧ exactSum ms ≤ exactSum (positives ns) := by
  induction part with
  | slnil => exact ⟨Int.le_refl _, Int.le_refl _⟩
  | cons n _ ih =>
      unfold negatives positives at ih ⊢
      simp only [exactFilter, decide_eq_true_eq, Int64.lt_iff_toInt_lt, Int64.toInt_zero] at ih ⊢
      split <;> split <;> omega
  | cons_cons n _ ih =>
      unfold negatives positives at ih ⊢
      simp only [exactFilter, exactCons, decide_eq_true_eq, Int64.lt_iff_toInt_lt, Int64.toInt_zero] at ih ⊢
      split <;> split <;> omega

/-- Where no integer can be added, all lead past the same bound, and so does their sum. -/
theorem exactPast (first : Fits t) (some : ns ≠ []) (past : ∀ n ∈ ns, ¬Fits (t + n.toInt)) :
    ¬Fits (t + exactSum ns) := by
  obtain ⟨n, rest, rfl⟩ := List.exists_cons_of_ne_nil some
  obtain ⟨own, others⟩ := List.forall_mem_cons.mp past
  have bounds := exactSublist (List.Sublist.refl rest)
  have one := fitsInt n
  rw [exactCons]
  rw [fitsIff] at first own one ⊢
  by_cases sign : 0 ≤ t
  · have none : negatives rest = [] := by
      refine List.filter_eq_nil_iff.mpr fun m member => ?_
      have another := others m member
      have fits := fitsInt m
      rw [fitsIff] at another fits
      simp only [decide_eq_true_eq, Int64.lt_iff_toInt_lt, Int64.toInt_zero]
      omega
    have least : 0 ≤ exactSum rest := by simpa [none, exactSum] using bounds.1
    omega
  · have none : positives rest = [] := by
      refine List.filter_eq_nil_iff.mpr fun m member => ?_
      have another := others m member
      have fits := fitsInt m
      rw [fitsIff] at another fits
      simp only [decide_eq_true_eq, Int64.lt_iff_toInt_lt, Int64.toInt_zero]
      omega
    have greatest : exactSum rest ≤ 0 := by simpa [none, exactSum] using bounds.2
    omega

/-- As long as the sum fits, some order keeps every total within bounds. -/
theorem balanced (first : Fits t) (last : Fits (t + exactSum ns)) : ∃ ms, ms.Perm ns ∧ Runs t ms := by
  induction length : ns.length generalizing t ns with
  | zero =>
      cases List.length_eq_zero_iff.mp length
      exact ⟨[], .refl _, runsNil.mpr first⟩
  | succ size ih =>
      have next : ∃ n ∈ ns, Fits (t + n.toInt) := by
        by_contra none
        refine exactPast first (List.ne_nil_of_length_eq_add_one length) (fun n member fits => ?_) last
        exact none ⟨n, member, fits⟩
      obtain ⟨n, member, fits⟩ := next
      have same := List.perm_cons_erase member
      have shorter : (ns.erase n).length = size := by
        rw [List.length_erase_of_mem member]
        omega
      have ends : t + n.toInt + exactSum (ns.erase n) = t + exactSum ns := by
        rw [exactPerm same, exactCons, Int.add_assoc]
      obtain ⟨ms, perm, runs⟩ := ih fits (ends ▸ last) shorter
      exact ⟨n :: ms, (perm.cons n).trans same.symm, runsCons.mpr ⟨first, runs⟩⟩

theorem runsBefore (runs : Runs t (ms ++ ns)) : Fits (t + exactSum ms) := by
  have own := runs ms.length
  rwa [List.take_left] at own

/-- Every total lies between the sum of the negative integers and that of the positive ones. -/
theorem runsSigned (greatest : Fits (exactSum (positives ns))) (least : Fits (exactSum (negatives ns))) :
    Runs 0 ns := by
  intro k
  obtain ⟨low, high⟩ := exactSublist (List.take_sublist k ns)
  rw [Int.zero_add]
  exact fitsBetween least greatest low high

/-- Any order of the integers is one of the cells. -/
theorem orderedCells (perm : ms.Perm (integers cells)) : ∃ others, others.Perm cells ∧ integers others = ms := by
  have given (cells : List (Option Int64)) : (integers cells).map some = cells.filter (·.isSome) := by
    induction cells with
    | nil => rfl
    | cons cell cells ih => cases cell <;> simpa [integers] using ih
  have parts := List.filter_append_perm (·.isSome) cells
  rw [← given] at parts
  refine ⟨ms.map some ++ cells.filter (!·.isSome), ((perm.map some).append_right _).trans parts, ?_⟩
  have none : integers (cells.filter (!·.isSome)) = [] := by
    refine List.filterMap_eq_nil_iff.mpr fun cell member => ?_
    simpa using (List.mem_filter.mp member).2
  rw [integers] at none ⊢
  rw [List.filterMap_append, none, List.append_nil, List.filterMap_map]
  exact List.filterMap_some

theorem computeAlike (perm : others.Perm cells) (runs : Runs 0 (integers others)) (runs' : Runs 0 (integers cells)) :
    compute .sum false (others.map ofCell) = compute .sum false (cells.map ofCell) := by
  have same : (integers others).Perm (integers cells) := perm.filterMap id
  by_cases none : integers cells = []
  · rw [computeCells, computeCells, if_pos none, if_pos (none ▸ same).eq_nil]
  · obtain ⟨total, own⟩ := fitsHeld (runsWhole runs')
    rw [(computeInt none).mpr ⟨runs', own⟩]
    refine (computeInt fun empty => none ?_).mpr ⟨runs, own.trans (exactPerm same).symm⟩
    exact (empty ▸ same).nil_eq.symm

/-- A sum is the same in every order of its inputs exactly if it does not fit, or if the positive integers have a
sum that fits and the negative ones too. -/
theorem ordersAlike : (∀ others : List (Option Int64), others.Perm cells →
      compute .sum false (others.map ofCell) = compute .sum false (cells.map ofCell)) ↔
    ¬Fits (exactSum (integers cells)) ∨
      Fits (exactSum (positives (integers cells))) ∧ Fits (exactSum (negatives (integers cells))) := by
  constructor
  · intro alike
    by_cases fits : Fits (exactSum (integers cells))
    · right
      obtain ⟨ms, perm, runs⟩ := balanced (t := 0) (fitsInt 0) (by rwa [Int.zero_add])
      obtain ⟨balancing, reordered, rfl⟩ := orderedCells perm
      have all {ms : List Int64} (perm : ms.Perm (integers cells)) : Runs 0 ms := by
        obtain ⟨others, ordered, rfl⟩ := orderedCells perm
        by_contra past
        have fails := computeOverflow.mpr past
        rw [alike others ordered, ← alike balancing reordered] at fails
        exact computeOverflow.mp fails runs
      have first (p : Int64 → Bool) : Fits (exactSum ((integers cells).filter p)) := by
        have own := runsBefore (all (List.filter_append_perm p _))
        rwa [Int.zero_add] at own
      exact ⟨first _, first _⟩
    · exact .inl fits
  · rintro (past | ⟨greatest, least⟩) others perm
    · have overflow {cells : List (Option Int64)} (past : ¬Fits (exactSum (integers cells))) :
          compute .sum false (cells.map ofCell) = .error (.invalidOperation .sumOverflow) :=
        computeOverflow.mpr fun runs => past (runsWhole runs)
      rw [overflow past]
      exact overflow (exactPerm (perm.filterMap id) ▸ past)
    · have same : (integers others).Perm (integers cells) := perm.filterMap id
      refine computeAlike perm (runsSigned ?_ ?_) (runsSigned greatest least)
      · exact (exactPerm (same.filter _)).symm ▸ greatest
      · exact (exactPerm (same.filter _)).symm ▸ least

/-- The sum of a column of integers is exact where every total on the way fits, and overflows where one does
not. -/
theorem sumsRunning (cells : List (Option Int64)) :
    (integers cells = [] → compute .sum false (cells.map ofCell) = .ok .null) ∧
      (integers cells ≠ [] → (∀ k, Fits (exactSum ((integers cells).take k))) →
        ∃ total : Int64, compute .sum false (cells.map ofCell) = .ok (.int total) ∧
          total.toInt = exactSum (integers cells)) ∧
      (compute .sum false (cells.map ofCell) = .error (.invalidOperation .sumOverflow) ↔
        ∃ k, ¬Fits (exactSum ((integers cells).take k))) ∧
      (¬Fits (exactSum (integers cells)) →
        compute .sum false (cells.map ofCell) = .error (.invalidOperation .sumOverflow)) ∧
      ((∀ others : List (Option Int64), others.Perm cells →
          compute .sum false (others.map ofCell) = compute .sum false (cells.map ofCell)) ↔
        ¬Fits (exactSum (integers cells)) ∨
          Fits (exactSum (positives (integers cells))) ∧ Fits (exactSum (negatives (integers cells)))) := by
  have running : Runs 0 (integers cells) ↔ ∀ k, Fits (exactSum ((integers cells).take k)) := by
    simp only [Runs, Int.zero_add]
  refine ⟨fun none => ?_, fun some runs => ?_, ?_, fun past => ?_, ordersAlike⟩
  · rw [computeCells, if_pos none]
  · obtain ⟨total, own⟩ := fitsHeld (runsWhole (running.mpr runs))
    exact ⟨total, (computeInt some).mpr ⟨running.mpr runs, own⟩, own⟩
  · rw [computeOverflow, running, not_forall]
  · exact computeOverflow.mpr fun runs => past (runsWhole runs)

/-- The greatest integer, with one more and one less after it. -/
def detour : List (Option Int64) := [some Int64.maxValue, some 1, none, some (-1)]

/-- A sum that fits is lost where a total on the way does not, and found in another order. -/
theorem detourOverflows :
    exactSum (integers detour) = Int64.maxValue.toInt ∧ Fits (exactSum (integers detour)) ∧
      compute .sum false (detour.map ofCell) = .error (.invalidOperation .sumOverflow) ∧
        detour.reverse.Perm detour ∧ compute .sum false (detour.reverse.map ofCell) = .ok (.int Int64.maxValue) :=
  ⟨by decide, by decide, by decide +kernel, List.reverse_perm _, by decide +kernel⟩

end Aggregate

end RelQuery
