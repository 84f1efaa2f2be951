import Mathlib.Data.Finset.Card
import Mathlib.Data.List.TakeWhile
import RelQuery.Proofs.Outcome
import RelQuery.Proofs.Select.Order
import RelQuery.Select.Window

/-! What a function says of each row of a partition, which window order sorts by order key and otherwise leaves in
input order. Rows are numbered in window order and ranked by how many rows, or how many classes of tied rows, have
smaller order keys; any other function aggregates the inputs up to the last tied row, or those of the whole
partition where there is no order. -/
namespace RelQuery

namespace WindowFrame
open Outcome (mapMConst)

section
variable (order : Nat → Nat → Ordering) (partition : List Nat)

def Before (a b : Nat) : Prop := order a b = .lt ∨ order a b = .eq ∧ a < b

/-- Whether rows are those of a partition in window order. -/
structure Arranges (rows : List Nat) : Prop where
  perm : rows.Perm partition
  sorted : rows.Pairwise (Before order)

def smaller (row : Nat) : List Nat := partition.filter fun other => order other row = .lt

def classOf (row : Nat) : List Nat := partition.filter fun other => order other row = .eq

def smallerClasses (row : Nat) : Finset (List Nat) :=
  ((smaller order partition row).map (classOf order partition)).toFinset

def rankOf (row : Nat) : Nat := (smaller order partition row).length + 1

def denseRankOf (row : Nat) : Nat := (smallerClasses order partition row).card + 1

def upTo (rows : List Nat) (row : Nat) : List Nat := rows.filter fun other => order other row ≠ .gt

/-- What a function says of a row, whose partition stands in window order as some rows. -/
def answer (ordered : Bool) (rows : List Nat) (func : AggregateFunc) (distinct : Bool) (args : Array Value)
    (row : Nat) : Outcome Value :=
  match func with
  | .rowNumber => .ok (.int (Int64.ofNat (rows.idxOf row + 1)))
  | .rank => .ok (.int (Int64.ofNat (rankOf order partition row)))
  | .denseRank => .ok (.int (Int64.ofNat (denseRankOf order partition row)))
  | _ => Aggregate.compute func distinct (inputs args (if ordered then upTo order rows row else partition))

end

/-! Ranks -/

section
variable {order : Nat → Nat → Ordering} {partition rows done rest : List Nat} {a b row : Nat}

theorem memClasses {members : List Nat} : members ∈ smallerClasses order partition row ↔
    ∃ other ∈ partition, order other row = .lt ∧ classOf order partition other = members := by
  simp [smallerClasses, smaller, and_assoc]

theorem sortedPast (arranged : Arranges order partition (done ++ row :: rest)) (earlier : a ∈ done) :
    Before order a row :=
  (List.pairwise_append.mp arranged.sorted).2.2 a earlier row List.mem_cons_self

variable [Std.TransCmp order]

theorem smallerTied (tied : order b row = .eq) : smaller order partition b = smaller order partition row := by
  refine List.filter_congr fun other _ => ?_
  rw [Std.TransCmp.congr_right tied]

theorem classTied (tied : order b row = .eq) : classOf order partition b = classOf order partition row := by
  refine List.filter_congr fun other _ => ?_
  rw [Std.TransCmp.congr_right tied]

theorem classesTied (tied : order b row = .eq) :
    smallerClasses order partition b = smallerClasses order partition row := by
  rw [smallerClasses, smallerTied tied, smallerClasses]

theorem notSmaller (arranged : Arranges order partition (done ++ row :: rest)) (later : a ∈ row :: rest) :
    order a row ≠ .lt := by
  have sorted := (List.pairwise_append.mp arranged.sorted).2.1
  rcases List.mem_cons.mp later with rfl | later
  · simp [Std.ReflCmp.compare_self]
  · have after := (List.pairwise_cons.mp sorted).1 a later
    rw [@Std.OrientedCmp.eq_swap _ order _ a row]
    rcases after with below | ⟨tied, _⟩ <;> simp [*]

/-- The first row past some smaller ones has no other smaller rows. -/
theorem smallerPast (arranged : Arranges order partition (done ++ row :: rest))
    (below : ∀ other ∈ done, order other row = .lt) : (smaller order partition row).Perm done := by
  have before : (done ++ row :: rest).filter (fun other => order other row = .lt) = done := by
    rw [List.filter_append, List.filter_eq_self.mpr fun other member => by simpa using below other member,
      List.filter_eq_nil_iff.mpr fun other member => by simpa using notSmaller arranged member, List.append_nil]
  exact before ▸ arranged.perm.symm.filter _

/-- A row past the one before it has one more class below it, that of the one before. -/
theorem classesPast (arranged : Arranges order partition (done ++ b :: row :: rest)) (below : order b row = .lt) :
    smallerClasses order partition row =
      insert (classOf order partition b) (smallerClasses order partition b) := by
  ext members
  rw [Finset.mem_insert, memClasses, memClasses]
  constructor
  · rintro ⟨other, member, smaller, rfl⟩
    rcases List.mem_append.mp (arranged.perm.mem_iff.mpr member) with earlier | later
    · rcases sortedPast arranged earlier with before | ⟨tied, _⟩
      · exact .inr ⟨other, member, before, rfl⟩
      · exact .inl (classTied tied)
    · rcases List.mem_cons.mp later with rfl | later
      · exact .inl rfl
      · rw [List.append_cons] at arranged
        exact absurd smaller (notSmaller arranged later)
  · rintro (rfl | ⟨other, member, smaller, rfl⟩)
    · exact ⟨b, arranged.perm.mem_iff.mp (by simp), below, rfl⟩
    · exact ⟨other, member, Std.TransCmp.lt_trans smaller below, rfl⟩

theorem classesNew : classOf order partition row ∉ smallerClasses order partition row := by
  intro among
  obtain ⟨other, member, below, same⟩ := memClasses.mp among
  have own : other ∈ classOf order partition other :=
    List.mem_filter.mpr ⟨member, by simp [Std.ReflCmp.compare_self]⟩
  rw [same] at own
  simp [classOf, below] at own

theorem ranksFirst (arranged : Arranges order partition (row :: rest)) :
    rankOf order partition row = 1 ∧ denseRankOf order partition row = 1 := by
  have start : Arranges order partition ([] ++ row :: rest) := arranged
  have none : smaller order partition row = [] := (smallerPast start nofun).eq_nil
  simp [rankOf, denseRankOf, smallerClasses, none]

theorem ranksTied (partition : List Nat) (tied : order b row = .eq) :
    rankOf order partition b = rankOf order partition row ∧
      denseRankOf order partition b = denseRankOf order partition row := by
  rw [rankOf, smallerTied tied, denseRankOf, classesTied tied]
  exact ⟨rfl, rfl⟩

theorem ranksPast (arranged : Arranges order partition (done ++ b :: row :: rest)) (below : order b row = .lt) :
    rankOf order partition row = done.length + 1 + 1 ∧
      denseRankOf order partition row = denseRankOf order partition b + 1 := by
  have all : ∀ other ∈ done ++ [b], order other row = .lt := by
    intro other member
    rcases List.mem_append.mp member with earlier | one
    · rcases sortedPast arranged earlier with smaller | ⟨tied, _⟩
      · exact Std.TransCmp.lt_trans smaller below
      · rwa [Std.TransCmp.congr_left tied]
    · rwa [List.mem_singleton.mp one]
  have before := (smallerPast (List.append_cons .. ▸ arranged) all).length_eq
  rw [rankOf, before, denseRankOf, classesPast arranged below, Finset.card_insert_of_notMem classesNew, denseRankOf]
  simp

end

def rowOrder (f : WindowFrame) (a b : Nat) : Ordering := Key.compareBy f.directions (f.keyOf a) (f.keyOf b)

instance (f : WindowFrame) : Std.TransCmp f.rowOrder := Key.transOn (Key.compareBy f.directions) f.keyOf

variable {f : WindowFrame} {partition rows done rest : List Nat} {a b row : Nat}

theorem peersIff : f.peers a b = true ↔ f.rowOrder a b = .eq := by
  rw [peers, beq_iff_eq, rowOrder]

/-- The counts carried along a partition are the ranks of the row before. -/
theorem ranksFrom (arranged : Arranges f.rowOrder partition (done ++ b :: rest)) :
    f.ranksAfter (some b) (done.length + 1) (rankOf f.rowOrder partition b) (denseRankOf f.rowOrder partition b) rest =
      rest.map fun row => (row, rankOf f.rowOrder partition row, denseRankOf f.rowOrder partition row) := by
  induction rest generalizing done b with
  | nil => rfl
  | cons row rest ih =>
      have next := @ih (done ++ [b]) row (by simpa using arranged)
      rw [List.length_append, List.length_singleton] at next
      rw [ranksAfter, List.map_cons, Option.any_some]
      rcases sortedPast (List.append_cons .. ▸ arranged) (List.mem_append_right done List.mem_cons_self) with
        below | ⟨tied, _⟩
      · have apart : ¬f.peers b row = true := by
          rw [peersIff, below]
          exact nofun
        obtain ⟨rank, dense⟩ := ranksPast arranged below
        rw [rank] at next
        rw [if_neg apart, if_neg apart, ← dense, rank, next]
      · obtain ⟨rank, dense⟩ := ranksTied partition tied
        rw [if_pos (peersIff.mpr tied), if_pos (peersIff.mpr tied), rank, dense, next]

theorem ranksArranged (arranged : Arranges f.rowOrder partition rows) : f.ranks rows =
    rows.map fun row => (row, rankOf f.rowOrder partition row, denseRankOf f.rowOrder partition row) := by
  cases rows with
  | nil => rfl
  | cons row rest =>
      obtain ⟨rank, dense⟩ := ranksFirst arranged
      have start : Arranges f.rowOrder partition ([] ++ row :: rest) := arranged
      have others := ranksFrom start
      rw [rank, dense] at others
      rw [ranks, ranksAfter, List.map_cons, rank, dense]
      exact congrArg _ others

/-! Running aggregates -/

theorem runSmaller (sorted : (row :: rest).Pairwise (Before f.rowOrder)) (later : b ∈ rest.dropWhile (f.peers row)) :
    f.rowOrder row b = .lt := by
  induction rest with
  | nil => cases later
  | cons next rest ih =>
      by_cases peer : f.peers row next = true
      · rw [List.dropWhile_cons_of_pos peer] at later
        exact ih (sorted.sublist ((List.sublist_cons_self next rest).cons_cons row)) later
      · rw [List.dropWhile_cons_of_neg peer] at later
        obtain ⟨first, others⟩ := List.pairwise_cons.mp sorted
        have below : f.rowOrder row next = .lt :=
          (first next List.mem_cons_self).resolve_right fun tied => peer (peersIff.mpr tied.1)
        rcases List.mem_cons.mp later with rfl | past
        · exact below
        · rcases (List.pairwise_cons.mp others).1 b past with above | ⟨tied, _⟩
          · exact Std.TransCmp.lt_trans below above
          · rwa [← Std.TransCmp.congr_right tied]

/-- The inputs of a row in a run are those of the run and of all before it. -/
theorem upToRun {run : List Nat} (below : ∀ a ∈ done, f.rowOrder a row = .lt)
    (tied : ∀ a ∈ run, f.rowOrder row a = .eq) (above : ∀ a ∈ rest, f.rowOrder row a = .lt) :
    upTo f.rowOrder (done ++ run ++ rest) row = done ++ run := by
  have kept : (done ++ run).filter (fun other => f.rowOrder other row ≠ .gt) = done ++ run := by
    refine List.filter_eq_self.mpr fun other member => ?_
    rcases List.mem_append.mp member with earlier | among
    · simp [below other earlier]
    · simp [Std.OrientedCmp.eq_symm (tied other among)]
  have left : rest.filter (fun other => f.rowOrder other row ≠ .gt) = [] := by
    refine List.filter_eq_nil_iff.mpr fun other member => ?_
    simp [Std.OrientedCmp.gt_of_lt (above other member)]
  rw [upTo, List.filter_append, kept, left, List.append_nil]

theorem runningFrom (func : AggregateFunc) (distinct : Bool) (args : Array Value) (done : List Nat)
    (sorted : rest.Pairwise (Before f.rowOrder)) (below : ∀ a ∈ done, ∀ b ∈ rest, f.rowOrder a b = .lt) :
    running func distinct args (inputs args done) (f.runs rest) = rest.mapM fun row =>
      (Aggregate.compute func distinct (inputs args (upTo f.rowOrder (done ++ rest) row))).map fun v => (row, v) := by
  -- the induction is on the runs; all rows before a run are below it, so its inputs are theirs and its own
  induction rest using runs.induct f generalizing done with
  | case1 => rw [runs]; rfl
  | case2 row rest ih =>
      let run := row :: rest.takeWhile (f.peers row)
      let left := rest.dropWhile (f.peers row)
      have split : row :: rest = run ++ left := by
        rw [List.cons_append, List.takeWhile_append_dropWhile]
      have tied : ∀ a ∈ run, f.rowOrder row a = .eq := by
        refine List.forall_mem_cons.mpr ⟨Std.ReflCmp.compare_self, fun a among => ?_⟩
        exact peersIff.mp (List.mem_takeWhile_imp among)
      have above : ∀ b ∈ left, f.rowOrder row b = .lt := fun b later => runSmaller sorted later
      have first : f.runs (row :: rest) = run :: f.runs left := by rw [runs]
      rw [first, running, inputs, inputs, ← List.map_append, ← inputs]
      rw [split] at sorted below ⊢
      have each : ∀ a ∈ run, upTo f.rowOrder (done ++ (run ++ left)) a = done ++ run := by
        intro a among
        rw [← List.append_assoc]
        refine upToRun (fun b earlier => below b earlier a (List.mem_append_left _ among)) ?_ ?_
        · exact fun b also => (Std.TransCmp.congr_left (tied a among)).symm.trans (tied b also)
        · exact fun b later => (Std.TransCmp.congr_left (tied a among)).symm.trans (above b later)
      have next := ih (done ++ run) (List.pairwise_append.mp sorted).2.1 fun a earlier b later => by
        rcases List.mem_append.mp earlier with earlier | among
        · exact below a earlier b (List.mem_append_right _ later)
        · exact (Std.TransCmp.congr_left (tied a among)).symm.trans (above b later)
      rw [next, List.mapM_append, mapMConst (List.cons_ne_nil _ _) fun a among => by rw [each a among],
        List.append_assoc]
      cases Aggregate.compute func distinct (inputs args (done ++ run)) <;> rfl

/-! Values of a partition -/

theorem countedEach (once : rows.Nodup) :
    counted rows = rows.map fun row => (row, .int (Int64.ofNat (rows.idxOf row + 1))) := by
  refine List.ext_getElem (by simp [counted]) fun place inside _ => ?_
  rw [counted, List.length_mapIdx] at inside
  simp [counted, once.idxOf_getElem place inside]

theorem aggregatedEach (func : AggregateFunc) (distinct : Bool) (args : Array Value)
    (arranged : Arranges f.rowOrder partition rows) (input : partition.Pairwise (· < ·)) (some : rows ≠ []) :
    (if f.isOrdered then running func distinct args [] (f.runs rows)
      else (Aggregate.compute func distinct (inputs args rows)).map fun v => rows.map (·, v)) =
      rows.mapM fun row => (Aggregate.compute func distinct
        (inputs args (if f.isOrdered then upTo f.rowOrder rows row else partition))).map fun v => (row, v) := by
  split
  · exact runningFrom func distinct args [] arranged.sorted nofun
  · rename_i unordered
    have none : f.directions = [] := by simpa [isOrdered] using unordered
    have same : rows = partition := by
      refine arranged.perm.eq_of_pairwise (fun a b _ _ less more => absurd less (Nat.lt_asymm more)) ?_ input
      refine arranged.sorted.imp fun before => ?_
      simpa [Before, rowOrder, none, Key.compareBy] using before
    rw [same] at some ⊢
    exact (mapMConst some fun _ _ => rfl).symm

theorem overPartitionEach (func : AggregateFunc) (distinct : Bool) (args : Array Value)
    (arranged : Arranges f.rowOrder partition rows) (input : partition.Pairwise (· < ·)) (some : rows ≠ []) :
    f.overPartition func distinct args rows = rows.mapM fun row =>
      (answer f.rowOrder partition f.isOrdered rows func distinct args row).map fun v => (row, v) := by
  have settled (g : Nat → Value) : Except.ok (rows.map fun row => (row, g row)) =
      rows.mapM fun row => (Except.ok (g row) : Outcome Value).map fun v => (row, v) := by
    exact (List.mapM_pure (m := Outcome)).symm
  have once : rows.Nodup := (arranged.perm.nodup_iff).mpr (input.imp Nat.ne_of_lt)
  cases func with
  | rowNumber => rw [overPartition, countedEach once, settled]; rfl
  | rank => rw [overPartition, ranksArranged arranged, List.map_map]; exact settled _
  | denseRank => rw [overPartition, ranksArranged arranged, List.map_map]; exact settled _
  | _ =>
      simp only [overPartition, answer]
      exact aggregatedEach _ distinct args arranged input some

end WindowFrame

end RelQuery
