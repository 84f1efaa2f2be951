import RelQuery.Proofs.Select.Frames
import RelQuery.Proofs.Select.Renaming

/-! Output rows in the order of their keys. The criteria put keys of any lengths in a total preorder, so that one
arrangement of the rows follows it and keeps the input order of rows that no criterion tells apart. Sorting
answers this arrangement. -/
namespace RelQuery
open WindowFrame (Before Arranges orderRows orderRowsPerm orderRowsSorted)

namespace Key

/-- A comparison that says of any two keys which of them comes first, or that neither does. -/
structure TotalPreorder (compare : Key → Key → Ordering) : Prop where
  self : ∀ a, compare a a = .eq
  turned : ∀ a b, compare b a = (compare a b).swap
  total : ∀ a b, (compare a b).isLE ∨ (compare b a).isLE
  trans : ∀ a b c, (compare a b).isLE → (compare b c).isLE → (compare a c).isLE

theorem compareByTotal (ds : List Direction) : TotalPreorder (compareBy ds) where
  self _ := Std.ReflCmp.compare_self
  turned _ _ := Std.OrientedCmp.eq_swap
  total a b := by
    rw [@Std.OrientedCmp.eq_swap _ (compareBy ds) _ b a]
    cases compareBy ds a b <;> simp
  trans _ _ _ := Std.TransCmp.isLE_trans

/-- How the keys of two rows compare, the rows being given by their places. -/
def placeOrder (ds : List Direction) (keys : List Key) (i j : Nat) : Ordering :=
  compareBy ds (keys[i]?.getD []) (keys[j]?.getD [])

variable {ds : List Direction} {keys : List Key} {rows places others : List Nat} {i j : Nat}

theorem beforeOnce (first : Before (placeOrder ds keys) i j) (second : Before (placeOrder ds keys) j i) :
    i = j := by
  have turned := (compareByTotal ds).turned (keys[i]?.getD []) (keys[j]?.getD [])
  simp only [Before, placeOrder] at first second
  rw [turned] at second
  rcases first with less | ⟨tied, earlier⟩
  · simp [less] at second
  · simp only [tied, Ordering.swap_eq, reduceCtorEq, true_and, false_or] at second
    exact absurd earlier (Nat.lt_asymm second)

theorem arrangedOnce (arranged : Arranges (placeOrder ds keys) rows places)
    (arranged' : Arranges (placeOrder ds keys) rows others) : places = others :=
  List.Perm.eq_of_pairwise (fun _ _ _ _ => beforeOnce) arranged.sorted arranged'.sorted
    (arranged.perm.trans arranged'.perm.symm)

theorem sortByArranges (ds : List Direction) (keys : List Key) :
    Arranges (placeOrder ds keys) (List.range keys.length) ((sortBy ds keys.zipIdx).map (·.2)) where
  perm := by
    have perm := (List.mergeSort_perm keys.zipIdx fun a b => compareBy ds a.1 b.1 != .gt).map (·.2)
    rwa [List.zipIdx_map_snd, ← List.range_eq_range'] at perm
  sorted := by
    have input : keys.zipIdx.Pairwise fun a b => a.2 < b.2 := by
      rw [← List.pairwise_map (f := Prod.snd), List.zipIdx_map_snd]
      exact List.pairwise_lt_range'
    rw [List.pairwise_map]
    refine (sortByStable ds input).imp_of_mem fun {x y} left right before => ?_
    have own := List.mem_zipIdx_iff_getElem?.mp (List.mem_mergeSort.mp left)
    have own' := List.mem_zipIdx_iff_getElem?.mp (List.mem_mergeSort.mp right)
    rwa [Before, placeOrder, own, own']

end Key

namespace Output
open Outcome (mapMOk)

/-- The key by which a row is sorted. -/
def sortKey (orderBy : List (SortKey Expr)) (params : List Value) (o : Output) : Outcome Key :=
  Expr.evalList (orderBy.map (·.expr)) (o.fieldScope params)

variable {outputs : List Output} {orderBy : List (SortKey Expr)} {params : List Value} {keys : List Key}
  {keyed : List (Key × Output)}

theorem sortKeyed (evaluated : (outputs.mapM fun o => do return (← sortKey orderBy params o, o)) = .ok keyed) :
    sort outputs orderBy params = .ok ((Key.sortBy (orderBy.map (·.direction)) keyed).map (·.2)) := by
  rw [sort]
  split
  · rename_i none
    have input : keyed.map (·.2) = outputs := by
      rw [← List.forall₂_eq_eq_eq, List.forall₂_map_left_iff]
      refine (mapMOk.mp evaluated).flip.imp fun entry o own => ?_
      obtain ⟨key, _, same⟩ := Outcome.bindOk.mp own
      cases same
      rfl
    rw [List.isEmpty_iff.mp none, List.map_nil, Key.sortBy, List.mergeSort_of_pairwise, input]
    exact List.pairwise_of_forall fun _ _ => rfl
  · simp only [sortKey] at evaluated
    rw [evaluated]
    rfl

/-- Sorting answers the rows in the one order in which their keys never fall and rows of equal keys stand as in
the input. -/
theorem sortArranges (evaluated : outputs.mapM (sortKey orderBy params) = .ok keys) :
    let order := Key.placeOrder (orderBy.map (·.direction)) keys
    (∀ ds, Key.TotalPreorder (Key.compareBy ds)) ∧
      ∃ places sorted, sort outputs orderBy params = .ok sorted ∧
        List.Forall₂ (fun i o => outputs[i]? = some o) places sorted ∧
          Arranges order (List.range outputs.length) places ∧
            ∀ others, Arranges order (List.range outputs.length) others → others = places := by
  intro order
  obtain ⟨paired, alike⟩ := keyedPlaces evaluated
  have arranged := Key.sortByArranges (orderBy.map (·.direction)) keys
  rw [← (mapMOk.mp evaluated).length_eq] at arranged
  exact ⟨Key.compareByTotal, _, _, sortKeyed paired, itemsAlike (sortAlike _ alike), arranged,
    fun others other => Key.arrangedOnce other arranged⟩

open WindowFrame (scores)

instance (order : Nat → Nat → Ordering) : DecidableRel (Before order) := fun i j =>
  inferInstanceAs (Decidable (order i j = .lt ∨ order i j = .eq ∧ i < j))

def byTeam : List (SortKey Expr) := [⟨.column ⟨none, "team"⟩, .asc⟩, ⟨.column ⟨none, "score"⟩, .desc⟩]

/-- An integer and a double that are equal leave two rows in input order, and NULL is last where scores fall. -/
theorem sortArrangesScored : scores.mapM (sortKey byTeam []) =
      .ok [[.int 1, .int 7], [.int 2, .int 9], [.float (.ofInt64 1), .float (.ofInt64 7)], [.int 1, .null],
        [.int 1, .int 8]] ∧
    ∃ sorted, sort scores byTeam [] = .ok sorted ∧
      List.Forall₂ (fun i o => scores[i]? = some o) [4, 0, 2, 3, 1] sorted := by
  have evaluated : scores.mapM (sortKey byTeam []) =
      .ok [[.int 1, .int 7], [.int 2, .int 9], [.float (.ofInt64 1), .float (.ofInt64 7)], [.int 1, .null],
        [.int 1, .int 8]] := by decide +kernel
  obtain ⟨_, places, sorted, sorts, listed, _, once⟩ := sortArranges evaluated
  refine ⟨evaluated, sorted, sorts, ?_⟩
  rwa [once [4, 0, 2, 3, 1] ⟨by decide +kernel, by decide +kernel⟩]

end Output

end RelQuery
