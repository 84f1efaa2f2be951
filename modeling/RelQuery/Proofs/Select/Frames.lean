import RelQuery.Proofs.Expr.Parts
import RelQuery.Proofs.Grouping
import RelQuery.Proofs.Select.Partition

/-! Frames split the output rows into partitions, of which each row is in one: that of the rows with its partition key.
So each row has one value, which is what the function says of it there. -/
namespace RelQuery

namespace WindowFrame
open Outcome (mapError mapMError mapMFlatten mapMOk mapOk)

variable {ds : List Direction} {keys : List (Key × Key)} {rows : List Nat} {a b row : Nat}

/-! Values of all rows -/

/-- Values that are set at their rows. -/
def scatter (out : Array Value) (pairs : List (Nat × Value)) : Array Value :=
  pairs.foldl (fun out (row, v) => out.setIfInBounds row v) out

theorem scatterSize (out : Array Value) (pairs : List (Nat × Value)) : (scatter out pairs).size = out.size := by
  induction pairs generalizing out with
  | nil => rfl
  | cons pair pairs ih => exact (ih _).trans Array.size_setIfInBounds

theorem scatterOther {out : Array Value} {pairs : List (Nat × Value)} (other : row ∉ pairs.map (·.1)) :
    (scatter out pairs)[row]? = out[row]? := by
  induction pairs generalizing out with
  | nil => rfl
  | cons pair pairs ih =>
      rw [List.map_cons, List.mem_cons, not_or] at other
      exact (ih other.2).trans (Array.getElem?_setIfInBounds_ne (Ne.symm other.1))

theorem scatterOwn {out : Array Value} {pairs : List (Nat × Value)} {v : Value} (once : (pairs.map (·.1)).Nodup)
    (member : (row, v) ∈ pairs) (inside : row < out.size) : (scatter out pairs)[row]? = some v := by
  induction pairs generalizing out with
  | nil => cases member
  | cons pair pairs ih =>
      obtain ⟨other, rest⟩ := List.nodup_cons.mp once
      rcases List.mem_cons.mp member with rfl | later
      · refine (scatterOther other).trans ?_
        rw [Array.getElem?_setIfInBounds_self, if_pos inside]
      · exact ih rest later (by rwa [Array.size_setIfInBounds])

/-! Frames of evaluated keys -/

def partitionKey (keys : List (Key × Key)) (row : Nat) : Key := (keys[row]?.map (·.1)).getD []

def orderKey (keys : List (Key × Key)) (row : Nat) : Key := (keys[row]?.map (·.2)).getD []

/-- The rows that have the partition key of a row, in input order. -/
def partitionOf (keys : List (Key × Key)) (row : Nat) : List Nat :=
  (List.range keys.length).filter fun other => (partitionKey keys other).same (partitionKey keys row)

def keyOrder (ds : List Direction) (keys : List (Key × Key)) (a b : Nat) : Ordering :=
  Key.compareBy ds (orderKey keys a) (orderKey keys b)

/-- The frame of evaluated keys. -/
def framed (ds : List Direction) (keys : List (Key × Key)) : WindowFrame :=
  let orderKeys := (keys.map (·.2)).toArray
  ⟨(Grouping.ofKeyed (keys.zipIdx.map fun (k, i) => (k.1, i))).map fun g => orderRows orderKeys ds g.members,
    orderKeys, ds⟩

def windowOrder (ds : List Direction) (keys : List (Key × Key)) (row : Nat) : List Nat :=
  orderRows (keys.map (·.2)).toArray ds (partitionOf keys row)

theorem framedOrder : (framed ds keys).rowOrder = keyOrder ds keys := by
  funext a b
  simp [rowOrder, keyOrder, keyOf, orderKey, framed]

theorem partitionInput (keys : List (Key × Key)) (row : Nat) : (partitionOf keys row).Pairwise (· < ·) :=
  List.pairwise_lt_range.filter _

theorem orderRowsPerm (orderKeys : Array Key) (ds : List Direction) (rows : List Nat) :
    (orderRows orderKeys ds rows).Perm rows := by
  refine ((List.mergeSort_perm (rows.map fun r => (orderKeys[r]?.getD [], r)) _).map (·.2)).trans (.of_eq ?_)
  rw [List.map_map]
  exact List.map_id'' (fun _ => rfl) _

theorem orderRowsSorted {orderKeys : Array Key} (input : rows.Pairwise (· < ·)) :
    (orderRows orderKeys ds rows).Pairwise
      (Before fun a b => Key.compareBy ds (orderKeys[a]?.getD []) (orderKeys[b]?.getD [])) := by
  let keyed := rows.map fun r => (orderKeys[r]?.getD [], r)
  have input' : keyed.Pairwise fun a b => a.2 < b.2 := List.pairwise_map.mpr input
  have stable := Key.sortByStable ds input'
  rw [orderRows, List.pairwise_map]
  refine stable.imp_of_mem fun {x y} left right before => ?_
  obtain ⟨a, _, rfl⟩ := List.mem_map.mp (List.mem_mergeSort.mp left)
  obtain ⟨b, _, rfl⟩ := List.mem_map.mp (List.mem_mergeSort.mp right)
  exact before

theorem windowOrderArranges (ds : List Direction) (keys : List (Key × Key)) (row : Nat) :
    Arranges (keyOrder ds keys) (partitionOf keys row) (windowOrder ds keys row) where
  perm := orderRowsPerm ..
  sorted := by
    have own : keyOrder ds keys = fun a b => Key.compareBy ds ((keys.map (·.2)).toArray[a]?.getD [])
        ((keys.map (·.2)).toArray[b]?.getD []) := by
      funext a b
      simp [keyOrder, orderKey]
    rw [own]
    exact orderRowsSorted (partitionInput keys row)

theorem indexedKeys (keys : List (Key × Key)) : (keys.zipIdx.map fun (k, i) => (k.1, i)) =
    (List.range keys.length).map fun row => (partitionKey keys row, row) := by
  refine List.ext_getElem (by simp) fun place inside _ => ?_
  rw [List.length_map, List.length_zipIdx] at inside
  simp [partitionKey, inside]

theorem partitionSame (same : (partitionKey keys a).same (partitionKey keys b) = true) :
    partitionOf keys a = partitionOf keys b := by
  refine List.filter_congr fun other _ => ?_
  rw [Key.sameRight same]

/-- Each row stands in one partition. -/
theorem partitionsPerm (ds : List Direction) (keys : List (Key × Key)) :
    (framed ds keys).partitions.flatten.Perm (List.range keys.length) := by
  have all := Grouping.ofKeyedPerm (keys.zipIdx.map fun (k, i) => (k.1, i))
  have numbered : (keys.zipIdx.map fun (k, i) => (k.1, i)).map (·.2) = List.range keys.length := by
    rw [indexedKeys, List.map_map]
    exact List.map_id'' (fun _ => rfl) _
  rw [numbered] at all
  rw [framed, ← List.flatMap_def]
  exact (List.Perm.flatMap_left _ fun g _ => orderRowsPerm ..).trans all

theorem partitionWhole (listed : rows ∈ (framed ds keys).partitions) :
    ∃ own, rows = windowOrder ds keys own ∧ rows ≠ [] ∧
      ∀ row ∈ rows, partitionOf keys row = partitionOf keys own := by
  rw [framed, Grouping.ofKeyedEq, indexedKeys, List.map_map, List.map_map] at listed
  obtain ⟨key, first, rfl⟩ := List.mem_map.mp listed
  obtain ⟨own, inside, rfl⟩ := List.mem_map.mp ((Grouping.firstsSublist _ _).subset first)
  have whole : Grouping.membersOf ((List.range keys.length).map fun row => (partitionKey keys row, row))
      (partitionKey keys own) = partitionOf keys own := by
    rw [Grouping.membersOf, List.filter_map, List.map_map]
    exact List.map_id'' (fun _ => rfl) _
  have members := (windowOrderArranges ds keys own).perm
  refine ⟨own, ?_, ?_, ?_⟩
  · rw [Function.comp_apply, Function.comp_apply, whole, windowOrder]
  · rw [Function.comp_apply, Function.comp_apply, whole]
    have among : own ∈ partitionOf keys own := List.mem_filter.mpr ⟨inside, Key.sameSelf _⟩
    exact List.ne_nil_of_mem (members.mem_iff.mpr among)
  · intro row member
    rw [Function.comp_apply, Function.comp_apply, whole] at member
    exact partitionSame (List.mem_filter.mp (members.mem_iff.mp member)).2

/-- What a function says of a row among evaluated keys. -/
def answerOf (ds : List Direction) (keys : List (Key × Key)) (func : AggregateFunc) (distinct : Bool)
    (args : Array Value) (row : Nat) : Outcome Value :=
  answer (keyOrder ds keys) (partitionOf keys row) (!ds.isEmpty) (windowOrder ds keys row) func distinct args row

theorem computeScatters (func : AggregateFunc) (distinct : Bool) (args : Array Value) :
    (framed ds keys).compute func distinct args =
      ((framed ds keys).partitions.flatten.mapM fun row =>
        (answerOf ds keys func distinct args row).map fun v => (row, v)).map
          (scatter (args.map fun _ => .null)) := by
  rw [← mapMFlatten (g := (framed ds keys).overPartition func distinct args)]
  · rw [compute]
    cases (framed ds keys).partitions.mapM ((framed ds keys).overPartition func distinct args) <;> rfl
  · intro rows listed
    obtain ⟨own, rfl, some, whole⟩ := partitionWhole listed
    rw [overPartitionEach func distinct args (framedOrder ▸ windowOrderArranges ds keys own)
      (partitionInput keys own) some]
    refine Expr.mapMAlike fun row member => ?_
    rw [answerOf, framedOrder, windowOrder, windowOrder, whole row member]
    rfl

/-- One value for each row, which is what the function says of it. -/
def Answered (ds : List Direction) (keys : List (Key × Key)) (func : AggregateFunc) (distinct : Bool)
    (args values : Array Value) : Prop :=
  values.size = keys.length ∧ ∀ row v, values[row]? = some v → answerOf ds keys func distinct args row = .ok v

variable {func : AggregateFunc} {distinct : Bool} {args values others : Array Value} {e : Error}

theorem answeredEach : Answered ds keys func distinct args values ↔ values.size = keys.length ∧
    ∀ row < keys.length, answerOf ds keys func distinct args row = .ok (values.getD row .null) := by
  refine and_congr_right fun size => ⟨fun each row inside => ?_, fun each row v found => ?_⟩
  · have found := Array.getElem?_eq_getElem (size ▸ inside)
    rw [each row _ found, Array.getD_eq_getD_getElem?, found, Option.getD_some]
  · obtain ⟨inside, _⟩ := Array.getElem?_eq_some_iff.mp found
    rw [each row (size ▸ inside), Array.getD_eq_getD_getElem?, found, Option.getD_some]

instance : Decidable (Answered ds keys func distinct args values) := decidable_of_iff' _ answeredEach

theorem answeredOnce (answered : Answered ds keys func distinct args values)
    (answered' : Answered ds keys func distinct args others) : values = others := by
  refine Array.ext (answered.1.trans answered'.1.symm) fun row inside inside' => ?_
  have own := answered.2 row _ (Array.getElem?_eq_getElem inside)
  have own' := answered'.2 row _ (Array.getElem?_eq_getElem inside')
  exact Except.ok.inj (own.symm.trans own')

theorem computeOk (each : args.size = keys.length) (ok : (framed ds keys).compute func distinct args = .ok values) :
    Answered ds keys func distinct args values := by
  rw [computeScatters] at ok
  obtain ⟨pairs, computed, rfl⟩ := mapOk.mp ok
  have size : (scatter (args.map fun _ => .null) pairs).size = keys.length := by
    rw [scatterSize, Array.size_map, each]
  refine ⟨size, fun row v found => ?_⟩
  obtain ⟨inside, _⟩ := Array.getElem?_eq_some_iff.mp found
  have perm := partitionsPerm ds keys
  have listed := mapMOk.mp computed
  have named : pairs.map (·.1) = (framed ds keys).partitions.flatten := by
    rw [← List.forall₂_eq_eq_eq, List.forall₂_map_left_iff]
    refine listed.flip.imp fun pair other own => ?_
    obtain ⟨v, _, rfl⟩ := mapOk.mp own
    rfl
  have among : row ∈ pairs.map (·.1) := named ▸ perm.mem_iff.mpr (List.mem_range.mpr (size ▸ inside))
  obtain ⟨⟨row, w⟩, member, rfl⟩ := List.mem_map.mp among
  have own := scatterOwn (named ▸ perm.nodup_iff.mpr List.nodup_range) member (scatterSize .. ▸ inside)
  obtain ⟨other, _, given⟩ := alikeMember listed member
  obtain ⟨u, answer, same⟩ := mapOk.mp given
  cases same
  cases found.symm.trans own
  exact answer

theorem computeError (fails : (framed ds keys).compute func distinct args = .error e) :
    ∃ row < keys.length, answerOf ds keys func distinct args row = .error e := by
  rw [computeScatters, mapError] at fails
  obtain ⟨row, listed, own⟩ := mapMError fails
  refine ⟨row, ?_, mapError.mp own⟩
  simpa using (partitionsPerm ds keys).mem_iff.mp listed

theorem computeIff (each : args.size = keys.length) :
    (framed ds keys).compute func distinct args = .ok values ↔ Answered ds keys func distinct args values := by
  refine ⟨computeOk each, fun answered => ?_⟩
  cases computed : (framed ds keys).compute func distinct args with
  | error e =>
      obtain ⟨row, inside, fails⟩ := computeError computed
      have ok := answered.2 row _ (Array.getElem?_eq_getElem (answered.1 ▸ inside))
      cases fails.symm.trans ok
  | ok others => rw [answeredOnce (computeOk each computed) answered]

variable {spec : WindowSpec Expr} {outputs : List Output} {params : List Value}

/-- Each row has the one value that a function says of it in its window, and the function fails only where it has
none to say. -/
theorem computesAnswers (evaluated : outputs.mapM (rowKeys spec params) = .ok keys) :
    let ds := spec.orderBy.map (·.direction)
    ∃ f, build spec outputs params = .ok f ∧ keys.length = outputs.length ∧
      (∀ row, Arranges (keyOrder ds keys) (partitionOf keys row) (windowOrder ds keys row)) ∧
      ∀ func distinct (args : Array Value), args.size = outputs.length →
        (∀ values, f.compute func distinct args = .ok values ↔ Answered ds keys func distinct args values) ∧
        ∀ e, f.compute func distinct args = .error e →
          ∃ row < outputs.length, answerOf ds keys func distinct args row = .error e := by
  have many : keys.length = outputs.length := (mapMOk.mp evaluated).length_eq.symm
  intro ds
  refine ⟨framed ds keys, ?_, many, windowOrderArranges ds keys, fun func distinct args each => ?_⟩
  · rw [build, evaluated]
    rfl
  · refine ⟨fun values => computeIff (each.trans many.symm), fun e fails => ?_⟩
    rw [← many]
    exact computeError fails

def scored (team score : Value) : Output := .ofRow ⟨[], [("team", .value team), ("score", .value score)]⟩

def scores : List Output :=
  [scored (.int 1) (.int 7), scored (.int 2) (.int 9), scored (.float (.ofInt64 1)) (.float (.ofInt64 7)),
    scored (.int 1) .null, scored (.int 1) (.int 8)]

def bestOfTeam : WindowSpec Expr :=
  { base := none, partitionBy := [.column ⟨none, "team"⟩], orderBy := [⟨.column ⟨none, "score"⟩, .desc⟩] }

def scoreKeys : List (Key × Key) :=
  [([.int 1], [.int 7]), ([.int 2], [.int 9]), ([.float (.ofInt64 1)], [.float (.ofInt64 7)]),
    ([.int 1], [.null]), ([.int 1], [.int 8])]

/-- An integer and a double that are equal share a team and a rank, and NULL is last. -/
theorem computesAnswersScored : scores.mapM (rowKeys bestOfTeam []) = .ok scoreKeys ∧
    ∃ f, build bestOfTeam scores [] = .ok f ∧
      f.compute .rank false (scores.map fun _ => .null).toArray = .ok (#[2, 1, 2, 4, 1].map .int) ∧
      f.compute .denseRank false (scores.map fun _ => .null).toArray = .ok (#[2, 1, 2, 3, 1].map .int) := by
  have evaluated : scores.mapM (rowKeys bestOfTeam []) = .ok scoreKeys := by decide +kernel
  obtain ⟨f, built, _, _, answers⟩ := computesAnswers evaluated
  refine ⟨evaluated, f, built, ?_, ?_⟩
  · exact ((answers .rank false _ rfl).1 _).mpr (by decide +kernel)
  · exact ((answers .denseRank false _ rfl).1 _).mpr (by decide +kernel)

end WindowFrame

end RelQuery
