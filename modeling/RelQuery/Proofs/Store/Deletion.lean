import Mathlib.Algebra.GroupWithZero.Nat
import RelQuery.Proofs.Grouping
import RelQuery.Proofs.Store.Effect

/-! Rows that their own key finds. A key with a NULL is in no index, and an identifier past the signed
numbers is no key, so a batch of deletions passes over the rows that have such a key. The count of a
batch is the number of rows that it removed. -/
namespace RelQuery

namespace TableStore

variable {s s' : TableStore} {key : Key} {keys : List Key} {id : Nat} {r r' : Row}

/-- Whether a row can be found by its key: no column of its primary key is NULL, or, in a table without
a primary key, its identifier is among the signed numbers of 64 bits. -/
def Addressable (s : TableStore) (r : Row) : Prop :=
  match s.primaryIndex? with
  | some ix => (ix.key r.values).hasNull = false
  | none => r.id < 2 ^ 63

theorem addressableKeyed {ix : UniqueIndex} (primary : s.primaryIndex? = some ix) :
    s.Addressable r ↔ (ix.key r.values).hasNull = false := by
  rw [Addressable, primary]

theorem addressableKeyless (keyless : s.primaryIndex? = none) : s.Addressable r ↔ r.id < 2 ^ 63 := by
  rw [Addressable, keyless]

theorem findOwnIff (h : Consistent s) (small : s.nextRowId ≤ UInt64.size) (stored : r ∈ s.rows) :
    s.findByKey (s.keyOf r) = some id ↔ s.Addressable r ∧ id = r.id := by
  have there := (memRows h).mp stored
  suffices own : s.findByKey (s.keyOf r) = some r.id ↔ s.Addressable r by
    constructor
    · intro found
      cases findOwn h small stored found
      exact ⟨own.mp found, rfl⟩
    · rintro ⟨addressable, rfl⟩
      exact own.mpr addressable
  cases primary : s.primaryIndex? with
  | some ix =>
      have covers := h.covered ix (primaryMember primary)
      rw [addressableKeyed primary]
      simp only [findByKey, keyOf, primary]
      cases incomplete : (ix.key r.values).hasNull with
      | true => simp [UniqueIndex.coversFindIncomplete covers incomplete]
      | false =>
          simp only [iff_true, UniqueIndex.coversFind covers incomplete]
          exact ⟨r, there, Key.orderSelf _⟩
  | none =>
      have less : r.id < 2 ^ 64 := Nat.lt_of_lt_of_le (h.ids r.id r there).2 small
      rw [addressableKeyless primary, findKeyless primary]
      simp only [keyOf, primary, List.cons.injEq, Value.int.injEq, and_true, exists_eq_left',
        Int64.toInt_ofNat', Int.bmod_def, Int64.size, there, Option.isSome_some]
      omega

/-- Two rows whose keys are equal are found alike. -/
theorem findSame (same : Key.order (s.keyOf r) (s.keyOf r') = .eq) :
    s.findByKey (s.keyOf r) = s.findByKey (s.keyOf r') := by
  cases primary : s.primaryIndex? with
  | some ix =>
      simp only [findByKey, keyOf, primary] at same ⊢
      exact Std.ExtTreeMap.getElem?_congr same
  | none =>
      have equal : s.keyOf r = s.keyOf r' := by
        rw [← Key.sameIff] at same
        simpa [keyOf, primary, Key.same, Value.same] using same
      rw [equal]

/-! Counts -/

theorem deleteSize (deleted : s.delete key = some s') : s'.rows.length + 1 = s.rows.length := by
  obtain ⟨id, r, _, stored, rfl⟩ := deleteSome.mp deleted
  have back : (s.rowsById.erase id).insert id r = s.rowsById := by
    rw [UniqueIndex.eraseInsert]
    ext id' : 1
    rw [UniqueIndex.rowInsert]
    split
    · rename_i here
      rw [← here]
      exact stored.symm
    · rfl
  have sizes := Std.ExtTreeMap.size_insert (t := s.rowsById.erase id) (k := id) (v := r)
  rw [back] at sizes
  simp [rows, without, sizes]

theorem deleteAllCount (s : TableStore) (keys : List Key) :
    (s.deleteAll keys).1.rows.length + (s.deleteAll keys).2 = s.rows.length := by
  simp only [deleteAll]
  rw [← Nat.add_zero s.rows.length]
  generalize 0 = n
  induction keys generalizing s n with
  | nil => rfl
  | cons key keys ih =>
      simp only [List.foldl_cons]
      cases deleted : s.delete key with
      | none => exact ih s n
      | some s' =>
          rw [ih s' (n + 1), ← deleteSize deleted]
          omega

theorem deleteAllKeeps (h : Consistent s) (keys : List Key) : (s.deleteAll keys).2 = 0 ↔
    ∀ r ∈ s.rows, r ∈ (s.deleteAll keys).1.rows := by
  have count := deleteAllCount s keys
  rw [deleteAllRows h] at count ⊢
  constructor
  · intro none r stored
    have all : s.rows.filter (fun r => !keys.any (s.findByKey · == some r.id)) = s.rows :=
      List.filter_sublist.eq_of_length (by omega)
    exact all.symm ▸ stored
  · intro kept
    rw [List.filter_eq_self.mpr fun r stored => (List.mem_filter.mp (kept r stored)).2] at count
    omega

end TableStore

end RelQuery
