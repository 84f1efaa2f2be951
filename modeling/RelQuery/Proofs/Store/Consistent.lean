import RelQuery.Proofs.Store.Index

/-! Consistent tables: every index covers the rows, and identifiers stay below the next one. Each write
keeps a table consistent, and taking a logged write back restores the rows and the indexes exactly. -/
namespace RelQuery.TableStore
open UniqueIndex

structure Consistent (s : TableStore) : Prop where
  shape : s.indexes.map UniqueIndex.clear = (TableStore.new s.schema).indexes
  ids : ∀ id r, s.row? id = some r → r.id = id ∧ id < s.nextRowId
  covered : ∀ ix ∈ s.indexes, Covers ix s.rowsById

/-- A table without one of its rows. -/
def without (s : TableStore) (id : Nat) (r : Row) : TableStore :=
  { s with rowsById := s.rowsById.erase id, indexes := s.indexes.map (·.erase r.values id) }

variable {s s' : TableStore} {values : List Value} {id : Nat} {r old fresh : Row}

@[simp] theorem rowNew (schema : TableSchema) (id : Nat) : (new schema).row? id = none := by simp [row?, new]

@[simp] theorem rowClear (s : TableStore) (id : Nat) : s.clear.row? id = none := by simp [row?, clear]

theorem rowInserted (s : TableStore) (values : List Value) (id : Nat) : (s.insertRow values).1.row? id =
    if s.nextRowId = id then some (.new s.nextRowId values) else s.row? id := rowInsert ..

theorem indexesNew {schema : TableSchema} {ix : UniqueIndex} (listed : ix ∈ (new schema).indexes) :
    ∃ name columns, ix = UniqueIndex.new name (schema.indices columns) := by
  have unique {ix : UniqueIndex} (listed : ix ∈ schema.uniqueKeys.map fun key =>
      UniqueIndex.new key.1 (schema.indices key.2)) :
      ∃ name columns, ix = UniqueIndex.new name (schema.indices columns) := by
    obtain ⟨key, _, rfl⟩ := List.mem_map.mp listed
    exact ⟨key.1, key.2, rfl⟩
  simp only [new] at listed
  split at listed
  · exact unique listed
  · rcases List.mem_cons.mp listed with rfl | listed
    · exact ⟨primaryKeyName, schema.primaryKey, rfl⟩
    · exact unique listed

theorem consistentNew (schema : TableSchema) : Consistent (new schema) := by
  refine ⟨?_, ?_, ?_⟩
  · refine (List.map_congr_left ?_).trans (List.map_id _)
    intro ix member
    obtain ⟨name, columns, rfl⟩ := indexesNew member
    rfl
  · intro id r stored
    simp at stored
  · intro ix member
    obtain ⟨name, columns, rfl⟩ := indexesNew member
    exact coversEmpty _ _

theorem consistentAuto (h : Consistent s) (n : Int64) : Consistent { s with nextAuto := n } :=
  ⟨h.shape, h.ids, h.covered⟩

theorem freeOfNoConflict (h : Consistent s) {exempt : Option Nat}
    (none : s.conflict? values exempt = none) {ix : UniqueIndex} (member : ix ∈ s.indexes) :
    Free ix s.rowsById values exempt := by
  have each := List.findSome?_eq_none_iff.mp none ix member
  exact (conflictNone (h.covered ix member)).mp (by simpa using each)

theorem conflictExempt (h : Consistent s) {exempt : Option Nat}
    (all : ∀ id r, s.row? id = some r → some id = exempt) : s.conflict? values exempt = none := by
  refine List.findSome?_eq_none_iff.mpr fun ix member => ?_
  rw [(conflictNone (h.covered ix member)).mpr fun _ id r stored _ => all id r stored, Option.map_none]

theorem conflictStored (h : Consistent s) {exempt : Option Nat} {ix : UniqueIndex}
    (clash : s.conflict? values exempt = some (ix, id)) : ∃ r, s.row? id = some r := by
  obtain ⟨ix', member, found⟩ := List.exists_of_findSome?_eq_some clash
  obtain ⟨id', held, same⟩ := Option.map_eq_some_iff.mp found
  cases same
  simp only [UniqueIndex.conflict?] at held
  split at held
  · cases held
  · rename_i complete
    obtain ⟨holds, _⟩ := Option.filter_eq_some_iff.mp held
    obtain ⟨r, stored, _⟩ := (coversFind (h.covered ix member) (by simpa using complete)).mp holds
    exact ⟨r, stored⟩

theorem nextAbsent (h : Consistent s) : s.rowsById[s.nextRowId]? = none := by
  cases stored : s.rowsById[s.nextRowId]? with
  | none => rfl
  | some r => exact absurd (h.ids _ r stored).2 (Nat.lt_irrefl _)

/-! Writes -/

theorem consistentInsert (h : Consistent s) (none : s.conflict? values none = none) :
    Consistent (s.insertRow values).1 := by
  refine ⟨?_, ?_, ?_⟩
  · simp only [insertRow, List.map_map]
    rw [← h.shape]
    exact List.map_congr_left fun ix _ => clearInsert ix values _
  · intro id r stored
    have next : (s.insertRow values).1.nextRowId = s.nextRowId + 1 := rfl
    rw [rowInserted] at stored
    split at stored
    · cases stored
      exact ⟨‹_›, by omega⟩
    · obtain ⟨same, less⟩ := h.ids id r stored
      exact ⟨same, by omega⟩
  · intro ix member
    obtain ⟨ix, before, rfl⟩ := List.mem_map.mp member
    exact coversInsert (r := Row.new s.nextRowId values) (h.covered ix before) (nextAbsent h)
      (freeOfNoConflict h none before)

theorem consistentOverwrite (h : Consistent s) (stored : s.row? id = some old) (same : fresh.id = id)
    (none : s.conflict? fresh.values (some id) = none) : Consistent (s.overwrite old fresh) := by
  obtain ⟨oldId, less⟩ := h.ids id old stored
  subst oldId
  refine ⟨?_, ?_, ?_⟩
  · simp only [overwrite, List.map_map]
    rw [← h.shape]
    exact List.map_congr_left fun ix _ => by simp
  · intro id r stored'
    simp only [overwrite, row?, rowInsert] at stored' ⊢
    split at stored'
    · cases stored'
      exact ⟨‹_›, by omega⟩
    · exact h.ids id r stored'
  · intro ix member
    obtain ⟨ix, before, rfl⟩ := List.mem_map.mp member
    rw [overwrite, same]
    exact coversOverwrite (h.covered ix before) stored (freeOfNoConflict h none before)

theorem consistentWithout (h : Consistent s) (stored : s.row? id = some r) :
    Consistent (s.without id r) := by
  refine ⟨?_, ?_, ?_⟩
  · simp only [without, List.map_map]
    rw [← h.shape]
    exact List.map_congr_left fun ix _ => clearErase ix r.values id
  · intro id' r' stored'
    simp only [without, row?, rowErase] at stored'
    split at stored'
    · cases stored'
    · exact h.ids id' r' stored'
  · intro ix member
    obtain ⟨ix, before, rfl⟩ := List.mem_map.mp member
    exact coversErase (h.covered ix before) stored

theorem consistentClear (h : Consistent s) : Consistent s.clear := by
  refine ⟨?_, ?_, ?_⟩
  · simp only [clear, List.map_map]
    rw [← h.shape]
    rfl
  · intro id r stored
    simp at stored
  · intro ix member
    obtain ⟨ix, _, rfl⟩ := List.mem_map.mp member
    exact coversClear ix

/-! Taking writes back -/

theorem revertAdded (h : Consistent s) (none : s.conflict? values none = none) :
    (s.insertRow values).1.revert (.added s.nextRowId) =
      { s with nextRowId := s.nextRowId + 1 } := by
  have stored : (s.insertRow values).1.row? s.nextRowId = some (Row.new s.nextRowId values) := by
    simp only [insertRow, row?, rowInsert, Row.new, if_true]
  have rows : (s.rowsById.insert s.nextRowId (Row.new s.nextRowId values)).erase s.nextRowId =
      s.rowsById := eraseBack (nextAbsent h) _
  have indexes : (s.indexes.map (·.insert values s.nextRowId)).map (·.erase values s.nextRowId) =
      s.indexes := by
    rw [List.map_map]
    refine (List.map_congr_left ?_).trans (List.map_id _)
    intro ix member
    exact insertBackOut (r := Row.new s.nextRowId values) (h.covered ix member) (nextAbsent h)
      (freeOfNoConflict h none member)
  simp only [revert, stored]
  simp only [insertRow, Row.new] at rows indexes ⊢
  rw [rows, indexes]

theorem revertReplaced (h : Consistent s) (stored : s.row? id = some old) (same : fresh.id = id)
    (none : s.conflict? fresh.values (some id) = none) :
    (s.overwrite old fresh).revert (.replaced old) = s := by
  have oldId := (h.ids id old stored).1
  have there : (s.overwrite old fresh).row? old.id = some fresh := by
    simp only [overwrite, row?, rowInsert, same, oldId, if_true]
  have rows : (s.rowsById.insert id fresh).insert id old = s.rowsById := insertBack stored fresh
  have indexes : (s.indexes.map fun ix => (ix.erase old.values id).insert fresh.values id).map
      (fun ix => (ix.erase fresh.values id).insert old.values id) = s.indexes := by
    rw [List.map_map]
    refine (List.map_congr_left ?_).trans (List.map_id _)
    intro ix member
    exact overwriteBack (h.covered ix member) stored (freeOfNoConflict h none member)
  simp only [revert, there]
  simp only [overwrite, same, oldId, rows, indexes]

end RelQuery.TableStore
