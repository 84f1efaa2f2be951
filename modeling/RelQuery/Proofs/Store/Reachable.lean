import RelQuery.Proofs.Store.Batch

/-! The tables that calls can reach from an empty one. In each of them the indexes tell exactly which
row has a key, and a batch of additions that fails changes nothing. -/
namespace RelQuery.TableStore
open UniqueIndex (coversFind coversOnce conflictNone)

/-- Tables that calls make of an empty one, each call successful or not. -/
inductive Reachable (schema : TableSchema) : TableStore → Prop where
  | new : Reachable schema (new schema)
  | addAll {s : TableStore} {σ : Type} (before : Reachable schema s) (rows : List (List Value))
      (columns : List String) (handler : Option (DuplicateHandler σ)) (state : σ) :
      Reachable schema (s.addAll rows columns handler state).store
  | updateAll {s : TableStore} (before : Reachable schema s) (rows : List Row) :
      Reachable schema (s.updateAll rows).1
  | deleteAll {s : TableStore} (before : Reachable schema s) (keys : List Key) :
      Reachable schema (s.deleteAll keys).1
  | clear {s : TableStore} (before : Reachable schema s) : Reachable schema s.clear

variable {schema : TableSchema} {s : TableStore} {k : Key} {id : Nat} {r : Row}
  {values : List Value} {exempt : Option Nat}

theorem reachableWrites (h : Reachable schema s) : Writes (new schema) s := by
  induction h with
  | new => exact .refl
  | addAll _ rows columns handler state ih =>
      exact ih.trans (addAllWrites (writesConsistent ih (consistentNew schema)))
  | updateAll _ rows ih => exact ih.trans (updateAllWrites _ rows)
  | deleteAll _ keys ih => exact ih.trans (deleteAllWrites _ keys)
  | clear _ ih => exact ih.tail .cleared

theorem reachableConsistent (h : Reachable schema s) : Consistent s :=
  writesConsistent (reachableWrites h) (consistentNew schema)

theorem reachableSchema (h : Reachable schema s) : s.schema = schema :=
  writesSchema (reachableWrites h)

/-! What a scan of the rows says -/

theorem memRows (h : Consistent s) : r ∈ s.rows ↔ s.row? r.id = some r := by
  simp only [rows, List.mem_map, Prod.exists, Std.ExtTreeMap.mem_toList_iff_getElem?_eq_some]
  constructor
  · rintro ⟨id, r, stored, rfl⟩
    rwa [(h.ids id r stored).1]
  · intro stored
    exact ⟨r.id, r, stored, rfl⟩

/-- Whether a row, unless it is excepted, has the key of some values. -/
def collides (ix : UniqueIndex) (values : List Value) (exempt : Option Nat) (r : Row) : Bool :=
  some r.id ≠ exempt ∧ Key.order (ix.key r.values) (ix.key values) = .eq

/-- The first conflict that a scan of the rows finds. -/
def scanConflict? (s : TableStore) (values : List Value) (exempt : Option Nat) :
    Option (UniqueIndex × Nat) :=
  s.indexes.findSome? fun ix =>
    if (ix.key values).hasNull then none
    else (s.rows.find? (collides ix values exempt)).map fun r => (ix, r.id)

theorem conflictScanned (h : Consistent s) {ix : UniqueIndex} (member : ix ∈ s.indexes)
    (complete : (ix.key values).hasNull = false) : ix.conflict? values exempt =
      (s.rows.find? (collides ix values exempt)).map (·.id) := by
  cases found : s.rows.find? (collides ix values exempt) with
  | none =>
      refine (conflictNone (h.covered ix member)).mpr fun _ id r stored same => ?_
      have own := (h.ids id r stored).1
      have listed : r ∈ s.rows := (memRows h).mpr (own ▸ stored)
      have apart := List.find?_eq_none.mp found r listed
      simpa [collides, same, own] using apart
  | some r =>
      have stored := (memRows h).mp (List.mem_of_find?_eq_some found)
      have hit := List.find?_some found
      simp only [collides, decide_eq_true_eq] at hit
      have held : ix.find? (ix.key values) = some r.id :=
        (coversFind (h.covered ix member) complete).mpr ⟨r, stored, hit.2⟩
      simp [UniqueIndex.conflict?, complete, held, hit.1]

theorem conflictScan (h : Consistent s) (values : List Value) (exempt : Option Nat) :
    s.conflict? values exempt = s.scanConflict? values exempt := by
  rw [conflict?, scanConflict?, ← List.head?_filterMap, ← List.head?_filterMap]
  refine congrArg List.head? (List.filterMap_congr fun ix member => ?_)
  cases incomplete : (ix.key values).hasNull with
  | true => simp [UniqueIndex.conflict?, incomplete]
  | false =>
      rw [conflictScanned h member incomplete, Option.map_map]
      rfl

theorem primaryMember {ix : UniqueIndex} (primary : s.primaryIndex? = some ix) : ix ∈ s.indexes := by
  simp only [primaryIndex?] at primary
  split at primary
  · cases primary
  · exact List.mem_of_head? primary

/-! A table of seats, each taken by at most one row -/

def seats : TableSchema :=
  { name := "seats"
    columns := [{ Column.new "id" .int64 with nullable := false }, .new "seat" .int64]
    primaryKey := ["id"]
    uniqueKeys := [("by_seat", ["seat"])]
    autoIncrement := true
    engine := "memory" }

def taken : TableStore :=
  ((new seats).addAll [[.int 1, .int 10], [.int 2, .null]] ["id", "seat"] none ()).store

theorem takenReachable : Reachable seats taken := .addAll .new _ _ none ()

/-- In a reachable table the indexes are those of the schema, and each tells which row has a key. -/
theorem reachableIndexed (h : Reachable schema s) :
    s.indexes.map UniqueIndex.clear = (new schema).indexes ∧
      (∀ ix ∈ s.indexes,
        (∀ k id, k.hasNull = false → (ix.find? k = some id ↔
          ∃ r, s.row? id = some r ∧ Key.order (ix.key r.values) k = .eq)) ∧
        ∀ id id' r r', s.row? id = some r → s.row? id' = some r' → (ix.key r.values).hasNull = false →
          Key.order (ix.key r.values) (ix.key r'.values) = .eq → id = id') ∧
      (∀ ix, s.primaryIndex? = some ix → ∀ k, k.hasNull = false → ∀ r,
        s.rowByKey? k = some r ↔ r ∈ s.rows ∧ Key.order (ix.key r.values) k = .eq) ∧
      ∀ values exempt, s.conflict? values exempt = s.scanConflict? values exempt := by
  have consistent := reachableConsistent h
  refine ⟨reachableSchema h ▸ consistent.shape, ?_, ?_, conflictScan consistent⟩
  · intro ix member
    exact ⟨fun k id complete => coversFind (consistent.covered ix member) complete,
      fun id id' r r' => coversOnce (consistent.covered ix member)⟩
  · intro ix primary k complete r
    have covers := consistent.covered ix (primaryMember primary)
    simp only [rowByKey?, findByKey, primary, Option.bind_eq_some_iff, memRows consistent]
    constructor
    · rintro ⟨id, found, stored⟩
      obtain ⟨r', stored', same⟩ := (coversFind covers complete).mp found
      cases stored.symm.trans stored'
      exact ⟨(consistent.ids id r stored).1 ▸ stored, same⟩
    · rintro ⟨stored, same⟩
      exact ⟨r.id, (coversFind covers complete).mpr ⟨r, stored, same⟩, stored⟩

theorem takenIndexed : taken.rowByKey? [.int 2] = some ⟨1, 1, [.int 2, .null]⟩ ∧
    (taken.conflict? [.int 3, .int 10] none).map (fun c => (c.1.name, c.2)) = some ("by_seat", 0) := by
  obtain ⟨_, _, byKey, scan⟩ := reachableIndexed takenReachable
  constructor
  · exact (byKey _ rfl _ (by decide) _).mpr (by decide +kernel)
  · rw [scan]
    decide +kernel

/-- In a reachable table a batch of additions that fails changes nothing. -/
theorem reachableRestored {σ : Type} {rows : List (List Value)} {columns : List String}
    {handler : Option (DuplicateHandler σ)} {state : σ} {e : Error} (h : Reachable schema s)
    (failed : (s.addAll rows columns handler state).keys = .error e) :
    (s.addAll rows columns handler state).store = s :=
  addAllError (reachableConsistent h) failed

def moveTwice : DuplicateHandler Int64 := fun _ _ n =>
  (if n < 2 then .ok (.update [.int (40 + n), .int (30 + n)]) else .refuse (.declined "full"), n + 1)

theorem takenRestored :
    let given := [[.int 1, .int 4], [.int 3, .int 31], [.int 3, .int 5], [.int 5, .int 30]]
    let added := taken.addAll given ["id", "seat"] (some moveTwice) 0
    added.keys = .error (.validation (.declined "full")) ∧ added.store = taken := by
  intro given added
  have failed : added.keys = .error (.validation (.declined "full")) := by decide +kernel
  exact ⟨failed, reachableRestored takenReachable failed⟩

end RelQuery.TableStore
