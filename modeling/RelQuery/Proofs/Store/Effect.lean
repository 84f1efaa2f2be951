import RelQuery.Proofs.Store.Storage

/-! What batches do to the rows of a table. Of the replacements of a row each supersedes the one before
it, whatever stands between them; of the rows that a batch of deletions finds by key none is left, and
every other row stays as it is. -/
namespace RelQuery.TableStore
open UniqueIndex

variable {s s' : TableStore} {rows : List Row} {keys : List Key} {key : Key} {id id' : Nat}
  {r old : Row} {e : Error}

/-! Keys depend on the schema alone -/

theorem primaryClear (h : Consistent s) :
    s.primaryIndex?.map UniqueIndex.clear = (new s.schema).primaryIndex? := by
  have schema : (new s.schema).schema = s.schema := rfl
  simp only [primaryIndex?, schema]
  split
  · rfl
  · rw [← h.shape, List.head?_map]

theorem keyOfSchema (h : Consistent s) : s.keyOf = (new s.schema).keyOf := by
  funext r
  simp only [keyOf]
  rw [← primaryClear h]
  cases s.primaryIndex? <;> rfl

theorem keyOfWrites (writes : Writes s s') (h : Consistent s) : s'.keyOf = s.keyOf := by
  rw [keyOfSchema h, keyOfSchema (writesConsistent writes h), writesSchema writes]

theorem keyOfAlike (s : TableStore) (id : r.id = old.id) (values : r.values = old.values) :
    s.keyOf r = s.keyOf old := by
  simp only [keyOf, id, values]

/-! Scans -/

theorem rowsOnce (h : Consistent s) (stored : r ∈ s.rows) (stored' : old ∈ s.rows)
    (same : r.id = old.id) : r = old :=
  Option.some.inj ((same ▸ (memRows h).mp stored).symm.trans ((memRows h).mp stored'))

theorem rowsMap {f : Row → Row} (each : ∀ id, s'.row? id = (s.row? id).map f) :
    s'.rows = s.rows.map f := by
  have same : s'.rowsById = s.rowsById.map fun _ r => f r := by
    ext id : 1
    rw [Std.ExtTreeMap.getElem?_map]
    exact each id
  simp only [TableStore.rows, same, Std.ExtTreeMap.toList_map, List.map_map]
  rfl

theorem rowsFilter {p : Row → Bool} (each : ∀ id, s'.row? id = (s.row? id).filter p) :
    s'.rows = s.rows.filter p := by
  have same : s'.rowsById = s.rowsById.filter fun _ r => p r := by
    ext id : 1
    rw [Std.ExtTreeMap.getElem?_filter, Option.pfilter_eq_filter]
    exact each id
  simp only [TableStore.rows, same, Std.ExtTreeMap.toList_filter, List.filter_map]
  rfl

/-! Replacements -/

theorem updateRowOk (h : Consistent s) (ok : s.updateRow r = .ok (s', key)) :
    ∃ old, s.row? r.id = some old ∧ r.values.length = s.columns.length ∧ key = s.keyOf r ∧
      ∀ id, s'.row? id = if r.id = id then some (supersede old r) else s.row? id := by
  have same := keyOfWrites (.single (updateRowWrite ok)) h
  obtain ⟨width, _, old, replaced, rfl⟩ := updateRowReplaced ok
  obtain ⟨stored, _, _, rfl, _⟩ := replaceOk.mp replaced
  exact ⟨old, stored, width, by rw [same]; rfl, rowReplaced replaced⟩

@[simp] theorem supersedeId (old r : Row) : (supersede old r).id = r.id := rfl

@[simp] theorem supersedeValues (old r : Row) : (supersede old r).values = r.values := rfl

/-- A row after some replacements, of which those with its identifier apply. -/
def superseded (rows : List Row) (old : Row) : Row :=
  (rows.filter (·.id == old.id)).foldl supersede old

theorem supersededNil : superseded [] = fun r => r := rfl

theorem supersededCons (r : Row) (rows : List Row) (old : Row) : superseded (r :: rows) old =
    if r.id = old.id then superseded rows (supersede old r) else superseded rows old := by
  by_cases same : r.id = old.id
  · simp [superseded, same]
  · simp [superseded, same]

theorem updateAllFailed (failed : s.updateRow r = .error e) (rows : List Row) :
    s.updateAll (r :: rows) = (s, .error e) := by
  simp only [updateAll, failed]

theorem updateAllNext (written : s.updateRow r = .ok (s', key)) (rows : List Row) :
    s.updateAll (r :: rows) = ((s'.updateAll rows).1, (s'.updateAll rows).2.map (key :: ·)) := by
  simp only [updateAll, written]

theorem updateAllOk (h : Consistent s) (ok : s.updateAll rows = (s', .ok keys)) :
    keys = rows.map s.keyOf ∧
      (∀ r ∈ rows, (s.row? r.id).isSome ∧ r.values.length = s.columns.length) ∧
      ∀ id, s'.row? id = (s.row? id).map (superseded rows) := by
  induction rows generalizing s keys with
  | nil =>
      cases ok
      exact ⟨rfl, by simp, fun id => by rw [supersededNil, Option.map_id']⟩
  | cons r rows ih =>
      cases first : s.updateRow r with
      | error e =>
          rw [updateAllFailed first] at ok
          cases ok
      | ok result =>
          obtain ⟨next, key⟩ := result
          rw [updateAllNext first, Prod.mk.injEq, Outcome.mapOk] at ok
          obtain ⟨final, keys', rest, rfl⟩ := ok
          obtain ⟨old, stored, width, own, each⟩ := updateRowOk h first
          have write := updateRowWrite first
          -- Keys and widths are those of the schema, which the write leaves alone.
          obtain ⟨keysRest, widths, eachRest⟩ := ih (writeConsistent write h) (Prod.ext final rest)
          rw [keyOfWrites (.single write) h] at keysRest
          have columns : next.columns = s.columns :=
            congrArg TableSchema.columnNames (writeSchema write)
          refine ⟨by rw [own, keysRest]; rfl, fun other member => ?_, fun id => ?_⟩
          · rcases List.mem_cons.mp member with rfl | member
            · exact ⟨by rw [stored]; rfl, width⟩
            · obtain ⟨there, wide⟩ := widths other member
              refine ⟨?_, columns ▸ wide⟩
              rw [each] at there
              split at there
              · rename_i same
                rw [← same, stored]
                rfl
              · exact there
          · rw [eachRest, each]
            by_cases same : r.id = id
            · subst same
              rw [if_pos rfl, stored, Option.map_some, Option.map_some, supersededCons,
                if_pos (h.ids _ _ stored).1.symm]
            · rw [if_neg same]
              refine Option.map_congr fun there found => ?_
              rw [supersededCons, if_neg]
              exact fun clash => same (clash.trans (h.ids _ _ found).1)

/-- A batch of replacements that fails has written the rows before the one that failed. -/
theorem updateAllError (failed : s.updateAll rows = (s', .error e)) : ∃ done r rest keys,
    rows = done ++ r :: rest ∧ s.updateAll done = (s', .ok keys) ∧ s'.updateRow r = .error e := by
  induction rows generalizing s with
  | nil => cases failed
  | cons r rows ih =>
      cases first : s.updateRow r with
      | error cause =>
          rw [updateAllFailed first] at failed
          cases failed
          exact ⟨[], r, rows, [], rfl, rfl, first⟩
      | ok result =>
          obtain ⟨next, key⟩ := result
          rw [updateAllNext first, Prod.mk.injEq, Outcome.mapError] at failed
          obtain ⟨done, stop, others, keys, rfl, written, wrong⟩ := ih (Prod.ext failed.1 failed.2)
          refine ⟨r :: done, stop, others, key :: keys, rfl, ?_, wrong⟩
          rw [updateAllNext first, written]
          rfl

/-! What superseding a row does to it -/

theorem supersededAppend (first rest : List Row) (old : Row) :
    superseded (first ++ rest) old = superseded rest (superseded first old) := by
  induction first generalizing old with
  | nil => rfl
  | cons r first ih =>
      rw [List.cons_append, supersededCons, supersededCons]
      split <;> exact ih _

theorem supersededId (rows : List Row) (old : Row) : (superseded rows old).id = old.id := by
  induction rows generalizing old with
  | nil => rfl
  | cons r rows ih =>
      rw [supersededCons]
      split
      · rename_i same
        exact (ih _).trans same
      · exact ih old

theorem supersededGrows (rows : List Row) (old : Row) :
    old.version ≤ (superseded rows old).version := by
  induction rows generalizing old with
  | nil => exact Nat.le_refl _
  | cons r rows ih =>
      rw [supersededCons]
      split
      · have later := ih (supersede old r)
        simp only [supersede] at later ⊢
        omega
      · exact ih old

theorem supersededNewer (member : r ∈ rows) (same : r.id = old.id) :
    old.version < (superseded rows old).version := by
  obtain ⟨first, rest, rfl⟩ := List.append_of_mem member
  rw [supersededAppend, supersededCons, if_pos (same.trans (supersededId first old).symm)]
  have before := supersededGrows first old
  have later := supersededGrows rest (supersede (superseded first old) r)
  simp only [supersede] at later ⊢
  omega

/-- A copy of a row that was read before the first replacement counts as one version more. -/
theorem supersededVersion {n : Nat} (copies : ∀ r ∈ rows, r.id = old.id → r.version ≤ n)
    (from' : n ≤ old.version) : (superseded rows old).version =
      old.version + (rows.filter (·.id == old.id)).length := by
  induction rows generalizing old with
  | nil => rfl
  | cons r rows ih =>
      have rest : ∀ r' ∈ rows, r'.id = old.id → r'.version ≤ n :=
        fun r' member => copies r' (List.mem_cons_of_mem _ member)
      rw [supersededCons]
      split
      · rename_i same
        have own := copies r List.mem_cons_self same
        have version : (supersede old r).version = old.version + 1 := by
          simp only [supersede]
          omega
        have again : (superseded rows (supersede old r)).version = (supersede old r).version +
            (rows.filter (·.id == (supersede old r).id)).length :=
          ih (fun r' member alike => rest r' member (alike.trans same)) (by omega)
        rw [again, version, supersedeId, same,
          List.filter_cons_of_pos (by simpa using same), List.length_cons]
        omega
      · rename_i apart
        rw [ih rest from', List.filter_cons_of_neg (by simpa using apart)]

theorem supersededValues (rows : List Row) (old : Row) : (superseded rows old).values =
    (((rows.filter (·.id == old.id)).getLast?.map (·.values)).getD old.values) := by
  induction rows generalizing old with
  | nil => rfl
  | cons r rows ih =>
      rw [supersededCons]
      split
      · rename_i same
        rw [ih, supersedeId, supersedeValues, same,
          List.filter_cons_of_pos (by simpa using same), List.getLast?_cons]
        cases (rows.filter (·.id == old.id)).getLast? <;> rfl
      · rename_i apart
        rw [ih, List.filter_cons_of_neg (by simpa using apart)]

/-! Deletions -/

theorem rowWithout (s : TableStore) (id : Nat) (r : Row) (id' : Nat) :
    (s.without id r).row? id' = if id = id' then none else s.row? id' :=
  rowErase s.rowsById id id'

theorem primaryWithout (s : TableStore) (id : Nat) (r : Row) :
    (s.without id r).primaryIndex? = s.primaryIndex?.map (·.erase r.values id) := by
  cases keyless : s.schema.primaryKeyIndices.isEmpty <;> simp [primaryIndex?, without, keyless]

theorem findKeyless (keyless : s.primaryIndex? = none) : s.findByKey key = some id ↔
    ∃ n : Int64, key = [.int n] ∧ 0 ≤ n.toInt ∧ id = n.toInt.toNat ∧ (s.row? id).isSome := by
  simp only [findByKey, keyless]
  split
  · rename_i n
    simp only [Bool.and_eq_true, decide_eq_true_eq, Option.ite_none_right_eq_some,
      Option.some.injEq, List.cons.injEq, Value.int.injEq, and_true, exists_eq_left']
    constructor
    · rintro ⟨⟨natural, there⟩, rfl⟩
      exact ⟨natural, rfl, there⟩
    · rintro ⟨natural, rfl, there⟩
      exact ⟨⟨natural, there⟩, rfl⟩
  · rename_i other
    simp only [reduceCtorEq, false_iff, not_exists, not_and]
    exact fun n same => absurd same (other n)

theorem findStored (h : Consistent s) (found : s.findByKey key = some id) :
    ∃ r, s.row? id = some r := by
  cases primary : s.primaryIndex? with
  | some ix =>
      have covers := h.covered ix (primaryMember primary)
      simp only [findByKey, primary] at found
      obtain ⟨k, _, holds⟩ := findIff.mp found
      obtain ⟨_, r, stored, _⟩ := (covers k id).mp holds
      exact ⟨r, stored⟩
  | none =>
      obtain ⟨_, _, _, _, there⟩ := (findKeyless primary).mp found
      exact Option.isSome_iff_exists.mp there

theorem findWithout (h : Consistent s) (stored : s.row? id = some r) :
    (s.without id r).findByKey key = some id' ↔ id ≠ id' ∧ s.findByKey key = some id' := by
  have primary' := primaryWithout s id r
  cases primary : s.primaryIndex? with
  | some ix =>
      rw [primary, Option.map_some] at primary'
      have covers := h.covered ix (primaryMember primary)
      simp only [findByKey, primary, primary']
      by_cases complete : key.hasNull = false
      · rw [coversFind (coversErase covers stored) complete, coversFind covers complete, keyErase]
        simp only [rowErase]
        by_cases same : id = id' <;> simp [same]
      · have incomplete : key.hasNull = true := by simpa using complete
        rw [coversFindIncomplete (coversErase covers stored) incomplete,
          coversFindIncomplete covers incomplete]
        simp
  | none =>
      rw [primary, Option.map_none] at primary'
      rw [findKeyless primary', findKeyless primary, rowWithout]
      by_cases same : id = id' <;> simp [same]

theorem findDelete (h : Consistent s) (deleted : s.delete key = some s') (k : Key) :
    s'.findByKey k = some id ↔ s.findByKey key ≠ some id ∧ s.findByKey k = some id := by
  obtain ⟨gone, r, found, stored, rfl⟩ := deleteSome.mp deleted
  rw [findWithout h stored, found]
  simp

theorem rowDelete (deleted : s.delete key = some s') (id : Nat) :
    s'.row? id = if s.findByKey key = some id then none else s.row? id := by
  obtain ⟨gone, r, found, stored, rfl⟩ := deleteSome.mp deleted
  rw [rowWithout, found]
  simp

theorem deleteFewer (deleted : s.delete key = some s') (stored : s'.row? id = some r) : s.row? id = some r := by
  rw [rowDelete deleted] at stored
  split at stored
  · cases stored
  · exact stored

theorem deleteNone (h : Consistent s) (kept : s.delete key = none) : s.findByKey key = none := by
  cases found : s.findByKey key with
  | none => rfl
  | some id =>
      obtain ⟨r, stored⟩ := findStored h found
      have deleted := deleteSome.mpr ⟨id, r, found, stored, rfl⟩
      rw [kept] at deleted
      cases deleted

theorem deleteAllRow (h : Consistent s) (keys : List Key) (id : Nat) :
    (s.deleteAll keys).1.row? id =
      if keys.any (s.findByKey · == some id) then none else s.row? id := by
  simp only [deleteAll]
  generalize 0 = n
  -- A key that is gone finds nothing, and no deletion makes a key find another row.
  induction keys generalizing s n with
  | nil => rfl
  | cons key keys ih =>
      rw [List.foldl_cons]
      cases deleted : s.delete key with
      | none =>
          simp only [ih h, List.any_cons, deleteNone h deleted]
          rfl
      | some s' =>
          simp only [ih (writeConsistent (.deleted deleted) h), rowDelete deleted, List.any_cons]
          have finds : keys.any (s'.findByKey · == some id) =
              (s.findByKey key != some id && keys.any (s.findByKey · == some id)) := by
            rw [Bool.eq_iff_iff]
            simp only [List.any_eq_true, beq_iff_eq, Bool.and_eq_true, bne_iff_ne,
              findDelete h deleted]
            constructor
            · rintro ⟨k, member, apart, found⟩
              exact ⟨apart, k, member, found⟩
            · rintro ⟨apart, k, member, found⟩
              exact ⟨k, member, apart, found⟩
          rw [finds]
          by_cases hit : s.findByKey key = some id <;> simp [hit]

theorem deleteAllRows (h : Consistent s) (keys : List Key) : (s.deleteAll keys).1.rows =
    s.rows.filter fun r => !keys.any (s.findByKey · == some r.id) := by
  refine rowsFilter fun id => ?_
  rw [deleteAllRow h]
  cases stored : s.row? id with
  | none => simp
  | some r =>
      rw [Option.filter_some, (h.ids id r stored).1]
      cases keys.any (s.findByKey · == some id) <;> rfl

/-- A row's own key finds no other row. -/
theorem findOwn (h : Consistent s) (small : s.nextRowId ≤ UInt64.size) (stored : r ∈ s.rows)
    (found : s.findByKey (s.keyOf r) = some id) : id = r.id := by
  have there := (memRows h).mp stored
  cases primary : s.primaryIndex? with
  | some ix =>
      have covers := h.covered ix (primaryMember primary)
      simp only [findByKey, keyOf, primary] at found
      obtain ⟨k, same, holds⟩ := findIff.mp found
      obtain ⟨complete, r', stored', rfl⟩ := (covers k id).mp holds
      exact coversOnce covers stored' there complete (Key.orderSymm same)
  | none =>
      obtain ⟨n, own, natural, rfl, _⟩ := (findKeyless primary).mp found
      simp only [keyOf, primary, List.cons.injEq, Value.int.injEq, and_true] at own
      subst own
      have less : r.id < 2 ^ 64 := Nat.lt_of_lt_of_le (h.ids r.id r there).2 small
      simp only [Int64.toInt_ofNat', Int.bmod_def, Int64.size] at natural ⊢
      omega

end RelQuery.TableStore
