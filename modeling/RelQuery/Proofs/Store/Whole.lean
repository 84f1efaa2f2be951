import RelQuery.Proofs.Outcome
import RelQuery.Proofs.Schema.Drafts
import RelQuery.Proofs.Store.Effect

/-! Whole rows: a value for each column, and no NULL where the schema declares none. Every row of a table is free of
such NULLs. It has a value for each column as well, unless a handler gave its values, which are stored as they are,
without the check of their number that replacements undergo. -/
namespace RelQuery.TableStore
open UniqueIndex

/-- No column that is declared not nullable has a NULL for its value. -/
def Complete (schema : TableSchema) (values : List Value) : Prop :=
  ∀ (i : Nat) (v : Value) (c : Column), values[i]? = some v → schema.columns[i]? = some c →
    v.isNull = true → c.nullable = true

/-- The tables that calls make of an empty one, where handlers give only such values as are allowed. -/
inductive Handled (allowed : List Value → Prop) (schema : TableSchema) : TableStore → Prop where
  | new : Handled allowed schema (new schema)
  | addAll {s : TableStore} {σ : Type} (before : Handled allowed schema s) (rows : List (List Value))
      (columns : List String) (handler : Option (DuplicateHandler σ)) (state : σ)
      (gives : ∀ decide, handler = some decide → ∀ existing incoming state values,
        (decide existing incoming state).1 = .ok (.update values) → allowed values) :
      Handled allowed schema (s.addAll rows columns handler state).store
  | updateAll {s : TableStore} (before : Handled allowed schema s) (rows : List Row) :
      Handled allowed schema (s.updateAll rows).1
  | deleteAll {s : TableStore} (before : Handled allowed schema s) (keys : List Key) :
      Handled allowed schema (s.deleteAll keys).1
  | clear {s : TableStore} (before : Handled allowed schema s) : Handled allowed schema s.clear

/-- Values that are complete and have the width of the table, or that a handler may have given. -/
def Sound (allowed : List Value → Prop) (s : TableStore) (values : List Value) : Prop :=
  Complete s.schema values ∧
    (values.length = s.schema.columns.length ∨ allowed values ∧ s.indexes ≠ [])

def Whole (allowed : List Value → Prop) (s : TableStore) : Prop :=
  ∀ id r, s.row? id = some r → Sound allowed s r.values

variable {schema : TableSchema} {allowed : List Value → Prop} {s s' : TableStore} {values given : List Value}
  {positions : List Nat} {r fresh old : Row}

theorem completeIff : s.checkNotNull values = .ok () ↔ Complete s.schema values := by
  rw [checkNotNull]
  split
  · rename_i forbidden c found
    refine iff_of_false Outcome.refuseOk fun complete => ?_
    obtain ⟨i, there⟩ := List.mem_iff_getElem?.mp (List.mem_of_find?_eq_some found)
    obtain ⟨value, column⟩ := List.getElem?_zip_eq_some.mp there
    have null := List.find?_some found
    simp only [Bool.and_eq_true, Bool.not_eq_true'] at null
    exact Bool.false_ne_true (null.2.symm.trans (complete i _ c value column null.1))
  · rename_i none
    refine iff_of_true rfl fun i v c value column null => ?_
    have member : (v, c) ∈ values.zip s.schema.columns :=
      List.mem_of_getElem? (List.getElem?_zip_eq_some.mpr ⟨value, column⟩)
    simpa [null] using List.find?_eq_none.mp none (v, c) member

theorem handledReachable (handled : Handled allowed schema s) : Reachable schema s := by
  induction handled with
  | new => exact .new
  | addAll _ _ _ _ _ _ ih => exact .addAll ih _ _ _ _
  | updateAll _ rows ih => exact .updateAll ih rows
  | deleteAll _ keys ih => exact .deleteAll ih keys
  | clear _ ih => exact .clear ih

theorem reachableHandled (reachable : Reachable schema s) : Handled (fun _ => True) schema s := by
  induction reachable with
  | new => exact .new
  | addAll _ rows columns handler state ih =>
      exact .addAll ih rows columns handler state fun _ _ _ _ _ _ _ => trivial
  | updateAll _ rows ih => exact .updateAll ih rows
  | deleteAll _ keys ih => exact .deleteAll ih keys
  | clear _ ih => exact .clear ih

/-! What each write leaves whole -/

theorem wholeMore (whole : Whole allowed s) (schema : s'.schema = s.schema)
    (indexes : s'.indexes = [] → s.indexes = [])
    (rows : ∀ id r, s'.row? id = some r → s.row? id = some r ∨ Sound allowed s r.values) : Whole allowed s' := by
  intro id r stored
  have sound : Sound allowed s r.values := (rows id r stored).elim (whole id r) fun sound => sound
  obtain ⟨complete, width⟩ := sound
  rw [Sound, schema]
  exact ⟨complete, width.imp_right fun ⟨own, indexed⟩ => ⟨own, mt indexes indexed⟩⟩

theorem assignWidth (assigned : s.assignAuto given = .ok (s', values)) : values.length = given.length := by
  simp only [assignAuto] at assigned
  split at assigned
  · cases assigned
    rfl
  · split at assigned
    · cases assigned
      exact List.length_set ..
    · cases assigned
      rfl
    · cases assigned
      rfl
    · cases assigned

theorem wholeInserted (whole : Whole allowed s) (sound : Sound allowed s values) :
    Whole allowed (s.insertRow values).1 := by
  refine wholeMore whole rfl (fun empty => List.map_eq_nil_iff.mp empty) fun id r stored => ?_
  rw [rowInserted] at stored
  split at stored
  · cases stored
    exact .inr sound
  · exact .inl stored

theorem wholeReplaced (whole : Whole allowed s) (replaced : s.replace r = .ok (s', fresh, old))
    (width : r.values.length = s.schema.columns.length ∨ allowed r.values ∧ s.indexes ≠ []) :
    Whole allowed s' := by
  have rows := rowReplaced replaced
  obtain ⟨_, complete, _, rfl, _⟩ := replaceOk.mp replaced
  obtain ⟨_, _, _, n, rfl⟩ := replaceCounts replaced
  refine wholeMore whole rfl (fun empty => List.map_eq_nil_iff.mp empty) fun id r' stored => ?_
  rw [rows] at stored
  split at stored
  · cases stored
    exact .inr ⟨completeIff.mp complete, width⟩
  · exact .inl stored

theorem wholeRow {σ : Type} {p p' : Progress σ} {handler : Option (DuplicateHandler σ)}
    (ok : Progress.addRow positions handler p given = .ok p')
    (gives : ∀ decide, handler = some decide → ∀ existing incoming state values,
      (decide existing incoming state).1 = .ok (.update values) → allowed values)
    (whole : Whole allowed p.store) : Whole allowed p'.store := by
  obtain ⟨s, values, assigned, complete, kept⟩ := addRowDone ok
  have width := (assignWidth assigned).trans (layoutLength ..)
  obtain ⟨n, rfl⟩ := assignAutoCounts assigned
  have counted : Whole allowed { p.store with nextAuto := n } := whole
  rcases kept with ⟨_, rfl⟩ | ⟨same, _⟩ | ⟨r, fresh, old, replaced, _, clash, decide, existing, own, decided⟩
  · exact wholeInserted counted ⟨completeIff.mp complete, .inl width⟩
  · rwa [same]
  · have indexed : p.store.indexes ≠ [] := by
      intro empty
      simp [TableStore.conflict?, empty] at clash
    exact wholeReplaced counted replaced (.inr ⟨gives decide own existing _ _ r.values decided, indexed⟩)

theorem handledSound (handled : Handled allowed schema s) : Whole allowed s := by
  induction handled with
  | new =>
      intro id r stored
      simp at stored
  | addAll before rows columns handler state gives ih =>
      exact addAllKept (reachableConsistent (handledReachable before)) ih
        fun positions p given p' _ ok => wholeRow ok gives
  | updateAll _ rows ih =>
      refine updateAllKept ih fun s s' r key ok whole => ?_
      obtain ⟨width, _, _, replaced, _⟩ := updateRowReplaced ok
      rw [columns, TableSchema.columnNames, List.length_map] at width
      exact wholeReplaced whole replaced (.inl width)
  | deleteAll _ keys ih =>
      refine deleteAllKept ih fun s s' key deleted whole => ?_
      obtain ⟨_, _, _, _, same⟩ := deleteSome.mp deleted
      refine wholeMore whole (writeSchema (.deleted deleted)) (fun empty => ?_)
        fun id r stored => .inl (deleteFewer deleted stored)
      rw [same] at empty
      exact List.map_eq_nil_iff.mp empty
  | clear _ ih =>
      refine wholeMore ih rfl (fun empty => List.map_eq_nil_iff.mp empty) fun id r stored => ?_
      simp at stored

/-! What a handler can give -/

theorem givenRange {n i : Nat} {v : Value} (width : values.length = n) (there : values[i]? = some v) :
    given? (List.range n) values i = some v := by
  obtain ⟨bound, _⟩ := List.getElem?_eq_some_iff.mp there
  have member : (i, v) ∈ ((List.range n).zip values).reverse := by
    refine List.mem_reverse.mpr (List.mem_of_getElem? (List.getElem?_zip_eq_some.mpr ⟨?_, there⟩))
    exact List.getElem?_range (width ▸ bound)
  rw [given?]
  cases found : ((List.range n).zip values).reverse.find? (·.1 == i) with
  | none => exact absurd BEq.rfl (List.find?_eq_none.mp found _ member)
  | some entry =>
      obtain ⟨j, own⟩ := List.mem_iff_getElem?.mp (List.mem_reverse.mp (List.mem_of_find?_eq_some found))
      obtain ⟨place, value⟩ := List.getElem?_zip_eq_some.mp own
      obtain ⟨_, same⟩ := List.getElem?_eq_some_iff.mp place
      have here := List.find?_some found
      rw [List.getElem_range] at same
      rw [same, eq_of_beq here, there] at value
      exact value.symm

theorem layoutWhole (same : s.schema = schema) (width : values.length = schema.columns.length) :
    s.layout (List.range schema.columns.length) values = values := by
  subst same
  refine List.ext_getElem (by simp [layout, width]) fun i _ bound => ?_
  simp [layout, givenRange width (List.getElem?_eq_getElem bound)]

theorem positionsAll (same : s.schema = schema) (distinct : schema.columnNames.Nodup) :
    schema.columnNames.mapM s.position = .ok (List.range schema.columns.length) := by
  subst same
  refine Outcome.mapMOk.mpr (List.forall₂_iff_get.mpr ⟨by simp [TableSchema.columnNames], fun i bound _ => ?_⟩)
  have place := TableSchema.indexDistinct distinct (List.getElem?_eq_getElem bound)
  simp [position, place]

/-- A row of ones, which satisfies every declaration that columns are not nullable. -/
def ones (schema : TableSchema) : List Value := schema.columns.map fun _ => .int 1

theorem onesLength (schema : TableSchema) : (ones schema).length = schema.columns.length := List.length_map ..

theorem onesAt {column : Nat} (inside : column < schema.columns.length) :
    Row.valueAt (ones schema) column = .int 1 := by
  simp [Row.valueAt, ones, inside]

theorem onesComplete (schema : TableSchema) : Complete schema (ones schema) := by
  intro i v c value _ null
  obtain ⟨_, _, rfl⟩ := List.mem_map.mp (List.mem_of_getElem? value)
  cases null

/-- A row of ones keeps its values, whatever the counter says. -/
theorem onesAssigned (consistent : Consistent s) (same : s.schema = schema) : ∃ s',
    s.assignAuto (s.layout (List.range schema.columns.length) (ones schema)) = .ok (s', ones schema) ∧
      Consistent s' ∧ s'.schema = schema ∧ s'.row? = s.row? := by
  rw [layoutWhole same (onesLength schema)]
  subst same
  cases own : s.autoColumn? with
  | none => exact ⟨s, by simp only [assignAuto, own], consistent, rfl, rfl⟩
  | some column =>
      have listed : column ∈ s.schema.primaryKeyIndices := by
        rw [autoColumn?] at own
        split at own
        · exact List.mem_of_head? own
        · cases own
      have one := onesAt (TableSchema.indicesLess listed)
      exact ⟨s.reserve 1, by simp only [assignAuto, own, one], consistentAuto consistent _, rfl, rfl⟩

theorem indexesEmpty (consistent : Consistent s) (same : s.schema = schema) :
    s.indexes = [] ↔ (new schema).indexes = [] := by
  rw [← same, ← consistent.shape, List.map_eq_nil_iff]

theorem indexColumns (consistent : Consistent s) {ix : UniqueIndex} (member : ix ∈ s.indexes) :
    ∃ names, ix.columns = s.schema.indices names := by
  have shaped : ix.clear ∈ (new s.schema).indexes := consistent.shape ▸ List.mem_map_of_mem member
  obtain ⟨name, names, same⟩ := indexesNew shaped
  exact ⟨names, congrArg UniqueIndex.columns same⟩

/-- A second row of ones meets the first in every index. -/
theorem onesClash (consistent : Consistent s) (same : s.schema = schema) (indexed : (new schema).indexes ≠ [])
    {id : Nat} (stored : s.row? id = some r) (own : r.values = ones schema) :
    ∃ ix id existing, s.conflict? (ones schema) none = some (ix, id) ∧ s.row? id = some existing := by
  subst same
  cases clash : s.conflict? (ones s.schema) none with
  | some entry =>
      obtain ⟨existing, there⟩ := conflictStored consistent clash
      exact ⟨entry.1, entry.2, existing, rfl, there⟩
  | none =>
      have present : s.indexes ≠ [] := mt (indexesEmpty consistent rfl).mp indexed
      obtain ⟨ix, rest, split⟩ := List.exists_cons_of_ne_nil present
      have member : ix ∈ s.indexes := split ▸ List.mem_cons_self
      obtain ⟨names, columns⟩ := indexColumns consistent member
      have complete : (ix.key (ones s.schema)).hasNull = false := by
        refine List.any_eq_false.mpr fun v listed => ?_
        obtain ⟨column, inside, rfl⟩ := List.mem_map.mp listed
        rw [onesAt (TableSchema.indicesLess (columns ▸ inside))]
        exact Bool.false_ne_true
      cases freeOfNoConflict consistent clash member complete id r stored (own ▸ Key.orderSelf _)

/-- A table with one row of ones. -/
def single (schema : TableSchema) : TableStore :=
  ((new schema).addAll [ones schema] schema.columnNames none ()).store

theorem singleHandled (schema : TableSchema) : Handled allowed schema (single schema) :=
  .addAll .new _ _ _ _ fun decide own => by cases own

theorem singleRow (distinct : schema.columnNames.Nodup) :
    ∃ id, ∀ id' r, (single schema).row? id' = some r ↔ id = id' ∧ r = .new id (ones schema) := by
  have own : (new schema).schema = schema := rfl
  obtain ⟨s, assigned, consistent, same, rows⟩ := onesAssigned (consistentNew schema) own
  have free : s.conflict? (ones schema) none = none :=
    conflictExempt consistent fun id r stored => by simp [rows] at stored
  have added : Progress.addRow (List.range schema.columns.length) none ⟨new schema, (), [], #[]⟩
      (ones schema) = .ok _ :=
    addRowAdded (by rw [onesLength, List.length_range]) assigned
      (completeIff.mpr (same ▸ onesComplete schema)) free
  refine ⟨s.nextRowId, fun id r => ?_⟩
  rw [single, addAllSingle (positionsAll own distinct) added]
  rw [Progress.added, rowInserted, rows, rowNew]
  simp [eq_comm]

/-- A handler that always has the same values stored. -/
def putting (values : List Value) : DuplicateHandler Unit := fun _ _ state => (.ok (.update values), state)

/-- Complete values that a handler gives for the first of two rows of ones are stored. -/
theorem handledGiven (distinct : schema.columnNames.Nodup) (indexed : (new schema).indexes ≠ [])
    (allow : allowed values) (complete : Complete schema values) :
    ∃ s, Handled allowed schema s ∧ ∃ r ∈ s.rows, r.values = values := by
  have before : Handled allowed schema (single schema) := singleHandled schema
  have same := reachableSchema (handledReachable before)
  obtain ⟨only, row⟩ := singleRow distinct
  obtain ⟨s, assigned, consistent, declared, rows⟩ :=
    onesAssigned (reachableConsistent (handledReachable before)) same
  have stored : s.row? only = some (.new only (ones schema)) := rows ▸ (row _ _).mpr ⟨rfl, rfl⟩
  obtain ⟨ix, id, existing, clash, there⟩ := onesClash consistent declared indexed stored rfl
  have alone (id' : Nat) (r : Row) (stored : s.row? id' = some r) : only = id' :=
    ((row _ _).mp (rows ▸ stored)).1
  have replaced : s.replace (.new id values) = .ok _ := replaceOk.mpr ⟨there,
    completeIff.mpr (declared ▸ complete),
    conflictExempt consistent fun id' r stored => congrArg some ((alone id' r stored).symm.trans (alone id _ there)),
    rfl, rfl⟩
  obtain ⟨p, added, after⟩ : ∃ p, Progress.addRow (List.range schema.columns.length) (some (putting values))
      ⟨single schema, (), [], #[]⟩ (ones schema) = .ok p ∧ p.store = _ :=
    addRowReplaced (by rw [onesLength, List.length_range]) assigned
      (completeIff.mpr (declared ▸ onesComplete schema)) clash there rfl replaced
  have handled : Handled allowed schema p.store := by
    have call := addAllSingle (positionsAll same distinct) added
    have made := Handled.addAll before [ones schema] schema.columnNames (some (putting values)) ()
      fun decide own existing incoming state given gives => by
        cases own
        cases gives
        exact allow
    rwa [call] at made
  refine ⟨p.store, handled, supersede existing (.new id values), ?_, rfl⟩
  rw [memRows (reachableConsistent (handledReachable handled)), after, rowReplaced replaced]
  exact if_pos rfl

/-- No row has a NULL that the schema forbids. Each row has a value for each column exactly if handlers are never
asked, for lack of a unique key, or give a value for each column wherever they give no forbidden NULL. -/
theorem handledWhole (allowed : List Value → Prop) (built : schema.Built) :
    (∀ s, Reachable schema s → ∀ r ∈ s.rows, Complete schema r.values) ∧
    ((∀ s, Handled allowed schema s → ∀ r ∈ s.rows, r.values.length = schema.columns.length) ↔
      (new schema).indexes = [] ∨
        ∀ values, allowed values → Complete schema values → values.length = schema.columns.length) := by
  refine ⟨fun s reachable r listed => ?_, ⟨fun whole => ?_, fun given s handled r listed => ?_⟩⟩
  · have stored := (memRows (reachableConsistent reachable)).mp listed
    exact reachableSchema reachable ▸ (handledSound (reachableHandled reachable) r.id r stored).1
  · by_cases indexed : (new schema).indexes = []
    · exact .inl indexed
    · refine .inr fun values allow complete => ?_
      obtain ⟨s, handled, r, listed, rfl⟩ :=
        handledGiven (TableSchema.builtDistinct built) indexed allow complete
      exact whole s handled r listed
  · have reachable := handledReachable handled
    have consistent := reachableConsistent reachable
    have same := reachableSchema reachable
    obtain ⟨complete, width⟩ := handledSound handled r.id r ((memRows consistent).mp listed)
    rw [same] at complete width
    rcases width with width | ⟨allow, indexed⟩
    · exact width
    · rcases given with empty | full
      · exact absurd ((indexesEmpty consistent same).mpr empty) indexed
      · exact full r.values allow complete

/-! Lockers that are held under one number each -/

def lockers : TableSchema :=
  { name := "lockers"
    columns := [{ Column.new "number" .int64 with nullable := false }, { Column.new "holder" .string with index := 1 }]
    primaryKey := ["number"]
    uniqueKeys := []
    autoIncrement := false
    engine := "memory" }

theorem lockersBuilt : lockers.Built := by
  have ok : (do
      let d ← TableDraft.new "lockers"
      let d ← d.addColumn (.new "number" .int64)
      let d ← d.addColumn (.new "holder" .string)
      let d ← (d.addNotNull ["number"]).addPrimaryKey ["number"] false
      d.build) = .ok lockers := by decide +kernel
  obtain ⟨d, new, ok⟩ := Outcome.bindOk.mp ok
  obtain ⟨d, number, ok⟩ := Outcome.bindOk.mp ok
  obtain ⟨d, holder, ok⟩ := Outcome.bindOk.mp ok
  obtain ⟨d, key, ok⟩ := Outcome.bindOk.mp ok
  exact ⟨d, .primaryKey (.notNull (.column (.column (.new new) number) holder) _) key, ok⟩

def handedOut : TableStore :=
  ((new lockers).addAll [[.int 7, .string "a"]] ["number", "holder"] none ()).store

/-- A locker that is given twice, where the handler has some values stored. -/
def regiven (values : List Value) : TableStore :=
  (handedOut.addAll [[.int 7, .string "b"]] ["number", "holder"] (some (putting values)) ()).store

theorem regivenHandled (allow : allowed values) : Handled allowed lockers (regiven values) := by
  have before : Handled allowed lockers handedOut := .addAll .new _ _ _ _ fun decide own => by cases own
  refine .addAll before _ _ _ _ fun decide own existing incoming state values gives => ?_
  cases own
  cases gives
  exact allow

theorem handledWholeLockers :
    (∀ r ∈ (regiven [.int 8]).rows, Complete lockers r.values) ∧
      (∀ r ∈ (regiven [.int 8, .null]).rows, r.values.length = 2) ∧
        ¬∀ s, Handled (· = [.int 8]) lockers s → ∀ r ∈ s.rows, r.values.length = 2 := by
  have short : Handled (· = [.int 8]) lockers (regiven [.int 8]) := regivenHandled rfl
  obtain ⟨complete, narrow⟩ := handledWhole (· = [.int 8]) lockersBuilt
  obtain ⟨_, wide⟩ := handledWhole (·.length = 2) lockersBuilt
  have moved : Handled (·.length = 2) lockers (regiven [.int 8, .null]) := regivenHandled rfl
  have width := wide.mpr (.inr fun _ width _ => width) _ moved
  refine ⟨complete _ (handledReachable short), width, fun all => ?_⟩
  rcases narrow.mp all with empty | full
  · exact absurd (congrArg List.isEmpty empty) (by decide +kernel)
  · exact absurd (full [.int 8] rfl ((completeIff (s := new lockers)).mp (by decide +kernel))) (by decide)

/-- A locker that is given twice can be left without a holder, not even NULL. -/
theorem regivenShort : Reachable lockers (regiven [.int 8]) ∧
    ∃ r ∈ (regiven [.int 8]).rows, r.values.length ≠ lockers.columns.length :=
  ⟨.addAll (.addAll .new _ _ _ _) _ _ _ _, ⟨0, 2, [.int 8]⟩, by decide +kernel, by decide⟩

end RelQuery.TableStore
