import Mathlib.Data.List.Nodup
import RelQuery.Schema.Catalog

/-! Schemas that drafts build. Each step keeps the names of a draft and of its columns identifiers, and the
names of its columns apart; a catalog in which such schemas are registered has no other names. -/
namespace RelQuery

theorem Dictionary.memInsert {κ α : Type} [Ord κ] {d : Dictionary κ α} {k k' : κ} {v v' : α}
    (member : (k', v') ∈ d.insert k v) : (k', v') = (k, v) ∨ (k', v') ∈ d := by
  induction d with
  | nil => exact .inl (List.mem_singleton.mp member)
  | cons entry rest ih =>
      simp only [insert] at member
      split at member
      · exact List.mem_cons.mp member
      · exact (List.mem_cons.mp member).imp id (List.mem_cons_of_mem _)
      · rcases List.mem_cons.mp member with same | later
        · exact .inr (same ▸ List.mem_cons_self)
        · exact (ih later).imp id (List.mem_cons_of_mem _)

theorem findDistinct {xs : List String} (distinct : xs.Nodup) {i : Nat} {x : String}
    (there : xs[i]? = some x) : xs.findIdx? (· == x) = some i := by
  obtain ⟨bound, rfl⟩ := List.getElem?_eq_some_iff.mp there
  refine List.findIdx?_eq_some_iff_getElem.mpr ⟨bound, by simp, fun k less => ?_⟩
  simpa using fun same => absurd ((List.Nodup.getElem_inj_iff distinct).mp same) (Nat.ne_of_lt less)

namespace TableDraft

/-- Drafts that steps make, each of which succeeded. -/
inductive Drafted : TableDraft → Prop where
  | new {name : String} {d : TableDraft} (ok : TableDraft.new name = .ok d) : Drafted d
  | column {d d' : TableDraft} (before : Drafted d) {c : Column} (ok : d.addColumn c = .ok d') :
      Drafted d'
  | notNull {d : TableDraft} (before : Drafted d) (names : List String) : Drafted (d.addNotNull names)
  | byDefault {d d' : TableDraft} (before : Drafted d) {name : String} {v : Value}
      (ok : d.addDefault name v = .ok d') : Drafted d'
  | primaryKey {d d' : TableDraft} (before : Drafted d) {names : List String} {auto : Bool}
      (ok : d.addPrimaryKey names auto = .ok d') : Drafted d'
  | unique {d d' : TableDraft} (before : Drafted d) {name : String} {columns : List String}
      (ok : d.addUnique name columns = .ok d') : Drafted d'
  | foreignKey {d d' : TableDraft} (before : Drafted d) {name table : String}
      (ok : d.addForeignKey name table = .ok d') : Drafted d'
  | engine {d : TableDraft} (before : Drafted d) (engine : String) : Drafted (d.setEngine engine)

def IsName (name : String) : Prop := checkName name = .ok ()

structure Named (d : TableDraft) : Prop where
  name : IsName d.name
  columns : ∀ c ∈ d.columns, IsName c.name
  distinct : (d.columns.map (·.name)).Nodup

variable {d d' : TableDraft} {name : String} {t : TableSchema}

theorem namedModify (named : Named d) {f : Column → Column} (same : ∀ c, (f c).name = c.name) :
    Named (d.modifyColumn name f) := by
  have names : (d.modifyColumn name f).columns.map (·.name) = d.columns.map (·.name) := by
    rw [modifyColumn, List.map_map]
    refine List.map_congr_left fun c _ => ?_
    simp only [Function.comp_apply]
    split
    · exact same c
    · rfl
  refine ⟨named.name, fun c member => ?_, names ▸ named.distinct⟩
  have listed : c.name ∈ d.columns.map (·.name) := names ▸ List.mem_map_of_mem member
  obtain ⟨c', own, equal⟩ := List.mem_map.mp listed
  exact equal ▸ named.columns c' own

theorem namedNotNull (named : Named d) (names : List String) : Named (d.addNotNull names) := by
  rw [addNotNull]
  induction names generalizing d with
  | nil => exact named
  | cons name names ih => exact ih (namedModify named fun _ => rfl)

theorem namedColumn (named : Named d) {c : Column} (ok : d.addColumn c = .ok d') : Named d' := by
  obtain ⟨_, checked, ok⟩ := Outcome.bindOk.mp ok
  split at ok
  · cases ok
  · rename_i fresh
    cases Outcome.pureOk.mp ok
    refine ⟨named.name, fun c' member => ?_, ?_⟩
    · rcases List.mem_append.mp member with old | added
      · exact named.columns c' old
      · cases List.mem_singleton.mp added
        exact checked
    · rw [List.map_append, List.map_singleton]
      refine List.nodup_append.mpr ⟨named.distinct, List.nodup_singleton _, fun n old n' own => ?_⟩
      cases List.mem_singleton.mp own
      rintro rfl
      obtain ⟨c', listed, same⟩ := List.mem_map.mp old
      exact fresh (List.any_eq_true.mpr ⟨c', listed, beq_iff_eq.mpr same⟩)

theorem draftedNamed (drafted : Drafted d) : Named d := by
  induction drafted with
  | new ok =>
      obtain ⟨_, checked, ok⟩ := Outcome.bindOk.mp ok
      cases Outcome.pureOk.mp ok
      exact ⟨checked, by simp, List.nodup_nil⟩
  | column _ ok ih => exact namedColumn ih ok
  | notNull _ names ih => exact namedNotNull ih names
  | byDefault _ ok ih =>
      obtain ⟨_, _, ok⟩ := Outcome.bindOk.mp ok
      cases Outcome.pureOk.mp ok
      exact namedModify ih fun _ => rfl
  | primaryKey _ ok ih =>
      unfold addPrimaryKey at ok
      split at ok
      · cases ok
      · obtain ⟨_, _, ok⟩ := Outcome.bindOk.mp ok
        cases Outcome.pureOk.mp ok
        exact ⟨ih.name, ih.columns, ih.distinct⟩
  | unique _ ok ih =>
      obtain ⟨_, _, ok⟩ := Outcome.bindOk.mp ok
      obtain ⟨_, _, ok⟩ := Outcome.bindOk.mp ok
      cases Outcome.pureOk.mp ok
      exact ⟨ih.name, ih.columns, ih.distinct⟩
  | foreignKey _ ok ih =>
      obtain ⟨_, _, ok⟩ := Outcome.bindOk.mp ok
      obtain ⟨_, _, ok⟩ := Outcome.bindOk.mp ok
      cases Outcome.pureOk.mp ok
      exact namedModify ih fun _ => rfl
  | engine _ engine ih => exact ⟨ih.name, ih.columns, ih.distinct⟩

theorem buildOk (ok : d.build = .ok t) : t.name = d.name ∧
    t.columnNames = d.columns.map (·.name) ∧ t.primaryKey = d.primaryKey ∧
      t.autoIncrement = d.autoIncrement ∧ d.checkAutoIncrement = .ok () := by
  obtain ⟨_, checked, ok⟩ := Outcome.bindOk.mp ok
  cases Outcome.pureOk.mp ok
  refine ⟨rfl, ?_, rfl, rfl, checked⟩
  refine List.ext_getElem (by simp [TableSchema.columnNames]) fun i _ _ => ?_
  simp [TableSchema.columnNames]

end TableDraft

namespace TableSchema

/-- A schema that a draft builds. -/
def Built (t : TableSchema) : Prop := ∃ d, TableDraft.Drafted d ∧ d.build = .ok t

variable {t : TableSchema}

theorem indicesLess {names : List String} {i : Nat} (listed : i ∈ t.indices names) : i < t.columns.length := by
  obtain ⟨name, _, found⟩ := List.mem_filterMap.mp listed
  exact (List.findIdx?_eq_some_iff_findIdx_eq.mp found).1

/-- A table that fills its key column by itself has just one. -/
theorem builtAuto (built : t.Built) (auto : t.autoIncrement = true) :
    ∃ column, t.primaryKeyIndices = [column] ∧ column < t.columns.length := by
  obtain ⟨d, drafted, ok⟩ := built
  obtain ⟨_, names, primary, same, checked⟩ := TableDraft.buildOk ok
  rw [TableDraft.checkAutoIncrement, ← same, if_pos auto] at checked
  split at checked
  · rename_i name single
    obtain ⟨c, found, _⟩ := Outcome.bindOk.mp checked
    have listed : name ∈ t.columnNames := by
      unfold TableDraft.column at found
      split at found
      · rename_i there
        have called := List.find?_some there
        rw [names, ← beq_iff_eq.mp called]
        exact List.mem_map_of_mem (List.mem_of_find?_eq_some there)
      · cases found
    have there : (t.index? name).isSome = true := by
      obtain ⟨c, own, called⟩ := List.mem_map.mp listed
      exact List.findIdx?_isSome ▸ List.any_eq_true.mpr ⟨c, own, beq_iff_eq.mpr called⟩
    obtain ⟨column, place⟩ := Option.isSome_iff_exists.mp there
    have own : t.primaryKeyIndices = [column] := by
      rw [primaryKeyIndices, primary, single, indices, List.filterMap_cons_some place, List.filterMap_nil]
    have member : column ∈ t.primaryKeyIndices := own ▸ List.mem_cons_self
    exact ⟨column, own, indicesLess member⟩
  · cases checked

theorem builtDistinct (built : t.Built) : t.columnNames.Nodup := by
  obtain ⟨d, drafted, ok⟩ := built
  rw [(TableDraft.buildOk ok).2.1]
  exact (TableDraft.draftedNamed drafted).distinct

theorem indexDistinct (distinct : t.columnNames.Nodup) {i : Nat} {name : String}
    (there : t.columnNames[i]? = some name) : t.index? name = some i := by
  have place := findDistinct distinct there
  rwa [columnNames, List.findIdx?_map] at place

theorem builtNames (built : t.Built) :
    TableDraft.IsName t.name ∧ ∀ column ∈ t.columnNames, TableDraft.IsName column := by
  obtain ⟨d, drafted, ok⟩ := built
  have named := TableDraft.draftedNamed drafted
  obtain ⟨name, columns, _⟩ := TableDraft.buildOk ok
  refine ⟨name ▸ named.name, fun column member => ?_⟩
  rw [columns] at member
  obtain ⟨c, own, rfl⟩ := List.mem_map.mp member
  exact named.columns c own

end TableSchema

namespace Catalog

/-- Catalogs that hold only schemas that drafts build. -/
inductive Registered : Catalog → Prop where
  | new (database : String) : Registered (new database)
  | register {c c' : Catalog} (before : Registered c) {database : String} {t : TableSchema} (built : t.Built)
      (ok : c.register database t = .ok c') : Registered c'

variable {c : Catalog} {database table : String} {t : TableSchema}

theorem registeredBuilt (registered : Registered c) {name : TableName} (member : (name, t) ∈ c.schemas) :
    t.Built ∧ name.table = t.name := by
  induction registered with
  | new database => cases member
  | register before built ok ih =>
      unfold Catalog.register at ok
      simp only at ok
      split at ok
      · cases ok
      · cases ok
        rcases Dictionary.memInsert member with same | old
        · cases same
          exact ⟨built, rfl⟩
        · exact ih old

theorem lookupMember (found : c.lookup database table = .ok t) : (⟨database, table⟩, t) ∈ c.schemas := by
  unfold lookup at found
  split at found
  · rename_i there
    cases found
    obtain ⟨before, after, split, _⟩ := List.lookup_eq_some_iff.mp there
    rw [split]
    exact List.mem_append_right _ List.mem_cons_self
  · cases found

theorem registeredNames (registered : Registered c) (found : c.lookup database table = .ok t) :
    TableDraft.IsName table ∧ ∀ column ∈ t.columnNames, TableDraft.IsName column := by
  obtain ⟨built, same⟩ := registeredBuilt registered (lookupMember found)
  obtain ⟨name, columns⟩ := TableSchema.builtNames built
  exact ⟨by rwa [← same] at name, columns⟩

end Catalog

end RelQuery
