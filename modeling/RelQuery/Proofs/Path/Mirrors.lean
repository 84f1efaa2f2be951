import RelQuery.Proofs.Join.Places
import RelQuery.Proofs.Path.Referred
import RelQuery.Proofs.Schema.Drafts
import RelQuery.Proofs.Select.Columns
import Std.Data.String.ToNat

/-! What the query of a link reads. Its rows stand for the rows of the table that the link leads to, each with
its key and with what the paths among the selections deliver from it. -/
namespace RelQuery

namespace Context

variable {ctx : Context} {params : List Value} {levels : Nat}

/-- How a query evaluates its sources, where queries among them nest less deep than `levels`. -/
def sourceWithin (ctx : Context) (params : List Value) (levels : Nat) : Source → Outcome Relation
  | .table database name _ => do
      return .ofTable (ctx.tableName database name) (← ctx.store database name)
  | .derived query _ =>
      match levels with
      | 0 => .error (.invalidOperation .nestedTooDeep)
      | levels + 1 => do
          let r ← ctx.selectWithin params levels query
          return .ofResult (.new r.columns r.rows)

theorem selectWithinEq (ctx : Context) (params : List Value) (levels : Nat) (q : Select) :
    ctx.selectWithin params levels q = (do
      let q ← q.expand ctx.catalog ctx.database
      q.evalWith (ctx.sourceWithin params levels) params) := by
  rw [selectWithin.eq_def]
  refine bind_congr fun q => ?_
  refine congrArg (q.evalWith · params) (funext fun source => ?_)
  cases source <;> rfl

/-- An evaluation of sources in which tables are read and queries evaluated, some levels deep. -/
structure Evaluates (ctx : Context) (params : List Value) (evaluate : Source → Outcome Relation) :
    Prop where
  table : ∀ database name rename, evaluate (.table database name rename) =
    (ctx.store database name).map (.ofTable (ctx.tableName database name))
  derived : ∀ query rename relation, evaluate (.derived query rename) = .ok relation →
    ∃ levels r, ctx.selectWithin params levels query = .ok r ∧
      relation = .ofResult (.new r.columns r.rows)

theorem evaluatesWithin (ctx : Context) (params : List Value) (levels : Nat) :
    ctx.Evaluates params (ctx.sourceWithin params levels) := by
  refine ⟨fun database name rename => ?_, fun query rename relation ok => ?_⟩
  · rw [sourceWithin]
    cases ctx.store database name <;> rfl
  · cases levels with
    | zero => cases ok
    | succ levels =>
        obtain ⟨r, selected, last⟩ := Outcome.bindOk.mp ok
        cases Outcome.pureOk.mp last
        exact ⟨levels, r, selected, rfl⟩

theorem evaluatesRelation (ctx : Context) (params : List Value) :
    ctx.Evaluates params (ctx.relation params) := by
  refine ⟨fun database name rename => ?_, fun query rename relation ok => ?_⟩
  · rw [Context.relation]
    cases ctx.store database name <;> rfl
  · obtain ⟨r, selected, last⟩ := Outcome.bindOk.mp ok
    cases Outcome.pureOk.mp last
    exact ⟨_, r, selected, rfl⟩

variable {evaluate : Source → Outcome Relation} {database : Option String} {name : String}
  {rename : Option String} {relation : Relation}

theorem tableRead (evaluates : ctx.Evaluates params evaluate)
    (ok : evaluate (.table database name rename) = .ok relation) :
    ∃ t, ctx.storage.get? ⟨database.getD ctx.database, name⟩ = some t ∧
      relation = .ofTable (ctx.tableName database name) t := by
  rw [evaluates.table] at ok
  obtain ⟨t, stored, same⟩ := Outcome.mapOk.mp ok
  exact ⟨t, Storage.storeOk.mp stored, same.symm⟩

end Context

namespace Link

open Relational

def opened (l : Link) (r : Relation) : JoinSource :=
  ⟨.start l.name true r, .left,
    some (.condition (equation l.name l.key.targetKey l.key.base l.key.baseKey))⟩

variable {l : Link} {evaluate : Source → Outcome Relation} {j : JoinSource} {relation : Relation}

theorem openedOk (ok : JoinRun.openJoin evaluate l.toJoin = .ok j) :
    ∃ r, evaluate (.derived l.query l.name) = .ok r ∧ j = l.opened r := by
  obtain ⟨r, evaluated, last⟩ := Outcome.bindOk.mp ok
  cases Outcome.pureOk.mp last
  exact ⟨r, evaluated, rfl⟩

theorem openedEquated (l : Link) (r : Relation) :
    Equated (l.opened r) l.key.targetKey l.key.base l.key.baseKey := ⟨rfl, rfl⟩

/-- Names that links give to columns. -/
def Numbered (columns : List String) : Prop :=
  ∀ column ∈ columns, ∃ n : Nat, column = "c" ++ toString (n + 1)

def databaseIn (l : Link) (ctx : Context) : String := l.database.getD ctx.database

/-- A relation whose rows stand for rows of the table of a link. -/
structure Mirrors (l : Link) (ctx : Context) (t : TableStore) (r : Relation) (origins : List Row) :
    Prop where
  columns : r.columns = l.key.targetKey :: l.selects.map (·.2)
  stored : ctx.storage.get? ⟨l.databaseIn ctx, l.key.target⟩ = some t
  all : ∀ row, row ∈ origins ↔ row ∈ t.rows
  keys : List.Forall₂ (fun row r => r.values.head? =
    some (ctx.cell (l.databaseIn ctx) l.key.target (some row) l.key.targetKey)) origins r.rows
  selections : ∀ (i : Nat) entry names, l.selects[i]? = some entry → Path.Forward entry.1 names →
    ctx.catalog.Leads (l.databaseIn ctx) l.key.target names → ∃ columns, Numbered columns ∧
      columns.length + 1 = names.length ∧
        List.Forall₂ (fun row r => r.values[i + 1]? =
          some (ctx.delivered (l.databaseIn ctx) l.key.target (some row) names columns)) origins r.rows
  ordered : (∀ entry ∈ l.selects, ∃ names, Path.Forward entry.1 names) → origins = t.rows

/-! Columns by name -/

theorem generatedNodup (n : Nat) : (generated n).Nodup := by
  refine List.nodup_range.map fun a b same => ?_
  have digits : (a + 1).repr = (b + 1).repr := (String.append_right_inj "c").mp same
  exact Nat.succ.inj (Nat.repr_inj.mp digits)

section
variable {columns : List String} {key column : String} {r : Row} {hidden : Bool} {v : Value} {i : Nat}

theorem readFirst (head : r.values.head? = some v) :
    (SubRow.mk (key :: columns) (some r) hidden).read? key = some v := by
  have first : (key :: columns).findIdx? (· == key) = some 0 := by simp [List.findIdx?_cons]
  rw [List.head?_eq_getElem?] at head
  rw [SubRow.read?, SubRow.index?, first, Option.map_some, SubRow.valueAt]
  simp [Row.get?, head]

theorem readLater (distinct : columns.Nodup) (there : columns[i]? = some column)
    (apart : column ≠ key) (stored : r.values[i + 1]? = some v) :
    (SubRow.mk (key :: columns) (some r) hidden).read? column = some v := by
  have place : (key :: columns).findIdx? (· == column) = some (i + 1) := by
    rw [List.findIdx?_cons, if_neg (by simpa using Ne.symm apart), findDistinct distinct there]
    rfl
  rw [SubRow.read?, SubRow.index?, place, Option.map_some, SubRow.valueAt]
  simp [Row.get?, stored]

theorem readPast (listed : column ∈ columns) :
    (SubRow.mk columns none hidden).read? column = some .null := by
  have found : (columns.findIdx? (· == column)).isSome = true := by
    simpa [List.findIdx?_isSome] using listed
  obtain ⟨i, place⟩ := Option.isSome_iff_exists.mp found
  rw [SubRow.read?, SubRow.index?, place]
  rfl

end

/-! What a relation that mirrors a table reads -/

section
variable {ctx : Context} {t : TableStore} {origins : List Row} (mirrors : l.Mirrors ctx t relation origins)
  {p : Nat} {r : Row}
include mirrors

theorem originOf (there : relation.rows[p]? = some r) : ∃ row, origins[p]? = some row ∧ row ∈ t.rows ∧
    r.values.head? = some (ctx.cell (l.databaseIn ctx) l.key.target (some row) l.key.targetKey) := by
  obtain ⟨bound, rfl⟩ := List.getElem?_eq_some_iff.mp there
  have same : p < origins.length := mirrors.keys.length_eq ▸ bound
  refine ⟨origins[p], List.getElem?_eq_getElem same, (mirrors.all _).mp (List.getElem_mem same), ?_⟩
  exact mirrors.keys.get same bound

theorem mirrorOf {row : Row} (stored : row ∈ t.rows) : ∃ (p : Nat) (r : Row),
    relation.rows[p]? = some r ∧ r.values.head? =
      some (ctx.cell (l.databaseIn ctx) l.key.target (some row) l.key.targetKey) := by
  obtain ⟨p, bound, rfl⟩ := List.getElem_of_mem ((mirrors.all row).mpr stored)
  have same : p < relation.rows.length := mirrors.keys.length_eq ▸ bound
  exact ⟨p, relation.rows[p], List.getElem?_eq_getElem same, mirrors.keys.get bound same⟩

theorem unrepeated (fills : ctx.storage.Fills ctx.catalog)
    (single : t.schema.singlePrimaryKey = .ok l.key.targetKey) (once : origins = t.rows) :
    Unrepeated (l.opened relation).source l.key.targetKey := by
  intro p bound q bound' u v read read' same
  have consistent := TableStore.reachableConsistent (fills.reachable _ _ mirrors.stored)
  have rowAt {p : Nat} (bound : p < size (l.opened relation).source) {u : Value}
      (read : ((l.opened relation).source.subRow (l.opened relation).source.cursor.rows[p]?).read?
        l.key.targetKey = some u) : ∃ row, t.rows[p]? = some row ∧
          u = ctx.cell (l.databaseIn ctx) l.key.target (some row) l.key.targetKey := by
    have inside : p < relation.rows.length := by
      simpa [opened, OpenSource.start, Cursor.start, size] using bound
    obtain ⟨r, there⟩ : ∃ r, relation.rows[p]? = some r := ⟨_, List.getElem?_eq_getElem inside⟩
    obtain ⟨row, origin, _, head⟩ := originOf mirrors there
    rw [once] at origin
    refine ⟨row, origin, ?_⟩
    have own : (l.opened relation).source.subRow (l.opened relation).source.cursor.rows[p]? =
        SubRow.mk (l.key.targetKey :: l.selects.map (·.2)) (some r) true := by
      simp [opened, OpenSource.start, Cursor.start, OpenSource.subRow, mirrors.columns, there]
    rw [own, readFirst head] at read
    exact (Option.some.inj read).symm
  obtain ⟨row, there, rfl⟩ := rowAt bound read
  obtain ⟨row', there', rfl⟩ := rowAt bound' read'
  have distinct := TableStore.rowsNodup consistent
  rw [TableStore.keyedOnce consistent single (List.mem_of_getElem? there) (List.mem_of_getElem? there')
    (Context.agreesRead fills mirrors.stored same)
    (Context.agreesRead fills mirrors.stored (Value.agreesSymm same)) same] at there
  obtain ⟨inside, first⟩ := List.getElem?_eq_some_iff.mp there
  obtain ⟨inside', second⟩ := List.getElem?_eq_some_iff.mp there'
  exact (List.Nodup.getElem_inj_iff distinct).mp (first.trans second.symm)

end

end Link

end RelQuery
