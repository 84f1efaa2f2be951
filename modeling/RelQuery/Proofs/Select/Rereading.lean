import RelQuery.Proofs.Path.Preserved
import RelQuery.Proofs.Select.Slots

/-! Selecting everything from a query. Its rows are stored and read again by the names of their columns, and
a name finds the first column that has it. So the result of the query comes back exactly if columns of
one name hold the same values. -/
namespace RelQuery

namespace SelectOf

/-- Everything that a query selects, selected again. -/
def everything (q : Select) (name : String) : Select where
  distinct := false
  fields := [.star none]
  sources := [.derived q name]
  joins := []
  condition := none
  groupBy := []
  having := none
  windows := []
  orderBy := []
  limit := none
  offset := none

end SelectOf

namespace JoinRun
open Relational

variable {main : Source} {relation : Relation} {params : List Value}

theorem visitsAlone (s : OpenSource) : visits s [] = (List.range (size s)).map ([·]) :=
  List.map_eq_flatMap.symm

theorem answersAlone (s : OpenSource) : answers s params none [] (visits s []) =
    s.cursor.rows.toList.map fun row => s.pushInto .empty (some row) := by
  have own : members s params [] = visits s [] := by
    rw [visitsAlone, members, exhausted, List.append_nil, fromMain]
  have all : (visits s []).filter (fun lead => (visits s []).contains lead) = visits s [] :=
    List.filter_eq_self.mpr fun lead member => by simpa using member
  simp only [answers, List.reverse_nil, own, all, whereHolds, truth, List.filter_true]
  rw [visitsAlone, List.map_map]
  refine List.ext_getElem (by simp [size]) fun m inside _ => ?_
  have bound : m < s.cursor.rows.size := by simpa [size] using inside
  simp [compose, bound]

/-- A run over a single source without a condition goes through its rows. -/
theorem collectAlone (params : List Value) {evaluate : Source → Outcome Relation}
    (evaluated : evaluate main = .ok relation) :
    ∃ r, start evaluate main [] none params = .ok r ∧
      r.emptyComposition = (opening main relation).pushInto .empty none ∧
      r.collect.2 = .ok (relation.rows.map fun row =>
        (opening main relation).pushInto .empty (some row)) := by
  have opened : ([] : List Join).mapM (openJoin evaluate) = .ok [] := rfl
  obtain ⟨r, started, underway, filter, all⟩ :=
    startUnderway none params (List.nodup_singleton _) evaluated opened
  refine ⟨r, started, ?_, ?_⟩
  · simp only [start, firstRepeated, evaluated] at started
    cases Outcome.pureOk.mp started
    rfl
  · have collected := collectUnderway underway trivial (filter ▸ fun _ _ _ => rfl)
    rw [collected, filter, all]
    exact congrArg Except.ok (answersAlone _)

end JoinRun

namespace Context
variable {ctx : Context} {params : List Value} {levels : Nat} {q : Select} {r : ResultSet}

theorem selectWidth (ok : ctx.selectWithin params levels q = .ok r) :
    ∀ row ∈ r.rows, row.length = r.columns.length := by
  rw [selectWithinEq] at ok
  obtain ⟨q, _, ok⟩ := Outcome.bindOk.mp ok
  unfold SelectOf.evalWith at ok
  split at ok
  · cases ok
  · obtain ⟨run, _, ok⟩ := Outcome.bindOk.mp ok
    obtain ⟨rows, collected, ok⟩ := Outcome.bindOk.mp ok
    refine SelectOf.resultWidth (fun c member => ?_) (JoinRun.emptySlots run) ok
    exact JoinRun.passesSlots (JoinRun.collectPasses collected c member)

end Context

namespace OutputField

variable {name : String} {columns : List String} {params : List Value} {c : Composition} {s : SubRow}

theorem columnKind (name column : String) : (ofColumn name column).kind = .direct := rfl

/-- The columns of a sub-row are read by name, each from the first column of its name. -/
theorem projectSubRow (apart : columns ≠ [] → name ≠ projectionAlias) (found : c.subRow? name = some s)
    (listed : ∀ column ∈ columns, column ∈ s.columns) :
    (project (columns.map (ofColumn name)) params c).map (·.project) =
      .ok (c.project ++ columns.map fun column => s.valueAt (s.columns.idxOf column)) := by
  induction columns generalizing c with
  | nil => exact congrArg Except.ok (List.append_nil _).symm
  | cons column columns ih =>
      have apart : name ≠ projectionAlias := apart (List.cons_ne_nil _ _)
      have place : s.index? column = some (s.columns.idxOf column) :=
        List.findIdx?_eq_some_of_exists ⟨column, listed column List.mem_cons_self, by simp⟩
      have read : (Expr.column ⟨some name, column⟩).eval (.ofRow c params) =
          .ok (s.valueAt (s.columns.idxOf column)) := by
        simp only [Expr.eval, Scope.column, apart, if_false, Scope.ofRow, Composition.column, found,
          SubRow.read?, place, Option.map_some]
      have pushed : pushTo params c (ofColumn name column) =
          .ok (c.pushSlot column (.value (s.valueAt (s.columns.idxOf column)))) := by
        simp only [pushTo, columnKind]
        rw [ofColumn, read]
        rfl
      have step : project ((column :: columns).map (ofColumn name)) params c =
          project (columns.map (ofColumn name)) params
            (c.pushSlot column (.value (s.valueAt (s.columns.idxOf column)))) := by
        rw [project, List.map_cons, List.foldlM_cons, pushed]
        rfl
      have kept : (c.pushSlot column (.value (s.valueAt (s.columns.idxOf column)))).subRow? name =
          some s := found
      rw [step, ih (fun _ => apart) kept fun x member => listed x (List.mem_cons_of_mem _ member)]
      simp [Composition.project, Composition.pushSlot]

/-- Under the alias of the projection there is nothing to read yet. -/
theorem projectReserved (params : List Value) (fresh : c.slots = []) (some : columns ≠ []) :
    ∃ e, project (columns.map (ofColumn projectionAlias)) params c = .error e := by
  obtain ⟨column, columns, rfl⟩ := List.exists_cons_of_ne_nil some
  have none : c.slot? column = .none := by rw [Composition.slot?, fresh, List.lookup_nil]
  have read : (Expr.column ⟨projectionAlias, column⟩).eval (.ofRow c params) =
      .error (.schema (.columnNotFound projectionAlias column)) := by
    simp only [Expr.eval, Scope.column, if_true, Scope.projected, Scope.ofRow, none]
  refine ⟨.schema (.columnNotFound projectionAlias column), ?_⟩
  rw [project, List.map_cons, List.foldlM_cons, pushTo, columnKind]
  simp only [ofColumn, read]
  rfl

end OutputField

namespace SelectOf

theorem everythingPlain (q : Select) (name : String) : (q.everything name).Plain :=
  ⟨rfl, rfl, rfl, rfl, rfl, rfl, rfl⟩

theorem everythingDepth (q : Select) (name : String) :
    Source.depthOfQuery (q.everything name) = Source.depthOfQuery q + 1 := by
  rw [everything, Source.depthOfQuery, Source.depthOfSources, Source.depthOfSources, Source.depth,
    Source.depthOfJoins]
  simp [pathDepth, exprs, fieldExprs]

end SelectOf

namespace ResultSet

/-- A row as it is read by the names of the columns. -/
def reread (r : ResultSet) (values : List Value) : List Value :=
  r.columns.map fun column => values[r.columns.idxOf column]?.getD .null

/-- The composition in which a row is read again. -/
def composed (r : ResultSet) (name : String) (i : Nat) (values : List Value) : Composition :=
  ⟨[(name, ⟨r.columns, some (.new i values), false⟩)], []⟩

end ResultSet

namespace Context

variable {ctx : Context} {params : List Value} {q : Select} {r : ResultSet} {name : String}

theorem selectEverything (ok : ctx.select params q = .ok r) :
    ctx.select params (q.everything name) =
      (((r.rows.mapIdx (r.composed name)).mapM
        (OutputField.project (r.columns.map (OutputField.ofColumn name)) params)).map
          (List.map Composition.project)).map (ResultSet.mk r.columns) := by
  have plain : (q.everything name).hasPath = false := rfl
  have evaluated : ctx.sourceWithin params (Source.depthOfQuery q + 2) (.derived q name) =
      .ok (.ofResult (.new r.columns r.rows)) := by
    rw [sourceWithin]
    exact congrArg (· >>= _) ok
  obtain ⟨run, started, empty, collected⟩ := JoinRun.collectAlone params evaluated
  have fields : OutputField.ofFields run.emptyComposition (q.everything name).fields =
      .ok (r.columns.map (OutputField.ofColumn name)) := by
    rw [empty]
    simp [OutputField.ofFields, OutputField.ofField, SelectOf.everything, OutputField.ofSubRow,
      Relational.opening, OpenSource.start, OpenSource.pushInto, OpenSource.subRow,
      Composition.push, Composition.empty, Relation.ofResult, ResultStore.new, Source.name, bind,
      Except.bind, pure, Except.pure]
  have direct : ∀ f ∈ r.columns.map (OutputField.ofColumn name), f.kind = .direct := by
    intro f member
    obtain ⟨column, _, rfl⟩ := List.mem_map.mp member
    exact OutputField.columnKind name column
  have rows : (Relation.ofResult (.new r.columns r.rows)).rows.map (fun row =>
      (Relational.opening (.derived q name) (.ofResult (.new r.columns r.rows))).pushInto .empty
        (some row)) = r.rows.mapIdx (r.composed name) := by
    refine List.ext_getElem (by simp [Relation.ofResult, ResultStore.new]) fun i _ _ => ?_
    simp only [Relation.ofResult, ResultStore.new, List.getElem_map, List.getElem_mapIdx]
    rfl
  rw [select, SelectOf.everythingDepth, selectWithinEq, SelectOf.expand, plain]
  have alone : (q.everything name).evalWith (ctx.sourceWithin params (Source.depthOfQuery q + 2)) params =
      (q.everything name).result params (r.rows.mapIdx (r.composed name)) run.emptyComposition := by
    rw [← rows]
    refine Eq.trans (congrArg (· >>= _) started) ?_
    exact congrArg (fun collected : Outcome (List Composition) => collected >>= fun rows =>
      (q.everything name).result params rows run.emptyComposition) collected
  refine Eq.trans alone ?_
  rw [SelectOf.resultPlain (SelectOf.everythingPlain q name) fields direct]
  have names : (r.columns.map (OutputField.ofColumn name)).map (·.name) = r.columns := by
    rw [List.map_map]
    exact List.map_id _
  rw [names]
  cases (r.rows.mapIdx (r.composed name)).mapM
    (OutputField.project (r.columns.map (OutputField.ofColumn name)) params) <;> rfl

theorem selectNamed (ok : ctx.select params q = .ok r)
    (apart : r.rows ≠ [] → r.columns ≠ [] → name ≠ projectionAlias) :
    ctx.select params (q.everything name) = .ok ⟨r.columns, r.rows.map r.reread⟩ := by
  have each : ∀ c ∈ r.rows.mapIdx (r.composed name),
      (OutputField.project (r.columns.map (OutputField.ofColumn name)) params c).map (·.project) =
        .ok (r.reread ((c.row? name).elim [] (·.values))) := by
    intro c member
    obtain ⟨i, bound, rfl⟩ := List.mem_mapIdx.mp member
    have found : (r.composed name i r.rows[i]).subRow? name =
        some ⟨r.columns, some (.new i r.rows[i]), false⟩ := by
      simp [Composition.subRow?, ResultSet.composed]
    have own : (r.composed name i r.rows[i]).row? name = some (.new i r.rows[i]) := by
      rw [Composition.row?, found]
      rfl
    have some : r.rows ≠ [] := List.ne_nil_of_length_pos (Nat.zero_lt_of_lt bound)
    rw [OutputField.projectSubRow (apart some) found fun column listed => listed, own]
    rfl
  rw [selectEverything ok, Outcome.mapMEach each]
  refine congrArg (fun rows => Except.ok (ResultSet.mk r.columns rows)) ?_
  refine List.ext_getElem (by simp) fun i _ _ => ?_
  simp [ResultSet.composed, Composition.row?, Composition.subRow?, Row.new]

theorem selectReserved (ok : ctx.select params q = .ok r) (some : r.rows ≠ []) (columns : r.columns ≠ []) :
    ∃ e, ctx.select params (q.everything projectionAlias) = .error e := by
  obtain ⟨values, rows, split⟩ := List.exists_cons_of_ne_nil some
  obtain ⟨e, failed⟩ := OutputField.projectReserved params
    (rfl : (r.composed projectionAlias 0 values).slots = []) columns
  refine ⟨e, ?_⟩
  rw [selectEverything ok, split, List.mapIdx_cons, List.mapM_cons, failed]
  rfl

end Context

namespace ResultSet

theorem rereadIff {r : ResultSet} {values : List Value} (width : values.length = r.columns.length) :
    r.reread values = values ↔ ∀ (i : Nat) (column : String), r.columns[i]? = some column →
      values[i]? = values[r.columns.idxOf column]? := by
  have place {i : Nat} {column : String} (there : r.columns[i]? = some column) :
      (r.reread values)[i]? = values[r.columns.idxOf column]? := by
    have bound : r.columns.idxOf column < values.length :=
      width ▸ List.idxOf_lt_length_of_mem (List.mem_of_getElem? there)
    simp [reread, there, List.getElem?_eq_getElem bound]
  constructor
  · intro same i column there
    rw [← place there, same]
  · intro same
    refine List.ext_getElem? fun i => ?_
    cases there : r.columns[i]? with
    | some column => rw [place there, same i column there]
    | none =>
        have past : r.columns.length ≤ i := List.getElem?_eq_none_iff.mp there
        rw [List.getElem?_eq_none (by simpa [reread] using past), List.getElem?_eq_none (width ▸ past)]

end ResultSet

namespace Context

variable {ctx : Context} {params : List Value} {q : Select} {r : ResultSet}

/-- Selecting everything from a query under some name gives the query's result exactly if every value equals
the one in the first column of the same name, and the name is not that of the projection where there are
values to read. -/
theorem rereads (name : String) (ok : ctx.select params q = .ok r) :
    ctx.select params (q.everything name) = .ok r ↔
      ∀ values ∈ r.rows, ∀ (i : Nat) (column : String), r.columns[i]? = some column →
        name ≠ projectionAlias ∧ values[i]? = values[r.columns.idxOf column]? := by
  have width := selectWidth ok
  by_cases apart : r.rows ≠ [] → r.columns ≠ [] → name ≠ projectionAlias
  · rw [selectNamed ok apart]
    have rows : (Except.ok ⟨r.columns, r.rows.map r.reread⟩ : Outcome ResultSet) = .ok r ↔
        ∀ values ∈ r.rows, r.reread values = values := by
      constructor
      · intro same values member
        have rows : r.rows.map r.reread = r.rows := congrArg ResultSet.rows (Except.ok.inj same)
        exact List.map_inj_left.mp (rows.trans (List.map_id _).symm) values member
      · intro same
        rw [List.map_congr_left same, List.map_id']
    rw [rows]
    refine forall₂_congr fun values member => ?_
    rw [ResultSet.rereadIff (width values member)]
    refine forall₃_congr fun i column there => ?_
    have some : r.rows ≠ [] := List.ne_nil_of_mem member
    have columns : r.columns ≠ [] := List.ne_nil_of_mem (List.mem_of_getElem? there)
    simp [apart some columns]
  -- under the reserved name the columns are taken for output fields, which have no values yet
  · obtain ⟨some, columns, rfl⟩ : r.rows ≠ [] ∧ r.columns ≠ [] ∧ name = projectionAlias := by
      simpa using apart
    obtain ⟨e, failed⟩ := selectReserved ok some columns
    rw [failed]
    obtain ⟨values, rows, split⟩ := List.exists_cons_of_ne_nil some
    obtain ⟨column, rest, names⟩ := List.exists_cons_of_ne_nil columns
    refine iff_of_false nofun fun all => ?_
    exact (all values (split ▸ List.mem_cons_self) 0 column (names ▸ rfl)).1 rfl

/-- The users with their organisations, under a name. -/
def memberships (name : String) : Select where
  distinct := false
  fields := [.expr (.column ⟨none, "id"⟩) none, .expr (.column ⟨none, "org"⟩) (some name)]
  sources := [.table none "users" none]
  joins := []
  condition := none
  groupBy := []
  having := none
  windows := []
  orderBy := []
  limit := none
  offset := none

def membershipRows : List (List Value) := [[.int 1, .int 7], [.int 2, .int 8], [.int 3, .int 7]]

theorem rereadsMemberships :
    (staff "id").select [] (memberships "org") = .ok ⟨["id", "org"], membershipRows⟩ ∧
      (staff "id").select [] ((memberships "org").everything "d") =
        .ok ⟨["id", "org"], membershipRows⟩ := by
  have ok : (staff "id").select [] (memberships "org") = .ok ⟨["id", "org"], membershipRows⟩ := by
    decide +kernel
  refine ⟨ok, (rereads "d" ok).mpr fun values _ i column there => ⟨by decide, ?_⟩⟩
  match i, there with
  | 0, rfl => rfl
  | 1, rfl => rfl

/-- A second column of one name comes back with the values of the first. -/
theorem membershipsMisread :
    (staff "id").select [] (memberships "id") = .ok ⟨["id", "id"], membershipRows⟩ ∧
      (staff "id").select [] ((memberships "id").everything "d") =
        .ok ⟨["id", "id"], [[.int 1, .int 1], [.int 2, .int 2], [.int 3, .int 3]]⟩ ∧
      (staff "id").select [] ((memberships "id").everything "d") ≠
        (staff "id").select [] (memberships "id") := by
  have own : (staff "id").select [] (memberships "id") = .ok ⟨["id", "id"], membershipRows⟩ := by
    decide +kernel
  have again : (staff "id").select [] ((memberships "id").everything "d") =
      .ok ⟨["id", "id"], [[.int 1, .int 1], [.int 2, .int 2], [.int 3, .int 3]]⟩ := by decide +kernel
  refine ⟨own, again, ?_⟩
  rw [own, again]
  decide

end Context

end RelQuery
