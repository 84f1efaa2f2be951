import RelQuery.Proofs.Join.Drawn
import RelQuery.Select.Query

/-! Plain queries. Their rows are those of the join, one for one and in order. Where the fields do nothing
but read columns, each is read beside the sub-rows of the join, with the slots of the fields before it. -/
namespace RelQuery

/-- A column of a query, with the name that the field gives it. -/
abbrev NamedColumn := ColumnRef × Option String

namespace OutputField

variable {columns : List NamedColumn} {params : List Value} {c c' : Composition}

def reading (f : NamedColumn) : OutputField := ⟨f.2.getD f.1.column, .column f.1⟩

theorem readingKind (f : NamedColumn) : (reading f).kind = .direct := rfl

theorem readingDirect (columns : List NamedColumn) : ∀ f ∈ columns.map reading, f.kind = .direct := by
  intro f member
  obtain ⟨_, _, rfl⟩ := List.mem_map.mp member
  exact readingKind _

theorem kindDirect {f : OutputField} :
    f.kind = .direct ↔ f.expr.hasWindow = false ∧ f.expr.hasPlainAggregate = false := by
  unfold kind
  split
  · simp_all
  · split <;> simp_all

theorem directKinds {fields : List OutputField} (direct : ∀ f ∈ fields, f.kind = .direct)
    {k : FieldKind} (other : k ≠ .direct) : ofKind fields k = [] := by
  refine List.filter_eq_nil_iff.mpr fun entry member => ?_
  have listed := (List.mem_zipIdx' member).2 ▸ List.getElem_mem _
  rw [direct _ listed]
  simpa using Ne.symm other

theorem aggregateDirect {fields : List OutputField} (direct : ∀ f ∈ fields, f.kind = .direct) (os : List Output) :
    os.mapM (aggregateInto fields params) = .ok os := by
  refine Outcome.mapMOk.mpr (List.forall₂_same.mpr fun o _ => ?_)
  rw [aggregateInto, directKinds direct (by simp)]
  rfl

/-- How a field is read: among the sub-rows of a composition, with as many slots as fields before it. -/
def Read (c : Composition) (ref : ColumnRef) (i : Nat) (v : Value) : Prop :=
  ∃ s : Scope, s.row.sources = c.sources ∧ s.row.slots.length = c.slots.length + i ∧
    s.projectionFirst = false ∧ (Expr.column ref).eval s = .ok v

/-- The first of some columns is read, and the others are projected beside its slot. -/
theorem projectNext {f : NamedColumn} (ok : project ((f :: columns).map reading) params c = .ok c') :
    ∃ v, (Expr.column f.1).eval (Scope.ofRow c params) = .ok v ∧
      project (columns.map reading) params (c.pushSlot (reading f).name (.value v)) = .ok c' := by
  obtain ⟨pushed, first, ok⟩ := Outcome.bindOk.mp ok
  simp only [pushTo, readingKind] at first
  obtain ⟨v, read, last⟩ := Outcome.bindOk.mp first
  cases Outcome.pureOk.mp last
  exact ⟨v, read, ok⟩

theorem projectColumns (ok : project (columns.map reading) params c = .ok c') :
    ∃ vs, c'.project = c.project ++ vs ∧ vs.length = columns.length ∧
      ∀ i f, columns[i]? = some f → ∃ v, vs[i]? = some v ∧ Read c f.1 i v := by
  induction columns generalizing c with
  | nil =>
      cases ok
      exact ⟨[], by simp, rfl, by simp⟩
  | cons f columns ih =>
      obtain ⟨v, read, ok⟩ := projectNext ok
      obtain ⟨vs, projected, width, each⟩ := ih ok
      refine ⟨v :: vs, ?_, by simp [width], fun i g there => ?_⟩
      · rw [projected]
        simp [Composition.project, Composition.pushSlot]
      · cases i with
        | zero =>
            cases there
            exact ⟨v, rfl, Scope.ofRow c params, rfl, rfl, rfl, read⟩
        | succ i =>
            obtain ⟨w, listed, s, sources, slots, plain, read'⟩ := each i g there
            refine ⟨w, listed, s, sources, ?_, plain, read'⟩
            rw [slots]
            simp only [Composition.pushSlot, List.length_append, List.length_singleton]
            omega

end OutputField

namespace SelectOf

/-- A query without any clause beside its fields and its sources. -/
structure Plain (q : Select) : Prop where
  distinct : q.distinct = false
  groupBy : q.groupBy = []
  having : q.having = none
  windows : q.windows = []
  orderBy : q.orderBy = []
  limit : q.limit = none
  offset : q.offset = none

/-- A query that reads columns, without any further clause. -/
structure ReadsColumns (q : Select) (columns : List NamedColumn) : Prop extends q.Plain where
  some : columns ≠ []
  fields : q.fields = columns.map fun f => .expr (.column f.1) f.2

variable {q : Select} {columns : List NamedColumn} {fields : List OutputField} {params : List Value}
  {rows : List Composition} {empty : Composition} {result : ResultSet}

theorem fieldsRead (reads : q.ReadsColumns columns) :
    OutputField.ofFields empty q.fields = .ok (columns.map OutputField.reading) := by
  have each : (columns.map fun f => Field.expr (.column f.1) f.2).mapM (OutputField.ofField empty) =
      .ok (columns.map fun f => [OutputField.reading f]) := by
    refine Outcome.mapMOk.mpr ?_
    rw [List.forall₂_map_left_iff, List.forall₂_map_right_iff, List.forall₂_same]
    rintro ⟨ref, name⟩ _
    cases name <;> rfl
  have given : (columns.map fun f => Field.expr (.column f.1) f.2).isEmpty = false := by
    simpa using reads.some
  rw [OutputField.ofFields, reads.fields, given]
  simp only [Bool.false_eq_true, if_false, each]
  simp [bind, Except.bind, pure, Except.pure, ← List.map_eq_flatMap, ← List.flatMap_def]

theorem outputsPlain (plain : q.Plain) (direct : ∀ f ∈ fields, f.kind = .direct) :
    q.outputs fields params rows empty =
      (rows.mapM (OutputField.project fields params)).map (List.map Output.ofRow) := by
  have single : q.isGrouped fields = false := by
    rw [isGrouped, plain.groupBy, plain.having, plain.orderBy]
    simp only [List.isEmpty_nil, Bool.not_true, Option.isSome_none, List.any_nil, Bool.or_false,
      Bool.false_or, List.any_eq_false]
    intro f member
    simpa using (OutputField.kindDirect.mp (direct f member)).2
  rw [outputs]
  cases rows.mapM (OutputField.project fields params) with
  | error e => rfl
  | ok projected =>
      simp only [bind, Except.bind, group, single, Bool.false_eq_true, if_false]
      exact OutputField.aggregateDirect direct _

/-- A plain query of direct fields projects each row of the join, and does nothing else. -/
theorem resultPlain (plain : q.Plain) (own : OutputField.ofFields empty q.fields = .ok fields)
    (direct : ∀ f ∈ fields, f.kind = .direct) :
    q.result params rows empty = (rows.mapM (OutputField.project fields params)).map fun projected =>
      ⟨fields.map (·.name), projected.map (·.project)⟩ := by
  rw [SelectOf.result, own]
  simp only [bind, Except.bind, outputsPlain plain direct]
  cases rows.mapM (OutputField.project fields params) with
  | error e => rfl
  | ok projected =>
      have none : q.fillWindows fields params (projected.map Output.ofRow) =
          .ok (projected.map Output.ofRow) := by
        rw [fillWindows, OutputField.directKinds direct (by simp), plain.windows]
        rfl
      simp only [Except.map, filterGroups, plain.having, none, Output.sort, plain.orderBy,
        List.isEmpty_nil, if_true, plain.distinct, Bool.false_eq_true, if_false, plain.limit,
        plain.offset, Page.new, Page.apply, Option.getD_none, List.drop_zero, List.map_map]
      rfl

theorem resultRead (reads : q.ReadsColumns columns) (ok : q.result params rows empty = .ok result) :
    result.columns = columns.map (fun f => f.2.getD f.1.column) ∧
      List.Forall₂ (fun c vs => ∃ c', OutputField.project (columns.map OutputField.reading) params c =
        .ok c' ∧ vs = c'.project) rows result.rows := by
  rw [resultPlain reads.toPlain (fieldsRead reads) (OutputField.readingDirect columns)] at ok
  obtain ⟨projected, each, rfl⟩ := Outcome.mapOk.mp ok
  refine ⟨by simp [OutputField.reading], ?_⟩
  simp only [List.forall₂_map_right_iff]
  exact (Outcome.mapMOk.mp each).imp fun c c' projects => ⟨c', projects, rfl⟩

end SelectOf

end RelQuery
