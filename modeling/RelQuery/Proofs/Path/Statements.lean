import RelQuery.Proofs.Path.Rewriting
import RelQuery.Select.Query

/-! What an expansion makes of statements. Each clause has columns in the places of its references, a star
reference among the fields stands for one reference to each column, and the joins of the links follow
those of the statement. -/
namespace RelQuery

namespace PathScope

variable {s : PathScope} {allowed : Reference → Prop}

/-- The references that a star reference stands for. -/
def starReferences? (s : PathScope) (name : Option String) (reference : String) :
    Option (List Reference) :=
  match s.resolve name reference with
  | .error _ => none
  | .ok (base, _, last) =>
      if last.selectsAll then
        match s.catalog.lookup (s.databaseOf base) last.target.table with
        | .error _ => none
        | .ok table => some (table.columnNames.map fun column => (name, stem reference ++ column))
      else none

/-- The references that a field stands for. -/
def fieldReferences (s : PathScope) : Field → List Reference
  | .expr (.path name reference) _ => (s.starReferences? name reference).getD [(name, reference)]
  | .expr e _ => Expr.references e.nodes
  | .star _ => []

def linkedField (s : PathScope) (σ : Reference → ColumnRef) : Field → List Field
  | .expr (.path name reference) rename =>
      match s.starReferences? name reference with
      | some ps => ps.map fun p => .expr (.column (σ p)) (some p.2)
      | none => [.expr (.column (σ (name, reference))) (some (rename.getD reference))]
  | .expr e rename =>
      [if e.hasPath then .expr (e.linked σ) (some (rename.getD e.text)) else .expr e rename]
  | .star source => [.star source]

theorem followStar {name : Option String} {reference : String} {base : PathBase} {last : Binding}
    {table : TableSchema}
    (there : s.catalog.lookup (s.databaseOf base) last.target.table = .ok table) :
    s.Following (table.columnNames.map fun column => (name, stem reference ++ column))
      (s.expandStar name reference base last) fun σ =>
        (table.columnNames.map fun column => (name, stem reference ++ column)).map fun p =>
          .expr (.column (σ p)) (some p.2) := by
  have each : s.Following
      (table.columnNames.flatMap fun column => [(name, stem reference ++ column)])
      (s.expandStar name reference base last) fun σ => table.columnNames.map fun column =>
        .expr (.column (σ (name, stem reference ++ column))) (some (stem reference ++ column)) := by
    refine followLift fun found ok => ?_
    cases there.symm.trans ok
    refine followList _ _ fun column => ?_
    exact followMap (fun e => Field.expr e (some (stem reference ++ column))) followLink
  simpa only [List.map_map, ← List.map_eq_flatMap, Function.comp_def] using each

theorem noReferences {e : Expr} (plain : e.hasPath = false) : Expr.references e.nodes = [] := by
  refine List.filterMap_eq_nil_iff.mpr fun n member => ?_
  have own := List.any_eq_false.mp plain n member
  cases n <;> simp_all [Expr.isPath, Expr.reference?]

theorem followField (f : Field) :
    s.Following (s.fieldReferences f) (s.expandField f) fun σ => s.linkedField σ f := by
  have other (e : Expr) (rename : Option String) :
      s.Following (Expr.references e.nodes)
        (if e.hasPath then do return [Field.expr (← s.expandExpr e) (some (rename.getD e.text))]
          else return [Field.expr e rename])
        fun σ => [if e.hasPath then Field.expr (e.linked σ) (some (rename.getD e.text))
          else Field.expr e rename] := by
    cases path : e.hasPath with
    | true => exact followMap (fun e' => [Field.expr e' _]) (followExpr e)
    | false =>
        rw [noReferences path]
        exact followPure
  cases f with
  | star source => exact followPure
  | expr e rename =>
      cases e with
      | path name reference =>
          simp only [fieldReferences]
          refine followLift fun resolved ok => ?_
          obtain ⟨base, binding, last⟩ := resolved
          cases star : last.selectsAll with
          | true =>
              cases there : s.catalog.lookup (s.databaseOf base) last.target.table with
              | error e =>
                  have fails : s.expandStar name reference base last = throw e := by
                    rw [expandStar, there]
                    rfl
                  simp only [star, if_true, fails]
                  exact followThrow
              | ok table =>
                  have stands : s.starReferences? name reference =
                      some (table.columnNames.map fun column => (name, stem reference ++ column)) := by
                    simp only [starReferences?, ok, star, if_true, there]
                  simp only [linkedField, stands, Option.getD_some, star, if_true]
                  exact followStar there
          | false =>
              have stands : s.starReferences? name reference = none := by
                simp only [starReferences?, ok, star, Bool.false_eq_true, if_false]
              simp only [linkedField, stands, Option.getD_none, star, Bool.false_eq_true, if_false]
              exact followMap (fun e => [Field.expr e (some (rename.getD reference))]) followLink
      | _ => exact other _ rename

/-! The other clauses -/

def linkedKey (σ : Reference → ColumnRef) (k : SortKey Expr) : SortKey Expr :=
  { k with expr := k.expr.linked σ }

def linkedWindow (σ : Reference → ColumnRef) (w : String × WindowSpec Expr) :
    String × WindowSpec Expr :=
  (w.1, { w.2 with
    partitionBy := w.2.partitionBy.map (·.linked σ), orderBy := w.2.orderBy.map (linkedKey σ) })

def exprReferences (e : Expr) : List Reference := Expr.references e.nodes

def keyReferences (k : SortKey Expr) : List Reference := exprReferences k.expr

def windowReferences (w : String × WindowSpec Expr) : List Reference :=
  w.2.partitionBy.flatMap exprReferences ++ w.2.orderBy.flatMap keyReferences

theorem followKey (k : SortKey Expr) :
    s.Following (keyReferences k) (s.expandKey k) fun σ => linkedKey σ k :=
  followMap (fun e => { k with expr := e }) (followExpr k.expr)

theorem followExprs (es : List Expr) :
    s.Following (es.flatMap exprReferences) (es.mapM s.expandExpr) fun σ => es.map (·.linked σ) :=
  followList _ es followExpr

theorem followSome (e : Option Expr) :
    s.Following (e.toList.flatMap exprReferences) (e.mapM s.expandExpr) fun σ => e.map (·.linked σ) :=
  followOption _ e followExpr

theorem followSort (ks : List (SortKey Expr)) :
    s.Following (ks.flatMap keyReferences) (ks.mapM s.expandKey) fun σ => ks.map (linkedKey σ) :=
  followList _ ks followKey

theorem followWindow (w : String × WindowSpec Expr) :
    s.Following (windowReferences w) (s.expandWindow w) fun σ => linkedWindow σ w :=
  followTwo (fun partitionBy orderBy =>
    (w.1, { w.2 with partitionBy := partitionBy, orderBy := orderBy }))
    (followExprs w.2.partitionBy) (followSort w.2.orderBy)

theorem followFields (fields : List Field) :
    s.Following (fields.flatMap s.fieldReferences) (s.expandFields fields) fun σ =>
      fields.flatMap (s.linkedField σ) :=
  followMap List.flatten (followList _ fields followField)

/-! Statements -/

/-- The references of a query. -/
def queryReferences (s : PathScope) (q : Select) : List Reference :=
  q.fields.flatMap s.fieldReferences ++ (q.condition.toList.flatMap exprReferences ++
    (q.groupBy.flatMap exprReferences ++ (q.having.toList.flatMap exprReferences ++
      (q.orderBy.flatMap keyReferences ++ q.windows.flatMap windowReferences))))

def linkedQuery (s : PathScope) (q : Select) (σ : Reference → ColumnRef) : Select :=
  { q with
    fields := q.fields.flatMap (s.linkedField σ)
    condition := q.condition.map (·.linked σ)
    groupBy := q.groupBy.map (·.linked σ)
    having := q.having.map (·.linked σ)
    orderBy := q.orderBy.map (linkedKey σ)
    windows := q.windows.map (linkedWindow σ) }

theorem followQuery (q : Select) :
    s.Following (s.queryReferences q) (q.expandWith s) (s.linkedQuery q) := by
  refine followBind (g := fun σ fields => { s.linkedQuery q σ with fields := fields })
    (followFields q.fields) fun fields => ?_
  refine followBind (g := fun σ condition =>
    { s.linkedQuery q σ with fields := fields, condition := condition })
    (followSome q.condition) fun condition => ?_
  refine followBind (g := fun σ groupBy =>
    { s.linkedQuery q σ with fields := fields, condition := condition, groupBy := groupBy })
    (followExprs q.groupBy) fun groupBy => ?_
  refine followBind (g := fun σ having =>
    { s.linkedQuery q σ with
      fields := fields, condition := condition, groupBy := groupBy, having := having })
    (followSome q.having) fun having => ?_
  exact followTwo (fun orderBy windows =>
    { q with
      fields := fields, condition := condition, groupBy := groupBy, having := having
      orderBy := orderBy, windows := windows }) (followSort q.orderBy)
    (followList _ q.windows followWindow)

def updateReferences (u : Update) : List Reference :=
  u.condition.toList.flatMap exprReferences ++ u.set.flatMap fun a => exprReferences a.value

def linkedUpdate (u : Update) (σ : Reference → ColumnRef) : Update :=
  { u with
    condition := u.condition.map (·.linked σ)
    set := u.set.map fun a => { a with value := a.value.linked σ } }

theorem followUpdate (u : Update) :
    s.Following (updateReferences u) (u.expandWith s) (linkedUpdate u) :=
  followTwo (fun condition set => { u with condition := condition, set := set })
    (followSome u.condition) (followList _ u.set fun a =>
      followMap (fun e => { a with value := e }) (followExpr a.value))

/-! Runs -/

section
variable {α : Type} {expansion : PathScope → Linking α} {ps : List Reference}
  {result : (Reference → ColumnRef) → α} {a : α} {joins : List Join}

/-- A run is made with the columns of its links, whatever the others are. -/
theorem runAgrees (follows : s.Following ps (expansion s) result) (ran : s.run expansion = .ok (a, joins)) :
    ∃ entries, joins = entries.map Link.toJoin ∧
      entries.map Link.key = (ps.filterMap s.linkKey?).eraseDups ∧
        (∀ allowed : Reference → Prop, (∀ p ∈ ps, allowed p) →
          ∀ l ∈ entries, Links.Made (s.Purpose allowed) l) ∧
            (∀ p ∈ ps, ∃ ref, s.Linked entries p ref) ∧ ∀ σ, s.Agrees entries σ → a = result σ := by
  obtain ⟨⟨a', links⟩, ok, last⟩ := Outcome.bindOk.mp ran
  cases Outcome.pureOk.mp last
  obtain ⟨rfl, served, rewritten⟩ := follows _ _ _ ok
  exact ⟨_, rfl, attachedKeys s _ ps, fun allowed here => attachedMade here (by simp [Links.new]), served,
    rewritten⟩

theorem runLinks (follows : s.Following ps (expansion s) result) (here : ∀ p ∈ ps, allowed p)
    (ran : s.run expansion = .ok (a, joins)) : ∃ entries σ, joins = entries.map Link.toJoin ∧
      (∀ l ∈ entries, Links.Made (s.Purpose allowed) l) ∧
        (∀ p ∈ ps, s.Linked entries p (σ p)) ∧ a = result σ := by
  obtain ⟨entries, joins, _, made, served, rewritten⟩ := runAgrees follows ran
  obtain ⟨σ, agrees⟩ := agreesExists s entries
  refine ⟨entries, σ, joins, made allowed here, fun p member => ?_, rewritten σ agrees⟩
  obtain ⟨ref, linked⟩ := served p member
  rwa [agrees p ref linked]

end

end PathScope

section
open PathScope
variable {allowed : Reference → Prop} {catalog : Catalog} {database : String}

theorem SelectOf.expandLinks {q q' : Select}
    (here : ∀ p ∈ queryReferences ⟨catalog, database, q.allSources⟩ q, allowed p)
    (expanded : q.expand catalog database = .ok q') : ∃ entries : List Link,
      q'.sources = q.sources ∧ q'.joins = q.joins ++ entries.map Link.toJoin ∧
        (∀ l ∈ entries, Links.Made (Purpose ⟨catalog, database, q.allSources⟩ allowed) l) ∧
        ((q' = q ∧ q.hasPath = false) ∨ ∃ σ,
          (∀ p ∈ queryReferences ⟨catalog, database, q.allSources⟩ q,
            Linked ⟨catalog, database, q.allSources⟩ entries p (σ p)) ∧
          q' = { linkedQuery ⟨catalog, database, q.allSources⟩ q σ with
            joins := q.joins ++ entries.map Link.toJoin }) := by
  unfold SelectOf.expand at expanded
  split at expanded
  · obtain ⟨⟨q'', joins⟩, ran, last⟩ := Outcome.bindOk.mp expanded
    obtain ⟨entries, σ, rfl, made, served, rfl⟩ := runLinks (followQuery q) here ran
    cases Outcome.pureOk.mp last
    exact ⟨entries, rfl, rfl, made, .inr ⟨σ, served, rfl⟩⟩
  · rename_i plain
    cases expanded
    exact ⟨[], rfl, by simp, by simp, .inl ⟨rfl, by simpa using plain⟩⟩

/-- A change of clauses that expansion passes by can be made before or after it. -/
theorem SelectOf.expandChanged {q : Select} (change : Select → Select) (path : (change q).hasPath = q.hasPath)
    (sources : (change q).allSources = q.allSources)
    (expands : ∀ s, (change q).expandWith s = change <$> q.expandWith s)
    (joined : ∀ X joins, { change X with joins := (change X).joins ++ joins } =
      change { X with joins := X.joins ++ joins }) :
    (change q).expand catalog database = (q.expand catalog database).map change := by
  unfold SelectOf.expand
  rw [path]
  split
  · have ran (s : PathScope) : s.run (change q).expandWith = (s.run q.expandWith).map fun r => (change r.1, r.2) := by
      unfold PathScope.run
      rw [expands, StateT.run_map]
      cases (q.expandWith s).run (Links.new (s.sources.map Source.name)) <;> rfl
    rw [ran, sources]
    cases PathScope.run ⟨catalog, database, q.allSources⟩ q.expandWith with
    | error e => rfl
    | ok r => exact congrArg Except.ok (joined r.1 r.2)
  · rfl

end

end RelQuery
