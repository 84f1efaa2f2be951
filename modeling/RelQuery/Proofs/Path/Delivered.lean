import RelQuery.Proofs.Path.Preserved
import RelQuery.Statement.Eval

/-! What references read in the compositions of a statement. The column in the place of a reference reads
what the reference leads to, through the columns that the links name after numbers. A key column with
a name of that kind is read in the place of what stands behind it. -/
namespace RelQuery

/-- No key on the way of a path has a name that links give to columns. -/
def Catalog.KeysApart (c : Catalog) (database : String) : String → List String → Prop
  | table, field :: next :: rest => ∀ target key, c.edge database table field = .ok (target, key) →
      ¬Link.Numbered [key] ∧ c.KeysApart database target (next :: rest)
  | _, _ => True

theorem Context.deliveredApart {ctx : Context} {database table : String} {row : Option Row}
    {names columns : List String} (numbered : Link.Numbered columns)
    (length : columns.length + 1 = names.length) (apart : ctx.catalog.KeysApart database table names) :
    ctx.delivered database table row names columns = ctx.dereference database table row names := by
  induction columns generalizing table row names with
  | nil =>
      obtain ⟨column, rfl⟩ := List.length_eq_one_iff.mp length.symm
      rfl
  | cons column columns ih =>
      match names with
      | [] | [_] => simp at length
      | field :: next :: rest =>
          obtain ⟨own, later⟩ := List.forall_mem_cons.mp numbered
          rw [delivered, dereference]
          · split
            · rename_i target key edge
              obtain ⟨other, behind⟩ := apart target key edge
              have differs : column ≠ key := by
                rintro rfl
                exact other (List.forall_mem_singleton.mpr own)
              rw [if_neg differs]
              exact ih later (Nat.succ.inj length) behind
            · rfl
          · simp

/-! Statements -/

/-- Where a statement that joins sources to a first one resolves its references. -/
def Context.scope (ctx : Context) (first : Source) (others : List Join) : PathScope :=
  ⟨ctx.catalog, ctx.database, first :: others.map (·.source)⟩

namespace Statement

open Relational

/-- The first source of a statement, with the joins that it is evaluated with. -/
def joined : Statement → Option (Source × List Join)
  | select q => q.sources.head?.map fun main => (main, q.sources.tail.map JoinOf.cross ++ q.joins)
  | insert _ => none
  | update u => some (u.target, u.joins)
  | delete d =>
      match d.usingClause with
      | some u => some (u.source, u.joins)
      | none => d.sources.head?.map fun first => (first, d.sources.tail.map JoinOf.cross ++ d.joins)

def addJoins (joins : List Join) : Statement → Statement
  | select q => select { q with joins := q.joins ++ joins }
  | insert i => insert i
  | update u => update { u with joins := u.joins ++ joins }
  | delete d =>
      match d.usingClause with
      | some u => delete { d with usingClause := some { u with joins := u.joins ++ joins } }
      | none => delete { d with joins := d.joins ++ joins }

def hasPath : Statement → Bool
  | select q => q.hasPath
  | insert _ => false
  | update u => u.hasPath
  | delete d => d.condition.any Expr.hasPath

def references (s : PathScope) : Statement → List Reference
  | select q => s.queryReferences q
  | insert _ => []
  | update u => PathScope.updateReferences u
  | delete d => d.condition.toList.flatMap PathScope.exprReferences

/-- A statement with columns in the places of its references. -/
def linked (s : PathScope) (σ : Reference → ColumnRef) : Statement → Statement
  | select q => select (s.linkedQuery q σ)
  | insert i => insert i
  | update u => update (PathScope.linkedUpdate u σ)
  | delete d => delete { d with condition := d.condition.map (·.linked σ) }

variable {s s' : Statement} {first : Source} {others : List Join} {ctx : Context}
  {params : List Value} {evaluate : Source → Outcome Relation}

/-- These are the joins that a query is evaluated with. -/
theorem evalJoined {q : Select} (own : (select q).joined = some (first, others)) :
    q.evalWith evaluate params = (do
      let r ← JoinRun.start evaluate first others q.condition params
      q.result params (← r.collect.2) r.emptyComposition) := by
  obtain ⟨main, there, same⟩ := Option.map_eq_some_iff.mp own
  obtain ⟨rfl, rfl⟩ := Prod.mk.injEq .. ▸ same
  obtain ⟨rest, sources⟩ := List.head?_eq_some_iff.mp there
  rw [SelectOf.evalWith, sources]
  rfl

/-- These are the joins that a DELETE reads its rows from. -/
theorem deleteJoined {d : Delete} {main : Source} (leads : d.sources.head? = some main)
    (own : (delete d).joined = some (first, others)) :
    d.startJoin ctx params main =
      JoinRun.start (ctx.relation params) first others d.condition params := by
  cases clause : d.usingClause with
  | some u =>
      simp only [joined, clause] at own
      cases own
      simp only [Delete.startJoin, clause]
  | none =>
      simp only [joined, clause, leads] at own
      cases own
      simp only [Delete.startJoin, clause]

theorem joinedLinked (scope : PathScope) (σ : Reference → ColumnRef) (joins : List Join)
    (own : s.joined = some (first, others)) :
    ((s.linked scope σ).addJoins joins).joined = some (first, others ++ joins) := by
  cases s with
  | select q =>
      obtain ⟨main, there, same⟩ := Option.map_eq_some_iff.mp own
      obtain ⟨rfl, rfl⟩ := Prod.mk.injEq .. ▸ same
      exact Option.map_eq_some_iff.mpr ⟨main, there, by simp [PathScope.linkedQuery]⟩
  | insert i => cases own
  | update u =>
      cases own
      rfl
  | delete d =>
      cases clause : d.usingClause with
      | some u =>
          simp only [joined, clause] at own
          cases own
          simp only [linked, addJoins, clause, joined]
      | none =>
          simp only [joined, clause] at own
          obtain ⟨main, there, same⟩ := Option.map_eq_some_iff.mp own
          obtain ⟨rfl, rfl⟩ := Prod.mk.injEq .. ▸ same
          simp [linked, addJoins, clause, joined, there]

theorem scopeCross {sources : List Source} {main : Source} (there : sources.head? = some main)
    (joins : List Join) : ctx.scope main (sources.tail.map JoinOf.cross ++ joins) =
      ⟨ctx.catalog, ctx.database, sources ++ joins.map (·.source)⟩ := by
  obtain ⟨rest, rfl⟩ := List.head?_eq_some_iff.mp there
  simp [Context.scope, JoinOf.cross, Function.comp_def]

theorem expandLinked (own : s.joined = some (first, others)) (path : s.hasPath = true)
    (expanded : s.expand ctx.catalog ctx.database = .ok s') : ∃ (entries : List Link) (σ : _),
      s' = (s.linked (ctx.scope first others) σ).addJoins (entries.map Link.toJoin) ∧
        (∀ l ∈ entries, Links.Made ((ctx.scope first others).Purpose
          (· ∈ s.references (ctx.scope first others))) l) ∧
          ∀ p ∈ s.references (ctx.scope first others),
            (ctx.scope first others).Linked entries p (σ p) := by
  cases s with
  | select q =>
      obtain ⟨q', ok, rfl⟩ := Outcome.mapOk.mp expanded
      obtain ⟨main, there, same⟩ := Option.map_eq_some_iff.mp own
      obtain ⟨rfl, rfl⟩ := Prod.mk.injEq .. ▸ same
      rw [scopeCross there]
      obtain ⟨entries, _, _, made, ⟨_, plain⟩ | ⟨σ, served, rfl⟩⟩ :=
        SelectOf.expandLinks (fun _ member => member) ok
      · cases path.symm.trans plain
      · exact ⟨entries, σ, rfl, made, served⟩
  | insert i => cases own
  | update u =>
      obtain ⟨u', ok, rfl⟩ := Outcome.mapOk.mp expanded
      cases own
      simp only [Update.expand, if_pos (show u.hasPath = true from path)] at ok
      obtain ⟨⟨u', joins⟩, ran, last⟩ := Outcome.bindOk.mp ok
      cases Outcome.pureOk.mp last
      obtain ⟨entries, σ, rfl, made, served, rfl⟩ :=
        PathScope.runLinks (PathScope.followUpdate u) (fun _ member => member) ran
      exact ⟨entries, σ, rfl, made, served⟩
  | delete d =>
      obtain ⟨d', ok, rfl⟩ := Outcome.mapOk.mp expanded
      obtain ⟨e, condition, path⟩ := (Option.any_eq_true ..).mp path
      simp only [Delete.expand, condition, if_pos path] at ok
      obtain ⟨⟨e', joins⟩, ran, ok⟩ := Outcome.bindOk.mp ok
      obtain ⟨entries, σ, rfl, made, served, rfl⟩ :=
        PathScope.runLinks (PathScope.followExpr e) (fun _ member => member) ran
      have references : (delete d).references (ctx.scope first others) = PathScope.exprReferences e := by
        simp [Statement.references, condition]
      rw [references]
      cases clause : d.usingClause with
      | some u =>
          simp only [joined, clause] at own ok made served
          cases own
          cases Outcome.pureOk.mp ok
          exact ⟨entries, σ, by simp [linked, addJoins, clause, condition], made, served⟩
      | none =>
          simp only [joined, clause] at own ok made served
          obtain ⟨main, there, same⟩ := Option.map_eq_some_iff.mp own
          obtain ⟨rfl, rfl⟩ := Prod.mk.injEq .. ▸ same
          rw [scopeCross there]
          cases Outcome.pureOk.mp ok
          exact ⟨entries, σ, by simp [linked, addJoins, clause, condition], made, served⟩

/-- In every composition of a statement that is expanded, the column in the place of a reference reads what
the reference delivers from the row of its source. It is the value that the reference leads to, if no
key on the way has a name that links give to columns. -/
theorem expandDelivers (fills : ctx.storage.Fills ctx.catalog) (evaluates : ctx.Evaluates params evaluate)
    (own : s.joined = some (first, others)) (path : s.hasPath = true)
    (expanded : s.expand ctx.catalog ctx.database = .ok s') : ∃ added σ,
      s' = (s.linked (ctx.scope first others) σ).addJoins added ∧
        s'.joined = some (first, others ++ added) ∧
        ∀ condition r cs, JoinRun.start evaluate first (others ++ added) condition params = .ok r →
          r.collect.2 = .ok cs → ∀ p ∈ s.references (ctx.scope first others), ∀ names base,
            Path.Forward p.2 names → (ctx.scope first others).base p.1 = .ok base →
            ctx.catalog.Leads (base.database.getD ctx.database) base.table names →
            ∃ columns, Link.Numbered columns ∧ columns.length + 1 = names.length ∧
              columns.head? = some (σ p).column ∧
              ∀ c ∈ cs, (∀ scope : Scope, scope.row.sources = c.sources →
                (Expr.column (σ p)).eval scope = .ok (ctx.delivered (base.database.getD ctx.database)
                  base.table (c.row? base.name) names columns)) ∧
                (ctx.catalog.KeysApart (base.database.getD ctx.database) base.table names →
                  ctx.delivered (base.database.getD ctx.database) base.table (c.row? base.name) names
                    columns = ctx.dereference (base.database.getD ctx.database) base.table
                      (c.row? base.name) names) := by
  obtain ⟨entries, σ, rfl, made, served⟩ := expandLinked own path expanded
  refine ⟨_, σ, rfl, joinedLinked _ σ _ own, fun condition r cs started collected p member names base
    forward based leads => ?_⟩
  obtain ⟨relation, sources, answered⟩ := collectAnswered started collected
  have joined := Link.joinedOf fills evaluates rfl rfl rfl made answered
  obtain ⟨columns, numbered, length, head, delivers⟩ :=
    Link.joinedDelivers joined evaluates fills (served p member) forward based leads
  refine ⟨columns, numbered, length, head, fun c formed => ⟨?_, Context.deliveredApart numbered length⟩⟩
  obtain ⟨x, member, rfl⟩ := answersMember (answered.answer ▸ formed)
  exact delivers x member (settledOf answered.evaluable x)

end Statement

/-! Organisations of users and of their bosses -/

theorem orgEdge (key : String) :
    (staff key).catalog.edge "main" "users" "org" = .ok ("orgs", key) := rfl

theorem bossEdge (key : String) :
    (staff key).catalog.edge "main" "users" "boss" = .ok ("users", "id") := rfl

theorem orgLeads (key : String) : (staff key).catalog.Leads "main" "users" ["org", "name"] :=
  .step (orgEdge key) (.column rfl (by simp [keyed, TableSchema.columnNames, Column.new]))

theorem bossLeads (key : String) :
    (staff key).catalog.Leads "main" "users" ["boss", "org", "name"] :=
  .step (bossEdge key) (orgLeads key)

theorem bossApart : (staff "id").catalog.KeysApart "main" "users" ["boss", "org", "name"] := by
  have own : ¬Link.Numbered ["id"] := by
    intro numbered
    obtain ⟨n, same⟩ := numbered _ List.mem_cons_self
    have first := congrArg (fun name : String => name.toList.head?) same
    simp [String.toList_append] at first
  intro target key edge
  cases (bossEdge "id").symm.trans edge
  refine ⟨own, fun target key edge => ?_⟩
  cases (orgEdge "id").symm.trans edge
  exact ⟨own, trivial⟩

namespace Statement

/-- Deletes the users whose boss has no organisation with a name. -/
def orphaned : Delete where
  targets := []
  sources := [.table none "users" (some "u")]
  joins := []
  usingClause := none
  condition := some (.unary .isNull (.path (some "u") "boss~>org~>name"))

theorem expandDeliversOrphaned : (staff "id").storage.Fills (staff "id").catalog ∧
    (staff "id").Evaluates [] ((staff "id").relation []) ∧
    (delete orphaned).joined = some (.table none "users" (some "u"), []) ∧
    (delete orphaned).hasPath = true ∧
    ∃ s' added σ r cs, (delete orphaned).expand (staff "id").catalog (staff "id").database = .ok s' ∧
      s' = ((delete orphaned).linked ((staff "id").scope (.table none "users" (some "u")) []) σ).addJoins
        added ∧
      JoinRun.start ((staff "id").relation []) (.table none "users" (some "u")) added none [] = .ok r ∧
      r.collect.2 = .ok cs ∧
      cs.map (fun c => (staff "id").dereference "main" "users" (c.row? "u") ["boss", "org", "name"]) =
        [.null, .string "acme", .null] ∧
      ∀ c ∈ cs, ∀ scope : Scope, scope.row.sources = c.sources →
        (Expr.column (σ (some "u", "boss~>org~>name"))).eval scope =
          .ok ((staff "id").dereference "main" "users" (c.row? "u") ["boss", "org", "name"]) := by
  have evaluates := Context.evaluatesRelation (staff "id") []
  have ran : (do
      let s' ← (delete orphaned).expand (staff "id").catalog (staff "id").database
      let joins := s'.joined.elim [] (·.2)
      let r ← JoinRun.start ((staff "id").relation []) (.table none "users" (some "u")) joins none []
      r.collect.2.map fun (cs : List Composition) => cs.map fun c =>
        (staff "id").dereference "main" "users" (c.row? "u") ["boss", "org", "name"]) =
      (.ok [.null, .string "acme", .null] : Outcome (List Value)) := by decide +kernel
  obtain ⟨s', expanded, ran⟩ := Outcome.bindOk.mp ran
  obtain ⟨r, started, ran⟩ := Outcome.bindOk.mp ran
  obtain ⟨cs, collected, leads⟩ := Outcome.mapOk.mp ran
  obtain ⟨added, σ, same, joined, delivers⟩ :=
    expandDelivers (staffFills "id") evaluates (s := delete orphaned) rfl rfl expanded
  rw [joined] at started
  obtain ⟨columns, _, _, _, reads⟩ := delivers none r cs started collected (some "u", "boss~>org~>name")
    (by decide) _ _ bossForward rfl (bossLeads "id")
  refine ⟨staffFills "id", evaluates, rfl, rfl, s', added, σ, r, cs, expanded, same, started, collected,
    leads, fun c member scope own => ?_⟩
  obtain ⟨value, apart⟩ := reads c member
  rw [value scope own, apart bossApart]
  rfl

/-- The names of the organisations of users. -/
def employers : Select where
  distinct := false
  fields := [.expr (.column ⟨none, "id"⟩) none, .expr (.path none "org~>name") none]
  sources := [.table none "users" none]
  joins := []
  condition := none
  groupBy := []
  having := none
  windows := []
  orderBy := []
  limit := none
  offset := none

def column? : Field → Option (ColumnRef × Option String)
  | .expr (.column ref) name => some (ref, name)
  | _ => none

/-- Where the key column of organisations is `c1`, the key is read in the place of the name. -/
theorem employersMisread : (staff "c1").storage.Fills (staff "c1").catalog ∧
    Path.Forward "org~>name" ["org", "name"] ∧
    (staff "c1").catalog.Leads "main" "users" ["org", "name"] ∧
    ∃ q' r cs, employers.expand (staff "c1").catalog (staff "c1").database = .ok q' ∧
      q'.fields.map column? = [some (⟨none, "id"⟩, none), some (⟨some "j1", "c1"⟩, some "org~>name")] ∧
      JoinRun.start ((staff "c1").relation []) (.table none "users" none) q'.joins none [] = .ok r ∧
      r.collect.2 = .ok cs ∧ ∃ c ∈ cs,
        (Expr.column ⟨some "j1", "c1"⟩).eval (.ofRow c []) = .ok (.int 7) ∧
        (staff "c1").dereference "main" "users" (c.row? "users") ["org", "name"] = .string "acme" := by
  have ran : (do
      let q' ← employers.expand (staff "c1").catalog (staff "c1").database
      let r ← JoinRun.start ((staff "c1").relation []) (.table none "users" none) q'.joins none []
      let cs ← r.collect.2
      return (q'.fields.map column?, cs.map fun c => ((Expr.column ⟨some "j1", "c1"⟩).eval (.ofRow c []),
        (staff "c1").dereference "main" "users" (c.row? "users") ["org", "name"]))) =
      (.ok ([some (⟨none, "id"⟩, none), some (⟨some "j1", "c1"⟩, some "org~>name")],
        [(.ok (.int 7), .string "acme"), (.ok .null, .null), (.ok (.int 7), .string "acme")]) :
          Outcome (List _ × List (Outcome Value × Value))) := by decide +kernel
  obtain ⟨q', expanded, ran⟩ := Outcome.bindOk.mp ran
  obtain ⟨r, started, ran⟩ := Outcome.bindOk.mp ran
  obtain ⟨cs, collected, ran⟩ := Outcome.bindOk.mp ran
  obtain ⟨fields, values⟩ := Prod.mk.injEq .. ▸ Outcome.pureOk.mp ran
  obtain ⟨c, rest, rfl, value, _⟩ := List.map_eq_cons_iff.mp values
  obtain ⟨read, leads⟩ := Prod.mk.injEq .. ▸ value
  exact ⟨staffFills "c1", orgForward, orgLeads "c1", q', r, _, expanded, fields, started, collected, c,
    List.mem_cons_self, read, leads⟩

end Statement

end RelQuery
