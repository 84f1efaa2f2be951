import RelQuery.Proofs.Path.Nesting

/-! How deep evaluation nests. Evaluating a query asks for the answers of the queries among its sources, so it
comes as deep as queries nest there. -/
namespace RelQuery

namespace JoinRun

variable {evaluate evaluate' : Source → Outcome Relation}

theorem startAlike {main : Source} (joins : List Join) (condition : Option Expr) (params : List Value)
    (own : evaluate main = evaluate' main) (joined : ∀ j ∈ joins, evaluate j.source = evaluate' j.source) :
    start evaluate main joins condition params = start evaluate' main joins condition params := by
  have opened : joins.mapM (openJoin evaluate) = joins.mapM (openJoin evaluate') := by
    refine Expr.mapMAlike fun j member => ?_
    rw [openJoin, openJoin, joined j member]
  rw [start, start, own, opened]

end JoinRun

namespace SelectOf

variable {q : Select}

theorem evalAlike {evaluate evaluate' : Source → Outcome Relation} (params : List Value)
    (same : ∀ s ∈ q.allSources, evaluate s = evaluate' s) :
    q.evalWith evaluate params = q.evalWith evaluate' params := by
  cases sources : q.sources with
  | nil => rw [evalWith, evalWith, sources]
  | cons main rest =>
      have member {s : Source} (listed : s ∈ main :: rest) : evaluate s = evaluate' s :=
        same s (List.mem_append_left _ (sources ▸ listed))
      have started := JoinRun.startAlike (rest.map JoinOf.cross ++ q.joins) q.condition params
        (member List.mem_cons_self) fun j joined => by
          rcases List.mem_append.mp joined with cross | own
          · obtain ⟨s, listed, rfl⟩ := List.mem_map.mp cross
            exact member (List.mem_cons_of_mem _ listed)
          · exact same _ (List.mem_append_right _ (List.mem_map_of_mem own))
      rw [evalWith, evalWith, sources]
      simp only [started]

end SelectOf

namespace Source

variable {s : Source} {ss : List Source} {j : Join} {js : List Join} {q q' : Select} {name : String}

theorem depthMember (member : s ∈ ss) : depth s ≤ depthOfSources ss := by
  induction member with
  | head => exact Nat.le_max_left _ _
  | tail _ _ ih => exact Nat.le_trans ih (Nat.le_max_right _ _)

theorem depthJoined (member : j ∈ js) : depth j.source ≤ depthOfJoins js := by
  induction member with
  | head => exact Nat.le_max_left _ _
  | tail _ _ ih => exact Nat.le_trans ih (Nat.le_max_right _ _)

theorem depthBelow (member : .derived q' name ∈ q.allSources) : depthOfQuery q' < depthOfQuery q := by
  rw [SelectOf.depthEq q]
  rcases List.mem_append.mp member with own | joined
  · have deep := depthMember own
    exact Nat.lt_of_lt_of_le deep (Nat.le_trans (Nat.le_max_left _ _) (Nat.le_max_right _ _))
  · obtain ⟨j, listed, same⟩ := List.mem_map.mp joined
    have deep := same ▸ depthJoined listed
    exact Nat.lt_of_lt_of_le deep (Nat.le_trans (Nat.le_max_right _ _) (Nat.le_max_right _ _))

end Source

namespace Context

variable {ctx : Context} {params : List Value} {q : Select} {levels more more' : Nat}
  {answer answer' deeper deeper' : Select → Outcome ResultSet}

/-- How sources are evaluated, given the answers of the queries among them. -/
def sourceFrom (ctx : Context) (answer : Select → Outcome ResultSet) : Source → Outcome Relation
  | .table database name _ => do
      return .ofTable (ctx.tableName database name) (← ctx.store database name)
  | .derived query _ => do
      let r ← answer query
      return .ofResult (.new r.columns r.rows)

/-- Evaluates a query, given the answers of the queries that it nests. -/
def selectFrom (ctx : Context) (params : List Value) (answer : Select → Outcome ResultSet) (q : Select) :
    Outcome ResultSet := do
  let q ← q.expand ctx.catalog ctx.database
  q.evalWith (ctx.sourceFrom answer) params

/-- Evaluates a query with those some levels below it, where whatever nests deeper has given answers. -/
def selectDown (ctx : Context) (params : List Value) (deeper : Select → Outcome ResultSet) :
    Nat → Select → Outcome ResultSet
  | 0 => ctx.selectFrom params deeper
  | levels + 1 => ctx.selectFrom params (ctx.selectDown params deeper levels)

theorem selectAlike (same : ∀ q', q.Nests ctx.catalog ctx.database q' → answer q' = answer' q') :
    ctx.selectFrom params answer q = ctx.selectFrom params answer' q := by
  refine Outcome.bindNext fun X expanded => SelectOf.evalAlike params fun s member => ?_
  cases s with
  | table database name rename => rfl
  | derived query name => rw [sourceFrom, sourceFrom, same query ⟨X, name, expanded, member⟩]

/-- Answers of what nests deeper have no part in an evaluation that comes as deep as queries nest. -/
theorem selectDeep (within : q.NestsWithin ctx.catalog ctx.database levels) (enough : levels ≤ more)
    (enough' : levels ≤ more') : ctx.selectDown params deeper more q = ctx.selectDown params deeper' more' q := by
  induction levels generalizing q more more' with
  | zero =>
      have first (deeper : Select → Outcome ResultSet) (more : Nat) :
          ∃ answer, ctx.selectDown params deeper more = ctx.selectFrom params answer := by
        cases more <;> exact ⟨_, rfl⟩
      obtain ⟨answer, same⟩ := first deeper more
      obtain ⟨answer', same'⟩ := first deeper' more'
      rw [same, same']
      exact selectAlike fun q' nests => absurd nests (SelectOf.nestsNone within)
  | succ levels ih =>
      obtain ⟨less, rfl⟩ := Nat.exists_eq_succ_of_ne_zero (Nat.ne_zero_of_lt enough)
      obtain ⟨less', rfl⟩ := Nat.exists_eq_succ_of_ne_zero (Nat.ne_zero_of_lt enough')
      exact selectAlike fun q' nests => ih (SelectOf.nestsBelow within nests) (Nat.le_of_succ_le_succ enough)
        (Nat.le_of_succ_le_succ enough')

theorem selectWithinDown (ctx : Context) (params : List Value) (levels : Nat) (q : Select) :
    ctx.selectWithin params levels q =
      ctx.selectDown params (fun _ => .error (.invalidOperation .nestedTooDeep)) levels q := by
  induction levels generalizing q with
  | zero =>
      rw [selectWithinEq]
      refine bind_congr fun X => congrArg (X.evalWith · params) (funext fun s => ?_)
      cases s <;> rfl
  | succ levels ih =>
      rw [selectWithinEq]
      refine bind_congr fun X => congrArg (X.evalWith · params) (funext fun s => ?_)
      cases s with
      | table database name rename => rfl
      | derived query name => rw [sourceWithin, ih, sourceFrom]

end Context

namespace SelectOf

open PathScope

variable {c : Catalog} {database : String} {q q' : Select}

/-- What a query nests is among its own sources, or it is the query of a link that its references need. -/
theorem nestsCases (nests : q.Nests c database q') : (∃ name, .derived q' name ∈ q.allSources) ∨
    ∃ l : Link, l.query = q' ∧ Links.Made (Purpose ⟨c, database, q.allSources⟩
      (· ∈ queryReferences ⟨c, database, q.allSources⟩ q)) l := by
  obtain ⟨X, name, expanded, member⟩ := nests
  obtain ⟨entries, sources, joins, made, _⟩ := expandLinks (fun _ there => there) expanded
  rw [allSources, sources, joins, List.map_append, ← List.append_assoc] at member
  rcases List.mem_append.mp member with own | added
  · exact .inl ⟨name, own⟩
  · obtain ⟨l, listed, rfl⟩ := Link.joinedMember added
    exact .inr ⟨l, rfl, made l listed⟩

/-- Queries nest no deeper than it is foreseen from their text. -/
theorem nestsDepth (registered : c.Registered) (q : Select) : q.NestsWithin c database (Source.depthOfQuery q) := by
  refine nestsEach fun q' nests => ?_
  rcases nestsCases nests with ⟨name, own⟩ | ⟨l, rfl, made⟩
  · have less : Source.depthOfQuery q' < Source.depthOfQuery q := Source.depthBelow own
    exact ⟨_, less, nestsDepth registered q'⟩
  · have chain qs (chain : (l.query :: qs).IsChain (Nests c database)) : qs.length + 1 < Source.depthOfQuery q := by
      obtain ⟨w, listed, _, _, takes, descends⟩ := chainWritten registered made (fun _ => queryStands) chain
      have fewer : qs.length + 1 ≤ Path.markers w.2 := takesFewer takes descends
      have deep := pathDepthLe.mp (Nat.le_refl (pathDepth q.exprs)) w listed
      rw [depthEq]
      omega
    have some := chain [] (.singleton _)
    exact ⟨Source.depthOfQuery q - 1, by omega, fun qs nest => by have := chain qs nest; omega⟩
termination_by Source.depthOfQuery q

end SelectOf

namespace Context

variable {ctx : Context} {params : List Value} {q : Select} {levels more : Nat}
  {deeper : Select → Outcome ResultSet}

theorem selectWhole (registered : ctx.catalog.Registered) (within : q.NestsWithin ctx.catalog ctx.database levels)
    (enough : levels ≤ more) : ctx.selectDown params deeper more q = ctx.select params q := by
  have foreseen : q.NestsWithin ctx.catalog ctx.database (Source.depthOfQuery q) := SelectOf.nestsDepth registered q
  rw [select, selectWithinDown]
  calc ctx.selectDown params deeper more q
    _ = ctx.selectDown params deeper (max more (Source.depthOfQuery q)) q :=
      selectDeep within enough (Nat.le_trans enough (Nat.le_max_left _ _))
    _ = ctx.selectDown params _ (Source.depthOfQuery q + 1) q :=
      selectDeep foreseen (Nat.le_max_right _ _) (Nat.le_succ _)

theorem selectNested (registered : ctx.catalog.Registered) (params : List Value) (q : Select) :
    ctx.select params q = ctx.selectFrom params (ctx.select params) q := by
  rw [select, selectWithinDown]
  refine selectAlike fun q' nests => ?_
  have foreseen : q.NestsWithin ctx.catalog ctx.database (Source.depthOfQuery q) := SelectOf.nestsDepth registered q
  exact selectWhole registered (SelectOf.nestsBelow (SelectOf.nestsMore foreseen (Nat.le_succ _)) nests) (Nat.le_refl _)

end Context

namespace Link

variable {ctx : Context} {scope : PathScope} {allowed : Reference → Prop} {paths : List Reference} {l : Link}

/-- The query of a link and those below it take the steps of a path along its edge, and the steps of a path are no
more than its markers. So an evaluation that comes one level less deep is whole. -/
structure Shallow (ctx : Context) (params : List Value) (scope : PathScope) (paths : List Reference) (l : Link) :
    Prop where
  nested : ∀ qs, (l.query :: qs).IsChain (SelectOf.Nests ctx.catalog ctx.database) → ∃ w ∈ paths, ∃ base b,
    scope.Takes w l base b ∧ Binding.Descends ctx.catalog (scope.databaseOf base) b (l.query :: qs)
  fewer : ∀ w ∈ paths, ∀ base b, scope.Takes w l base b → ∀ qs,
    Binding.Descends ctx.catalog (scope.databaseOf base) b (l.query :: qs) → qs.length + 1 ≤ Path.markers w.2
  evaluated : ∀ levels, (∀ w ∈ paths, ∀ base b, scope.Takes w l base b → Path.markers w.2 ≤ levels + 1) →
    ∀ deeper, ctx.selectDown params deeper levels l.query = ctx.select params l.query

theorem madeShallow (params : List Value) (catalog : scope.catalog = ctx.catalog)
    (database : scope.database = ctx.database) (registered : ctx.catalog.Registered)
    (made : Links.Made (scope.Purpose allowed) l) (written : ∀ p, allowed p → ∃ w ∈ paths, scope.StandsFor w p) :
    l.Shallow ctx params scope paths := by
  have nested qs (chain : (l.query :: qs).IsChain (SelectOf.Nests ctx.catalog ctx.database)) :=
    PathScope.chainWritten (catalog ▸ registered) made written (catalog ▸ database ▸ chain)
  have fewer w base b (takes : scope.Takes w l base b) qs
      (descends : Binding.Descends scope.catalog (scope.databaseOf base) b (l.query :: qs)) :
      qs.length + 1 ≤ Path.markers w.2 := PathScope.takesFewer takes descends
  rw [catalog] at nested fewer
  refine ⟨nested, fun w _ => fewer w, fun levels markers deeper => ?_⟩
  have within : l.query.NestsWithin ctx.catalog ctx.database levels := by
    intro qs chain
    obtain ⟨w, listed, base, b, takes, descends⟩ := nested qs chain
    exact Nat.le_of_succ_le_succ (Nat.le_trans (fewer w base b takes qs descends) (markers w listed base b takes))
  exact Context.selectWhole registered within (Nat.le_refl levels)

end Link

namespace Path

open Binding Statement

/-- A step of a reference selects every column or a proper suffix of it with fewer markers. So the last step is
reached in as many passes as the reference has markers, and a step asks for no more steps; and in the evaluation
of a statement whose references have been expanded, the queries of links nest no deeper than the paths as they are
written have markers. -/
theorem stepsShorten (ctx : Context) (params : List Value) :
    (∀ database base reference b, resolve ctx.catalog database base reference = .ok b →
      (b.target.select = allColumns ∨
        ∃ front, front ≠ [] ∧ reference.toList = front ++ b.target.select.toList) ∧
      (markers b.target.select < markers reference ∧
        Marker.places b.target.select.toList < Marker.places reference.toList) ∧
      terminalWithin ctx.catalog database (markers reference) b = some (b.terminal ctx.catalog database)) ∧
    (∀ database base reference,
      resolveWithin ctx.catalog database (markers reference) base reference.toList =
        some (resolve ctx.catalog database base reference)) ∧
    (ctx.catalog.Registered → (∀ q, ctx.select params q = ctx.selectFrom params (ctx.select params) q) ∧
      ∀ s first others s', joined s = some (first, others) → s.hasPath = true →
        s.expand ctx.catalog ctx.database = .ok s' → ∃ (entries : List Link) (σ : _),
          s' = (s.linked (ctx.scope first others) σ).addJoins (entries.map Link.toJoin) ∧
            ∀ l ∈ entries, l.Shallow ctx params (ctx.scope first others) s.paths) := by
  refine ⟨fun database base reference b ok => ?_, fun database base reference => ?_, fun registered => ⟨?_, ?_⟩⟩
  · obtain ⟨select, fewer⟩ := selectFewer ok
    exact ⟨select, fewer, terminalPasses (Nat.le_of_lt fewer.1)⟩
  · exact resolveCalls (Nat.le_succ _)
  · exact Context.selectNested registered params
  · intro s first others s' own path expanded
    obtain ⟨entries, σ, same, made, _⟩ := expandLinked own path expanded
    exact ⟨entries, σ, same, fun l listed =>
      Link.madeShallow params rfl rfl registered (made l listed) fun p member => referenceStands member⟩

end Path

/-- Where the bosses of users' bosses work, and who has the same boss as a user. -/
def SelectOf.ancestors : Select where
  distinct := false
  fields := [.expr (.path none "boss~>boss~>org~>name") none, .expr (.path (some "u") "boss~>boss<~users") none]
  sources := [.table none "users" (some "u")]
  joins := []
  condition := none
  groupBy := []
  having := none
  windows := []
  orderBy := []
  limit := none
  offset := none

namespace Path

open Binding Statement

/-- The foreign key from users to their bosses refers to users. -/
theorem stepsShortenAncestors : ∃ catalog b q', Catalog.directory = .ok catalog ∧ catalog.Registered ∧
    resolve catalog "main" (some "users") "boss~>boss<~users" = .ok b ∧
    (b.target.select = allColumns ∨
      ∃ front, front ≠ [] ∧ "boss~>boss<~users".toList = front ++ b.target.select.toList) ∧
    markers b.target.select < markers "boss~>boss<~users" ∧
    terminalWithin catalog "main" 2 b = some (b.terminal catalog "main") ∧
    resolveWithin catalog "main" 2 (some "users") "boss~>boss<~users".toList = some (.ok b) ∧
    (select SelectOf.ancestors).joined = some (.table none "users" (some "u"), []) ∧ SelectOf.ancestors.hasPath = true ∧
    SelectOf.ancestors.expand catalog "main" = .ok q' ∧
    ∃ entries : List Link, q'.joins = entries.map Link.toJoin ∧ q'.joins.length = 1 ∧
      ∀ l ∈ entries, ∀ deeper, Context.selectDown ⟨catalog, .ofCatalog catalog, "main"⟩ [] deeper 2 l.query =
        Context.select ⟨catalog, .ofCatalog catalog, "main"⟩ [] l.query := by
  have ran : (do
      let c ← Catalog.directory
      let _ ← resolve c "main" (some "users") "boss~>boss<~users"
      let q' ← SelectOf.ancestors.expand c "main"
      return q'.joins.length) = .ok 1 := by decide +kernel
  obtain ⟨catalog, built, ran⟩ := Outcome.bindOk.mp ran
  obtain ⟨b, resolved, ran⟩ := Outcome.bindOk.mp ran
  obtain ⟨q', expanded, ran⟩ := Outcome.bindOk.mp ran
  have registered := Catalog.directoryRegistered built
  have two : markers "boss~>boss<~users" = 2 := by decide +kernel
  have three : markers "boss~>boss~>org~>name" = 3 := by decide +kernel
  obtain ⟨steps, calls, nests⟩ := stepsShorten ⟨catalog, .ofCatalog catalog, "main"⟩ []
  obtain ⟨suffix, fewer, passes⟩ := steps "main" (some "users") _ b resolved
  have calls := calls "main" (some "users") "boss~>boss<~users"
  rw [two] at passes calls
  obtain ⟨entries, σ, same, shallow⟩ := (nests registered).2 (select SelectOf.ancestors) (.table none "users" (some "u")) []
    (select q') rfl rfl (by rw [Statement.expand, expanded]; rfl)
  refine ⟨catalog, b, q', built, registered, resolved, suffix, fewer.1, passes, resolved ▸ calls, rfl, rfl, expanded,
    entries, ?_, Outcome.pureOk.mp ran, fun l listed deeper => (shallow l listed).evaluated 2 ?_ deeper⟩
  · cases same
    rfl
  · intro w member _ _ _
    have written : (select SelectOf.ancestors).paths =
        [(none, "boss~>boss~>org~>name"), (some "u", "boss~>boss<~users")] := rfl
    rw [written] at member
    simp only [List.mem_cons, List.not_mem_nil, or_false] at member
    rcases member with rfl | rfl
    · exact Nat.le_of_eq three
    · exact Nat.le_succ_of_le (Nat.le_of_eq two)

end Path

end RelQuery
