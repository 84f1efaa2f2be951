import RelQuery.Proofs.Path.Mirrored

/-! Links neither drop nor multiply rows. The joins that an expansion adds for paths match at most one row
each, so a query that is expanded forms the compositions that it formed before, each with the sub-rows
of the links behind it; and in the same order, if all paths start from the main source. -/
namespace RelQuery

open Relational

namespace PathScope

variable {s : PathScope} {name : Option String} {reference : String} {names : List String}
  {base : PathBase}

theorem starForward (forward : Path.Forward reference names)
    (column : names.getLast? ≠ some Binding.allColumns) : s.starReferences? name reference = none := by
  unfold starReferences?
  split
  · rfl
  · rename_i base binding last resolved
    split
    · rename_i star
      exfalso
      obtain ⟨_, found, terminal⟩ := resolveOk resolved
      obtain ⟨field, rest, _, _, _, rfl, _, rfl, more⟩ := Binding.resolveStep forward found
      rw [List.getLast?_cons_of_ne_nil (Path.forwardSome more),
        Binding.terminalForward more terminal] at column
      exact column (congrArg some (by simpa [Binding.selectsAll] using star))
    · rfl

theorem sourceNamed {source : Source} {n : String} (found : s.source (some n) = .ok source) :
    source.name = n := by
  unfold PathScope.source at found
  simp only at found
  split at found
  · rename_i there
    cases found
    simpa using List.find?_some there
  · cases found

theorem baseFirst {first : Source} {rest : List Source} (sources : s.sources = first :: rest)
    (mainly : name = none ∨ name = some first.name) (based : s.base name = .ok base) :
    base.name = first.name := by
  obtain ⟨database, table, rename, found, rfl, _⟩ := baseOk based
  rcases mainly with rfl | rfl
  · rw [PathScope.source, sources] at found
    cases found
    rfl
  · exact sourceNamed found

end PathScope

theorem Link.joinedRestrict {ctx : Context} {evaluate : Source → Outcome Relation} {s : PathScope}
    {allowed : Reference → Prop} {first : Source} {others : List Join} {entries : List Link}
    {relation : Relation} {explicit added : List JoinSource} {params : List Value}
    (joined : Joined ctx evaluate s allowed first others entries relation (explicit ++ added))
    (own : others.mapM (JoinRun.openJoin evaluate) = .ok explicit)
    (links : List.Forall₂ (fun l j => ∃ r, evaluate (.derived l.query l.name) = .ok r ∧ j = l.opened r)
      entries added) :
    (answers (opening first relation) params none (explicit ++ added) (visits (opening first relation)
      (explicit ++ added))).map (Composition.restrict ((first :: others.map (·.source)).map Source.name)) =
    ((formed (opening first relation) params (explicit ++ added)).map (List.drop added.length)).map
      (compose (opening first relation) explicit.reverse) := by
  have distinct := joined.distinct
  rw [List.map_append, ← List.cons_append] at distinct
  refine restrictFormed (fun j inside => ?_) fun name listed => ?_
  · obtain ⟨l, member, _, _, rfl⟩ := alikeMember links inside
    have there : l.name ∈ (entries.map Link.toJoin).map (·.source.name) :=
      List.mem_map.mpr ⟨l.toJoin, List.mem_map_of_mem member, rfl⟩
    rw [List.map_cons, List.map_map]
    exact fun listed => (List.nodup_append.mp distinct).2.2 _ listed _ there rfl
  · obtain ⟨s, inside, rfl⟩ : ∃ s ∈ opening first relation :: explicit.map (·.source), s.name = name :=
      List.mem_map.mp (by simpa [namesOf] using listed)
    obtain ⟨source, there, _, _, _, rfl⟩ :=
      alikeMember (JoinRun.openedAlike joined.evaluated own) inside
    exact List.mem_map_of_mem there

namespace SelectOf

variable {q q' : Select} {ctx : Context} {params : List Value} {evaluate : Source → Outcome Relation}
  {main : Source} {rest : List Source} {r' : JoinRun} {cs' : List Composition}

def references (q : Select) : List Reference := q.exprs.flatMap fun e => Expr.references e.nodes

/-- A reference to a column, by outgoing steps. -/
def ToColumn (p : Reference) : Prop :=
  ∃ names, Path.Forward p.2 names ∧ names.getLast? ≠ some Binding.allColumns

theorem fieldAmong {s : PathScope} (forward : ∀ p ∈ q.references, ToColumn p) {f : Field}
    (listed : f ∈ q.fields) : ∀ p ∈ s.fieldReferences f, p ∈ q.references := by
  intro p own
  cases f with
  | star source => cases own
  | expr e rename =>
      have among {p : Reference} (own : p ∈ Expr.references e.nodes) : p ∈ q.references := by
        have there : e ∈ q.fieldExprs := List.mem_filterMap.mpr ⟨.expr e rename, listed, rfl⟩
        exact List.mem_flatMap.mpr ⟨e, by simp [exprs, there], own⟩
      cases e with
      | path name reference =>
          have here : (name, reference) ∈ q.references := among List.mem_cons_self
          obtain ⟨names, path, column⟩ := forward _ here
          rw [PathScope.fieldReferences, PathScope.starForward path column] at own
          rw [List.mem_singleton.mp own]
          exact here
      | _ => exact among own

theorem queryAmong {s : PathScope} (forward : ∀ p ∈ q.references, ToColumn p) :
    ∀ p ∈ s.queryReferences q, p ∈ q.references := by
  have among {e : Expr} (listed : e ∈ q.exprs) {p : Reference} (own : p ∈ Expr.references e.nodes) :
      p ∈ q.references := List.mem_flatMap.mpr ⟨e, listed, own⟩
  intro p member
  simp only [PathScope.queryReferences, List.mem_append, List.mem_flatMap] at member
  rcases member with ⟨f, listed, own⟩ | ⟨e, listed, own⟩ | ⟨e, listed, own⟩ | ⟨e, listed, own⟩ |
    ⟨k, listed, own⟩ | ⟨w, listed, own⟩
  · exact fieldAmong forward listed p own
  · exact among (by simp [exprs, Option.mem_toList.mp listed]) own
  · exact among (by simp [exprs, listed]) own
  · exact among (by simp [exprs, Option.mem_toList.mp listed]) own
  · have there : k.expr ∈ q.orderBy.map (·.expr) := List.mem_map_of_mem listed
    exact among (by simp [exprs, there]) own
  · have inside {e : Expr} (there : e ∈ w.2.exprs) : e ∈ q.exprs := by
      have all : e ∈ q.windows.flatMap (·.2.exprs) := List.mem_flatMap.mpr ⟨w, listed, there⟩
      simp [exprs, all]
    rcases List.mem_append.mp own with part | part
    · obtain ⟨e, there, own⟩ := List.mem_flatMap.mp part
      exact among (inside (List.mem_append_left _ there)) own
    · obtain ⟨k, there, own⟩ := List.mem_flatMap.mp part
      exact among (inside (List.mem_append_right _ (List.mem_map_of_mem there))) own

/-- An expansion keeps what a query joins. -/
theorem expandKeeps (fills : ctx.storage.Fills ctx.catalog) (evaluates : ctx.Evaluates params evaluate)
    (forward : ∀ p ∈ q.references, ToColumn p) (sources : q.sources = main :: rest)
    (expanded : q.expand ctx.catalog ctx.database = .ok q')
    (started : JoinRun.start evaluate main (rest.map JoinOf.cross ++ q'.joins) none params = .ok r')
    (collected : r'.collect.2 = .ok cs') :
    ∃ r cs, JoinRun.start evaluate main (rest.map JoinOf.cross ++ q.joins) none params = .ok r ∧
      r.collect.2 = .ok cs ∧
      (cs'.map (Composition.restrict (q.allSources.map Source.name))).Perm cs ∧
      ((∀ p ∈ q.references, p.1 = none ∨ p.1 = some main.name) →
        cs'.map (Composition.restrict (q.allSources.map Source.name)) = cs) := by
  obtain ⟨entries, _, joins, made, _⟩ := expandLinks (queryAmong forward) expanded
  rw [joins, ← List.append_assoc] at started
  obtain ⟨relation, opened, answered⟩ := collectAnswered started collected
  have scope : q.allSources = main :: (rest.map JoinOf.cross ++ q.joins).map (·.source) := by
    simp [allSources, sources, JoinOf.cross, Function.comp_def]
  have joined := Link.joinedOf fills evaluates rfl rfl scope made answered
  obtain ⟨explicit, added, rfl, own, links⟩ := Link.joinedParts joined
  have paths : ∀ p, p ∈ q.references → ∃ names, Path.Forward p.2 names := by
    intro p member
    obtain ⟨names, path, _⟩ := forward p member
    exact ⟨names, path⟩
  have single : Each (Single (opening main relation) params) explicit.reverse added.reverse :=
    Link.joinedSingle joined fills paths rfl own links
  have evaluable := answered.evaluable
  rw [List.reverse_append] at evaluable
  have distinct := answered.distinct
  rw [List.map_append, ← List.cons_append] at distinct
  obtain ⟨r, start, collect⟩ := answeredCollects answered.evaluated own
    (List.nodup_append.mp distinct).1 (evaluableBack evaluable)
  rw [answered.answer, scope, Link.joinedRestrict joined own links]
  refine ⟨r, _, start, collect, ?_, fun mainly => ?_⟩
  · rw [answersAll]
    exact (formedAppended single).map _
  · have steady : Each (Steady (opening main relation) params) explicit.reverse added.reverse :=
      Link.joinedSteady joined fills paths rfl own links fun p member base based =>
        PathScope.baseFirst scope (mainly p member) based
    rw [answersAll, formedSteady single steady]

end SelectOf

/-! Users, their bosses and their organisations -/

def keyed (name key : String) (columns : List Column) : TableSchema :=
  { name := name
    columns := .new key .int64 :: columns
    primaryKey := [key]
    uniqueKeys := []
    autoIncrement := false
    engine := "memory" }

def foreign (name table : String) : Column := { Column.new name .int64 with references := some table }

/-- The catalog, given the name of the key column of organisations. -/
def staffed (key : String) : Catalog :=
  ⟨"main", [(⟨"main", "orgs"⟩, keyed "orgs" key [.new "name" .string]),
    (⟨"main", "users"⟩, keyed "users" "id" [foreign "org" "orgs", foreign "boss" "users"])]⟩

/-- No organisation has the key 8. -/
def staff (key : String) : Context :=
  { catalog := staffed key
    storage := ((Storage.ofCatalog (staffed key)).fill ⟨"main", "orgs"⟩
        [[.int 7, .string "acme"], [.int 9, .string "left"]]).fill ⟨"main", "users"⟩
        [[.int 1, .int 7, .null], [.int 2, .int 8, .int 1], [.int 3, .int 7, .int 2]]
    database := "main" }

theorem staffFills (key : String) : (staff key).storage.Fills (staff key).catalog := by
  simp only [staff]
  exact Storage.fillsRows (Storage.fillsRows (Storage.fillsNew _) _ _) _ _

theorem orgForward : Path.Forward "org~>name" ["org", "name"] := by
  have split : Path.split? "org~>name" = some ("org".toList, .outgoing, "name".toList) := by
    decide +kernel
  exact .step split (.column (by decide +kernel))

theorem bossForward : Path.Forward "boss~>org~>name" ["boss", "org", "name"] := by
  have split : Path.split? "boss~>org~>name" =
      some ("boss".toList, .outgoing, "org~>name".toList) := by decide +kernel
  exact .step split orgForward

namespace SelectOf

/-- The organisations of the bosses of users, also of the users that an organisation does not have. -/
def bosses : Select where
  distinct := false
  fields := [.expr (.path none "boss~>org~>name") none]
  sources := [.table none "users" (some "u")]
  joins := [⟨.right, .table none "orgs" (some "o"), some (.condition (.binary .eq
    (.column ⟨some "u", "org"⟩) (.column ⟨some "o", "id"⟩))), false⟩]
  condition := some (.unary .isNull (.path (some "u") "org~>name"))
  groupBy := []
  having := none
  windows := []
  orderBy := []
  limit := none
  offset := none

theorem bossesForward : ∀ p ∈ bosses.references, ToColumn p := by
  have listed : bosses.references = [(none, "boss~>org~>name"), (some "u", "org~>name")] := rfl
  intro p member
  rw [listed, List.mem_cons, List.mem_singleton] at member
  rcases member with rfl | rfl
  · exact ⟨_, bossForward, by decide⟩
  · exact ⟨_, orgForward, by decide⟩

theorem expandKeepsBosses : (staff "id").storage.Fills (staff "id").catalog ∧
    (staff "id").Evaluates [] ((staff "id").relation []) ∧ (∀ p ∈ bosses.references, ToColumn p) ∧
      ∃ q' r' cs' r cs, bosses.expand (staff "id").catalog (staff "id").database = .ok q' ∧
        JoinRun.start ((staff "id").relation []) (.table none "users" (some "u")) q'.joins none [] =
          .ok r' ∧
        r'.collect.2 = .ok cs' ∧
        JoinRun.start ((staff "id").relation []) (.table none "users" (some "u")) bosses.joins none [] =
          .ok r ∧
        r.collect.2 = .ok cs ∧ cs'.length = 3 ∧ (cs'.map (Composition.restrict ["u", "o"])).Perm cs ∧
          cs'.map (Composition.restrict ["u", "o"]) = cs := by
  have evaluates := Context.evaluatesRelation (staff "id") []
  have ran : (do
      let q' ← bosses.expand (staff "id").catalog (staff "id").database
      let r' ← JoinRun.start ((staff "id").relation []) (.table none "users" (some "u")) q'.joins none []
      r'.collect.2.map List.length) = .ok 3 := by decide +kernel
  obtain ⟨q', expanded, ran⟩ := Outcome.bindOk.mp ran
  obtain ⟨r', started, ran⟩ := Outcome.bindOk.mp ran
  obtain ⟨cs', collected, length⟩ := Outcome.mapOk.mp ran
  obtain ⟨r, cs, started', collected', perm, same⟩ :=
    expandKeeps (staffFills "id") evaluates bossesForward rfl expanded started collected
  refine ⟨staffFills "id", evaluates, bossesForward, q', r', cs', r, cs, expanded, started, collected,
    started', collected', length, perm, same fun p member => ?_⟩
  have listed : ∀ p ∈ bosses.references, p.1 = none ∨ p.1 = some "u" := by decide
  exact listed p member

end SelectOf

end RelQuery
