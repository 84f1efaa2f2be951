import Mathlib
import RelQuery.Proofs.Path.Mirrors
import RelQuery.Proofs.Path.Preserved
import RelQuery.Proofs.Select.Naming

/-! Answers with a window specification and with its name. The form that spells the specification out groups its
rows as soon as there is an aggregate in the specification, and the one that names it does not, so it takes a
HAVING clause that is always true to make them the same. -/
namespace RelQuery

open PathScope

namespace SelectOf

variable {q : Select} {name : String} {spec : WindowSpec Expr} {s : PathScope} {p : Reference} {e : Expr}

/-! Evaluation -/

section
variable {free : String → Prop} {X : Select} {selected : List Field} {definitions : List (String × WindowSpec Expr)}
  {evaluate : Source → Outcome Relation} {params : List Value}

theorem evalForms (forms : Forms free name spec X selected definitions)
    (reserved : ∀ x, free x → ∀ source ∈ X.allSources, source.name ≠ projectionAlias) :
    Outcome.Alike (fun r r' => r.rows = r'.rows)
      ((X.grouping spec.hasPlainAggregate).evalWith evaluate params)
      ((X.respelled selected definitions).evalWith evaluate params) := by
  unfold evalWith
  simp only [grouping, respelled]
  cases sources : X.sources with
  | nil => exact True.intro
  | cons main rest =>
      refine Outcome.alikeNext fun run ok => Outcome.alikeNext fun rows passed => ?_
      refine resultForms forms (fun c member => ?_) (JoinRun.emptySlots run) fun x read source member => ?_
      · exact JoinRun.passesSlots (JoinRun.collectPasses passed c member)
      · have listed := List.mem_map_of_mem (f := Prod.fst) member
        rw [JoinRun.emptyNames] at listed
        obtain ⟨opened, there, named⟩ := List.mem_map.mp listed
        obtain ⟨source', own, _, _, _, rfl⟩ := alikeMember (JoinRun.startOpens ok).2 there
        refine named ▸ reserved x read source' ?_
        simpa [allSources, sources, JoinOf.cross, Function.comp_def] using own

end

/-! A HAVING clause that is always true -/

section
variable {b : Bool} {catalog : Catalog} {database : String}

theorem groupingPath (q : Select) (b : Bool) : (q.grouping b).hasPath = q.hasPath := by
  have having : (q.grouping b).having.any Expr.hasPath = q.having.any Expr.hasPath := by
    unfold grouping
    cases b <;> cases q.having <;> rfl
  simp only [hasPath, having]
  rfl

theorem expandWithGrouping (q : Select) (b : Bool) :
    (q.grouping b).expandWith s = (fun X => X.grouping b) <$> q.expandWith s := by
  unfold expandWith grouping
  cases b with
  | false => simp
  | true =>
    cases q.having with
    | none => simp [expandExpr, Expr.substituteM]
    | some e => simp

theorem expandGrouping (q : Select) (b : Bool) :
    (q.grouping b).expand catalog database = (q.expand catalog database).map (·.grouping b) :=
  expandChanged (·.grouping b) (groupingPath q b) rfl (fun _ => expandWithGrouping q b) fun _ _ => rfl

theorem depthGrouping (q : Select) (b : Bool) : Source.depthOfQuery (q.grouping b) = Source.depthOfQuery q := by
  refine depthAlike rfl rfl fun p => ?_
  have clauses : p ∈ (q.grouping b).clauses.flatMap exprReferences ↔ p ∈ q.clauses.flatMap exprReferences := by
    unfold grouping
    cases b <;> cases having : q.having <;>
      simp [clauses, having, exprReferences, Expr.references, Expr.nodes, Expr.reference?]
  rw [exprsEq, exprsEq, List.flatMap_append, List.flatMap_append, List.mem_append, List.mem_append, clauses]
  exact Iff.rfl

end

/-! Queries that group their rows anyway -/

section
variable {b : Bool} {empty : Composition} {evaluate : Source → Outcome Relation} {params : List Value}

/-- A query that groups its rows, whatever its window specifications are. -/
def grouped (q : Select) : Bool :=
  !q.groupBy.isEmpty || q.having.isSome || q.fieldExprs.any Expr.hasPlainAggregate ||
    q.orderBy.any (·.expr.hasPlainAggregate)

theorem groupedFields {fields : List OutputField} (grouped : q.grouped = true)
    (own : OutputField.ofFields empty q.fields = .ok fields) : q.isGrouped fields = true := by
  have some : q.fieldExprs.any Expr.hasPlainAggregate = true → fields.any (·.expr.hasPlainAggregate) = true := by
    intro some
    obtain ⟨e, member, plain⟩ := List.any_eq_true.mp some
    obtain ⟨f, there, same⟩ := fieldsMember own member
    exact List.any_eq_true.mpr ⟨f, there, same ▸ plain⟩
  unfold SelectOf.grouped at grouped
  unfold isGrouped
  simp only [Bool.or_eq_true] at grouped ⊢
  exact grouped.imp_left fun left => left.imp_right some

theorem evalGrouping (grouped : q.grouped = true) :
    (q.grouping b).evalWith evaluate params = q.evalWith evaluate params := by
  unfold evalWith
  simp only [resultGrouping fun fields own => groupedFields grouped own]
  rfl

theorem groupedLinked {σ : Reference → ColumnRef} (grouped : q.grouped = true) :
    SelectOf.grouped (linkedQuery s q σ) = true := by
  have some : q.fieldExprs.any Expr.hasPlainAggregate = true →
      (fieldExprs (linkedQuery s q σ)).any Expr.hasPlainAggregate = true := by
    intro some
    obtain ⟨e, member, plain⟩ := List.any_eq_true.mp some
    refine List.any_eq_true.mpr ⟨e.linked σ, ?_, (Expr.linkedHasPlainAggregate σ e).trans plain⟩
    cases e with
    | path table reference => cases plain
    | _ => exact exprLinked member rfl
  have sorted : (q.orderBy.map (linkedKey σ)).any (·.expr.hasPlainAggregate) =
      q.orderBy.any (·.expr.hasPlainAggregate) := by
    rw [List.any_map]
    exact congrArg q.orderBy.any (funext fun k => Expr.linkedHasPlainAggregate σ k.expr)
  unfold SelectOf.grouped at grouped ⊢
  simp only [Bool.or_eq_true] at grouped ⊢
  rw [← sorted] at grouped
  rcases grouped with ((keys | having) | fields) | criteria
  · left; left; left
    simpa [linkedQuery] using keys
  · left; left; right
    simpa [linkedQuery] using having
  · left; right
    exact some fields
  · exact .inr criteria

end

/-- A query without arrow references and its other form. -/
def Respelled (free : String → Prop) (name : String) (b : Bool) (X X' : Select) : Prop :=
  ∃ spec, spec.hasPlainAggregate = b ∧ X' = X.respelled X'.fields X'.windows ∧
    Forms free name spec X X'.fields X'.windows ∧
      ∀ x, free x → ∀ source ∈ X.allSources, source.name ≠ projectionAlias

/-- Two forms of a query that make the same joins, where nothing reads a field by a text that differs, and
texts tell window calls apart. -/
structure SpellsPlainly (ctx : Context) (q : Select) (name : String) (spec : WindowSpec Expr) : Prop where
  links : ∀ X X', q.expand ctx.catalog ctx.database = .ok X →
    (q.inlined name spec).expand ctx.catalog ctx.database = .ok X' → X.joins = X'.joins
  unread : ∀ e, .expr e none ∈ q.fields → e.names name = true →
    q.Unread e.text ∧ q.Unread (e.inlined name spec).text
  texts : ∀ X own, q.expand ctx.catalog ctx.database = .ok X → X.windows.lookup name = some own →
    Windows.ToldApart name own (X.fieldExprs.flatMap Windows.calls)

end SelectOf

namespace Context

variable {ctx : Context} {q X X' : Select} {name : String} {spec : WindowSpec Expr} {params : List Value}

/-- Where both forms make the same joins, one substitution serves both. -/
theorem expandOnce {catalog : Catalog} {database : String} (ok : q.expand catalog database = .ok X)
    (ok' : (q.inlined name spec).expand catalog database = .ok X') (joins : X.joins = X'.joins) :
    ∃ entries σ,
      (∀ l ∈ entries, Links.Made (Purpose ⟨catalog, database, q.allSources⟩ fun _ => True) l) ∧
      (∀ p ∈ queryReferences ⟨catalog, database, q.allSources⟩ q,
        Linked ⟨catalog, database, q.allSources⟩ entries p (σ p)) ∧
      X = { linkedQuery ⟨catalog, database, q.allSources⟩ q σ with
        joins := q.joins ++ entries.map Link.toJoin } ∧
      X' = { linkedQuery ⟨catalog, database, q.allSources⟩ (q.inlined name spec) σ with
        joins := q.joins ++ entries.map Link.toJoin } := by
  obtain ⟨entries, _, made, served, expanded⟩ := SelectOf.expandAgrees ok
  obtain ⟨entries', _, _, _, expanded'⟩ := SelectOf.expandAgrees ok'
  obtain ⟨σ, agrees⟩ := agreesExists ⟨catalog, database, q.allSources⟩ entries
  obtain ⟨σ', agrees'⟩ := agreesExists ⟨catalog, database, q.allSources⟩ entries'
  have same : entries = entries' := by
    rw [expanded σ agrees, expanded' σ' agrees'] at joins
    exact Link.joinsOnce (List.append_cancel_left joins)
  subst same
  refine ⟨entries, σ, made, fun p member => ?_, expanded σ agrees, expanded' σ agrees⟩
  obtain ⟨ref, linked⟩ := served p member
  rwa [agrees p ref linked]

theorem expandRespelled (named : q.NamesWindow name spec) (plainly : q.SpellsPlainly ctx name spec)
    (ok : q.expand ctx.catalog ctx.database = .ok X)
    (ok' : (q.inlined name spec).expand ctx.catalog ctx.database = .ok X') :
    SelectOf.Respelled q.Unread name spec.hasPlainAggregate X X' := by
  obtain ⟨entries, σ, made, served, own, other⟩ := expandOnce ok ok' (plainly.links X X' ok ok')
  have defines : Windows.Defines X.windows name (Expr.mapSpec (Expr.linked σ) spec)
      ((q.inlined name spec).windows.map (linkedWindow σ)) := by
    rw [own]
    exact SelectOf.definesLinked named.defines
  have texts := plainly.texts X _ ok (Windows.definesName defines)
  rw [own] at texts
  have forms := SelectOf.formsLinked named made served plainly.unread texts
  subst own other
  refine ⟨_, Expr.linkedSpecAggregate σ spec, rfl,
    ⟨forms.fields, forms.defines, forms.used, forms.unbased, forms.spares, forms.texts⟩, ?_⟩
  intro x read source member
  simp only [SelectOf.allSources, linkedQuery, List.map_append, List.map_map, ← List.append_assoc] at member
  rcases List.mem_append.mp member with before | linked
  · exact read.2 source before
  · obtain ⟨l, listed, rfl⟩ := List.mem_map.mp linked
    obtain ⟨n, numbered⟩ := (made l listed).named
    show l.name ≠ projectionAlias
    rw [numbered]
    exact Link.nameApart n

theorem expandNamed (named : q.NamesWindow name spec) (plainly : q.SpellsPlainly ctx name spec) :
    Outcome.Alike (SelectOf.Respelled q.Unread name spec.hasPlainAggregate)
      (q.expand ctx.catalog ctx.database) ((q.inlined name spec).expand ctx.catalog ctx.database) := by
  have both : (∃ X, q.expand ctx.catalog ctx.database = .ok X) ↔
      ∃ X, (q.inlined name spec).expand ctx.catalog ctx.database = .ok X := by
    rw [SelectOf.expandIff, SelectOf.expandIff]
    exact forall_congr' fun p => imp_congr_left (SelectOf.queryReferencesNamed named).symm
  cases ok : q.expand ctx.catalog ctx.database with
  | ok X =>
      obtain ⟨X', ok'⟩ := both.mp ⟨X, ok⟩
      rw [ok']
      exact expandRespelled named plainly ok ok'
  | error e =>
      cases ok' : (q.inlined name spec).expand ctx.catalog ctx.database with
      | error e' => exact True.intro
      | ok X' =>
          obtain ⟨X, own⟩ := both.mpr ⟨X', ok'⟩
          cases ok.symm.trans own

theorem groupedInlined (named : q.NamesWindow name spec) (plainly : q.SpellsPlainly ctx name spec)
    (params : List Value) : Outcome.Alike (fun r r' => r.rows = r'.rows)
      (ctx.select params (q.grouping spec.hasPlainAggregate)) (ctx.select params (q.inlined name spec)) := by
  rw [select, select, SelectOf.depthNamed named, SelectOf.depthGrouping, selectWithinEq, selectWithinEq,
    SelectOf.expandGrouping]
  have forms := expandNamed named plainly
  cases ok : q.expand ctx.catalog ctx.database <;>
    cases ok' : (q.inlined name spec).expand ctx.catalog ctx.database <;> rw [ok, ok'] at forms
  · exact True.intro
  · exact forms.elim
  · exact forms.elim
  · rename_i X X'
    obtain ⟨spec', same, form, forms, reserved⟩ := forms
    rw [← same]
    generalize X'.fields = selected at form forms
    generalize X'.windows = definitions at form forms
    subst form
    exact SelectOf.evalForms forms reserved

theorem selectGrouped (grouped : q.grouped = true) (b : Bool) (params : List Value) :
    ctx.select params (q.grouping b) = ctx.select params q := by
  rw [select, select, SelectOf.depthGrouping, selectWithinEq, selectWithinEq, SelectOf.expandGrouping]
  cases ok : q.expand ctx.catalog ctx.database with
  | error e => rfl
  | ok X =>
      obtain ⟨entries, _, _, _, expanded⟩ := SelectOf.expandAgrees ok
      obtain ⟨σ, agrees⟩ := agreesExists ⟨ctx.catalog, ctx.database, q.allSources⟩ entries
      have linked : X.grouped = true := by
        rw [expanded σ agrees]
        exact SelectOf.groupedLinked grouped
      exact SelectOf.evalGrouping linked

/-- A query gives the same rows with a specification and with its name exactly if it also does with a HAVING
clause that is always true, where the specification has an aggregate of its own. It does if there is none, or
the query groups its rows anyway. -/
theorem inlinedIff (named : q.NamesWindow name spec) (plainly : q.SpellsPlainly ctx name spec)
    (params : List Value) :
    (((ctx.select params (q.inlined name spec)).map (·.rows)).toOption =
          ((ctx.select params q).map (·.rows)).toOption ↔
        ((ctx.select params (q.grouping spec.hasPlainAggregate)).map (·.rows)).toOption =
          ((ctx.select params q).map (·.rows)).toOption) ∧
      ((spec.hasPlainAggregate = true → q.grouped = true) →
        ((ctx.select params (q.inlined name spec)).map (·.rows)).toOption =
          ((ctx.select params q).map (·.rows)).toOption) := by
  rw [← Outcome.alikeMapped (groupedInlined named plainly params) fun _ _ same => same]
  refine ⟨Iff.rfl, fun safe => ?_⟩
  cases aggregate : spec.hasPlainAggregate with
  | false => rfl
  | true => rw [selectGrouped (safe aggregate)]

/-! Rankings of users by the sums of their keys -/

def bySum : WindowSpec Expr :=
  ⟨none, [], [⟨.aggregate .sum (some (.column ⟨none, "id"⟩)) false none, .asc⟩]⟩

def ranking (groupBy : List Expr) : Select where
  distinct := false
  fields := [.expr (.aggregate .rank none false (some (.named "w"))) none]
  sources := [.table none "users" none]
  joins := []
  condition := none
  groupBy := groupBy
  having := none
  windows := [("w", bySum)]
  orderBy := []
  limit := none
  offset := none

def byOrganisation : Select := ranking [.column ⟨none, "org"⟩]

theorem rankingNames (groupBy : List Expr) : (ranking groupBy).NamesWindow "w" bySum := by
  refine ⟨⟨⟨[], [], rfl, rfl⟩, rfl, fun d member => ?_⟩, rfl, fun e member n inside => ?_⟩
  · cases member
  · cases List.mem_singleton.mp member
    cases List.mem_singleton.mp inside
    rfl

theorem rankingPlainly : byOrganisation.SpellsPlainly (staff "id") "w" bySum := by
  have own : byOrganisation.expand (staff "id").catalog (staff "id").database = .ok byOrganisation := rfl
  have nodes : byOrganisation.exprs.flatMap Expr.nodes = [.aggregate .rank none false (some (.named "w")),
    .column ⟨none, "org"⟩, .aggregate .sum (some (.column ⟨none, "id"⟩)) false none, .column ⟨none, "id"⟩] := rfl
  have unread (x : String) (apart : x ≠ "org" ∧ x ≠ "id") : byOrganisation.Unread x := by
    refine ⟨fun e member ref inside _ same => ?_, by decide⟩
    have column := List.mem_flatMap.mpr ⟨e, member, inside⟩
    simp only [nodes, List.mem_cons, Expr.column.injEq, reduceCtorEq, List.not_mem_nil, false_or, or_false] at column
    rcases column with rfl | rfl
    · exact apart.1 same.symm
    · exact apart.2 same.symm
  refine ⟨fun X X' ok ok' => ?_, fun e member _ => ?_, fun X spec ok _ => ?_⟩
  · cases own.symm.trans ok
    cases ok'
    rfl
  · cases List.mem_singleton.mp member
    exact ⟨unread _ (by decide +kernel), unread _ (by decide +kernel)⟩
  · cases own.symm.trans ok
    have calls : byOrganisation.fieldExprs.flatMap Windows.calls =
        [.aggregate .rank none false (some (.named "w"))] := rfl
    rw [calls]
    refine ⟨fun c first d second _ => ?_, fun c first d second _ => .inl ?_⟩
    · rw [List.mem_singleton.mp first, List.mem_singleton.mp second]
      exact ⟨rfl, rfl⟩
    · rw [List.mem_singleton.mp first, List.mem_singleton.mp second]

theorem rankingInterchanges :
    (((staff "id").select [] (byOrganisation.inlined "w" bySum)).map (·.rows)).toOption =
        (((staff "id").select [] byOrganisation).map (·.rows)).toOption ∧
      (staff "id").select [] byOrganisation = .ok ⟨["RANK() OVER w"], [[.int 2], [.int 1]]⟩ := by
  exact ⟨(inlinedIff (rankingNames _) rankingPlainly []).2 fun _ => rfl, by cbv⟩

/-- An aggregate in the specification makes one group of all rows only where it is spelled out. -/
theorem rankingMisnamed :
    ((staff "id").select [] ((ranking []).inlined "w" bySum)).map (·.rows) = .ok [[.int 1]] ∧
      (staff "id").select [] (ranking []) = .error (.invalidOperation (.aggregateOutside "SUM(id)")) ∧
      (((staff "id").select [] ((ranking []).inlined "w" bySum)).map (·.rows)).toOption ≠
        (((staff "id").select [] (ranking [])).map (·.rows)).toOption := by
  have spelled : ((staff "id").select [] ((ranking []).inlined "w" bySum)).map (·.rows) = .ok [[.int 1]] := by
    decide +kernel
  have named : (staff "id").select [] (ranking []) = .error (.invalidOperation (.aggregateOutside "SUM(id)")) := by
    decide +kernel
  refine ⟨spelled, named, ?_⟩
  rw [spelled, named]
  exact nofun

end Context

end RelQuery
