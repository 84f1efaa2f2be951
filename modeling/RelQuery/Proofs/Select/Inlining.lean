import RelQuery.Proofs.Select.Filling

/-! Queries with and without a name for a window specification. -/
namespace RelQuery

namespace Field

def inlined (name : String) (spec : WindowSpec Expr) : Field → Field
  | .expr e rename => .expr (e.inlined name spec) rename
  | .star source => .star source

end Field

namespace SelectOf

/-- The query with a window's specification in the place of its name. -/
def inlined (q : Select) (name : String) (spec : WindowSpec Expr) : Select :=
  { q with fields := q.fields.map (Field.inlined name spec), windows := q.windows.filter (·.1 != name) }

/-- The query with a HAVING clause, if only one that is always true. -/
def grouping (q : Select) (b : Bool) : Select :=
  { q with having := if b then some (q.having.getD (.literal (.boolean true))) else q.having }

def respelled (q : Select) (fields : List Field) (windows : List (String × WindowSpec Expr)) : Select :=
  { q with fields := fields, windows := windows }

end SelectOf

namespace OutputField

structure Spelled (free : String → Prop) (name : String) (spec : WindowSpec Expr) (all : List Expr)
    (f f' : OutputField) : Prop where
  named : f.name = f'.name ∨ free f.name ∧ free f'.name
  expr : f'.expr = f.expr.inlined name spec
  spares : f.expr.Spares free
  inside : Windows.calls f.expr ⊆ all

variable {free : String → Prop} {name : String} {spec : WindowSpec Expr} {all : List Expr}
  {f f' : OutputField} {fields fields' : List OutputField}

theorem spelledKind (spelled : f.Spelled free name spec all f') : f'.kind = f.kind := by
  unfold kind
  rw [spelled.expr, Expr.inlinedHasWindow]
  cases window : f.expr.hasWindow with
  | true => rfl
  | false =>
      rw [Expr.inlinedAbsent (Expr.namesWindow window)]

theorem spelledRelabeled (spelled : f.Spelled free name spec all f') : f.Relabeled free f' := by
  refine ⟨spelled.named, spelledKind spelled, fun other => ?_, spelled.spares⟩
  have window : f.expr.hasWindow = false := by
    cases window : f.expr.hasWindow with
    | false => rfl
    | true => exact absurd (by rw [kind, if_pos window]) other
  rw [spelled.expr, Expr.inlinedAbsent (Expr.namesWindow window)]

end OutputField

namespace SelectOf

variable {free : String → Prop} {name : String} {spec : WindowSpec Expr} {q : Select} {selected : List Field}
  {definitions : List (String × WindowSpec Expr)} {params : List Value}
  {rows : List Composition} {empty : Composition} {fields fields' : List OutputField}

inductive FieldForm (free : String → Prop) (name : String) (spec : WindowSpec Expr) : Field → Field → Prop
  | star (source : Option String) : FieldForm free name spec (.star source) (.star source)
  | expr {e : Expr} {rename rename' : Option String} :
      ((Field.expr e rename).outputName = (Field.expr (e.inlined name spec) rename').outputName ∨
        free (Field.expr e rename).outputName ∧
          free (Field.expr (e.inlined name spec) rename').outputName) →
      FieldForm free name spec (.expr e rename) (.expr (e.inlined name spec) rename')

/-- Other fields and window definitions for a query without arrow references. -/
structure Forms (free : String → Prop) (name : String) (spec : WindowSpec Expr) (q : Select)
    (selected : List Field) (definitions : List (String × WindowSpec Expr)) : Prop where
  fields : List.Forall₂ (FieldForm free name spec) q.fields selected
  defines : Windows.Defines q.windows name spec definitions
  used : q.fieldExprs.any (·.names name) = true
  unbased : ∀ e ∈ q.fieldExprs, ∀ n ∈ e.nodes, n.isBased name = false
  spares : ∀ e ∈ q.exprs, e.Spares free
  texts : Windows.ToldApart name spec (q.fieldExprs.flatMap Windows.calls)

section
variable (forms : Forms free name spec q selected definitions)
  (reserved : ∀ x, free x → ∀ s ∈ empty.sources, s.1 ≠ projectionAlias)
include forms

theorem exprForm {e : Expr} (member : e ∈ q.fieldExprs) :
    e.Spares free ∧ Windows.calls e ⊆ q.fieldExprs.flatMap Windows.calls := by
  refine ⟨forms.spares e ?_, fun c inside => List.mem_flatMap.mpr ⟨e, member, inside⟩⟩
  simp [exprs, member]

include reserved

theorem fieldSpelled {field field' : Field} (listed : field ∈ q.fields)
    (form : FieldForm free name spec field field') :
    Outcome.Alike (List.Forall₂ (OutputField.Spelled free name spec (q.fieldExprs.flatMap Windows.calls)))
      (OutputField.ofField empty field) (OutputField.ofField empty field') := by
  have columns : ∀ s ∈ empty.sources, ∀ f ∈ OutputField.ofSubRow s,
      f.Spelled free name spec (q.fieldExprs.flatMap Windows.calls) f := by
    intro s there f member
    obtain ⟨column, _, rfl⟩ := List.mem_map.mp member
    refine ⟨.inl rfl, rfl, fun ref inside projects read => ?_, List.nil_subset _⟩
    cases List.mem_singleton.mp inside
    rcases projects with none | own
    · cases none
    · exact reserved _ read s there (Option.some.inj own)
  cases form with
  | @expr e rename rename' named =>
      have member : e ∈ q.fieldExprs := List.mem_filterMap.mpr ⟨_, listed, rfl⟩
      obtain ⟨spares, inside⟩ := exprForm forms member
      exact .cons ⟨named, rfl, spares, inside⟩ .nil
  | star source =>
      cases source with
      | none =>
          refine List.forall₂_same.mpr fun f member => ?_
          obtain ⟨s, visible, member⟩ := List.mem_flatMap.mp member
          exact columns s (List.mem_of_mem_filter visible) f member
      | some source =>
          simp only [OutputField.ofField, Composition.subRow?]
          cases found : empty.sources.lookup source with
          | none => exact True.intro
          | some s =>
              obtain ⟨before, after, split, _⟩ := List.lookup_eq_some_iff.mp found
              exact List.forall₂_same.mpr (columns (source, s) (by simp [split]))

theorem fieldsSpelled :
    Outcome.Alike (List.Forall₂ (OutputField.Spelled free name spec (q.fieldExprs.flatMap Windows.calls)))
      (OutputField.ofFields empty q.fields) (OutputField.ofFields empty selected) := by
  have listed := (List.forall₂_and_left _ _).mpr
    ⟨fun (field : Field) (member : field ∈ q.fields) => member, forms.fields⟩
  have each := Outcome.alikeMapM listed fun field field' one => fieldSpelled forms reserved one.1 one.2
  have used := forms.used
  unfold fieldExprs at used
  cases own : q.fields with
  | nil =>
      rw [own] at used
      cases used
  | cons field fields =>
      cases own' : selected with
      | nil =>
          rw [own, own'] at listed
          cases listed
      | cons field' fields' =>
          rw [own, own'] at each
          exact Outcome.alikeBind each fun fields fields' all => List.rel_flatten all

end

theorem fieldsMember {e : Expr} (ok : OutputField.ofFields empty q.fields = .ok fields)
    (member : e ∈ q.fieldExprs) : ∃ f ∈ fields, f.expr = e := by
  obtain ⟨field, listed, one⟩ := List.mem_filterMap.mp member
  cases field with
  | star source => cases one
  | expr e rename =>
      cases one
      unfold OutputField.ofFields at ok
      have some : q.fields.isEmpty = false := List.isEmpty_eq_false_iff.mpr (List.ne_nil_of_mem listed)
      rw [some] at ok
      obtain ⟨parts, each, last⟩ := Outcome.bindOk.mp ok
      cases Outcome.pureOk.mp last
      obtain ⟨part, there, own⟩ := alikeMember (Outcome.mapMOk.mp each).flip listed
      cases own
      exact ⟨_, List.mem_flatten.mpr ⟨_, there, List.mem_singleton_self _⟩, rfl⟩

theorem aggregatesSpelled {all : List Expr}
    (spelled : List.Forall₂ (OutputField.Spelled free name spec all) fields fields') :
    fields'.any (·.expr.hasPlainAggregate) = (fields.any (·.expr.hasPlainAggregate) ||
      fields.any (·.expr.names name) && spec.hasPlainAggregate) := by
  induction spelled with
  | nil => rfl
  | cons one _ ih =>
      rw [List.any_cons, List.any_cons, List.any_cons, ih, one.expr, Expr.inlinedHasPlainAggregate,
        Bool.and_or_distrib_right]
      ac_rfl

theorem groupedSpelled {all : List Expr} (forms : Forms free name spec q selected definitions)
    (own : OutputField.ofFields empty q.fields = .ok fields)
    (spelled : List.Forall₂ (OutputField.Spelled free name spec all) fields fields') :
    (q.respelled selected definitions).isGrouped fields' =
      (q.grouping spec.hasPlainAggregate).isGrouped fields := by
  have used : fields.any (·.expr.names name) = true := by
    obtain ⟨e, member, names⟩ := List.any_eq_true.mp forms.used
    obtain ⟨f, there, same⟩ := fieldsMember own member
    exact List.any_eq_true.mpr ⟨f, there, same ▸ names⟩
  unfold isGrouped grouping respelled
  rw [aggregatesSpelled spelled, used, Bool.true_and]
  cases spec.hasPlainAggregate with
  | false => simp
  | true => simp

theorem filterTrue (outputs : List Output) :
    (outputs.filterM fun o => (Expr.literal (.boolean true)).satisfied (o.fieldScope params)) = .ok outputs := by
  have marks : outputs.mapM (Outcome.marked fun o =>
      (Expr.literal (.boolean true)).satisfied (o.fieldScope params)) = .ok (outputs.map (·, true)) := by
    rw [Outcome.mapMOk, List.forall₂_map_right_iff, List.forall₂_same]
    exact fun o _ => rfl
  rw [Outcome.filterEq, marks]
  simp [Except.map, Outcome.chosen, List.filter_map, Function.comp_def]

/-- A HAVING clause that is always true keeps every group. -/
theorem filterGrouping (b : Bool) (outputs : List Output) :
    (q.grouping b).filterGroups params outputs = q.filterGroups params outputs := by
  cases b with
  | false => rfl
  | true =>
      simp only [filterGroups, grouping, if_true]
      cases q.having with
      | none => exact filterTrue outputs
      | some e => rfl

theorem resultGrouping {b : Bool}
    (grouped : ∀ fields, OutputField.ofFields empty q.fields = .ok fields → q.isGrouped fields = true) :
    (q.grouping b).result params rows empty = q.result params rows empty := by
  unfold result
  cases own : OutputField.ofFields empty q.fields with
  | error e =>
      have own' : OutputField.ofFields empty (q.grouping b).fields = .error e := own
      rw [own']
      rfl
  | ok fields =>
      have own' : OutputField.ofFields empty (q.grouping b).fields = .ok fields := own
      have same : (q.grouping b).isGrouped fields = q.isGrouped fields := by
        cases b with
        | false => rfl
        | true =>
            rw [grouped fields own]
            simp [isGrouped, grouping]
      have outputs : (q.grouping b).outputs fields params rows empty = q.outputs fields params rows empty := by
        unfold outputs group
        rw [same]
        rfl
      rw [own']
      simp only [bind, Except.bind, outputs, filterGrouping]
      rfl

section
variable (forms : Forms free name spec q selected definitions)
  (spelled : List.Forall₂ (OutputField.Spelled free name spec (q.fieldExprs.flatMap Windows.calls)) fields fields')
include forms spelled

theorem outputsForms (params : List Value) (rows : List Composition)
    (own : OutputField.ofFields empty q.fields = .ok fields) :
    Outcome.Alike (List.Forall₂ (Output.Relabeled free))
      ((q.grouping spec.hasPlainAggregate).outputs fields params rows empty)
      ((q.respelled selected definitions).outputs fields' params rows empty) := by
  have relabeled := spelled.imp fun f f' one => OutputField.spelledRelabeled one
  have same (c : Composition) : c.Relabeled free c :=
    ⟨rfl, List.forall₂_same.mpr fun s _ => ⟨rfl, .inl rfl⟩⟩
  have project (c : Composition) : Outcome.Alike (Composition.Relabeled free)
      (OutputField.project fields params c) (OutputField.project fields' params c) :=
    OutputField.projectRelabeled relabeled (same c)
  have rows : Outcome.Alike (List.Forall₂ (Composition.Relabeled free))
      (rows.mapM (OutputField.project fields params)) (rows.mapM (OutputField.project fields' params)) := by
    refine Outcome.alikeMapM (R := Eq) (List.forall₂_same.mpr fun _ _ => rfl) fun c c' one => ?_
    exact one ▸ project c
  refine Outcome.alikeBind rows fun cs cs' alike => ?_
  have grouped : Outcome.Alike (List.Forall₂ (Output.Relabeled free))
      ((q.grouping spec.hasPlainAggregate).group fields params cs
        (OutputField.project fields params empty))
      ((q.respelled selected definitions).group fields' params cs'
        (OutputField.project fields' params empty)) := by
    unfold group
    rw [groupedSpelled forms own spelled]
    split
    · refine Output.groupsRelabeled alike (project empty) fun e member => forms.spares e ?_
      simp only [exprs, List.mem_append]
      exact .inl (.inl (.inl (.inr member)))
    · refine List.rel_map (fun c c' one => ?_) alike
      exact Output.relabeledRow one
  refine Outcome.alikeBind grouped fun os os' alike => ?_
  exact Outcome.alikeMapM alike fun o o' one => OutputField.aggregateRelabeled relabeled one

theorem windowsForms {outputs outputs' : List Output}
    (alike : List.Forall₂ (Output.Relabeled free) outputs outputs')
    (pending : OutputField.Pending (OutputField.ofKind fields .window) outputs) :
    Outcome.Alike (List.Forall₂ (Output.Relabeled free)) (q.fillWindows fields params outputs)
      ((q.respelled selected definitions).fillWindows fields' params outputs') := by
  have checks : Outcome.Alike Eq (checkWindows (Windows.new q.windows params))
      (checkWindows (Windows.new (q.respelled selected definitions).windows params)) :=
    Outcome.alikeUnit (Windows.checkLeft forms.defines)
  refine Outcome.alikeBind checks fun _ _ _ => ?_
  have common : Windows.Spelled free name spec (q.fieldExprs.flatMap Windows.calls) q.windows
      (q.respelled selected definitions).windows := by
    refine ⟨forms.defines, fun c member => ?_, fun c member => ?_,
      fun d listed e member => forms.spares e ?_, forms.texts⟩
    · obtain ⟨e, field, inside⟩ := List.mem_flatMap.mp member
      exact forms.unbased e field c (List.mem_of_mem_filter inside)
    · obtain ⟨e, field, inside⟩ := List.mem_flatMap.mp member
      exact Expr.sparesNode (exprForm forms field).1 (List.mem_of_mem_filter inside)
    · exact List.mem_append_right _ (List.mem_flatMap.mpr ⟨d, listed, member⟩)
  have places := OutputField.placesNodup fields .window
  have kinds := OutputField.kindsAlike (fun f f' one => OutputField.spelledKind one) spelled .window
  have entries : List.Forall₂ (Windows.FieldSpelled free name spec (q.fieldExprs.flatMap Windows.calls))
      (OutputField.ofKind fields .window) (OutputField.ofKind fields' .window) :=
    kinds.imp fun entry entry' ⟨one, _, place⟩ => ⟨one.inside, one.spares, one.expr, place⟩
  have filled := Windows.windowsSim common entries places pending alike (Windows.simStart params)
  refine Outcome.alikeBind filled fun r r' alike => ?_
  obtain ⟨_, os⟩ := r
  obtain ⟨_, os'⟩ := r'
  exact alike

end

theorem resultForms (forms : Forms free name spec q selected definitions) (fresh : ∀ c ∈ rows, c.slots = [])
    (none : empty.slots = []) (reserved : ∀ x, free x → ∀ s ∈ empty.sources, s.1 ≠ projectionAlias) :
    Outcome.Alike (fun r r' => r.rows = r'.rows)
      ((q.grouping spec.hasPlainAggregate).result params rows empty)
      ((q.respelled selected definitions).result params rows empty) := by
  have own := Outcome.alikeImp (fieldsSpelled forms reserved)
    fun fields fields' ok _ spelled => And.intro ok spelled
  unfold result
  refine Outcome.alikeBind own fun fields fields' ⟨ok, spelled⟩ => ?_
  have formed := Outcome.alikeImp (outputsForms forms spelled params rows ok)
    fun os os' ok _ alike => And.intro (outputsPending fresh none ok) alike
  refine Outcome.alikeBind formed fun os os' ⟨pending, alike⟩ => ?_
  have kept : Outcome.Alike (fun os os' => List.Forall₂ (Output.Relabeled free) os os' ∧
        OutputField.Pending (OutputField.ofKind fields .window) os)
      ((q.grouping spec.hasPlainAggregate).filterGroups params os)
      ((q.respelled selected definitions).filterGroups params os') := by
    rw [filterGrouping]
    have same : Outcome.Alike (List.Forall₂ (Output.Relabeled free)) (q.filterGroups params os)
        ((q.respelled selected definitions).filterGroups params os') := by
      unfold filterGroups respelled
      cases having : q.having with
      | none => exact alike
      | some e =>
          refine Output.filterRelabeled alike (forms.spares e ?_)
          simp [exprs, having]
    refine Outcome.alikeImp same fun kept kept' ok _ alike => ⟨alike, fun entry listed o member => ?_⟩
    exact pending entry listed o (filterFewer ok member)
  refine Outcome.alikeBind kept fun os os' ⟨alike, pending⟩ => ?_
  refine Outcome.alikeBind (windowsForms forms spelled alike pending) fun os os' alike => ?_
  refine Outcome.alikeBind (Output.sortRelabeled alike ?_) fun os os' alike => ?_
  · refine fun e member => forms.spares e ?_
    simp only [exprs, List.mem_append]
    exact .inl (.inr member)
  · show Page.apply _ _ = Page.apply _ _
    rw [Output.projectedRelabeled alike]
    rfl

end SelectOf

end RelQuery
