import RelQuery.Proofs.Path.Expanded
import RelQuery.Proofs.Select.Inlining

/-! Queries that name a window specification, and what expansions make of them. Spelling the specification out
changes neither which references a query has nor how deep it nests, so one substitution by columns serves both
forms. -/
namespace RelQuery

open PathScope

namespace Field

def names (name : String) : Field → Bool
  | .expr e _ => e.names name
  | .star _ => false

end Field

namespace SelectOf

variable {q : Select} {name : String} {spec : WindowSpec Expr} {s : PathScope} {p : Reference} {e : Expr}

/-- A query that names a specification without a base, for calls in its fields only. -/
structure NamesWindow (q : Select) (name : String) (spec : WindowSpec Expr) : Prop where
  defines : Windows.Defines q.windows name spec (q.windows.filter (·.1 != name))
  used : q.fieldExprs.any (·.names name) = true
  unbased : ∀ e ∈ q.fieldExprs, ∀ n ∈ e.nodes, n.isBased name = false

theorem inlinedExprs : (q.inlined name spec).fieldExprs = q.fieldExprs.map (Expr.inlined name spec) := by
  simp only [inlined, fieldExprs, List.filterMap_map, List.map_filterMap]
  refine List.filterMap_congr fun f _ => ?_
  cases f <;> rfl

theorem fieldExprsIff : e ∈ q.fieldExprs ↔ ∃ rename, .expr e rename ∈ q.fields := by
  constructor
  · intro member
    obtain ⟨f, listed, own⟩ := List.mem_filterMap.mp member
    cases f with
    | star source => cases own
    | expr e' rename =>
        cases own
        exact ⟨rename, listed⟩
  · rintro ⟨rename, listed⟩
    exact List.mem_filterMap.mpr ⟨_, listed, rfl⟩

theorem fieldReferencesInlined (f : Field) : p ∈ s.fieldReferences (f.inlined name spec) ↔
    p ∈ s.fieldReferences f ∨ f.names name = true ∧ p ∈ spec.exprs.flatMap exprReferences := by
  cases f with
  | star source => simp [Field.inlined, Field.names]
  | expr e rename =>
      cases e with
      | path table reference => simp [Field.inlined, Field.names, Expr.inlined, Expr.names, Expr.nodes, Expr.isNamed]
      | _ => exact Expr.inlinedReferences

theorem someNamed {α : Type} {xs : List α} {P P' N : α → Prop} {Q : Prop} (each : ∀ x ∈ xs, P' x ↔ P x ∨ N x ∧ Q)
    (used : ∃ x ∈ xs, N x) : (∃ x ∈ xs, P' x) ↔ (∃ x ∈ xs, P x) ∨ Q := by
  constructor
  · rintro ⟨x, member, holds⟩
    exact ((each x member).mp holds).imp (fun own => ⟨x, member, own⟩) And.right
  · rintro (⟨x, member, own⟩ | own)
    · exact ⟨x, member, (each x member).mpr (.inl own)⟩
    · obtain ⟨x, member, names⟩ := used
      exact ⟨x, member, (each x member).mpr (.inr ⟨names, own⟩)⟩

theorem deepestLe (ns : List Expr) (k n : Nat) : ns.foldl (fun n e => match e with
    | .path _ reference => max n (Path.markers reference + 1)
    | _ => n) k ≤ n ↔ k ≤ n ∧ ∀ p ∈ Expr.references ns, Path.markers p.2 + 1 ≤ n := by
  induction ns generalizing k with
  | nil => simp [Expr.references]
  | cons e ns ih =>
      rw [List.foldl_cons, ih]
      cases e with
      | path table reference =>
          have own : Expr.references (.path table reference :: ns) =
              (table, reference) :: Expr.references ns := rfl
          rw [Nat.max_le, and_assoc, own, List.forall_mem_cons]
      | _ => exact Iff.rfl

theorem pathDepthLe {es : List Expr} {n : Nat} :
    pathDepth es ≤ n ↔ ∀ p ∈ es.flatMap exprReferences, Path.markers p.2 + 1 ≤ n := by
  have references : Expr.references (es.flatMap Expr.nodes) = es.flatMap exprReferences := List.filterMap_flatMap ..
  refine (deepestLe (es.flatMap Expr.nodes) 0 n).trans ?_
  rw [references]
  exact and_iff_right (Nat.zero_le n)

theorem depthEq (q : Select) : Source.depthOfQuery q =
    max (pathDepth q.exprs) (max (Source.depthOfSources q.sources) (Source.depthOfJoins q.joins)) := by
  cases q
  rfl

/-- How deep queries nest depends on what references there are only. -/
theorem depthAlike {q' : Select} (sources : q'.sources = q.sources) (joins : q'.joins = q.joins)
    (references : ∀ p, p ∈ q'.exprs.flatMap exprReferences ↔ p ∈ q.exprs.flatMap exprReferences) :
    Source.depthOfQuery q' = Source.depthOfQuery q := by
  have paths : pathDepth q'.exprs = pathDepth q.exprs :=
    Nat.le_antisymm (pathDepthLe.mpr fun p member => pathDepthLe.mp (Nat.le_refl _) p ((references p).mp member))
      (pathDepthLe.mpr fun p member => pathDepthLe.mp (Nat.le_refl _) p ((references p).mpr member))
  rw [depthEq, depthEq, paths, sources, joins]

section
variable (named : q.NamesWindow name spec)
include named

theorem clausesNamed : e ∈ q.clauses ↔ e ∈ (q.inlined name spec).clauses ∨ e ∈ spec.exprs := by
  obtain ⟨before, after, all, others⟩ := named.defines.split
  have windows : e ∈ q.windows.flatMap (·.2.exprs) ↔
      e ∈ (q.inlined name spec).windows.flatMap (·.2.exprs) ∨ e ∈ spec.exprs := by
    rw [inlined, others, all]
    simp only [List.flatMap_append, List.flatMap_cons, List.mem_append]
    tauto
  simp only [clauses, List.mem_append, windows, inlined]
  tauto

theorem clauseReferencesNamed : p ∈ q.clauses.flatMap exprReferences ↔
    p ∈ (q.inlined name spec).clauses.flatMap exprReferences ∨ p ∈ spec.exprs.flatMap exprReferences := by
  simp only [List.mem_flatMap, clausesNamed named, or_and_right, exists_or]

theorem queryReferencesNamed : p ∈ queryReferences s (q.inlined name spec) ↔ p ∈ queryReferences s q := by
  have used : ∃ f ∈ q.fields, f.names name = true := by
    obtain ⟨e, member, names⟩ := List.any_eq_true.mp named.used
    obtain ⟨rename, listed⟩ := fieldExprsIff.mp member
    exact ⟨_, listed, names⟩
  have fields : p ∈ (q.inlined name spec).fields.flatMap s.fieldReferences ↔
      p ∈ q.fields.flatMap s.fieldReferences ∨ p ∈ spec.exprs.flatMap exprReferences := by
    rw [inlined, List.flatMap_map, List.mem_flatMap, List.mem_flatMap]
    exact someNamed (fun f _ => fieldReferencesInlined f) used
  rw [referencesEq, referencesEq, List.mem_append, List.mem_append, clauseReferencesNamed named, fields]
  tauto

theorem exprReferencesNamed : p ∈ (q.inlined name spec).exprs.flatMap exprReferences ↔
    p ∈ q.exprs.flatMap exprReferences := by
  have fields : p ∈ (q.inlined name spec).fieldExprs.flatMap exprReferences ↔
      p ∈ q.fieldExprs.flatMap exprReferences ∨ p ∈ spec.exprs.flatMap exprReferences := by
    rw [inlinedExprs, List.flatMap_map, List.mem_flatMap, List.mem_flatMap]
    exact someNamed (fun e _ => Expr.inlinedReferences) (List.any_eq_true.mp named.used)
  rw [exprsEq, exprsEq, List.flatMap_append, List.flatMap_append, List.mem_append, List.mem_append,
    clauseReferencesNamed named, fields]
  tauto

theorem depthNamed : Source.depthOfQuery (q.inlined name spec) = Source.depthOfQuery q :=
  depthAlike rfl rfl fun _ => exprReferencesNamed named

end

/-- A name under which no expression of the query reads an output field. -/
def Unread (q : Select) (x : String) : Prop :=
  (∀ e ∈ q.exprs, e.Spares (· = x)) ∧ ∀ source ∈ q.allSources, source.name ≠ projectionAlias

theorem linkedFieldOther {σ : Reference → ColumnRef} {rename : Option String} (other : e.isPath = false) :
    s.linkedField σ (.expr e rename) =
      [.expr (e.linked σ) (if e.hasPath then some (rename.getD e.text) else rename)] := by
  cases path : e.hasPath with
  | true =>
      cases e with
      | path table reference => cases other
      | _ => simp only [linkedField, path, if_true]
  | false =>
      rw [Expr.linkedPlain path]
      cases e with
      | path table reference => cases other
      | _ => simp only [linkedField, path, Bool.false_eq_true, if_false]

theorem linkedFieldPath {σ : Reference → ColumnRef} {table : Option String} {reference : String}
    {rename : Option String} {f : Field} (listed : f ∈ s.linkedField σ (.expr (.path table reference) rename)) :
    ∃ p ∈ s.fieldReferences (.expr (.path table reference) rename), ∃ given, f = .expr (.column (σ p)) given := by
  simp only [linkedField, fieldReferences] at listed ⊢
  cases star : s.starReferences? table reference with
  | none =>
      rw [star] at listed
      exact ⟨_, List.mem_cons_self, _, List.mem_singleton.mp listed⟩
  | some ps =>
      rw [star] at listed
      obtain ⟨p, member, rfl⟩ := List.mem_map.mp listed
      exact ⟨p, member, _, rfl⟩

theorem exprLinked {σ : Reference → ColumnRef} (member : e ∈ q.fieldExprs) (other : e.isPath = false) :
    e.linked σ ∈ fieldExprs (linkedQuery s q σ) := by
  obtain ⟨rename, listed⟩ := fieldExprsIff.mp member
  have own : Field.expr (e.linked σ) (if e.hasPath then some (rename.getD e.text) else rename) ∈
      s.linkedField σ (.expr e rename) := by
    rw [linkedFieldOther other]
    exact List.mem_cons_self
  exact fieldExprsIff.mpr ⟨_, List.mem_flatMap.mpr ⟨_, listed, own⟩⟩

section
variable {entries : List Link} {σ : Reference → ColumnRef}
  (made : ∀ l ∈ entries, Links.Made (s.Purpose fun _ => True) l)
  (served : ∀ p ∈ queryReferences s q, s.Linked entries p (σ p))

theorem fieldExprsLinked (member : e ∈ fieldExprs (linkedQuery s q σ)) :
    (∃ o ∈ q.fieldExprs, e = o.linked σ ∧ exprReferences o ⊆ queryReferences s q) ∨
      ∃ p ∈ queryReferences s q, e = .column (σ p) := by
  obtain ⟨rename, listed⟩ := fieldExprsIff.mp member
  obtain ⟨f, there, inside⟩ := List.mem_flatMap.mp listed
  have references : s.fieldReferences f ⊆ queryReferences s q := fun p own =>
    List.mem_append_left _ (List.mem_flatMap.mpr ⟨f, there, own⟩)
  cases f with
  | star source => simp [linkedField] at inside
  | expr o rename' =>
      have other (path : o.isPath = false) (own : s.fieldReferences (.expr o rename') = exprReferences o) :
          ∃ o ∈ q.fieldExprs, e = o.linked σ ∧ exprReferences o ⊆ queryReferences s q := by
        rw [linkedFieldOther path] at inside
        cases List.mem_singleton.mp inside
        exact ⟨o, fieldExprsIff.mpr ⟨_, there⟩, rfl, own ▸ references⟩
      cases o with
      | path table reference =>
          obtain ⟨p, own, given, same⟩ := linkedFieldPath inside
          exact .inr ⟨p, references own, (Field.expr.inj same).1⟩
      | _ => exact .inl (other rfl rfl)

include made served

theorem referenceHidden (member : p ∈ queryReferences s q) : ¬ (σ p).mayProject := by
  obtain ⟨_, _, _, _, _, l, column, found, _, same⟩ := served p member
  obtain ⟨n, own⟩ := (made l (Links.linkKeyOf found).2).named
  rw [same, own]
  rintro (none | projects)
  · cases none
  · exact Link.nameApart n (Option.some.inj projects)

theorem exprSpares (member : e ∈ exprs (linkedQuery s q σ)) : e.Spares q.Unread := by
  have linked {o : Expr} (own : o ∈ q.exprs) (references : exprReferences o ⊆ queryReferences s q) :
      (o.linked σ).Spares q.Unread := by
    intro ref inside projects read
    rcases Expr.linkedColumn inside with before | ⟨p, there, rfl⟩
    · exact read.1 o own ref before projects rfl
    · exact referenceHidden made served (references there) projects
  rw [exprsEq] at member
  rcases List.mem_append.mp member with field | clause
  · rcases fieldExprsLinked field with ⟨o, own, rfl, references⟩ | ⟨p, there, rfl⟩
    · exact linked (by simp [exprsEq, own]) references
    · intro ref inside projects _
      cases List.mem_singleton.mp inside
      exact referenceHidden made served there projects
  · rw [clausesLinked] at clause
    obtain ⟨o, own, rfl⟩ := List.mem_map.mp clause
    refine linked (by simp [exprsEq, own]) fun p there => ?_
    rw [referencesEq]
    exact List.mem_append_right _ (List.mem_flatMap.mpr ⟨o, own, there⟩)

end

/-- A field without a name of its own is called by its text, unless it is a column. -/
theorem textNamed (spec : WindowSpec Expr) (names : e.names name = true) : (Field.expr e none).outputName = e.text ∧
    (Field.expr (e.inlined name spec) none).outputName = (e.inlined name spec).text := by
  cases e with
  | column ref => cases names
  | path table reference => cases names
  | _ => exact ⟨rfl, rfl⟩

section
variable {σ : Reference → ColumnRef} {rename : Option String}

theorem linkedName (own : rename = none → (Field.expr e none).outputName = e.text) :
    (Field.expr (e.linked σ) (if e.hasPath then some (rename.getD e.text) else rename)).outputName =
      rename.getD e.text := by
  cases path : e.hasPath with
  | true => rfl
  | false =>
      rw [Expr.linkedPlain path]
      cases rename with
      | none => exact own rfl
      | some given => rfl

theorem fieldForm (apart : ∀ e, .expr e none ∈ q.fields → e.names name = true →
      q.Unread e.text ∧ q.Unread (e.inlined name spec).text) {f : Field} (member : f ∈ q.fields) :
    List.Forall₂ (FieldForm q.Unread name (Expr.mapSpec (Expr.linked σ) spec)) (s.linkedField σ f)
      (s.linkedField σ (f.inlined name spec)) := by
  cases f with
  | star source => exact .cons (.star source) .nil
  | expr e rename =>
      have other (path : e.isPath = false) :
          List.Forall₂ (FieldForm q.Unread name (Expr.mapSpec (Expr.linked σ) spec))
            (s.linkedField σ (.expr e rename)) (s.linkedField σ (.expr (e.inlined name spec) rename)) := by
        rw [linkedFieldOther path, linkedFieldOther ((Expr.inlinedPath e).trans path), Expr.linkedInlined]
        refine .cons (.expr ?_) .nil
        rw [← Expr.linkedInlined]
        cases names : e.names name with
        | false =>
            rw [Expr.inlinedAbsent names]
            exact .inl rfl
        | true =>
            obtain ⟨own, own'⟩ := textNamed spec names
            rw [linkedName fun _ => own, linkedName fun _ => own']
            cases rename with
            | none => exact .inr (apart e member names)
            | some given => exact .inl rfl
      cases e with
      | path table reference =>
          refine List.forall₂_same.mpr fun f listed => ?_
          obtain ⟨p, _, given, rfl⟩ := linkedFieldPath listed
          exact .expr (.inl rfl)
      | _ => exact other rfl

end

theorem definesLinked {σ : Reference → ColumnRef} {definitions others : List (String × WindowSpec Expr)}
    (defines : Windows.Defines definitions name spec others) :
    Windows.Defines (definitions.map (linkedWindow σ)) name (Expr.mapSpec (Expr.linked σ) spec)
      (others.map (linkedWindow σ)) := by
  obtain ⟨before, after, rfl, rfl⟩ := defines.split
  refine ⟨⟨before.map (linkedWindow σ), after.map (linkedWindow σ), ?_, List.map_append⟩, defines.root, ?_⟩
  · rw [List.map_append, List.map_cons]
    rfl
  · intro d member
    obtain ⟨o, own, rfl⟩ := List.mem_map.mp member
    exact defines.fresh o own

theorem formsLinked (named : q.NamesWindow name spec) {entries : List Link} {σ : Reference → ColumnRef}
    (made : ∀ l ∈ entries, Links.Made (s.Purpose fun _ => True) l)
    (served : ∀ p ∈ queryReferences s q, s.Linked entries p (σ p))
    (apart : ∀ e, .expr e none ∈ q.fields → e.names name = true →
      q.Unread e.text ∧ q.Unread (e.inlined name spec).text)
    (texts : Windows.ToldApart name (Expr.mapSpec (Expr.linked σ) spec)
      ((fieldExprs (linkedQuery s q σ)).flatMap Windows.calls)) :
    Forms q.Unread name (Expr.mapSpec (Expr.linked σ) spec) (linkedQuery s q σ)
      (linkedQuery s (q.inlined name spec) σ).fields (linkedQuery s (q.inlined name spec) σ).windows := by
  refine ⟨?_, ?_, ?_, ?_, fun e => exprSpares made served, texts⟩
  · have listed : List.Forall₂ (fun f f' => f ∈ q.fields ∧ f' = f.inlined name spec) q.fields
        (q.fields.map (Field.inlined name spec)) := by
      rw [List.forall₂_map_right_iff, List.forall₂_same]
      exact fun f member => ⟨member, rfl⟩
    refine List.rel_flatMap listed fun f f' one => ?_
    obtain ⟨member, rfl⟩ := one
    exact fieldForm apart member
  · exact definesLinked named.defines
  · obtain ⟨e, member, names⟩ := List.any_eq_true.mp named.used
    refine List.any_eq_true.mpr ⟨e.linked σ, ?_, (Expr.linkedNames σ e).trans names⟩
    cases e with
    | path table reference => cases names
    | _ => exact exprLinked member rfl
  · intro e member n inside
    rcases fieldExprsLinked member with ⟨o, own, rfl, _⟩ | ⟨p, _, rfl⟩
    · rw [Expr.linkedNodes] at inside
      obtain ⟨m, before, rfl⟩ := List.mem_map.mp inside
      exact (Expr.linkedBased σ m).trans (named.unbased o own m before)
    · cases List.mem_singleton.mp inside
      rfl

end SelectOf

end RelQuery
