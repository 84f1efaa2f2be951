import RelQuery.Proofs.Expr.Parts
import RelQuery.Proofs.Path.Statements

/-! When an expansion succeeds. Whatever has been linked before, a reference can be linked as soon as it ends in
a single column, so a query is expanded exactly if all of its references do. -/
namespace RelQuery

namespace PathScope

variable {s : PathScope} {α β : Type}

def Ends (s : PathScope) (p : Reference) : Prop :=
  ∃ base binding last, s.resolve p.1 p.2 = .ok (base, binding, last) ∧ last.selectsAll = false

/-- An action that fails for no links. -/
def Succeeds (action : Linking α) : Prop := ∀ ls, ∃ r, action.run ls = .ok r

theorem succeedsPure (a : α) : Succeeds (pure a) := fun ls => ⟨(a, ls), rfl⟩

theorem succeedsBind {action : Linking α} {next : α → Linking β} (first : Succeeds action)
    (rest : ∀ a, Succeeds (next a)) : Succeeds (action >>= next) := by
  intro ls
  obtain ⟨⟨a, ls'⟩, ran⟩ := first ls
  obtain ⟨r, ran'⟩ := rest a ls'
  exact ⟨r, Outcome.bindOk.mpr ⟨(a, ls'), ran, ran'⟩⟩

theorem succeedsLift {o : Outcome α} {a : α} {next : α → Linking β} (ok : o = .ok a)
    (rest : Succeeds (next a)) : Succeeds ((liftM o : Linking α) >>= next) := by
  subst ok
  exact rest

theorem succeedsList {f : α → Linking β} {xs : List α} (each : ∀ x ∈ xs, Succeeds (f x)) :
    Succeeds (xs.mapM f) := by
  induction xs with
  | nil => exact succeedsPure []
  | cons x xs ih =>
      obtain ⟨own, others⟩ := List.forall_mem_cons.mp each
      rw [List.mapM_cons]
      exact succeedsBind own fun _ => succeedsBind (ih others) fun _ => succeedsPure _

theorem succeedsOption {f : α → Linking β} {x : Option α} (each : ∀ y ∈ x.toList, Succeeds (f y)) :
    Succeeds (x.mapM f) := by
  cases x with
  | none => exact succeedsPure none
  | some y => exact succeedsBind (each y List.mem_cons_self) fun _ => succeedsPure _

theorem succeedsLink {p : Reference} (ends : s.Ends p) : Succeeds (s.link p.1 p.2) := by
  obtain ⟨base, binding, last, resolved, plain⟩ := ends
  refine succeedsLift resolved fun ls => ?_
  simp only [plain, Bool.false_eq_true, if_false]
  exact ⟨_, rfl⟩

section
variable {g : Expr → Linking Expr}

theorem succeedsOver {frame : Option (Over Expr)} (each : ∀ p ∈ Expr.overParts frame, Succeeds (g p)) :
    Succeeds (Expr.traverseOver g frame) := by
  rcases frame with _ | window | spec
  · exact succeedsPure _
  · exact succeedsPure _
  · obtain ⟨keys, criteria⟩ := List.forall_mem_append.mp each
    refine succeedsBind (succeedsList keys) fun _ => ?_
    refine succeedsBind (succeedsList fun k member => ?_) fun _ => succeedsPure _
    exact succeedsBind (criteria _ (List.mem_map_of_mem member)) fun _ => succeedsPure _

theorem succeedsParts {e : Expr} (each : ∀ p ∈ e.parts, Succeeds (g p)) : Succeeds (Expr.traverseParts g e) := by
  cases e with
  | binary op l r =>
      exact succeedsBind (each l (by simp [Expr.parts])) fun _ =>
        succeedsBind (each r (by simp [Expr.parts])) fun _ => succeedsPure _
  | unary op e => exact succeedsBind (each e (by simp [Expr.parts])) fun _ => succeedsPure _
  | call f args => exact succeedsBind (succeedsList each) fun _ => succeedsPure _
  | aggregate func arg distinct frame =>
      obtain ⟨own, inside⟩ := List.forall_mem_append.mp each
      exact succeedsBind (succeedsOption own) fun _ => succeedsBind (succeedsOver inside) fun _ => succeedsPure _
  | between negated e low high =>
      exact succeedsBind (each e (by simp [Expr.parts])) fun _ =>
        succeedsBind (each low (by simp [Expr.parts])) fun _ =>
          succeedsBind (each high (by simp [Expr.parts])) fun _ => succeedsPure _
  | inList negated e items =>
      obtain ⟨own, others⟩ := List.forall_mem_cons.mp each
      exact succeedsBind own fun _ => succeedsBind (succeedsList others) fun _ => succeedsPure _
  | like negated e pattern => exact succeedsBind (each e (by simp [Expr.parts])) fun _ => succeedsPure _
  | _ => exact succeedsPure _

end

theorem succeedsExpr (e : Expr) (ends : ∀ p ∈ exprReferences e, s.Ends p) : Succeeds (s.expandExpr e) := by
  show Succeeds (e.substituteM s.linkOf)
  induction e using Expr.partsInduction with
  | step e ih =>
      have parts : Succeeds (Expr.traverseParts (Expr.substituteM s.linkOf) e) := by
        refine succeedsParts fun p part => ih p part fun r there => ends r ?_
        obtain ⟨n, member, own⟩ := List.mem_filterMap.mp there
        exact List.mem_filterMap.mpr ⟨n, Expr.nodesPart part member, own⟩
      rw [Expr.substituteEq]
      cases e with
      | path name reference => exact succeedsLink (ends (name, reference) List.mem_cons_self)
      | _ => exact parts

theorem succeedsExprs {es : List Expr} (ends : ∀ p ∈ es.flatMap exprReferences, s.Ends p) :
    Succeeds (es.mapM s.expandExpr) :=
  succeedsList fun e member => succeedsExpr e fun p there => ends p (List.mem_flatMap.mpr ⟨e, member, there⟩)

theorem succeedsSome {e : Option Expr} (ends : ∀ p ∈ e.toList.flatMap exprReferences, s.Ends p) :
    Succeeds (e.mapM s.expandExpr) :=
  succeedsOption fun e member => succeedsExpr e fun p there => ends p (List.mem_flatMap.mpr ⟨e, member, there⟩)

theorem succeedsSort {ks : List (SortKey Expr)} (ends : ∀ p ∈ ks.flatMap keyReferences, s.Ends p) :
    Succeeds (ks.mapM s.expandKey) :=
  succeedsList fun k member => succeedsBind
    (succeedsExpr k.expr fun p there => ends p (List.mem_flatMap.mpr ⟨k, member, there⟩)) fun _ => succeedsPure _

theorem succeedsWindow {w : String × WindowSpec Expr} (ends : ∀ p ∈ windowReferences w, s.Ends p) :
    Succeeds (s.expandWindow w) := by
  obtain ⟨keys, criteria⟩ := List.forall_mem_append.mp ends
  exact succeedsBind (succeedsExprs keys) fun _ => succeedsBind (succeedsSort criteria) fun _ => succeedsPure _

/-- A path among the fields stands for itself or, if it ends in a star, for the columns there. -/
theorem starCases {name : Option String} {reference : String} {rename : Option String}
    (ends : ∀ p ∈ s.fieldReferences (.expr (.path name reference) rename), s.Ends p) :
    (s.starReferences? name reference = none ∧ s.Ends (name, reference)) ∨
      ∃ base binding last table, s.resolve name reference = .ok (base, binding, last) ∧
        last.selectsAll = true ∧ s.catalog.lookup (s.databaseOf base) last.target.table = .ok table ∧
          s.starReferences? name reference =
            some (table.columnNames.map fun column => (name, stem reference ++ column)) := by
  cases stands : s.starReferences? name reference with
  | none =>
      rw [fieldReferences, stands] at ends
      exact .inl ⟨rfl, ends _ List.mem_cons_self⟩
  | some ps =>
      unfold starReferences? at stands
      split at stands
      · cases stands
      · rename_i base binding last resolved
        split at stands
        · rename_i star
          split at stands
          · cases stands
          · rename_i table there
            exact .inr ⟨base, binding, last, table, resolved, star, there, stands.symm⟩
        · cases stands

theorem succeedsPath {name : Option String} {reference : String} (rename : Option String)
    (ends : ∀ p ∈ s.fieldReferences (.expr (.path name reference) rename), s.Ends p) :
    Succeeds (s.expandField (.expr (.path name reference) rename)) := by
  rcases starCases ends with ⟨_, base, binding, last, resolved, plain⟩ |
    ⟨base, binding, last, table, resolved, star, there, stands⟩
  · refine succeedsLift resolved ?_
    simp only [plain, Bool.false_eq_true, if_false]
    have linked : Succeeds (s.link name reference) :=
      succeedsLink (p := (name, reference)) ⟨base, binding, last, resolved, plain⟩
    exact succeedsBind linked fun _ => succeedsPure _
  · refine succeedsLift resolved ?_
    simp only [star, if_true]
    rw [fieldReferences, stands, Option.getD_some] at ends
    refine succeedsLift there (succeedsList fun column member => ?_)
    exact succeedsBind (succeedsLink (ends _ (List.mem_map_of_mem member))) fun _ => succeedsPure _

theorem succeedsField (f : Field) (ends : ∀ p ∈ s.fieldReferences f, s.Ends p) : Succeeds (s.expandField f) := by
  have other (e : Expr) (rename : Option String) (ends : ∀ p ∈ exprReferences e, s.Ends p) :
      Succeeds (if e.hasPath then do return [Field.expr (← s.expandExpr e) (some (rename.getD e.text))]
        else return [Field.expr e rename]) := by
    split
    · exact succeedsBind (succeedsExpr e ends) fun _ => succeedsPure _
    · exact succeedsPure _
  cases f with
  | star source => exact succeedsPure _
  | expr e rename =>
      cases e with
      | path name reference => exact succeedsPath rename ends
      | _ => exact other _ rename ends

theorem succeedsQuery (q : Select) (ends : ∀ p ∈ queryReferences s q, s.Ends p) : Succeeds (q.expandWith s) := by
  obtain ⟨fields, ends⟩ := List.forall_mem_append.mp ends
  obtain ⟨condition, ends⟩ := List.forall_mem_append.mp ends
  obtain ⟨groupBy, ends⟩ := List.forall_mem_append.mp ends
  obtain ⟨having, ends⟩ := List.forall_mem_append.mp ends
  obtain ⟨orderBy, windows⟩ := List.forall_mem_append.mp ends
  have selected : Succeeds (s.expandFields q.fields) := by
    refine succeedsBind (succeedsList fun f member => ?_) fun _ => succeedsPure _
    exact succeedsField f fun p there => fields p (List.mem_flatMap.mpr ⟨f, member, there⟩)
  refine succeedsBind selected fun _ => succeedsBind (succeedsSome condition) fun _ => ?_
  refine succeedsBind (succeedsExprs groupBy) fun _ => succeedsBind (succeedsSome having) fun _ => ?_
  refine succeedsBind (succeedsSort orderBy) fun _ => ?_
  refine succeedsBind (succeedsList fun w member => ?_) fun _ => succeedsPure _
  exact succeedsWindow fun p there => windows p (List.mem_flatMap.mpr ⟨w, member, there⟩)

theorem linkedEnds {entries : List Link} {p : Reference} {ref : ColumnRef} (linked : s.Linked entries p ref) :
    s.Ends p := by
  obtain ⟨base, binding, last, resolved, plain, _⟩ := linked
  exact ⟨base, binding, last, resolved, plain⟩

end PathScope

open PathScope

namespace SelectOf

variable {q X : Select} {catalog : Catalog} {database : String} {σ : Reference → ColumnRef} {s : PathScope}

/-- The expressions outside of the fields. -/
def clauses (q : Select) : List Expr :=
  q.condition.toList ++ (q.groupBy ++ (q.having.toList ++ (q.orderBy.map (·.expr) ++
    q.windows.flatMap (·.2.exprs))))

theorem exprsEq (q : Select) : q.exprs = q.fieldExprs ++ q.clauses := by
  simp [exprs, clauses]

theorem clausesLinked : clauses (linkedQuery s q σ) = q.clauses.map (Expr.linked σ) := by
  have keys (ks : List (SortKey Expr)) :
      (ks.map (linkedKey σ)).map (·.expr) = (ks.map (·.expr)).map (Expr.linked σ) := by
    rw [List.map_map, List.map_map]
    rfl
  have windows : (q.windows.map (linkedWindow σ)).flatMap (·.2.exprs) =
      (q.windows.flatMap (·.2.exprs)).map (Expr.linked σ) := by
    rw [List.flatMap_map, List.map_flatMap]
    refine List.flatMap_congr fun w _ => ?_
    rw [WindowSpec.exprs, WindowSpec.exprs, List.map_append, ← keys]
    rfl
  simp only [clauses, linkedQuery, List.map_append, keys, windows, Option.toList_map]

theorem referencesEq :
    queryReferences s q = q.fields.flatMap s.fieldReferences ++ q.clauses.flatMap exprReferences := by
  have keys (ks : List (SortKey Expr)) : (ks.map (·.expr)).flatMap exprReferences = ks.flatMap keyReferences := by
    rw [List.flatMap_map]
    rfl
  have windows : (q.windows.flatMap (·.2.exprs)).flatMap exprReferences = q.windows.flatMap windowReferences := by
    rw [List.flatMap_assoc]
    refine List.flatMap_congr fun w _ => ?_
    rw [WindowSpec.exprs, List.flatMap_append, keys]
    rfl
  simp only [queryReferences, clauses, List.flatMap_append, keys, windows]

theorem hasPathEq (q : Select) : q.hasPath = (q.fields.any Field.hasPath || q.clauses.any Expr.hasPath) := by
  have toList (e : Option Expr) : e.toList.any Expr.hasPath = e.any Expr.hasPath := by cases e <;> simp
  simp only [hasPath, clauses, List.any_append, toList, List.any_map, List.any_flatMap, Bool.or_assoc]
  rfl

section
variable (plain : q.hasPath = false)
include plain

theorem fieldPlain {f : Field} (member : f ∈ q.fields) : f.hasPath = false := by
  rw [hasPathEq, Bool.or_eq_false_iff] at plain
  simpa using List.any_eq_false.mp plain.1 f member

theorem clausePlain {e : Expr} (member : e ∈ q.clauses) : e.hasPath = false := by
  rw [hasPathEq, Bool.or_eq_false_iff] at plain
  simpa using List.any_eq_false.mp plain.2 e member

theorem referencesPlain : queryReferences s q = [] := by
  rw [referencesEq, List.append_eq_nil_iff, List.flatMap_eq_nil_iff, List.flatMap_eq_nil_iff]
  refine ⟨fun f member => ?_, fun e member => noReferences (clausePlain plain member)⟩
  have own := fieldPlain plain member
  cases f with
  | star source => rfl
  | expr e rename => cases e <;> first | exact noReferences own | cases own

theorem linkedPlain : linkedQuery s q σ = q := by
  have exprs {es : List Expr} (inside : es ⊆ q.clauses) : es.map (Expr.linked σ) = es := by
    rw [List.map_congr_left fun e member => Expr.linkedPlain (clausePlain plain (inside member)), List.map_id']
  have option {e : Option Expr} (inside : e.toList ⊆ q.clauses) : e.map (Expr.linked σ) = e := by
    cases e with
    | none => rfl
    | some e => exact congrArg some (Expr.linkedPlain (clausePlain plain (inside List.mem_cons_self)))
  have keys {ks : List (SortKey Expr)} (inside : ks.map (·.expr) ⊆ q.clauses) : ks.map (linkedKey σ) = ks := by
    have each : ∀ k ∈ ks, linkedKey σ k = k := fun k member => by
      rw [linkedKey, Expr.linkedPlain (clausePlain plain (inside (List.mem_map_of_mem member)))]
    rw [List.map_congr_left each, List.map_id']
  have windows : q.windows.map (linkedWindow σ) = q.windows := by
    have each : ∀ w ∈ q.windows, linkedWindow σ w = w := fun w member => by
      have inside : w.2.exprs ⊆ q.clauses := fun e there => by
        simp only [clauses, List.mem_append, List.mem_flatMap]
        exact .inr (.inr (.inr (.inr ⟨w, member, there⟩)))
      rw [linkedWindow, exprs fun e there => inside (List.mem_append_left _ there),
        keys fun e there => inside (List.mem_append_right _ there)]
    rw [List.map_congr_left each, List.map_id']
  have fields : q.fields.flatMap (s.linkedField σ) = q.fields := by
    have each : ∀ f ∈ q.fields, s.linkedField σ f = [f] := fun f member => by
      cases f with
      | star source => rfl
      | expr e rename =>
          have own : e.hasPath = false := fieldPlain plain member
          cases e with
          | path name reference => cases own
          | _ => simp only [linkedField, own, Bool.false_eq_true, if_false]
    rw [List.flatMap_congr each, List.flatMap_singleton']
  rw [linkedQuery, fields, windows, option fun e there => ?_, exprs fun e there => ?_, option fun e there => ?_,
    keys fun e there => ?_]
  all_goals simp [clauses, there]

end

/-- A query is expanded exactly if each of its references ends in a column. -/
theorem expandIff : (∃ X, q.expand catalog database = .ok X) ↔
    ∀ p ∈ queryReferences ⟨catalog, database, q.allSources⟩ q, Ends ⟨catalog, database, q.allSources⟩ p := by
  constructor
  · rintro ⟨X, ok⟩ p member
    obtain ⟨entries, _, _, _, ⟨_, plain⟩ | ⟨σ, served, _⟩⟩ := expandLinks (fun _ there => there) ok
    · rw [referencesPlain plain] at member
      cases member
    · exact linkedEnds (served p member)
  · intro ends
    unfold expand
    split
    · obtain ⟨⟨q', links⟩, ran⟩ := succeedsQuery q ends (Links.new (q.allSources.map Source.name))
      refine ⟨_, Outcome.bindOk.mpr ⟨(q', links.toJoins), Outcome.bindOk.mpr ⟨(q', links), ran, rfl⟩, rfl⟩⟩
    · exact ⟨q, rfl⟩

/-- An expansion is made with the columns of its links, whether there was anything to link or not. -/
theorem expandAgrees (ok : q.expand catalog database = .ok X) : ∃ entries,
    entries.map Link.key = ((queryReferences ⟨catalog, database, q.allSources⟩ q).filterMap
        (linkKey? ⟨catalog, database, q.allSources⟩)).eraseDups ∧
      (∀ l ∈ entries, Links.Made (Purpose ⟨catalog, database, q.allSources⟩ fun _ => True) l) ∧
      (∀ p ∈ queryReferences ⟨catalog, database, q.allSources⟩ q,
        ∃ ref, Linked ⟨catalog, database, q.allSources⟩ entries p ref) ∧
      ∀ σ, Agrees ⟨catalog, database, q.allSources⟩ entries σ →
        X = { linkedQuery ⟨catalog, database, q.allSources⟩ q σ with
          joins := q.joins ++ entries.map Link.toJoin } := by
  unfold expand at ok
  split at ok
  · obtain ⟨⟨q', joins⟩, ran, last⟩ := Outcome.bindOk.mp ok
    obtain ⟨entries, rfl, keys, made, served, rewritten⟩ := runAgrees (followQuery q) ran
    cases Outcome.pureOk.mp last
    refine ⟨entries, keys, made _ fun _ _ => trivial, served, fun σ agrees => ?_⟩
    rw [rewritten σ agrees]
    rfl
  · rename_i plain
    cases ok
    have plain : q.hasPath = false := by simpa using plain
    have none : queryReferences ⟨catalog, database, q.allSources⟩ q = [] := referencesPlain plain
    refine ⟨[], by simp [none], by simp, by simp [none], fun σ _ => ?_⟩
    rw [linkedPlain plain, List.map_nil, List.append_nil]

end SelectOf

namespace Link

theorem joinOnce {l l' : Link} (same : l.toJoin = l'.toJoin) : l = l' := by
  obtain ⟨⟨base, baseKey, targetKey, target⟩, database, name, selects⟩ := l
  obtain ⟨⟨base', baseKey', targetKey', target'⟩, database', name', selects'⟩ := l'
  have field : Function.Injective selectField := by
    intro a b same
    obtain ⟨x, column⟩ := a
    obtain ⟨x', column'⟩ := b
    simp only [selectField, Field.expr.injEq, Option.some.injEq] at same
    obtain ⟨own, rfl⟩ := same
    split at own <;> split at own <;> simp_all
  obtain ⟨_, derived, condition, _⟩ := JoinOf.mk.inj same
  obtain ⟨inner, rfl⟩ := Source.derived.inj derived
  obtain ⟨_, fields, sources, _⟩ := SelectOf.mk.inj inner
  obtain ⟨_, selects⟩ := List.cons.inj fields
  cases List.map_injective_iff.mpr field selects
  cases sources
  cases condition
  rfl

theorem joinsOnce {ls ls' : List Link} (same : ls.map toJoin = ls'.map toJoin) : ls = ls' :=
  List.map_injective_iff.mpr (fun _ _ => joinOnce) same

theorem nameApart (n : Nat) : Links.nameOf n ≠ projectionAlias := by
  intro same
  have first := congrArg String.toList same
  simp [Links.nameOf, projectionAlias] at first

end Link

end RelQuery
