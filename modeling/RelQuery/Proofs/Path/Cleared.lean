import RelQuery.Proofs.Path.Starred
import RelQuery.Proofs.Select.Naming

/-! Queries after an expansion. No clause has a reference, so a second expansion finds nothing to do, and the joins
are those of the query with one for each link behind them. Every field keeps its name and its place; a star
reference has become the columns of the table where it ends. -/
namespace RelQuery

open PathScope

theorem Expr.linkedBare (σ : Reference → ColumnRef) (e : Expr) : (e.linked σ).hasPath = false := by
  refine List.any_eq_false.mpr fun n member => ?_
  rw [linkedNodes] at member
  obtain ⟨n', _, rfl⟩ := List.mem_map.mp member
  cases n' with
  | path name reference => exact Bool.false_ne_true
  | _ =>
      rw [linkedOther rfl]
      exact Bool.false_ne_true

namespace PathScope

variable {s : PathScope} {links : List Link} {σ : Reference → ColumnRef} {e : Expr} {rename : Option String}

/-- What a field becomes. -/
inductive Becomes (s : PathScope) (links : List Link) : Field → List Field → Prop where
  | field {f f' : Field}
      (single : ∀ name reference rename, f = .expr (.path name reference) rename → s.Ends (name, reference))
      (named : f'.outputName = f.outputName) : Becomes s links f [f']
  | columns {name : Option String} {reference : String} {rename : Option String} {base : PathBase}
      {binding last : Binding} {table : TableSchema} {fields : List Field}
      (ok : s.resolve name reference = .ok (base, binding, last)) (star : last.selectsAll = true)
      (there : s.catalog.lookup (s.databaseOf base) last.target.table = .ok table)
      (each : List.Forall₂ (fun column f => ∃ ref, s.Linked links (name, stem reference ++ column) ref ∧
        f = .expr (.column ref) (some (stem reference ++ column))) table.columnNames fields)
      (selects : s.catalog.Registered → ∀ column ∈ table.columnNames,
        s.resolve name (stem reference ++ column) =
          .ok (base, binding.extend column, { last with target.select := column })) :
      Becomes s links (.expr (.path name reference) rename) fields

theorem linkedFieldBare {f f' : Field} (listed : f' ∈ s.linkedField σ f) : f'.hasPath = false := by
  cases f with
  | star source =>
      cases List.mem_singleton.mp listed
      rfl
  | expr e rename =>
      cases path : e.isPath with
      | false =>
          rw [SelectOf.linkedFieldOther path] at listed
          cases List.mem_singleton.mp listed
          exact Expr.linkedBare σ e
      | true =>
          cases e with
          | path name reference =>
              obtain ⟨p, _, given, rfl⟩ := SelectOf.linkedFieldPath listed
              rfl
          | _ => cases path

theorem otherNamed (other : e.isPath = false) : (Field.expr (e.linked σ)
    (if e.hasPath then some (rename.getD e.text) else rename)).outputName = (Field.expr e rename).outputName := by
  cases path : e.hasPath with
  | false =>
      rw [Expr.linkedPlain path]
      rfl
  | true =>
      cases rename with
      | some name => rfl
      | none =>
          cases e with
          | column ref => cases path
          | path name reference => cases other
          | _ => rfl

theorem fieldBecomes {f : Field} (served : ∀ p ∈ s.fieldReferences f, s.Linked links p (σ p)) :
    s.Becomes links f (s.linkedField σ f) := by
  have other (e : Expr) (rename : Option String) (other : e.isPath = false) :
      s.Becomes links (.expr e rename) (s.linkedField σ (.expr e rename)) := by
    rw [SelectOf.linkedFieldOther other]
    refine .field (fun name reference _ same => ?_) (otherNamed other)
    cases same
    cases other
  cases f with
  | star source => exact .field (fun _ _ _ same => nomatch same) rfl
  | expr e rename =>
      cases e with
      | path name reference =>
          have ends : ∀ p ∈ s.fieldReferences (.expr (.path name reference) rename), s.Ends p :=
            fun p member => linkedEnds (served p member)
          rcases starCases ends with ⟨stands, own⟩ | ⟨base, binding, last, table, ok, star, there, stands⟩
          · simp only [linkedField, stands]
            refine .field (fun _ _ _ same => ?_) ?_
            · cases same
              exact own
            · cases rename <;> rfl
          · simp only [fieldReferences, linkedField, stands, Option.getD_some, List.map_map] at served ⊢
            refine .columns ok star there ?_ fun registered column member => ?_
            · rw [List.forall₂_map_right_iff, List.forall₂_same]
              exact fun column member => ⟨_, served _ (List.mem_map_of_mem member), rfl⟩
            · exact resolveColumn registered ((Catalog.registeredNames registered there).2 column member) ok star
      | _ => exact other _ rename rfl

end PathScope

namespace SelectOf

variable {q q' : Select} {catalog : Catalog} {database : String}

theorem linkedBare (s : PathScope) (q : Select) (σ : Reference → ColumnRef) (joins : List Join) :
    hasPath { linkedQuery s q σ with joins := joins } = false := by
  rw [hasPathEq, Bool.or_eq_false_iff]
  constructor
  · refine List.any_eq_false.mpr fun f member => ?_
    obtain ⟨f', _, inside⟩ := List.mem_flatMap.mp member
    exact Bool.eq_false_iff.mp (linkedFieldBare inside)
  · refine List.any_eq_false.mpr fun e member => ?_
    have member : e ∈ clauses (linkedQuery s q σ) := member
    rw [clausesLinked] at member
    obtain ⟨e', _, rfl⟩ := List.mem_map.mp member
    exact Bool.eq_false_iff.mp (Expr.linkedBare σ e')

end SelectOf

/-! Users with their bosses and organisations, in a catalog that its builders put together -/

namespace TableDraft

def organisations : Outcome TableSchema := do
  let d ← new "orgs"
  let d ← d.addColumn (.new "id" .int64)
  let d ← d.addColumn (.new "name" .string)
  let d ← d.addPrimaryKey ["id"] false
  d.build

def employees : Outcome TableSchema := do
  let d ← new "users"
  let d ← d.addColumn (.new "id" .int64)
  let d ← d.addColumn (.new "org" .int64)
  let d ← d.addColumn (.new "boss" .int64)
  let d ← d.addPrimaryKey ["id"] false
  let d ← d.addForeignKey "org" "orgs"
  let d ← d.addForeignKey "boss" "users"
  d.build

variable {t : TableSchema}

theorem organisationsBuilt (ok : organisations = .ok t) : t.Built := by
  obtain ⟨d, new, ok⟩ := Outcome.bindOk.mp ok
  obtain ⟨d, id, ok⟩ := Outcome.bindOk.mp ok
  obtain ⟨d, name, ok⟩ := Outcome.bindOk.mp ok
  obtain ⟨d, key, ok⟩ := Outcome.bindOk.mp ok
  exact ⟨d, .primaryKey (.column (.column (.new new) id) name) key, ok⟩

theorem employeesBuilt (ok : employees = .ok t) : t.Built := by
  obtain ⟨d, new, ok⟩ := Outcome.bindOk.mp ok
  obtain ⟨d, id, ok⟩ := Outcome.bindOk.mp ok
  obtain ⟨d, org, ok⟩ := Outcome.bindOk.mp ok
  obtain ⟨d, boss, ok⟩ := Outcome.bindOk.mp ok
  obtain ⟨d, key, ok⟩ := Outcome.bindOk.mp ok
  obtain ⟨d, orgs, ok⟩ := Outcome.bindOk.mp ok
  obtain ⟨d, users, ok⟩ := Outcome.bindOk.mp ok
  exact ⟨d, .foreignKey (.foreignKey (.primaryKey (.column (.column (.column (.new new) id) org) boss) key)
    orgs) users, ok⟩

end TableDraft

namespace Catalog

def directory : Outcome Catalog := do
  let orgs ← TableDraft.organisations
  let users ← TableDraft.employees
  let c ← (new "main").register "main" orgs
  c.register "main" users

theorem directoryRegistered {c : Catalog} (ok : directory = .ok c) : c.Registered := by
  obtain ⟨orgs, first, ok⟩ := Outcome.bindOk.mp ok
  obtain ⟨users, second, ok⟩ := Outcome.bindOk.mp ok
  obtain ⟨before, registered, ok⟩ := Outcome.bindOk.mp ok
  exact .register (.register (.new "main") (TableDraft.organisationsBuilt first) registered)
    (TableDraft.employeesBuilt second) ok

end Catalog

namespace SelectOf

/-- What is known of the bosses of users and of their organisations. -/
def superiors : Select where
  distinct := false
  fields := [.expr (.path none "boss~>*") none, .expr (.path (some "u") "org~>name") (some "company"),
    .expr (.unary .isNull (.path none "boss~>org~>name")) none]
  sources := [.table none "users" (some "u")]
  joins := [.cross (.table none "orgs" (some "o"))]
  condition := some (.unary .isNotNull (.path none "org~>id"))
  groupBy := []
  having := none
  windows := []
  orderBy := []
  limit := none
  offset := none

end SelectOf

end RelQuery
