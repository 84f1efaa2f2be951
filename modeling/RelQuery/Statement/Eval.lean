import RelQuery.Mutation.Delete
import RelQuery.Mutation.Insert
import RelQuery.Mutation.Update

/-! Evaluation of statements. A query leaves the storage as it is; a mutation answers what it leaves of
the storage also when it fails. -/
namespace RelQuery

inductive StatementOutput where
  | rows (r : ResultSet)
  | affected (a : Affected)
  deriving DecidableEq, Repr

namespace StatementOutput

def affectedBy (o : StatementOutput) (name : String) : Option AffectedRows :=
  match o with
  | affected a => a.get? name
  | rows _ => none

/-- How many rows were read or written. -/
def count : StatementOutput → Nat
  | rows r => r.rows.length
  | affected a => a.foldl (fun n t => n + t.2.count) 0

end StatementOutput

namespace Statement

def eval (s : Statement) (ctx : Context) (params : List Value) : Storage × Outcome StatementOutput :=
  match s with
  | select q => (ctx.storage, (ctx.select params q).map .rows)
  | insert i =>
      let (storage, o) := i.run ctx params
      (storage, o.map .affected)
  | update u =>
      let (storage, o) := u.run ctx params
      (storage, o.map .affected)
  | delete d =>
      let (storage, o) := d.run ctx params
      (storage, o.map .affected)

/-- A statement with joins in the place of its arrow references. -/
def expand (s : Statement) (catalog : Catalog) (database : String) : Outcome Statement :=
  match s with
  | select q => (q.expand catalog database).map select
  | insert i => .ok (insert i)
  | update u => (u.expand catalog database).map update
  | delete d => (d.expand catalog database).map delete

end Statement

end RelQuery
