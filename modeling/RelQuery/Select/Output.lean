import RelQuery.Expr.Eval
import RelQuery.Grouping
import RelQuery.Select.Order
import RelQuery.Statement.Text

/-! Output rows of a query and the fields that they are made of. A field is evaluated for each row when
it has neither aggregates nor windows, for each group when it has aggregates only, and over all
output rows when it has windows. -/
namespace RelQuery

/-- A row of the output: the composition that stands for it and, once rows are grouped, all members of
its group. -/
structure Output where
  row : Composition
  members : Option (List Composition)
  deriving DecidableEq, Repr

namespace Output

def ofRow (row : Composition) : Output := ⟨row, none⟩

def scope (o : Output) (params : List Value) : Scope := ⟨o.row, o.members, params, false⟩

/-- The scope in which output fields are looked up first. -/
def fieldScope (o : Output) (params : List Value) : Scope :=
  { o.scope params with projectionFirst := true }

def setField (o : Output) (i : Nat) (v : Value) : Output := { o with row := o.row.setSlot i v }

end Output

inductive FieldKind where
  | direct
  | aggregate
  | window
  deriving DecidableEq, Repr

structure OutputField where
  name : String
  expr : Expr

namespace OutputField

def kind (f : OutputField) : FieldKind :=
  if f.expr.hasWindow then .window
  else if f.expr.hasPlainAggregate then .aggregate
  else .direct

def ofColumn (source column : String) : OutputField := ⟨column, .column ⟨some source, column⟩⟩

def ofSubRow (s : String × SubRow) : List OutputField := s.2.columns.map (ofColumn s.1)

/-- The fields that a field of the statement stands for. -/
def ofField (sources : Composition) (f : Field) : Outcome (List OutputField) :=
  match f with
  | .expr e _ => .ok [⟨f.outputName, e⟩]
  | .star none => .ok ((sources.sources.filter (!·.2.hidden)).flatMap ofSubRow)
  | .star (some name) =>
      match sources.subRow? name with
      | none => .error (.schema (.unknownAlias name))
      | some s => .ok (ofSubRow (name, s))

/-- A statement without fields selects every visible column. -/
def ofFields (sources : Composition) (fields : List Field) : Outcome (List OutputField) := do
  let fields := if fields.isEmpty then [.star none] else fields
  return (← fields.mapM (ofField sources)).flatten

/-- Appends the slot of a field to a composition; fields see the slots before them. -/
def pushTo (params : List Value) (c : Composition) (f : OutputField) : Outcome Composition :=
  match f.kind with
  | .direct => do return c.pushSlot f.name (.value (← f.expr.eval (.ofRow c params)))
  | _ => .ok (c.pushSlot f.name .unset)

/-- Reserves a slot for every field and fills the slots of the direct ones. -/
def project (fields : List OutputField) (params : List Value) (c : Composition) :
    Outcome Composition :=
  fields.foldlM (pushTo params) c

/-- The fields of a kind, with their positions. -/
def ofKind (fields : List OutputField) (k : FieldKind) : List (OutputField × Nat) :=
  fields.zipIdx.filter (·.1.kind = k)

/-- Fills the slots of the aggregate fields. -/
def aggregateInto (fields : List OutputField) (params : List Value) (o : Output) : Outcome Output := do
  let values ← (ofKind fields .aggregate).mapM fun (f, i) => do
    return (i, ← f.expr.eval (o.scope params))
  return values.foldl (fun o (i, v) => o.setField i v) o

end OutputField

namespace Output

def groupKey (groupBy : List Expr) (params : List Value) (c : Composition) : Outcome Key :=
  Expr.evalList groupBy ((Output.ofRow c).fieldScope params)

def ofGroup (g : Group Composition) : Option Output :=
  g.members.head?.map fun row => ⟨row, some g.members⟩

/-- Without grouping criteria all rows form one group, which is there even when they are not. -/
def ofGroups (rows : List Composition) (groupBy : List Expr) (params : List Value)
    (empty : Outcome Composition) : Outcome (List Output) :=
  if groupBy.isEmpty then
    match rows.head? with
    | some row => .ok [⟨row, some rows⟩]
    | none => do return [⟨← empty, some rows⟩]
  else do
    let keyed ← rows.mapM fun c => do return (← groupKey groupBy params c, c)
    return (Grouping.ofKeyed keyed).filterMap ofGroup

/-- Sorts output rows; criteria look output fields up first. -/
def sort (outputs : List Output) (orderBy : List (SortKey Expr)) (params : List Value) :
    Outcome (List Output) :=
  if orderBy.isEmpty then .ok outputs
  else do
    let keyed ← outputs.mapM fun o => do
      return (← Expr.evalList (orderBy.map (·.expr)) (o.fieldScope params), o)
    return (Key.sortBy (orderBy.map (·.direction)) keyed).map (·.2)

end Output

end RelQuery
