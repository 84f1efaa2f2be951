import RelQuery.Error
import RelQuery.Row

/-! Compositions: one sub-row per source of a statement, in source order, followed by the projection,
the slots of the output fields. A source whose outer join found no partner contributes a sub-row
without a row, which reads as NULL in every column. Hidden sub-rows answer to qualified references
only. -/
namespace RelQuery

/-- The reserved alias of the projection. -/
def projectionAlias : String := "$"

/-- An output field's value, or the mark of a field that is computed later. -/
inductive Slot where
  | unset
  | value (v : Value)
  deriving DecidableEq, Repr

structure SubRow where
  columns : List String
  row : Option Row
  hidden : Bool
  deriving DecidableEq, Repr

namespace SubRow

def isEmpty (s : SubRow) : Bool := s.row.isNone

def valueAt (s : SubRow) (column : Nat) : Value :=
  (s.row.bind (·.get? column)).getD .null

def index? (s : SubRow) (column : String) : Option Nat := s.columns.findIdx? (· == column)

/-- The value of a column, if the sub-row has a column of that name. -/
def read? (s : SubRow) (column : String) : Option Value := (s.index? column).map s.valueAt

end SubRow

structure Composition where
  sources : List (String × SubRow)
  slots : List (String × Slot)
  deriving DecidableEq, Repr, Inhabited

namespace Composition

def empty : Composition := ⟨[], []⟩

def push (c : Composition) (name : String) (s : SubRow) : Composition :=
  { c with sources := c.sources ++ [(name, s)] }

def hasRows (c : Composition) : Bool := c.sources.any fun s => !s.2.isEmpty

def subRow? (c : Composition) (name : String) : Option SubRow := c.sources.lookup name

def row? (c : Composition) (name : String) : Option Row := (c.subRow? name).bind (·.row)

def aliases (c : Composition) : List String := c.sources.map (·.1)

/-- The value of a qualified reference. -/
def column (c : Composition) (name column : String) : Outcome Value :=
  match c.subRow? name with
  | none => .error (.schema (.unknownAlias name))
  | some s =>
      match s.read? column with
      | none => .error (.schema (.columnNotFound name column))
      | some v => .ok v

/-- The visible sources that have a column of this name, with its values. -/
def owners (c : Composition) (column : String) : List (String × Value) :=
  c.sources.filterMap fun (name, s) =>
    if s.hidden then none else (s.read? column).map (name, ·)

/-- The value of an unqualified reference, when some visible source has the column. More than one
such source makes the reference ambiguous. -/
def find (c : Composition) (column : String) : Outcome (Option Value) :=
  match c.owners column with
  | [] => .ok none
  | [(_, v)] => .ok (some v)
  | many => .error (.schema (.ambiguousColumn column (many.map (·.1))))

def pushSlot (c : Composition) (name : String) (slot : Slot) : Composition :=
  { c with slots := c.slots ++ [(name, slot)] }

def setSlot (c : Composition) (i : Nat) (v : Value) : Composition :=
  { c with slots := c.slots.modify i fun s => (s.1, .value v) }

def slot? (c : Composition) (name : String) : Option Slot := c.slots.lookup name

def slotValue? (c : Composition) (name : String) : Option Value :=
  match c.slot? name with
  | some (.value v) => some v
  | _ => none

/-- The projected values. A slot that was never set reads as NULL. -/
def project (c : Composition) : List Value :=
  c.slots.map fun s => match s.2 with
    | .value v => v
    | .unset => .null

end Composition

end RelQuery
