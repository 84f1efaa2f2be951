import RelQuery.Row

/-! Cursors over a snapshot of rows. Replacements staged on a cursor wait until they are taken for
writing; of several for one row the last counts, in the place of the first. -/
namespace RelQuery

structure Cursor where
  rows : Array Row
  position : Nat
  staged : List Row
  inRange : position ≤ rows.size

namespace Cursor

def start (rows : List Row) : Cursor := ⟨rows.toArray, 0, [], Nat.zero_le _⟩

def atEnd (c : Cursor) : Bool := c.rows.size ≤ c.position

def fetch (c : Cursor) : Option Row := c.rows[c.position]?

def next (c : Cursor) : Cursor :=
  if h : c.position < c.rows.size then { c with position := c.position + 1, inRange := h } else c

def rewind (c : Cursor) : Cursor := { c with position := 0, inRange := Nat.zero_le _ }

def stageRow (r : Row) : List Row → List Row
  | [] => [r]
  | r' :: rest => if r'.id = r.id then r :: rest else r' :: stageRow r rest

def stage (c : Cursor) (r : Row) : Cursor := { c with staged := stageRow r c.staged }

/-- Forgets the staged rows, which the caller has taken. -/
def unstage (c : Cursor) : Cursor := { c with staged := [] }

end Cursor

end RelQuery
