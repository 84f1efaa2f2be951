import RelQuery.Expr.Basic

/-! The order of rows under ORDER BY criteria: the first criterion that tells two keys apart decides.
Absent values come first, then NULL, then the rest; a descending criterion reverses its own order
only. Sorting keeps the input order of rows that no criterion tells apart. -/
namespace RelQuery

namespace Direction

def apply : Direction → Ordering → Ordering
  | asc, o => o
  | desc, o => o.swap

end Direction

namespace Key

def orderAt : Option Value → Option Value → Ordering
  | some a, some b => a.order b
  | none, some _ => .lt
  | some _, none => .gt
  | none, none => .eq

def compareBy : List Direction → Key → Key → Ordering
  | [], _, _ => .eq
  | d :: ds, a, b => (d.apply (orderAt a.head? b.head?)).then (compareBy ds a.tail b.tail)

/-- Sorts items by their keys. -/
def sortBy {α : Type} (ds : List Direction) (keyed : List (Key × α)) : List (Key × α) :=
  keyed.mergeSort fun a b => compareBy ds a.1 b.1 != .gt

end Key

end RelQuery
