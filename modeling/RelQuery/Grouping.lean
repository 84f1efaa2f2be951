import RelQuery.Value.Order
import Std.Data.TreeMap
import Std.Data.TreeSet

/-! Grouping by key. Groups come in the order of their first members and members in input order;
two items share a group when their keys are equal as query values. -/
namespace RelQuery

structure Group (α : Type) where
  key : Key
  members : List α

namespace Grouping

variable {α : Type}

/-- Keeps an item unless an equal one was met. -/
def keepFirst {order : α → α → Ordering} (kept : Std.TreeSet α order × Array α) (x : α) :
    Std.TreeSet α order × Array α :=
  if kept.1.contains x then kept else (kept.1.insert x, kept.2.push x)

/-- The first of every run of equal items, wherever they stand. -/
def firsts (order : α → α → Ordering) (items : List α) : List α :=
  let start : Std.TreeSet α order × Array α := (∅, #[])
  (items.foldl keepFirst start).2.toList

/-- The items of every key, the last one first. -/
def membersByKey (keyed : List (Key × α)) : Std.TreeMap Key (List α) Key.order :=
  keyed.foldl (fun groups (key, item) => groups.insert key (item :: groups.getD key [])) ∅

def ofKeyed (keyed : List (Key × α)) : List (Group α) :=
  let groups := membersByKey keyed
  (firsts Key.order (keyed.map (·.1))).map fun key => ⟨key, (groups.getD key []).reverse⟩

end Grouping

end RelQuery
