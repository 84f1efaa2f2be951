/-! LIMIT and OFFSET. A limit that carries its own offset makes the separate one void. -/
namespace RelQuery

inductive Limit where
  | count (n : Nat)
  | range (offset count : Nat)
  deriving DecidableEq, Repr

/-- How many items to skip and how many to keep after those. -/
structure Page where
  offset : Nat
  count : Option Nat
  deriving DecidableEq, Repr

namespace Page

def new (limit : Option Limit) (offset : Option Nat) : Page :=
  match limit with
  | some (.range offset count) => ⟨offset, some count⟩
  | some (.count n) => ⟨offset.getD 0, some n⟩
  | none => ⟨offset.getD 0, none⟩

def apply {α : Type} (p : Page) (items : List α) : List α :=
  match p.count with
  | some n => (items.drop p.offset).take n
  | none => items.drop p.offset

end Page

end RelQuery
