/-! Dictionaries as association lists in rising order of their keys. -/
namespace RelQuery

abbrev Dictionary (κ : Type) (α : Type) := List (κ × α)

namespace Dictionary

variable {κ α : Type} [Ord κ]

/-- Sets the value of a key. -/
def insert (k : κ) (v : α) : Dictionary κ α → Dictionary κ α
  | [] => [(k, v)]
  | (k', v') :: rest =>
      match compare k k' with
      | .lt => (k, v) :: (k', v') :: rest
      | .eq => (k, v) :: rest
      | .gt => (k', v') :: insert k v rest

def get? [BEq κ] (d : Dictionary κ α) (k : κ) : Option α := d.lookup k

def contains [BEq κ] (d : Dictionary κ α) (k : κ) : Bool := (d.lookup k).isSome

end Dictionary

end RelQuery
