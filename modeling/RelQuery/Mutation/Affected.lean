import RelQuery.Dictionary
import RelQuery.Select.Query

/-! What a mutation did to each source: how many rows it wrote, and their keys in the order of writing. -/
namespace RelQuery

structure AffectedRows where
  count : Nat
  keys : List Key
  deriving DecidableEq, Repr

namespace AffectedRows

def ofKeys (keys : List Key) : AffectedRows := ⟨keys.length, keys⟩

end AffectedRows

/-- The rows affected, by the name of the source. -/
abbrev Affected := Dictionary String AffectedRows

end RelQuery
