import RelQuery.Path.Trail
import RelQuery.Schema.Catalog

/-! What the first step of an arrow reference means: the foreign key edge of the catalog that it follows,
and what it selects on the other side, a column, every column, or a further reference. -/
namespace RelQuery

/-- The side that a step starts from. -/
structure BindingBase where
  table : String
  actingKey : String
  deriving DecidableEq, Repr

/-- The side that a step leads to. -/
structure BindingTarget where
  table : String
  actingKey : String
  select : String
  deriving DecidableEq, Repr

/-- The rows of the target whose acting key equals that of the base row. -/
structure Binding where
  base : BindingBase
  target : BindingTarget
  deriving DecidableEq, Repr

namespace Binding

def allColumns : String := "*"

def selectsAll (b : Binding) : Bool := b.target.select == allColumns

def isNested (b : Binding) : Bool := Path.isPath b.target.select

def resolveOutgoing (c : Catalog) (database : String) (base : Option String)
    (reference : String) (key rest : List Char) : Outcome Binding :=
  match base with
  | none => .refuse (.outgoingWithoutBase reference)
  | some base => do
      let field := String.ofList key
      let target ← (← c.lookup database base).foreignKey field
      let targetSchema ← c.lookup database target
      let primary ← targetSchema.singlePrimaryKey
      return ⟨⟨base, field⟩, ⟨target, primary, String.ofList rest⟩⟩

/-- The table that an incoming step starts from: the one that the foreign key refers to. -/
def ownerOf (base : Option String) (source field referenced : String) : Outcome String :=
  match base with
  | none => .ok referenced
  | some base =>
      if base = referenced then .ok base
      else .error (.schema (.unrelatedTables source field base))

/-- The edge from a table to the one that its foreign key refers to, walked backwards. -/
def incomingEdge (c : Catalog) (database : String) (base : Option String)
    (field source select : String) : Outcome Binding := do
  let referenced ← (← c.lookup database source).foreignKey field
  let owner ← ownerOf base source field referenced
  let primary ← (← c.lookup database owner).singlePrimaryKey
  return ⟨⟨owner, primary⟩, ⟨source, field, select⟩⟩

/-- Resolves the first step of a reference in characters. Where two incoming steps follow one another,
the table between them is the base of the second one. -/
def resolveChars (c : Catalog) (database : String) (base : Option String) (reference : List Char) :
    Outcome Binding :=
  match _ : Marker.split? reference with
  | none => .refuse (.notArrow (String.ofList reference))
  | some (key, .outgoing, rest) =>
      resolveOutgoing c database base (String.ofList reference) key rest
  | some (key, .incoming, rest) =>
      let edge := incomingEdge c database base (String.ofList key)
      match Marker.split? rest with
      | none => edge (String.ofList rest) allColumns
      | some (table, .outgoing, select) => edge (String.ofList table) (String.ofList select)
      | some (_, .incoming, _) => do
          let inner ← resolveChars c database none rest
          edge inner.base.table (String.ofList rest)
  termination_by reference.length
  decreasing_by exact Marker.splitShorter ‹_›

def resolve (c : Catalog) (database : String) (base : Option String) (reference : String) :
    Outcome Binding :=
  resolveChars c database base reference.toList

theorem incomingEdgeSelect {c : Catalog} {database field source select : String}
    {base : Option String} {b : Binding}
    (h : incomingEdge c database base field source select = .ok b) : b.target.select = select := by
  simp only [incomingEdge, Outcome.bindOk, Outcome.pureOk] at h
  obtain ⟨_, _, _, _, _, _, _, _, _, _, rfl⟩ := h
  rfl

theorem resolveOutgoingSelect {c : Catalog} {database reference : String} {base : Option String}
    {key rest : List Char} {b : Binding}
    (h : resolveOutgoing c database base reference key rest = .ok b) :
    b.target.select = String.ofList rest := by
  cases base with
  | none => exact absurd h Outcome.refuseOk
  | some base =>
      simp only [resolveOutgoing, Outcome.bindOk, Outcome.pureOk] at h
      obtain ⟨_, _, _, _, _, _, _, _, rfl⟩ := h
      rfl

/-- A step selects every column or a shorter reference. -/
theorem selectShorter {c : Catalog} {database : String} {base : Option String}
    {reference : List Char} {b : Binding} (h : resolveChars c database base reference = .ok b) :
    b.target.select = allColumns ∨ b.target.select.length < reference.length := by
  unfold resolveChars at h
  split at h
  · exact absurd h Outcome.refuseOk
  · rename_i hit
    rw [resolveOutgoingSelect h, String.length_ofList]
    exact .inr (Marker.splitShorter hit)
  · rename_i hit
    have shorter := Marker.splitShorter hit
    simp only at h
    split at h
    · exact .inl (incomingEdgeSelect h)
    · rename_i inner
      rw [incomingEdgeSelect h, String.length_ofList]
      exact .inr (Nat.lt_trans (Marker.splitShorter inner) shorter)
    · obtain ⟨_, _, edge⟩ := Outcome.bindOk.mp h
      rw [incomingEdgeSelect edge, String.length_ofList]
      exact .inr shorter

/-- The characters of nested references that are still to be resolved. -/
def pending (b : Binding) : Nat := if b.isNested then b.target.select.length + 1 else 0

theorem pendingLess {c : Catalog} {database : String} {b next : Binding} (nested : b.isNested)
    (h : resolve c database (some b.target.table) b.target.select = .ok next) :
    next.pending < b.pending := by
  simp only [pending, nested, ↓reduceIte]
  rcases selectShorter h with all | shorter
  · have flat : next.isNested = false := by rw [isNested, all]; rfl
    simp [flat]
  · rw [String.length_toList] at shorter
    split <;> omega

/-- The last step of the reference that a binding begins, which selects a column or every column. -/
def terminal (c : Catalog) (database : String) (b : Binding) : Outcome Binding :=
  if _ : b.isNested then
    match _ : resolve c database (some b.target.table) b.target.select with
    | .error e => .error e
    | .ok next => terminal c database next
  else .ok b
  termination_by b.pending
  decreasing_by exact pendingLess ‹_› ‹_›

end Binding

end RelQuery
