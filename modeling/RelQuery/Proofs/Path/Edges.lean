import Mathlib.Logic.Relation
import RelQuery.Proofs.Path.Preserved

/-! Steps of references as edges of the catalog. Whatever a step resolves to joins a foreign key with the key
column of the table that it refers to. An incoming step leads back from that table, so the base that it
is given can only be confirmed or refused, and the steps of a path of incoming references fit together. -/
namespace RelQuery

namespace Binding

variable {c : Catalog} {database reference field source select : String} {base : Option String}
  {b next last : Binding}

/-- One side of a binding is a foreign key, and the other is the key column of the table that it refers to. -/
def IsEdge (c : Catalog) (database : String) (b : Binding) : Prop :=
  c.edge database b.base.table b.base.actingKey = .ok (b.target.table, b.target.actingKey) ∨
    c.edge database b.target.table b.target.actingKey = .ok (b.base.table, b.base.actingKey)

theorem ownerIff {referenced owner : String} : ownerOf base source field referenced = .ok owner ↔
    owner = referenced ∧ ∀ t, base = some t → referenced = t := by
  cases base with
  | none => simp [ownerOf, eq_comm]
  | some t =>
      unfold ownerOf
      simp only [Option.some.injEq, forall_eq']
      split
      · rename_i same
        simp [same, eq_comm]
      · rename_i other
        simp [Ne.symm other]

theorem incomingIff : incomingEdge c database base field source select = .ok b ↔
    ∃ owner primary, c.edge database source field = .ok (owner, primary) ∧
      (∀ t, base = some t → owner = t) ∧ b = ⟨⟨owner, primary⟩, ⟨source, field, select⟩⟩ := by
  simp only [incomingEdge, Catalog.edge, Outcome.bindOk, Outcome.pureOk, ownerIff]
  constructor
  · rintro ⟨schema, found, referenced, refers, owner, ⟨rfl, given⟩, ownerSchema, found', primary, single, rfl⟩
    exact ⟨owner, primary, ⟨schema, found, owner, refers, ownerSchema, found', primary, single, rfl⟩,
      given, rfl⟩
  · rintro ⟨owner, primary, ⟨schema, found, _, refers, ownerSchema, found', _, single, same⟩, given, rfl⟩
    cases same
    exact ⟨schema, found, owner, refers, owner, ⟨rfl, given⟩, ownerSchema, found', primary, single, rfl⟩

/-- With a base, an edge that is walked backwards without one is confirmed or refused. -/
theorem incomingBased (ok : incomingEdge c database none field source select = .ok b) (t : String) :
    incomingEdge c database (some t) field source select =
      if t = b.base.table then .ok b else .error (.schema (.unrelatedTables source field t)) := by
  simp only [incomingEdge, Outcome.bindOk, Outcome.pureOk, ownerOf, Except.ok.injEq] at ok
  obtain ⟨schema, found, referenced, refers, owner, rfl, ownerSchema, found', primary, single, rfl⟩ := ok
  simp only [incomingEdge, ownerOf, found, refers, bind, Except.bind]
  by_cases same : t = referenced
  · subst same
    simp only [if_true, found', single]
    rfl
  · simp only [same, if_false]

/-- The table that an incoming step leads to, and what it selects there. The base has no part in it. -/
def arrival (c : Catalog) (database : String) (rest : List Char) : Outcome (String × String) :=
  match Marker.split? rest with
  | none => .ok (String.ofList rest, allColumns)
  | some (table, .outgoing, select) => .ok (String.ofList table, String.ofList select)
  | some (_, .incoming, _) => do
      let inner ← resolveChars c database none rest
      return (inner.base.table, String.ofList rest)

theorem resolveInward {cs key rest : List Char} (split : Marker.split? cs = some (key, .incoming, rest))
    (base : Option String) : resolveChars c database base cs = arrival c database rest >>=
      fun target => incomingEdge c database base (String.ofList key) target.1 target.2 := by
  rw [resolveChars]
  split
  · rename_i none
    cases none.symm.trans split
  · rename_i same
    cases same.symm.trans split
  · rename_i same
    cases same.symm.trans split
    simp only
    split <;> rename_i there <;> simp only [arrival, there]
    · rfl
    · rfl
    · rw [bind_assoc]
      rfl

theorem incomingSplit (incoming : Path.isIncoming reference = true) :
    ∃ key rest, Marker.split? reference.toList = some (key, .incoming, rest) := by
  obtain ⟨⟨key, marker, rest⟩, split, same⟩ := (Option.any_eq_true ..).mp incoming
  cases of_decide_eq_true same
  exact ⟨key, rest, split⟩

theorem resolveEdge (ok : resolve c database base reference = .ok b) :
    IsEdge c database b ∧ ∀ t, base = some t → b.base.table = t := by
  rw [resolve] at ok
  rcases split : Marker.split? reference.toList with _ | ⟨key, marker, rest⟩
  · rw [resolveUnmarked split] at ok
    exact absurd ok Outcome.refuseOk
  · cases marker with
    | outgoing =>
        rw [resolveOutward split] at ok
        obtain ⟨table, target, primary, rfl, edge, rfl⟩ := outgoingIff.mp ok
        exact ⟨.inl edge, fun t given => Option.some.inj given⟩
    | incoming =>
        rw [resolveInward split] at ok
        obtain ⟨⟨source, select⟩, _, ok⟩ := Outcome.bindOk.mp ok
        obtain ⟨owner, primary, edge, given, rfl⟩ := incomingIff.mp ok
        exact ⟨.inr edge, given⟩

theorem resolveBased (incoming : Path.isIncoming reference = true)
    (ok : resolve c database none reference = .ok b) (t : String) :
    resolve c database (some t) reference = if t = b.base.table then .ok b
      else .error (.schema (.unrelatedTables b.target.table b.target.actingKey t)) := by
  obtain ⟨key, rest, split⟩ := incomingSplit incoming
  rw [resolve, resolveInward split] at ok ⊢
  obtain ⟨⟨source, select⟩, arrived, ok⟩ := Outcome.bindOk.mp ok
  obtain ⟨owner, primary, _, _, rfl⟩ := incomingIff.mp ok
  rw [arrived]
  exact incomingBased ok t

/-! The steps along a reference -/

/-- What a binding selects is a reference, which resolves from the table that the binding leads to. -/
def Continues (c : Catalog) (database : String) (b next : Binding) : Prop :=
  b.isNested = true ∧ resolve c database (some b.target.table) b.target.select = .ok next

abbrev Along (c : Catalog) (database : String) := Relation.ReflTransGen (Continues c database)

/-- Where every step goes on, there is a last one. -/
theorem terminalOk (b : Binding) (each : ∀ b', Along c database b b' → b'.isNested = true →
    ∃ next, Continues c database b' next) : ∃ last, b.terminal c database = .ok last := by
  cases nested : b.isNested with
  | false => exact ⟨b, terminalFlat nested⟩
  | true =>
      obtain ⟨next, _, found⟩ := each b .refl nested
      have shorter : next.pending < b.pending := pendingLess nested found
      obtain ⟨last, ends⟩ := terminalOk next fun b' along => each b' (.head ⟨nested, found⟩ along)
      exact ⟨last, (terminalNext nested found).trans ends⟩
termination_by b.pending

/-- All markers of a text are incoming. -/
def Backward (cs : List Char) : Prop := ∀ step ∈ (Trail.ofChars cs).steps, step.1 = .incoming

theorem backwardSplit {cs key rest : List Char} {marker : Marker} (backward : Backward cs)
    (split : Marker.split? cs = some (key, marker, rest)) : marker = .incoming ∧ Backward rest := by
  rw [Backward, Trail.ofChars] at backward
  split at backward
  · rename_i none
    cases none.symm.trans split
  · rename_i same
    cases same.symm.trans split
    exact List.forall_mem_cons.mp backward

/-- A step of incoming references leads to the table from which the next one starts. -/
theorem backwardStep {cs : List Char} (backward : Backward cs) (ok : resolveChars c database base cs = .ok b)
    (nested : b.isNested = true) : ∃ next rest, Continues c database b next ∧ Backward rest ∧
      resolveChars c database none rest = .ok next := by
  rcases split : Marker.split? cs with _ | ⟨key, marker, rest⟩
  · rw [resolveUnmarked split] at ok
    exact absurd ok Outcome.refuseOk
  · obtain ⟨rfl, more⟩ := backwardSplit backward split
    rw [resolveInward split] at ok
    obtain ⟨⟨source, select⟩, arrived, ok⟩ := Outcome.bindOk.mp ok
    obtain ⟨owner, primary, _, _, rfl⟩ := incomingIff.mp ok
    rw [arrival] at arrived
    split at arrived
    · cases arrived
      have flat : Path.isPath allColumns = false := by decide +kernel
      exact absurd (flat.symm.trans nested) (by decide)
    · rename_i split'
      exact absurd (backwardSplit more split').1 (by decide)
    · rename_i split'
      obtain ⟨inner, found, same⟩ := Outcome.bindOk.mp arrived
      cases Outcome.pureOk.mp same
      have incoming : Path.isIncoming (String.ofList rest) = true := by
        rw [Path.isIncoming, Path.starts, Path.split?, String.toList_ofList, split']
        rfl
      -- The table between the two steps is the one from which the second was resolved without a base.
      have based := resolveBased incoming (b := inner) (by rwa [resolve, String.toList_ofList])
        inner.base.table
      rw [if_pos rfl] at based
      exact ⟨inner, rest, ⟨nested, based⟩, more, found⟩

theorem backwardAlong {cs : List Char} {b' : Binding} (backward : Backward cs)
    (ok : resolveChars c database base cs = .ok b) (along : Along c database b b') :
    ∃ base' rest, Backward rest ∧ resolveChars c database base' rest = .ok b' := by
  induction along with
  | refl => exact ⟨base, cs, backward, ok⟩
  | tail _ continues ih =>
      obtain ⟨base', rest, more, found⟩ := ih
      obtain ⟨next, rest', continues', more', found'⟩ := backwardStep more found continues.1
      cases continues.2.symm.trans continues'.2
      exact ⟨none, rest', more', found'⟩

/-- A step that resolves is an edge of the catalog from the base that it is given. A base confirms or refuses
an incoming step, and a path of incoming steps resolves step by step to its end. -/
theorem resolvesEdges (ok : resolve c database base reference = .ok b) :
    IsEdge c database b ∧ (∀ t, base = some t → b.base.table = t) ∧
      (Path.isIncoming reference = true → base = none → ∀ t, resolve c database (some t) reference =
        if t = b.base.table then .ok b
        else .error (.schema (.unrelatedTables b.target.table b.target.actingKey t))) ∧
      (Backward reference.toList →
        (∀ b', Along c database b b' → b'.isNested = true → ∃ next, Continues c database b' next) ∧
          ∃ last, b.terminal c database = .ok last) := by
  obtain ⟨edge, given⟩ := resolveEdge ok
  refine ⟨edge, given, fun incoming without t => ?_, fun backward => ?_⟩
  · subst without
    exact resolveBased incoming ok t
  · have each (b' : Binding) (along : Along c database b b') (nested : b'.isNested = true) :
        ∃ next, Continues c database b' next := by
      obtain ⟨base', rest, more, found⟩ := backwardAlong backward ok along
      obtain ⟨next, _, continues, _⟩ := backwardStep more found nested
      exact ⟨next, continues⟩
    exact ⟨each, terminalOk b each⟩

/-- The users whose bosses belong to an organisation. The second step refers from users to users. -/
theorem resolvesEdgesBosses :
    let b : Binding := ⟨⟨"orgs", "id"⟩, ⟨"users", "org", "boss<~users"⟩⟩
    let resolveFrom := fun base => resolve (staffed "id") "main" base "org<~boss<~users"
    resolveFrom none = .ok b ∧ IsEdge (staffed "id") "main" b ∧ resolveFrom (some "orgs") = .ok b ∧
      resolveFrom (some "users") = .error (.schema (.unrelatedTables "users" "org" "users")) ∧
      Backward "org<~boss<~users".toList ∧ b.isNested = true ∧
      (∃ next, Continues (staffed "id") "main" b next) ∧
      ∃ last, b.terminal (staffed "id") "main" = .ok last := by
  intro b resolveFrom
  have ok : resolveFrom none = .ok b := by decide +kernel
  have backward : Backward "org<~boss<~users".toList := by
    rw [Backward]
    decide +kernel
  have nested : b.isNested = true := by decide +kernel
  obtain ⟨edge, _, based, along⟩ := resolvesEdges ok
  have confirms := based (by decide +kernel) rfl
  obtain ⟨each, ends⟩ := along backward
  exact ⟨ok, edge, confirms "orgs", confirms "users", backward, nested, each b .refl nested, ends⟩

end Binding

end RelQuery
