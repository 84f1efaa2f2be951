import RelQuery.Proofs.Path.Statements

/-! References that take outgoing steps only. Each step follows a foreign key to the table that it refers to,
and what it selects there is the rest of the reference, so the query of a link expands the same path
with its first step taken. -/
namespace RelQuery

/-- The table that a foreign key refers to, with its key column. -/
def Catalog.edge (c : Catalog) (database table field : String) : Outcome (String × String) := do
  let target ← (← c.lookup database table).foreignKey field
  let key ← (← c.lookup database target).singlePrimaryKey
  return (target, key)

namespace Path

/-- A reference of outgoing steps, with what it lists: foreign keys, and last a column. -/
inductive Forward : String → List String → Prop where
  | column {column : String} (plain : split? column = none) : Forward column [column]
  | step {reference : String} {key rest : List Char} {names : List String}
      (split : split? reference = some (key, .outgoing, rest))
      (more : Forward (String.ofList rest) names) : Forward reference (String.ofList key :: names)

variable {reference : String} {names : List String}

theorem forwardSome (forward : Forward reference names) : names ≠ [] := by
  cases forward <;> simp

end Path

namespace Binding

variable {c : Catalog} {database table reference : String} {b last : Binding} {names : List String}

/-! The first step of a text, by its first marker -/

theorem resolveUnmarked {base : Option String} {cs : List Char} (split : Marker.split? cs = none) :
    resolveChars c database base cs = .refuse (.notArrow (String.ofList cs)) := by
  rw [resolveChars]
  split
  · rfl
  all_goals
    rename_i found
    cases split.symm.trans found

theorem resolveOutward {base : Option String} {cs key rest : List Char}
    (split : Marker.split? cs = some (key, .outgoing, rest)) : resolveChars c database base cs =
      resolveOutgoing c database base (String.ofList cs) key rest := by
  rw [resolveChars]
  split
  · rename_i none
    cases none.symm.trans split
  · rename_i same
    cases same.symm.trans split
    rfl
  · rename_i same
    cases same.symm.trans split

theorem outgoingIff {base : Option String} {key rest : List Char} :
    resolveOutgoing c database base reference key rest = .ok b ↔ ∃ table target primary,
      base = some table ∧ c.edge database table (String.ofList key) = .ok (target, primary) ∧
        b = ⟨⟨table, String.ofList key⟩, ⟨target, primary, String.ofList rest⟩⟩ := by
  cases base with
  | none => simp [resolveOutgoing, Outcome.refuse]
  | some table =>
      simp only [resolveOutgoing, Catalog.edge, Outcome.bindOk, Outcome.pureOk]
      constructor
      · rintro ⟨schema, found, target, refers, targetSchema, found', primary, single, rfl⟩
        exact ⟨table, target, primary, rfl,
          ⟨schema, found, target, refers, targetSchema, found', primary, single, rfl⟩, rfl⟩
      · rintro ⟨_, target, primary, given, edge, rfl⟩
        cases given
        obtain ⟨schema, found, _, refers, targetSchema, found', _, single, same⟩ := edge
        cases same
        exact ⟨schema, found, target, refers, targetSchema, found', primary, single, rfl⟩

theorem resolveForward {key rest : List Char}
    (split : Path.split? reference = some (key, .outgoing, rest))
    (ok : resolve c database (some table) reference = .ok b) :
    ∃ target primary, c.edge database table (String.ofList key) = .ok (target, primary) ∧
      b = ⟨⟨table, String.ofList key⟩, ⟨target, primary, String.ofList rest⟩⟩ := by
  rw [resolve, resolveOutward split] at ok
  obtain ⟨_, target, primary, given, edge, made⟩ := outgoingIff.mp ok
  cases given
  exact ⟨target, primary, edge, made⟩

/-- A reference of outgoing steps that resolves takes at least one. -/
theorem resolveStep (forward : Path.Forward reference names)
    (ok : resolve c database (some table) reference = .ok b) : ∃ field rest target key select,
      names = field :: rest ∧ c.edge database table field = .ok (target, key) ∧
        b = ⟨⟨table, field⟩, ⟨target, key, select⟩⟩ ∧ Path.Forward select rest := by
  cases forward with
  | column plain =>
      rw [resolve, resolveUnmarked plain] at ok
      exact absurd ok Outcome.refuseOk
  | step split more =>
      obtain ⟨target, key, edge, rfl⟩ := resolveForward split ok
      exact ⟨_, _, target, key, _, rfl, edge, rfl, more⟩

theorem terminalNested (nested : b.isNested = true) (ok : b.terminal c database = .ok last) :
    ∃ next, resolve c database (some b.target.table) b.target.select = .ok next ∧
      next.terminal c database = .ok last := by
  rw [terminal, dif_pos nested] at ok
  split at ok
  · cases ok
  · rename_i next found
    exact ⟨next, found, ok⟩

theorem terminalNext {next : Binding} (nested : b.isNested = true)
    (found : resolve c database (some b.target.table) b.target.select = .ok next) :
    b.terminal c database = next.terminal c database := by
  rw [terminal, dif_pos nested]
  split
  · rename_i failed
    cases found.symm.trans failed
  · rename_i same
    cases found.symm.trans same
    rfl

theorem terminalFlat (flat : b.isNested = false) : b.terminal c database = .ok b := by
  rw [terminal, dif_neg (by simp [flat])]

theorem terminalForward (forward : Path.Forward b.target.select names)
    (ok : b.terminal c database = .ok last) : names.getLast? = some last.target.select := by
  generalize select : b.target.select = reference at forward
  induction forward generalizing b with
  | column plain =>
      have flat : b.isNested = false := by
        rw [isNested, Path.isPath, select, plain]
        rfl
      rw [terminalFlat flat] at ok
      cases ok
      rw [select]
      rfl
  | step split more ih =>
      have nested : b.isNested = true := by
        rw [isNested, Path.isPath, select, split]
        rfl
      obtain ⟨next, found, ok⟩ := terminalNested nested ok
      rw [select] at found
      obtain ⟨target, primary, _, rfl⟩ := resolveForward split found
      rw [List.getLast?_cons_of_ne_nil (Path.forwardSome more)]
      exact ih ok rfl

end Binding

namespace PathScope

variable {s : PathScope} {allowed : Reference → Prop} {key : LinkKey} {database : Option String}
  {select : String}

/-- Where the query of a link is expanded. -/
def ofLink (s : PathScope) (l : Link) : PathScope :=
  ⟨s.catalog, s.database, [.table l.database l.key.target none]⟩

theorem purposeNested {l : Link} (purpose : s.Purpose allowed l.key l.database select)
    (nested : Path.isPath select = true) : ∃ binding last, (s.ofLink l).resolve none select =
      .ok (⟨l.key.target, l.database, l.key.target⟩, binding, last) ∧ last.selectsAll = false := by
  obtain ⟨p, base, binding, last, _, ok, plain, key, database, rfl⟩ := purpose
  obtain ⟨_, _, terminal⟩ := resolveOk ok
  obtain ⟨next, found, terminal⟩ := Binding.terminalNested nested terminal
  have target : l.key.target = binding.target.table := by rw [key, Binding.linkKey]
  have there : (s.ofLink l).databaseOf ⟨l.key.target, l.database, l.key.target⟩ = s.databaseOf base := by
    rw [databaseOf, databaseOf, database, ofLink]
  refine ⟨next, last, ?_, plain⟩
  simp only [resolve, Outcome.bindOk, Outcome.pureOk]
  refine ⟨_, rfl, next, ?_, last, ?_, rfl⟩
  · rw [Option.getD_none, there, target]
    exact found
  · rw [Option.getD_none, there]
    exact terminal

theorem purposeForward
    (paths : ∀ p, allowed p → ∃ names, Path.Forward p.2 names)
    (purpose : s.Purpose allowed key database select) : ∃ names, Path.Forward select names := by
  obtain ⟨p, base, binding, last, here, ok, _, _, _, rfl⟩ := purpose
  obtain ⟨_, found, _⟩ := resolveOk ok
  obtain ⟨names, forward⟩ := paths p here
  obtain ⟨_, rest, _, _, _, _, _, rfl, more⟩ := Binding.resolveStep forward found
  exact ⟨rest, more⟩

end PathScope

namespace Link

variable {l : Link} {s : PathScope} {allowed : Reference → Prop} {q : Select}

/-- The column that a selection becomes. -/
def selected (σ : Reference → ColumnRef) (select : String) : ColumnRef :=
  if Path.isPath select then σ (none, select) else ⟨none, select⟩

def fields (l : Link) (σ : Reference → ColumnRef) : List Field :=
  .expr (.column ⟨none, l.key.targetKey⟩) none ::
    l.selects.map fun entry => .expr (.column (selected σ entry.1)) (some entry.2)

def Nested (l : Link) (p : Reference) : Prop :=
  ∃ entry ∈ l.selects, Path.isPath entry.1 = true ∧ p = (none, entry.1)

theorem selectReferences {entry : String × String}
    (purpose : s.Purpose allowed l.key l.database entry.1) :
    (s.ofLink l).fieldReferences (selectField entry) =
        (if Path.isPath entry.1 then [(none, entry.1)] else []) ∧
      ∀ σ, (s.ofLink l).linkedField σ (selectField entry) =
        [.expr (.column (selected σ entry.1)) (some entry.2)] := by
  cases nested : Path.isPath entry.1 with
  | true =>
      obtain ⟨binding, last, ok, plain⟩ := PathScope.purposeNested purpose nested
      have single : (s.ofLink l).starReferences? none entry.1 = none := by
        simp only [PathScope.starReferences?, ok, plain, Bool.false_eq_true, if_false]
      simp only [selectField, nested, if_true, PathScope.fieldReferences, PathScope.linkedField, single,
        Option.getD_none, selected, Option.getD_some, implies_true, and_self]
  | false =>
      simp only [selectField, nested, Bool.false_eq_true, if_false, PathScope.fieldReferences,
        PathScope.linkedField, selected]
      exact ⟨rfl, fun σ => rfl⟩

theorem queryLinked (purposes : ∀ entry ∈ l.selects, s.Purpose allowed l.key l.database entry.1) :
    (s.ofLink l).queryReferences l.query =
        (l.selects.filter fun entry => Path.isPath entry.1).map (fun entry => (none, entry.1)) ∧
      ∀ σ, l.query.fields.flatMap ((s.ofLink l).linkedField σ) = l.fields σ := by
  have each (entries : List (String × String))
      (purposes : ∀ entry ∈ entries, s.Purpose allowed l.key l.database entry.1) :
      (entries.map selectField).flatMap (s.ofLink l).fieldReferences =
          (entries.filter fun entry => Path.isPath entry.1).map (fun entry => (none, entry.1)) ∧
        ∀ σ, (entries.map selectField).flatMap ((s.ofLink l).linkedField σ) =
          entries.map fun entry => .expr (.column (selected σ entry.1)) (some entry.2) := by
    induction entries with
    | nil => exact ⟨rfl, fun σ => rfl⟩
    | cons entry entries ih =>
        obtain ⟨own, field⟩ := selectReferences (purposes entry List.mem_cons_self)
        obtain ⟨others, fields⟩ := ih fun e member => purposes e (List.mem_cons_of_mem _ member)
        refine ⟨?_, fun σ => ?_⟩
        · rw [List.map_cons, List.flatMap_cons, own, others, List.filter_cons]
          split <;> simp
        · rw [List.map_cons, List.flatMap_cons, field, fields]
          rfl
  obtain ⟨refs, fields⟩ := each l.selects purposes
  refine ⟨?_, fun σ => ?_⟩
  · rw [← refs]
    simp only [PathScope.queryReferences, query, List.flatMap_cons, PathScope.fieldReferences,
      Option.toList_none, List.flatMap_nil, List.append_nil]
    rfl
  · simp only [query, List.flatMap_cons, fields]
    rfl

theorem queryExpanded (purposes : ∀ entry ∈ l.selects, s.Purpose allowed l.key l.database entry.1)
    (expanded : l.query.expand s.catalog s.database = .ok q) : ∃ entries σ,
      q = { l.query with fields := l.fields σ, joins := entries.map toJoin } ∧
        (∀ i ∈ entries, Links.Made ((s.ofLink l).Purpose l.Nested) i) ∧
          ∀ entry ∈ l.selects, Path.isPath entry.1 = true →
            (s.ofLink l).Linked entries (none, entry.1) (σ (none, entry.1)) := by
  obtain ⟨refs, fields⟩ := queryLinked purposes
  have scope : PathScope.mk s.catalog s.database l.query.allSources = s.ofLink l := rfl
  have nested : ∀ p ∈ PathScope.queryReferences ⟨s.catalog, s.database, l.query.allSources⟩ l.query,
      l.Nested p := by
    intro p member
    rw [scope, refs] at member
    obtain ⟨entry, listed, rfl⟩ := List.mem_map.mp member
    obtain ⟨listed, path⟩ := List.mem_filter.mp listed
    exact ⟨entry, listed, path, rfl⟩
  obtain ⟨entries, _, joins, made, cases⟩ := SelectOf.expandLinks nested expanded
  rw [scope] at made cases
  rcases cases with ⟨same, plain⟩ | ⟨σ, served, same⟩
  · have none : ∀ entry ∈ l.selects, Path.isPath entry.1 = false := by
      intro entry member
      have own : (selectField entry).hasPath = false := by
        simp only [SelectOf.hasPath, Bool.or_eq_false_iff, List.any_eq_false] at plain
        simpa using plain.1.1.1.1.1 _ (List.mem_cons_of_mem _ (List.mem_map_of_mem member))
      cases path : Path.isPath entry.1 with
      | false => rfl
      | true =>
          rw [selectField, if_pos path] at own
          cases own
    have fields' : l.query.fields = l.fields fun p => ⟨p.1, p.2⟩ := by
      rw [query, Link.fields]
      refine congrArg (_ :: ·) (List.map_congr_left fun entry member => ?_)
      rw [selectField, selected, none entry member]
      rfl
    rw [same] at joins
    refine ⟨entries, fun p => ⟨p.1, p.2⟩, ?_, made, fun entry member path => ?_⟩
    · rw [← fields', List.self_eq_append_right.mp joins, same]
      rfl
    · rw [none entry member] at path
      cases path
  · refine ⟨entries, σ, ?_, made, fun entry member path => served _ ?_⟩
    · rw [same, PathScope.linkedQuery, fields σ]
      rfl
    · exact refs ▸ List.mem_map.mpr ⟨entry, List.mem_filter.mpr ⟨member, path⟩, rfl⟩

end Link

end RelQuery
