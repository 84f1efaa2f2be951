import RelQuery.Proofs.Schema.Drafts
import RelQuery.Proofs.Store.Effect
import RelQuery.Proofs.Value.Equality

/-! The counter of a table that fills its key column by itself. It stays above every integer that is a key, however
the key was stored, until a row takes the last number. Doubles that a replacement stores are not counted, so a key
that is taken from the counter can meet an equal double, and this is the only way in which it can be in use. -/
namespace RelQuery

theorem Value.apartInt {v : Value} {n : Int64} : v.same (.int n) = false ↔
    v ≠ .int n ∧ ∀ x, v = .float x → x.integer? ≠ some n := by
  cases v <;> simp [Value.same]

namespace TableStore
open UniqueIndex

/-- An integer below a counter, unless the counter has reached the last one. -/
def Above (counter n : Int64) : Prop := n < counter ∨ counter = Int64.maxValue

variable {c c' n : Int64}

theorem aboveRises (above : Above c n) (rises : c ≤ c') : Above c' n := by
  rcases above with less | rfl
  · exact .inl (Int64.lt_of_lt_of_le less rises)
  · exact .inr (Int64.le_antisymm (Int64.le_maxValue c') rises)

theorem nextAbove (less : c < Int64.maxValue) : c < c + 1 := by
  have bound := Int64.lt_iff_toInt_lt.mp less
  have lowest := c.le_toInt
  rw [Int64.toInt_maxValue] at bound
  have one : (1 : Int64).toInt = 1 := rfl
  rw [Int64.lt_iff_toInt_lt, Int64.toInt_add, one, Int.bmod_eq_of_le] <;> omega

theorem successorAbove (n : Int64) : Above (successor n) n := by
  unfold successor
  split
  · rename_i last
    exact .inr last
  · rename_i other
    exact .inl (nextAbove (Int64.lt_of_le_of_ne (Int64.le_maxValue n) other))

variable {schema : TableSchema} {s s' : TableStore} {positions : List Nat} {given values : List Value}
  {r fresh old : Row} {column : Nat}

theorem reserveRises (s : TableStore) (n : Int64) :
    s.nextAuto ≤ (s.reserve n).nextAuto ∧ Above (s.reserve n).nextAuto n := by
  simp only [reserve]
  split
  · rename_i less
    exact ⟨Int64.le_of_lt less, successorAbove n⟩
  · rename_i reached
    exact ⟨Int64.le_refl _, aboveRises (successorAbove n) (Int64.not_lt.mp reached)⟩

/-- Whether a row leaves its key to the counter. -/
def Takes (s : TableStore) (positions : List Nat) (given : List Value) : Prop :=
  ∃ column, s.autoColumn? = some column ∧ Row.valueAt (s.layout positions given) column = .null

/-- The counter is above every integer that is a key. -/
def Counts (s : TableStore) : Prop := ∀ column, s.autoColumn? = some column →
  ∀ id r, s.row? id = some r → ∀ n, Row.valueAt r.values column = .int n → Above s.nextAuto n

/-- The tables that calls make of an empty one, in which no row has taken the last number. -/
inductive Counted (schema : TableSchema) : TableStore → Prop where
  | new : Counted schema (new schema)
  | addAll {s : TableStore} {σ : Type} (before : Counted schema s) {rows : List (List Value)}
      {columns : List String} {handler : Option (DuplicateHandler σ)} {state : σ}
      (below : ∀ positions p given, Turn s rows columns handler state positions p given →
        p.store.Takes positions given → p.store.nextAuto < Int64.maxValue) :
      Counted schema (s.addAll rows columns handler state).store
  | updateAll {s : TableStore} (before : Counted schema s) (rows : List Row) :
      Counted schema (s.updateAll rows).1
  | deleteAll {s : TableStore} (before : Counted schema s) (keys : List Key) :
      Counted schema (s.deleteAll keys).1
  | clear {s : TableStore} (before : Counted schema s) : Counted schema s.clear

theorem countedReachable (counted : Counted schema s) : Reachable schema s := by
  induction counted with
  | new => exact .new
  | addAll _ _ ih => exact .addAll ih _ _ _ _
  | updateAll _ rows ih => exact .updateAll ih rows
  | deleteAll _ keys ih => exact .deleteAll ih keys
  | clear _ ih => exact .clear ih

/-! What each write does to the counter -/

theorem setKey (key : Row.valueAt (values.set column (.int c)) column = .int n) : n = c := by
  rw [Row.valueAt, List.getElem?_set_self'] at key
  cases there : values[column]? with
  | none =>
      rw [there] at key
      cases key
  | some v =>
      rw [there] at key
      cases key
      rfl

theorem setAt {v : Value} (inside : column < values.length) : Row.valueAt (values.set column v) column = v := by
  rw [Row.valueAt, List.getElem?_set_self inside]
  rfl

theorem countsFewer (counts : Counts s) (schema : s'.schema = s.schema) (counter : s'.nextAuto = s.nextAuto)
    (fewer : ∀ id r, s'.row? id = some r → s.row? id = some r) : Counts s' := by
  intro column own id r stored n key
  rw [counter]
  rw [autoColumn?, schema] at own
  exact counts column own id r (fewer id r stored) n key

theorem countsAssigned (counts : Counts s)
    (below : s.Takes positions given → s.nextAuto < Int64.maxValue)
    (assigned : s.assignAuto (s.layout positions given) = .ok (s', values)) : Counts s' ∧
      ∀ column, s'.autoColumn? = some column → ∀ n, Row.valueAt values column = .int n → Above s'.nextAuto n := by
  have rises (c : Int64) (le : s.nextAuto ≤ c) : Counts { s with nextAuto := c } :=
    fun column own id r stored n key => aboveRises (counts column own id r stored n key) le
  simp only [assignAuto] at assigned
  split at assigned
  · rename_i none
    cases assigned
    refine ⟨counts, fun column own => ?_⟩
    rw [none] at own
    cases own
  · rename_i column own
    split at assigned
    · rename_i missing
      cases assigned
      have above := nextAbove (below ⟨column, own, missing⟩)
      refine ⟨rises _ (Int64.le_of_lt above), fun column' own' n key => ?_⟩
      cases own.symm.trans own'
      rw [setKey key]
      exact .inl above
    · rename_i n key
      cases assigned
      obtain ⟨le, above⟩ := reserveRises s n
      refine ⟨rises _ le, fun column' own' n' key' => ?_⟩
      cases own.symm.trans own'
      cases key.symm.trans key'
      exact above
    · rename_i n key
      cases assigned
      refine ⟨rises _ (reserveRises s n).1, fun column' own' n' key' => ?_⟩
      cases own.symm.trans own'
      cases key.symm.trans key'
    · cases assigned

theorem countsInserted (counts : Counts s) (key : ∀ column, s.autoColumn? = some column →
    ∀ n, Row.valueAt values column = .int n → Above s.nextAuto n) : Counts (s.insertRow values).1 := by
  intro column own id r stored n same
  rw [rowInserted] at stored
  split at stored
  · cases stored
    exact key column own n same
  · exact counts column own id r stored n same

theorem countsReplaced (counts : Counts s) (replaced : s.replace r = .ok (s', fresh, old)) : Counts s' := by
  have rows := rowReplaced replaced
  have same := writeSchema (.replaced replaced)
  obtain ⟨_, _, _, rfl, rfl⟩ := replaceOk.mp replaced
  have rises : s.nextAuto ≤
      ((s.overwrite old (supersede old r)).reserveReplaced (supersede old r).values).nextAuto := by
    unfold reserveReplaced
    split
    · exact Int64.le_refl _
    · split
      · exact (reserveRises _ _).1
      · exact Int64.le_refl _
  intro column own id r' stored n key
  have own' : (s.overwrite old (supersede old r)).autoColumn? = some column := by rwa [autoColumn?, same] at own
  rw [rows] at stored
  split at stored
  · cases stored
    have value : (supersede old r).values[column]? = some (.int n) := by
      rw [Row.valueAt] at key
      cases there : (supersede old r).values[column]? with
      | none =>
          rw [there] at key
          cases key
      | some v =>
          rw [there] at key
          exact congrArg some key
    simp only [reserveReplaced, own', value]
    exact (reserveRises _ n).2
  · exact aboveRises (counts column own' id r' stored n key) rises

theorem countsRow {σ : Type} {p p' : Progress σ} {handler : Option (DuplicateHandler σ)}
    (ok : Progress.addRow positions handler p given = .ok p')
    (below : p.store.Takes positions given → p.store.nextAuto < Int64.maxValue) (counts : Counts p.store) :
    Counts p'.store := by
  obtain ⟨s, values, assigned, _, kept⟩ := addRowDone ok
  obtain ⟨counts, key⟩ := countsAssigned counts below assigned
  rcases kept with ⟨_, rfl⟩ | ⟨same, _⟩ | ⟨r, fresh, old, replaced, _⟩
  · exact countsInserted counts key
  · rwa [same]
  · exact countsReplaced counts replaced

theorem countedCounts (counted : Counted schema s) : Counts s := by
  induction counted with
  | new =>
      intro _ _ id r stored
      simp at stored
  | addAll before below ih =>
      exact addAllKept (reachableConsistent (countedReachable before)) ih
        fun positions p given p' turn ok => countsRow ok (below positions p given turn)
  | updateAll _ rows ih =>
      refine updateAllKept ih fun s s' r key ok counts => ?_
      obtain ⟨_, _, _, replaced, _⟩ := updateRowReplaced ok
      exact countsReplaced counts replaced
  | deleteAll _ keys ih =>
      refine deleteAllKept ih fun s s' key deleted counts => ?_
      refine countsFewer counts (writeSchema (.deleted deleted)) ?_ fun id r => deleteFewer deleted
      obtain ⟨_, _, _, _, rfl⟩ := deleteSome.mp deleted
      rfl
  | clear _ ih =>
      refine countsFewer ih rfl rfl fun id r stored => ?_
      simp at stored

/-! A row that takes its key -/

section
variable (consistent : Consistent s) (keyed : s.schema.primaryKeyIndices = [column])
include consistent keyed

theorem keyOfSingle (r : Row) : s.keyOf r = [Row.valueAt r.values column] := by
  rw [keyOfSchema consistent]
  simp [keyOf, primaryIndex?, new, keyed, UniqueIndex.key, Row.key, UniqueIndex.new]

theorem indexesSplit : ∃ ix, s.indexes = ix :: s.indexes.tail ∧ ix.columns = [column] := by
  have shape := consistent.shape
  simp only [new, keyed, List.isEmpty_cons, Bool.false_eq_true, if_false] at shape
  cases listed : s.indexes with
  | nil =>
      rw [listed] at shape
      cases shape
  | cons ix rest =>
      rw [listed] at shape
      exact ⟨ix, rfl, congrArg UniqueIndex.columns (List.cons.inj shape).1⟩

/-- Where the other indexes have no conflict, there is one exactly with a row of an equal key. -/
theorem conflictKey (complete : (Row.valueAt values column).isNull = false)
    (free : ∀ ix ∈ s.indexes.tail, ix.conflict? values none = none) : s.conflict? values none = none ↔
      ∀ r ∈ s.rows, (Row.valueAt r.values column).same (Row.valueAt values column) = false := by
  obtain ⟨ix, split, columns⟩ := indexesSplit consistent keyed
  have member : ix ∈ s.indexes := split ▸ List.mem_cons_self
  have keyOf (values : List Value) : ix.key values = [Row.valueAt values column] := by
    rw [UniqueIndex.key, Row.key, columns, List.map_singleton]
  have others : s.indexes.tail.findSome? (fun ix => (ix.conflict? values none).map (ix, ·)) = none :=
    List.findSome?_eq_none_iff.mpr fun ix member => by rw [free ix member, Option.map_none]
  have only : s.conflict? values none = none ↔ ix.conflict? values none = none := by
    rw [TableStore.conflict?, split, List.findSome?_cons]
    cases ix.conflict? values none with
    | none => simp [others]
    | some id => simp
  rw [only, conflictNone (consistent.covered ix member), Free, keyOf]
  have complete' : Key.hasNull [Row.valueAt values column] = false := by simpa [Key.hasNull] using complete
  have order (r : Row) : Key.order (ix.key r.values) [Row.valueAt values column] = .eq ↔
      (Row.valueAt r.values column).same (Row.valueAt values column) = true := by
    rw [keyOf, ← Key.sameIff]
    simp [Key.same]
  simp only [complete', true_implies, order]
  constructor
  · intro free r stored
    refine Bool.eq_false_iff.mpr fun same => ?_
    cases free r.id r ((memRows consistent).mp stored) same
  · intro apart id r stored same
    have listed : r ∈ s.rows := (memRows consistent).mpr ((consistent.ids id r stored).1 ▸ stored)
    exact absurd (apart r listed) (Bool.not_eq_false _ ▸ same)

end

section
variable {σ : Type} {columns : List String} {handler : Option (DuplicateHandler σ)} {state : σ}

theorem addAllFilled (consistent : Consistent s) (keyed : s.schema.primaryKeyIndices = [column])
    (own : s.autoColumn? = some column) (listed : columns.mapM s.position = .ok positions)
    (width : given.length = positions.length)
    (missing : Row.valueAt (s.layout positions given) column = .null)
    (value : Row.valueAt ((s.layout positions given).set column (.int s.nextAuto)) column = .int s.nextAuto)
    (complete : s.checkNotNull ((s.layout positions given).set column (.int s.nextAuto)) = .ok ())
    (free : s.conflict? ((s.layout positions given).set column (.int s.nextAuto)) none = none) :
    (s.addAll [given] columns handler state).keys = .ok [[.int s.nextAuto]] := by
  have assigned : s.assignAuto (s.layout positions given) =
      .ok ({ s with nextAuto := s.nextAuto + 1 }, (s.layout positions given).set column (.int s.nextAuto)) := by
    rw [assignAuto, own]
    simp only [missing]
  have inserted := consistentInsert (consistentAuto consistent (s.nextAuto + 1)) free
  rw [addAllSingle listed (addRowAdded width assigned complete free)]
  exact congrArg (fun v => Except.ok [v]) ((keyOfSingle inserted keyed _).trans (congrArg (fun v => [v]) value))

/-- A row that leaves its key to the counter is added under a key of its own exactly if no row has the number, as
an integer or as a double. Only doubles can have it as long as no row has taken the last number. -/
theorem addAllFills (columns : List String) (handler : Option (DuplicateHandler σ)) (state : σ)
    (built : schema.Built) (auto : schema.autoIncrement = true)
    (reachable : Reachable schema s) (below : s.nextAuto < Int64.maxValue) (own : s.autoColumn? = some column)
    (listed : columns.mapM s.position = .ok positions) (width : given.length = positions.length)
    (missing : Row.valueAt (s.layout positions given) column = .null)
    (complete : s.checkNotNull ((s.layout positions given).set column (.int s.nextAuto)) = .ok ())
    (free : ∀ ix ∈ s.indexes.tail,
      ix.conflict? ((s.layout positions given).set column (.int s.nextAuto)) none = none) :
    (((s.addAll [given] columns handler state).keys = .ok [[.int s.nextAuto]] ∧
        ∀ r ∈ s.rows, (Row.valueAt r.values column).same (.int s.nextAuto) = false) ↔
      ∀ r ∈ s.rows, Row.valueAt r.values column ≠ .int s.nextAuto ∧
        ∀ x, Row.valueAt r.values column = .float x → x.integer? ≠ some s.nextAuto) ∧
    (Counted schema s → ∀ r ∈ s.rows, Row.valueAt r.values column ≠ .int s.nextAuto) := by
  have consistent := reachableConsistent reachable
  have same := reachableSchema reachable
  obtain ⟨column', keyed, inside⟩ := TableSchema.builtAuto built auto
  rw [← same] at keyed inside auto
  have here : column' = column := by
    rw [autoColumn?, if_pos auto, keyed] at own
    exact Option.some.inj own
  subst here
  have value : Row.valueAt ((s.layout positions given).set column' (.int s.nextAuto)) column' =
      .int s.nextAuto := setAt (layoutLength s positions given ▸ inside)
  refine ⟨⟨?_, fun unused => ?_⟩, fun counted r stored key => ?_⟩
  · rintro ⟨_, apart⟩ r stored
    exact Value.apartInt.mp (apart r stored)
  · have apart : ∀ r ∈ s.rows, (Row.valueAt r.values column').same (.int s.nextAuto) = false :=
      fun r stored => Value.apartInt.mpr (unused r stored)
    have unmet : s.conflict? ((s.layout positions given).set column' (.int s.nextAuto)) none = none := by
      refine (conflictKey consistent keyed ?_ free).mpr ?_
      · rw [value]
        rfl
      · rwa [value]
    exact ⟨addAllFilled consistent keyed own listed width missing value complete unmet, apart⟩
  · have stored := (memRows consistent).mp stored
    rcases countedCounts counted column' own r.id r stored s.nextAuto key with less | last
    · exact Int64.lt_irrefl less
    · exact Int64.ne_of_lt below last

end

/-! Tickets that are numbered as they come, one of which gets the next number as a double -/

def tickets : TableSchema :=
  { name := "tickets"
    columns := [.new "id" .int64, { Column.new "note" .string with index := 1 }]
    primaryKey := ["id"]
    uniqueKeys := []
    autoIncrement := true
    engine := "memory" }

theorem ticketsBuilt : tickets.Built := by
  have ok : (do
      let d ← TableDraft.new "tickets"
      let d ← d.addColumn (.new "id" .int64)
      let d ← d.addColumn (.new "note" .string)
      let d ← d.addPrimaryKey ["id"] true
      d.build) = .ok tickets := by decide +kernel
  obtain ⟨d, new, ok⟩ := Outcome.bindOk.mp ok
  obtain ⟨d, id, ok⟩ := Outcome.bindOk.mp ok
  obtain ⟨d, note, ok⟩ := Outcome.bindOk.mp ok
  obtain ⟨d, key, ok⟩ := Outcome.bindOk.mp ok
  exact ⟨d, .primaryKey (.column (.column (.new new) id) note) key, ok⟩

def issued : TableStore := ((new tickets).addAll [[.string "a"]] ["note"] none ()).store

def renumbered : TableStore := (issued.updateAll [⟨0, 1, [.float (.ofInt64 2), .string "a"]⟩]).1

theorem issuedCounted : Counted tickets issued := by
  refine .addAll .new fun positions p given turn _ => ?_
  obtain ⟨done, rest, split, ran⟩ := turn.reached
  cases done with
  | nil =>
      cases ran
      decide
  | cons first done => simp at split

theorem renumberedCounted : Counted tickets renumbered := .updateAll issuedCounted _

theorem addAllFillsTickets :
    (issued.addAll [[.string "b"]] ["note"] none ()).keys = .ok [[.int 2]] ∧
      (∀ r ∈ issued.rows, (Row.valueAt r.values 0).same (.int 2) = false) ∧
      ¬((renumbered.addAll [[.string "b"]] ["note"] none ()).keys = .ok [[.int 2]] ∧
        ∀ r ∈ renumbered.rows, (Row.valueAt r.values 0).same (.int 2) = false) := by
  have rows : issued.rows = [⟨0, 1, [.int 1, .string "a"]⟩] := by decide +kernel
  have rows' : renumbered.rows = [⟨0, 2, [.float (.ofInt64 2), .string "a"]⟩] := by decide +kernel
  have own : issued.autoColumn? = some 0 := by decide +kernel
  have own' : renumbered.autoColumn? = some 0 := by decide +kernel
  have missing : Row.valueAt (issued.layout [1] [.string "b"]) 0 = .null := by decide +kernel
  have missing' : Row.valueAt (renumbered.layout [1] [.string "b"]) 0 = .null := by decide +kernel
  obtain ⟨fills, unused⟩ := addAllFills ["note"] none () ticketsBuilt rfl (countedReachable issuedCounted)
    (by decide +kernel) own (by decide +kernel) rfl missing (by decide +kernel) (by decide +kernel)
  obtain ⟨collides, _⟩ := addAllFills ["note"] none () ticketsBuilt rfl (countedReachable renumberedCounted)
    (by decide +kernel) own' (by decide +kernel) rfl missing' (by decide +kernel) (by decide +kernel)
  have next : issued.nextAuto = 2 := by decide +kernel
  have next' : renumbered.nextAuto = 2 := by decide +kernel
  have unused := unused issuedCounted
  rw [next, rows] at fills unused
  rw [next', rows'] at collides
  rw [rows, rows']
  obtain ⟨keys, apart⟩ := fills.mpr fun r member => ⟨unused r member, fun x key => by
    cases List.mem_singleton.mp member
    cases key⟩
  refine ⟨keys, apart, fun both => ?_⟩
  exact (collides.mp both _ List.mem_cons_self).2 (.ofInt64 2) rfl (by decide +kernel)

/-- The next number is in use as a double, and the addition fails. -/
theorem renumberedCollides : Reachable tickets renumbered ∧ renumbered.nextAuto = 2 ∧
    renumbered.autoColumn? = some 0 ∧ renumbered.layout [1] [.string "b"] = [.null, .string "b"] ∧
      renumbered.checkNotNull [.int 2, .string "b"] = .ok () ∧ renumbered.indexes.tail.isEmpty = true ∧
        (renumbered.addAll [[.string "b"]] ["note"] none ()).keys =
          .error (.uniqueConstraint "primary_key" [.int 2]) :=
  ⟨countedReachable renumberedCounted, by decide +kernel, by decide +kernel, by decide +kernel,
    by decide +kernel, by decide +kernel, by decide +kernel⟩

end TableStore

end RelQuery
