import RelQuery.Proofs.Schema.Drafts
import RelQuery.Store.Table

/-! The keys of schemas that drafts build. A step adds columns behind those that are there and changes neither the
name nor the type of any, so what a key was checked for when it was given still holds when the draft is built.
Hence a store of the schema has an index for every key, over all of its columns. -/
namespace RelQuery

/-- A letter or an underscore, and letters, digits and underscores after it. -/
def IsIdentifier (name : String) : Prop :=
  ∃ c rest, name.toList = c :: rest ∧ (c.isAlpha = true ∨ c = '_') ∧ ∀ d ∈ rest, d.isAlphanum = true ∨ d = '_'

namespace TableDraft

variable {d d' : TableDraft} {name : String} {type : DataType} {t : TableSchema}

theorem nameIff : IsName name ↔ IsIdentifier name := by
  unfold IsName IsIdentifier checkName
  cases name.toList with
  | nil => simp [malformed]
  | cons c rest =>
      have tail : rest.all isNamePart = true ↔ ∀ d ∈ rest, d.isAlphanum = true ∨ d = '_' := by
        simp [List.all_eq_true, isNamePart]
      have head : isNameStart c = true ↔ c.isAlpha = true ∨ c = '_' := by simp [isNameStart]
      simp only [List.cons.injEq, ↓existsAndEq, true_and, ← head, ← tail]
      cases isNameStart c <;> cases rest.all isNamePart <;> simp [malformed]

/-! What steps keep -/

/-- There is a column of a name and a type. -/
def Types (d : TableDraft) (name : String) (type : DataType) : Prop :=
  ∃ c ∈ d.columns, c.name = name ∧ c.dataType = type

theorem typesColumn {c : Column} (found : d.column name = .ok c) : d.Types name c.dataType := by
  unfold column at found
  split at found
  · rename_i there
    cases found
    exact ⟨c, List.mem_of_find?_eq_some there, by simpa using List.find?_some there, rfl⟩
  · cases found

theorem typesModify {changed : String} {f : Column → Column}
    (same : ∀ c, (f c).name = c.name ∧ (f c).dataType = c.dataType) (types : d.Types name type) :
    (d.modifyColumn changed f).Types name type := by
  obtain ⟨c, member, own, kind⟩ := types
  refine ⟨_, List.mem_map_of_mem member, ?_⟩
  split
  · exact ⟨(same c).1.trans own, (same c).2.trans kind⟩
  · exact ⟨own, kind⟩

/-- The columns of the primary key can be indexed, and those of the unique keys are there. -/
structure Keyed (d : TableDraft) : Prop where
  primary : ∀ name ∈ d.primaryKey, ∃ type, d.Types name type ∧ type.isIndexable = true
  unique : ∀ key ∈ d.uniqueKeys, ∀ name ∈ key.2, ∃ type, d.Types name type

/-- A step that leaves the keys alone keeps them in order if it keeps every name and type. -/
theorem keyedSame (keyed : Keyed d) (primary : d'.primaryKey = d.primaryKey) (unique : d'.uniqueKeys = d.uniqueKeys)
    (kept : ∀ name type, d.Types name type → d'.Types name type) : Keyed d' := by
  refine ⟨fun name member => ?_, fun key member name listed => ?_⟩
  · obtain ⟨type, types, indexable⟩ := keyed.primary name (primary ▸ member)
    exact ⟨type, kept name type types, indexable⟩
  · obtain ⟨type, types⟩ := keyed.unique key (unique ▸ member) name listed
    exact ⟨type, kept name type types⟩

theorem keyedNotNull (keyed : Keyed d) (names : List String) : Keyed (d.addNotNull names) := by
  rw [addNotNull]
  induction names generalizing d with
  | nil => exact keyed
  | cons name names ih =>
      exact ih (keyedSame keyed rfl rfl fun _ _ => typesModify fun _ => ⟨rfl, rfl⟩)

theorem keyedColumn (keyed : Keyed d) {c : Column} (ok : d.addColumn c = .ok d') : Keyed d' := by
  obtain ⟨_, _, ok⟩ := Outcome.bindOk.mp ok
  split at ok
  · cases ok
  · cases Outcome.pureOk.mp ok
    exact keyedSame keyed rfl rfl fun _ _ ⟨c', member, own⟩ => ⟨c', List.mem_append_left _ member, own⟩

theorem eachChecked {names : List String} {check : String → Outcome Unit} (ok : names.forM check = .ok ()) :
    ∀ name ∈ names, check name = .ok () := by
  induction names with
  | nil => nofun
  | cons name names ih =>
      obtain ⟨⟨⟩, own, others⟩ := Outcome.bindOk.mp ok
      exact List.forall_mem_cons.mpr ⟨own, ih others⟩

theorem keyedPrimary (keyed : Keyed d) {names : List String} {auto : Bool}
    (ok : d.addPrimaryKey names auto = .ok d') : Keyed d' := by
  unfold addPrimaryKey at ok
  split at ok
  · cases ok
  · obtain ⟨⟨⟩, checked, ok⟩ := Outcome.bindOk.mp ok
    cases Outcome.pureOk.mp ok
    refine ⟨fun name member => ?_, keyed.unique⟩
    obtain ⟨c, found, indexable⟩ := Outcome.bindOk.mp (eachChecked checked name member)
    split at indexable
    · rename_i own
      exact ⟨c.dataType, typesColumn found, own⟩
    · cases indexable

theorem keyedUnique (keyed : Keyed d) {columns : List String} (ok : d.addUnique name columns = .ok d') :
    Keyed d' := by
  obtain ⟨_, _, ok⟩ := Outcome.bindOk.mp ok
  obtain ⟨⟨⟩, checked, ok⟩ := Outcome.bindOk.mp ok
  cases Outcome.pureOk.mp ok
  refine ⟨keyed.primary, fun key member column listed => ?_⟩
  rcases Dictionary.memInsert member with same | old
  · cases same
    obtain ⟨c, found, _⟩ := Outcome.bindOk.mp (eachChecked checked column listed)
    exact ⟨c.dataType, typesColumn found⟩
  · exact keyed.unique key old column listed

theorem draftedKeyed (drafted : Drafted d) : Keyed d := by
  induction drafted with
  | new ok =>
      obtain ⟨_, _, ok⟩ := Outcome.bindOk.mp ok
      cases Outcome.pureOk.mp ok
      exact ⟨nofun, nofun⟩
  | column _ ok ih => exact keyedColumn ih ok
  | notNull _ names ih => exact keyedNotNull ih names
  | byDefault _ ok ih =>
      obtain ⟨_, _, ok⟩ := Outcome.bindOk.mp ok
      cases Outcome.pureOk.mp ok
      exact keyedSame ih rfl rfl fun _ _ => typesModify fun _ => ⟨rfl, rfl⟩
  | primaryKey _ ok ih => exact keyedPrimary ih ok
  | unique _ ok ih => exact keyedUnique ih ok
  | foreignKey _ ok ih =>
      obtain ⟨_, _, ok⟩ := Outcome.bindOk.mp ok
      obtain ⟨_, _, ok⟩ := Outcome.bindOk.mp ok
      cases Outcome.pureOk.mp ok
      exact keyedSame ih rfl rfl fun _ _ => typesModify fun _ => ⟨rfl, rfl⟩
  | engine _ engine ih => exact keyedSame ih rfl rfl fun _ _ => id

end TableDraft

namespace TableSchema

variable {t : TableSchema} {names : List String}

/-- What keys and indexes rely on. -/
structure Sound (t : TableSchema) : Prop where
  identifiers : ∀ c ∈ t.columns, IsIdentifier c.name
  distinct : t.columnNames.Nodup
  numbered : ∀ (i : Nat) (c : Column), t.columns[i]? = some c → c.index = i
  primary : ∀ name ∈ t.primaryKey, ∃ c ∈ t.columns, c.name = name ∧ c.dataType.isIndexable = true
  unique : ∀ key ∈ t.uniqueKeys, ∀ name ∈ key.2, ∃ c ∈ t.columns, c.name = name
  auto : t.autoIncrement = true → ∃ c ∈ t.columns, t.primaryKey = [c.name] ∧ c.dataType.isInteger = true

/-- The keys of a table under the names of their indexes, each with its columns. -/
def keys (t : TableSchema) : List (String × List String) :=
  (if t.primaryKey.isEmpty then [] else [(TableStore.primaryKeyName, t.primaryKey)]) ++ t.uniqueKeys

/-- One position for each name, at which the column of the name stands. -/
def Places (t : TableSchema) (names : List String) (positions : List Nat) : Prop :=
  List.Forall₂ (fun name i => t.columnNames[i]? = some name) names positions

theorem indicesPlace (listed : ∀ name ∈ names, ∃ c ∈ t.columns, c.name = name) :
    t.Places names (t.indices names) := by
  induction names with
  | nil => exact .nil
  | cons name names ih =>
      obtain ⟨⟨c, member, own⟩, others⟩ := List.forall_mem_cons.mp listed
      have there : (t.index? name).isSome = true :=
        List.findIdx?_isSome ▸ List.any_eq_true.mpr ⟨c, member, beq_iff_eq.mpr own⟩
      obtain ⟨i, place⟩ := Option.isSome_iff_exists.mp there
      obtain ⟨bound, called, _⟩ := List.findIdx?_eq_some_iff_getElem.mp place
      rw [indices, List.filterMap_cons_some place]
      refine .cons ?_ (ih others)
      rw [columnNames, List.getElem?_map, List.getElem?_eq_getElem bound, Option.map_some, beq_iff_eq.mp called]

theorem builtTypes {d : TableDraft} (ok : d.build = .ok t) {name : String} {type : DataType}
    (types : d.Types name type) : ∃ c ∈ t.columns, c.name = name ∧ c.dataType = type := by
  obtain ⟨_, _, ok⟩ := Outcome.bindOk.mp ok
  cases Outcome.pureOk.mp ok
  obtain ⟨c, member, own⟩ := types
  obtain ⟨i, bound, rfl⟩ := List.mem_iff_getElem.mp member
  exact ⟨{ d.columns[i] with index := i }, List.mem_mapIdx.mpr ⟨i, bound, rfl⟩, own⟩

theorem builtSound (built : t.Built) : t.Sound := by
  have names := builtNames built
  have distinct := builtDistinct built
  obtain ⟨d, drafted, ok⟩ := built
  have keyed := TableDraft.draftedKeyed drafted
  obtain ⟨_, _, primary, auto, checked⟩ := TableDraft.buildOk ok
  have types {name : String} {type : DataType} (there : d.Types name type) := builtTypes ok there
  refine ⟨fun c member => ?_, distinct, fun i c there => ?_, fun name member => ?_, fun key member name listed => ?_,
    fun automatic => ?_⟩
  · exact TableDraft.nameIff.mp (names.2 c.name (List.mem_map_of_mem member))
  · obtain ⟨_, _, ok⟩ := Outcome.bindOk.mp ok
    cases Outcome.pureOk.mp ok
    obtain ⟨bound, rfl⟩ := List.getElem?_eq_some_iff.mp there
    rw [List.getElem_mapIdx]
  · obtain ⟨type, there, indexable⟩ := keyed.primary name (primary ▸ member)
    obtain ⟨c, own, called, rfl⟩ := types there
    exact ⟨c, own, called, indexable⟩
  · have same : t.uniqueKeys = d.uniqueKeys := by
      obtain ⟨_, _, ok⟩ := Outcome.bindOk.mp ok
      cases Outcome.pureOk.mp ok
      rfl
    obtain ⟨type, there⟩ := keyed.unique key (same ▸ member) name listed
    obtain ⟨c, own, called, _⟩ := types there
    exact ⟨c, own, called⟩
  · rw [TableDraft.checkAutoIncrement, ← auto, if_pos automatic] at checked
    split at checked
    · rename_i name single
      obtain ⟨c, found, checked⟩ := Outcome.bindOk.mp checked
      split at checked
      · rename_i integer
        obtain ⟨c', own, rfl, same⟩ := types (TableDraft.typesColumn found)
        exact ⟨c', own, primary.trans single, same ▸ integer⟩
      · cases checked
    · cases checked

/-- A schema that a draft builds has distinct identifiers for its columns and numbers them by position, and its keys
are made of columns that are there: those of the primary key can be indexed, and a key that is filled
automatically is one column of integers. So every column of a key has its position, and a new store has one index
for each key, over the positions of all its columns. -/
theorem builtKeys (built : t.Built) : t.Sound ∧ t.Places t.primaryKey t.primaryKeyIndices ∧
    List.Forall₂ (fun key ix => ix.name = key.1 ∧ t.Places key.2 ix.columns) t.keys
      (TableStore.new t).indexes := by
  have sound := builtSound built
  have primary : t.Places t.primaryKey t.primaryKeyIndices := indicesPlace fun name member =>
    (sound.primary name member).imp fun _ own => ⟨own.1, own.2.1⟩
  have unique : List.Forall₂ (fun key ix => ix.name = key.1 ∧ t.Places key.2 ix.columns) t.uniqueKeys
      (t.uniqueKeys.map fun key => UniqueIndex.new key.1 (t.indices key.2)) :=
    List.forall₂_map_right_iff.mpr (List.forall₂_same.mpr fun key member =>
      ⟨rfl, indicesPlace (sound.unique key member)⟩)
  refine ⟨sound, primary, ?_⟩
  have empty : t.primaryKeyIndices.isEmpty = t.primaryKey.isEmpty := by
    rw [Bool.eq_iff_iff, List.isEmpty_iff_length_eq_zero, List.isEmpty_iff_length_eq_zero, primary.length_eq]
  unfold keys TableStore.new
  dsimp only
  rw [empty]
  split
  · exact unique
  · exact .cons ⟨rfl, primary⟩ unique

/-- Seats that were numbered by themselves at first, and then hall by hall. Two of their keys were given twice. -/
def seats : TableSchema :=
  { name := "seats"
    columns := [{ Column.new "hall" .string with nullable := false, references := some "halls" },
      { Column.new "number" .int64 with index := 1 }, { Column.new "badge" .bytes with index := 2 }]
    primaryKey := ["number", "hall"]
    uniqueKeys := [("by_badge", ["badge", "hall"])]
    autoIncrement := false
    engine := "memory" }

theorem seatsBuilt : seats.Built := by
  have ok : (do
      let d ← TableDraft.new "seats"
      let d ← d.addColumn { Column.new "hall" .string with index := 7 }
      let d ← d.addColumn (.new "number" .int64)
      let d ← d.addPrimaryKey ["number"] true
      let d ← d.addUnique "by_badge" ["hall"]
      let d ← (d.addNotNull ["hall", "row"]).addColumn (.new "badge" .bytes)
      let d ← d.addUnique "by_badge" ["badge", "hall"]
      let d ← d.addPrimaryKey ["number", "hall"] false
      let d ← d.addForeignKey "hall" "halls"
      d.build) = .ok seats := by decide +kernel
  obtain ⟨d, new, ok⟩ := Outcome.bindOk.mp ok
  obtain ⟨d, hall, ok⟩ := Outcome.bindOk.mp ok
  obtain ⟨d, number, ok⟩ := Outcome.bindOk.mp ok
  obtain ⟨d, single, ok⟩ := Outcome.bindOk.mp ok
  obtain ⟨d, narrow, ok⟩ := Outcome.bindOk.mp ok
  obtain ⟨d, badge, ok⟩ := Outcome.bindOk.mp ok
  obtain ⟨d, wide, ok⟩ := Outcome.bindOk.mp ok
  obtain ⟨d, key, ok⟩ := Outcome.bindOk.mp ok
  obtain ⟨d, halls, ok⟩ := Outcome.bindOk.mp ok
  have numbered : TableDraft.Drafted _ := .primaryKey (.column (.column (.new new) hall) number) single
  have badged : TableDraft.Drafted _ := .column (.notNull (.unique numbered narrow) _) badge
  exact ⟨d, .foreignKey (.primaryKey (.unique badged wide) key) halls, ok⟩

theorem builtKeysSeats : seats.Built ∧ seats.Sound ∧ seats.primaryKeyIndices = [1, 0] ∧
    seats.Places ["number", "hall"] [1, 0] ∧
    (TableStore.new seats).indexes.map (fun ix => (ix.name, ix.columns)) =
      [("primary_key", [1, 0]), ("by_badge", [2, 0])] := by
  have places : seats.primaryKeyIndices = [1, 0] := by decide +kernel
  obtain ⟨sound, primary, _⟩ := builtKeys seatsBuilt
  exact ⟨seatsBuilt, sound, places, places ▸ primary, by decide +kernel⟩

end TableSchema

end RelQuery
