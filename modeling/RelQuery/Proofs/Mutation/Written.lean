import RelQuery.Proofs.Mutation.Staging
import RelQuery.Proofs.Store.Effect

/-! What is left when staged rows are written. Sources are written one after another, so a table that
backs several of them takes the rows of each in turn, and a failure leaves what was written before the
row that was refused. -/
namespace RelQuery

/-- The staged rows with their sources, in the order of writing. -/
def pending (sources : List OpenSource) : List (OpenSource × Row) :=
  sources.flatMap fun s => s.cursor.staged.map (s, ·)

def rowsTo (name : TableName) (rows : List (OpenSource × Row)) : List Row :=
  (rows.filter (·.1.origin == .table name)).map (·.2)

@[simp] theorem rowsToNil (name : TableName) : rowsTo name [] = [] := rfl

@[simp] theorem rowsToAppend (name : TableName) (rows rows' : List (OpenSource × Row)) :
    rowsTo name (rows ++ rows') = rowsTo name rows ++ rowsTo name rows' := by
  simp [rowsTo]

theorem rowsToSource (name : TableName) (s : OpenSource) (rows : List Row) :
    rowsTo name (rows.map (s, ·)) = if s.origin = .table name then rows else [] := by
  by_cases here : s.origin = .table name <;> simp [rowsTo, here, List.filter_map, Function.comp_def]

theorem rowsToPending (name : TableName) (sources : List OpenSource) :
    rowsTo name (pending sources) =
      sources.flatMap fun s => if s.origin = .table name then s.cursor.staged else [] := by
  induction sources with
  | nil => rfl
  | cons s sources ih =>
      have all : pending (s :: sources) = s.cursor.staged.map (s, ·) ++ pending sources := rfl
      rw [all, rowsToAppend, rowsToSource, ih, List.flatMap_cons]

namespace Storage
open TableStore (Writes superseded supersededNil supersededAppend writesConsistent writesSchema
  keyOfWrites updateAllOk updateAllWrites)

variable {storage storage' storage'' : Storage} {rows rows' : List (OpenSource × Row)}
  {name : TableName} {t t' : TableStore}

def Consistent (storage : Storage) : Prop :=
  ∀ name t, storage.get? name = some t → TableStore.Consistent t

theorem reachableConsistent (h : storage.Reachable) : storage.Consistent :=
  fun name t there => TableStore.reachableConsistent (h name t there)

/-- What is left of a storage when some rows have been written to the tables of their sources. -/
structure Replaced (before after : Storage) (rows : List (OpenSource × Row)) : Prop where
  backed : ∀ entry ∈ rows, ∃ name t, entry.1.origin = .table name ∧ before.get? name = some t
  untouched : ∀ name, rowsTo name rows = [] → after.get? name = before.get? name
  fits : ∀ name t, before.get? name = some t →
    ∀ r ∈ rowsTo name rows, (t.row? r.id).isSome ∧ r.values.length = t.columns.length
  present : ∀ name t, before.get? name = some t → ∃ t', after.get? name = some t' ∧ Writes t t' ∧
    ∀ id, t'.row? id = (t.row? id).map (superseded (rowsTo name rows))

theorem replacedNone (storage : Storage) : Replaced storage storage [] := by
  refine ⟨by simp, fun _ _ => rfl, fun _ _ _ => by simp,
    fun name t there => ⟨t, there, .refl, fun id => ?_⟩⟩
  rw [rowsToNil, supersededNil, Option.map_id']

theorem replacedMissing (replaced : Replaced storage storage' rows)
    (none : storage.get? name = none) : rowsTo name rows = [] := by
  rw [rowsTo, List.map_eq_nil_iff, List.filter_eq_nil_iff]
  intro entry member same
  obtain ⟨own, t, origin, there⟩ := replaced.backed entry member
  rw [beq_iff_eq, origin] at same
  cases same
  cases none.symm.trans there

theorem replacedAppend (first : Replaced storage storage' rows)
    (rest : Replaced storage' storage'' rows') : Replaced storage storage'' (rows ++ rows') := by
  refine ⟨fun entry member => ?_, fun name none => ?_, fun name t there r member => ?_,
    fun name t there => ?_⟩
  · rcases List.mem_append.mp member with before | after
    · exact first.backed entry before
    · obtain ⟨name, t', origin, there'⟩ := rest.backed entry after
      cases there : storage.get? name with
      | some t => exact ⟨name, t, origin, there⟩
      | none =>
          rw [first.untouched name (replacedMissing first there), there] at there'
          cases there'
  · rw [rowsToAppend, List.append_eq_nil_iff] at none
    exact (rest.untouched name none.2).trans (first.untouched name none.1)
  · obtain ⟨t', there', writes, each⟩ := first.present name t there
    rw [rowsToAppend] at member
    rcases List.mem_append.mp member with before | after
    · exact first.fits name t there r before
    · obtain ⟨stored, width⟩ := rest.fits name t' there' r after
      rw [each, Option.isSome_map] at stored
      exact ⟨stored, width.trans (congrArg (·.columnNames.length) (writesSchema writes))⟩
  · obtain ⟨t', there', writes, each⟩ := first.present name t there
    obtain ⟨t'', there'', writes', each'⟩ := rest.present name t' there'
    refine ⟨t'', there'', writes.trans writes', fun id => ?_⟩
    rw [each', each, Option.map_map, rowsToAppend]
    exact Option.map_congr fun old _ => (supersededAppend _ _ old).symm

theorem consistentReplaced (replaced : Replaced storage storage' rows) (h : storage.Consistent) :
    storage'.Consistent := by
  intro name t' there'
  cases there : storage.get? name with
  | none =>
      rw [replaced.untouched name (replacedMissing replaced there), there] at there'
      cases there'
  | some t =>
      obtain ⟨_, same, writes, _⟩ := replaced.present name t there
      cases same.symm.trans there'
      exact writesConsistent writes (h name t there)

theorem keyOfReplaced (replaced : Replaced storage storage' rows) (h : storage.Consistent)
    (s : OpenSource) : s.keyOf storage' = s.keyOf storage := by
  funext r
  simp only [OpenSource.keyOf]
  split
  · rename_i name _
    cases there : storage.get? name with
    | none => rw [replaced.untouched name (replacedMissing replaced there), there]
    | some t =>
        obtain ⟨t', there', writes, _⟩ := replaced.present name t there
        rw [there', Option.map_some, Option.map_some, keyOfWrites writes (h name t there)]
  · rfl

theorem replacedInsert {s : OpenSource} {rows : List Row} {keys : List Key}
    (h : storage.Consistent) (origin : s.origin = .table name) (there : storage.get? name = some t)
    (ok : t.updateAll rows = (t', .ok keys)) :
    Replaced storage (storage.insert name t') (rows.map (s, ·)) := by
  have place (other : TableName) : rowsTo other (rows.map (s, ·)) = if name = other then rows else [] := by
    rw [rowsToSource, origin]
    simp
  obtain ⟨_, fits, each⟩ := updateAllOk (h name t there) ok
  have writes : Writes t t' := by
    have all := updateAllWrites t rows
    rwa [ok] at all
  refine ⟨fun entry member => ?_, fun other none => ?_, fun other u there' r member => ?_,
    fun other u there' => ?_⟩
  · obtain ⟨r, _, rfl⟩ := List.mem_map.mp member
    exact ⟨name, t, origin, there⟩
  · rw [Dictionary.getInsert]
    by_cases here : other = name
    · subst here
      rw [place, if_pos rfl] at none
      subst none
      cases ok
      simp [there]
    · simp [here]
  · rw [place] at member
    split at member
    · rename_i here
      subst here
      cases there.symm.trans there'
      exact fits r member
    · cases member
  · rw [Dictionary.getInsert]
    by_cases here : other = name
    · subst here
      cases there.symm.trans there'
      exact ⟨t', by simp, writes, by simpa [place] using each⟩
    · refine ⟨u, by simp [here, there'], .refl, fun id => ?_⟩
      rw [place, if_neg (Ne.symm here), supersededNil, Option.map_id']

/-- Why a row cannot be written through a source. -/
def Refused (storage : Storage) (s : OpenSource) (row : Row) (e : Error) : Prop :=
  match s.origin with
  | .result _ => e = .validation .readOnly
  | .table name => storage.store name = .error e ∨
      ∃ t, storage.get? name = some t ∧ t.updateRow row = .error e

end Storage

namespace OpenSource
open Storage (Replaced Refused replacedNone replacedInsert)
open TableStore (updateAllOk updateAllError)
open Relational (stillMain)

variable {storage storage' : Storage} {s s' : OpenSource} {keys : List Key} {e : Error}

theorem syncName (storage : Storage) (s : OpenSource) : (s.sync storage).2.1.name = s.name := by
  simp only [sync]
  split
  · rfl
  · split
    · rfl
    · split <;> rfl

theorem syncStill (storage : Storage) (s : OpenSource) : (stillMain s).sync storage =
    ((s.sync storage).1, stillMain (s.sync storage).2.1, (s.sync storage).2.2) := by
  have staged : (stillMain s).cursor.staged = s.cursor.staged := rfl
  have origin : (stillMain s).origin = s.origin := rfl
  simp only [sync, staged, origin]
  split
  · rfl
  · split
    · rfl
    · split <;> rfl

theorem syncOk (h : storage.Consistent) (ok : s.sync storage = (storage', s', .ok keys)) :
    Replaced storage storage' (s.cursor.staged.map (s, ·)) ∧
      keys = s.cursor.staged.map (s.keyOf storage) := by
  simp only [sync] at ok
  split at ok
  · rename_i none
    cases ok
    rw [none]
    exact ⟨replacedNone storage, rfl⟩
  · split at ok
    · cases ok
    · rename_i name origin
      split at ok
      · cases ok
      · rename_i t found
        have there := Storage.storeOk.mp found
        generalize written : t.updateAll s.cursor.staged = after at ok
        obtain ⟨t', o⟩ := after
        cases ok
        refine ⟨replacedInsert h origin there written, ?_⟩
        rw [(updateAllOk (h name t there) written).1]
        exact List.map_congr_left fun r _ => by simp [keyOf, origin, there]

theorem syncError (h : storage.Consistent) (failed : s.sync storage = (storage', s', .error e)) :
    ∃ done row rest, s.cursor.staged = done ++ row :: rest ∧
      Replaced storage storage' (done.map (s, ·)) ∧ Refused storage' s row e := by
  simp only [sync] at failed
  split at failed
  · cases failed
  · rename_i some
    obtain ⟨row, rest, staged⟩ := List.exists_cons_of_ne_nil some
    split at failed
    · rename_i origin
      cases failed
      exact ⟨[], row, rest, staged, replacedNone storage, by simp only [Refused, origin]⟩
    · rename_i name origin
      split at failed
      · rename_i missing
        cases failed
        refine ⟨[], row, rest, staged, replacedNone storage, ?_⟩
        simp only [Refused, origin]
        exact .inl missing
      · rename_i t found
        have there := Storage.storeOk.mp found
        generalize written : t.updateAll s.cursor.staged = after at failed
        obtain ⟨t', o⟩ := after
        cases failed
        obtain ⟨done, row, rest, keys, all, before, wrong⟩ := updateAllError written
        refine ⟨done, row, rest, all, replacedInsert h origin there before, ?_⟩
        simp only [Refused, origin]
        exact .inr ⟨t', by simp [Dictionary.getInsert], wrong⟩

end OpenSource

namespace JoinRun
open Storage (Replaced Refused replacedNone replacedAppend consistentReplaced keyOfReplaced)
open OpenSource (syncName syncStill syncOk syncError)
open Relational (stillMain)

variable {storage storage' : Storage} {sources : List OpenSource}
  {entries : List (String × List Key)} {e : Error}

def writeEach (storage : Storage) : List OpenSource → Storage × Outcome (List (String × List Key))
  | [] => (storage, .ok [])
  | s :: rest =>
      match s.sync storage with
      | (storage, _, .error e) => (storage, .error e)
      | (storage, _, .ok keys) =>
          let (storage, o) := writeEach storage rest
          (storage, o.map ((s.name, keys) :: ·))

theorem writeEachFailed {s s' : OpenSource} (failed : s.sync storage = (storage', s', .error e))
    (rest : List OpenSource) : writeEach storage (s :: rest) = (storage', .error e) := by
  simp only [writeEach, failed]

theorem writeEachNext {s s' : OpenSource} {keys : List Key}
    (written : s.sync storage = (storage', s', .ok keys)) (rest : List OpenSource) :
    writeEach storage (s :: rest) = ((writeEach storage' rest).1,
      (writeEach storage' rest).2.map ((s.name, keys) :: ·)) := by
  simp only [writeEach, written]

def collectKeys (done : SyncedKeys) (entries : List (String × List Key)) : SyncedKeys :=
  entries.foldl (fun keys (name, own) => keys.insert name own) done

theorem collectKeysDistinct {done : SyncedKeys}
    (distinct : (done.map (·.1) ++ entries.map (·.1)).Nodup) :
    ((collectKeys done entries).map (·.1)).Nodup := by
  induction entries generalizing done with
  | nil => simpa [collectKeys] using distinct
  | cons entry rest ih =>
      obtain ⟨name, keys⟩ := entry
      have fresh : name ∉ done.map (·.1) := fun again =>
        List.disjoint_of_nodup_append distinct again List.mem_cons_self
      refine ih (((Dictionary.keysInsert fresh keys).append_right _).nodup_iff.mpr ?_)
      exact List.perm_middle.nodup_iff.mp distinct

theorem getCollectKeys {done : SyncedKeys} (distinct : (entries.map (·.1)).Nodup) (name : String) :
    (collectKeys done entries).get? name = (Dictionary.get? entries name).or (done.get? name) := by
  induction entries generalizing done with
  | nil => rfl
  | cons entry rest ih =>
      obtain ⟨own, keys⟩ := entry
      rw [List.map_cons, List.nodup_cons] at distinct
      have later : (collectKeys done ((own, keys) :: rest)).get? name =
          (collectKeys (done.insert own keys) rest).get? name := rfl
      rw [later, ih distinct.2, Dictionary.getInsert, Dictionary.getCons]
      by_cases here : name = own
      · subst here
        simp [Dictionary.getNone distinct.1]
      · simp [here]

theorem collectKeysMap (done : SyncedKeys) (name : String) (keys : List Key)
    (o : Outcome (List (String × List Key))) : (o.map ((name, keys) :: ·)).map (collectKeys done) =
      o.map (collectKeys (done.insert name keys)) := by
  cases o <;> rfl

theorem syncAllWrites (storage : Storage) (done : SyncedKeys) (joins : List JoinSource) :
    (JoinSource.syncAll storage done joins).1 = (writeEach storage (joins.map (·.source))).1 ∧
      (JoinSource.syncAll storage done joins).2.2 =
        (writeEach storage (joins.map (·.source))).2.map (collectKeys done) := by
  induction joins generalizing storage done with
  | nil => exact ⟨rfl, rfl⟩
  | cons j joins ih =>
      simp only [JoinSource.syncAll, List.map_cons]
      split
      · rename_i failed
        rw [writeEachFailed failed]
        exact ⟨rfl, rfl⟩
      · rename_i next s keys written
        have name : s.name = j.source.name := by
          rw [← syncName storage j.source, written]
        rw [writeEachNext written, collectKeysMap, ← name]
        exact ih next _

theorem syncWrites (storage : Storage) (r : JoinRun) :
    (r.sync storage).1 = (writeEach storage r.sources).1 ∧
      (r.sync storage).2.2 = (writeEach storage r.sources).2.map (collectKeys []) := by
  simp only [sync, sources]
  split
  · rename_i failed
    rw [writeEachFailed failed]
    exact ⟨rfl, rfl⟩
  · rename_i next s keys written
    have name : s.name = r.main.name := by
      rw [← syncName storage r.main, written]
    rw [writeEachNext written, collectKeysMap, ← name]
    exact syncAllWrites next _ r.joins

theorem writeEachStill (storage : Storage) (sources : List OpenSource) :
    writeEach storage (sources.map stillMain) = writeEach storage sources := by
  induction sources generalizing storage with
  | nil => rfl
  | cons s sources ih =>
      rw [List.map_cons]
      generalize synced : s.sync storage = after
      obtain ⟨next, s', o⟩ := after
      have still := syncStill storage s
      rw [synced] at still
      cases o with
      | error e => rw [writeEachFailed synced, writeEachFailed still]
      | ok keys =>
          rw [writeEachNext synced, writeEachNext still, ih]
          rfl

theorem writeEachOk (h : storage.Consistent)
    (ok : writeEach storage sources = (storage', .ok entries)) :
    Replaced storage storage' (pending sources) ∧
      entries = sources.map fun s => (s.name, s.cursor.staged.map (s.keyOf storage)) := by
  induction sources generalizing storage entries with
  | nil =>
      cases ok
      exact ⟨replacedNone _, rfl⟩
  | cons s sources ih =>
      generalize synced : s.sync storage = after at ok
      obtain ⟨next, s', o⟩ := after
      cases o with
      | error e =>
          rw [writeEachFailed synced] at ok
          cases ok
      | ok keys =>
          rw [writeEachNext synced, Prod.mk.injEq, Outcome.mapOk] at ok
          obtain ⟨final, others, written, rfl⟩ := ok
          obtain ⟨first, own⟩ := syncOk h synced
          obtain ⟨rest, all⟩ := ih (consistentReplaced first h) (Prod.ext final written)
          refine ⟨replacedAppend first rest, ?_⟩
          -- Later keys are read off what the first source left, which has the same key columns.
          rw [own, all, List.map_cons]
          exact congrArg _ (List.map_congr_left fun s' _ => by rw [keyOfReplaced first h])

theorem writeEachError (h : storage.Consistent)
    (failed : writeEach storage sources = (storage', .error e)) : ∃ done s row rest,
      pending sources = done ++ (s, row) :: rest ∧ Replaced storage storage' done ∧
        Refused storage' s row e := by
  induction sources generalizing storage with
  | nil => cases failed
  | cons s sources ih =>
      have all : pending (s :: sources) = s.cursor.staged.map (s, ·) ++ pending sources := rfl
      generalize synced : s.sync storage = after at failed
      obtain ⟨next, s', o⟩ := after
      cases o with
      | error e =>
          rw [writeEachFailed synced] at failed
          cases failed
          obtain ⟨done, row, rest, staged, replaced, refused⟩ := syncError h synced
          refine ⟨done.map (s, ·), s, row, rest.map (s, ·) ++ pending sources, ?_, replaced, refused⟩
          rw [all, staged]
          simp
      | ok keys =>
          rw [writeEachNext synced, Prod.mk.injEq, Outcome.mapError] at failed
          obtain ⟨first, _⟩ := syncOk h synced
          obtain ⟨done, s', row, rest, others, replaced, refused⟩ :=
            ih (consistentReplaced first h) (Prod.ext failed.1 failed.2)
          refine ⟨s.cursor.staged.map (s, ·) ++ done, s', row, rest, ?_,
            replacedAppend first replaced, refused⟩
          rw [all, others, List.append_assoc]

end JoinRun

end RelQuery
