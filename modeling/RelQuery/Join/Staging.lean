import RelQuery.Join.Run

/-! Writing rows back through the cursors of a join. Replacements are staged by source and written when
the sources are synchronised, the main source first; the first failure ends the synchronisation, and
what was written before it stays. -/
namespace RelQuery

namespace OpenSource

def stage (s : OpenSource) (r : Row) : OpenSource := { s with cursor := s.cursor.stage r }

/-- Writes the staged rows of a source and answers their keys. They are no longer staged then, even if
the write fails. -/
def sync (storage : Storage) (s : OpenSource) : Storage × OpenSource × Outcome (List Key) :=
  match s.cursor.staged with
  | [] => (storage, s, .ok [])
  | staged =>
      let s' := { s with cursor := s.cursor.unstage }
      match s.origin with
      | .result rows => (storage, s', (ResultStore.mk s.columns rows).updateAll staged)
      | .table name =>
          match storage.store name with
          | .error e => (storage, s', .error e)
          | .ok t =>
              let (t', keys) := t.updateAll staged
              (storage.insert name t', s', keys)

end OpenSource

/-- The keys of the rows written for each source. -/
abbrev SyncedKeys := Dictionary String (List Key)

namespace JoinSource

def syncAll (storage : Storage) (done : SyncedKeys) :
    List JoinSource → Storage × List JoinSource × Outcome SyncedKeys
  | [] => (storage, [], .ok done)
  | j :: js =>
      match j.source.sync storage with
      | (storage, s, .error e) => (storage, { j with source := s } :: js, .error e)
      | (storage, s, .ok keys) =>
          let (storage, js', o) := syncAll storage (done.insert s.name keys) js
          (storage, { j with source := s } :: js', o)

end JoinSource

namespace JoinRun

/-- Stages a row on the source of a name. -/
def stage (r : JoinRun) (name : String) (row : Row) : Outcome JoinRun :=
  if (r.source? name).isNone then .error (.schema (.unknownAlias name))
  else if r.main.name = name then .ok { r with main := r.main.stage row }
  else
    .ok { r with
      joins := r.joins.map fun j =>
        if j.source.name = name then { j with source := j.source.stage row } else j }

def sync (storage : Storage) (r : JoinRun) : Storage × JoinRun × Outcome SyncedKeys :=
  match r.main.sync storage with
  | (storage, main, .error e) => (storage, { r with main := main }, .error e)
  | (storage, main, .ok keys) =>
      let (storage, joins, o) :=
        JoinSource.syncAll storage (Dictionary.insert main.name keys []) r.joins
      (storage, { r with main := main, joins := joins }, o)

end JoinRun

end RelQuery
