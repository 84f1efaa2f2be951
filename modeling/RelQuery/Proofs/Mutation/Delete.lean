import RelQuery.Mutation.Delete
import RelQuery.Proofs.Grouping
import RelQuery.Proofs.Mutation.Sources
import RelQuery.Proofs.Store.Effect

/-! What a DELETE removes. Rows are found through the join and removed by key, and the key of a row finds
no other row of its table, so nothing goes that was in no composition. -/
namespace RelQuery

namespace TableStore

theorem deleteAllFold (s : TableStore) (keys : List Key) :
    (s.deleteAll keys).1 = keys.foldl (fun s key => (s.delete key).getD s) s := by
  simp only [deleteAll]
  generalize 0 = n
  induction keys generalizing s n with
  | nil => rfl
  | cons key keys ih =>
      rw [List.foldl_cons, List.foldl_cons]
      cases s.delete key with
      | none => exact ih s n
      | some s' => exact ih s' (n + 1)

theorem deleteAllAppend (s : TableStore) (keys keys' : List Key) :
    (s.deleteAll (keys ++ keys')).1 = ((s.deleteAll keys).1.deleteAll keys').1 := by
  rw [deleteAllFold, deleteAllFold, deleteAllFold, List.foldl_append]

end TableStore

namespace Delete
open JoinRun (startDistinct drawnStored collectPasses passesDrawn)
open TableStore (deleteAllRows rowsOnce findOwn reachableConsistent)

variable {d : Delete} {ctx : Context} {params : List Value} {r : JoinRun} {cs : List Composition}
  {s : OpenSource} {ss : List OpenSource} {affected done : Affected} {name : TableName}
  {storage storage' : Storage} {targets : List (OpenSource × List Key)} {first : Source}

/-- What a DELETE without arrow references reads before it deletes. -/
structure Read (d : Delete) (ctx : Context) (params : List Value) (first : Source) (r : JoinRun)
    (ss : List OpenSource) (cs : List Composition) : Prop where
  leads : d.sources.head? = some first
  started : d.startJoin ctx params first = .ok r
  targeted : (d.targetNames first).mapM (target r) = .ok ss
  collected : r.collect.2 = .ok cs

theorem collectOk (ok : d.collect ctx params = .ok targets) : ∃ e first r ss cs,
    d.expand ctx.catalog ctx.database = .ok e ∧ e.Read ctx params first r ss cs ∧
      targets = ss.map fun s => (s, keysOf ctx.storage cs s) := by
  obtain ⟨e, expanded, ok⟩ := Outcome.bindOk.mp ok
  split at ok
  · cases ok
  · split at ok
    · cases ok
    · rename_i first rest leads
      obtain ⟨r, started, ok⟩ := Outcome.bindOk.mp ok
      obtain ⟨ss, targeted, ok⟩ := Outcome.bindOk.mp ok
      obtain ⟨cs, collected, last⟩ := Outcome.bindOk.mp ok
      exact ⟨e, first, r, ss, cs, expanded, ⟨by rw [leads]; rfl, started, targeted, collected⟩,
        (Outcome.pureOk.mp last).symm⟩

theorem joinStarts (started : d.startJoin ctx params first = .ok r) : ∃ main joins,
    JoinRun.start (ctx.relation params) main joins d.condition params = .ok r := by
  simp only [startJoin] at started
  split at started
  · exact ⟨_, _, started⟩
  · exact ⟨_, _, started⟩

theorem targetMember (read : d.Read ctx params first r ss cs) (member : s ∈ ss) : s ∈ r.sources := by
  obtain ⟨name, _, found⟩ := alikeMember (Outcome.mapMOk.mp read.targeted) member
  simp only [target] at found
  split at found
  · rename_i own there
    cases found
    exact List.mem_of_find?_eq_some there
  · cases found

def keysFrom (name : TableName) (targets : List (OpenSource × List Key)) : List Key :=
  (targets.filter (·.1.origin == .table name)).flatMap (·.2)

theorem keysFromCons (name : TableName) (s : OpenSource) (keys : List Key)
    (targets : List (OpenSource × List Key)) : keysFrom name ((s, keys) :: targets) =
      if s.origin = .table name then keys ++ keysFrom name targets else keysFrom name targets := by
  by_cases here : s.origin = .table name <;> simp [keysFrom, here]

theorem deleteFromOk {keys : List Key} {count : Nat}
    (ok : deleteFrom storage s keys = (storage', .ok count)) : ∃ name t, s.origin = .table name ∧
      storage.get? name = some t ∧ storage' = storage.insert name (t.deleteAll keys).1 ∧
        count = (t.deleteAll keys).2 := by
  simp only [deleteFrom] at ok
  split at ok
  · cases ok
  · rename_i name origin
    split at ok
    · cases ok
    · rename_i t found
      cases ok
      exact ⟨name, t, origin, Storage.storeOk.mp found, rfl, rfl⟩

/-- A run of deletions that succeeds has deleted from the table of its first target, and goes on from there. -/
theorem deleteAllNext {keys : List Key}
    (ok : deleteAll storage done ((s, keys) :: targets) = (storage', .ok affected)) :
    ∃ own t, s.origin = .table own ∧ storage.get? own = some t ∧
      deleteAll (storage.insert own (t.deleteAll keys).1)
        (done.insert s.name ⟨(t.deleteAll keys).2, keys⟩) targets = (storage', .ok affected) := by
  simp only [deleteAll] at ok
  split at ok
  · cases ok
  · rename_i next count removed
    obtain ⟨own, t, origin, there, rfl, rfl⟩ := deleteFromOk removed
    exact ⟨own, t, origin, there, ok⟩

/-- A later target of the same table deletes from what the first one leaves. -/
theorem keysFromNext {own : TableName} {t : TableStore} {keys : List Key} (origin : s.origin = .table own)
    (there : storage.get? own = some t) (name : TableName) :
    ((storage.insert own (t.deleteAll keys).1).get? name).map
        (fun t => (t.deleteAll (keysFrom name targets)).1) =
      (storage.get? name).map fun t => (t.deleteAll (keysFrom name ((s, keys) :: targets))).1 := by
  rw [Dictionary.getInsert, keysFromCons, origin]
  by_cases here : name = own
  · subst here
    simp [there, TableStore.deleteAllAppend]
  · simp [here, Ne.symm here]

theorem deleteAllOk (ok : deleteAll storage done targets = (storage', .ok affected)) :
    (∀ name, storage'.get? name =
      (storage.get? name).map fun t => (t.deleteAll (keysFrom name targets)).1) ∧
    ∀ name, (∃ entry ∈ targets, entry.1.name = name ∧
        ∃ count, affected.get? name = some ⟨count, entry.2⟩) ∨
      (∀ entry ∈ targets, entry.1.name ≠ name) ∧ affected.get? name = done.get? name := by
  induction targets generalizing storage done with
  | nil =>
      cases ok
      exact ⟨fun name => Option.map_id'.symm, fun name => .inr ⟨by simp, rfl⟩⟩
  | cons entry targets ih =>
      obtain ⟨s, keys⟩ := entry
      obtain ⟨own, t, origin, there, ok⟩ := deleteAllNext ok
      obtain ⟨tables, reports⟩ := ih ok
      refine ⟨fun name => (tables name).trans (keysFromNext origin there name), fun name => ?_⟩
      rcases reports name with ⟨entry, member, named, count, listed⟩ | ⟨others, kept⟩
      · exact .inl ⟨entry, List.mem_cons_of_mem _ member, named, count, listed⟩
      · rw [Dictionary.getInsert] at kept
        by_cases here : name = s.name
        · subst here
          exact .inl ⟨(s, keys), List.mem_cons_self, rfl, _, by simpa using kept⟩
        · refine .inr ⟨fun entry member => ?_, by simpa [here] using kept⟩
          rcases List.mem_cons.mp member with rfl | member
          · exact Ne.symm here
          · exact others entry member

section
variable {t : TableStore} (read : d.Read ctx params first r ss cs)
include read

theorem drawnRow (there : ctx.storage.get? name = some t) (member : s ∈ ss) (origin : s.origin = .table name)
    {c : Composition} (among : c ∈ cs) {row : Row} (has : c.row? s.name = some row) :
    row ∈ t.rows ∧ s.keyOf ctx.storage row = t.keyOf row := by
  obtain ⟨main, joins, started⟩ := joinStarts read.started
  obtain ⟨_, stored, own⟩ := drawnStored started
    (passesDrawn (collectPasses read.collected c among)) (targetMember read member) origin has
  cases there.symm.trans stored
  exact ⟨own, by simp [OpenSource.keyOf, origin, there]⟩

theorem keyMatched (there : ctx.storage.get? name = some t) {key : Key}
    (listed : key ∈ keysFrom name (ss.map fun s => (s, keysOf ctx.storage cs s))) :
    ∃ s ∈ ss, s.origin = .table name ∧ ∃ c ∈ cs, ∃ row ∈ t.rows, c.row? s.name = some row ∧
      key = t.keyOf row := by
  obtain ⟨entry, inside, listed⟩ := List.mem_flatMap.mp listed
  obtain ⟨inside, origin⟩ := List.mem_filter.mp inside
  obtain ⟨s, member, rfl⟩ := List.mem_map.mp inside
  simp only [beq_iff_eq] at origin
  rw [keysOf, Grouping.firstsKeys] at listed
  obtain ⟨c, among, found⟩ :=
    List.mem_filterMap.mp ((Grouping.firstsSublist _ _).subset listed)
  obtain ⟨row, has, rfl⟩ := Option.map_eq_some_iff.mp found
  obtain ⟨own, key⟩ := drawnRow read there member origin among has
  exact ⟨s, member, origin, c, among, row, own, has, key⟩

/-- A row that is gone was found by the key of a row that a target has, so it is this row. -/
theorem removedMatched (whole : TableStore.Consistent t) (small : t.nextRowId ≤ UInt64.size)
    (there : ctx.storage.get? name = some t) {row : Row} (own : row ∈ t.rows)
    (gone : row ∉ (t.deleteAll (keysFrom name
      (ss.map fun s => (s, keysOf ctx.storage cs s)))).1.rows) :
    ∃ s ∈ ss, s.origin = .table name ∧ ∃ c ∈ cs, c.row? s.name = some row := by
  obtain ⟨key, listed, finds⟩ : ∃ key ∈ keysFrom name
      (ss.map fun s => (s, keysOf ctx.storage cs s)), t.findByKey key = some row.id := by
    rw [deleteAllRows whole, List.mem_filter] at gone
    simpa [own] using gone
  obtain ⟨s, member, origin, c, among, row', own', has, rfl⟩ := keyMatched read there listed
  have same := rowsOnce whole own own' (findOwn whole small own' finds)
  exact ⟨s, member, origin, c, among, same ▸ has⟩

theorem targetsOnce {s' : OpenSource} (member : s ∈ ss) (member' : s' ∈ ss)
    (same : s'.name = s.name) : s' = s := by
  obtain ⟨main, joins, started⟩ := joinStarts read.started
  exact List.inj_on_of_nodup_map (startDistinct started) (targetMember read member')
    (targetMember read member) same

end

theorem keysElsewhere (other : ∀ s ∈ ss, s.origin ≠ .table name) (keys : OpenSource → List Key) :
    keysFrom name (ss.map fun s => (s, keys s)) = [] := by
  rw [keysFrom, List.filter_eq_nil_iff.mpr, List.flatMap_nil]
  intro entry inside
  obtain ⟨s, member, rfl⟩ := List.mem_map.mp inside
  simpa using other s member

/-- A DELETE removes only rows that a target has in some composition, leaves the other rows and their
order alone, and reports for each target the keys of its rows, each once and where it was first met.
Identifiers are numbers of 64 bits. -/
theorem runDeletes (reachable : ctx.storage.Reachable)
    (small : ∀ name t, ctx.storage.get? name = some t → t.nextRowId ≤ UInt64.size)
    (ok : (d.run ctx params).2 = .ok affected) :
    ∃ e first r ss cs, d.expand ctx.catalog ctx.database = .ok e ∧
      e.sources.head? = some first ∧ e.startJoin ctx params first = .ok r ∧
      (e.targetNames first).mapM (target r) = .ok ss ∧ r.collect.2 = .ok cs ∧
      (∀ c ∈ cs, r.Passes c) ∧
      (∀ name t, ctx.storage.get? name = some t → ∃ t', (d.run ctx params).1.get? name = some t' ∧
        t'.rows.Sublist t.rows ∧ ∀ row ∈ t.rows, row ∉ t'.rows →
          ∃ s ∈ ss, s.origin = .table name ∧ ∃ c ∈ cs, c.row? s.name = some row) ∧
      (∀ name, (∀ s ∈ ss, s.origin ≠ .table name) →
        (d.run ctx params).1.get? name = ctx.storage.get? name) ∧
      ∀ s ∈ ss, ∃ count keys, affected.get? s.name = some ⟨count, keys⟩ ∧
        keys = (cs.filterMap fun c => (c.row? s.name).map (s.keyOf ctx.storage)).eraseDupsBy Key.same ∧
        keys.Pairwise fun a b => a.same b = false := by
  cases targets : d.collect ctx params with
  | error cause => simp [run, targets] at ok
  | ok targeted =>
      obtain ⟨e, first, r, ss, cs, expanded, read, rfl⟩ := collectOk targets
      simp only [run, targets] at ok ⊢
      generalize removed : deleteAll ctx.storage [] _ = after at ok
      obtain ⟨storage, o⟩ := after
      cases ok
      obtain ⟨tables, reports⟩ := deleteAllOk removed
      refine ⟨e, first, r, ss, cs, expanded, read.leads, read.started, read.targeted,
        read.collected, collectPasses read.collected, fun name t there => ?_, fun name other => ?_,
        fun s member => ?_⟩
      · have whole := reachableConsistent (reachable name t there)
        refine ⟨_, by rw [tables, there]; rfl, ?_, fun row own gone => ?_⟩
        · rw [deleteAllRows whole]
          exact List.filter_sublist
        · exact removedMatched read whole (small name t there) there own gone
      · rw [tables, keysElsewhere other]
        exact Option.map_id'
      · rcases reports s.name with ⟨entry, inside, named, count, listed⟩ | ⟨others, _⟩
        · obtain ⟨s', member', rfl⟩ := List.mem_map.mp inside
          cases targetsOnce read member member' named
          exact ⟨count, _, listed, Grouping.firstsKeys _, Grouping.firstsKeysApart _⟩
        · exact absurd rfl (others _ (List.mem_map_of_mem member))

def closing : Delete :=
  { targets := ["a", "b"]
    sources := [account "a"]
    joins := [⟨.inner, account "b",
      some (.condition (.binary .eq (columnOf "b" "note") (columnOf "a" "id"))), false⟩]
    usingClause := none
    condition := none }

def chained : Context := ledger [[1, 10, 0], [2, 20, 1], [3, 30, 1], [4, 40, 9]] [[1, 1, 5]]

theorem runDeletesClosing :
    (closing.run chained []).2 = .ok [("a", ⟨1, [[.int 1]]⟩), ("b", ⟨2, [[.int 2], [.int 3]]⟩)] ∧
      ((closing.run chained []).1.get? (inMain "accounts")).map (·.rows) =
        some [⟨3, 1, [.int 4, .int 40, .int 9]⟩] ∧
      ∃ e first r ss cs, closing.expand chained.catalog chained.database = .ok e ∧
        e.startJoin chained [] first = .ok r ∧ (e.targetNames first).mapM (target r) = .ok ss ∧
        r.collect.2 = .ok cs ∧ ∃ t t', chained.storage.get? (inMain "accounts") = some t ∧
          (closing.run chained []).1.get? (inMain "accounts") = some t' ∧
          ∀ row ∈ t.rows, row ∉ t'.rows →
            ∃ s ∈ ss, s.origin = .table (inMain "accounts") ∧ ∃ c ∈ cs, c.row? s.name = some row := by
  have ok : (closing.run chained []).2 =
      .ok [("a", ⟨1, [[.int 1]]⟩), ("b", ⟨2, [[.int 2], [.int 3]]⟩)] := by decide +kernel
  have small : ∀ entry ∈ chained.storage, entry.2.nextRowId ≤ UInt64.size := by decide +kernel
  obtain ⟨e, first, r, ss, cs, expanded, _, started, targeted, collected, _, tables, _⟩ :=
    runDeletes (ledgerReachable _ _) (fun name t there => small _ (Dictionary.getMember there)) ok
  obtain ⟨t', there', _, gone⟩ := tables (inMain "accounts") _ rfl
  exact ⟨ok, by decide +kernel, e, first, r, ss, cs, expanded, started, targeted, collected, _, t',
    rfl, there', gone⟩

end Delete

end RelQuery
