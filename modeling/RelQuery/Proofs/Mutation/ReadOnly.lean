import RelQuery.Proofs.Mutation.Removal

/-! A DELETE that fails. Everything but the kind of a target's source is checked before the first batch
of deletions. That a derived target is read-only shows only when its turn comes, and the batches of the
targets before it are not taken back. -/
namespace RelQuery.Delete
open JoinRun (collectPasses sourceTable)
open TableStore (deleteAllRows reachableConsistent)

variable {d : Delete} {ctx : Context} {params : List Value} {r : JoinRun} {cs : List Composition}
  {s : OpenSource} {ss front : List OpenSource} {done : Affected} {first : Source} {cause : Error}
  {storage storage' : Storage} {targets : List (OpenSource × List Key)} {keys : List Key}

theorem deleteFromError (failed : deleteFrom storage s keys = (storage', .error cause)) :
    storage' = storage ∧ ((∃ rows, s.origin = .result rows) ∧ cause = .validation .readOnly ∨
      ∃ name, s.origin = .table name ∧ storage.get? name = none) := by
  simp only [deleteFrom] at failed
  split at failed
  · rename_i rows origin
    cases failed
    exact ⟨rfl, .inl ⟨⟨rows, origin⟩, rfl⟩⟩
  · rename_i name origin
    split at failed
    · rename_i missing
      cases failed
      cases there : storage.get? name with
      | none => exact ⟨rfl, .inr ⟨name, origin, there⟩⟩
      | some t => cases missing.symm.trans (Storage.storeOk.mpr there)
    · cases failed

/-- The batches before the one that is refused stay. -/
theorem deleteAllError (failed : deleteAll storage done targets = (storage', .error cause))
    (backed : ∀ entry ∈ targets, ∀ name, entry.1.origin = .table name →
      (storage.get? name).isSome) :
    ∃ front s keys rest, targets = front ++ (s, keys) :: rest ∧
      (∀ entry ∈ front, ∃ name, entry.1.origin = .table name) ∧ (∃ rows, s.origin = .result rows) ∧
      cause = .validation .readOnly ∧
      ∀ name, storage'.get? name =
        (storage.get? name).map fun t => (t.deleteAll (keysFrom name front)).1 := by
  induction targets generalizing storage done with
  | nil => cases failed
  | cons entry targets ih =>
      obtain ⟨s, keys⟩ := entry
      simp only [deleteAll] at failed
      split at failed
      · rename_i next refused rejected
        cases failed
        obtain ⟨rfl, ⟨derived, rfl⟩ | ⟨name, origin, missing⟩⟩ := deleteFromError rejected
        · exact ⟨[], s, keys, targets, rfl, by simp, derived, rfl, fun name => Option.map_id'.symm⟩
        · have there := backed _ List.mem_cons_self name origin
          simp [missing] at there
      · rename_i next count removed
        obtain ⟨own, t, origin, there, rfl, _⟩ := deleteFromOk removed
        have still : ∀ entry ∈ targets, ∀ name, entry.1.origin = .table name →
            ((storage.insert own (t.deleteAll keys).1).get? name).isSome := by
          intro entry member name backs
          rw [Dictionary.getInsert]
          split
          · rfl
          · exact backed entry (List.mem_cons_of_mem _ member) name backs
        obtain ⟨front, s', keys', rest, rfl, tabled, derived, reason, tables⟩ := ih failed still
        refine ⟨(s, keys) :: front, s', keys', rest, rfl, ?_, derived, reason, fun name => ?_⟩
        · simpa using ⟨⟨own, origin⟩, fun s keys member => tabled (s, keys) member⟩
        · exact (tables name).trans (keysFromNext origin there name)

/-- No row went if the keys find none. -/
theorem keptIff (reachable : ctx.storage.Reachable)
    (small : ∀ name t, ctx.storage.get? name = some t → t.nextRowId ≤ UInt64.size)
    (read : d.Read ctx params first r ss cs) (inside : ∀ s ∈ front, s ∈ ss)
    (tables : ∀ name, storage.get? name = (ctx.storage.get? name).map fun t =>
      (t.deleteAll (keysFrom name (front.map fun s => (s, keysOf ctx.storage cs s)))).1) :
    (∀ name, (storage.get? name).map (·.rows) = (ctx.storage.get? name).map (·.rows)) ↔
      ∀ name t, ctx.storage.get? name = some t →
        ∀ row, MatchedAny cs front name row → ¬t.Addressable row := by
  refine forall_congr' fun name => ?_
  rw [tables]
  cases there : ctx.storage.get? name with
  | none => simp
  | some t =>
      have whole := reachableConsistent (reachable name t there)
      have stays := fun row (own : row ∈ t.rows) =>
        leftIff read there whole (small name t there) inside own
      simp only [Option.map_some, Option.some.injEq, forall_eq']
      constructor
      · intro same row found addressable
        obtain ⟨s, member, origin, has⟩ := id found
        obtain ⟨own, _⟩ := matchedStored read there (inside s member) origin has
        exact (stays row own).mp (same ▸ own) ⟨addressable, found⟩
      · intro unfound
        rw [deleteAllRows whole, List.filter_eq_self]
        intro row own
        have left := (stays row own).mpr fun ⟨addressable, found⟩ => unfound row found addressable
        rw [deleteAllRows whole] at left
        exact (List.mem_filter.mp left).2

/-- A DELETE that fails leaves every table as it was exactly if it failed before it deleted at all, or
no target before the first derived one has a row that its key finds. -/
theorem runUndoneIff (reachable : ctx.storage.Reachable)
    (small : ∀ name t, ctx.storage.get? name = some t → t.nextRowId ≤ UInt64.size)
    (failed : (d.run ctx params).2 = .error cause) :
    d.collect ctx params = .error cause ∧ (d.run ctx params).1 = ctx.storage ∨
      ∃ e first r ss cs front s rest, d.expand ctx.catalog ctx.database = .ok e ∧
        e.sources.head? = some first ∧ e.startJoin ctx params first = .ok r ∧
        (e.targetNames first).mapM (target r) = .ok ss ∧ r.collect.2 = .ok cs ∧
        (∀ c ∈ cs, r.Passes c) ∧ cause = .validation .readOnly ∧ ss = front ++ s :: rest ∧
        (∀ s ∈ front, ∃ name, s.origin = .table name) ∧ (∃ rows, s.origin = .result rows) ∧
        ((∀ name, ((d.run ctx params).1.get? name).map (·.rows) =
            (ctx.storage.get? name).map (·.rows)) ↔
          ∀ name t, ctx.storage.get? name = some t →
            ∀ row, MatchedAny cs front name row → ¬t.Addressable row) := by
  cases targets : d.collect ctx params with
  | error e =>
      simp only [run, targets] at failed ⊢
      cases failed
      exact .inl ⟨rfl, trivial⟩
  | ok targeted =>
      obtain ⟨e, first, r, ss, cs, expanded, read, rfl⟩ := collectOk targets
      simp only [run, targets] at failed ⊢
      generalize removed : deleteAll ctx.storage [] _ = after at failed
      obtain ⟨storage, o⟩ := after
      cases failed
      have backed : ∀ entry ∈ ss.map fun s => (s, keysOf ctx.storage cs s), ∀ name,
          entry.1.origin = .table name → (ctx.storage.get? name).isSome := by
        intro entry inside name origin
        obtain ⟨s, member, rfl⟩ := List.mem_map.mp inside
        obtain ⟨main, joins, started⟩ := joinStarts read.started
        obtain ⟨t, there, _⟩ := sourceTable started (targetMember read member) origin
        exact Option.isSome_iff_exists.mpr ⟨t, there⟩
      obtain ⟨done, s, keys, rest, split, tabled, derived, reason, tables⟩ :=
        deleteAllError removed backed
      obtain ⟨front, others, rfl, rfl, mapped⟩ := List.map_eq_append_iff.mp split
      obtain ⟨s, after, rfl, same, rfl⟩ := List.map_eq_cons_iff.mp mapped
      cases same
      refine .inr ⟨e, first, r, _, cs, front, s, after, expanded, read.leads, read.started,
        read.targeted, read.collected, collectPasses read.collected, reason, rfl,
        fun s member => tabled _ (List.mem_map_of_mem member), derived, ?_⟩
      exact keptIff reachable small read (fun s member => List.mem_append_left _ member) tables

def allAccounts : Select :=
  { distinct := false
    fields := []
    sources := [account "b"]
    joins := []
    condition := none
    groupBy := []
    having := none
    windows := []
    orderBy := []
    limit := none
    offset := none }

/-- Its second target is a query. -/
def refused : Delete :=
  { targets := ["a", "q"]
    sources := [account "a", .derived allAccounts "q"]
    joins := []
    usingClause := none
    condition := none }

def paired : Context := ledger [[1, 10, 0], [2, 20, 0]] []

theorem runUndoneIffRefused :
    (refused.run paired []).2 = .error (.validation .readOnly) ∧
      ∃ e first r ss cs front, refused.expand paired.catalog paired.database = .ok e ∧
        e.startJoin paired [] first = .ok r ∧ (e.targetNames first).mapM (target r) = .ok ss ∧
        r.collect.2 = .ok cs ∧ (∃ s rest, ss = front ++ s :: rest ∧ ∃ rows, s.origin = .result rows) ∧
        ((∀ name, ((refused.run paired []).1.get? name).map (·.rows) =
            (paired.storage.get? name).map (·.rows)) ↔
          ∀ name t, paired.storage.get? name = some t →
            ∀ row, MatchedAny cs front name row → ¬t.Addressable row) := by
  have failed : (refused.run paired []).2 = .error (.validation .readOnly) := by decide +kernel
  have small : ∀ entry ∈ paired.storage, entry.2.nextRowId ≤ UInt64.size := by decide +kernel
  have reachable : paired.storage.Reachable := ledgerReachable _ _
  rcases runUndoneIff reachable (fun name t there => small _ (Dictionary.getMember there)) failed with
    ⟨_, unchanged⟩ | ⟨e, first, r, ss, cs, front, s, rest, expanded, _, started, targeted, collected,
      _, _, split, _, derived, same⟩
  · have gone : ((refused.run paired []).1.get? (inMain "accounts")).map (·.rows) ≠
        (paired.storage.get? (inMain "accounts")).map (·.rows) := by decide +kernel
    exact absurd (by rw [unchanged]) gone
  · exact ⟨failed, e, first, r, ss, cs, front, expanded, started, targeted, collected,
      ⟨s, rest, split, derived⟩, same⟩

/-- Both accounts are gone although the statement fails. -/
theorem refusedRemoves : paired.storage.Reachable ∧
    (refused.run paired []).2 = .error (.validation .readOnly) ∧
      (paired.storage.get? (inMain "accounts")).map (·.rows) =
        some [⟨0, 1, [.int 1, .int 10, .int 0]⟩, ⟨1, 1, [.int 2, .int 20, .int 0]⟩] ∧
      ((refused.run paired []).1.get? (inMain "accounts")).map (·.rows) = some [] := by
  refine ⟨ledgerReachable _ _, ?_⟩
  decide +kernel

end RelQuery.Delete
