import RelQuery.Proofs.Store.Consistent
import Mathlib.Data.List.Induction
import Mathlib.Logic.Relation

/-! Batches of writes. Whatever a call does to a table is a sequence of single writes, each of which
keeps the table consistent. A batch of additions that fails takes all of its own writes back. -/
namespace RelQuery.TableStore

/-- One write to a table. A row that is added takes its place on the counter first. -/
inductive Write : TableStore → TableStore → Prop where
  | counted {s s' : TableStore} {positions : List Nat} {given values : List Value}
      (assigned : s.assignAuto (s.layout positions given) = .ok (s', values))
      (complete : s'.checkNotNull values = .ok ()) : Write s s'
  | added {s s' : TableStore} {positions : List Nat} {given values : List Value}
      (assigned : s.assignAuto (s.layout positions given) = .ok (s', values))
      (complete : s'.checkNotNull values = .ok ())
      (free : s'.conflict? values none = none) : Write s (s'.insertRow values).1
  | replaced {s s' : TableStore} {r fresh old : Row} (replaced : s.replace r = .ok (s', fresh, old)) :
      Write s s'
  | deleted {s s' : TableStore} {key : Key} (deleted : s.delete key = some s') : Write s s'
  | cleared {s : TableStore} : Write s s.clear

abbrev Writes := Relation.ReflTransGen Write

variable {s s' : TableStore} {values given : List Value} {r fresh old : Row} {key : Key}

/-! What a single write does -/

theorem assignAutoCounts (assigned : s.assignAuto given = .ok (s', values)) :
    ∃ n, s' = { s with nextAuto := n } := by
  simp only [assignAuto] at assigned
  split at assigned
  · cases assigned
    exact ⟨s.nextAuto, rfl⟩
  · split at assigned
    · cases assigned
      exact ⟨_, rfl⟩
    · cases assigned
      exact ⟨_, rfl⟩
    · cases assigned
      exact ⟨_, rfl⟩
    · cases assigned

theorem layoutLength (s : TableStore) (positions : List Nat) (given : List Value) :
    (s.layout positions given).length = s.schema.columns.length := by simp [layout]

theorem reserveReplacedCounts (s : TableStore) (values : List Value) :
    ∃ n, s.reserveReplaced values = { s with nextAuto := n } := by
  simp only [reserveReplaced]
  split
  · exact ⟨s.nextAuto, rfl⟩
  · split
    · exact ⟨_, rfl⟩
    · exact ⟨s.nextAuto, rfl⟩

theorem replaceOk : s.replace r = .ok (s', fresh, old) ↔ s.row? r.id = some old ∧
    s.checkNotNull r.values = .ok () ∧ s.conflict? r.values (some r.id) = none ∧
      fresh = supersede old r ∧ s' = (s.overwrite old fresh).reserveReplaced fresh.values := by
  simp only [replace]
  cases s.row? r.id with
  | none => simp
  | some there =>
      simp only [Outcome.bindOk, Option.some.injEq]
      cases s.conflict? r.values (some r.id) with
      | some clash => simp
      | none =>
          simp only [Outcome.pureOk, Prod.mk.injEq]
          constructor
          · rintro ⟨_, complete, rfl, rfl, rfl⟩
            exact ⟨rfl, complete, trivial, rfl, rfl⟩
          · rintro ⟨rfl, complete, _, rfl, rfl⟩
            exact ⟨(), complete, rfl, rfl, rfl⟩

theorem replaceCounts (replaced : s.replace r = .ok (s', fresh, old)) :
    s.row? r.id = some old ∧ fresh.id = r.id ∧ s.conflict? fresh.values (some r.id) = none ∧
      ∃ n, s' = { s.overwrite old fresh with nextAuto := n } := by
  obtain ⟨stored, _, none, rfl, rfl⟩ := replaceOk.mp replaced
  exact ⟨stored, rfl, none, reserveReplacedCounts _ _⟩

theorem rowReplaced (replaced : s.replace r = .ok (s', fresh, old)) (id : Nat) :
    s'.row? id = if r.id = id then some fresh else s.row? id := by
  obtain ⟨_, own, _, n, rfl⟩ := replaceCounts replaced
  rw [← own]
  exact UniqueIndex.rowInsert ..

theorem deleteSome : s.delete key = some s' ↔ ∃ id r, s.findByKey key = some id ∧
    s.row? id = some r ∧ s' = s.without id r := by
  simp only [delete, Option.bind_eq_bind, Option.bind_eq_some_iff, Option.pure_def,
    Option.some.injEq, without]
  constructor
  · rintro ⟨id, found, r, stored, rfl⟩
    exact ⟨id, r, found, stored, rfl⟩
  · rintro ⟨id, r, found, stored, rfl⟩
    exact ⟨id, found, r, stored, rfl⟩

theorem writeConsistent (write : Write s s') (h : Consistent s) : Consistent s' := by
  cases write with
  | counted assigned =>
      obtain ⟨n, rfl⟩ := assignAutoCounts assigned
      exact consistentAuto h n
  | added assigned complete free =>
      obtain ⟨n, rfl⟩ := assignAutoCounts assigned
      exact consistentInsert (consistentAuto h n) free
  | replaced replaced =>
      obtain ⟨stored, same, none, n, rfl⟩ := replaceCounts replaced
      exact consistentAuto (consistentOverwrite h stored same none) n
  | deleted deleted =>
      obtain ⟨id, r, _, stored, rfl⟩ := deleteSome.mp deleted
      exact consistentWithout h stored
  | cleared => exact consistentClear h

theorem writesConsistent (writes : Writes s s') (h : Consistent s) : Consistent s' := by
  induction writes with
  | refl => exact h
  | tail _ write ih => exact writeConsistent write ih

theorem writeSchema (write : Write s s') : s'.schema = s.schema := by
  cases write with
  | counted assigned =>
      obtain ⟨n, rfl⟩ := assignAutoCounts assigned
      rfl
  | added assigned =>
      obtain ⟨n, rfl⟩ := assignAutoCounts assigned
      rfl
  | replaced replaced =>
      obtain ⟨_, _, _, n, rfl⟩ := replaceCounts replaced
      rfl
  | deleted deleted =>
      obtain ⟨id, r, _, _, rfl⟩ := deleteSome.mp deleted
      rfl
  | cleared => rfl

theorem writesSchema (writes : Writes s s') : s'.schema = s.schema := by
  induction writes with
  | refl => rfl
  | tail _ write ih => exact (writeSchema write).trans ih

/-! Rolling back -/

theorem revertCounters (s : TableStore) (u : Undo) (id : Nat) (n : Int64) :
    ({ s with nextRowId := id, nextAuto := n }).revert u =
      { s.revert u with nextRowId := id, nextAuto := n } := by
  cases u with
  | added i =>
      simp only [revert, row?]
      split <;> rfl
  | replaced old =>
      simp only [revert, row?]
      split <;> rfl

theorem rollBackCounters (s : TableStore) (undo : List Undo) (id id' : Nat) (n n' : Int64) :
    ({ s with nextRowId := id', nextAuto := n' }).rollBack undo id n = s.rollBack undo id n := by
  induction undo generalizing s with
  | nil => rfl
  | cons u undo ih =>
      have first := ih (s.revert u)
      rw [← revertCounters] at first
      exact first

theorem rollBackWrite {u : Undo} {undo : List Undo} {id id' : Nat} {n n' : Int64}
    (back : s'.revert u = { s with nextRowId := id', nextAuto := n' }) :
    s'.rollBack (u :: undo) id n = s.rollBack undo id n := by
  have first : s'.rollBack (u :: undo) id n = (s'.revert u).rollBack undo id n := rfl
  rw [first, back]
  exact rollBackCounters s undo id id' n n'

/-! Additions in progress -/

section
variable {σ : Type} {p p' : Progress σ} {e : Error} {positions : List Nat}
  {handler : Option (DuplicateHandler σ)} {start : TableStore} {rows : List (List Value)}

structure Undoable (start : TableStore) (p : Progress σ) : Prop where
  consistent : Consistent p.store
  back : p.store.rollBack p.undo start.nextRowId start.nextAuto = start

/-- What a row does to a batch. It is added, or dropped, or the handler's values replace a row that is there. A
row that fails logs no write, though the counter may have moved. -/
def RowDone (positions : List Nat) (handler : Option (DuplicateHandler σ)) (given : List Value)
    (p : Progress σ) : Except (Error × Progress σ) (Progress σ) → Prop
  | .ok p' => ∃ s values, p.store.assignAuto (p.store.layout positions given) = .ok (s, values) ∧
      s.checkNotNull values = .ok () ∧
        (s.conflict? values none = none ∧ p' = { p with store := s }.added values ∨
          p'.store = s ∧ p'.undo = p.undo ∨
            ∃ r fresh old, s.replace r = .ok (p'.store, fresh, old) ∧
              p'.undo = .replaced old :: p.undo ∧ s.conflict? values none ≠ none ∧
                ∃ decide existing, handler = some decide ∧
                  (decide existing (.dummy values) p.handlerState).1 = .ok (.update r.values))
  | .error (_, p') => p'.undo = p.undo ∧ ∃ n, p'.store = { p.store with nextAuto := n }

theorem addRowDone {result : Except (Error × Progress σ) (Progress σ)}
    (done : Progress.addRow positions handler p given = result) :
    RowDone positions handler given p result := by
  rw [← done]
  simp only [Progress.addRow]
  split
  · exact ⟨rfl, p.store.nextAuto, rfl⟩
  · split
    · exact ⟨rfl, p.store.nextAuto, rfl⟩
    · rename_i s values assigned
      have counts := assignAutoCounts assigned
      split
      · exact ⟨rfl, counts⟩
      · rename_i complete
        simp only [Progress.stored]
        split
        · rename_i free
          exact ⟨s, values, assigned, complete, .inl ⟨free, rfl⟩⟩
        · rename_i clash
          split
          · exact ⟨rfl, counts⟩
          · exact ⟨rfl, counts⟩
          · rename_i decide existing _
            split
            · exact ⟨rfl, counts⟩
            · rename_i action decided
              cases action with
              | ignore => exact ⟨s, values, assigned, complete, .inr (.inl ⟨rfl, rfl⟩)⟩
              | update updated =>
                  simp only [Progress.settled]
                  split
                  · exact ⟨rfl, counts⟩
                  · rename_i replaced
                    exact ⟨s, values, assigned, complete,
                      .inr (.inr ⟨_, _, _, replaced, rfl, by simp [clash], decide, existing, rfl, decided⟩)⟩

theorem addRowAdded {p : Progress σ} (width : given.length = positions.length)
    (assigned : p.store.assignAuto (p.store.layout positions given) = .ok (s', values))
    (complete : s'.checkNotNull values = .ok ()) (free : s'.conflict? values none = none) :
    Progress.addRow positions handler p given = .ok ({ p with store := s' }.added values) := by
  simp only [Progress.addRow, width, ne_eq, not_true_eq_false, if_false, assigned, complete, Progress.stored,
    free]

theorem addRowReplaced {p : Progress σ} {decide : DuplicateHandler σ} {ix : UniqueIndex} {id : Nat}
    {existing : Row} {updated : List Value} {s'' : TableStore} (width : given.length = positions.length)
    (assigned : p.store.assignAuto (p.store.layout positions given) = .ok (s', values))
    (complete : s'.checkNotNull values = .ok ()) (clash : s'.conflict? values none = some (ix, id))
    (there : s'.row? id = some existing)
    (decided : (decide existing (.dummy values) p.handlerState).1 = .ok (.update updated))
    (replaced : s'.replace (.new id updated) = .ok (s'', fresh, old)) :
    ∃ p', Progress.addRow positions (some decide) p given = .ok p' ∧ p'.store = s'' := by
  simp only [Progress.addRow, width, ne_eq, not_true_eq_false, if_false, assigned, complete, Progress.stored,
    clash, there, decided, Progress.settled, replaced]
  exact ⟨_, rfl, rfl⟩

theorem addRowWrites (ok : Progress.addRow positions handler p given = .ok p') :
    Writes p.store p'.store := by
  obtain ⟨s, values, assigned, complete, kept⟩ := addRowDone ok
  rcases kept with ⟨free, rfl⟩ | ⟨same, _⟩ | ⟨r, fresh, old, replaced, _, _⟩
  · exact .single (.added assigned complete free)
  · exact same ▸ .single (.counted assigned complete)
  · exact (Relation.ReflTransGen.single (.counted assigned complete)).tail (.replaced replaced)

theorem addRowUndoable (ok : Progress.addRow positions handler p given = .ok p')
    (h : Undoable start p) : Undoable start p' := by
  refine ⟨writesConsistent (addRowWrites ok) h.consistent, ?_⟩
  obtain ⟨s, values, assigned, _, kept⟩ := addRowDone ok
  obtain ⟨n, rfl⟩ := assignAutoCounts assigned
  have consistent := consistentAuto h.consistent n
  -- What is left to take back after the new entry is the batch as it was before the row.
  rw [← h.back]
  rcases kept with ⟨free, rfl⟩ | ⟨same, log⟩ | ⟨r, fresh, old, replaced, log, _⟩
  · have back := revertAdded consistent free
    exact rollBackWrite back
  · rw [same, log]
    exact rollBackCounters p.store p.undo _ p.store.nextRowId _ n
  · obtain ⟨stored, same, none, m, after⟩ := replaceCounts replaced
    have back : p'.store.revert (.replaced old) = { p.store with nextAuto := m } := by
      rw [after, revertCounters, revertReplaced consistent stored same none]
      rfl
    rw [log]
    exact rollBackWrite back

theorem addRowsUndone (h : Undoable start p) {p' : Progress σ}
    (failed : rows.foldlM (Progress.addRow positions handler) p = .error (e, p')) :
    p'.store.rollBack p'.undo start.nextRowId start.nextAuto = start := by
  induction rows generalizing p with
  | nil => cases failed
  | cons given rows ih =>
      simp only [List.foldlM_cons, bind, Except.bind] at failed
      cases first : Progress.addRow positions handler p given with
      | ok next =>
          rw [first] at failed
          exact ih (addRowUndoable first h) failed
      | error failure =>
          rw [first] at failed
          cases failed
          obtain ⟨log, n, after⟩ := addRowDone first
          rw [log, after, ← h.back]
          exact rollBackCounters p.store p.undo _ p.store.nextRowId _ n

/-! Calls -/

variable {columns : List String} {state : σ} {I : TableStore → Prop}

theorem addAllError (h : Consistent s) (failed : (s.addAll rows columns handler state).keys = .error e) :
    (s.addAll rows columns handler state).store = s := by
  simp only [addAll] at failed ⊢
  cases listed : columns.mapM s.position with
  | error e' => rfl
  | ok positions =>
      have undoable : Undoable s (⟨s, state, [], #[]⟩ : Progress σ) := ⟨h, rfl⟩
      simp only [listed] at failed ⊢
      cases result : rows.foldlM (Progress.addRow positions handler) ⟨s, state, [], #[]⟩ with
      | ok p => simp [result] at failed
      | error failure => exact addRowsUndone undoable result

theorem addAllSingle {p : Progress σ} (listed : columns.mapM s.position = .ok positions)
    (added : Progress.addRow positions handler ⟨s, state, [], #[]⟩ given = .ok p) :
    s.addAll [given] columns handler state = ⟨p.store, p.handlerState, .ok p.keys.toList⟩ := by
  simp only [addAll, listed, List.foldlM_cons, List.foldlM_nil, added, bind, Except.bind, pure, Except.pure]

/-- The state of a batch of additions in which a row of it has its turn. -/
structure Turn (s : TableStore) (rows : List (List Value)) (columns : List String)
    (handler : Option (DuplicateHandler σ)) (state : σ) (positions : List Nat) (p : Progress σ)
    (given : List Value) : Prop where
  listed : columns.mapM s.position = .ok positions
  reached : ∃ done rest, rows = done ++ given :: rest ∧
    done.foldlM (Progress.addRow positions handler) ⟨s, state, [], #[]⟩ = .ok p

theorem addRowsKept {before : Progress σ} {I : Progress σ → Prop} (start : I before)
    (step : ∀ done given rest p p', rows = done ++ given :: rest →
      done.foldlM (Progress.addRow positions handler) before = .ok p →
        Progress.addRow positions handler p given = .ok p' → I p → I p')
    (ok : rows.foldlM (Progress.addRow positions handler) before = .ok p) : I p := by
  induction rows using List.reverseRecOn generalizing p with
  | nil =>
      cases ok
      exact start
  | append_singleton rows given ih =>
      simp only [List.foldlM_append, List.foldlM_cons, List.foldlM_nil, bind, Except.bind] at ok
      cases first : rows.foldlM (Progress.addRow positions handler) before with
      | error failure =>
          rw [first] at ok
          cases ok
      | ok middle =>
          simp only [first] at ok
          cases last : Progress.addRow positions handler middle given with
          | error failure =>
              rw [last] at ok
              cases ok
          | ok next =>
              rw [last] at ok
              cases ok
              refine step rows given [] middle _ rfl first last (ih ?_ first)
              intro done given' rest p p' split
              exact step done given' (rest ++ [given]) p p' (by rw [split]; simp)

/-- A call keeps what each of its writes keeps, as a batch of additions that fails changes nothing. -/
theorem addAllKept (h : Consistent s) (start : I s)
    (step : ∀ positions p given p', Turn s rows columns handler state positions p given →
      Progress.addRow positions handler p given = .ok p' → I p.store → I p'.store) :
    I (s.addAll rows columns handler state).store := by
  cases finished : (s.addAll rows columns handler state).keys with
  | error e => rwa [addAllError h finished]
  | ok keys =>
      simp only [addAll] at finished ⊢
      cases listed : columns.mapM s.position with
      | error e => exact start
      | ok positions =>
          simp only [listed] at finished ⊢
          cases result : rows.foldlM (Progress.addRow positions handler) ⟨s, state, [], #[]⟩ with
          | error failure =>
              rw [result] at finished
              cases finished
          | ok p =>
              exact addRowsKept (I := fun p => I p.store) start (fun done given rest p p' split reached =>
                step positions p given p' ⟨listed, done, rest, split, reached⟩) result

theorem updateAllKept {rows : List Row} (start : I s)
    (step : ∀ s s' r key, s.updateRow r = .ok (s', key) → I s → I s') : I (s.updateAll rows).1 := by
  induction rows generalizing s with
  | nil => exact start
  | cons r rows ih =>
      simp only [updateAll]
      split
      · exact start
      · rename_i updated
        exact ih (step _ _ _ _ updated start)

theorem deleteAllKept {keys : List Key} (start : I s)
    (step : ∀ s s' key, s.delete key = some s' → I s → I s') : I (s.deleteAll keys).1 := by
  rw [deleteAll]
  generalize 0 = n
  induction keys generalizing s n with
  | nil => exact start
  | cons key keys ih =>
      rw [List.foldl_cons]
      cases deleted : s.delete key with
      | none => simpa only [deleted] using ih start n
      | some s' => simpa only [deleted] using ih (step _ _ _ deleted start) (n + 1)

theorem addAllWrites (h : Consistent s) : Writes s (s.addAll rows columns handler state).store :=
  addAllKept h .refl fun _ _ _ _ _ ok writes => writes.trans (addRowWrites ok)

end

theorem updateRowReplaced {key : Key} (ok : s.updateRow r = .ok (s', key)) :
    r.values.length = s.columns.length ∧
      ∃ fresh old, s.replace r = .ok (s', fresh, old) ∧ key = s'.keyOf fresh := by
  simp only [updateRow] at ok
  split at ok
  · cases ok
  · rename_i width
    obtain ⟨⟨_, fresh, old⟩, replaced, same⟩ := Outcome.bindOk.mp ok
    cases Outcome.pureOk.mp same
    exact ⟨by simpa using width, fresh, old, replaced, rfl⟩

theorem updateRowWrite {key : Key} (ok : s.updateRow r = .ok (s', key)) : Write s s' := by
  obtain ⟨_, _, _, replaced, _⟩ := updateRowReplaced ok
  exact .replaced replaced

theorem updateAllWrites (s : TableStore) (rows : List Row) : Writes s (s.updateAll rows).1 :=
  updateAllKept (I := Writes s) .refl fun _ _ _ _ updated writes => writes.tail (updateRowWrite updated)

theorem deleteAllWrites (s : TableStore) (keys : List Key) : Writes s (s.deleteAll keys).1 :=
  deleteAllKept (I := Writes s) .refl fun _ _ _ deleted writes => writes.tail (.deleted deleted)

end RelQuery.TableStore
