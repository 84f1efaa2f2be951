import RelQuery.Proofs.Store.Effect
import RelQuery.Proofs.Store.RowByRow

/-! Identifiers across calls. A scan lists rows by rising identifiers. Each identifier that a successful call gives
is below all those of later calls, so none is given again, and one that is out of use stays so. -/
namespace RelQuery.TableStore
open Progress (begun)

inductive Call : Type 1 where
  | addAll {σ : Type} (rows : List (List Value)) (columns : List String)
      (handler : Option (DuplicateHandler σ)) (state : σ)
  | updateAll (rows : List Row)
  | deleteAll (keys : List Key)
  | clear

namespace Call

def run (s : TableStore) : Call → TableStore
  | addAll rows columns handler state => (s.addAll rows columns handler state).store
  | updateAll rows => (s.updateAll rows).1
  | deleteAll keys => (s.deleteAll keys).1
  | clear => s.clear

def Succeeds (s : TableStore) : Call → Prop
  | addAll rows columns handler state => ∃ keys, (s.addAll rows columns handler state).keys = .ok keys
  | updateAll rows => ∃ keys, (s.updateAll rows).2 = .ok keys
  | deleteAll _ | clear => True

def Removes : Call → Prop
  | addAll .. | updateAll _ => False
  | deleteAll _ | clear => True

end Call

def after (s : TableStore) (calls : List Call) : TableStore := calls.foldl Call.run s

/-- Whether the n-th row of a call is added under an identifier, be it that a later row fails and it is taken back. -/
inductive Gives (s : TableStore) : Call → Nat → Nat → Prop where
  | added {σ : Type} {rows : List (List Value)} {columns : List String} {handler : Option (DuplicateHandler σ)}
      {state : σ} {positions : List Nat} {n id : Nat} {given : List Value} {p p' : Progress σ}
      (listed : columns.mapM s.position = .ok positions) (here : rows[n]? = some given)
      (reached : (rows.take n).foldlM (Progress.addRow positions handler) (begun s state) = .ok p)
      (row : Progress.addRow positions handler p given = .ok p')
      (absent : p.store.row? id = none) (there : p'.store.row? id ≠ none) :
      Gives s (.addAll rows columns handler state) n id

variable {schema : TableSchema} {s : TableStore} {call : Call} {id n m : Nat}

/-! Tables that calls come to -/

theorem reachableRun (h : Reachable schema s) (call : Call) : Reachable schema (call.run s) := by
  cases call with
  | addAll rows columns handler state => exact .addAll h rows columns handler state
  | updateAll rows => exact .updateAll h rows
  | deleteAll keys => exact .deleteAll h keys
  | clear => exact .clear h

theorem reachableAfter (h : Reachable schema s) (calls : List Call) : Reachable schema (s.after calls) := by
  induction calls generalizing s with
  | nil => exact h
  | cons call calls ih => exact ih (reachableRun h call)

theorem rowsRise (h : Consistent s) : s.rows.Pairwise (·.id < ·.id) := by
  have rising := Std.ExtTreeMap.ordered_keys_toList (t := s.rowsById)
  rw [rows, List.pairwise_map]
  refine rising.imp_of_mem fun {a b} first second less => ?_
  rw [Std.ExtTreeMap.mem_toList_iff_getElem?_eq_some] at first second
  rw [(h.ids _ _ first).1, (h.ids _ _ second).1]
  exact Nat.compare_eq_lt.mp less

/-! The counter of identifiers -/

section
variable {σ : Type} {positions : List Nat} {handler : Option (DuplicateHandler σ)} {given : List Value}
  {rows done rest : List (List Value)} {p p' q : Progress σ}

theorem rowCounts (row : Progress.addRow positions handler p given = .ok p') :
    p.store.nextRowId ≤ p'.store.nextRowId ∧
      ∀ id, p.store.row? id = none → p'.store.row? id ≠ none →
        id = p.store.nextRowId ∧ id < p'.store.nextRowId := by
  obtain ⟨counted, values, assigned, _, kept⟩ := addRowDone row
  obtain ⟨c, rfl⟩ := assignAutoCounts assigned
  rcases kept with ⟨_, rfl⟩ | ⟨same, _⟩ | ⟨r, fresh, old, replaced, _⟩
  · refine ⟨Nat.le_succ _, fun id absent there => ?_⟩
    rw [Progress.added, rowInserted] at there
    split at there
    · rename_i next
      exact ⟨next.symm, next ▸ Nat.lt_succ_self _⟩
    · exact absurd absent there
  · rw [same]
    exact ⟨Nat.le_refl _, fun _ absent there => absurd absent there⟩
  · have stored := (replaceOk.mp replaced).1
    obtain ⟨_, _, _, c, after⟩ := replaceCounts replaced
    refine ⟨Nat.le_of_eq (congrArg TableStore.nextRowId after).symm, fun id absent there => ?_⟩
    rw [rowReplaced replaced] at there
    split at there
    · rename_i same
      rw [same] at stored
      cases absent.symm.trans stored
    · exact absurd absent there

theorem rowsCount (ran : rows.foldlM (Progress.addRow positions handler) p = .ok q) :
    p.store.nextRowId ≤ q.store.nextRowId :=
  addRowsKept (I := fun q => p.store.nextRowId ≤ q.store.nextRowId) (Nat.le_refl _)
    (fun _ _ _ _ _ _ _ row le => Nat.le_trans le (rowCounts row).1) ran

theorem rowsDivide (ran : (done ++ given :: rest).foldlM (Progress.addRow positions handler) p = .ok q) :
    ∃ t t', done.foldlM (Progress.addRow positions handler) p = .ok t ∧
      Progress.addRow positions handler t given = .ok t' ∧
        rest.foldlM (Progress.addRow positions handler) t' = .ok q := by
  rw [List.foldlM_append] at ran
  cases first : done.foldlM (Progress.addRow positions handler) p with
  | error failure =>
      rw [first] at ran
      cases ran
  | ok t =>
      simp only [first, List.foldlM_cons, bind, Except.bind] at ran
      cases row : Progress.addRow positions handler t given with
      | error failure =>
          rw [row] at ran
          cases ran
      | ok t' =>
          rw [row] at ran
          exact ⟨t, t', rfl, row, ran⟩

theorem rowsTake (here : rows[n]? = some given) (later : n < m) :
    rows.take m = rows.take n ++ given :: (rows.take m).drop (n + 1) := by
  have item : (rows.take m)[n]? = some given := by rw [List.getElem?_take_of_lt later, here]
  calc rows.take m = (rows.take m).take n ++ (rows.take m).drop n := (List.take_append_drop ..).symm
    _ = rows.take n ++ (rows.take m).drop n := by rw [List.take_take, Nat.min_eq_left (Nat.le_of_lt later)]
    _ = rows.take n ++ given :: (rows.take m).drop (n + 1) := by
        rw [List.drop_eq_getElem?_toList_append, item]
        rfl

/-- A row of a batch leaves the counter no higher than a later row finds it. -/
theorem turnsCount (here : rows[n]? = some given) (later : n < m)
    (reached : (rows.take n).foldlM (Progress.addRow positions handler) p = .ok p')
    (ran : (rows.take m).foldlM (Progress.addRow positions handler) p = .ok q) :
    ∃ next, Progress.addRow positions handler p' given = .ok next ∧
      next.store.nextRowId ≤ q.store.nextRowId := by
  rw [rowsTake here later] at ran
  obtain ⟨t, next, first, row, rest⟩ := rowsDivide ran
  cases reached.symm.trans first
  exact ⟨next, row, rowsCount rest⟩

end

theorem givesNext (gives : Gives s call n id) :
    s.nextRowId ≤ id ∧ (call.Succeeds s → id < (call.run s).nextRowId) := by
  obtain @⟨σ, rows, columns, handler, state, positions, n, id, given, p, p', listed, here, reached, row, absent,
    there⟩ := gives
  obtain ⟨next, below⟩ := (rowCounts row).2 _ absent there
  refine ⟨next ▸ rowsCount reached, ?_⟩
  rintro ⟨keys, ok⟩
  obtain ⟨positions', q, listed', ran, store, _⟩ := addAllOk.mp (addAllSucceeded ok)
  cases listed.symm.trans listed'
  rw [← List.take_length (l := rows)] at ran
  have inside : n < rows.length := (List.getElem?_eq_some_iff.mp here).1
  obtain ⟨p'', row', le⟩ := turnsCount here inside reached ran
  cases row.symm.trans row'
  rw [Call.run, ← store]
  exact Nat.lt_of_lt_of_le below le

theorem givesRise {id' : Nat} (gives : Gives s call n id) (gives' : Gives s call m id') (later : n < m) : id < id' := by
  obtain @⟨σ, rows, columns, handler, state, positions, n, id, given, p, p', listed, here, reached, row, absent,
    there⟩ := gives
  obtain @⟨_, _, _, _, _, positions', m, id', given', q, q', listed', _, reached', row', absent', there'⟩ := gives'
  cases listed.symm.trans listed'
  obtain ⟨_, below⟩ := (rowCounts row).2 _ absent there
  obtain ⟨next, _⟩ := (rowCounts row').2 _ absent' there'
  obtain ⟨p'', again, le⟩ := turnsCount here later reached reached'
  cases row.symm.trans again
  exact next ▸ Nat.lt_of_lt_of_le below le

/-- A row that a call leaves under an identifier that was not there was added by it. -/
theorem givesNew (h : Consistent s) (absent : s.row? id = none) (there : (call.run s).row? id ≠ none) :
    call.Succeeds s ∧ ∃ n, Gives s call n id := by
  cases call with
  | addAll rows columns handler state =>
      simp only [Call.run] at there
      cases finished : (s.addAll rows columns handler state).keys with
      | error e =>
          rw [addAllError h finished] at there
          exact absurd absent there
      | ok keys =>
          refine ⟨⟨keys, finished⟩, ?_⟩
          obtain ⟨positions, q, listed, ran, store, _⟩ := addAllOk.mp (addAllSucceeded finished)
          rw [← store] at there
          by_contra none
          refine there (addRowsKept (I := fun p => p.store.row? id = .none) absent ?_ ran)
          intro done given rest p p' split reached row absent'
          by_contra there'
          refine none ⟨done.length, .added listed ?_ ?_ row absent' there'⟩
          · rw [split, List.getElem?_append_right (Nat.le_refl _), Nat.sub_self, List.getElem?_cons_zero]
          · rw [split, List.take_left]
            exact reached
  | updateAll rows =>
      refine absurd (updateAllKept (I := fun t => t.row? id = none) absent ?_) there
      intro t t' r key updated absent
      obtain ⟨_, fresh, old, replaced, _⟩ := updateRowReplaced updated
      have stored := (replaceOk.mp replaced).1
      rw [rowReplaced replaced]
      split
      · rename_i same
        rw [same] at stored
        cases absent.symm.trans stored
      · exact absent
  | deleteAll keys =>
      refine absurd ?_ there
      rw [Call.run, deleteAllRow h, absent, ite_self]
  | clear => exact absurd (rowClear s id) there

theorem runCounts (h : Consistent s) (call : Call) : s.nextRowId ≤ (call.run s).nextRowId := by
  cases call with
  | addAll rows columns handler state =>
      exact addAllKept (I := fun t => s.nextRowId ≤ t.nextRowId) h (Nat.le_refl _)
        fun _ _ _ _ _ row le => Nat.le_trans le (rowCounts row).1
  | updateAll rows =>
      refine updateAllKept (I := fun t => s.nextRowId ≤ t.nextRowId) (Nat.le_refl _) ?_
      intro t t' r key updated le
      obtain ⟨_, fresh, old, replaced, _⟩ := updateRowReplaced updated
      obtain ⟨_, _, _, c, rfl⟩ := replaceCounts replaced
      exact le
  | deleteAll keys =>
      refine deleteAllKept (I := fun t => s.nextRowId ≤ t.nextRowId) (Nat.le_refl _) ?_
      intro t t' key deleted le
      obtain ⟨_, _, _, _, rfl⟩ := deleteSome.mp deleted
      exact le
  | clear => exact Nat.le_refl _

theorem afterCounts (h : Reachable schema s) (calls : List Call) : s.nextRowId ≤ (s.after calls).nextRowId := by
  induction calls generalizing s with
  | nil => exact Nat.le_refl _
  | cons call calls ih =>
      exact Nat.le_trans (runCounts (reachableConsistent h) call) (ih (reachableRun h call))

/-- An identifier that is out of use stays so. -/
theorem afterAbsent (h : Reachable schema s) (out : id < s.nextRowId) (absent : s.row? id = none)
    (calls : List Call) : (s.after calls).row? id = none := by
  induction calls generalizing s with
  | nil => exact absent
  | cons call calls ih =>
      refine ih (reachableRun h call) (Nat.lt_of_lt_of_le out (runCounts (reachableConsistent h) call)) ?_
      by_contra there
      obtain ⟨_, n, gives⟩ := givesNew (reachableConsistent h) absent there
      exact absurd (givesNext gives).1 (Nat.not_le.mpr out)

end RelQuery.TableStore
