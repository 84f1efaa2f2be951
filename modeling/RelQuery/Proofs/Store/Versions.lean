import RelQuery.Proofs.Store.Identifiers

/-! Versions across calls. A row whose values are replaced keeps its identifier and gets a later version. A call that
fails or deletes leaves the rows that are still there as they were, up to the replacements that a batch had made
before the one that failed. -/
namespace RelQuery.TableStore

/-- A table that a call has come to and the copy of a row that is to replace the row in it. -/
inductive Offers (s : TableStore) : Call → TableStore → Row → Prop where
  | updated {rows done rest : List Row} {r : Row} {t : TableStore} {keys : List Key}
      (split : rows = done ++ r :: rest) (reached : s.updateAll done = (t, .ok keys))
      (width : r.values.length = t.columns.length) : Offers s (.updateAll rows) t r
  | settled {σ : Type} {rows : List (List Value)} {columns : List String} {decide : DuplicateHandler σ}
      {state : σ} {positions : List Nat} {p : Progress σ} {given values updated : List Value} {t : TableStore}
      {ix : UniqueIndex} {id : Nat} {existing : Row}
      (turn : Turn s rows columns (some decide) state positions p given)
      (width : given.length = positions.length)
      (assigned : p.store.assignAuto (p.store.layout positions given) = .ok (t, values))
      (complete : t.checkNotNull values = .ok ()) (clash : t.conflict? values none = some (ix, id))
      (existed : t.row? id = some existing)
      (decided : (decide existing (.dummy values) p.handlerState).1 = .ok (.update updated)) :
      Offers s (.addAll rows columns (some decide) state) t (.new id updated)

/-- Whether a call puts a row in the place of another, be it that a later row fails and it is taken back. -/
def Replaces (s : TableStore) (call : Call) (copy old fresh : Row) : Prop :=
  ∃ t t', Offers s call t copy ∧ t.replace copy = .ok (t', fresh, old)

/-- Counting a version up until it is past another one. -/
inductive CountsPast (floor : UInt64) : UInt64 → UInt64 → Prop where
  | past {v : UInt64} (above : floor < v) : CountsPast floor v v
  | next {v w : UInt64} (within : v ≤ floor) (rest : CountsPast floor (v + 1) w) : CountsPast floor v w

/-- Counting comes to an end below the last number, one above the other version where it began no higher. -/
theorem countsPastIff {floor v w : UInt64} (room : floor.toNat + 1 < UInt64.size) :
    CountsPast floor v w ↔ w.toNat = max v.toNat (floor.toNat + 1) := by
  have one : (1 : UInt64).toNat = 1 := rfl
  have up {v : UInt64} (within : v ≤ floor) : (v + 1).toNat = v.toNat + 1 := by
    rw [UInt64.le_iff_toNat_le] at within
    rw [UInt64.toNat_add, one, Nat.mod_eq_of_lt (by simpa [UInt64.size] using Nat.lt_of_le_of_lt (by omega) room)]
  constructor
  · intro counts
    induction counts with
    | past above =>
        rw [UInt64.lt_iff_toNat_lt] at above
        omega
    | next within _ ih =>
        rw [up within] at ih
        rw [UInt64.le_iff_toNat_le] at within
        omega
  · intro reached
    induction steps : floor.toNat + 1 - v.toNat generalizing v with
    | zero =>
        have same : w = v := UInt64.toNat_inj.mp (by omega)
        subst same
        exact .past (UInt64.lt_iff_toNat_lt.mpr (by omega))
    | succ steps ih =>
        have within : v ≤ floor := UInt64.le_iff_toNat_le.mpr (by omega)
        have next := up within
        exact .next within (ih (by omega) (by omega))

variable {schema : TableSchema} {s t t' : TableStore} {call : Call} {id : Nat} {r r' copy old fresh : Row}
  {σ : Type} {batch : List (List Value)} {columns : List String} {handler : Option (DuplicateHandler σ)} {state : σ}
  {positions : List Nat} {p p' : Progress σ} {given : List Value}

/-! Replacements -/

theorem turnConsistent (h : Consistent s) (turn : Turn s batch columns handler state positions p given) :
    Consistent p.store := by
  obtain ⟨done, rest, _, ran⟩ := turn.reached
  exact writesConsistent (addRowsKept (I := fun p => Writes s p.store) .refl
    (fun _ _ _ _ _ _ _ row writes => writes.trans (addRowWrites row)) ran) h

theorem offersConsistent (h : Consistent s) (offers : Offers s call t copy) : Consistent t := by
  cases offers with
  | @updated _ done _ _ _ _ _ reached _ =>
      have writes := updateAllWrites s done
      rw [reached] at writes
      exact writesConsistent writes h
  | settled turn _ assigned =>
      obtain ⟨c, rfl⟩ := assignAutoCounts assigned
      exact consistentAuto (turnConsistent h turn) c

theorem replacesOwn (h : Consistent s) (offers : Offers s call t copy)
    (replaced : t.replace copy = .ok (t', fresh, old)) : old.id = copy.id :=
  ((offersConsistent h offers).ids _ _ (replaceOk.mp replaced).1).1

/-- What a replacement does to a row. -/
structure Supersedes (copy old fresh : Row) : Prop where
  id : fresh.id = old.id
  values : fresh.values = copy.values
  newer : old.version < fresh.version
  counted : old.version + 1 < UInt64.size → copy.version < UInt64.size → ∀ v,
    CountsPast (.ofNat old.version) (.ofNat copy.version) v ↔ v = .ofNat fresh.version

theorem supersedes (same : copy.id = old.id) : Supersedes copy old (supersede old copy) where
  id := same
  values := rfl
  newer := by
    simp only [supersede]
    omega
  counted room fits v := by
    have floor : (UInt64.ofNat old.version).toNat = old.version := UInt64.toNat_ofNat_of_lt' (by omega)
    have start : (UInt64.ofNat copy.version).toNat = copy.version := UInt64.toNat_ofNat_of_lt' fits
    have reached : (UInt64.ofNat (supersede old copy).version).toNat = max copy.version (old.version + 1) := by
      refine UInt64.toNat_ofNat_of_lt' ?_
      simp only [supersede]
      omega
    rw [countsPastIff (by rwa [floor]), ← UInt64.toNat_inj, reached, start, floor]

theorem replacesOk (h : Consistent s) (replaces : Replaces s call copy old fresh) : Supersedes copy old fresh := by
  obtain ⟨t, t', offers, replaced⟩ := replaces
  have own := replacesOwn h offers replaced
  obtain ⟨_, _, _, rfl, _⟩ := replaceOk.mp replaced
  exact supersedes own.symm

/-! Rows that are left alone -/

theorem updateAllDivide {done rest : List Row} {keys : List Key}
    (ok : s.updateAll (done ++ copy :: rest) = (t, .ok keys)) :
    ∃ t' t'' keys key, s.updateAll done = (t', .ok keys) ∧ t'.updateRow copy = .ok (t'', key) := by
  induction done generalizing s keys with
  | nil =>
      cases first : s.updateRow copy with
      | error e =>
          rw [List.nil_append, updateAllFailed first] at ok
          cases ok
      | ok result => exact ⟨s, result.1, [], result.2, rfl, first⟩
  | cons r done ih =>
      cases first : s.updateRow r with
      | error e =>
          rw [List.cons_append, updateAllFailed first] at ok
          cases ok
      | ok result =>
          obtain ⟨next, key⟩ := result
          rw [List.cons_append, updateAllNext first, Prod.mk.injEq, Outcome.mapOk] at ok
          obtain ⟨final, keys', rest', rfl⟩ := ok
          obtain ⟨t', t'', keys, key', reached, replaced⟩ := ih (Prod.ext final rest')
          refine ⟨t', t'', key :: keys, key', ?_, replaced⟩
          rw [updateAllNext first, reached]
          rfl

theorem updateAllDone {rows : List Row} (run : (s.updateAll rows).1 = t) :
    ∃ done rest keys, rows = done ++ rest ∧ s.updateAll done = (t, .ok keys) := by
  cases finished : (s.updateAll rows).2 with
  | ok keys => exact ⟨rows, [], keys, by simp, Prod.ext run finished⟩
  | error e =>
      obtain ⟨done, stop, rest, keys, split, reached, _⟩ := updateAllError (Prod.ext run finished)
      exact ⟨done, stop :: rest, keys, split, reached⟩

theorem updateAllChanges {rows : List Row} (h : Consistent s) (stored : s.row? id = some r)
    (stored' : (s.updateAll rows).1.row? id = some r') :
    r' = r ∨ ∃ copy old fresh, Replaces s (.updateAll rows) copy old fresh ∧ old.id = id := by
  obtain ⟨done, rest, keys, rfl, reached⟩ := @updateAllDone s _ rows rfl
  obtain ⟨_, _, each⟩ := updateAllOk h reached
  by_cases met : ∃ copy ∈ done, copy.id = id
  · obtain ⟨copy, member, same⟩ := met
    obtain ⟨first, second, rfl⟩ := List.append_of_mem member
    obtain ⟨t, t', _, _, reached, updated⟩ := updateAllDivide reached
    obtain ⟨width, fresh, old, replaced, _⟩ := updateRowReplaced updated
    have offers : Offers s (.updateAll (first ++ copy :: second ++ rest)) t copy :=
      .updated (by rw [List.append_assoc, List.cons_append]) reached width
    exact .inr ⟨copy, old, fresh, ⟨t, t', offers, replaced⟩, (replacesOwn h offers replaced).trans same⟩
  · have none : done.filter (·.id == r.id) = [] := by
      rw [(h.ids id r stored).1]
      exact List.filter_eq_nil_iff.mpr fun copy member => by simpa using fun same => met ⟨copy, member, same⟩
    rw [each, stored, Option.map_some, superseded, none] at stored'
    exact .inl (Option.some.inj stored').symm

/-- A row of a batch of additions leaves the rows that are there as they are, but the one that its values replace. -/
theorem turnChanges (h : Consistent s) (turn : Turn s batch columns handler state positions p given)
    (row : Progress.addRow positions handler p given = .ok p') (stored : p.store.row? id = some r) :
    p'.store.row? id = some r ∨
      ∃ copy old fresh, Replaces s (.addAll batch columns handler state) copy old fresh ∧ old.id = id := by
  obtain ⟨width, counted, values, assigned, complete, kept⟩ := addRowOk.mp row
  obtain ⟨c, counts⟩ := assignAutoCounts assigned
  have same : counted.row? = p.store.row? := by
    rw [counts]
    rfl
  rcases storedOk.mp kept with ⟨_, rfl⟩ | ⟨ix, id', existing, decide, action, clash, there, rfl, decided, rest⟩
  · rw [Progress.added, rowInserted]
    split
    · rename_i next
      have absent : p.store.row? p.store.nextRowId = none := nextAbsent (turnConsistent h turn)
      rw [← next, counts] at stored
      cases absent.symm.trans stored
    · exact .inl (same ▸ stored)
  · rcases settledOk.mp rest with ⟨rfl, rfl⟩ | ⟨updated, t, fresh, old, rfl, replaced, rfl⟩
    · exact .inl (same ▸ stored)
    · have offers : Offers s (.addAll batch columns (some decide) state) counted (.new id' updated) :=
        .settled turn width assigned complete clash there decided
      dsimp only at replaced ⊢
      rw [rowReplaced replaced]
      split
      · rename_i here
        exact .inr ⟨_, old, fresh, ⟨counted, t, offers, replaced⟩, (replacesOwn h offers replaced).trans here⟩
      · exact .inl (same ▸ stored)

theorem removesFewer (h : Consistent s) (call : Call) (removes : call.Removes)
    (stored : (call.run s).row? id = some r) : s.row? id = some r := by
  cases call with
  | addAll | updateAll => cases removes
  | deleteAll keys =>
      rw [Call.run, deleteAllRow h] at stored
      split at stored
      · cases stored
      · exact stored
  | clear =>
      rw [Call.run, rowClear] at stored
      cases stored

/-- A row that a call leaves changed was replaced by it. -/
theorem runChanges (h : Consistent s) (stored : s.row? id = some r) (stored' : (call.run s).row? id = some r') :
    r' = r ∨ ∃ copy old fresh, Replaces s call copy old fresh ∧ old.id = id := by
  cases call with
  | addAll rows columns handler state =>
      refine or_iff_not_imp_right.mpr fun none => ?_
      have kept : (s.addAll rows columns handler state).store.row? id = some r :=
        addAllKept (I := (·.row? id = some r)) h stored fun positions p given p' turn row stored =>
          (turnChanges h turn row stored).resolve_right none
      exact Option.some.inj (stored'.symm.trans kept)
  | updateAll rows => exact updateAllChanges h stored stored'
  | deleteAll keys =>
      exact .inl (Option.some.inj ((removesFewer h (.deleteAll keys) trivial stored').symm.trans stored))
  | clear => exact .inl (Option.some.inj ((removesFewer h .clear trivial stored').symm.trans stored))

theorem runSpares (h : Consistent s) (spares : call.Removes ∨ ¬call.Succeeds s)
    (other : ∀ copies, call ≠ .updateAll copies) (stored : s.row? id = some r)
    (stored' : (call.run s).row? id = some r') : r' = r := by
  rcases spares with removes | fails
  · exact Option.some.inj ((removesFewer h call removes stored').symm.trans stored)
  · cases call with
    | addAll rows columns handler state =>
        cases finished : (s.addAll rows columns handler state).keys with
        | ok keys => exact absurd ⟨keys, finished⟩ fails
        | error e =>
            rw [Call.run, addAllError h finished] at stored'
            exact Option.some.inj (stored'.symm.trans stored)
    | updateAll rows => exact absurd rfl (other rows)
    | deleteAll | clear => exact absurd trivial fails

/-! Versions -/

/-- Whether a row that is there under some identifier is the given one, or a later version of what it was. -/
def Newer (r : Row) (t : TableStore) (id : Nat) : Prop :=
  ∃ r', t.row? id = some r' ∧ (r' = r ∨ r.version < r'.version)

theorem newerReplaced (newer : Newer r t id) (replaced : t.replace copy = .ok (t', fresh, old)) : Newer r t' id := by
  obtain ⟨r', stored', late⟩ := newer
  rw [Newer, rowReplaced replaced]
  split
  · rename_i here
    obtain ⟨stored, _, _, rfl, _⟩ := replaceOk.mp replaced
    rw [here] at stored
    cases stored.symm.trans stored'
    refine ⟨_, rfl, .inr ?_⟩
    simp only [supersede]
    rcases late with rfl | late <;> omega
  · exact ⟨r', stored', late⟩

theorem newerRow (h : Consistent p.store) (newer : Newer r p.store id)
    (row : Progress.addRow positions handler p given = .ok p') : Newer r p'.store id := by
  obtain ⟨counted, values, assigned, _, kept⟩ := addRowDone row
  obtain ⟨c, rfl⟩ := assignAutoCounts assigned
  rcases kept with ⟨_, rfl⟩ | ⟨same, _⟩ | ⟨_, _, _, replaced, _⟩
  · obtain ⟨r', stored', late⟩ := newer
    refine ⟨r', ?_, late⟩
    rw [Progress.added, rowInserted, if_neg]
    · exact stored'
    · exact fun next => Nat.ne_of_gt (h.ids _ _ stored').2 next
  · rw [same]
    exact newer
  · have counted : Newer r { p.store with nextAuto := c } id := newer
    exact newerReplaced counted replaced

theorem runNewer (h : Consistent s) (stored : s.row? id = some r) (call : Call) :
    (call.run s).row? id = none ∨ Newer r (call.run s) id := by
  have start : Newer r s id := ⟨r, stored, .inl rfl⟩
  cases call with
  | addAll rows columns handler state =>
      exact .inr (addAllKept (I := (Newer r · id)) h start fun _ _ _ _ turn row newer =>
        newerRow (turnConsistent h turn) newer row)
  | updateAll rows =>
      refine .inr (updateAllKept (I := (Newer r · id)) start fun t t' copy key updated newer => ?_)
      obtain ⟨_, fresh, old, replaced, _⟩ := updateRowReplaced updated
      exact newerReplaced newer replaced
  | deleteAll keys =>
      rw [Call.run, deleteAllRow h, Newer, deleteAllRow h]
      split
      · exact .inl rfl
      · exact .inr start
  | clear => exact .inl (rowClear s id)

/-- A row is the same, or a later version, for as long as its identifier is in use. -/
theorem afterNewer (h : Reachable schema s) (stored : s.row? id = some r) (calls : List Call) :
    (s.after calls).row? id = none ∨ Newer r (s.after calls) id := by
  induction calls generalizing s r with
  | nil => exact .inr ⟨r, stored, .inl rfl⟩
  | cons call calls ih =>
      have consistent := reachableConsistent h
      rcases runNewer consistent stored call with gone | ⟨r', stored', late⟩
      · have out := Nat.lt_of_lt_of_le (consistent.ids _ _ stored).2 (runCounts consistent call)
        exact .inl (afterAbsent (reachableRun h call) out gone calls)
      · refine (ih (reachableRun h call) stored').imp_right ?_
        rintro ⟨r'', there, later⟩
        refine ⟨r'', there, ?_⟩
        rcases late with rfl | late
        · exact later
        · rcases later with rfl | later
          · exact .inr late
          · exact .inr (Nat.lt_trans late later)

/-! What a call does to identifiers and versions -/

structure KeepsIdentity (s : TableStore) (call : Call) : Prop where
  rising : ∀ n m id id', Gives s call n id → Gives s call m id' → n < m → id < id'
  spent : ∀ n id, call.Succeeds s → Gives s call n id → ∀ between later m id',
    Gives ((call.run s).after between) later m id' → id < id'
  given : ∀ id, s.row? id = none → (call.run s).row? id ≠ none → call.Succeeds s ∧ ∃ n, Gives s call n id
  superseded : ∀ copy old fresh, Replaces s call copy old fresh → Supersedes copy old fresh
  changed : ∀ id r r', s.row? id = some r → (call.run s).row? id = some r' →
    r' = r ∨ ∃ copy old fresh, Replaces s call copy old fresh ∧ old.id = id
  spared : call.Removes ∨ ¬call.Succeeds s → (∀ copies, call ≠ .updateAll copies) →
    ∀ id r r', s.row? id = some r → (call.run s).row? id = some r' → r' = r

theorem keepsIdentity (h : Reachable schema s) (call : Call) : KeepsIdentity s call where
  rising _ _ _ _ := givesRise
  spent n id succeeds gives between later m id' gives' := by
    have counts := afterCounts (reachableRun h call) between
    exact Nat.lt_of_lt_of_le ((givesNext gives).2 succeeds) (Nat.le_trans counts (givesNext gives').1)
  given _ := givesNew (reachableConsistent h)
  superseded _ _ _ := replacesOk (reachableConsistent h)
  changed _ _ _ := runChanges (reachableConsistent h)
  spared spares other _ _ _ := runSpares (reachableConsistent h) spares other

/-- Whatever calls a table has been through, a scan lists its rows by rising identifiers, each below the next one.
In all further calls an identifier that is out of use stays so, and a row that is not the same has a later version. -/
theorem callsKeepIdentity (schema : TableSchema) (before : List Call) :
    let s := (new schema).after before
    s.rows.Pairwise (·.id < ·.id) ∧ (∀ r ∈ s.rows, r.id < s.nextRowId) ∧
      (∀ id r, s.row? id = some r ↔ r ∈ s.rows ∧ r.id = id) ∧
      (∀ id < s.nextRowId, s.row? id = none → ∀ calls, (s.after calls).row? id = none) ∧
      (∀ id r, s.row? id = some r → ∀ calls, (s.after calls).row? id = none ∨ Newer r (s.after calls) id) ∧
      ∀ call, KeepsIdentity s call := by
  intro s
  have reached : Reachable schema s := reachableAfter .new before
  have consistent := reachableConsistent reached
  refine ⟨rowsRise consistent, fun r stored => (consistent.ids _ _ ((memRows consistent).mp stored)).2,
    fun id r => ⟨fun stored => ?_, ?_⟩, fun id out absent => afterAbsent reached out absent,
    fun id r stored => afterNewer reached stored, keepsIdentity reached⟩
  · have own := (consistent.ids id r stored).1
    exact ⟨(memRows consistent).mpr (own ▸ stored), own⟩
  · rintro ⟨listed, rfl⟩
    exact (memRows consistent).mp listed

/-- Two seats, a batch that fails at its second row, and then one seat given up and the other one changed. -/
def seatCalls : List Call :=
  [.addAll [[.int 1, .int 10], [.int 2, .null]] ["id", "seat"] none (),
    .addAll [[.int 3, .int 30], [.int 1, .int 40]] ["id", "seat"] none (),
    .deleteAll [[.int 1]], .updateAll [⟨1, 7, [.int 2, .int 20]⟩]]

theorem callsKeepIdentitySeats :
    let s := (new seats).after seatCalls
    let old : Row := ⟨1, 7, [.int 2, .int 20]⟩
    let copy : Row := ⟨1, 3, [.int 2, .int 21]⟩
    s.rows = [old] ∧ (∀ calls, (s.after calls).row? 0 = none) ∧
      ∃ fresh, Replaces s (.updateAll [copy]) copy old fresh ∧ fresh = ⟨1, 8, [.int 2, .int 21]⟩ ∧
        Supersedes copy old fresh ∧ CountsPast 7 3 8 := by
  intro s old copy
  obtain ⟨_, _, _, out, _, keeps⟩ := callsKeepIdentity seats seatCalls
  have replaced : s.replace copy = .ok (_, supersede old copy, old) :=
    replaceOk.mpr ⟨by decide +kernel, by decide +kernel, by decide +kernel, rfl, rfl⟩
  have replaces : Replaces s (.updateAll [copy]) copy old (supersede old copy) :=
    ⟨s, _, .updated (show [copy] = [] ++ copy :: [] from rfl) rfl (by decide +kernel), replaced⟩
  have supersedes := (keeps (.updateAll [copy])).superseded _ _ _ replaces
  exact ⟨by decide +kernel, out 0 (by decide +kernel) (by decide +kernel), _, replaces, rfl, supersedes,
    (supersedes.counted (by decide) (by decide) 8).mpr rfl⟩

end RelQuery.TableStore
