import Mathlib.Data.List.Dedup
import RelQuery.Proofs.Mutation.Delete
import RelQuery.Proofs.Store.Deletion

/-! What a DELETE leaves behind and what it counts. A row that a target has is removed exactly if its key
finds it, so rows with a NULL in the primary key stay. The report of a name that is listed again is
that of its last place, where none of the rows that went at the first are left to be counted. -/
namespace RelQuery.Delete
open JoinRun (collectPasses drawnStored passesDrawn)
open TableStore (Consistent deleteAllCount deleteAllKeeps deleteAllRows deleteAllAppend findOwnIff
  findSame reachableConsistent rowsOnce writesConsistent deleteAllWrites)

variable {d : Delete} {ctx : Context} {params : List Value} {r : JoinRun} {cs : List Composition}
  {s : OpenSource} {ss part : List OpenSource} {affected done : Affected} {name : TableName}
  {storage storage' : Storage} {targets : List (OpenSource × List Key)} {first : Source}
  {t : TableStore} {row : Row}

/-- A composition among some has this row of a source. -/
def Matched (cs : List Composition) (s : OpenSource) (row : Row) : Prop :=
  ∃ c ∈ cs, c.row? s.name = some row

/-- A target of this table has the row in some composition. -/
def MatchedAny (cs : List Composition) (part : List OpenSource) (name : TableName) (row : Row) : Prop :=
  ∃ s ∈ part, s.origin = .table name ∧ Matched cs s row

/-! Which rows the keys find -/

section
variable (read : d.Read ctx params first r ss cs) (there : ctx.storage.get? name = some t)
include read there

theorem matchedStored (member : s ∈ ss) (origin : s.origin = .table name) (matched : Matched cs s row) :
    row ∈ t.rows ∧ s.keyOf ctx.storage row = t.keyOf row := by
  obtain ⟨c, among, has⟩ := matched
  exact drawnRow read there member origin among has

variable (whole : Consistent t) (small : t.nextRowId ≤ UInt64.size)
include whole small

theorem keysFind (member : s ∈ ss) (origin : s.origin = .table name) (own : row ∈ t.rows) :
    (∃ key ∈ keysOf ctx.storage cs s, t.findByKey key = some row.id) ↔
      t.Addressable row ∧ Matched cs s row := by
  rw [keysOf, Grouping.firstsKeys]
  constructor
  · rintro ⟨key, listed, finds⟩
    obtain ⟨c, among, found⟩ := List.mem_filterMap.mp ((Grouping.firstsSublist _ _).subset listed)
    obtain ⟨row', has, rfl⟩ := Option.map_eq_some_iff.mp found
    obtain ⟨own', key'⟩ := matchedStored read there member origin ⟨c, among, has⟩
    rw [key'] at finds
    obtain ⟨addressable, same⟩ := (findOwnIff whole small own').mp finds
    cases rowsOnce whole own own' same
    exact ⟨addressable, c, among, has⟩
  · rintro ⟨addressable, c, among, has⟩
    have listed : s.keyOf ctx.storage row ∈ cs.filterMap fun c => (c.row? s.name).map (s.keyOf ctx.storage) :=
      List.mem_filterMap.mpr ⟨c, among, by rw [has]; rfl⟩
    obtain ⟨key, kept, same⟩ := Grouping.firstsCover
      (fun key => (Key.sameIff key key).mpr (Key.orderSelf key)) listed
    refine ⟨key, kept, ?_⟩
    obtain ⟨c', among', found⟩ := List.mem_filterMap.mp ((Grouping.firstsSublist _ _).subset kept)
    obtain ⟨row', has', rfl⟩ := Option.map_eq_some_iff.mp found
    rw [(matchedStored read there member origin ⟨c, among, has⟩).2,
      (matchedStored read there member origin ⟨c', among', has'⟩).2, Key.sameIff] at same
    rw [(matchedStored read there member origin ⟨c', among', has'⟩).2, ← findSame same]
    exact (findOwnIff whole small own).mpr ⟨addressable, rfl⟩

theorem keysFromFind (inside : ∀ s ∈ part, s ∈ ss) (own : row ∈ t.rows) :
    (keysFrom name (part.map fun s => (s, keysOf ctx.storage cs s))).any
        (t.findByKey · == some row.id) = true ↔
      t.Addressable row ∧ MatchedAny cs part name row := by
  induction part with
  | nil => simp [keysFrom, MatchedAny]
  | cons s part ih =>
      have rest := ih fun s member => inside s (List.mem_cons_of_mem _ member)
      have here : s ∈ ss := inside s List.mem_cons_self
      rw [List.map_cons, keysFromCons]
      by_cases origin : s.origin = .table name
      · rw [if_pos origin, List.any_append, Bool.or_eq_true, rest]
        have find := keysFind read there whole small here origin own
        simp only [List.any_eq_true, beq_iff_eq, find, MatchedAny, List.mem_cons, exists_eq_or_imp,
          origin, true_and, ← and_or_left]
      · rw [if_neg origin, rest]
        simp only [MatchedAny, List.mem_cons, exists_eq_or_imp, origin, false_and, false_or]

theorem leftIff (inside : ∀ s ∈ part, s ∈ ss) (own : row ∈ t.rows) :
    row ∈ (t.deleteAll (keysFrom name
        (part.map fun s => (s, keysOf ctx.storage cs s)))).1.rows ↔
      ¬(t.Addressable row ∧ MatchedAny cs part name row) := by
  rw [deleteAllRows whole, List.mem_filter, ← keysFromFind read there whole small inside own]
  simp [own]

end

/-! What is counted -/

/-- What the distinct names of a table's targets report together. -/
def reported (affected : Affected) (name : TableName) (ss : List OpenSource) : Nat :=
  (((ss.filter (·.origin == .table name)).map (·.name)).dedup.map fun own =>
    ((affected.get? own).map (·.count)).getD 0).sum

/-- What the last places of a table's targets count, deleting one after another. -/
def countLast (name : TableName) (t : TableStore) : List (OpenSource × List Key) → Nat
  | [] => 0
  | (s, keys) :: rest =>
      if s.origin = .table name then
        (if s.name ∈ rest.map (·.1.name) then 0 else (t.deleteAll keys).2) +
          countLast name (t.deleteAll keys).1 rest
      else countLast name t rest

theorem reportedLast (ok : deleteAll storage done targets = (storage', .ok affected))
    (there : storage.get? name = some t)
    (once : ∀ a ∈ targets, ∀ b ∈ targets, a.1.name = b.1.name → a.1 = b.1) :
    reported affected name (targets.map (·.1)) = countLast name t targets := by
  induction targets generalizing storage done t with
  | nil => rfl
  | cons entry targets ih =>
      obtain ⟨s, keys⟩ := entry
      obtain ⟨own, t', origin, stored, ok⟩ := deleteAllNext ok
      have rest := fun a inside b inside' =>
        once a (List.mem_cons_of_mem _ inside) b (List.mem_cons_of_mem _ inside')
      by_cases here : s.origin = .table name
      · cases origin.symm.trans here
        cases stored.symm.trans there
        have left := ih (t := (t.deleteAll keys).1) ok
          (by rw [Dictionary.getInsert, if_pos (beq_self_eq_true _)]) rest
        -- A name that is listed again is a target of the same table there.
        have again : s.name ∈ ((targets.map (·.1)).filter (·.origin == .table name)).map (·.name) ↔
            s.name ∈ targets.map (·.1.name) := by
          simp only [List.mem_map, List.mem_filter, beq_iff_eq]
          constructor
          · rintro ⟨_, ⟨⟨entry, inside, rfl⟩, _⟩, named⟩
            exact ⟨entry, inside, named⟩
          · rintro ⟨entry, inside, named⟩
            have same := once entry (List.mem_cons_of_mem _ inside) _ List.mem_cons_self named
            exact ⟨entry.1, ⟨⟨entry, inside, rfl⟩, same ▸ here⟩, named⟩
        have picked : (s.origin == .table name) = true := beq_iff_eq.mpr here
        simp only [countLast, if_pos here, ← left, reported, List.map_cons, List.filter_cons,
          if_pos picked]
        by_cases later : s.name ∈ targets.map (·.1.name)
        · rw [if_pos later, List.dedup_cons_of_mem (again.mpr later), Nat.zero_add]
        · have last : affected.get? s.name = some ⟨(t.deleteAll keys).2, keys⟩ := by
            rcases (deleteAllOk ok).2 s.name with ⟨entry, inside, named, _⟩ | ⟨_, kept⟩
            · exact absurd (List.mem_map.mpr ⟨entry, inside, named⟩) later
            · rw [kept, Dictionary.getInsert, if_pos (beq_self_eq_true _)]
          rw [if_neg later, List.dedup_cons_of_notMem (mt again.mp later), List.map_cons,
            List.sum_cons, last]
          rfl
      · have other : name ≠ own := by
          rintro rfl
          exact here origin
        have left := ih ok (by rwa [Dictionary.getInsert, if_neg (by simpa using other)]) rest
        have skipped : ¬(s.origin == .table name) = true := mt beq_iff_eq.mp here
        simp only [countLast, if_neg here, ← left, reported, List.map_cons, List.filter_cons,
          if_neg skipped]

theorem countLastAll (whole : Consistent t) (targets : List (OpenSource × List Key)) :
    countLast name t targets + (t.deleteAll (keysFrom name targets)).1.rows.length ≤ t.rows.length ∧
      (countLast name t targets + (t.deleteAll (keysFrom name targets)).1.rows.length = t.rows.length ↔
        ∀ front s keys rest, targets = front ++ (s, keys) :: rest → s.origin = .table name →
          s.name ∈ rest.map (·.1.name) →
            ((t.deleteAll (keysFrom name front)).1.deleteAll keys).2 = 0) := by
  induction targets generalizing t with
  | nil => simp [countLast, keysFrom, TableStore.deleteAll]
  | cons entry targets ih =>
      obtain ⟨s, keys⟩ := entry
      rw [keysFromCons, countLast]
      by_cases here : s.origin = .table name
      · obtain ⟨bound, all⟩ := ih (writesConsistent (deleteAllWrites t keys) whole)
        have count := deleteAllCount t keys
        have splits : (∀ front s' keys' rest, (s, keys) :: targets = front ++ (s', keys') :: rest →
            s'.origin = .table name → s'.name ∈ rest.map (·.1.name) →
              ((t.deleteAll (keysFrom name front)).1.deleteAll keys').2 = 0) ↔
            (s.name ∈ targets.map (·.1.name) → (t.deleteAll keys).2 = 0) ∧
              ∀ front s' keys' rest, targets = front ++ (s', keys') :: rest →
                s'.origin = .table name → s'.name ∈ rest.map (·.1.name) →
                  (((t.deleteAll keys).1.deleteAll (keysFrom name front)).1.deleteAll keys').2 = 0 := by
          constructor
          · intro each
            refine ⟨each [] s keys targets rfl here, fun front s' keys' rest split backed again => ?_⟩
            have later := each ((s, keys) :: front) s' keys' rest (by rw [split]; rfl) backed again
            rwa [keysFromCons, if_pos here, deleteAllAppend] at later
          · rintro ⟨first, later⟩ front s' keys' rest split backed again
            cases front with
            | nil =>
                cases split
                exact first again
            | cons entry front =>
                cases split
                rw [keysFromCons, if_pos here, deleteAllAppend]
                exact later front s' keys' rest rfl backed again
        rw [splits, ← all, if_pos here, if_pos here, deleteAllAppend]
        split <;> rename_i again
        · simp only [again, true_imp_iff]
          omega
        · simp only [again, false_imp_iff, true_and]
          omega
      · obtain ⟨bound, all⟩ := ih whole
        rw [if_neg here, if_neg here]
        refine ⟨bound, all.trans ⟨fun each front s' keys' rest split backed again => ?_,
          fun each front s' keys' rest split backed again => ?_⟩⟩
        · cases front with
          | nil =>
              cases split
              exact absurd backed here
          | cons entry front =>
              cases split
              rw [keysFromCons, if_neg here]
              exact each front s' keys' rest rfl backed again
        · have later := each ((s, keys) :: front) s' keys' rest (by rw [split]; rfl) backed again
          rwa [keysFromCons, if_neg here] at later

section
variable (read : d.Read ctx params first r ss cs) (there : ctx.storage.get? name = some t)
  (whole : Consistent t) (small : t.nextRowId ≤ UInt64.size)
include read there whole small

theorem againNone {front rest : List OpenSource} (split : ss = front ++ s :: rest)
    (origin : s.origin = .table name) :
    ((t.deleteAll (keysFrom name (front.map fun s => (s, keysOf ctx.storage cs s)))).1.deleteAll
        (keysOf ctx.storage cs s)).2 = 0 ↔
      ∀ row, t.Addressable row → Matched cs s row → MatchedAny cs front name row := by
  have inside : ∀ s' ∈ front ++ [s], s' ∈ ss := by
    intro s' member
    rw [split, List.append_cons]
    exact List.mem_append_left _ member
  have both : keysFrom name (front.map fun s => (s, keysOf ctx.storage cs s)) ++
      keysOf ctx.storage cs s =
        keysFrom name ((front ++ [s]).map fun s => (s, keysOf ctx.storage cs s)) := by
    simp [keysFrom, origin]
  rw [deleteAllKeeps (writesConsistent (deleteAllWrites t _) whole), ← deleteAllAppend, both]
  have joined : ∀ row, MatchedAny cs (front ++ [s]) name row ↔
      MatchedAny cs front name row ∨ Matched cs s row := by
    simp [MatchedAny, origin, or_and_right, exists_or]
  have before : ∀ s' ∈ front, s' ∈ ss := fun s' member => inside s' (List.mem_append_left _ member)
  have stays := fun row (own : row ∈ t.rows) => leftIff read there whole small before own
  have stays' := fun row (own : row ∈ t.rows) => leftIff read there whole small inside own
  constructor
  · intro kept row addressable matched
    obtain ⟨own, _⟩ := matchedStored read there (inside s (by simp)) origin matched
    by_contra unmatched
    have left := kept row ((stays row own).mpr fun found => unmatched found.2)
    exact (stays' row own).mp left ⟨addressable, (joined row).mpr (.inr matched)⟩
  · intro covered row left
    have own : row ∈ t.rows := by
      rw [deleteAllRows whole] at left
      exact (List.mem_filter.mp left).1
    refine (stays' row own).mpr fun found => (stays row own).mp left ⟨found.1, ?_⟩
    exact ((joined row).mp found.2).elim id (covered row found.1)

theorem countedIff (removed : deleteAll ctx.storage done
      (ss.map fun s => (s, keysOf ctx.storage cs s)) = (storage, .ok affected)) :
    reported affected name ss + (t.deleteAll (keysFrom name
        (ss.map fun s => (s, keysOf ctx.storage cs s)))).1.rows.length = t.rows.length ↔
      ∀ front s rest, ss = front ++ s :: rest → s ∈ rest → s.origin = .table name →
        ∀ row, t.Addressable row → Matched cs s row → MatchedAny cs front name row := by
  have once : ∀ a ∈ ss.map fun s => (s, keysOf ctx.storage cs s),
      ∀ b ∈ ss.map fun s => (s, keysOf ctx.storage cs s), a.1.name = b.1.name → a.1 = b.1 := by
    intro a inside b inside' same
    obtain ⟨s, member, rfl⟩ := List.mem_map.mp inside
    obtain ⟨s', member', rfl⟩ := List.mem_map.mp inside'
    exact targetsOnce read member' member same
  have last := reportedLast removed there once
  simp only [List.map_map, Function.comp_def, List.map_id'] at last
  rw [last, (countLastAll whole _).2]
  constructor
  · intro each front s rest split again origin
    refine (againNone read there whole small split origin).mp
      (each _ s _ (rest.map fun s => (s, keysOf ctx.storage cs s)) (by rw [split, List.map_append,
        List.map_cons]) origin ?_)
    exact List.mem_map.mpr ⟨_, List.mem_map_of_mem again, rfl⟩
  · intro each front s keys rest split origin again
    obtain ⟨before, after, parted, rfl, mapped⟩ := List.map_eq_append_iff.mp split
    obtain ⟨s, after, rfl, same, rfl⟩ := List.map_eq_cons_iff.mp mapped
    cases same
    refine (againNone read there whole small parted origin).mpr (each before s after parted ?_ origin)
    obtain ⟨entry, inside, named⟩ := List.mem_map.mp again
    obtain ⟨s', member, rfl⟩ := List.mem_map.mp inside
    have here : s ∈ ss := by simp [parted]
    have here' : s' ∈ ss := by simp [parted, member]
    exact targetsOnce read here here' named ▸ member

end

/-- After a DELETE that succeeds, no row is left that a target has in some composition exactly if each
of these rows can be found by its key. The names report as many rows as are gone exactly if a name that
is listed again has no row to lose at its earlier places. -/
theorem runRemovesIff (reachable : ctx.storage.Reachable)
    (small : ∀ name t, ctx.storage.get? name = some t → t.nextRowId ≤ UInt64.size)
    (ok : (d.run ctx params).2 = .ok affected) :
    ∃ e first r ss cs, d.expand ctx.catalog ctx.database = .ok e ∧
      e.sources.head? = some first ∧ e.startJoin ctx params first = .ok r ∧
      (e.targetNames first).mapM (target r) = .ok ss ∧ r.collect.2 = .ok cs ∧
      (∀ c ∈ cs, r.Passes c) ∧
      ∀ name t, ctx.storage.get? name = some t → ∃ t', (d.run ctx params).1.get? name = some t' ∧
        ((∀ row, MatchedAny cs ss name row → row ∉ t'.rows) ↔
          ∀ row, MatchedAny cs ss name row → t.Addressable row) ∧
        (reported affected name ss + t'.rows.length = t.rows.length ↔
          ∀ front s rest, ss = front ++ s :: rest → s ∈ rest → s.origin = .table name →
            ∀ row, t.Addressable row → Matched cs s row → MatchedAny cs front name row) := by
  cases targets : d.collect ctx params with
  | error cause => simp [run, targets] at ok
  | ok targeted =>
      obtain ⟨e, first, r, ss, cs, expanded, read, rfl⟩ := collectOk targets
      simp only [run, targets] at ok ⊢
      generalize removed : deleteAll ctx.storage [] _ = after at ok
      obtain ⟨storage, o⟩ := after
      cases ok
      refine ⟨e, first, r, ss, cs, expanded, read.leads, read.started, read.targeted,
        read.collected, collectPasses read.collected, fun name t there => ?_⟩
      have whole := reachableConsistent (reachable name t there)
      refine ⟨_, by rw [(deleteAllOk removed).1, there]; rfl, ?_,
        countedIff read there whole (small name t there) removed⟩
      refine forall_congr' fun row => imp_congr_right fun matched => ?_
      obtain ⟨s, member, origin, has⟩ := id matched
      rw [leftIff read there whole (small name t there) (fun _ member => member)
        (matchedStored read there member origin has).1, not_not]
      exact and_iff_left matched

/-! Drafts, whose primary key may be NULL -/

def drafts : TableSchema :=
  { name := "drafts"
    columns := [.new "id" .int64, .new "note" .int64]
    primaryKey := ["id"]
    uniqueKeys := []
    autoIncrement := false
    engine := "memory" }

def drafted : Context :=
  { catalog := ⟨"main", [(inMain "drafts", drafts)]⟩
    storage := [(inMain "drafts", ((TableStore.new drafts).addAll
      [[.null, .int 1], [.int 2, .int 2]] drafts.columnNames none ()).store)]
    database := "main" }

theorem draftedReachable : drafted.storage.Reachable := by
  refine Storage.reachableOf fun entry member => ?_
  cases List.mem_singleton.mp member
  have filled : TableStore.Reachable drafts ((TableStore.new drafts).addAll
      [[.null, .int 1], [.int 2, .int 2]] drafts.columnNames none ()).store := .addAll .new _ _ none ()
  rwa [TableStore.reachableSchema filled]

/-- Lists its only target a second time. -/
def emptying : Delete :=
  { targets := ["a", "a"]
    sources := [.table none "drafts" (some "a")]
    joins := []
    usingClause := none
    condition := none }

theorem runRemovesIffEmptying :
    (emptying.run drafted []).2 = .ok [("a", ⟨0, [[.null], [.int 2]]⟩)] ∧
      ∃ e first r ss cs, emptying.expand drafted.catalog drafted.database = .ok e ∧
        e.startJoin drafted [] first = .ok r ∧ (e.targetNames first).mapM (target r) = .ok ss ∧
        r.collect.2 = .ok cs ∧ ∃ t t', drafted.storage.get? (inMain "drafts") = some t ∧
          (emptying.run drafted []).1.get? (inMain "drafts") = some t' ∧
          ((∀ row, MatchedAny cs ss (inMain "drafts") row → row ∉ t'.rows) ↔
            ∀ row, MatchedAny cs ss (inMain "drafts") row → t.Addressable row) ∧
          (reported [("a", ⟨0, [[.null], [.int 2]]⟩)] (inMain "drafts") ss + t'.rows.length =
              t.rows.length ↔
            ∀ front s rest, ss = front ++ s :: rest → s ∈ rest → s.origin = .table (inMain "drafts") →
              ∀ row, t.Addressable row → Matched cs s row →
                MatchedAny cs front (inMain "drafts") row) := by
  have ok : (emptying.run drafted []).2 = .ok [("a", ⟨0, [[.null], [.int 2]]⟩)] := by decide +kernel
  have small : ∀ entry ∈ drafted.storage, entry.2.nextRowId ≤ UInt64.size := by decide +kernel
  obtain ⟨e, first, r, ss, cs, expanded, _, started, targeted, collected, _, tables⟩ :=
    runRemovesIff draftedReachable (fun name t there => small _ (Dictionary.getMember there)) ok
  obtain ⟨t', there', left, counted⟩ := tables (inMain "drafts") _ rfl
  exact ⟨ok, e, first, r, ss, cs, expanded, started, targeted, collected, _, t', rfl, there', left,
    counted⟩

/-- The draft without a key stays although the target has it, and the one that is gone is not counted. -/
theorem emptyingKeeps : drafted.storage.Reachable ∧
    (emptying.run drafted []).2 = .ok [("a", ⟨0, [[.null], [.int 2]]⟩)] ∧
      (drafted.storage.get? (inMain "drafts")).map (·.rows) =
        some [⟨0, 1, [.null, .int 1]⟩, ⟨1, 1, [.int 2, .int 2]⟩] ∧
      ((emptying.run drafted []).1.get? (inMain "drafts")).map (·.rows) =
        some [⟨0, 1, [.null, .int 1]⟩] ∧
      ∃ first r ss cs, emptying.startJoin drafted [] first = .ok r ∧
        (emptying.targetNames first).mapM (target r) = .ok ss ∧ r.collect.2 = .ok cs ∧
          MatchedAny cs ss (inMain "drafts") ⟨0, 1, [.null, .int 1]⟩ ∧
            reported [("a", ⟨0, [[.null], [.int 2]]⟩)] (inMain "drafts") ss = 0 := by
  have read : (emptying.startJoin drafted [] (.table none "drafts" (some "a")) >>= fun r =>
      ["a", "a"].mapM (target r) >>= fun ss => r.collect.2.map fun cs =>
        (ss.map fun s => (s.name, s.origin), cs.map (·.row? "a"))) =
      .ok ([("a", .table (inMain "drafts")), ("a", .table (inMain "drafts"))],
        [some ⟨0, 1, [.null, .int 1]⟩, some ⟨1, 1, [.int 2, .int 2]⟩]) := by decide +kernel
  obtain ⟨r, started, read⟩ := Outcome.bindOk.mp read
  obtain ⟨ss, targeted, read⟩ := Outcome.bindOk.mp read
  obtain ⟨cs, collected, read⟩ := Outcome.mapOk.mp read
  rw [Prod.mk.injEq] at read
  obtain ⟨backed, rows⟩ := read
  obtain ⟨s, rest, rfl, same, backed⟩ := List.map_eq_cons_iff.mp backed
  obtain ⟨s', rest, rfl, same', backed⟩ := List.map_eq_cons_iff.mp backed
  cases List.map_eq_nil_iff.mp backed
  obtain ⟨named, origin⟩ := Prod.mk.injEq .. ▸ same
  obtain ⟨named', origin'⟩ := Prod.mk.injEq .. ▸ same'
  obtain ⟨c, others, rfl, has, _⟩ := List.map_eq_cons_iff.mp rows
  refine ⟨draftedReachable, by decide +kernel, by decide +kernel, by decide +kernel, _, r, _, _, started,
    targeted, collected, ⟨s, List.mem_cons_self, origin, c, List.mem_cons_self, named ▸ has⟩, ?_⟩
  simp only [reported, List.filter_cons, origin, origin', beq_self_eq_true, if_true, List.filter_nil,
    List.map_cons, List.map_nil, named, named']
  decide +kernel

end RelQuery.Delete
