import RelQuery.Proofs.Mutation.Update
import Mathlib.Data.List.Pairwise

/-! An UPDATE whose assigned sources are tables of their own. Every row that such a source has in some
composition is written once, with the values that the last of these compositions gives it; the keys
are reported in the order in which the rows were first met; and nothing else changes. -/
namespace RelQuery.Update
open JoinRun (startDistinct startOpens sourceTable collectPasses getCollectKeys collectKeys
  collectKeysDistinct openedBacking)
open Storage (Replaced)
open Cursor (stagedFilter stagedIds)
open TableStore (superseded supersededId supersededValues keyOfWrites memRows)

variable {u e : Update} {ctx : Context} {params : List Value} {r : JoinRun} {places : List Place}
  {cs : List Composition} {s s' : OpenSource} {affected : Affected} {name : TableName}
  {t t' : TableStore} {old new : Row}

def sources (u : Update) : List Source := u.target :: u.joins.map (·.source)

/-- The assigned sources are pairwise different tables. -/
structure TablesApart (u : Update) (ctx : Context) : Prop where
  backed : ∀ x ∈ u.sources, u.assigned x.name = true → (x.backing ctx).isSome = true
  apart : u.sources.Pairwise fun x y =>
    u.assigned x.name = true → u.assigned y.name = true → x.backing ctx ≠ y.backing ctx

structure Assigned (u : Update) (params : List Value) (s : OpenSource) (c : Composition)
    (old new : Row) : Prop where
  id : new.id = old.id
  version : new.version = old.version + 1
  width : old.values.length = s.columns.length
  values : u.Rewritten params s c old.values new.values

/-- A row that is in no composition stays; any other is as the last of its compositions leaves it. -/
def Follows (u : Update) (params : List Value) (cs : List Composition) (s : OpenSource)
    (old new : Row) : Prop :=
  (new = old ∧ ∀ c ∈ cs, c.row? s.name ≠ some old) ∨
    ∃ c, lastWith cs s.name old = some c ∧ u.Assigned params s c old new

def met (cs : List Composition) (name : String) : List Row := (cs.filterMap (·.row? name)).eraseDups

/-- A report lists keys for a name. A source without keys may be left out. -/
def Reports (affected : Affected) (name : String) (keys : List Key) : Prop :=
  affected.get? name = some (.ofKeys keys) ∨ keys = [] ∧ affected.get? name = none

/-! Sources -/

theorem pairwiseAlike {α β : Type} {R : α → β → Prop} {P : α → α → Prop} {Q : β → β → Prop}
    {xs : List α} {ys : List β} (alike : List.Forall₂ R xs ys) (pairs : xs.Pairwise P)
    (carries : ∀ x x' y y', R x y → R x' y' → P x x' → Q y y') : ys.Pairwise Q := by
  induction alike with
  | nil => exact .nil
  | cons one rest ih =>
      obtain ⟨first, others⟩ := List.pairwise_cons.mp pairs
      refine List.pairwise_cons.mpr ⟨fun y member => ?_, ih others⟩
      obtain ⟨x, inside, related⟩ := alikeMember rest member
      exact carries _ _ _ _ one related (first x inside)

theorem apartSources (apart : u.TablesApart ctx) (read : u.Read ctx params r places cs)
    (member : s ∈ r.sources) (targeted : u.assigned s.name = true) :
    ∃ name t, s.origin = .table name ∧ ctx.storage.get? name = some t ∧
      ∀ s' ∈ r.sources, s' ≠ s → ¬(s'.origin = .table name ∧ u.assigned s'.name = true) := by
  have opened := (startOpens read.started).2
  have names {x : Source} {s : OpenSource} (one : JoinRun.Opened (ctx.relation params) x s) :
      x.name = s.name := by
    obtain ⟨_, _, _, rfl⟩ := one
    rfl
  obtain ⟨x, inside, own⟩ := alikeMember opened member
  obtain ⟨name, backs⟩ := Option.isSome_iff_exists.mp (apart.backed x inside (names own ▸ targeted))
  have origin := (openedBacking own).mp backs
  obtain ⟨t, there, _⟩ := sourceTable read.started member origin
  have pairs : r.sources.Pairwise fun s s' => u.assigned s.name = true → u.assigned s'.name = true →
      ∀ name, s.origin = .table name → s'.origin ≠ .table name := by
    refine pairwiseAlike opened apart.apart
      fun x x' s s' one other differ left right name first second => ?_
    exact differ (names one ▸ left) (names other ▸ right)
      (((openedBacking one).mpr first).trans ((openedBacking other).mpr second).symm)
  refine ⟨name, t, origin, there, fun s' member' differ both => ?_⟩
  have : Std.Symm fun s s' : OpenSource => u.assigned s.name = true →
      u.assigned s'.name = true → ∀ name, s.origin = .table name → s'.origin ≠ .table name :=
    ⟨fun _ _ one left right name first second => one right left name second first⟩
  exact pairs.forall member' member differ both.2 targeted name both.1 origin

theorem flatMapOnly {α β : Type} {f : α → List β} {xs : List α} {x : α} (distinct : xs.Nodup)
    (member : x ∈ xs) (others : ∀ y ∈ xs, y ≠ x → f y = []) : xs.flatMap f = f x := by
  induction xs with
  | nil => cases member
  | cons first rest ih =>
      obtain ⟨fresh, distinct⟩ := List.nodup_cons.mp distinct
      rw [List.flatMap_cons]
      rcases List.mem_cons.mp member with rfl | inside
      · have none : rest.flatMap f = [] := List.flatMap_eq_nil_iff.mpr fun y there =>
          others y (List.mem_cons_of_mem _ there) fun same => fresh (same ▸ there)
        rw [none, List.append_nil]
      · rw [others first List.mem_cons_self fun same => fresh (same ▸ inside), List.nil_append]
        exact ih distinct inside fun y there => others y (List.mem_cons_of_mem _ there)

section
variable (read : u.Read ctx params r places cs) (member : s ∈ r.sources)
  (origin : s.origin = .table name)
  (alone : ∀ s' ∈ r.sources, s' ≠ s → ¬(s'.origin = .table name ∧ u.assigned s'.name = true))
include read member origin alone

theorem writersOnly (targeted : u.assigned s.name = true) (old : Row) :
    u.writers r.sources cs name old = ((lastWith cs s.name old).map (s, ·)).toList := by
  rw [writers, flatMapOnly (startDistinct read.started).of_map member
    fun s' inside differ => if_neg (alone s' inside differ), if_pos ⟨origin, targeted⟩]

theorem rowsToOnly : rowsTo name (pending (r.sources.map (u.holding params places cs))) =
    u.stagedBy params places cs s := by
  rw [rowsToPending, List.flatMap_map, flatMapOnly (startDistinct read.started).of_map member]
  · exact if_pos origin
  · intro s' inside differ
    by_cases same : s'.origin = .table name
    · refine (if_pos same).trans (stagedUnassigned read inside (Bool.eq_false_iff.mpr fun both => ?_))
      exact alone s' inside differ ⟨same, both⟩
    · exact if_neg same

end

/-! Keys -/

theorem eraseDupsMap {α β : Type} [DecidableEq α] [DecidableEq β] {f : α → β} {xs : List α}
    (once : ∀ x ∈ xs, ∀ y ∈ xs, f x = f y → x = y) : (xs.map f).eraseDups = xs.eraseDups.map f := by
  induction xs using List.reverseRecOn with
  | nil => rfl
  | append_singleton xs x ih =>
      have again : f x ∈ xs.map f ↔ x ∈ xs := by
        refine ⟨fun there => ?_, List.mem_map_of_mem⟩
        obtain ⟨y, inside, same⟩ := List.mem_map.mp there
        exact once y (by simp [inside]) x (by simp) same ▸ inside
      have before : (xs.map f).eraseDups = xs.eraseDups.map f :=
        ih fun y inside z inside' => once y (by simp [inside]) z (by simp [inside'])
      rw [List.map_append, List.map_singleton, Grouping.eraseDupsConcat, Grouping.eraseDupsConcat, before]
      by_cases there : x ∈ xs
      · rw [if_pos there, if_pos (again.mpr there)]
      · rw [if_neg there, if_neg (mt again.mp there), List.map_append, List.map_singleton]

section
variable (read : u.Read ctx params r places cs) (consistent : t.Consistent)
  (there : ctx.storage.get? name = some t) (member : s ∈ r.sources) (origin : s.origin = .table name)
  (targeted : u.assigned s.name = true)
include read member targeted

theorem copyMade {c : Composition} (inside : c ∈ cs) (has : c.row? s.name = some old) :
    ∃ copy, copy? u.set places params s.name c = some copy ∧ u.Copied params s c old copy := by
  obtain ⟨rows, changes⟩ := read.changes c inside
  exact copyAssigned (startDistinct read.started) member read.located targeted has changes

include consistent there origin

theorem stagedMet : (u.stagedBy params places cs s).map (·.id) = (met cs s.name).map (·.id) := by
  have ids : (cs.filterMap (copy? u.set places params s.name)).map (·.id) =
      (cs.filterMap (·.row? s.name)).map (·.id) := by
    rw [List.map_filterMap, List.map_filterMap]
    refine List.filterMap_congr fun c inside => ?_
    cases has : c.row? s.name with
    | none => rw [copyNone has]
    | some row =>
        obtain ⟨copy, made, copied⟩ := copyMade read member targeted inside has
        rw [made, Option.map_some, Option.map_some, copied.id]
  have stored : ∀ row ∈ cs.filterMap (·.row? s.name), row ∈ t.rows := by
    intro row listed
    obtain ⟨c, inside, has⟩ := List.mem_filterMap.mp listed
    exact readStored read there member origin inside has
  rw [stagedBy, stagedIds, ids, met]
  exact eraseDupsMap fun row listed row' listed' same =>
    TableStore.rowsOnce consistent (stored row listed) (stored row' listed') same

theorem stagedKey (same : t'.keyOf = t.keyOf)
    (each : ∀ id, t'.row? id = (t.row? id).map (superseded (u.stagedBy params places cs s)))
    {x : Row} (inside : x ∈ u.stagedBy params places cs s) :
    (t'.row? x.id).map t'.keyOf = some (t.keyOf x) := by
  have own : x ∈ (u.stagedBy params places cs s).filter (·.id == x.id) :=
    List.mem_filter.mpr ⟨inside, by simp⟩
  -- One copy is staged for an identifier, so nothing but this one supersedes the row.
  have only : (u.stagedBy params places cs s).filter (·.id == x.id) = [x] := by
    rw [stagedBy, stagedFilter] at own ⊢
    rw [Option.mem_toList] at own
    rw [own]
    rfl
  obtain ⟨c, listed, made⟩ : ∃ c ∈ cs, copy? u.set places params s.name c = some x := by
    rw [stagedBy, stagedFilter, Option.mem_toList] at own
    exact List.mem_filterMap.mp (List.mem_reverse.mp (List.mem_of_find?_eq_some own))
  obtain ⟨row, has⟩ : ∃ row, c.row? s.name = some row := by
    refine Option.ne_none_iff_exists'.mp fun none => ?_
    rw [copyNone none] at made
    cases made
  obtain ⟨copy, made', copied⟩ := copyMade read member targeted listed has
  cases made.symm.trans made'
  have stored := (memRows consistent).mp (readStored read there member origin listed has)
  rw [each, copied.id, stored, Option.map_some, Option.map_some, same]
  refine congrArg some (TableStore.keyOfAlike t ?_ ?_)
  · exact (supersededId _ row).trans copied.id.symm
  · rw [supersededValues, ← copied.id, only]
    rfl

theorem keysMet (same : t'.keyOf = t.keyOf)
    (each : ∀ id, t'.row? id = (t.row? id).map (superseded (u.stagedBy params places cs s))) :
    ((u.stagedBy params places cs s).map t.keyOf).map some =
      (met cs s.name).map fun old => (t'.row? old.id).map t'.keyOf := by
  have keys : ((u.stagedBy params places cs s).map t.keyOf).map some =
      ((u.stagedBy params places cs s).map (·.id)).map fun id => (t'.row? id).map t'.keyOf := by
    rw [List.map_map, List.map_map]
    exact List.map_congr_left fun x inside =>
      (stagedKey read consistent there member origin targeted same each inside).symm
  rw [keys, stagedMet read consistent there member origin targeted, List.map_map]
  rfl

end

theorem reportGet {keys : SyncedKeys} (distinct : (keys.map (·.1)).Nodup) (target name : String) :
    Dictionary.get? (report target keys) name = ((keys.get? name).filter fun own =>
      !own.isEmpty || name == target).map .ofKeys := by
  rw [report, Dictionary.getMap, Dictionary.getFilter distinct]

theorem sourceKeys (sources : List OpenSource) (f : OpenSource → List Key) (name : String) :
    Dictionary.get? (sources.map fun s => (s.name, f s)) name =
      (sources.find? (·.name == name)).map f := by
  induction sources with
  | nil => rfl
  | cons s sources ih =>
      rw [List.map_cons, Dictionary.getCons, ih]
      by_cases here : name = s.name
      · simp [here]
      · simp [here, Ne.symm here]

theorem reportedKeys (distinct : (r.sources.map (·.name)).Nodup) (f : OpenSource → List Key)
    (target name : String) :
    Reports (report target (collectKeys [] (r.sources.map fun s => (s.name, f s)))) name
      (((r.source? name).map f).getD []) := by
  have names : ((r.sources.map fun s => (s.name, f s)).map (·.1)).Nodup := by
    rw [List.map_map]
    exact distinct
  have all : ((collectKeys [] (r.sources.map fun s => (s.name, f s))).map (·.1)).Nodup :=
    collectKeysDistinct (by rwa [List.map_nil, List.nil_append])
  rw [Reports, reportGet all, getCollectKeys names, sourceKeys, ← JoinRun.source?]
  cases r.source? name with
  | none => exact .inr ⟨rfl, rfl⟩
  | some s =>
      by_cases listed : (!(f s).isEmpty || name == target) = true
      · exact .inl (by simp [Option.filter_some, listed])
      · rw [Bool.not_eq_true, Bool.or_eq_false_iff, Bool.not_eq_false', List.isEmpty_iff] at listed
        exact .inr ⟨listed.1, by simp [Option.filter_some, listed]⟩

section
variable (consistent : ctx.storage.Consistent) (read : u.Read ctx params r places cs)
  {storage : Storage} (replaced : Replaced ctx.storage storage
    (pending (r.sources.map (u.holding params places cs))))
include read replaced

theorem tableElsewhere
    (plain : ∀ s ∈ r.sources, s.origin = .table name → u.assigned s.name = false) :
    storage.get? name = ctx.storage.get? name := by
  refine replaced.untouched name ?_
  rw [rowsToPending, List.flatMap_map]
  refine List.flatMap_eq_nil_iff.mpr fun s member => ?_
  by_cases origin : s.origin = .table name
  · exact (if_pos origin).trans (stagedUnassigned read member (plain s member origin))
  · exact if_neg origin

include consistent

theorem tableAssigned (apart : u.TablesApart ctx) (member : s ∈ r.sources)
    (targeted : u.assigned s.name = true) : ∃ name t t', s.origin = .table name ∧
      ctx.storage.get? name = some t ∧ storage.get? name = some t' ∧
      (∀ c ∈ cs, ∀ row, c.row? s.name = some row → row ∈ t.rows) ∧
      List.Forall₂ (u.Follows params cs s) t.rows t'.rows ∧
      ((u.stagedBy params places cs s).map (s.keyOf ctx.storage)).map some =
        (met cs s.name).map fun old => (t'.row? old.id).map t'.keyOf := by
  obtain ⟨name, t, origin, there, alone⟩ := apartSources apart read member targeted
  obtain ⟨t', there', writes, rows⟩ := rowsOverwritten read (consistent name t there) there replaced
  refine ⟨name, t, t', origin, there, there',
    fun c inside row has => readStored read there member origin inside has, ?_, ?_⟩
  · refine rows.imp fun old new written => ?_
    rw [writersOnly read member origin alone targeted] at written
    cases last : lastWith cs s.name old with
    | none =>
        rw [last] at written
        exact .inl ⟨written.kept rfl, lastWithNone.mp last⟩
    | some c =>
        rw [last] at written
        obtain ⟨width, values⟩ := written.values (s, c) rfl
        exact .inr ⟨c, last, written.id, written.version, width, values⟩
  · obtain ⟨_, there'', _, each⟩ := replaced.present name t there
    cases there'.symm.trans there''
    rw [rowsToOnly read member origin alone] at each
    have own : s.keyOf ctx.storage = t.keyOf := by
      funext row
      simp [OpenSource.keyOf, origin, there]
    rw [own]
    exact keysMet read (consistent name t there) there member origin targeted
      (keyOfWrites writes (consistent name t there)) each

end

def posting : Update :=
  { target := account "a"
    joins := [⟨.left, .table none "entries" (some "b"),
      some (.condition (.binary .eq (columnOf "b" "account") (columnOf "a" "id"))), false⟩]
    set := [⟨⟨some "a", "note"⟩, .literal (.int 7)⟩,
      ⟨⟨some "b", "id"⟩, .binary .add (columnOf "b" "id") (.literal (.int 100))⟩,
      ⟨⟨none, "note"⟩, columnOf "b" "id"⟩,
      ⟨⟨some "a", "balance"⟩, .binary .add (columnOf "a" "balance") (columnOf "b" "amount")⟩]
    condition := some (.binary .lt (columnOf "a" "balance") (.literal (.int 50))) }

def posted : Context := ledger [[1, 10, 0], [2, 20, 0], [3, 90, 0]] [[1, 1, 5], [2, 1, 6], [3, 3, 7]]

end RelQuery.Update
