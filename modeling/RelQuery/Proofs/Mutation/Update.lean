import RelQuery.Proofs.Mutation.Assigned
import RelQuery.Proofs.Mutation.Sources
import RelQuery.Proofs.Mutation.Written

/-! What an UPDATE leaves of the rows. The copies of a row that its sources stage are written in source
order, so the last source that has the row in some composition decides all of its values. -/
namespace RelQuery.Update
open JoinRun (startDistinct startFresh startSettled sourceTable drawnStored settledFold foldReads
  collectPasses passesDrawn stageAllSettled writeEachStill writeEachOk writeEachError syncWrites
  collectKeys)
open Storage (Replaced Refused)
open Cursor (stagedFilter)
open TableStore (Writes superseded supersededId supersededVersion supersededValues rowsMap rowsOnce)

variable {u e : Update} {ctx : Context} {params : List Value} {r staged : JoinRun} {places : List Place}
  {cs : List Composition} {s : OpenSource} {affected : Affected} {name : TableName}

/-- What an UPDATE without arrow references reads before it writes. -/
structure Read (u : Update) (ctx : Context) (params : List Value) (r : JoinRun) (places : List Place)
    (cs : List Composition) : Prop where
  started : JoinRun.start (ctx.relation params) u.target u.joins u.condition params = .ok r
  located : u.set.mapM (place u.target.name r) = .ok places
  collected : r.collect.2 = .ok cs
  changes : ∀ c ∈ cs, ∃ rows, changed u.set places params c = .ok rows

def gather (set : List Assignment) (places : List Place) (params : List Value)
    (rows : Array (String × Row)) (c : Composition) : Outcome (Array (String × Row)) := do
  return rows ++ (← changed set places params c)

theorem gathered {set : List Assignment} {seen rows : Array (String × Row)}
    (ok : cs.foldlM (gather set places params) seen = .ok rows) :
    (∀ c ∈ cs, ∃ own, changed set places params c = .ok own) ∧ ∀ name,
      rowsFor name rows.toList =
        rowsFor name seen.toList ++ cs.filterMap (copy? set places params name) := by
  induction cs generalizing seen with
  | nil =>
      cases Outcome.pureOk.mp ok
      exact ⟨by simp, by simp⟩
  | cons c cs ih =>
      obtain ⟨next, one, ok⟩ := Outcome.bindOk.mp ok
      obtain ⟨own, changes, last⟩ := Outcome.bindOk.mp one
      cases Outcome.pureOk.mp last
      obtain ⟨others, rest⟩ := ih ok
      refine ⟨?_, fun name => ?_⟩
      · intro c' member
        rcases List.mem_cons.mp member with rfl | inside
        · exact ⟨own, changes⟩
        · exact others c' inside
      · rw [rest, Array.toList_appendList, rowsForAppend, copyRows changes, List.append_assoc]
        cases made : copy? set places params name c with
        | none => rw [List.filterMap_cons_none made]; rfl
        | some copy => rw [List.filterMap_cons_some made]; rfl

def stagedBy (u : Update) (params : List Value) (places : List Place) (cs : List Composition)
    (s : OpenSource) : List Row :=
  Cursor.stageRows [] (cs.filterMap (copy? u.set places params s.name))

def holding (u : Update) (params : List Value) (places : List Place) (cs : List Composition)
    (s : OpenSource) : OpenSource :=
  { s with cursor := { s.cursor with staged := u.stagedBy params places cs s } }

theorem stageAllOk (ok : u.stageAll ctx params = .ok staged) : ∃ e r places cs,
    u.expand ctx.catalog ctx.database = .ok e ∧ e.Read ctx params r places cs ∧
      staged.settled = r.sources.map (e.holding params places cs) := by
  obtain ⟨e, expanded, ok⟩ := Outcome.bindOk.mp ok
  obtain ⟨r, started, ok⟩ := Outcome.bindOk.mp ok
  obtain ⟨places, located, ok⟩ := Outcome.bindOk.mp ok
  obtain ⟨rows, folded, ok⟩ := Outcome.bindOk.mp ok
  obtain ⟨cs, collected, read, _⟩ := foldReads folded
  obtain ⟨changes, all⟩ := gathered read
  refine ⟨e, r, places, cs, expanded, ⟨started, located, collected, changes⟩, ?_⟩
  have same := (settledFold (gather e.set places params) #[] r).trans (startSettled started)
  have distinct := startDistinct started
  rw [← same] at distinct
  rw [stageAllSettled distinct ok, same]
  refine List.map_congr_left fun s member => ?_
  rw [OpenSource.stageRows, (startFresh started member).2, all]
  rfl

theorem runOk (consistent : ctx.storage.Consistent) (ok : (u.run ctx params).2 = .ok affected) :
    ∃ e r places cs, u.expand ctx.catalog ctx.database = .ok e ∧ e.Read ctx params r places cs ∧
      Replaced ctx.storage (u.run ctx params).1 (pending (r.sources.map (e.holding params places cs))) ∧
        affected = report u.target.name (collectKeys [] (r.sources.map fun s =>
          (s.name, (e.stagedBy params places cs s).map (s.keyOf ctx.storage)))) := by
  cases all : u.stageAll ctx params with
  | error e => simp [run, all] at ok
  | ok staged =>
      obtain ⟨e, r, places, cs, expanded, read, settled⟩ := stageAllOk all
      obtain ⟨left, keys⟩ := syncWrites ctx.storage staged
      rw [← writeEachStill, ← JoinRun.settled, settled] at left keys
      simp only [run, all] at ok ⊢
      rw [keys, Outcome.mapOk] at ok
      obtain ⟨_, collected, rfl⟩ := ok
      obtain ⟨entries, written, rfl⟩ := Outcome.mapOk.mp collected
      obtain ⟨replaced, own⟩ := writeEachOk consistent (Prod.ext left.symm written)
      refine ⟨e, r, places, cs, expanded, read, replaced, ?_⟩
      rw [own, List.map_map]
      rfl

/-- An UPDATE that fails has written the rows before the one that was refused, if it came to write. -/
theorem runError {cause : Error} (consistent : ctx.storage.Consistent)
    (failed : (u.run ctx params).2 = .error cause) :
    u.stageAll ctx params = .error cause ∧ (u.run ctx params).1 = ctx.storage ∨
      ∃ staged done s row rest, u.stageAll ctx params = .ok staged ∧
        pending staged.sources = done ++ (s, row) :: rest ∧
          Replaced ctx.storage (u.run ctx params).1 done ∧
            Refused (u.run ctx params).1 s row cause := by
  cases all : u.stageAll ctx params with
  | error e =>
      simp only [run, all] at failed ⊢
      cases failed
      exact .inl ⟨rfl, trivial⟩
  | ok staged =>
      obtain ⟨left, keys⟩ := syncWrites ctx.storage staged
      simp only [run, all] at failed ⊢
      rw [keys, Outcome.mapError, Outcome.mapError] at failed
      obtain ⟨done, s, row, rest, pending, replaced, refused⟩ :=
        writeEachError consistent (Prod.ext left.symm failed)
      exact .inr ⟨staged, done, s, row, rest, rfl, pending, replaced, refused⟩

/-! The rows of a table -/

def lastWith (cs : List Composition) (name : String) (old : Row) : Option Composition :=
  cs.reverse.find? fun c => c.row? name == some old

/-- The sources through which a row of a table is written, each with the composition that counts. -/
def writers (u : Update) (sources : List OpenSource) (cs : List Composition) (name : TableName)
    (old : Row) : List (OpenSource × Composition) :=
  sources.flatMap fun s =>
    if s.origin = .table name ∧ u.assigned s.name = true then
      ((lastWith cs s.name old).map (s, ·)).toList
    else []

/-- A row as its writers leave it: each counts one version, and the last one decides the values. -/
structure Overwritten (u : Update) (params : List Value) (ws : List (OpenSource × Composition))
    (old new : Row) : Prop where
  id : new.id = old.id
  version : new.version = old.version + ws.length
  kept : ws = [] → new = old
  values : ∀ w, ws.getLast? = some w → old.values.length = w.1.columns.length ∧
    u.Rewritten params w.1 w.2 old.values new.values

section
variable {t t' : TableStore} {old : Row}

theorem lastWithNone {name : String} :
    lastWith cs name old = none ↔ ∀ c ∈ cs, c.row? name ≠ some old := by
  simp [lastWith]

theorem writerSource {sources : List OpenSource} {w : OpenSource × Composition}
    (member : w ∈ u.writers sources cs name old) : w.1 ∈ sources ∧ w.1.origin = .table name ∧
      u.assigned w.1.name = true ∧ lastWith cs w.1.name old = some w.2 := by
  obtain ⟨s, inside, there⟩ := List.mem_flatMap.mp member
  split at there
  · rename_i own
    rw [Option.mem_toList, Option.map_eq_some_iff] at there
    obtain ⟨c, last, rfl⟩ := there
    exact ⟨inside, own.1, own.2, last⟩
  · cases there

theorem flatMapAlike {α β γ : Type} {R : β → γ → Prop} {f : α → List β} {g : α → List γ} {xs : List α}
    (alike : ∀ x ∈ xs, List.Forall₂ R (f x) (g x)) :
    List.Forall₂ R (xs.flatMap f) (xs.flatMap g) := by
  induction xs with
  | nil => exact .nil
  | cons x xs ih =>
      rw [List.flatMap_cons, List.flatMap_cons]
      exact List.rel_append (alike x List.mem_cons_self)
        (ih fun x' inside => alike x' (List.mem_cons_of_mem _ inside))

theorem lastAlike {α β : Type} {R : α → β → Prop} {xs : List α} {ys : List β}
    (alike : List.Forall₂ R xs ys) : Option.Rel R xs.getLast? ys.getLast? := by
  have back := List.rel_reverse alike
  rw [← List.head?_reverse, ← List.head?_reverse]
  generalize xs.reverse = before at back
  generalize ys.reverse = after at back
  cases back with
  | nil => exact .none
  | cons one _ => exact .some one

theorem stagedUnassigned (read : u.Read ctx params r places cs) (member : s ∈ r.sources)
    (plain : u.assigned s.name = false) : u.stagedBy params places cs s = [] := by
  have none : cs.filterMap (copy? u.set places params s.name) = [] :=
    List.filterMap_eq_nil_iff.mpr fun c _ =>
      copyUnassigned (startDistinct read.started) member read.located plain
  rw [stagedBy, none]
  rfl

variable (read : u.Read ctx params r places cs) (consistent : t.Consistent)
  (there : ctx.storage.get? name = some t)
include read there

theorem readStored (member : s ∈ r.sources) (origin : s.origin = .table name) {c : Composition}
    (inside : c ∈ cs) {row : Row} (has : c.row? s.name = some row) : row ∈ t.rows := by
  obtain ⟨_, found, stored⟩ := drawnStored read.started
    (passesDrawn (collectPasses read.collected c inside)) member origin has
  rwa [Option.some.inj (there.symm.trans found)]

include consistent

theorem stagedCopies (member : s ∈ r.sources) (origin : s.origin = .table name)
    (stored : old ∈ t.rows) : List.Forall₂ (fun copy w => u.Copied params w.1 w.2 old copy)
      ((u.stagedBy params places cs s).filter (·.id == old.id))
      (if s.origin = .table name ∧ u.assigned s.name = true then
        ((lastWith cs s.name old).map (s, ·)).toList
      else []) := by
  cases targeted : u.assigned s.name with
  | false => simp [stagedUnassigned read member targeted]
  | true =>
      have once : ∀ c ∈ cs.reverse, ∀ row, c.row? s.name = some row → row.id = old.id → row = old :=
        fun c inside row has same => rowsOnce consistent
          (readStored read there member origin (List.mem_reverse.mp inside) has) stored same
      have last := lastCopy (startDistinct read.started) member read.located targeted
        (fun c inside => read.changes c (List.mem_reverse.mp inside)) once
      rw [if_pos ⟨origin, rfl⟩, stagedBy, stagedFilter, ← List.filterMap_reverse, lastWith]
      generalize List.find? _ (cs.reverse.filterMap _) = copy at last
      generalize cs.reverse.find? _ = c at last
      cases last with
      | none => exact .nil
      | some copied => exact .cons copied .nil

theorem tableCopies (stored : old ∈ t.rows) :
    List.Forall₂ (fun copy w => u.Copied params w.1 w.2 old copy)
      ((rowsTo name (pending (r.sources.map (u.holding params places cs)))).filter (·.id == old.id))
      (u.writers r.sources cs name old) := by
  rw [rowsToPending, List.flatMap_map, List.filter_flatMap]
  refine flatMapAlike fun s member => ?_
  by_cases origin : s.origin = .table name
  · have copies := stagedCopies read consistent there member origin stored
    simpa [holding, origin] using copies
  · simp [holding, origin]

theorem rowsOverwritten {storage : Storage} (replaced : Replaced ctx.storage storage
    (pending (r.sources.map (u.holding params places cs)))) :
    ∃ t', storage.get? name = some t' ∧ Writes t t' ∧ List.Forall₂ (fun old new =>
      u.Overwritten params (u.writers r.sources cs name old) old new) t.rows t'.rows := by
  obtain ⟨t', there', writes, each⟩ := replaced.present name t there
  refine ⟨t', there', writes, ?_⟩
  rw [rowsMap each, List.forall₂_map_right_iff, List.forall₂_same]
  intro old stored
  have copies := tableCopies read consistent there stored
  have fits := replaced.fits name t there
  generalize rowsTo name (pending _) = rows at copies fits
  refine ⟨supersededId rows old, ?_, fun none => ?_, fun w last => ?_⟩
  · -- Every copy has the version that the statement found, so each write counts one.
    have current : ∀ copy ∈ rows, copy.id = old.id → copy.version ≤ old.version := by
      intro copy member same
      obtain ⟨w, _, copied⟩ := alikeMember copies.flip (List.mem_filter.mpr ⟨member, by simpa using same⟩)
      exact Nat.le_of_eq copied.version
    rw [supersededVersion current (Nat.le_refl _), copies.length_eq]
  · rw [none, List.forall₂_nil_right_iff] at copies
    simp [superseded, copies]
  · have decides := lastAlike copies
    rw [last] at decides
    rw [supersededValues]
    generalize written : (rows.filter (·.id == old.id)).getLast? = copy at decides
    cases decides with
    | @some copy _ copied =>
        have listed : copy ∈ rows := (List.mem_filter.mp (List.mem_of_getLast? written)).1
        obtain ⟨member, origin, _⟩ := writerSource (List.mem_of_getLast? last)
        obtain ⟨u', found, columns, _⟩ := sourceTable read.started member origin
        cases there.symm.trans found
        refine ⟨?_, copied.values⟩
        rw [columns, ← copied.values.width]
        exact (fits copy listed).2

end

end RelQuery.Update
