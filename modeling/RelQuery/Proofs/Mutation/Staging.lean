import RelQuery.Join.Staging
import RelQuery.Proofs.Grouping
import RelQuery.Proofs.Join.Drawn
import Mathlib.Data.List.Induction

/-! Staged rows. A source keeps one row for each identifier, the last one staged, in the order in which
the identifiers were first met. -/
namespace RelQuery

namespace Cursor

def stageRows (staged rows : List Row) : List Row :=
  rows.foldl (fun staged r => stageRow r staged) staged

theorem stageRowsConcat (staged rows : List Row) (r : Row) :
    stageRows staged (rows ++ [r]) = stageRow r (stageRows staged rows) := List.foldl_concat ..

theorem stageRowFind (r : Row) (staged : List Row) (id : Nat) :
    (stageRow r staged).find? (·.id == id) =
      if r.id = id then some r else staged.find? (·.id == id) := by
  induction staged with
  | nil => by_cases here : r.id = id <;> simp [stageRow, here]
  | cons r' staged ih =>
      simp only [stageRow]
      by_cases same : r'.id = r.id
      · by_cases here : r.id = id <;> simp [same, here]
      · by_cases here : r'.id = id
        · have apart : r.id ≠ id := fun other => same (here.trans other.symm)
          simp [here, apart, Ne.symm apart]
        · simp [same, here, ih]

theorem stageRowIds (r : Row) (staged : List Row) : (stageRow r staged).map (·.id) =
    if r.id ∈ staged.map (·.id) then staged.map (·.id) else staged.map (·.id) ++ [r.id] := by
  induction staged with
  | nil => simp [stageRow]
  | cons r' staged ih =>
      simp only [stageRow]
      by_cases same : r'.id = r.id
      · simp [same]
      · simp only [same, ↓reduceIte, List.map_cons, ih, List.mem_cons, Ne.symm same, false_or]
        split <;> simp

theorem stagedFind (rows : List Row) (id : Nat) :
    (stageRows [] rows).find? (·.id == id) = rows.reverse.find? (·.id == id) := by
  induction rows using List.reverseRecOn with
  | nil => rfl
  | append_singleton rows r ih =>
      rw [stageRowsConcat, stageRowFind, ih, List.reverse_concat]
      by_cases here : r.id = id <;> simp [here]

/-- The identifiers of the staged rows are those of all rows, each where it was first met. -/
theorem stagedIds (rows : List Row) :
    (stageRows [] rows).map (·.id) = (rows.map (·.id)).eraseDups := by
  induction rows using List.reverseRecOn with
  | nil => rfl
  | append_singleton rows r ih =>
      rw [stageRowsConcat, stageRowIds, ih, List.map_append, List.map_singleton, Grouping.eraseDupsConcat]
      simp only [List.mem_eraseDups]

theorem stagedDistinct (rows : List Row) : ((stageRows [] rows).map (·.id)).Nodup := by
  induction rows using List.reverseRecOn with
  | nil => exact .nil
  | append_singleton rows r ih =>
      rw [stageRowsConcat, stageRowIds]
      split
      · exact ih
      · rename_i fresh
        exact List.nodup_append.mpr ⟨ih, List.nodup_singleton _, by
          rintro a member b only rfl
          exact fresh (List.mem_singleton.mp only ▸ member)⟩

theorem stagedFilter (rows : List Row) (id : Nat) : (stageRows [] rows).filter (·.id == id) =
    (rows.reverse.find? (·.id == id)).toList := by
  have distinct := stagedDistinct rows
  rw [← stagedFind]
  generalize stageRows [] rows = staged at distinct
  induction staged with
  | nil => rfl
  | cons r staged ih =>
      rw [List.map_cons, List.nodup_cons] at distinct
      by_cases here : r.id = id
      · subst here
        have none : staged.filter (·.id == r.id) = [] :=
          List.filter_eq_nil_iff.mpr fun r' member => by
            simpa using fun same => distinct.1 (List.mem_map.mpr ⟨r', member, same⟩)
        simp [none]
      · simp [here, ih distinct.2]

end Cursor

def rowsFor (name : String) (rows : List (String × Row)) : List Row :=
  (rows.filter (·.1 == name)).map (·.2)

@[simp] theorem rowsForNil (name : String) : rowsFor name [] = [] := rfl

theorem rowsForCons (name : String) (entry : String × Row) (rows : List (String × Row)) :
    rowsFor name (entry :: rows) =
      if entry.1 = name then entry.2 :: rowsFor name rows else rowsFor name rows := by
  by_cases same : entry.1 = name <;> simp [rowsFor, same]

theorem rowsForAppend (name : String) (rows rows' : List (String × Row)) :
    rowsFor name (rows ++ rows') = rowsFor name rows ++ rowsFor name rows' := by
  simp [rowsFor]

namespace OpenSource

def stageRows (s : OpenSource) (rows : List Row) : OpenSource :=
  { s with cursor := { s.cursor with staged := Cursor.stageRows s.cursor.staged rows } }

@[simp] theorem stageRowsName (s : OpenSource) (rows : List Row) : (s.stageRows rows).name = s.name := rfl

end OpenSource

namespace JoinRun
open Relational (stillMain)

variable {r r' : JoinRun} {name : String} {row : Row} {rows : List (String × Row)}

theorem stageSettled (distinct : (r.settled.map (·.name)).Nodup) (ok : r.stage name row = .ok r') :
    r'.settled = r.settled.map fun s => s.stageRows (rowsFor s.name [(name, row)]) := by
  have other (s : OpenSource) (apart : s.name ≠ name) :
      (stillMain s).stageRows (rowsFor s.name [(name, row)]) = stillMain s := by
    rw [rowsForCons, if_neg (Ne.symm apart)]
    rfl
  have own (s : OpenSource) (here : s.name = name) :
      (stillMain s).stageRows (rowsFor s.name [(name, row)]) = stillMain (s.stage row) := by
    rw [rowsForCons, if_pos here.symm]
    rfl
  simp only [settled, sources, List.map_cons, List.map_map, List.nodup_cons, List.mem_map,
    Function.comp_apply] at distinct
  simp only [stage] at ok
  split at ok
  · cases ok
  · split at ok
    · rename_i here
      cases ok
      simp only [settled, sources, List.map_cons, List.map_map]
      refine congrArg₂ List.cons (own r.main here).symm (List.map_congr_left fun j member => ?_)
      exact (other j.source fun same => distinct.1 ⟨j, member, same.trans here.symm⟩).symm
    · rename_i apart
      cases ok
      simp only [settled, sources, List.map_cons, List.map_map]
      refine congrArg₂ List.cons (other r.main apart).symm (List.map_congr_left fun j _ => ?_)
      simp only [Function.comp_apply]
      by_cases here : j.source.name = name
      · rw [if_pos here]
        exact (own j.source here).symm
      · rw [if_neg here]
        exact (other j.source here).symm

theorem stageAllSettled (distinct : (r.settled.map (·.name)).Nodup)
    (ok : rows.foldlM (fun (r : JoinRun) (name, row) => r.stage name row) r = .ok r') :
    r'.settled = r.settled.map fun s => s.stageRows (rowsFor s.name rows) := by
  induction rows generalizing r with
  | nil =>
      cases Outcome.pureOk.mp ok
      exact (List.map_id _).symm
  | cons entry rows ih =>
      obtain ⟨next, staged, ok⟩ := Outcome.bindOk.mp ok
      have one := stageSettled distinct staged
      have names : next.settled.map (·.name) = r.settled.map (·.name) := by
        rw [one, List.map_map]
        rfl
      rw [ih (names ▸ distinct) ok, one, List.map_map]
      refine List.map_congr_left fun s _ => ?_
      simp only [Function.comp_apply, OpenSource.stageRowsName, rowsForCons]
      split <;> rfl

end JoinRun

end RelQuery
