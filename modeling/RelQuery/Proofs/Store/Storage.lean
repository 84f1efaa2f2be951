import RelQuery.Proofs.Store.Reachable
import RelQuery.Store.Storage

/-! Storage as one table for each name. A dictionary answers what was inserted last for a name, and a
storage is reachable when calls can make each of its tables of an empty one. -/
namespace RelQuery

namespace Dictionary

variable {κ α : Type} {k : κ} {d : Dictionary κ α}

section
variable [BEq κ]

theorem getCons (k k' : κ) (v : α) (d : Dictionary κ α) :
    get? ((k', v) :: d) k = if k == k' then some v else d.get? k := by
  rw [get?, List.lookup_cons]
  cases k == k' <;> rfl

theorem getNone [LawfulBEq κ] (absent : k ∉ d.map (·.1)) : d.get? k = none := by
  refine List.lookup_eq_none_iff.mpr fun entry member => bne_iff_ne.mpr ?_
  rintro rfl
  exact absent (List.mem_map_of_mem member)

theorem getMember [LawfulBEq κ] {v : α} (there : d.get? k = some v) : (k, v) ∈ d := by
  induction d with
  | nil => cases there
  | cons entry rest ih =>
      obtain ⟨k', v'⟩ := entry
      rw [getCons] at there
      split at there
      · rename_i same
        rw [← eq_of_beq same, ← Option.some.inj there]
        exact List.mem_cons_self
      · exact List.mem_cons_of_mem _ (ih there)

theorem getMap {β : Type} (f : α → β) (d : Dictionary κ α) (k : κ) :
    get? (d.map fun (k, v) => (k, f v)) k = (d.get? k).map f := by
  induction d with
  | nil => rfl
  | cons entry rest ih =>
      rw [List.map_cons, getCons, getCons, ih]
      split <;> rfl

theorem getFilter [LawfulBEq κ] (distinct : (d.map (·.1)).Nodup) (p : κ × α → Bool) (k : κ) :
    get? (d.filter p) k = (d.get? k).filter fun v => p (k, v) := by
  induction d with
  | nil => rfl
  | cons entry rest ih =>
      obtain ⟨there, v⟩ := entry
      rw [List.map_cons, List.nodup_cons] at distinct
      rw [List.filter_cons, getCons]
      by_cases here : k = there
      · subst here
        have none : get? rest k = none := getNone distinct.1
        cases keep : p (k, v) <;> simp [keep, getCons, ih distinct.2, none, Option.filter_some]
      · cases keep : p (there, v) <;> simp [getCons, here, ih distinct.2]

end

section
variable [Ord κ] [Std.LawfulEqOrd κ]

theorem getInsert [BEq κ] [LawfulBEq κ] (d : Dictionary κ α) (k k' : κ) (v : α) :
    (d.insert k v).get? k' = if k' == k then some v else d.get? k' := by
  induction d with
  | nil => exact getCons k' k v []
  | cons entry rest ih =>
      obtain ⟨there, old⟩ := entry
      simp only [insert]
      split <;> rename_i place
      · exact getCons k' k v _
      · have same : k = there := Std.LawfulEqOrd.eq_of_compare place
        subst same
        rw [getCons, getCons]
        split <;> rfl
      · have apart : k ≠ there := by
          rintro rfl
          simp at place
        rw [getCons, getCons, ih]
        by_cases here : k' = there
        · subst here
          simp [Ne.symm apart]
        · simp [here]

theorem keysInsert (fresh : k ∉ d.map (·.1)) (v : α) :
    ((d.insert k v).map (·.1)).Perm (k :: d.map (·.1)) := by
  induction d with
  | nil => exact .refl _
  | cons entry rest ih =>
      obtain ⟨there, old⟩ := entry
      simp only [List.map_cons, List.mem_cons, not_or] at fresh
      simp only [insert]
      split <;> rename_i place
      · exact .refl _
      · exact absurd (Std.LawfulEqOrd.eq_of_compare place) fresh.1
      · exact (List.Perm.cons there (ih fresh.2)).trans (.swap ..)

end

end Dictionary

instance : Std.LawfulEqOrd TableName where
  eq_of_compare {a b} same := by
    obtain ⟨database, table⟩ := a
    obtain ⟨database', table'⟩ := b
    have parts : (compare database database').then (compare table table') = .eq := same
    obtain ⟨first, second⟩ := Ordering.then_eq_eq.mp parts
    rw [Std.LawfulEqOrd.eq_of_compare first, Std.LawfulEqOrd.eq_of_compare second]
  compare_self {a} := by
    have parts : compare a a = (compare a.database a.database).then (compare a.table a.table) := rfl
    rw [parts, Std.ReflOrd.compare_self, Std.ReflOrd.compare_self]
    rfl

namespace Storage

variable {storage : Storage} {name : TableName} {t : TableStore}

/-- Storage whose tables calls can make of empty ones. -/
def Reachable (storage : Storage) : Prop :=
  ∀ name t, storage.get? name = some t → TableStore.Reachable t.schema t

theorem reachableOf (each : ∀ entry ∈ storage, TableStore.Reachable entry.2.schema entry.2) :
    storage.Reachable :=
  fun name t there => each (name, t) (Dictionary.getMember there)

theorem storeOk : storage.store name = .ok t ↔ storage.get? name = some t := by
  rw [store]
  cases storage.get? name <;> simp

end Storage

end RelQuery
