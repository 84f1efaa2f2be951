import RelQuery.Proofs.Expr.Parts
import RelQuery.Proofs.Expr.Reading
import RelQuery.Proofs.Select.Slots

/-! Names of slots that nothing reads. Output rows that differ only in such names go through grouping, filtering
and sorting alike, and are projected to the same values. -/
namespace RelQuery

/-- A reference that may lead to an output field. -/
def ColumnRef.mayProject (ref : ColumnRef) : Prop := ref.table = none ∨ ref.table = some projectionAlias

namespace Expr

/-- An expression that reads no output field of some names. -/
def Spares (free : String → Prop) (e : Expr) : Prop :=
  ∀ ref, .column ref ∈ e.nodes → ref.mayProject → ¬ free ref.column

variable {free : String → Prop} {e n : Expr}

theorem nodesInside (member : n ∈ e.nodes) : n.nodes ⊆ e.nodes := by
  induction e using partsInduction with
  | step e ih =>
      rw [nodesEq e] at member
      rcases List.mem_cons.mp member with rfl | inside
      · exact List.Subset.refl _
      · obtain ⟨p, part, member⟩ := List.mem_flatMap.mp inside
        exact List.Subset.trans (ih p part member) (nodesPart part)

theorem sparesNode (spares : e.Spares free) (member : n ∈ e.nodes) : n.Spares free :=
  fun ref inside => spares ref (nodesInside member inside)

theorem sparesPart {p : Expr} (spares : e.Spares free) (part : p ∈ e.parts) : p.Spares free :=
  fun ref inside => spares ref (nodesPart part inside)

end Expr

/-- Slots of the same value, whose names differ only if nothing reads them. -/
def SlotAlike (free : String → Prop) (s s' : String × Slot) : Prop :=
  s.2 = s'.2 ∧ (s.1 = s'.1 ∨ free s.1 ∧ free s'.1)

namespace Composition

structure Relabeled (free : String → Prop) (c c' : Composition) : Prop where
  sources : c.sources = c'.sources
  slots : List.Forall₂ (SlotAlike free) c.slots c'.slots

variable {free : String → Prop} {c c' : Composition}

theorem relabeledPush {name name' : String} {slot : Slot} (alike : c.Relabeled free c')
    (named : name = name' ∨ free name ∧ free name') :
    (c.pushSlot name slot).Relabeled free (c'.pushSlot name' slot) :=
  ⟨alike.sources, List.rel_append alike.slots (.cons ⟨rfl, named⟩ .nil)⟩

theorem relabeledSet (alike : c.Relabeled free c') (i : Nat) (v : Value) :
    (c.setSlot i v).Relabeled free (c'.setSlot i v) := by
  refine ⟨alike.sources, ?_⟩
  have slots := alike.slots
  simp only [setSlot]
  generalize c.slots = ss at slots
  generalize c'.slots = ss' at slots
  induction slots generalizing i with
  | nil => cases i <;> exact .nil
  | cons one others ih =>
      cases i with
      | zero => exact .cons ⟨rfl, one.2⟩ others
      | succ i => exact .cons one (ih i)

theorem relabeledProject (alike : c.Relabeled free c') : c.project = c'.project := by
  have slots := alike.slots
  simp only [project]
  generalize c.slots = ss at slots
  generalize c'.slots = ss' at slots
  induction slots with
  | nil => rfl
  | cons one _ ih => rw [List.map_cons, List.map_cons, one.1, ih]

theorem relabeledSlot {x : String} (alike : c.Relabeled free c') (read : ¬ free x) :
    c.slot? x = c'.slot? x := by
  have slots := alike.slots
  simp only [slot?]
  generalize c.slots = ss at slots
  generalize c'.slots = ss' at slots
  induction slots with
  | nil => rfl
  | @cons s s' ss ss' one _ ih =>
      obtain ⟨value, named⟩ := one
      have heads : (x == s.1) = (x == s'.1) := by
        rcases named with same | ⟨own, other⟩
        · rw [same]
        · rw [beq_eq_false_iff_ne.mpr fun same : x = s.1 => read (same ▸ own),
            beq_eq_false_iff_ne.mpr fun same : x = s'.1 => read (same ▸ other)]
      rw [List.lookup_cons, List.lookup_cons, heads, value, ih]

end Composition

namespace Scope

structure Relabeled (free : String → Prop) (s s' : Scope) : Prop where
  row : s.row.Relabeled free s'.row
  group : Option.Rel (List.Forall₂ (Composition.Relabeled free)) s.group s'.group
  params : s.params = s'.params
  projectionFirst : s.projectionFirst = s'.projectionFirst

variable {free : String → Prop} {s s' : Scope}

theorem relabeledColumn {ref : ColumnRef} (alike : s.Relabeled free s')
    (read : ref.mayProject → ¬ free ref.column) : s.column ref = s'.column ref := by
  have sources := alike.row.sources
  obtain ⟨table, name⟩ := ref
  cases table with
  | some table =>
      by_cases own : table = projectionAlias
      · simp only [column, own, if_true, projected,
          Composition.relabeledSlot alike.row (read (.inr (congrArg some own)))]
      · simp only [column, own, if_false, Composition.column, Composition.subRow?, sources]
  | none =>
      simp only [column, unqualified, Composition.slotValue?, alike.projectionFirst,
        Composition.relabeledSlot alike.row (read (.inl rfl)), Composition.find, Composition.owners,
        Composition.aliases, sources]

theorem relabeledReads {e : Expr} (L : Outcome.Likeness) (alike : s.Relabeled free s') (spares : e.Spares free) :
    ReadsAlike L e.nodes s s' := by
  refine ⟨fun ref member => ?_, alike.params, ?_⟩
  · rw [relabeledColumn alike (spares ref member)]
    exact L.refl _
  · rcases optionRelated alike.group with ⟨group, group'⟩ | ⟨ms, ms', group, group', members⟩
    · rw [group, group']
      exact .none
    · rw [group, group']
      refine .some (members.imp fun m m' same ref member => ?_)
      have inside : (s.member m).Relabeled free (s'.member m') :=
        ⟨same, .none, alike.params, alike.projectionFirst⟩
      rw [relabeledColumn inside (spares ref member)]
      exact L.refl _

theorem evalRelabeled {e : Expr} (alike : s.Relabeled free s') (spares : e.Spares free) :
    Outcome.Alike Eq (e.eval s) (e.eval s') :=
  Expr.evalReads .agreeing e (relabeledReads .agreeing alike spares)

theorem evalListRelabeled {es : List Expr} (alike : s.Relabeled free s') (spares : ∀ e ∈ es, e.Spares free) :
    Outcome.Alike Eq (Expr.evalList es s) (Expr.evalList es s') := by
  induction es with
  | nil => exact rfl
  | cons e es ih =>
      obtain ⟨own, others⟩ := List.forall_mem_cons.mp spares
      rw [Expr.evalList, Expr.evalList]
      refine Outcome.alikeBind (evalRelabeled alike own) fun v v' value => ?_
      refine Outcome.alikeBind (ih others) fun vs vs' values => ?_
      rw [value, values]
      exact rfl

theorem satisfiedRelabeled {e : Expr} (alike : s.Relabeled free s') (spares : e.Spares free) :
    Outcome.Alike Eq (e.satisfied s) (e.satisfied s') := by
  have values := evalRelabeled alike spares
  unfold Expr.satisfied Expr.holds
  cases ok : e.eval s <;> cases ok' : e.eval s' <;> rw [ok, ok'] at values
  · exact trivial
  · exact values.elim
  · exact values.elim
  · cases values
    exact rfl

end Scope

namespace Output

structure Relabeled (free : String → Prop) (o o' : Output) : Prop where
  row : o.row.Relabeled free o'.row
  members : Option.Rel (List.Forall₂ (Composition.Relabeled free)) o.members o'.members

variable {free : String → Prop} {o o' : Output}

theorem relabeledScope (alike : o.Relabeled free o') (params : List Value) :
    (o.scope params).Relabeled free (o'.scope params) :=
  ⟨alike.row, alike.members, rfl, rfl⟩

theorem relabeledFieldScope (alike : o.Relabeled free o') (params : List Value) :
    (o.fieldScope params).Relabeled free (o'.fieldScope params) :=
  ⟨alike.row, alike.members, rfl, rfl⟩

theorem relabeledField (alike : o.Relabeled free o') (i : Nat) (v : Value) :
    (o.setField i v).Relabeled free (o'.setField i v) :=
  ⟨Composition.relabeledSet alike.row i v, alike.members⟩

theorem relabeledRow {c c' : Composition} (alike : c.Relabeled free c') :
    (ofRow c).Relabeled free (ofRow c') :=
  ⟨alike, .none⟩

end Output

/-! Related lists -/

section
variable {α β : Type} {R : α → β → Prop} {xs : List α} {ys : List β}

theorem zipAlike (alike : List.Forall₂ R xs ys) :
    ∃ zs : List (α × β), xs = zs.map (·.1) ∧ ys = zs.map (·.2) ∧ ∀ z ∈ zs, R z.1 z.2 := by
  induction alike with
  | nil => exact ⟨[], rfl, rfl, by simp⟩
  | @cons x y _ _ one _ ih =>
      obtain ⟨zs, rfl, rfl, each⟩ := ih
      exact ⟨(x, y) :: zs, rfl, rfl, List.forall_mem_cons.mpr ⟨one, each⟩⟩

theorem pairsAlike {zs : List (α × β)} (each : ∀ z ∈ zs, R z.1 z.2) :
    List.Forall₂ R (zs.map (·.1)) (zs.map (·.2)) := by
  rw [List.forall₂_map_left_iff, List.forall₂_map_right_iff, List.forall₂_same]
  exact each

theorem zipIdxAlike (alike : List.Forall₂ R xs ys) (n : Nat) :
    List.Forall₂ (fun x y => R x.1 y.1 ∧ x.2 = y.2) (xs.zipIdx n) (ys.zipIdx n) := by
  induction alike generalizing n with
  | nil => exact .nil
  | cons one _ ih => exact .cons ⟨one, rfl⟩ (ih (n + 1))

def KeyedAlike (R : α → β → Prop) (x : Key × α) (y : Key × β) : Prop := x.1 = y.1 ∧ R x.2 y.2

theorem itemsAlike {xs : List (Key × α)} {ys : List (Key × β)} (alike : List.Forall₂ (KeyedAlike R) xs ys) :
    List.Forall₂ R (xs.map (·.2)) (ys.map (·.2)) := by
  rw [List.forall₂_map_left_iff, List.forall₂_map_right_iff]
  exact alike.imp fun _ _ same => same.2

/-- Items with their keys, side by side with the places of the keys. -/
theorem keyedPlaces {f : α → Outcome Key} {xs : List α} {keys : List Key} (evaluated : xs.mapM f = .ok keys) :
    (xs.mapM fun x => do return (← f x, x)) = .ok (keys.zip xs) ∧
      List.Forall₂ (KeyedAlike fun i x => xs[i]? = some x) keys.zipIdx (keys.zip xs) := by
  have each := Outcome.mapMOk.mp evaluated
  have many := each.length_eq
  refine ⟨Outcome.mapMOk.mpr (List.forall₂_iff_get.mpr ⟨by simp [many], fun i inside inside' => ?_⟩),
    List.forall₂_iff_get.mpr ⟨by simp [many], fun i inside inside' => ?_⟩⟩
  · have own := (List.forall₂_iff_get.mp each).2 i inside (by simp only [List.length_zip] at inside'; omega)
    simp only [List.get_eq_getElem, List.getElem_zip] at own ⊢
    rw [own]
    rfl
  · have inside' : i < xs.length := by simpa [many] using inside
    simp [KeyedAlike, inside']

theorem sortAlike {xs : List (Key × α)} {ys : List (Key × β)} (ds : List Direction)
    (alike : List.Forall₂ (KeyedAlike R) xs ys) :
    List.Forall₂ (KeyedAlike R) (Key.sortBy ds xs) (Key.sortBy ds ys) := by
  obtain ⟨zs, rfl, rfl, each⟩ := zipAlike alike
  have first : Key.sortBy ds (zs.map (·.1)) =
      (zs.mergeSort fun a b => Key.compareBy ds a.1.1 b.1.1 != .gt).map (·.1) := by
    refine (List.map_mergeSort fun a _ b _ => ?_).symm
    rfl
  have second : Key.sortBy ds (zs.map (·.2)) =
      (zs.mergeSort fun a b => Key.compareBy ds a.1.1 b.1.1 != .gt).map (·.2) := by
    refine (List.map_mergeSort fun a member b member' => ?_).symm
    rw [(each a member).1, (each b member').1]
  rw [first, second]
  exact pairsAlike fun z member => each z (List.mem_mergeSort.mp member)

theorem groupsAlike {xs : List (Key × α)} {ys : List (Key × β)}
    (alike : List.Forall₂ (KeyedAlike R) xs ys) :
    List.Forall₂ (fun g g' : Group _ => List.Forall₂ R g.members g'.members)
      (Grouping.ofKeyed xs) (Grouping.ofKeyed ys) := by
  obtain ⟨zs, rfl, rfl, each⟩ := zipAlike alike
  have keys : (zs.map (·.2)).map (·.1) = (zs.map (·.1)).map (·.1) := by
    rw [List.map_map, List.map_map]
    exact List.map_congr_left fun z member => (each z member).1.symm
  rw [Grouping.ofKeyedEq, Grouping.ofKeyedEq, keys, List.forall₂_map_left_iff,
    List.forall₂_map_right_iff, List.forall₂_same]
  intro key _
  have members : (zs.map (·.2)).filter (fun entry => entry.1.same key) =
      (zs.filter fun z => z.1.1.same key).map (·.2) := by
    rw [List.filter_map]
    refine congrArg (List.map _) (List.filter_congr fun z member => ?_)
    rw [Function.comp_apply, (each z member).1]
  simp only [Grouping.membersOf, members]
  rw [List.filter_map]
  exact itemsAlike (pairsAlike fun z member => each z (List.mem_of_mem_filter member))

end

end RelQuery
