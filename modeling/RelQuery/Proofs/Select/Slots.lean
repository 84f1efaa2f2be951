import RelQuery.Proofs.Grouping
import RelQuery.Proofs.Select.Columns

/-! The slots of output rows. Projection gives a row one slot for each field, under the field's name, and
every later stage of a query keeps them. So each row of a result has one value for each column. -/
namespace RelQuery

namespace Composition

def slotNames (c : Composition) : List String := c.slots.map (·.1)

theorem slotNamesSet (c : Composition) (i : Nat) (v : Value) : (c.setSlot i v).slotNames = c.slotNames := by
  simp only [slotNames, setSlot]
  refine List.ext_getElem? fun j => ?_
  rw [List.getElem?_map, List.getElem?_map, List.getElem?_modify]
  cases c.slots[j]? with
  | none => rfl
  | some s =>
      simp only [Option.map_eq_map, Option.map_some]
      split <;> rfl

theorem projectLength (c : Composition) : c.project.length = c.slotNames.length := by
  simp [project, slotNames]

end Composition

namespace JoinRun

variable {main : String} {params : List Value} {last : Bool} {joins : List JoinSource} {r : JoinRun}
  {c c' : Composition}

theorem joinedSlots (joined : Joined main params last joins c c') : c'.slots = c.slots := by
  induction joined with
  | done => rfl
  | row _ _ _ ih => exact ih
  | empty _ _ ih => exact ih

theorem passesSlots (passes : r.Passes c) : c.slots = [] := by
  obtain ⟨row, _, joined, _⟩ := passes
  exact joinedSlots joined

theorem emptySlots (r : JoinRun) : r.emptyComposition.slots = [] := by
  have kept (sources : List OpenSource) (c : Composition) :
      (sources.foldl (fun c s => s.pushInto c none) c).slots = c.slots := by
    induction sources generalizing c with
    | nil => rfl
    | cons s sources ih => exact ih _
  exact kept r.sources .empty

theorem emptyNames (r : JoinRun) : r.emptyComposition.sources.map (·.1) = r.sources.map (·.name) := by
  have same := congrArg (List.map Prod.fst) (emptyMarks r)
  rwa [Composition.marks, marks, List.map_map, List.map_map] at same

end JoinRun

namespace OutputField

variable {fields : List OutputField} {params : List Value} {c c' : Composition} {f : OutputField}
  {o o' : Output}

/-- A field and its slot, which is empty unless the field is a direct one. -/
def Reserves (f : OutputField) (s : String × Slot) : Prop := s.1 = f.name ∧ (f.kind ≠ .direct → s.2 = .unset)

theorem pushReserves (ok : pushTo params c f = .ok c') : ∃ s, c'.slots = c.slots ++ [s] ∧ f.Reserves s := by
  unfold pushTo at ok
  split at ok
  · rename_i direct
    obtain ⟨v, _, last⟩ := Outcome.bindOk.mp ok
    cases Outcome.pureOk.mp last
    exact ⟨_, rfl, rfl, fun other => absurd direct other⟩
  · cases ok
    exact ⟨_, rfl, rfl, fun _ => rfl⟩

theorem projectReserves (ok : project fields params c = .ok c') :
    ∃ slots, c'.slots = c.slots ++ slots ∧ List.Forall₂ Reserves fields slots := by
  induction fields generalizing c with
  | nil =>
      cases ok
      exact ⟨[], (List.append_nil _).symm, .nil⟩
  | cons f fields ih =>
      obtain ⟨pushed, first, ok⟩ := Outcome.bindOk.mp ok
      obtain ⟨s, one, own⟩ := pushReserves first
      obtain ⟨slots, others, each⟩ := ih ok
      exact ⟨s :: slots, by rw [others, one, List.append_assoc]; rfl, .cons own each⟩

theorem projectNames (ok : project fields params c = .ok c') :
    c'.slotNames = c.slotNames ++ fields.map (·.name) := by
  obtain ⟨slots, added, each⟩ := projectReserves ok
  have names : slots.map (·.1) = fields.map (·.name) := by
    clear ok added
    induction each with
    | nil => rfl
    | cons own _ ih => rw [List.map_cons, List.map_cons, own.1, ih]
  rw [Composition.slotNames, added, List.map_append, names, Composition.slotNames]

theorem setNames (o : Output) (values : List (Nat × Value)) :
    (values.foldl (fun o (i, v) => o.setField i v) o).row.slotNames = o.row.slotNames := by
  induction values generalizing o with
  | nil => rfl
  | cons entry values ih =>
      rw [List.foldl_cons, ih]
      exact Composition.slotNamesSet ..

theorem aggregateNames (ok : aggregateInto fields params o = .ok o') :
    o'.row.slotNames = o.row.slotNames := by
  obtain ⟨values, _, last⟩ := Outcome.bindOk.mp ok
  cases Outcome.pureOk.mp last
  exact setNames o values

/-- The slots of some fields are still empty. -/
def Pending (entries : List (OutputField × Nat)) (outputs : List Output) : Prop :=
  ∀ entry ∈ entries, ∀ o ∈ outputs, ∃ n, o.row.slots[entry.2]? = some (n, .unset)

theorem kindField {k : FieldKind} {entry : OutputField × Nat} (listed : entry ∈ ofKind fields k) :
    fields[entry.2]? = some entry.1 ∧ entry.1.kind = k := by
  obtain ⟨member, kind⟩ := List.mem_filter.mp listed
  exact ⟨List.mem_zipIdx_iff_getElem?.mp member, of_decide_eq_true kind⟩

theorem placesSorted (fields : List OutputField) (k : FieldKind) :
    ((ofKind fields k).map (·.2)).Pairwise (· < ·) := by
  refine List.Pairwise.sublist (List.filter_sublist.map _) ?_
  rw [List.zipIdx_map_snd]
  exact List.pairwise_lt_range'

theorem placesNodup (fields : List OutputField) (k : FieldKind) : ((ofKind fields k).map (·.2)).Nodup :=
  (placesSorted fields k).imp Nat.ne_of_lt

theorem projectPending {k : FieldKind} {entry : OutputField × Nat} (fresh : c.slots = [])
    (ok : project fields params c = .ok c') (listed : entry ∈ ofKind fields k) (other : k ≠ .direct) :
    ∃ n, c'.slots[entry.2]? = some (n, .unset) := by
  obtain ⟨slots, added, each⟩ := projectReserves ok
  obtain ⟨there, kind⟩ := kindField listed
  obtain ⟨bound, own⟩ := List.getElem?_eq_some_iff.mp there
  have inside : entry.2 < slots.length := each.length_eq ▸ bound
  have reserves := each.get bound inside
  rw [List.get_eq_getElem, List.get_eq_getElem, own] at reserves
  refine ⟨slots[entry.2].1, ?_⟩
  rw [added, fresh, List.nil_append, List.getElem?_eq_getElem inside,
    ← reserves.2 (kind ▸ other)]

theorem setOther {i : Nat} {values : List (Nat × Value)} (apart : ∀ v ∈ values, v.1 ≠ i) :
    (values.foldl (fun o (i, v) => o.setField i v) o).row.slots[i]? = o.row.slots[i]? := by
  induction values generalizing o with
  | nil => rfl
  | cons v values ih =>
      obtain ⟨own, others⟩ := List.forall_mem_cons.mp apart
      rw [List.foldl_cons, ih others]
      exact List.getElem?_modify_ne _ _ own

theorem aggregatePending {k : FieldKind} {entry : OutputField × Nat} (ok : aggregateInto fields params o = .ok o')
    (listed : entry ∈ ofKind fields k) (other : k ≠ .aggregate) :
    o'.row.slots[entry.2]? = o.row.slots[entry.2]? := by
  obtain ⟨values, each, last⟩ := Outcome.bindOk.mp ok
  cases Outcome.pureOk.mp last
  -- a place belongs to one field, and a field has one kind
  refine setOther fun v member same => ?_
  obtain ⟨f, there, one⟩ := alikeMember (Outcome.mapMOk.mp each) member
  obtain ⟨_, _, last⟩ := Outcome.bindOk.mp one
  cases Outcome.pureOk.mp last
  have place : f.2 = entry.2 := same
  have field := (kindField there).1
  rw [place, (kindField listed).1] at field
  have kind := (kindField there).2
  rw [← Option.some.inj field, (kindField listed).2] at kind
  exact other kind

end OutputField

namespace Output

variable {rows : List Composition} {groupBy : List Expr} {params : List Value} {empty : Outcome Composition}
  {outputs sorted : List Output} {o : Output}

theorem groupsRows (ok : ofGroups rows groupBy params empty = .ok outputs) (listed : o ∈ outputs) :
    o.row ∈ rows ∨ empty = .ok o.row := by
  unfold ofGroups at ok
  split at ok
  · split at ok
    · rename_i row first
      cases ok
      cases List.mem_singleton.mp listed
      exact .inl (List.mem_of_mem_head? first)
    · obtain ⟨row, own, last⟩ := Outcome.bindOk.mp ok
      cases Outcome.pureOk.mp last
      cases List.mem_singleton.mp listed
      exact .inr own
  · obtain ⟨keyed, each, last⟩ := Outcome.bindOk.mp ok
    cases Outcome.pureOk.mp last
    obtain ⟨g, group, formed⟩ := List.mem_filterMap.mp listed
    rw [Grouping.ofKeyedEq] at group
    obtain ⟨key, _, rfl⟩ := List.mem_map.mp group
    obtain ⟨row, first, rfl⟩ := Option.map_eq_some_iff.mp formed
    obtain ⟨entry, member, rfl⟩ := List.mem_map.mp (List.mem_of_mem_head? first)
    obtain ⟨row, there, asked⟩ := alikeMember (Outcome.mapMOk.mp each) (List.mem_of_mem_filter member)
    obtain ⟨key, _, last⟩ := Outcome.bindOk.mp asked
    cases Outcome.pureOk.mp last
    exact .inl there

theorem sortSubset {orderBy : List (SortKey Expr)} (ok : sort outputs orderBy params = .ok sorted) :
    sorted ⊆ outputs := by
  unfold sort at ok
  split at ok
  · cases ok
    exact List.Subset.refl _
  · obtain ⟨keyed, each, last⟩ := Outcome.bindOk.mp ok
    cases Outcome.pureOk.mp last
    intro o listed
    obtain ⟨entry, member, rfl⟩ := List.mem_map.mp listed
    obtain ⟨o, there, asked⟩ := alikeMember (Outcome.mapMOk.mp each) (List.mem_mergeSort.mp member)
    obtain ⟨key, _, last⟩ := Outcome.bindOk.mp asked
    cases Outcome.pureOk.mp last
    exact there

end Output

theorem Page.applySubset {α : Type} {p : Page} {items : List α} : p.apply items ⊆ items := by
  unfold apply
  split
  · exact List.Subset.trans (List.take_subset _ _) (List.drop_subset _ _)
  · exact List.drop_subset _ _

namespace SelectOf

variable {q : Select} {fields : List OutputField} {params : List Value} {rows : List Composition}
  {empty : Composition} {outputs outputs' : List Output} {r : ResultSet} {names : List String}

/-- All output rows have slots of the same names. -/
def Slotted (names : List String) (outputs : List Output) : Prop :=
  ∀ o ∈ outputs, o.row.slotNames = names

/-- Each output row comes from a row of the join, or from the empty one of a query without rows. -/
theorem outputsFrom {o : Output} (ok : q.outputs fields params rows empty = .ok outputs) (listed : o ∈ outputs) :
    ∃ c p, (c ∈ rows ∨ c = empty) ∧ OutputField.project fields params c = .ok p.row ∧
      OutputField.aggregateInto fields params p = .ok o := by
  obtain ⟨projected, each, ok⟩ := Outcome.bindOk.mp ok
  obtain ⟨grouped, own, ok⟩ := Outcome.bindOk.mp ok
  obtain ⟨p, there, filled⟩ := alikeMember (Outcome.mapMOk.mp ok) listed
  have all {c : Composition} (member : c ∈ projected) :
      ∃ c', (c' ∈ rows ∨ c' = empty) ∧ OutputField.project fields params c' = .ok c := by
    obtain ⟨c', there, ok⟩ := alikeMember (Outcome.mapMOk.mp each) member
    exact ⟨c', .inl there, ok⟩
  unfold group at own
  split at own
  · rcases Output.groupsRows own there with member | alone
    · obtain ⟨c, source, ok⟩ := all member
      exact ⟨c, p, source, ok, filled⟩
    · exact ⟨empty, p, .inr rfl, alone, filled⟩
  · cases own
    obtain ⟨c', member, rfl⟩ := List.mem_map.mp there
    obtain ⟨c, source, ok⟩ := all member
    exact ⟨c, _, source, ok, filled⟩

section
variable (fresh : ∀ c ∈ rows, c.slots = []) (none : empty.slots = [])
  (ok : q.outputs fields params rows empty = .ok outputs)
include fresh none ok

theorem outputsSlotted : Slotted (fields.map (·.name)) outputs := by
  intro o listed
  obtain ⟨c, p, source, projected, filled⟩ := outputsFrom ok listed
  have plain : c.slots = [] := source.elim (fresh c) fun same => same ▸ none
  rw [OutputField.aggregateNames filled, OutputField.projectNames projected, Composition.slotNames, plain]
  rfl

/-- Window fields are empty until windows are computed. -/
theorem outputsPending : OutputField.Pending (OutputField.ofKind fields .window) outputs := by
  intro entry field o listed
  obtain ⟨c, p, source, projected, filled⟩ := outputsFrom ok listed
  have plain : c.slots = [] := source.elim (fresh c) fun same => same ▸ none
  rw [OutputField.aggregatePending filled field nofun]
  exact OutputField.projectPending plain projected field nofun

end

theorem filterFewer (ok : q.filterGroups params outputs = .ok outputs') : outputs' ⊆ outputs := by
  unfold filterGroups at ok
  split at ok
  · cases ok
    exact List.Subset.refl _
  · exact Outcome.filterSubset ok

theorem filterSlotted (ok : q.filterGroups params outputs = .ok outputs')
    (slotted : Slotted names outputs) : Slotted names outputs' :=
  fun o listed => slotted o (filterFewer ok listed)

theorem windowSlotted {w w' : Windows} {field : OutputField × Nat}
    (ok : fillWindow (w, outputs) field = .ok (w', outputs')) (slotted : Slotted names outputs) :
    Slotted names outputs' := by
  obtain ⟨⟨w', values⟩, _, last⟩ := Outcome.bindOk.mp ok
  cases Outcome.pureOk.mp last
  intro o listed
  obtain ⟨⟨o, v⟩, member, rfl⟩ := List.mem_map.mp listed
  exact (Composition.slotNamesSet ..).trans (slotted o (List.of_mem_zip member).1)

theorem foldSlotted {w w' : Windows} {entries : List (OutputField × Nat)}
    (ok : entries.foldlM fillWindow (w, outputs) = .ok (w', outputs')) (slotted : Slotted names outputs) :
    Slotted names outputs' := by
  induction entries generalizing w outputs with
  | nil =>
      cases Outcome.pureOk.mp ok
      exact slotted
  | cons field entries ih =>
      rw [List.foldlM_cons] at ok
      obtain ⟨⟨w, outputs⟩, first, ok⟩ := Outcome.bindOk.mp ok
      exact ih ok (windowSlotted first slotted)

theorem windowsSlotted (ok : q.fillWindows fields params outputs = .ok outputs')
    (slotted : Slotted names outputs) : Slotted names outputs' := by
  obtain ⟨_, _, ok⟩ := Outcome.bindOk.mp ok
  obtain ⟨⟨w', outputs'⟩, ok, last⟩ := Outcome.bindOk.mp ok
  cases Outcome.pureOk.mp last
  exact foldSlotted ok slotted

/-- The output rows of a query once all of its fields are computed. -/
def computedRows (q : Select) (fields : List OutputField) (params : List Value) (rows : List Composition)
    (empty : Composition) : Outcome (List Output) := do
  let outputs ← q.outputs fields params rows empty
  let outputs ← q.filterGroups params outputs
  q.fillWindows fields params outputs

theorem computedSlotted (fresh : ∀ c ∈ rows, c.slots = []) (none : empty.slots = [])
    (ok : q.computedRows fields params rows empty = .ok outputs) : Slotted (fields.map (·.name)) outputs := by
  obtain ⟨outputs, formed, ok⟩ := Outcome.bindOk.mp ok
  obtain ⟨filtered, kept, ok⟩ := Outcome.bindOk.mp ok
  exact windowsSlotted ok (filterSlotted kept (outputsSlotted fresh none formed))

/-- The rows of a result are the projections of output rows. -/
theorem resultProjects (ok : q.result params rows empty = .ok r) :
    ∃ fields outputs, OutputField.ofFields empty q.fields = .ok fields ∧
      q.computedRows fields params rows empty = .ok outputs ∧ r.columns = fields.map (·.name) ∧
        ∀ row ∈ r.rows, ∃ o ∈ outputs, o.row.project = row := by
  obtain ⟨fields, expanded, ok⟩ := Outcome.bindOk.mp ok
  obtain ⟨outputs, formed, ok⟩ := Outcome.bindOk.mp ok
  obtain ⟨filtered, kept, ok⟩ := Outcome.bindOk.mp ok
  obtain ⟨computed, filled, ok⟩ := Outcome.bindOk.mp ok
  obtain ⟨sorted, order, ok⟩ := Outcome.bindOk.mp ok
  cases Outcome.pureOk.mp ok
  refine ⟨fields, computed, expanded,
    Outcome.bindOk.mpr ⟨outputs, formed, Outcome.bindOk.mpr ⟨filtered, kept, filled⟩⟩, rfl, fun row listed => ?_⟩
  have projected : row ∈ sorted.map (·.row.project) := by
    replace listed := Page.applySubset listed
    split at listed
    · rw [Grouping.firstsErase] at listed
      exact (Grouping.firstsSublist _ _).subset listed
    · exact listed
  obtain ⟨o, member, same⟩ := List.mem_map.mp projected
  exact ⟨o, Output.sortSubset order member, same⟩

/-- Each row of a result has one value for each column. -/
theorem resultWidth (fresh : ∀ c ∈ rows, c.slots = []) (none : empty.slots = [])
    (ok : q.result params rows empty = .ok r) : ∀ row ∈ r.rows, row.length = r.columns.length := by
  obtain ⟨fields, outputs, _, computed, columns, projects⟩ := resultProjects ok
  intro row listed
  obtain ⟨o, member, rfl⟩ := projects row listed
  rw [Composition.projectLength, computedSlotted fresh none computed o member, columns]

end SelectOf

end RelQuery
