import RelQuery.Proofs.Expr.Reading
import RelQuery.Proofs.Select.Slots

/-! Rows while their slots are filled. A slot is appended or filled once, so what an expression reads of a row,
source columns first, it still reads when later stages are done with the row. -/
namespace RelQuery

namespace Composition

/-- A composition over the sources of another, with the values of its slots. -/
structure Keeps (c c' : Composition) : Prop where
  sources : c'.sources = c.sources
  slots : ∀ name v, c.slot? name = some (.value v) → c'.slot? name = some (.value v)

variable {c c' c'' : Composition}

theorem keepsRefl (c : Composition) : c.Keeps c := ⟨rfl, fun _ _ => id⟩

theorem keepsTrans (first : c.Keeps c') (second : c'.Keeps c'') : c.Keeps c'' :=
  ⟨second.sources.trans first.sources, fun name v read => second.slots name v (first.slots name v read)⟩

theorem appendKeeps {more : List (String × Slot)} (sources : c'.sources = c.sources)
    (slots : c'.slots = c.slots ++ more) : c.Keeps c' := by
  refine ⟨sources, fun name v read => ?_⟩
  unfold slot? at read ⊢
  rw [slots, List.lookup_append, read]
  rfl

theorem pushKeeps (c : Composition) (name : String) (slot : Slot) : c.Keeps (c.pushSlot name slot) :=
  appendKeeps rfl rfl

theorem setKeeps {i : Nat} {n : String} (unset : c.slots[i]? = some (n, .unset)) (v : Value) :
    c.Keeps (c.setSlot i v) := by
  refine ⟨rfl, fun x u read => ?_⟩
  simp only [slot?, setSlot] at read ⊢
  generalize c.slots = ss at unset read
  induction ss generalizing i with
  | nil => cases read
  | cons s ss ih =>
      rw [List.lookup_cons] at read
      cases i with
      | zero =>
          cases unset
          rw [List.modify_zero_cons, List.lookup_cons]
          cases own : x == n with
          | true =>
              rw [own] at read
              cases read
          | false =>
              rw [own] at read
              exact read
      | succ i =>
          rw [List.modify_succ_cons, List.lookup_cons]
          cases own : x == s.1 with
          | true =>
              rw [own] at read
              exact read
          | false =>
              rw [own] at read
              exact ih unset read

end Composition

namespace Scope

variable {s s' : Scope}

theorem qualifiedKept (keeps : s.row.Keeps s'.row) (table name : String) :
    Outcome.Refines (s.column ⟨some table, name⟩) (s'.column ⟨some table, name⟩) := by
  intro v ok
  simp only [column] at ok ⊢
  split at ok
  · rename_i own
    rw [if_pos own]
    simp only [projected] at ok ⊢
    split at ok
    · rename_i read
      cases ok
      rw [keeps.slots _ _ read]
    · cases ok
    · cases ok
  · rename_i own
    rw [if_neg own]
    simp only [Composition.column, Composition.subRow?, keeps.sources] at ok ⊢
    exact ok

/-- What is read of a row, source columns first, is read of the row when more slots have values. -/
theorem columnKept (keeps : s.row.Keeps s'.row) (sourcesFirst : s.projectionFirst = false)
    (sourcesFirst' : s'.projectionFirst = false) (ref : ColumnRef) :
    Outcome.Refines (s.column ref) (s'.column ref) := by
  obtain ⟨table, name⟩ := ref
  cases table with
  | some table => exact qualifiedKept keeps table name
  | none =>
      intro v ok
      simp only [column, unqualified, sourcesFirst, sourcesFirst', Bool.false_eq_true, if_false] at ok ⊢
      obtain ⟨found, find, ok⟩ := Outcome.bindOk.mp ok
      have find' : s'.row.find name = .ok found := by
        rw [← find]
        simp only [Composition.find, Composition.owners, keeps.sources]
      refine Outcome.bindOk.mpr ⟨found, find', ?_⟩
      cases found with
      | some u => exact ok
      | none =>
          simp only [Composition.slotValue?] at ok ⊢
          cases read : s.row.slot? name with
          | none =>
              rw [read] at ok
              cases ok
          | some slot =>
              rw [read] at ok
              cases slot with
              | unset => cases ok
              | value w =>
                  rw [keeps.slots _ _ read]
                  exact ok

end Scope

theorem Expr.evalKept {c c' : Composition} (keeps : c.Keeps c') (e : Expr) (group : Option (List Composition))
    (params : List Value) : Outcome.Refines (e.eval ⟨c, group, params, false⟩) (e.eval ⟨c', group, params, false⟩) := by
  refine evalReads .refining e ⟨fun ref _ => Scope.columnKept keeps rfl rfl ref, rfl, ?_⟩
  cases group with
  | none => exact .none
  | some ms => exact .some (List.forall₂_same.mpr fun m _ ref _ => Outcome.Likeness.refining.refl _)

namespace OutputField

variable {fields : List OutputField} {params : List Value} {c c' : Composition} {f : OutputField}
  {o o' : Output} {entry : OutputField × Nat}

theorem pushKeeps (ok : pushTo params c f = .ok c') : c.Keeps c' := by
  unfold pushTo at ok
  split at ok
  · obtain ⟨v, _, last⟩ := Outcome.bindOk.mp ok
    cases Outcome.pureOk.mp last
    exact Composition.pushKeeps ..
  · cases ok
    exact Composition.pushKeeps ..

theorem projectKeeps (ok : project fields params c = .ok c') : c.Keeps c' := by
  induction fields generalizing c with
  | nil =>
      cases Outcome.pureOk.mp ok
      exact Composition.keepsRefl _
  | cons f fields ih =>
      obtain ⟨pushed, first, ok⟩ := Outcome.bindOk.mp ok
      exact Composition.keepsTrans (pushKeeps first) (ih ok)

/-- Direct fields see the slots before them, and have the values that they have on the whole row. -/
theorem projectDirect (ok : project fields params c = .ok c') {i : Nat} (there : fields[i]? = some f)
    (direct : f.kind = .direct) :
    ∃ v, c'.slots[c.slots.length + i]? = some (f.name, .value v) ∧ f.expr.eval (.ofRow c' params) = .ok v := by
  induction fields generalizing c i with
  | nil => cases there
  | cons g fields ih =>
      obtain ⟨pushed, first, ok⟩ := Outcome.bindOk.mp ok
      obtain ⟨slots, added, _⟩ := projectReserves ok
      cases i with
      | zero =>
          cases Option.some.inj there
          simp only [pushTo, direct] at first
          obtain ⟨v, own, last⟩ := Outcome.bindOk.mp first
          cases Outcome.pureOk.mp last
          have keeps := Composition.keepsTrans (Composition.pushKeeps c f.name (.value v)) (projectKeeps ok)
          refine ⟨v, ?_, Expr.evalKept keeps f.expr none params v own⟩
          rw [added, Composition.pushSlot, List.append_assoc]
          simp
      | succ i =>
          obtain ⟨s, one, _⟩ := pushReserves first
          have later := ih ok there
          rw [one, List.length_append, List.length_singleton, Nat.add_assoc, Nat.add_comm 1 i] at later
          exact later

theorem setsKeep {values : List (Nat × Value)} (apart : (values.map (·.1)).Nodup)
    (unset : ∀ v ∈ values, ∃ n, o.row.slots[v.1]? = some (n, .unset)) :
    o.row.Keeps (values.foldl (fun o (i, v) => o.setField i v) o).row := by
  induction values generalizing o with
  | nil => exact Composition.keepsRefl _
  | cons v values ih =>
      obtain ⟨own, others⟩ := List.nodup_cons.mp apart
      obtain ⟨⟨n, first⟩, rest⟩ := List.forall_mem_cons.mp unset
      refine Composition.keepsTrans (Composition.setKeeps first v.2)
        (ih (o := o.setField v.1 v.2) others fun u member => ?_)
      obtain ⟨n, pending⟩ := rest u member
      refine ⟨n, ?_⟩
      rw [← pending]
      exact List.getElem?_modify_ne _ _ fun same => own (List.mem_map.mpr ⟨u, member, same.symm⟩)

theorem setOwn {values : List (Nat × Value)} (apart : (values.map (·.1)).Nodup) {i : Nat} {v : Value}
    (listed : (i, v) ∈ values) {n : String} {s : Slot} (there : o.row.slots[i]? = some (n, s)) :
    (values.foldl (fun o (i, v) => o.setField i v) o).row.slots[i]? = some (n, .value v) := by
  induction values generalizing o s with
  | nil => cases listed
  | cons u values ih =>
      obtain ⟨own, others⟩ := List.nodup_cons.mp apart
      rw [List.foldl_cons]
      rcases List.mem_cons.mp listed with rfl | later
      · rw [setOther fun u member same => own (List.mem_map.mpr ⟨u, member, same⟩)]
        simp only [Output.setField, Composition.setSlot, List.getElem?_modify_eq, there]
        rfl
      · refine ih others later (s := s) ?_
        rw [← there]
        exact List.getElem?_modify_ne _ _ fun same => own (List.mem_map.mpr ⟨(i, v), later, same.symm⟩)

theorem setMembers (o : Output) (values : List (Nat × Value)) :
    (values.foldl (fun o (i, v) => o.setField i v) o).members = o.members := by
  induction values generalizing o with
  | nil => rfl
  | cons v values ih => exact ih _

/-- What a field that does not need the other output rows evaluates to for a row, or over its group. -/
def evalOver (params : List Value) (o : Output) (f : OutputField) : Outcome Value :=
  match f.kind with
  | .direct => f.expr.eval (.ofRow o.row params)
  | _ => f.expr.eval (o.scope params)

/-- The slot of a field has the value that the field evaluates to. -/
def HasValue (params : List Value) (o : Output) (entry : OutputField × Nat) : Prop :=
  ∃ v, o.row.slots[entry.2]? = some (entry.1.name, .value v) ∧ evalOver params o entry.1 = .ok v

theorem valueKept (has : HasValue params o entry) (keeps : o.row.Keeps o'.row) (members : o'.members = o.members)
    (slot : o'.row.slots[entry.2]? = o.row.slots[entry.2]?) : HasValue params o' entry := by
  obtain ⟨v, there, own⟩ := has
  refine ⟨v, slot.trans there, ?_⟩
  unfold evalOver at own ⊢
  split at own
  · exact Expr.evalKept keeps entry.1.expr none params v own
  · rw [Output.scope, members]
    exact Expr.evalKept keeps entry.1.expr o.members params v own

theorem slotNamed {i : Nat} {n : String} {s : Slot} (names : c.slotNames = fields.map (·.name))
    (field : fields[i]? = some f) (there : c.slots[i]? = some (n, s)) : n = f.name := by
  have name : c.slotNames[i]? = some n := by rw [Composition.slotNames, List.getElem?_map, there]; rfl
  rw [names, List.getElem?_map, field] at name
  exact (Option.some.inj name).symm

/-- Aggregate fields are evaluated before any of them has its value, and have the values that they have on the
whole row. -/
theorem aggregateValues (ok : aggregateInto fields params o = .ok o')
    (names : o.row.slotNames = fields.map (·.name)) (unset : Pending (ofKind fields .aggregate) [o]) :
    o.row.Keeps o'.row ∧ o'.members = o.members ∧ ∀ entry ∈ ofKind fields .aggregate, HasValue params o' entry := by
  obtain ⟨values, each, last⟩ := Outcome.bindOk.mp ok
  cases Outcome.pureOk.mp last
  have filled : List.Forall₂ (fun entry v => v.1 = entry.2 ∧ entry.1.expr.eval (o.scope params) = .ok v.2)
      (ofKind fields .aggregate) values := by
    refine (Outcome.mapMOk.mp each).imp fun entry v one => ?_
    obtain ⟨v, own, last⟩ := Outcome.bindOk.mp one
    cases Outcome.pureOk.mp last
    exact ⟨rfl, own⟩
  have places : values.map (·.1) = (ofKind fields .aggregate).map (·.2) := by
    rw [← List.forall₂_eq_eq_eq, List.forall₂_map_left_iff, List.forall₂_map_right_iff]
    exact filled.flip.imp fun _ _ one => one.1
  have apart : (values.map (·.1)).Nodup := places ▸ placesNodup fields .aggregate
  have pending : ∀ entry ∈ ofKind fields .aggregate, ∃ n, o.row.slots[entry.2]? = some (n, .unset) :=
    fun entry listed => unset entry listed o (List.mem_singleton.mpr rfl)
  have keeps : o.row.Keeps (values.foldl (fun o (i, v) => o.setField i v) o).row := by
    refine setsKeep apart fun v member => ?_
    obtain ⟨entry, listed, place, _⟩ := alikeMember filled member
    exact place ▸ pending entry listed
  refine ⟨keeps, setMembers o values, fun entry listed => ?_⟩
  obtain ⟨⟨i, v⟩, member, place, own⟩ := alikeMember filled.flip listed
  obtain ⟨n, there⟩ := pending entry listed
  obtain ⟨field, kind⟩ := kindField listed
  cases slotNamed names field there
  cases place
  refine ⟨v, setOwn apart member there, ?_⟩
  simp only [evalOver, kind, Output.scope, setMembers]
  exact Expr.evalKept keeps entry.1.expr o.members params v own

end OutputField

namespace SelectOf

variable {q : Select} {fields : List OutputField} {params : List Value} {rows : List Composition}
  {empty : Composition} {outputs : List Output}

/-- Before windows are computed, all other fields have their values. -/
theorem outputsValues (fresh : ∀ c ∈ rows, c.slots = []) (none : empty.slots = [])
    (ok : q.outputs fields params rows empty = .ok outputs) {o : Output} (listed : o ∈ outputs)
    {entry : OutputField × Nat} (field : entry ∈ fields.zipIdx) (kind : entry.1.kind ≠ .window) :
    OutputField.HasValue params o entry := by
  obtain ⟨c, p, source, projected, filled⟩ := outputsFrom ok listed
  have plain : c.slots = [] := source.elim (fresh c) fun same => same ▸ none
  have names : p.row.slotNames = fields.map (·.name) := by
    rw [OutputField.projectNames projected, Composition.slotNames, plain]
    rfl
  obtain ⟨keeps, members, values⟩ := OutputField.aggregateValues filled names fun entry listed o member => by
    cases List.mem_singleton.mp member
    exact OutputField.projectPending plain projected listed (by decide)
  have own : entry ∈ OutputField.ofKind fields entry.1.kind := List.mem_filter.mpr ⟨field, by simp⟩
  cases named : entry.1.kind with
  | window => exact absurd named kind
  | aggregate => exact values entry (named ▸ own)
  | direct =>
      rw [named] at own
      obtain ⟨v, there, value⟩ := OutputField.projectDirect projected (OutputField.kindField own).1 named
      rw [plain, List.length_nil, Nat.zero_add] at there
      refine OutputField.valueKept ⟨v, there, ?_⟩ keeps members (OutputField.aggregatePending filled own (by decide))
      rw [OutputField.evalOver, named]
      exact value

end SelectOf

end RelQuery
