import RelQuery.Mutation.Update
import RelQuery.Proofs.Mutation.Staging

/-! What assignments make of the rows of a composition. Each source that has assignments and a row gives
one changed copy of it; in each column the last assignment counts, evaluated on the composition as it
was read, and a column without assignments keeps its value. -/
namespace RelQuery.Update

def assigns (u : Update) (name : String) (a : Assignment) : Bool :=
  a.target.table.getD u.target.name == name

def assignsColumn (u : Update) (s : OpenSource) (i : Nat) (a : Assignment) : Bool :=
  u.assigns s.name a && s.columns.findIdx? (· == a.target.column) == some i

def assigned (u : Update) (name : String) : Bool := u.set.any (u.assigns name)

/-- The assignment that decides a column of a source. -/
def lastAssignment (u : Update) (s : OpenSource) (i : Nat) : Option Assignment :=
  u.set.reverse.find? (u.assignsColumn s i)

structure Rewritten (u : Update) (params : List Value) (s : OpenSource) (c : Composition)
    (old new : List Value) : Prop where
  width : new.length = old.length
  kept : ∀ i < old.length, u.lastAssignment s i = none → new[i]? = old[i]?
  set : ∀ i < old.length, ∀ a, u.lastAssignment s i = some a →
    ∃ v, a.value.eval (.ofRow c params) = .ok v ∧ new[i]? = some v

/-! Edits of one row -/

def applied (edits : List (Place × Value)) (row : Row) : Row :=
  edits.foldl (fun r e => (r.set e.1.column e.2).1) row

def editsFor (name : String) (edits : List (Place × Value)) : List (Place × Value) :=
  edits.filter (·.1.source == name)

variable {edits : List (Place × Value)} {row : Row} {rows : List (String × Row)} {c : Composition}
  {name other : String} {p : Place} {v : Value}

theorem appliedConcat (edits : List (Place × Value)) (e : Place × Value) (row : Row) :
    applied (edits ++ [e]) row = ((applied edits row).set e.1.column e.2).1 := List.foldl_concat ..

theorem appliedSame (edits : List (Place × Value)) (row : Row) :
    (applied edits row).id = row.id ∧ (applied edits row).version = row.version ∧
      (applied edits row).values.length = row.values.length := by
  induction edits using List.reverseRecOn with
  | nil => exact ⟨rfl, rfl, rfl⟩
  | append_singleton edits e ih =>
      rw [appliedConcat]
      exact ⟨ih.1, ih.2.1, by simpa [Row.set] using ih.2.2⟩

theorem appliedColumn {i : Nat} (inside : i < row.values.length) : (applied edits row).values[i]? =
    ((edits.reverse.find? (·.1.column == i)).map (·.2)).or row.values[i]? := by
  induction edits using List.reverseRecOn with
  | nil => rfl
  | append_singleton edits e ih =>
      have bound : i < (applied edits row).values.length := (appliedSame edits row).2.2 ▸ inside
      rw [appliedConcat, List.reverse_concat]
      by_cases here : e.1.column = i
      · simp [Row.set, here, bound]
      · simp [Row.set, here, ih]

/-! Copies of the rows of a composition -/

theorem editsConcat (edits : List (Place × Value)) (e : Place × Value) (name : String) :
    editsFor name (edits ++ [e]) =
      if e.1.source = name then editsFor name edits ++ [e] else editsFor name edits := by
  by_cases here : e.1.source = name <;> simp [editsFor, here]

theorem rowsForAny (name : String) (rows : List (String × Row)) :
    rows.any (·.1 == name) = !(rowsFor name rows).isEmpty := by
  induction rows with
  | nil => rfl
  | cons entry rows ih => by_cases here : entry.1 = name <;> simp [rowsForCons, here, ih]

theorem rowsForMap (name other : String) (f : Row → Row) (rows : List (String × Row)) :
    rowsFor name (rows.map fun (n, r) => if n == other then (n, f r) else (n, r)) =
      if other = name then (rowsFor name rows).map f else rowsFor name rows := by
  induction rows with
  | nil => simp
  | cons entry rows ih =>
      obtain ⟨n, r⟩ := entry
      rw [List.map_cons, rowsForCons, rowsForCons, ih]
      by_cases here : n = other
      · by_cases own : other = name <;> simp [here, own]
      · by_cases own : other = name
        · simp [here, ← own]
        · simp [here, own]

theorem assignNone (none : c.row? p.source = none) (rows : List (String × Row)) (v : Value) :
    assign c rows p v = rows := by
  rw [assign, none]

theorem assignOther (apart : p.source ≠ name) (rows : List (String × Row)) (v : Value) :
    rowsFor name (assign c rows p v) = rowsFor name rows := by
  rw [assign]
  split
  · rfl
  · split
    · rw [rowsForMap name p.source fun r => (r.set p.column v).1, if_neg apart]
    · rw [rowsForAppend, rowsForCons, if_neg apart, rowsForNil, List.append_nil]

theorem assignOwn (there : c.row? p.source = some row) (rows : List (String × Row)) (v : Value) :
    rowsFor p.source (assign c rows p v) =
      if rowsFor p.source rows = [] then [(row.set p.column v).1]
      else (rowsFor p.source rows).map fun r => (r.set p.column v).1 := by
  rw [assign, there, rowsForAny]
  cases before : rowsFor p.source rows with
  | nil => simp [rowsForAppend, rowsForCons, before]
  | cons first others =>
      have mapped := rowsForMap p.source p.source (fun r => (r.set p.column v).1) rows
      rw [if_pos rfl, before] at mapped
      exact mapped

def assignAll (c : Composition) (edits : List (Place × Value)) : List (String × Row) :=
  edits.foldl (fun rows (p, v) => assign c rows p v) []

theorem assignAllConcat (c : Composition) (edits : List (Place × Value)) (p : Place) (v : Value) :
    assignAll c (edits ++ [(p, v)]) = assign c (assignAll c edits) p v := List.foldl_concat ..

theorem assignAllRows (c : Composition) (edits : List (Place × Value)) (name : String) :
    rowsFor name (assignAll c edits) =
      if editsFor name edits = [] then []
      else (c.row? name).toList.map (applied (editsFor name edits)) := by
  induction edits using List.reverseRecOn with
  | nil => rfl
  | append_singleton edits e ih =>
      obtain ⟨p, v⟩ := e
      rw [assignAllConcat, editsConcat]
      by_cases here : p.source = name
      · subst here
        cases there : c.row? p.source with
        | none =>
            rw [there] at ih
            rw [assignNone there, ih]
            simp
        | some row =>
            -- The first edit of a source makes its copy, and the later ones change it.
            rw [assignOwn there, ih, there]
            by_cases first : editsFor p.source edits = []
            · simp [first, applied]
            · simp [first, appliedConcat]
      · rw [assignOther here, ih, if_neg here]

/-! Edits as assignments -/

theorem findAlike {α β : Type} {R : α → β → Prop} {p : α → Bool} {q : β → Bool} {xs : List α}
    {ys : List β} (alike : List.Forall₂ R xs ys) (same : ∀ x y, R x y → p x = q y) :
    Option.Rel R (xs.find? p) (ys.find? q) := by
  induction alike with
  | nil => exact .none
  | @cons x y _ _ one _ ih =>
      rw [List.find?_cons, List.find?_cons, ← same x y one]
      cases p x with
      | true => exact .some one
      | false => exact ih

theorem evalListOk {es : List Expr} {scope : Scope} {values : List Value} :
    Expr.evalList es scope = .ok values ↔
      List.Forall₂ (fun e v => Expr.eval e scope = .ok v) es values := by
  induction es generalizing values with
  | nil => simp [Expr.evalList, eq_comm]
  | cons e es ih =>
      simp only [Expr.evalList, Outcome.bindOk, Outcome.pureOk, List.forall₂_cons_left_iff, ih]
      constructor
      · rintro ⟨v, one, vs, others, rfl⟩
        exact ⟨v, vs, one, others, rfl⟩
      · rintro ⟨v, vs, one, others, rfl⟩
        exact ⟨v, one, vs, others, rfl⟩

section
variable {u : Update} {params : List Value} {r : JoinRun} {s : OpenSource} {a : Assignment}
  {places : List Place} {old copy : Row}

theorem sourceOwn (distinct : (r.sources.map (·.name)).Nodup) (member : s ∈ r.sources) :
    r.source? s.name = some s := by
  rw [JoinRun.source?]
  generalize r.sources = sources at distinct member
  induction sources with
  | nil => cases member
  | cons first sources ih =>
      rw [List.map_cons, List.nodup_cons] at distinct
      rcases List.mem_cons.mp member with rfl | inside
      · simp
      · have apart : first.name ≠ s.name :=
          fun same => distinct.1 (same ▸ List.mem_map_of_mem inside)
        simpa [apart] using ih distinct.2 inside

theorem placeOk (ok : place u.target.name r a = .ok p) : ∃ s, r.source? p.source = some s ∧
    p.source = a.target.table.getD u.target.name ∧
      s.columns.findIdx? (· == a.target.column) = some p.column := by
  simp only [place] at ok
  split at ok
  · cases ok
  · rename_i s found
    split at ok
    · cases ok
    · rename_i column
      cases ok
      exact ⟨s, found, rfl, column⟩

theorem placeAssigns (distinct : (r.sources.map (·.name)).Nodup) (member : s ∈ r.sources)
    (ok : place u.target.name r a = .ok p) : u.assigns s.name a = (p.source == s.name) ∧
      ∀ i, u.assignsColumn s i a = (p.source == s.name && p.column == i) := by
  obtain ⟨owner, found, name, column⟩ := placeOk ok
  refine ⟨by rw [assigns, name], fun i => ?_⟩
  rw [assignsColumn, assigns, ← name]
  by_cases here : p.source = s.name
  · rw [here, sourceOwn distinct member] at found
    cases found
    simp [column]
  · rw [beq_eq_false_iff_ne.mpr here, Bool.false_and, Bool.false_and]

theorem editsOf (located : u.set.mapM (place u.target.name r) = .ok places) {values : List Value}
    (evaluated : Expr.evalList (u.set.map (·.value)) (.ofRow c params) = .ok values) :
    List.Forall₂ (fun a e => place u.target.name r a = .ok e.1 ∧
      a.value.eval (.ofRow c params) = .ok e.2) u.set (places.zip values) := by
  have targets := Outcome.mapMOk.mp located
  have results := evalListOk.mp evaluated
  clear located evaluated
  generalize u.set = set at targets results
  induction targets generalizing values with
  | nil => exact .nil
  | cons one _ ih =>
      cases results with
      | cons value others => exact .cons ⟨one, value⟩ (ih others)

def copy? (set : List Assignment) (places : List Place) (params : List Value) (name : String)
    (c : Composition) : Option Row :=
  match changed set places params c with
  | .ok rows => (rowsFor name rows).head?
  | .error _ => none

structure Copied (u : Update) (params : List Value) (s : OpenSource) (c : Composition)
    (row copy : Row) : Prop where
  id : copy.id = row.id
  version : copy.version = row.version
  values : u.Rewritten params s c row.values copy.values

section
variable {set : List Assignment}

theorem changedRows (ok : changed set places params c = .ok rows) : ∃ values,
    Expr.evalList (set.map (·.value)) (.ofRow c params) = .ok values ∧
      rows = assignAll c (places.zip values) := by
  obtain ⟨values, evaluated, last⟩ := Outcome.bindOk.mp ok
  exact ⟨values, evaluated, (Outcome.pureOk.mp last).symm⟩

theorem copyOk (ok : changed set places params c = .ok rows) (name : String) :
    copy? set places params name c = (rowsFor name rows).head? := by
  simp only [copy?, ok]

theorem copyRows (ok : changed set places params c = .ok rows) (name : String) :
    rowsFor name rows = (copy? set places params name c).toList := by
  rw [copyOk ok]
  obtain ⟨values, _, rfl⟩ := changedRows ok
  rw [assignAllRows]
  split
  · rfl
  · cases c.row? name <;> rfl

theorem copyNone (absent : c.row? name = none) : copy? set places params name c = none := by
  cases ok : changed set places params c with
  | error e => simp only [copy?, ok]
  | ok rows =>
      rw [copyOk ok]
      obtain ⟨values, _, rfl⟩ := changedRows ok
      simp [assignAllRows, absent]

end

variable (distinct : (r.sources.map (·.name)).Nodup) (member : s ∈ r.sources)
  (located : u.set.mapM (place u.target.name r) = .ok places)
include distinct member located

theorem editsAny {values : List Value}
    (evaluated : Expr.evalList (u.set.map (·.value)) (.ofRow c params) = .ok values) :
    u.assigned s.name = !(editsFor s.name (places.zip values)).isEmpty := by
  have edits := editsOf located evaluated
  rw [assigned, editsFor]
  generalize places.zip values = pairs at edits
  generalize u.set = set at edits
  induction edits with
  | nil => rfl
  | @cons a e set pairs one _ ih =>
      rw [List.any_cons, (placeAssigns distinct member one.1).1, ih]
      cases here : e.1.source == s.name <;> simp [here]

theorem copyUnassigned (plain : u.assigned s.name = false) :
    copy? u.set places params s.name c = none := by
  cases ok : changed u.set places params c with
  | error e => simp only [copy?, ok]
  | ok rows =>
      rw [copyOk ok]
      obtain ⟨values, evaluated, rfl⟩ := changedRows ok
      have empty := editsAny distinct member located evaluated
      rw [plain, eq_comm, Bool.not_eq_false', List.isEmpty_iff] at empty
      simp [assignAllRows, empty]

theorem copyAssigned (targeted : u.assigned s.name = true) (there : c.row? s.name = some row)
    (ok : changed u.set places params c = .ok rows) :
    ∃ copy, copy? u.set places params s.name c = some copy ∧ u.Copied params s c row copy := by
  rw [copyOk ok]
  obtain ⟨values, evaluated, rfl⟩ := changedRows ok
  have nonempty := editsAny distinct member located evaluated
  rw [targeted, eq_comm, Bool.not_eq_true', List.isEmpty_eq_false_iff] at nonempty
  refine ⟨applied (editsFor s.name (places.zip values)) row, ?_, ?_⟩
  · simp [assignAllRows, nonempty, there]
  · obtain ⟨id, version, width⟩ := appliedSame (editsFor s.name (places.zip values)) row
    have found (i : Nat) : Option.Rel (fun a e => place u.target.name r a = .ok e.1 ∧
        a.value.eval (.ofRow c params) = .ok e.2) (u.lastAssignment s i)
        ((editsFor s.name (places.zip values)).reverse.find? (·.1.column == i)) := by
      rw [lastAssignment, editsFor, ← List.filter_reverse, List.find?_filter]
      refine findAlike (List.rel_reverse (editsOf located evaluated)) fun a e one => ?_
      rw [(placeAssigns distinct member one.1).2 i, Bool.decide_and, Bool.decide_eq_true,
        Bool.decide_eq_true]
    refine ⟨id, version, width, fun i inside unassigned => ?_, fun i inside a decides => ?_⟩
    · have last := found i
      rw [unassigned] at last
      rw [appliedColumn inside]
      generalize List.find? _ _ = edit at last
      cases last
      rfl
    · have last := found i
      rw [decides] at last
      rw [appliedColumn inside]
      generalize List.find? _ _ = edit at last
      cases last with
      | @some _ e one => exact ⟨e.2, one.2, rfl⟩

/-- The copy that counts for a row is that of the last composition with the row. -/
theorem lastCopy {cs : List Composition} (targeted : u.assigned s.name = true)
    (ok : ∀ c ∈ cs, ∃ rows, changed u.set places params c = .ok rows)
    (once : ∀ c ∈ cs, ∀ row, c.row? s.name = some row → row.id = old.id → row = old) :
    Option.Rel (fun copy c => u.Copied params s c old copy)
      ((cs.filterMap (copy? u.set places params s.name)).find? (·.id == old.id))
      (cs.find? fun c => c.row? s.name == some old) := by
  induction cs with
  | nil => exact .none
  | cons c cs ih =>
      have rest := ih (fun c' inside => ok c' (List.mem_cons_of_mem _ inside))
        fun c' inside => once c' (List.mem_cons_of_mem _ inside)
      cases there : c.row? s.name with
      | none =>
          rw [List.filterMap_cons_none (copyNone there), List.find?_cons_of_neg (by simp [there])]
          exact rest
      | some row =>
          obtain ⟨rows, changes⟩ := ok c List.mem_cons_self
          obtain ⟨copy, made, copied⟩ := copyAssigned distinct member located targeted there changes
          rw [List.filterMap_cons_some made]
          by_cases same : row.id = old.id
          · have here := once c List.mem_cons_self row there same
            subst here
            rw [List.find?_cons_of_pos (by simp [copied.id]), List.find?_cons_of_pos (by simp [there])]
            exact .some copied
          · have other : row ≠ old := fun here => same (congrArg Row.id here)
            rw [List.find?_cons_of_neg (by simp [copied.id, same]),
              List.find?_cons_of_neg (by simp [there, other])]
            exact rest

end

end RelQuery.Update
