import RelQuery.Proofs.Path.Reversal

/-! Steps of references make them shorter. What a step selects stands behind the first marker of its text or behind
the second, so it has fewer markers, also where the characters of two markers overlap. The number of markers
therefore bounds the steps to the last one, and the steps that an incoming step has to ask for the table between
them, whatever edges the catalog has. -/
namespace RelQuery

namespace Marker

variable {cs rest : List Char}

/-- Reading a text up to a marker leaves another one. -/
def Leaves (cs rest : List Char) : Prop := ∃ lead m, split? cs = some (lead, m, rest)

/-- How many markers are read in a text one after another. -/
def count (cs : List Char) : Nat := (Trail.ofChars cs).steps.length

/-- At how many places of a text a marker stands, one that shares a character with the marker before it among
them. -/
def places : List Char → Nat
  | [] => 0
  | c :: cs => (if (leading? (c :: cs)).isSome then 1 else 0) + places cs

theorem countLeaves (leaves : Leaves cs rest) : count cs = count rest + 1 := by
  obtain ⟨lead, m, split⟩ := leaves
  rw [count, Trail.ofCharsEq, split]
  rfl

theorem countZero (zero : count cs = 0) : split? cs = none := by
  cases split : split? cs with
  | none => rfl
  | some found =>
      obtain ⟨lead, m, rest⟩ := found
      rw [countLeaves ⟨lead, m, split⟩] at zero
      cases zero

theorem placesAppend (lead cs : List Char) : places cs ≤ places (lead ++ cs) := by
  induction lead with
  | nil => exact Nat.le_refl _
  | cons c lead ih => exact Nat.le_trans ih (Nat.le_add_left _ _)

theorem placesLeaves (leaves : Leaves cs rest) : places rest < places cs := by
  obtain ⟨lead, m, split⟩ := leaves
  have own : places rest < places (m.chars ++ rest) := by
    have behind := placesAppend (m.chars.drop 1) rest
    cases m <;> simp only [chars, List.drop_succ_cons, List.drop_zero, List.cons_append, List.nil_append,
      places, leading?, Option.isSome_some, if_true] at behind ⊢ <;> omega
  rw [splitParts split, List.append_assoc]
  exact Nat.lt_of_lt_of_le own (placesAppend lead _)

/-- A proper suffix with fewer markers, however they are counted. -/
structure Shorter (cs rest : List Char) : Prop where
  suffix : ∃ front, front ≠ [] ∧ cs = front ++ rest
  count : count rest < count cs
  places : places rest < places cs

theorem leavesShorter (leaves : Leaves cs rest) : Shorter cs rest := by
  refine ⟨?_, by rw [countLeaves leaves]; exact Nat.lt_succ_self _, placesLeaves leaves⟩
  obtain ⟨lead, m, split⟩ := leaves
  exact ⟨lead ++ m.chars, by cases m <;> simp [chars], splitParts split⟩

theorem shorterTrans {last : List Char} (first : Shorter cs rest) (next : Shorter rest last) : Shorter cs last := by
  obtain ⟨front, some, same⟩ := first.suffix
  obtain ⟨front', _, same'⟩ := next.suffix
  refine ⟨⟨front ++ front', by simp [some], ?_⟩, Nat.lt_trans next.count first.count,
    Nat.lt_trans next.places first.places⟩
  rw [same, same', List.append_assoc]

theorem leavesAlong (leaves : Relation.TransGen Leaves cs rest) : Shorter cs rest := by
  induction leaves with
  | single leaves => exact leavesShorter leaves
  | tail _ leaves ih => exact shorterTrans ih (leavesShorter leaves)

end Marker

namespace Binding

open Marker

variable {c : Catalog} {database reference : String} {base : Option String} {b : Binding}
  {cs : List Char}

/-- A step selects every column, or what its text leaves after one marker or after two. -/
theorem selectLeaves (ok : resolveChars c database base cs = .ok b) : (∃ rest, Leaves cs rest) ∧
    (b.target.select = allColumns ∨ Relation.TransGen Leaves cs b.target.select.toList) := by
  rcases split : split? cs with _ | ⟨key, marker, rest⟩
  · rw [resolveUnmarked split] at ok
    exact absurd ok Outcome.refuseOk
  · have leaves : Leaves cs rest := ⟨key, marker, split⟩
    refine ⟨⟨rest, leaves⟩, ?_⟩
    cases marker with
    | outgoing =>
        rw [resolveOutward split] at ok
        rw [resolveOutgoingSelect ok, String.toList_ofList]
        exact .inr (.single leaves)
    | incoming =>
        rw [resolveInward split] at ok
        obtain ⟨⟨source, select⟩, arrived, ok⟩ := Outcome.bindOk.mp ok
        rw [incomingEdgeSelect ok]
        rw [arrival] at arrived
        split at arrived
        · cases arrived
          exact .inl rfl
        · rename_i there
          cases arrived
          rw [String.toList_ofList]
          exact .inr (.tail (.single leaves) ⟨_, _, there⟩)
        · obtain ⟨inner, _, same⟩ := Outcome.bindOk.mp arrived
          cases Outcome.pureOk.mp same
          rw [String.toList_ofList]
          exact .inr (.single leaves)

/-- A step selects every column or a proper suffix of its text, with fewer markers. -/
theorem selectFewer (ok : resolve c database base reference = .ok b) :
    (b.target.select = allColumns ∨
      ∃ front, front ≠ [] ∧ reference.toList = front ++ b.target.select.toList) ∧
      Path.markers b.target.select < Path.markers reference ∧
        places b.target.select.toList < places reference.toList := by
  obtain ⟨⟨rest, leaves⟩, all | suffix⟩ := selectLeaves ok
  · have fewer := leavesShorter leaves
    have unmarked : count allColumns.toList = 0 ∧ places allColumns.toList = 0 := by decide +kernel
    refine ⟨.inl all, ?_, ?_⟩
    · rw [Path.markers, all]
      exact Nat.lt_of_le_of_lt (Nat.le_of_eq unmarked.1) (Nat.zero_lt_of_lt fewer.count)
    · rw [all]
      exact Nat.lt_of_le_of_lt (Nat.le_of_eq unmarked.2) (Nat.zero_lt_of_lt fewer.places)
  · have fewer := leavesAlong suffix
    exact ⟨.inr fewer.suffix, fewer.count, fewer.places⟩

/-! Budgets for the steps to the last one, and for the steps within a step -/

/-- The last step of the reference that a binding begins, if some number of passes is enough to come to it. -/
def terminalWithin (c : Catalog) (database : String) (passes : Nat) (b : Binding) : Option (Outcome Binding) :=
  if b.isNested then
    match passes with
    | 0 => none
    | passes + 1 =>
        match resolve c database (some b.target.table) b.target.select with
        | .error e => some (.error e)
        | .ok next => terminalWithin c database passes next
  else some (.ok b)

theorem flatUnmarked (none : Path.markers b.target.select = 0) : b.isNested = false := by
  rw [isNested, Path.isPath, Path.split?, countZero none]
  rfl

theorem terminalEq (b : Binding) : b.terminal c database =
    if b.isNested then do (← resolve c database (some b.target.table) b.target.select).terminal c database
    else .ok b := by
  cases nested : b.isNested with
  | false => exact terminalFlat nested
  | true =>
      rw [if_pos rfl]
      cases found : resolve c database (some b.target.table) b.target.select with
      | ok next => exact terminalNext nested found
      | error e =>
          rw [terminal, dif_pos nested]
          split
          · rename_i failed
            exact found.symm.trans failed ▸ rfl
          · rename_i same
            cases found.symm.trans same

/-- The last step is reached, or the way to it refused, in as many passes as the selected reference has markers. -/
theorem terminalPasses {b : Binding} {passes : Nat} (enough : Path.markers b.target.select ≤ passes) :
    terminalWithin c database passes b = some (b.terminal c database) := by
  cases nested : b.isNested with
  | false =>
      rw [terminalFlat nested, terminalWithin.eq_def, nested]
      rfl
  | true =>
      rw [terminalEq, terminalWithin.eq_def, nested]
      cases passes with
      | zero => cases nested.symm.trans (flatUnmarked (Nat.le_zero.mp enough))
      | succ passes =>
          cases found : resolve c database (some b.target.table) b.target.select with
          | error e => rfl
          | ok next =>
              have fewer := (selectFewer found).2.1
              exact terminalPasses (Nat.le_of_lt_succ (Nat.lt_of_lt_of_le fewer enough))
termination_by passes

/-- The first step of a text, if some number of calls is enough for the steps that it asks for the table between
them and it. -/
def resolveWithin (c : Catalog) (database : String) (calls : Nat) (base : Option String)
    (reference : List Char) : Option (Outcome Binding) :=
  match split? reference with
  | none => some (.refuse (.notArrow (String.ofList reference)))
  | some (key, .outgoing, rest) =>
      some (resolveOutgoing c database base (String.ofList reference) key rest)
  | some (key, .incoming, rest) =>
      let edge := incomingEdge c database base (String.ofList key)
      match split? rest with
      | none => some (edge (String.ofList rest) allColumns)
      | some (table, .outgoing, select) => some (edge (String.ofList table) (String.ofList select))
      | some (_, .incoming, _) =>
          match calls with
          | 0 => none
          | calls + 1 => (resolveWithin c database calls none rest).map fun answer => do
              let inner ← answer
              edge inner.base.table (String.ofList rest)

/-- A step asks for no more steps than its text has markers behind the first one. -/
theorem resolveCalls {base : Option String} {cs : List Char} {calls : Nat} (enough : count cs ≤ calls + 1) :
    resolveWithin c database calls base cs = some (resolveChars c database base cs) := by
  rcases split : split? cs with _ | ⟨key, marker, rest⟩
  · rw [resolveUnmarked split, resolveWithin.eq_def, split]
  · cases marker with
    | outgoing => rw [resolveOutward split, resolveWithin.eq_def, split]
    | incoming =>
        rw [resolveInward split, arrival, resolveWithin.eq_def, split]
        rcases there : split? rest with _ | ⟨table, marker, select⟩
        · simp only [there]
          rfl
        · cases marker with
          | outgoing =>
              simp only [there]
              rfl
          | incoming =>
              have fewer : count cs = count rest + 1 := countLeaves ⟨_, _, split⟩
              have fewer' : count rest = count select + 1 := countLeaves ⟨_, _, there⟩
              cases calls with
              | zero => omega
              | succ calls =>
                  have inner : resolveWithin c database calls none rest =
                      some (resolveChars c database none rest) := resolveCalls (by omega)
                  simp only [there, inner, Option.map_some, bind_assoc]
                  rfl
termination_by calls

end Binding

end RelQuery
