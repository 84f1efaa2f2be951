import RelQuery.Proofs.Path.Edges
import RelQuery.Proofs.Schema.Drafts

/-! Star references with a column in the place of the star. The text that is put together takes the steps of the
star reference again, whether it ends in a star or in the name of a table, and selects the column at its end. -/
namespace RelQuery

namespace Marker

variable {cs lead rest : List Char} {m : Marker}

theorem leadingParts (found : leading? cs = some (m, rest)) : cs = m.chars ++ rest := by
  unfold leading? at found
  split at found <;> cases found <;> rfl

theorem leadingNone {a b : Char} {xs : List Char} (none : leading? (a :: b :: xs) = none) (ys : List Char) :
    leading? (a :: b :: ys) = .none := by
  cases found : leading? (a :: b :: ys) with
  | none => rfl
  | some answer =>
      obtain ⟨m, after⟩ := answer
      -- The two characters are a marker, whatever follows them.
      have parts := leadingParts found
      cases m <;> simp only [chars, List.cons_append, List.nil_append, List.cons.injEq] at parts <;>
        obtain ⟨rfl, rfl, _⟩ := parts <;> cases none

theorem splitParts (split : split? cs = some (lead, m, rest)) : cs = lead ++ m.chars ++ rest := by
  induction cs generalizing lead with
  | nil => cases split
  | cons c cs ih =>
      unfold split? at split
      split at split
      · rename_i found
        cases split
        exact leadingParts found
      · obtain ⟨⟨lead', m', rest'⟩, inner, same⟩ := Option.map_eq_some_iff.mp split
        cases same
        rw [ih inner]
        rfl

/-- The first marker of a text does not depend on what follows it. -/
theorem splitReplace (split : split? cs = some (lead, m, rest)) (other : List Char) :
    split? (lead ++ m.chars ++ other) = some (lead, m, other) := by
  induction cs generalizing lead with
  | nil => cases split
  | cons c cs ih =>
      unfold split? at split
      split at split
      · rename_i found
        cases split
        cases m <;> rfl
      · rename_i none
        obtain ⟨⟨lead', m', rest'⟩, inner, same⟩ := Option.map_eq_some_iff.mp split
        cases same
        have first : leading? (c :: (lead' ++ m.chars ++ other)) = .none := by
          rw [splitParts inner] at none
          cases lead' with
          | nil => cases m <;> exact leadingNone none _
          | cons d lead' => exact leadingNone none _
        rw [List.cons_append, List.cons_append, split?, first]
        exact congrArg (Option.map _) (ih inner)

/-- Texts without the characters that markers start with. -/
def Free (cs : List Char) : Prop := ∀ c ∈ cs, c ≠ '~' ∧ c ≠ '<'

theorem freeLeading {c : Char} (free : c ≠ '~' ∧ c ≠ '<') (cs : List Char) : leading? (c :: cs) = none := by
  unfold leading?
  split
  · rename_i same
    exact absurd (List.cons.inj same).1 free.1
  · rename_i same
    exact absurd (List.cons.inj same).1 free.2
  · rfl

theorem freeSplit (free : Free cs) : split? cs = none := by
  induction cs with
  | nil => rfl
  | cons c cs ih =>
      obtain ⟨own, others⟩ := List.forall_mem_cons.mp free
      rw [split?, freeLeading own, ih others]
      rfl

theorem freeLead (free : Free cs) (m : Marker) (rest : List Char) :
    split? (cs ++ m.chars ++ rest) = some (cs, m, rest) := by
  induction cs with
  | nil => cases m <;> rfl
  | cons c cs ih =>
      obtain ⟨own, others⟩ := List.forall_mem_cons.mp free
      rw [List.cons_append, List.cons_append, split?, freeLeading own, ih others]
      rfl

end Marker

namespace TableDraft

variable {name : String}

theorem nameParts (named : IsName name) : ∀ c ∈ name.toList, isNamePart c = true := by
  unfold IsName checkName at named
  split at named
  · cases named
  · rename_i c rest split
    split at named
    · cases named
    · rename_i start
      split at named
      · rename_i all
        rw [split]
        refine List.forall_mem_cons.mpr ⟨?_, List.all_eq_true.mp all⟩
        have start : isNameStart c = true := by simpa using start
        simp only [isNameStart, isNamePart, Char.isAlphanum, Bool.or_eq_true] at start ⊢
        exact start.imp .inl id
      · cases named

theorem nameFree (named : IsName name) : Marker.Free name.toList := by
  intro c member
  have part := nameParts named c member
  constructor <;> rintro rfl <;> exact absurd part (by decide)

theorem namePlain (named : IsName name) : Path.isPath name = false := by
  rw [Path.isPath, Path.split?, Marker.freeSplit (nameFree named)]
  rfl

theorem nameStarless (named : IsName name) : '*' ∉ name.toList := by
  intro member
  exact absurd (nameParts named _ member) (by decide)

end TableDraft

namespace PathScope

def stemChars (cs : List Char) : List Char :=
  match cs.reverse with
  | '*' :: rest => rest.reverse
  | _ => cs ++ Marker.outgoing.chars

section
variable {cs : List Char}

theorem stemStar {rest : List Char} (ends : cs.reverse = '*' :: rest) : stemChars cs = rest.reverse := by
  simp only [stemChars, ends]

theorem stemOther (other : ∀ rest, cs.reverse = '*' :: rest → False) :
    stemChars cs = cs ++ Marker.outgoing.chars := by
  rw [stemChars]
  split
  · rename_i ends
    exact (other _ ends).elim
  · rfl

theorem stemStarless (starless : '*' ∉ cs) : stemChars cs = cs ++ Marker.outgoing.chars :=
  stemOther fun _ ends => starless (List.mem_reverse.mp (ends ▸ List.mem_cons_self))

end

theorem stemEq (reference : String) : stem reference = String.ofList (stemChars reference.toList) := by
  rw [stem]
  split
  · rename_i ends
    rw [stemStar ends]
  · rename_i other
    rw [stemOther other, String.ofList_append, String.ofList_toList]

theorem stemAfter (lead rest : List Char) (m : Marker) :
    stemChars (lead ++ m.chars ++ rest) = lead ++ m.chars ++ stemChars rest := by
  cases reversed : rest.reverse with
  | nil =>
      cases List.reverse_eq_nil_iff.mp reversed
      have last : ∃ c before, (lead ++ m.chars).reverse = c :: before ∧ c ≠ '*' := by
        cases m <;> simp [Marker.chars]
      obtain ⟨c, before, ends, apart⟩ := last
      rw [List.append_nil, stemOther fun _ same => apart (List.cons.inj (ends.symm.trans same)).1]
      rfl
  | cons c before =>
      have ends : (lead ++ m.chars ++ rest).reverse = c :: (before ++ (lead ++ m.chars).reverse) := by
        rw [List.reverse_append, reversed, List.cons_append]
      by_cases star : c = '*'
      · subst star
        rw [stemStar ends, stemStar reversed]
        simp
      · rw [stemOther fun _ same => star (List.cons.inj (ends.symm.trans same)).1,
          stemOther fun _ same => star (List.cons.inj (reversed.symm.trans same)).1, List.append_assoc _ rest]

/-- The steps of a reference are those of its stem, with a column after it. -/
theorem stemStep {cs key rest : List Char} {m : Marker} (split : Marker.split? cs = some (key, m, rest))
    (column : List Char) : Marker.split? (stemChars cs ++ column) = some (key, m, stemChars rest ++ column) := by
  rw [Marker.splitParts split, stemAfter, List.append_assoc]
  exact Marker.splitReplace split _

end PathScope

namespace Binding

open PathScope

variable {c : Catalog} {database column : String} {base : Option String} {b last : Binding}

/-- What a binding becomes when a column takes the place of the star at the end of what it selects. -/
def extend (b : Binding) (column : String) : Binding :=
  { b with target.select := stem b.target.select ++ column }

theorem stemAll : stem allColumns = "" := by decide +kernel

theorem extendStar (star : b.selectsAll = true) : b.extend column = { b with target.select := column } := by
  have all : b.target.select = allColumns := by simpa [selectsAll] using star
  rw [extend, all, stemAll, String.empty_append]

theorem stemOfList (rest : List Char) : stem (String.ofList rest) ++ column =
    String.ofList (stemChars rest ++ column.toList) := by
  rw [stemEq, String.toList_ofList, String.ofList_append, String.ofList_toList]

theorem incomingName (registered : Catalog.Registered c) {source field select : String}
    (ok : incomingEdge c database base field source select = .ok b) : TableDraft.IsName source := by
  obtain ⟨_, _, edge, _⟩ := incomingIff.mp ok
  obtain ⟨_, found, _⟩ := Outcome.bindOk.mp edge
  exact (Catalog.registeredNames registered found).1

section
variable (registered : Catalog.Registered c) (named : TableDraft.IsName column)
include registered

theorem resolveExtended {base : Option String} {b : Binding} {cs : List Char}
    (ok : resolveChars c database base cs = .ok b) :
    resolveChars c database base (stemChars cs ++ column.toList) = .ok (b.extend column) := by
  rcases split : Marker.split? cs with _ | ⟨key, marker, rest⟩
  · rw [resolveUnmarked split] at ok
    exact absurd ok Outcome.refuseOk
  · have split' := stemStep split column.toList
    cases marker with
    | outgoing =>
        rw [resolveOutward split] at ok
        obtain ⟨table, target, primary, given, edge, rfl⟩ := outgoingIff.mp ok
        rw [resolveOutward split']
        refine outgoingIff.mpr ⟨table, target, primary, given, edge, ?_⟩
        rw [extend, stemOfList]
    | incoming =>
        rw [resolveInward split] at ok
        obtain ⟨⟨source, select⟩, arrived, ok⟩ := Outcome.bindOk.mp ok
        have arrived' : arrival c database (stemChars rest ++ column.toList) =
            .ok (source, stem select ++ column) := by
          rw [arrival] at arrived
          split at arrived
          · cases arrived
            have name := incomingName registered ok
            have free := TableDraft.nameFree name
            have starless := TableDraft.nameStarless name
            rw [String.toList_ofList] at free starless
            rw [stemStarless starless, arrival, Marker.freeLead free]
            simp only [String.ofList_toList, stemAll, String.empty_append]
          · rename_i there
            cases arrived
            rw [arrival, stemStep there, stemOfList]
          · rename_i there
            obtain ⟨inner, found, same⟩ := Outcome.bindOk.mp arrived
            cases Outcome.pureOk.mp same
            have shorter : rest.length < cs.length := Marker.splitShorter split
            simp only [arrival, stemStep there, resolveExtended found, stemOfList]
            rfl
        rw [resolveInward split', arrived']
        obtain ⟨owner, primary, edge, given, rfl⟩ := incomingIff.mp ok
        exact incomingIff.mpr ⟨owner, primary, edge, given, rfl⟩
termination_by cs.length

theorem extendContinues {next : Binding} (continues : Continues c database b next) :
    Continues c database (b.extend column) (next.extend column) := by
  obtain ⟨nested, found⟩ := continues
  obtain ⟨⟨key, marker, rest⟩, split⟩ := Option.isSome_iff_exists.mp nested
  have select : (b.extend column).target.select.toList =
      stemChars b.target.select.toList ++ column.toList := by
    rw [extend, stemEq, String.toList_append, String.toList_ofList]
  constructor
  · rw [isNested, Path.isPath, Path.split?, select, stemStep split]
    rfl
  · rw [resolve, select]
    exact resolveExtended registered found

include named

theorem terminalExtended {b : Binding} (ok : b.terminal c database = .ok last) (star : last.selectsAll = true) :
    (b.extend column).terminal c database = .ok { last with target.select := column } := by
  cases nested : b.isNested with
  | false =>
      rw [terminalFlat nested] at ok
      cases ok
      exact (extendStar star).symm ▸ terminalFlat (TableDraft.namePlain named)
  | true =>
      obtain ⟨next, found, ok⟩ := terminalNested nested ok
      have shorter : next.pending < b.pending := pendingLess nested found
      obtain ⟨nested', found'⟩ := extendContinues registered ⟨nested, found⟩
      rw [terminalNext nested' found']
      exact terminalExtended ok star
termination_by b.pending

end

end Binding

theorem PathScope.resolveColumn {s : PathScope} {name : Option String} {reference column : String}
    {base : PathBase} {binding last : Binding} (registered : Catalog.Registered s.catalog)
    (named : TableDraft.IsName column) (ok : s.resolve name reference = .ok (base, binding, last))
    (star : last.selectsAll = true) : s.resolve name (stem reference ++ column) =
      .ok (base, binding.extend column, { last with target.select := column }) := by
  obtain ⟨own, first, ends⟩ := resolveOk ok
  have first' : Binding.resolve s.catalog (s.databaseOf base) (some base.table) (stem reference ++ column) =
      .ok (binding.extend column) := by
    rw [Binding.resolve, stemEq, String.toList_append, String.toList_ofList]
    exact Binding.resolveExtended registered first
  have ends' := Binding.terminalExtended registered named ends star
  simp only [resolve, own, first', ends', bind, Except.bind]
  rfl

end RelQuery
