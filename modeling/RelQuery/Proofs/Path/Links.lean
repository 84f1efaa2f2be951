import RelQuery.Path.Expansion

/-! The links that an expansion makes. A link is found by its key; later references may add selections to
it, but never change its name or the columns of the selections that it has. Every selection of a link
comes from a reference that was resolved along the edge of the link. -/
namespace RelQuery

/-- A reference with the name of the source that it starts from. -/
abbrev Reference := Option String × String

namespace Binding

def linkKey (b : Binding) (base : String) : LinkKey :=
  ⟨base, b.base.actingKey, b.target.actingKey, b.target.table⟩

end Binding

namespace Link

variable {l l' : Link} {select column : String}

/-- The columns that selections get, in order. -/
def generated (n : Nat) : List String := (List.range n).map fun i => "c" ++ toString (i + 1)

theorem attachCases (attached : l.attach select = (l', column)) :
    l'.selects.lookup select = some column ∧ (l' = l ∨
      l' = { l with selects := l.selects ++ [(select, column)] } ∧
        column = "c" ++ toString (l.selects.length + 1)) := by
  unfold attach at attached
  split at attached
  · rename_i found
    cases attached
    exact ⟨found, .inl rfl⟩
  · rename_i missing
    cases attached
    refine ⟨?_, .inr ⟨rfl, rfl⟩⟩
    rw [List.lookup_append, missing]
    simp

theorem generatedSucc (n : Nat) : generated (n + 1) = generated n ++ ["c" ++ toString (n + 1)] := by
  simp [generated, List.range_succ]

end Link

namespace Links

variable {ls ls' : Links} {entries entries' : List Link} {key key' : LinkKey} {l : Link}
  {select : String} {ref : ColumnRef}

def linkOf (entries : List Link) (key : LinkKey) : Option Link := entries.find? (·.key == key)

theorem linkKeyOf (found : linkOf entries key = some l) : l.key = key ∧ l ∈ entries := by
  exact ⟨by simpa using List.find?_some found, List.mem_of_find?_eq_some found⟩

/-- Links that are still there in others, possibly with more selections. -/
def Grows (entries entries' : List Link) : Prop :=
  ∀ key l, linkOf entries key = some l → ∃ l', linkOf entries' key = some l' ∧ l'.name = l.name ∧
    l.selects <+: l'.selects

theorem growsRefl (entries : List Link) : Grows entries entries :=
  fun _ l found => ⟨l, found, rfl, List.prefix_refl _⟩

theorem growsTrans {more : List Link} (first : Grows entries entries') (next : Grows entries' more) :
    Grows entries more := by
  intro key l found
  obtain ⟨l', found', name, selects⟩ := first key l found
  obtain ⟨l'', found'', name', selects'⟩ := next key l' found'
  exact ⟨l'', found'', name'.trans name, selects.trans selects'⟩

theorem growsAppend (entries more : List Link) : Grows entries (entries ++ more) := by
  intro key l found
  refine ⟨l, ?_, rfl, List.prefix_refl _⟩
  rw [linkOf, List.find?_append]
  rw [linkOf] at found
  rw [found, Option.some_or]

theorem attachToNone (missing : attachTo key select entries = none) : linkOf entries key = none := by
  induction entries with
  | nil => rfl
  | cons l entries ih =>
      unfold attachTo at missing
      split at missing
      · cases missing
      · rename_i other
        rw [linkOf, List.find?_cons_of_neg (by simpa using other)]
        exact ih (Option.map_eq_none_iff.mp missing)

theorem attachToSome (found : attachTo key select entries = some (entries', ref)) :
    ∃ front l l' rest column, entries = front ++ l :: rest ∧ l.key = key ∧
      (∀ other ∈ front, other.key ≠ key) ∧ l.attach select = (l', column) ∧
        entries' = front ++ l' :: rest ∧ ref = ⟨some l.name, column⟩ := by
  induction entries generalizing entries' with
  | nil => cases found
  | cons l entries ih =>
      unfold attachTo at found
      split at found
      · rename_i here
        generalize attached : l.attach select = answer at found
        obtain ⟨l', column⟩ := answer
        cases found
        exact ⟨[], l, l', entries, column, rfl, here, by simp, attached, rfl, rfl⟩
      · rename_i other
        obtain ⟨⟨rest', ref'⟩, found, same⟩ := Option.map_eq_some_iff.mp found
        cases same
        obtain ⟨front, l', l'', rest, column, rfl, own, others, attached, rfl, rfl⟩ := ih found
        refine ⟨l :: front, l', l'', rest, column, rfl, own, ?_, attached, rfl, rfl⟩
        simpa using ⟨other, others⟩

theorem linkOfMiddle {front rest : List Link} (others : ∀ other ∈ front, other.key ≠ l.key) :
    linkOf (front ++ l :: rest) l.key = some l := by
  rw [linkOf, List.find?_append, List.find?_eq_none.mpr fun other member => by
    simpa using others other member]
  simp

theorem linkOfOther {front rest : List Link} {l' : Link} (same : l'.key = l.key)
    (apart : key ≠ l.key) : linkOf (front ++ l' :: rest) key = linkOf (front ++ l :: rest) key := by
  have skip (i : Link) (own : i.key = l.key) : (i.key == key) = false := by
    rw [own]
    exact beq_eq_false_iff_ne.mpr (Ne.symm apart)
  simp [linkOf, List.find?_append, skip l rfl, skip l' same]

/-! What a selection that is attached leaves -/

/-- A selection and the column by which a link serves it. -/
def Serves (entries : List Link) (key : LinkKey) (select : String) (ref : ColumnRef) : Prop :=
  ∃ l column, linkOf entries key = some l ∧ l.selects.lookup select = some column ∧
    ref = ⟨some l.name, column⟩

theorem servesGrows (serves : Serves entries key select ref) (grows : Grows entries entries') :
    Serves entries' key select ref := by
  obtain ⟨l, column, found, served, rfl⟩ := serves
  obtain ⟨l', found', name, more, selects⟩ := grows key l found
  refine ⟨l', column, found', ?_, by rw [name]⟩
  rw [← selects, List.lookup_append, served, Option.some_or]

theorem servesOnce {ref' : ColumnRef} (serves : Serves entries key select ref)
    (serves' : Serves entries key select ref') : ref = ref' := by
  obtain ⟨l, column, found, served, rfl⟩ := serves
  obtain ⟨l', column', found', served', rfl⟩ := serves'
  cases found.symm.trans found'
  cases served.symm.trans served'
  rfl

variable {base : String} {database : Option String} {b : Binding}

theorem attachCases (attached : ls.attach base database b = (ls', ref)) :
    (∃ front l l' rest column, ls.entries = front ++ l :: rest ∧ l.key = b.linkKey base ∧
        (∀ other ∈ front, other.key ≠ l.key) ∧ l.attach b.target.select = (l', column) ∧
          ls'.entries = front ++ l' :: rest ∧ ref = ⟨some l.name, column⟩) ∨
      linkOf ls.entries (b.linkKey base) = none ∧ ∃ n l' column,
        Link.attach ⟨b.linkKey base, database, nameOf n, []⟩ b.target.select = (l', column) ∧
          ls'.entries = ls.entries ++ [l'] ∧ ref = ⟨some (nameOf n), column⟩ := by
  unfold attach at attached
  simp only at attached
  split at attached
  · rename_i entries' ref' found
    cases attached
    obtain ⟨front, l, l', rest, column, split, own, others, extended, last, named⟩ :=
      attachToSome found
    exact .inl ⟨front, l, l', rest, column, split, own, own ▸ others, extended, last, named⟩
  · rename_i missing
    generalize made : Link.attach _ b.target.select = answer at attached
    obtain ⟨l', column⟩ := answer
    cases attached
    exact .inr ⟨attachToNone missing, _, l', column, made, rfl, rfl⟩

theorem attachServes (attached : ls.attach base database b = (ls', ref)) :
    Grows ls.entries ls'.entries ∧ Serves ls'.entries (b.linkKey base) b.target.select ref := by
  rcases attachCases attached with
    ⟨front, l, l', rest, column, split, own, others, extended, last, rfl⟩ |
    ⟨missing, n, l', column, made, last, rfl⟩
  · obtain ⟨served, same | ⟨same, _⟩⟩ := Link.attachCases extended
    · subst same
      rw [last, split, ← own]
      exact ⟨growsRefl _, l', column, linkOfMiddle others, served, rfl⟩
    · have key : l'.key = l.key := by rw [same]
      have found : linkOf (front ++ l' :: rest) l.key = some l' := by
        rw [← key]
        exact linkOfMiddle (key ▸ others)
      rw [last, split, ← own]
      refine ⟨fun other i there => ?_, l', column, found, served, by rw [same]⟩
      by_cases here : other = l.key
      · rw [here, linkOfMiddle others] at there
        cases there
        refine ⟨l', here ▸ found, by rw [same], ?_⟩
        rw [same]
        exact List.prefix_append _ _
      · exact ⟨i, (linkOfOther key here).trans there, rfl, List.prefix_refl _⟩
  · obtain ⟨served, same⟩ := Link.attachCases made
    have made : l'.key = b.linkKey base ∧ l'.name = nameOf n := by
      rcases same with same | ⟨same, _⟩
      · rw [same]
        exact ⟨rfl, rfl⟩
      · rw [same]
        exact ⟨rfl, rfl⟩
    rw [last]
    refine ⟨growsAppend _ _, l', column, ?_, served, by rw [made.2]⟩
    rw [linkOf] at missing ⊢
    rw [List.find?_append, missing]
    simp [made.1]

/-- A link is found by its key or added behind the others. -/
theorem attachKeys (ls : Links) (base : String) (database : Option String) (b : Binding) :
    (ls.attach base database b).1.entries.map Link.key =
      if b.linkKey base ∈ ls.entries.map Link.key then ls.entries.map Link.key
      else ls.entries.map Link.key ++ [b.linkKey base] := by
  generalize attached : ls.attach base database b = answer
  obtain ⟨ls', ref⟩ := answer
  rcases attachCases attached with
    ⟨front, l, l', rest, column, split, own, others, extended, last, _⟩ |
    ⟨missing, n, l', column, made, last, _⟩
  · have key : l'.key = l.key := by
      obtain ⟨_, same | ⟨same, _⟩⟩ := Link.attachCases extended <;> rw [same]
    simp only [last]
    rw [split, ← own, if_pos (by simp)]
    simp [key]
  · have key : l'.key = b.linkKey base := by
      obtain ⟨_, same | ⟨same, _⟩⟩ := Link.attachCases made <;> rw [same]
    have fresh : b.linkKey base ∉ ls.entries.map Link.key := by
      intro there
      obtain ⟨l, listed, own⟩ := List.mem_map.mp there
      simpa [own] using List.find?_eq_none.mp missing l listed
    simp only [last]
    rw [if_neg fresh, List.map_append, List.map_singleton, key]

/-! What every link comes from -/

/-- A link whose name and columns are numbered and whose selections were each made for a purpose. -/
structure Made (purpose : LinkKey → Option String → String → Prop) (l : Link) : Prop where
  named : ∃ n, l.name = nameOf n
  columns : l.selects.map (·.2) = Link.generated l.selects.length
  purposes : ∀ entry ∈ l.selects, purpose l.key l.database entry.1
  used : l.selects ≠ []

variable {purpose : LinkKey → Option String → String → Prop}

theorem madeMore {column : String} (named : ∃ n, l.name = nameOf n)
    (columns : l.selects.map (·.2) = Link.generated l.selects.length)
    (purposes : ∀ entry ∈ l.selects, purpose l.key l.database entry.1)
    (here : purpose l.key l.database select)
    (numbered : column = "c" ++ toString (l.selects.length + 1)) :
    Made purpose { l with selects := l.selects ++ [(select, column)] } := by
  refine ⟨named, ?_, fun entry member => ?_, by simp⟩
  · simp [columns, numbered, Link.generatedSucc]
  · rcases List.mem_append.mp member with old | added
    · exact purposes entry old
    · cases List.mem_singleton.mp added
      exact here

theorem attachMade (made : ∀ l ∈ ls.entries, Made purpose l)
    (own : ∀ l ∈ ls.entries, l.key = b.linkKey base → purpose l.key l.database b.target.select)
    (new : purpose (b.linkKey base) database b.target.select)
    (attached : ls.attach base database b = (ls', ref)) : ∀ l ∈ ls'.entries, Made purpose l := by
  intro i member
  rcases attachCases attached with
    ⟨front, l, l', rest, column, split, key, others, attach, last, rfl⟩ |
    ⟨missing, n, l', column, attach, last, rfl⟩
  · have there : l ∈ ls.entries := by simp [split]
    rw [last] at member
    have kept : i ∈ ls.entries ∨ i = l' := by
      rw [split]
      simp only [List.mem_append, List.mem_cons] at member ⊢
      rcases member with first | same | later
      · exact .inl (.inl first)
      · exact .inr same
      · exact .inl (.inr (.inr later))
    rcases kept with old | same
    · exact made i old
    · rw [same]
      obtain ⟨_, same | ⟨same, numbered⟩⟩ := Link.attachCases attach
      · rw [same]
        exact made l there
      · rw [same]
        exact madeMore (made l there).named (made l there).columns (made l there).purposes (own l there key) numbered
  · rw [last] at member
    rcases List.mem_append.mp member with old | added
    · exact made i old
    · rw [List.mem_singleton.mp added]
      obtain ⟨served, same | ⟨same, numbered⟩⟩ := Link.attachCases attach
      · rw [same] at served
        cases served
      · rw [same]
        exact madeMore ⟨n, rfl⟩ (by simp [Link.generated]) (by simp) new numbered

end Links

end RelQuery
