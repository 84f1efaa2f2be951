import RelQuery.Proofs.Path.Cleared
import RelQuery.Proofs.Path.Delivered
import RelQuery.Proofs.Path.Shortening

/-! Queries below one another. The query of a link expands what is left of the references that the link serves, so
queries of links that nest in one another take the steps of one reference, and there are no more of them than
it has markers. A star reference stands for longer texts with a column each, but their steps are its own. -/
namespace RelQuery

open PathScope

namespace SelectOf

variable {c : Catalog} {database : String} {q q' : Select} {levels more : Nat}

/-- Another query is among the sources of a query, once the references of this one are expanded. -/
def Nests (c : Catalog) (database : String) (q q' : Select) : Prop :=
  ∃ X name, q.expand c database = .ok X ∧ .derived q' name ∈ X.allSources

/-- A nest of queries from a query down has some levels below it at most. -/
def NestsWithin (c : Catalog) (database : String) (levels : Nat) (q : Select) : Prop :=
  ∀ qs, (q :: qs).IsChain (Nests c database) → qs.length ≤ levels

theorem nestsMore (within : NestsWithin c database levels q) (enough : levels ≤ more) :
    NestsWithin c database more q :=
  fun qs chain => Nat.le_trans (within qs chain) enough

theorem nestsNone (within : NestsWithin c database 0 q) : ¬Nests c database q q' :=
  fun nests => absurd (within [q'] (.cons_cons nests (.singleton q'))) (by simp)

theorem nestsBelow (within : NestsWithin c database (levels + 1) q) (nests : Nests c database q q') :
    NestsWithin c database levels q' :=
  fun qs chain => Nat.le_of_succ_le_succ (within (q' :: qs) (.cons_cons nests chain))

theorem nestsEach (each : ∀ q', Nests c database q q' → ∃ less < levels, NestsWithin c database less q') :
    NestsWithin c database levels q := by
  intro qs chain
  cases qs with
  | nil => exact Nat.zero_le _
  | cons q' qs =>
      obtain ⟨nests, chain⟩ := List.isChain_cons_cons.mp chain
      obtain ⟨less, fewer, within⟩ := each q' nests
      exact Nat.lt_of_le_of_lt (within qs chain) fewer

end SelectOf

namespace Binding

variable {c : Catalog} {database column : String} {b b' next last : Binding} {qs : List Select}

/-- Queries of links, of which the first takes the step of a binding and each other one the step after that of
the one before it. -/
inductive Descends (c : Catalog) (database : String) : Binding → List Select → Prop where
  | last {b : Binding} {l : Link} (step : l.key = b.linkKey l.key.base) : Descends c database b [l.query]
  | next {b next : Binding} {l : Link} {qs : List Select} (step : l.key = b.linkKey l.key.base)
      (continues : Continues c database b next) (below : Descends c database next qs) :
      Descends c database b (l.query :: qs)

/-- There is a query for the first step and one for each marker of what is left at most. -/
theorem descendsFewer (descends : Descends c database b qs) :
    qs.length ≤ Path.markers b.target.select + 1 := by
  induction descends with
  | last step => exact Nat.le_add_left _ _
  | next step continues below ih =>
      have fewer := (selectFewer continues.2).2.1
      exact Nat.succ_le_succ (Nat.le_trans ih fewer)

theorem continuesExtended (registered : Catalog.Registered c) (named : TableDraft.IsName column)
    (ends : b.terminal c database = .ok last) (star : last.selectsAll = true)
    (continues : Continues c database (b.extend column) b') :
    ∃ next, Continues c database b next ∧ next.terminal c database = .ok last ∧ b' = next.extend column := by
  cases nested : b.isNested with
  | false =>
      rw [terminalFlat nested] at ends
      cases ends
      rw [extendStar star] at continues
      exact absurd ((TableDraft.namePlain named).symm.trans continues.1) (by decide)
  | true =>
      obtain ⟨next, found, ends⟩ := terminalNested nested ends
      cases continues.2.symm.trans (extendContinues registered ⟨nested, found⟩).2
      exact ⟨next, ⟨nested, found⟩, ends, rfl⟩

theorem descendsExtended (registered : Catalog.Registered c) (named : TableDraft.IsName column)
    (ends : b.terminal c database = .ok last) (star : last.selectsAll = true)
    (descends : Descends c database (b.extend column) qs) : Descends c database b qs := by
  generalize start : b.extend column = b' at descends
  induction descends generalizing b with
  | last step =>
      subst start
      exact .last step
  | next step continues below ih =>
      subst start
      obtain ⟨next, along, ends, rfl⟩ := continuesExtended registered named ends star continues
      exact .next step along (ih ends rfl)

end Binding

theorem Link.joinedMember {entries : List Link} {q : Select} {name : String}
    (member : .derived q name ∈ (entries.map Link.toJoin).map (·.source)) : ∃ l ∈ entries, l.query = q := by
  obtain ⟨_, joined, same⟩ := List.mem_map.mp member
  obtain ⟨l, listed, rfl⟩ := List.mem_map.mp joined
  cases same
  exact ⟨l, listed, rfl⟩

namespace PathScope

variable {s : PathScope} {allowed : Reference → Prop} {p w : Reference} {l : Link} {base : PathBase}
  {b : Binding} {qs : List Select} {q : Select} {paths : List Reference}

/-- The first step of a reference is along the edge of a link. -/
def Takes (s : PathScope) (p : Reference) (l : Link) (base : PathBase) (b : Binding) : Prop :=
  ∃ last, s.resolve p.1 p.2 = .ok (base, b, last) ∧ l.key = b.linkKey base.name

/-- What a reference stands for: itself, or one reference for each column of the table where its star is. -/
inductive StandsFor (s : PathScope) : Reference → Reference → Prop where
  | itself {p : Reference} : StandsFor s p p
  | column {name : Option String} {reference column : String} {base : PathBase} {b last : Binding}
      {table : TableSchema} (ok : s.resolve name reference = .ok (base, b, last)) (star : last.selectsAll = true)
      (there : s.catalog.lookup (s.databaseOf base) last.target.table = .ok table)
      (listed : column ∈ table.columnNames) : StandsFor s (name, reference) (name, stem reference ++ column)

theorem fieldStands {f : Field} (listed : f ∈ q.fields) (own : p ∈ s.fieldReferences f) :
    ∃ w ∈ q.references, s.StandsFor w p := by
  cases f with
  | star source => cases own
  | expr e rename =>
      have there : e ∈ q.exprs := by
        rw [SelectOf.exprsEq]
        exact List.mem_append_left _ (SelectOf.fieldExprsIff.mpr ⟨rename, listed⟩)
      have among {p : Reference} (own : p ∈ Expr.references e.nodes) : p ∈ q.references :=
        List.mem_flatMap.mpr ⟨e, there, own⟩
      cases e with
      | path name reference =>
          refine ⟨(name, reference), among List.mem_cons_self, ?_⟩
          rw [fieldReferences, starReferences?] at own
          split at own
          · cases List.mem_singleton.mp own
            exact .itself
          · rename_i ok
            split at own
            · rename_i star
              split at own
              · cases List.mem_singleton.mp own
                exact .itself
              · rename_i there
                obtain ⟨column, listed, rfl⟩ := List.mem_map.mp own
                exact .column ok star there listed
            · cases List.mem_singleton.mp own
              exact .itself
      | _ => exact ⟨p, among own, .itself⟩

theorem queryStands (member : p ∈ s.queryReferences q) : ∃ w ∈ q.references, s.StandsFor w p := by
  rw [SelectOf.referencesEq] at member
  rcases List.mem_append.mp member with field | clause
  · obtain ⟨f, listed, own⟩ := List.mem_flatMap.mp field
    exact fieldStands listed own
  · refine ⟨p, ?_, .itself⟩
    rw [SelectOf.references, SelectOf.exprsEq, List.flatMap_append]
    exact List.mem_append_right _ clause

/-- A nest of queries of links takes the steps of a reference that the first link serves. -/
theorem chainDescends (made : Links.Made (s.Purpose allowed) l)
    (chain : (l.query :: qs).IsChain (SelectOf.Nests s.catalog s.database)) : ∃ p base b, allowed p ∧
      s.Takes p l base b ∧ Binding.Descends s.catalog (s.databaseOf base) b (l.query :: qs) := by
  induction qs generalizing s l allowed with
  | nil =>
      obtain ⟨entry, listed⟩ := List.exists_mem_of_ne_nil _ made.used
      obtain ⟨p, base, b, last, here, ok, _, key, _, _⟩ := made.purposes entry listed
      exact ⟨p, base, b, here, ⟨last, ok, key⟩, .last (by rw [key]; rfl)⟩
  | cons q qs ih =>
      obtain ⟨⟨X, name, expanded, member⟩, chain⟩ := List.isChain_cons_cons.mp chain
      obtain ⟨entries, σ, rfl, made', _⟩ := Link.queryExpanded made.purposes expanded
      obtain ⟨l', listed, rfl⟩ : ∃ l' ∈ entries, l'.query = q := by
        rcases List.mem_append.mp member with own | added
        · cases List.mem_singleton.mp own
        · exact Link.joinedMember added
      obtain ⟨p', base', b', ⟨entry, there, path, rfl⟩, ⟨last', ok', _⟩, below⟩ := ih (made' l' listed) chain
      obtain ⟨p, base, b, last, here, ok, _, key, database, select⟩ := made.purposes entry there
      obtain ⟨own, first, _⟩ := resolveOk ok'
      -- The query of the link has the target of the step as its one source.
      cases own
      have within : (s.ofLink l).databaseOf ⟨l.key.target, l.database, l.key.target⟩ = s.databaseOf base := by
        rw [databaseOf, databaseOf, database, ofLink]
      have target : l.key.target = b.target.table := by rw [key, Binding.linkKey]
      rw [Option.getD_none, within, target, select] at first
      rw [Option.getD_none, within] at below
      refine ⟨p, base, b, here, ⟨last, ok, key⟩, .next (by rw [key]; rfl) ⟨?_, first⟩ below⟩
      rw [Binding.isNested, ← select, path]

theorem standsTakes (registered : s.catalog.Registered) (stands : s.StandsFor w p) (takes : s.Takes p l base b) :
    ∃ b', s.Takes w l base b' ∧ (Binding.Descends s.catalog (s.databaseOf base) b qs →
      Binding.Descends s.catalog (s.databaseOf base) b' qs) := by
  obtain ⟨last, ok, key⟩ := takes
  cases stands with
  | itself => exact ⟨b, ⟨last, ok, key⟩, id⟩
  | column ok' star there listed =>
      have named := (Catalog.registeredNames registered there).2 _ listed
      cases ok.symm.trans (resolveColumn registered named ok' star)
      exact ⟨_, ⟨_, ok', key⟩, Binding.descendsExtended registered named (resolveOk ok').2.2 star⟩

theorem chainWritten (registered : s.catalog.Registered) (made : Links.Made (s.Purpose allowed) l)
    (written : ∀ p, allowed p → ∃ w ∈ paths, s.StandsFor w p)
    (chain : (l.query :: qs).IsChain (SelectOf.Nests s.catalog s.database)) : ∃ w ∈ paths, ∃ base b,
      s.Takes w l base b ∧ Binding.Descends s.catalog (s.databaseOf base) b (l.query :: qs) := by
  obtain ⟨p, base, b, here, takes, descends⟩ := chainDescends made chain
  obtain ⟨w, listed, stands⟩ := written p here
  obtain ⟨b, takes, same⟩ := standsTakes registered stands takes
  exact ⟨w, listed, base, b, takes, same descends⟩

theorem takesFewer (takes : s.Takes w l base b) (descends : Binding.Descends s.catalog (s.databaseOf base) b qs) :
    qs.length ≤ Path.markers w.2 := by
  obtain ⟨last, ok, _⟩ := takes
  have fewer := (Binding.selectFewer (resolveOk ok).2.1).2.1
  exact Nat.le_trans (Binding.descendsFewer descends) fewer

end PathScope

namespace Statement

/-- The references of a statement as they are written. -/
def paths : Statement → List Reference
  | select q => q.references
  | insert _ => []
  | update u => updateReferences u
  | delete d => d.condition.toList.flatMap exprReferences

theorem referenceStands {s : Statement} {scope : PathScope} {p : Reference} (member : p ∈ s.references scope) :
    ∃ w ∈ s.paths, scope.StandsFor w p := by
  cases s with
  | select q => exact queryStands member
  | insert i => cases member
  | _ => exact ⟨p, member, .itself⟩

end Statement

end RelQuery
