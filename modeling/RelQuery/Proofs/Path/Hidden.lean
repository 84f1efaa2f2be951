import RelQuery.Proofs.Expr.Reading
import RelQuery.Proofs.Join.Drawn
import RelQuery.Proofs.Join.Places

/-! Hidden sub-rows. Only a reference that is qualified by its name reads a hidden sub-row, so an expression
that names none of them is evaluated with them as without them, in a row as in the members of a group. What
the joins of arrow references add to a composition is hidden. -/
namespace RelQuery

/-- Errors of one kind. A name that no source answers to is reported with the sources that were asked. -/
inductive Error.Akin : Error → Error → Prop where
  | same (e : Error) : Akin e e
  | missing (tables tables' column : String) :
      Akin (.schema (.columnNotFound tables column)) (.schema (.columnNotFound tables' column))

namespace Outcome

/-- The same value, or errors of one kind. -/
inductive Akin {α : Type} : Outcome α → Outcome α → Prop where
  | ok (a : α) : Akin (.ok a) (.ok a)
  | error {e e' : Error} (kind : e.Akin e') : Akin (.error e) (.error e')

variable {α β : Type} {o o' : Outcome α}

theorem akinRefl (o : Outcome α) : Akin o o := by
  cases o with
  | ok a => exact .ok a
  | error e => exact .error (.same e)

theorem akinOk {a : α} (akin : Akin (.ok a) o) : o = .ok a := by
  cases akin
  rfl

theorem akinBind {f g : α → Outcome β} (first : Akin o o') (next : ∀ a, Akin (f a) (g a)) :
    Akin (o >>= f) (o' >>= g) := by
  cases first with
  | ok a => exact next a
  | error kind => exact .error kind

def Likeness.akin : Likeness := ⟨Akin, akinRefl, akinBind⟩

end Outcome

open Outcome (Akin akinRefl akinOk akinBind)

/-! Compositions with hidden sub-rows -/

namespace Composition

/-- Compositions that come of one by adding hidden sub-rows of some names, with any columns and rows. -/
inductive Hides (names : List String) (c : Composition) : Composition → Prop where
  | none : Hides names c c
  | push {c' : Composition} {name : String} (hides : Hides names c c') (listed : name ∈ names)
      (columns : List String) (row : Option Row) : Hides names c (c'.push name ⟨columns, row, true⟩)

variable {names : List String} {c c' : Composition}

theorem hidesSlots (hides : Hides names c c') : c'.slots = c.slots := by
  induction hides with
  | none => rfl
  | push _ _ _ _ ih => exact ih

theorem hidesOwners (hides : Hides names c c') (column : String) : c'.owners column = c.owners column := by
  induction hides with
  | none => rfl
  | push _ _ columns row ih => rw [Relational.ownersPush _ _ _ ⟨columns, row, true⟩ rfl, ih]

theorem hidesSubRow (hides : Hides names c c') {table : String} (apart : table ∉ names) :
    c'.subRow? table = c.subRow? table := by
  induction hides with
  | none => rfl
  | push _ listed _ _ ih =>
      have other : table ≠ _ := fun same => apart (same ▸ listed)
      rw [subRowPush, if_neg other, Option.or_none, ih]

theorem hidesAppend {added : List (String × SubRow)} (hides : Hides names c c')
    (hidden : ∀ s ∈ added, s.1 ∈ names ∧ s.2.hidden = true) :
    Hides names c ⟨c'.sources ++ added, c'.slots⟩ := by
  induction added generalizing c' with
  | nil => simpa using hides
  | cons s added ih =>
      obtain ⟨name, columns, row, _⟩ := s
      obtain ⟨⟨listed, rfl⟩, others⟩ := List.forall_mem_cons.mp hidden
      have rest := ih (hides.push listed columns row) others
      rwa [push, List.append_assoc, List.singleton_append] at rest

end Composition

/-- No column of an expression is qualified by one of some names. -/
def Expr.Avoids (names : List String) (e : Expr) : Prop :=
  ∀ ref, .column ref ∈ e.nodes → ∀ table ∈ ref.table, table ∉ names

/-! Scopes -/

namespace Scope

structure Hides (names : List String) (s s' : Scope) : Prop where
  row : s.row.Hides names s'.row
  group : Option.Rel (List.Forall₂ (Composition.Hides names)) s.group s'.group
  params : s.params = s'.params
  projectionFirst : s.projectionFirst = s'.projectionFirst

variable {names : List String} {s s' : Scope} {ref : ColumnRef}

theorem columnHides (row : s.row.Hides names s'.row) (order : s.projectionFirst = s'.projectionFirst)
    (apart : ∀ table ∈ ref.table, table ∉ names) : Akin (s.column ref) (s'.column ref) := by
  have slots := Composition.hidesSlots row
  simp only [column]
  cases qualifier : ref.table with
  | some table =>
      have same : s'.row.column table ref.column = s.row.column table ref.column :=
        Composition.columnSame (Composition.hidesSubRow row (apart table qualifier)) _
      simp only [projected, Composition.slot?, slots, same]
      exact akinRefl _
  | none =>
      have found : s'.row.find ref.column = s.row.find ref.column := by
        rw [Composition.find, Composition.find, Composition.hidesOwners row]
      have value : s'.row.slotValue? ref.column = s.row.slotValue? ref.column := by
        rw [Composition.slotValue?, Composition.slotValue?, Composition.slot?, Composition.slot?, slots]
      simp only [unqualified, order, found, value]
      split
      · exact akinRefl _
      · refine akinBind (akinRefl _) fun own => ?_
        split
        · exact akinRefl _
        · split
          · exact akinRefl _
          · exact .error (.missing _ _ _)

theorem hidesReads {e : Expr} (hides : Hides names s s') (avoids : e.Avoids names) :
    ReadsAlike .akin e.nodes s s' := by
  refine ⟨fun ref member => columnHides hides.row hides.projectionFirst (avoids ref member), hides.params, ?_⟩
  rcases optionRelated hides.group with ⟨group, group'⟩ | ⟨ms, ms', group, group', members⟩
  · rw [group, group']
    exact .none
  · rw [group, group']
    refine .some (members.imp fun m m' hidden ref member => ?_)
    have own : Akin ((s.member m).column ref) ((s'.member m').column ref) :=
      columnHides hidden hides.projectionFirst (avoids ref member)
    exact own

/-- A scope without the sub-rows of other sources. -/
def restrict (names : List String) (s : Scope) : Scope :=
  { s with row := s.row.restrict names, group := s.group.map (List.map (Composition.restrict names)) }

def compositions (s : Scope) : List Composition := s.row :: s.group.getD []

end Scope

/-! Runs with the joins of links -/

namespace Composition

variable {names own : List String} {c : Composition} {front back : List (String × Bool)}

theorem restrictHides (marks : c.marks = front ++ back) (shown : ∀ s ∈ front, s.1 ∈ own)
    (hidden : ∀ s ∈ back, s.1 ∈ names ∧ s.2 = true) (apart : ∀ s ∈ back, s.1 ∉ own) :
    Hides names (c.restrict own) c := by
  obtain ⟨kept, added, sources, rfl, rfl⟩ := List.map_eq_append_iff.mp marks
  simp only [List.forall_mem_map] at shown hidden apart
  have whole : c = ⟨kept ++ added, c.slots⟩ := by rw [← sources]
  have rest : c.restrict own = ⟨kept, c.slots⟩ := by
    have all : kept.filter (fun s => own.contains s.1) = kept :=
      List.filter_eq_self.mpr fun s member => List.contains_iff_mem.mpr (shown s member)
    have none : added.filter (fun s => own.contains s.1) = [] :=
      List.filter_eq_nil_iff.mpr fun s member => mt List.contains_iff_mem.mp (apart s member)
    rw [restrict, sources, List.filter_append, all, none, List.append_nil]
  rw [rest, whole]
  exact hidesAppend .none hidden

end Composition

namespace Scope

theorem restrictHides {names own : List String} {s : Scope}
    (each : ∀ c ∈ s.compositions, (c.restrict own).Hides names c) : Hides names (s.restrict own) s := by
  obtain ⟨row, members⟩ := List.forall_mem_cons.mp each
  refine ⟨row, ?_, rfl, rfl⟩
  simp only [restrict]
  cases group : s.group with
  | none => exact .none
  | some ms =>
      rw [group, Option.getD_some] at members
      refine .some ?_
      rw [List.forall₂_map_left_iff, List.forall₂_same]
      exact members

end Scope

namespace Links

def names (ls : Links) : List String := ls.entries.map (·.name)

theorem joinsNames (ls : Links) : ls.toJoins.map (·.source.name) = ls.names := by
  simp [names, toJoins, Link.toJoin, Source.name]

theorem linkedHides {ls : Links} {evaluate : Source → Outcome Relation} {main : Source} {joins : List Join}
    {condition : Option Expr} {params : List Value} {r : JoinRun} {c : Composition}
    (ok : JoinRun.start evaluate main (joins ++ ls.toJoins) condition params = .ok r)
    (spans : c.marks = r.marks) :
    (c.restrict (main.name :: joins.map (·.source.name))).Hides ls.names c := by
  obtain ⟨distinct, _⟩ := JoinRun.startOpens ok
  rw [List.map_append, ← List.cons_append, joinsNames] at distinct
  have apart := List.disjoint_of_nodup_append distinct
  rw [JoinRun.startMarks ok, List.map_append, ← List.cons_append] at spans
  have linked : ∀ s ∈ ls.toJoins.map (fun j => (j.source.name, j.hidden)), s.1 ∈ ls.names ∧ s.2 = true := by
    simp only [toJoins, List.map_map, List.forall_mem_map]
    exact fun l member => ⟨List.mem_map_of_mem member, rfl⟩
  refine Composition.restrictHides spans ?_ linked fun s member own => apart own (linked s member).1
  intro s member
  rcases List.mem_cons.mp member with rfl | explicit
  · exact List.mem_cons_self
  · obtain ⟨j, listed, rfl⟩ := List.mem_map.mp explicit
    exact List.mem_cons_of_mem _ (List.mem_map_of_mem listed)

end Links

namespace Expr

/-- Hidden sub-rows that an expression does not name leave its value as it is, or its failure of the same kind,
where they are added to a row and to the members of a group. The joins of links add nothing else to what a run
composes, so what it reads in the sources of the statement is not changed by them. -/
theorem evalHides (e : Expr) :
    (∀ (names : List String) (s s' : Scope), e.Avoids names → s.Hides names s' → Akin (e.eval s) (e.eval s')) ∧
      ∀ (evaluate : Source → Outcome Relation) (main : Source) (joins : List Join) (ls : Links)
        (condition : Option Expr) (params : List Value) (r : JoinRun),
        JoinRun.start evaluate main (joins ++ ls.toJoins) condition params = .ok r →
          (∀ cs, r.collect.2 = .ok cs → ∀ c ∈ r.emptyComposition :: cs, c.marks = r.marks) ∧
            ∀ s : Scope, (∀ c ∈ s.compositions, c.marks = r.marks) → e.Avoids ls.names →
              Akin (e.eval (s.restrict (main.name :: joins.map (·.source.name)))) (e.eval s) := by
  have hidden (names : List String) (s s' : Scope) (avoids : e.Avoids names) (hides : s.Hides names s') :
      Akin (e.eval s) (e.eval s') := e.evalReads .akin (Scope.hidesReads hides avoids)
  refine ⟨hidden, fun evaluate main joins ls condition params r ok => ⟨?_, fun s spans avoids => ?_⟩⟩
  · intro cs collected c member
    rcases List.mem_cons.mp member with rfl | answered
    · exact JoinRun.emptyMarks r
    · exact JoinRun.passesMarks (JoinRun.collectPasses collected c answered)
  · exact hidden _ _ _ avoids (Scope.restrictHides fun c member => Links.linkedHides ok (spans c member))

/-- A column that users have and the source of their link as well. -/
def total : Expr := .aggregate .sum (some (.column ⟨none, "id"⟩)) false none

def linkedUsers : Links := ⟨[⟨⟨"u", "id", "id", "offices"⟩, none, "j1", [("name", "c1")]⟩], ["j1", "u"], 1⟩

def usersAndOffices : Source → Outcome Relation
  | .table _ _ _ => .ok ⟨["id"], [.new 0 [.int 1], .new 1 [.int 2]], .result []⟩
  | .derived _ _ => .ok ⟨["id", "c1"], [.new 0 [.int 2, .string "Head"]], .result []⟩

theorem totalHides : total.Avoids ["j1"] ∧
    (let user (n : Int64) : Composition := .push .empty "u" ⟨["id"], some (.new 0 [.int n]), false⟩
      let linked (n : Int64) := (user n).push "j1" ⟨["id"], some (.new 0 [.int (n + 4)]), true⟩
      total.eval ⟨user 1, some [user 1, user 2], [], false⟩ = .ok (.int 3) ∧
        total.eval ⟨linked 1, some [linked 1, linked 2], [], false⟩ = .ok (.int 3)) ∧
      ∃ r cs, JoinRun.start usersAndOffices (.table none "users" (some "u")) ([] ++ linkedUsers.toJoins) none [] =
          .ok r ∧ r.collect.2 = .ok cs ∧ cs.length = 2 ∧ (∀ c ∈ r.emptyComposition :: cs, c.marks = r.marks) ∧
            Akin (total.eval (Scope.restrict ["u"] ⟨r.emptyComposition, some cs, [], false⟩))
              (total.eval ⟨r.emptyComposition, some cs, [], false⟩) := by
  obtain ⟨added, linked⟩ := evalHides total
  have avoids : total.Avoids ["j1"] := by
    intro ref member table qualified
    have plain : ref = ⟨none, "id"⟩ := by simpa [total, nodes, nodesOfArg, nodesOfOver] using member
    rw [plain] at qualified
    cases qualified
  refine ⟨avoids, ?_, ?_⟩
  · intro user linked
    have hides (n : Int64) : (user n).Hides ["j1"] (linked n) := .push .none List.mem_cons_self _ _
    have own : total.eval ⟨user 1, some [user 1, user 2], [], false⟩ = .ok (.int 3) := by decide +kernel
    have same := added ["j1"] ⟨user 1, some [user 1, user 2], [], false⟩
      ⟨linked 1, some [linked 1, linked 2], [], false⟩ avoids
      ⟨hides 1, .some (.cons (hides 1) (.cons (hides 2) .nil)), rfl, rfl⟩
    rw [own] at same
    exact ⟨own, akinOk same⟩
  · have ran : (do
        let r ← JoinRun.start usersAndOffices (.table none "users" (some "u")) ([] ++ linkedUsers.toJoins) none []
        r.collect.2.map List.length) = .ok 2 := by decide +kernel
    obtain ⟨r, started, ran⟩ := Outcome.bindOk.mp ran
    obtain ⟨cs, collected, length⟩ := Outcome.mapOk.mp ran
    obtain ⟨spans, same⟩ := linked _ _ _ _ _ _ r started
    exact ⟨r, cs, started, collected, length, spans cs collected, same _ (spans cs collected) avoids⟩

end Expr

end RelQuery
