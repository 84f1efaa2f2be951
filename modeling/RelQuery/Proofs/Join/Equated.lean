import RelQuery.Path.Links
import RelQuery.Proofs.Join.Appended
import RelQuery.Proofs.Store.Index

/-! LEFT joins on the equality of a column of their own with a column of an earlier source. They match at
most one row if no two of their rows agree on their own column, and the match depends on nothing but
the row of that earlier source. -/
namespace RelQuery

namespace Value

/-- Equality as joins ask for it. NULL agrees with nothing. -/
def agrees (u v : Value) : Bool := !u.isNull && !v.isNull && u.order v == .eq

theorem agreesIff {u v : Value} :
    u.agrees v = true ↔ u.isNull = false ∧ v.isNull = false ∧ u.order v = .eq := by
  simp [agrees, and_assoc]

theorem agreesSymm {u v : Value} (same : u.agrees v = true) : v.agrees u = true := by
  obtain ⟨present, present', equal⟩ := agreesIff.mp same
  exact agreesIff.mpr ⟨present', present, Std.OrientedCmp.eq_symm equal⟩

theorem agreesBoth {u v w : Value} (left : u.agrees w = true) (right : v.agrees w = true) :
    u.agrees v = true := by
  obtain ⟨present, _, first⟩ := agreesIff.mp left
  obtain ⟨_, present', second⟩ := agreesIff.mp (agreesSymm right)
  exact agreesIff.mpr ⟨present, present', Std.TransCmp.eq_trans first second⟩

end Value

/-- That the column of one source equals that of another. -/
def equation (name key base field : String) : Expr :=
  .binary .eq (Link.columnOf name key) (Link.columnOf base field)

namespace Composition

variable {c c' : Composition} {name key base field other : String} {params : List Value}

theorem subRowPush (c : Composition) (name other : String) (s : SubRow) :
    (c.push name s).subRow? other = (c.subRow? other).or (if other = name then some s else none) := by
  simp only [subRow?, push, List.lookup_append, List.lookup_cons, List.lookup_nil]
  by_cases same : other = name
  · simp [same]
  · simp [same, beq_eq_false_iff_ne.mpr same]

theorem subRowKnown (known : name ∈ c.aliases) : ∃ s, c.subRow? name = some s := by
  obtain ⟨⟨_, s⟩, member, rfl⟩ := List.mem_map.mp known
  exact Option.isSome_iff_exists.mp (List.lookup_isSome_iff.mpr ⟨(_, s), member, by simp⟩)

theorem subRowUnknown (unknown : name ∉ c.aliases) : c.subRow? name = none := by
  rw [subRow?, List.lookup_eq_none_iff]
  intro entry member
  have apart : name ≠ entry.1 := by
    intro same
    exact unknown (same ▸ List.mem_map_of_mem member)
  simpa using apart

theorem subRowKept (known : name ∈ c.aliases) (other : String) (s : SubRow) :
    (c.push other s).subRow? name = c.subRow? name := by
  obtain ⟨own, there⟩ := subRowKnown known
  rw [subRowPush, there, Option.some_or]

theorem subRowNew (unknown : name ∉ c.aliases) (s : SubRow) :
    (c.push name s).subRow? name = some s := by
  rw [subRowPush, subRowUnknown unknown, if_pos rfl, Option.none_or]

theorem columnOk {v : Value} : c.column name field = .ok v ↔
    ∃ s, c.subRow? name = some s ∧ s.read? field = some v := by
  unfold column
  cases there : c.subRow? name with
  | none => simp
  | some s => cases read : s.read? field <;> simp [read]

theorem columnSame (same : c.subRow? name = c'.subRow? name) (field : String) :
    c.column name field = c'.column name field := by
  rw [column, column, same]

/-! The condition on a composition -/

theorem passesEquation (fresh : c.slots = []) {answer : Bool}
    (ok : passes (equation name key base field) c params = .ok answer) :
    ∃ u v, c.column name key = .ok u ∧ c.column base field = .ok v ∧ answer = u.agrees v := by
  have qualified {table column : String} {v : Value}
      (read : (Link.columnOf table column).eval (.ofRow c params) = .ok v) :
      c.column table column = .ok v := by
    simp only [Link.columnOf, Expr.eval, Scope.column, Scope.ofRow, Scope.projected, slot?, fresh,
      List.lookup_nil] at read
    split at read
    · cases read
    · exact read
  unfold passes Expr.satisfied at ok
  split at ok
  · cases ok
  · rename_i b holds
    cases ok
    obtain ⟨w, compared, last⟩ := Outcome.bindOk.mp holds
    cases Outcome.pureOk.mp last
    obtain ⟨u, left, compared⟩ := Outcome.bindOk.mp compared
    obtain ⟨v, right, compared⟩ := Outcome.bindOk.mp compared
    cases compared
    refine ⟨u, v, qualified left, qualified right, ?_⟩
    cases null : u.isNull <;> cases null' : v.isNull <;>
      simp [Eval.comparison, Value.agrees, Value.isTruthy, Eval.holds, null, null']

theorem passesSame (left : c.column name key = c'.column name key)
    (right : c.column base field = c'.column base field) (slots : c.slots = c'.slots) :
    passes (equation name key base field) c params =
      passes (equation name key base field) c' params := by
  have read (table column : String) (same : c.column table column = c'.column table column) :
      (Link.columnOf table column).eval (.ofRow c params) =
        (Link.columnOf table column).eval (.ofRow c' params) := by
    simp only [Link.columnOf, Expr.eval, Scope.column, Scope.ofRow, Scope.projected, slot?, slots, same]
  simp only [passes, Expr.satisfied, Expr.holds, equation, Expr.eval, read name key left,
    read base field right]

end Composition

end RelQuery

namespace RelQuery.Relational

variable {main : OpenSource} {params : List Value} {earlier : List JoinSource} {j : JoinSource}
  {lead : Lead} {p m : Nat} {key base field : String}

theorem slotsCompose (main : OpenSource) (earlier : List JoinSource) (lead : Lead) :
    (compose main earlier lead).slots = [] := by
  induction earlier generalizing lead with
  | nil => cases lead <;> rfl
  | cons j earlier ih =>
      cases lead with
      | nil => rfl
      | cons p lead => exact ih lead

theorem subRowMain (fits : Fits main earlier lead) (last : lead.getLast? = some m) :
    (compose main earlier lead).subRow? main.name = some (main.subRow main.cursor.rows[m]?) := by
  induction earlier generalizing lead with
  | nil =>
      obtain ⟨n, rfl, _⟩ := fitsNil fits
      cases Option.some.inj last
      exact Composition.subRowNew (by simp [Composition.empty, Composition.aliases]) _
  | cons j earlier ih =>
      obtain ⟨p, lead, rfl, _, fits⟩ := fitsCons fits
      rw [List.getLast?_cons_of_ne_nil (fitsNonempty fits)] at last
      have known : main.name ∈ (compose main earlier lead).aliases :=
        (aliasesCompose fits _).mpr List.mem_cons_self
      rw [compose, OpenSource.pushInto, Composition.subRowKept known, ih fits last]

theorem subRowOwn (fits : Fits main earlier lead) (fresh : j.source.name ∉ namesOf main earlier) :
    (compose main (j :: earlier) (p :: lead)).subRow? j.source.name =
      some (j.source.subRow j.source.cursor.rows[p]?) :=
  Composition.subRowNew (mt (aliasesCompose fits _).mp fresh) _

theorem columnEarlier (fits : Fits main earlier lead) (known : base ∈ namesOf main earlier)
    (j : JoinSource) (p : Nat) (field : String) :
    (compose main (j :: earlier) (p :: lead)).column base field =
      (compose main earlier lead).column base field :=
  Composition.columnSame (Composition.subRowKept ((aliasesCompose fits _).mpr known) _ _) field

/-- A LEFT join on the equality of a column of its own with one of an earlier source. -/
structure Equated (j : JoinSource) (key base field : String) : Prop where
  left : j.kind = .left
  asks : j.condition = some (.condition (equation j.source.name key base field))

section
variable (equated : Equated j key base field)
include equated

theorem conditionEquated (lead : Lead) (p : Nat) : condition main params earlier j lead p =
    passes (equation j.source.name key base field) (compose main (j :: earlier) (p :: lead))
      params := by
  rw [condition, JoinSource.holds, equated.asks]

variable (known : base ∈ namesOf main earlier) (fresh : j.source.name ∉ namesOf main earlier)
  (fits : Fits main earlier lead)
include known fresh fits

theorem holdsEquated (ok : (condition main params earlier j lead p).isOk = true) :
    ∃ u v, (j.source.subRow j.source.cursor.rows[p]?).read? key = some u ∧
      (compose main earlier lead).column base field = .ok v ∧
        holdsAt main params earlier j lead p = u.agrees v := by
  rw [holdsAt]
  rw [conditionEquated equated] at ok ⊢
  cases answered : passes (equation j.source.name key base field)
      (compose main (j :: earlier) (p :: lead)) params with
  | error cause =>
      rw [answered] at ok
      cases ok
  | ok answer =>
      obtain ⟨u, v, left, right, same⟩ :=
        Composition.passesEquation (slotsCompose main (j :: earlier) (p :: lead)) answered
      rw [columnEarlier fits known] at right
      obtain ⟨s, own, read⟩ := Composition.columnOk.mp left
      rw [subRowOwn fits fresh] at own
      cases own
      exact ⟨u, v, read, right, same⟩

theorem matchEquated (holds : holdsAt main params earlier j lead p = true) :
    ∃ u v, (j.source.subRow j.source.cursor.rows[p]?).read? key = some u ∧
      (compose main earlier lead).column base field = .ok v ∧ u.agrees v = true := by
  have ok : (condition main params earlier j lead p).isOk = true := by
    rw [holdsAt] at holds
    cases asked : condition main params earlier j lead p with
    | error cause =>
        rw [asked] at holds
        cases holds
    | ok answer => rfl
  obtain ⟨u, v, own, other, same⟩ := holdsEquated equated known fresh fits ok
  exact ⟨u, v, own, other, same ▸ holds⟩

end

/-- No two rows of a source agree on a column. -/
def Unrepeated (s : OpenSource) (key : String) : Prop :=
  ∀ p < size s, ∀ q < size s, ∀ u v, (s.subRow s.cursor.rows[p]?).read? key = some u →
    (s.subRow s.cursor.rows[q]?).read? key = some v → u.agrees v = true → p = q

section
variable (equated : Equated j key base field) (known : base ∈ namesOf main earlier)
  (fresh : j.source.name ∉ namesOf main earlier)
include equated known fresh

theorem singleEquated (unrepeated : Unrepeated j.source key) : Single main params earlier j := by
  refine ⟨equated.left, fun lead member p bound q bound' holds holds' => ?_⟩
  have fits := membersFit member
  obtain ⟨u, w, own, other, left⟩ := matchEquated equated known fresh fits holds
  obtain ⟨v, w', own', other', right⟩ := matchEquated equated known fresh fits holds'
  cases Except.ok.inj (other.symm.trans other')
  exact unrepeated p bound q bound' u v own own' (Value.agreesBoth left right)

theorem steadyEquated (start : base = main.name) : Steady main params earlier j := by
  intro lead member lead' member' same p bound
  have fits := membersFit member
  have fits' := membersFit member'
  obtain ⟨m, last⟩ : ∃ m, lead.getLast? = some m :=
    ⟨_, List.getLast?_eq_some_getLast (fitsNonempty fits)⟩
  have left : (compose main (j :: earlier) (p :: lead)).column j.source.name key =
      (compose main (j :: earlier) (p :: lead')).column j.source.name key :=
    Composition.columnSame (by rw [subRowOwn fits fresh, subRowOwn fits' fresh]) key
  have right : (compose main (j :: earlier) (p :: lead)).column base field =
      (compose main (j :: earlier) (p :: lead')).column base field := by
    rw [columnEarlier fits known, columnEarlier fits' known]
    refine Composition.columnSame ?_ field
    rw [start, subRowMain fits last, subRowMain fits' (same ▸ last)]
  rw [holdsAt, holdsAt, conditionEquated equated, conditionEquated equated,
    Composition.passesSame left right (by rw [slotsCompose, slotsCompose])]

end

end RelQuery.Relational
