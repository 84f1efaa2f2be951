import RelQuery.Proofs.Path.Joined

/-! The queries of links mirror the tables that the links lead to, however deep the paths go. What a query
reads is led back to the links of its own references, whose queries nest one level less. -/
namespace RelQuery.Link

open Relational

variable {ctx : Context} {params : List Value} {evaluate : Source → Outcome Relation}
  {s : PathScope} {allowed : Reference → Prop} {l : Link} {entries : List Link}
  {relation : Relation} {sources : List JoinSource} {t : TableStore} {x : Lead} {row : Row}

theorem alikeImp {α β : Type} {R S : α → β → Prop} {xs : List α} {ys : List β}
    (alike : List.Forall₂ R xs ys) (each : ∀ x ∈ xs, ∀ y, R x y → S x y) : List.Forall₂ S xs ys := by
  induction alike with
  | nil => exact .nil
  | cons one _ ih =>
      exact .cons (each _ List.mem_cons_self _ one) (ih fun x member => each x (List.mem_cons_of_mem _ member))

def table (l : Link) : Source := .table l.database l.key.target none

def mainOf (l : Link) (ctx : Context) (t : TableStore) : OpenSource :=
  opening l.table (.ofTable (ctx.tableName l.database l.key.target) t)

/-- The row that a lead has of the main source. -/
def origin (t : TableStore) (x : Lead) : Row := (t.rows[x.getLastD 0]?).getD default

def namedColumns (l : Link) (σ : Reference → ColumnRef) : List NamedColumn :=
  (⟨none, l.key.targetKey⟩, none) :: l.selects.map fun entry => (selected σ entry.1, some entry.2)

theorem readsColumns (l : Link) (σ : Reference → ColumnRef) (entries : List Link) :
    SelectOf.ReadsColumns { l.query with fields := l.fields σ, joins := entries.map toJoin }
      (l.namedColumns σ) where
  some := by simp [namedColumns]
  fields := by simp [fields, namedColumns]
  distinct := rfl
  groupBy := rfl
  having := rfl
  windows := rfl
  orderBy := rfl
  limit := rfl
  offset := rfl

/-- Each row of the query of a link reads the sub-rows of one lead. -/
def Reads (l : Link) (ctx : Context) (t : TableStore) (σ : Reference → ColumnRef)
    (sources : List JoinSource) (x : Lead) (vs : List Value) : Prop :=
  ∀ i f, (l.namedColumns σ)[i]? = some f →
    ∃ v, vs[i]? = some v ∧ OutputField.Read (compose (l.mainOf ctx t) sources.reverse x) f.1 i v

section
variable (joined : Joined ctx evaluate (s.ofLink l) l.Nested l.table [] entries
  (.ofTable (ctx.tableName l.database l.key.target) t) sources)
include joined

theorem joinedLeft : ∀ j ∈ sources.reverse, j.kind = .left ∧ j.source.hidden = true := by
  obtain ⟨explicit, added, rfl, own, links⟩ := joinedParts joined
  cases Outcome.pureOk.mp own
  intro j member
  obtain ⟨i, _, r, _, rfl⟩ := alikeMember links (by simpa using member)
  exact ⟨rfl, rfl⟩

theorem memberOrigin (member : x ∈ members (l.mainOf ctx t) params sources.reverse) :
    ∃ m, x.getLast? = some m ∧ t.rows[m]? = some (origin t x) := by
  rw [leftMembers fun j listed => (joinedLeft joined j listed).1] at member
  obtain ⟨_, m, less, last⟩ := fromMainFits member
  refine ⟨m, last, ?_⟩
  have inside : m < t.rows.length := by
    simpa [mainOf, opening, OpenSource.start, Cursor.start, size, Relation.ofTable] using less
  rw [origin, List.getLastD_eq_getLast?, last, Option.getD_some, List.getElem?_eq_getElem inside]
  rfl

theorem originAll (stored : row ∈ t.rows) :
    ∃ x ∈ members (l.mainOf ctx t) params sources.reverse, origin t x = row := by
  obtain ⟨m, bound, rfl⟩ := List.getElem_of_mem stored
  have inside : m < size (l.mainOf ctx t) := by
    simpa [mainOf, opening, OpenSource.start, Cursor.start, size, Relation.ofTable] using bound
  obtain ⟨x, member, last⟩ : ∃ x ∈ members (l.mainOf ctx t) params sources.reverse,
      x.getLast? = some m := leftKeeps (fun j listed => (joinedLeft joined j listed).1) inside
  refine ⟨x, member, ?_⟩
  rw [origin, List.getLastD_eq_getLast?, last, Option.getD_some, List.getElem?_eq_getElem bound]
  rfl

theorem readPlain (fills : ctx.storage.Fills ctx.catalog)
    (stored : ctx.storage.get? ⟨l.databaseIn ctx, l.key.target⟩ = some t)
    (member : x ∈ members (l.mainOf ctx t) params sources.reverse) {column : String} {i : Nat} {v : Value}
    (read : OutputField.Read (compose (l.mainOf ctx t) sources.reverse x) ⟨none, column⟩ i v)
    (own : i = 0 ∨ column ∈ t.columns) :
    v = ctx.cell (l.databaseIn ctx) l.key.target (some (origin t x)) column := by
  obtain ⟨m, last, there⟩ := memberOrigin joined member
  obtain ⟨scope, same, slots, plain, eval⟩ := read
  have found : (compose (l.mainOf ctx t) sources.reverse x).find column =
      .ok (((l.mainOf ctx t).subRow (l.mainOf ctx t).cursor.rows[m]?).read? column) :=
    findMain rfl (fun j listed => (joinedLeft joined j listed).2) (membersFit member) last column
  have sub : (l.mainOf ctx t).subRow (l.mainOf ctx t).cursor.rows[m]? =
      ⟨t.columns, some (origin t x), false⟩ := by
    simp [mainOf, opening, OpenSource.start, Cursor.start, OpenSource.subRow, Relation.ofTable, there]
  have owners : scope.row.find column = (compose (l.mainOf ctx t) sources.reverse x).find column := by
    rw [Composition.find, Composition.find, Composition.owners, Composition.owners, same]
  rw [sub, ← owners] at found
  simp only [Expr.eval, Scope.column, Scope.unqualified, plain, Bool.false_eq_true, if_false] at eval
  obtain ⟨answer, asked, eval⟩ := Outcome.bindOk.mp eval
  cases asked.symm.trans found
  cases here : (SubRow.mk t.columns (some (origin t x)) false).read? column with
  | some w =>
      rw [here] at eval
      cases eval
      exact (Context.cellRead fills stored here).symm
  | none =>
      exfalso
      rw [here] at eval
      -- A slot could answer to the name, but only one of a field before this one.
      rcases own with first | listed
      · rw [first, slotsCompose, List.length_nil, Nat.zero_add, List.length_eq_zero_iff] at slots
        simp only [Composition.slotValue?, Composition.slot?, slots, List.lookup_nil] at eval
        cases eval
      · have present : (t.columns.findIdx? (· == column)).isSome = true := by
          simpa [List.findIdx?_isSome] using listed
        rw [SubRow.read?, SubRow.index?, Option.map_eq_none_iff] at here
        rw [here] at present
        cases present

theorem readPath (evaluates : ctx.Evaluates params evaluate) (fills : ctx.storage.Fills ctx.catalog)
    (evaluable : Evaluable (l.mainOf ctx t) params (asked (l.mainOf ctx t) params) sources.reverse)
    {select : String} {ref : ColumnRef} {names : List String}
    (linked : (s.ofLink l).Linked entries (none, select) ref) (forward : Path.Forward select names)
    (leads : ctx.catalog.Leads (l.databaseIn ctx) l.key.target names) :
    ∃ columns, Numbered columns ∧ columns.length + 1 = names.length ∧
      ∀ x ∈ members (l.mainOf ctx t) params sources.reverse, ∀ i v,
        OutputField.Read (compose (l.mainOf ctx t) sources.reverse x) ref i v →
          v = ctx.delivered (l.databaseIn ctx) l.key.target (some (origin t x)) names columns := by
  have based : (s.ofLink l).base none = .ok ⟨l.key.target, l.database, l.key.target⟩ := rfl
  have there : (s.ofLink l).databaseOf ⟨l.key.target, l.database, l.key.target⟩ = l.databaseIn ctx := by
    rw [PathScope.databaseOf, joined.database, databaseIn]
  obtain ⟨columns, numbered, length, _, delivers⟩ := joinedDelivers joined evaluates fills linked forward
    based (there ▸ leads)
  refine ⟨columns, numbered, length, fun x member i v read => ?_⟩
  obtain ⟨scope, same, _, _, eval⟩ := read
  obtain ⟨m, last, row⟩ := memberOrigin joined member
  have sub : (compose (l.mainOf ctx t) sources.reverse x).row? l.key.target = some (origin t x) := by
    have own := subRowMain (membersFit member) last
    have name : (l.mainOf ctx t).name = l.key.target := rfl
    rw [name] at own
    rw [Composition.row?, own]
    simp [mainOf, opening, OpenSource.start, Cursor.start, OpenSource.subRow, Relation.ofTable, row]
  have value := delivers x member (settledOf evaluable x) scope same
  rw [there] at value
  cases eval.symm.trans value
  exact congrArg (ctx.delivered _ _ · _ _) sub

theorem selectionReads (evaluates : ctx.Evaluates params evaluate)
    (fills : ctx.storage.Fills ctx.catalog)
    (stored : ctx.storage.get? ⟨l.databaseIn ctx, l.key.target⟩ = some t)
    (evaluable : Evaluable (l.mainOf ctx t) params (asked (l.mainOf ctx t) params) sources.reverse)
    {σ : Reference → ColumnRef} {entry : String × String} {names : List String} {i : Nat}
    (served : Path.isPath entry.1 = true →
      (s.ofLink l).Linked entries (none, entry.1) (σ (none, entry.1)))
    (there : l.selects[i]? = some entry) (forward : Path.Forward entry.1 names)
    (leads : ctx.catalog.Leads (l.databaseIn ctx) l.key.target names) :
    ∃ columns, Numbered columns ∧ columns.length + 1 = names.length ∧
      ∀ x ∈ members (l.mainOf ctx t) params sources.reverse, ∀ vs, l.Reads ctx t σ sources x vs →
        vs[i + 1]? = some (ctx.delivered (l.databaseIn ctx) l.key.target (some (origin t x)) names
          columns) := by
  have field : (l.namedColumns σ)[i + 1]? = some (selected σ entry.1, some entry.2) := by
    simp [namedColumns, there]
  cases forward with
  | column plain =>
      have own : entry.1 ∈ t.columns := by
        cases leads with
        | column found own =>
            cases found.symm.trans (Context.schemaStored fills stored)
            exact own
        | step _ more => cases more
      refine ⟨[], by simp [Numbered], rfl, fun x member vs reads => ?_⟩
      obtain ⟨v, listed, read⟩ := reads (i + 1) _ field
      have flat : selected σ entry.1 = ⟨none, entry.1⟩ := by
        rw [selected, Path.isPath, plain]
        rfl
      rw [flat] at read
      rw [listed, readPlain joined fills stored member read (.inr own)]
      rfl
  | @step _ key rest names split more =>
      have path : Path.isPath entry.1 = true := by
        rw [Path.isPath, split]
        rfl
      obtain ⟨columns, numbered, length, delivers⟩ := readPath joined evaluates fills evaluable
        (served path) (.step split more) leads
      refine ⟨columns, numbered, length, fun x member vs reads => ?_⟩
      obtain ⟨v, listed, read⟩ := reads (i + 1) _ field
      rw [selected, if_pos path] at read
      rw [listed, delivers x member _ v read]

/-- Where all selections are paths, the rows are those of the table, in order. -/
theorem originsOrdered (fills : ctx.storage.Fills ctx.catalog)
    (forward : ∀ entry ∈ l.selects, ∃ names, Path.Forward entry.1 names) :
    (formed (l.mainOf ctx t) params sources).map (origin t) = t.rows := by
  obtain ⟨explicit, added, rfl, own, links⟩ := joinedParts joined
  obtain rfl : explicit = [] := (Outcome.pureOk.mp own).symm
  have paths : ∀ p, l.Nested p → ∃ names, Path.Forward p.2 names := by
    rintro p ⟨entry, listed, _, rfl⟩
    exact forward entry listed
  have main : opening l.table (.ofTable (ctx.tableName l.database l.key.target) t) = l.mainOf ctx t := rfl
  have single : Each (Single (l.mainOf ctx t) params) ([] : List JoinSource).reverse added.reverse :=
    joinedSingle joined fills paths rfl rfl links
  have steady : Each (Steady (l.mainOf ctx t) params) ([] : List JoinSource).reverse added.reverse := by
    refine joinedSteady joined fills paths rfl rfl links ?_
    rintro p ⟨entry, _, _, rfl⟩ base based
    cases based
    rfl
  have order := formedSteady single steady
  rw [List.nil_append, formedNone] at order
  have last {x : Lead} (member : x ∈ formed (l.mainOf ctx t) params added) :
      origin t x = origin t (x.drop added.length) := by
    have fits := membersFit ((formedPerm _ params added).mem_iff.mp member)
    have width := fitsLength fits
    rw [List.length_reverse] at width
    rw [origin, origin, List.getLastD_eq_getLast?, List.getLastD_eq_getLast?, List.getLast?_drop,
      if_neg (by omega)]
  rw [List.nil_append, List.map_congr_left fun x member => last member]
  rw [← Function.comp_def, ← List.map_map, order, List.map_map]
  refine List.ext_getElem (by simp [mainOf, opening, OpenSource.start, Cursor.start, size, Relation.ofTable])
    fun i bound bound' => ?_
  simp [origin, List.getElem?_eq_getElem bound']

end

theorem queryReads {σ : Reference → ColumnRef} {result : ResultSet} {cs : List Composition}
    {empty : Composition} (answer : cs = (formed (l.mainOf ctx t) params sources).map
      (compose (l.mainOf ctx t) sources.reverse))
    (ok : SelectOf.result { l.query with fields := l.fields σ, joins := entries.map toJoin } params cs
      empty = .ok result) :
    result.columns = l.key.targetKey :: l.selects.map (·.2) ∧
      List.Forall₂ (l.Reads ctx t σ sources) (formed (l.mainOf ctx t) params sources) result.rows := by
  obtain ⟨columns, rows⟩ := SelectOf.resultRead (readsColumns l σ entries) ok
  refine ⟨by simp [columns, namedColumns], ?_⟩
  rw [answer, List.forall₂_map_left_iff] at rows
  refine rows.imp fun x vs => ?_
  rintro ⟨c', projected, rfl⟩ i f there
  obtain ⟨vs, values, _, each⟩ := OutputField.projectColumns projected
  obtain ⟨v, listed, read⟩ := each i f there
  refine ⟨v, ?_, read⟩
  rw [values, Composition.project, slotsCompose]
  simpa using listed

theorem resultRows (result : ResultSet) :
    (Relation.ofResult (.new result.columns result.rows)).rows.map Row.values = result.rows := by
  refine List.ext_getElem (by simp [Relation.ofResult, ResultStore.new]) fun i bound bound' => ?_
  simp [Relation.ofResult, ResultStore.new, Row.new]

/-- The result of a link's query mirrors the table of the link, given that the queries of the links among
its sources do. -/
theorem queryMirrors (fills : ctx.storage.Fills ctx.catalog) (evaluates : ctx.Evaluates params evaluate)
    (purposes : ∀ entry ∈ l.selects, s.Purpose allowed l.key l.database entry.1)
    (catalog : s.catalog = ctx.catalog) (database : s.database = ctx.database)
    (nested : ∀ i : Link, (∀ entry ∈ i.selects,
      (s.ofLink l).Purpose l.Nested i.key i.database entry.1) → ∀ r,
        evaluate (.derived i.query i.name) = .ok r → ∃ t origins, i.Mirrors ctx t r origins)
    {q : Select} (expanded : l.query.expand ctx.catalog ctx.database = .ok q) {result : ResultSet}
    (answered : q.evalWith evaluate params = .ok result) : ∃ t origins,
      l.Mirrors ctx t (.ofResult (.new result.columns result.rows)) origins := by
  rw [← catalog, ← database] at expanded
  obtain ⟨entries, σ, rfl, made, served⟩ := queryExpanded purposes expanded
  obtain ⟨run, started, answered⟩ := Outcome.bindOk.mp answered
  obtain ⟨cs, collected, answered⟩ := Outcome.bindOk.mp answered
  obtain ⟨relation, sources, run'⟩ := collectAnswered started collected
  obtain ⟨t, stored, rfl⟩ := Context.tableRead evaluates run'.evaluated
  have joined : Joined ctx evaluate (s.ofLink l) l.Nested l.table [] entries
      (.ofTable (ctx.tableName l.database l.key.target) t) sources :=
    ⟨catalog, database, rfl, made, fun i member r => nested i (made i member).purposes r, run'.evaluated,
      run'.opened, run'.distinct⟩
  have evaluable : Evaluable (l.mainOf ctx t) params (asked (l.mainOf ctx t) params) sources.reverse :=
    run'.evaluable
  obtain ⟨columns, reads⟩ := queryReads (run'.answer.trans (answersAll ..)) answered
  have among {x : Lead} (member : x ∈ formed (l.mainOf ctx t) params sources) :
      x ∈ members (l.mainOf ctx t) params sources.reverse := (formedPerm _ params sources).mem_iff.mp member
  have each (R : Row → List Value → Prop) (each : ∀ x ∈ formed (l.mainOf ctx t) params sources, ∀ vs,
      l.Reads ctx t σ sources x vs → R (origin t x) vs) :
      List.Forall₂ (fun row r => R row r.values) ((formed (l.mainOf ctx t) params sources).map (origin t))
        (Relation.ofResult (.new result.columns result.rows)).rows := by
    rw [← List.forall₂_map_right_iff (R := R), resultRows, List.forall₂_map_left_iff]
    exact alikeImp reads each
  refine ⟨t, (formed (l.mainOf ctx t) params sources).map (origin t), columns, stored, fun row => ?_,
    ?_, ?_, originsOrdered joined fills⟩
  · rw [List.mem_map]
    constructor
    · rintro ⟨x, member, rfl⟩
      obtain ⟨m, _, there⟩ := memberOrigin joined (among member)
      exact List.mem_of_getElem? there
    · intro own
      obtain ⟨x, member, same⟩ : ∃ x ∈ members (l.mainOf ctx t) params sources.reverse,
          origin t x = row := originAll joined own
      exact ⟨x, (formedPerm _ params sources).mem_iff.mpr member, same⟩
  · refine each (fun row vs => vs.head? =
      some (ctx.cell (l.databaseIn ctx) l.key.target (some row) l.key.targetKey)) fun x member vs reads => ?_
    obtain ⟨v, listed, read⟩ := reads 0 _ rfl
    rw [List.head?_eq_getElem?, listed,
      readPlain joined fills stored (among member) read (.inl rfl)]
  · intro i entry names there forward leads
    obtain ⟨columns, numbered, length, delivers⟩ := selectionReads joined evaluates fills stored evaluable
      (served entry (List.mem_of_getElem? there)) there forward leads
    exact ⟨columns, numbered, length, each (fun row vs => vs[i + 1]? =
      some (ctx.delivered (l.databaseIn ctx) l.key.target (some row) names columns))
        fun x member vs reads => delivers x (among member) vs reads⟩

theorem linkMirrors (fills : ctx.storage.Fills ctx.catalog) {levels : Nat}
    (purposes : ∀ entry ∈ l.selects, s.Purpose allowed l.key l.database entry.1)
    (catalog : s.catalog = ctx.catalog) (database : s.database = ctx.database) {result : ResultSet}
    (selected : ctx.selectWithin params levels l.query = .ok result) : ∃ t origins,
      l.Mirrors ctx t (.ofResult (.new result.columns result.rows)) origins := by
  -- The links of a link's query are evaluated one level further down.
  induction levels generalizing s allowed l result with
  | zero =>
      rw [Context.selectWithinEq] at selected
      obtain ⟨q, expanded, answered⟩ := Outcome.bindOk.mp selected
      exact queryMirrors fills (Context.evaluatesWithin ctx params 0) purposes catalog database
        (fun i _ r deep => by cases deep) expanded answered
  | succ levels ih =>
      rw [Context.selectWithinEq] at selected
      obtain ⟨q, expanded, answered⟩ := Outcome.bindOk.mp selected
      refine queryMirrors fills (Context.evaluatesWithin ctx params (levels + 1)) purposes catalog database
        (fun i inner r evaluated => ?_) expanded answered
      obtain ⟨result', selected', last⟩ := Outcome.bindOk.mp evaluated
      cases Outcome.pureOk.mp last
      exact ih inner catalog database selected'

theorem joinedOf (fills : ctx.storage.Fills ctx.catalog) (evaluates : ctx.Evaluates params evaluate)
    {first : Source} {others : List Join} {condition : Option Expr} {cs : List Composition}
    (catalog : s.catalog = ctx.catalog) (database : s.database = ctx.database)
    (scope : s.sources = first :: others.map (·.source))
    (made : ∀ l ∈ entries, Links.Made (s.Purpose allowed) l)
    (answered : Answered evaluate first (others ++ entries.map toJoin) condition params relation sources
      cs) : Joined ctx evaluate s allowed first others entries relation sources := by
  refine ⟨catalog, database, scope, made, fun l member r evaluated => ?_, answered.evaluated,
    answered.opened, answered.distinct⟩
  obtain ⟨levels, result, selected, rfl⟩ := evaluates.derived _ _ _ evaluated
  exact linkMirrors fills (made l member).purposes catalog database selected

end RelQuery.Link
