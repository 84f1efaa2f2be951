import RelQuery.Proofs.Path.Mirrors

/-! The joins of links after those of a statement. In every composition the column that serves a path reads
what the path delivers from the row of its source: a link matches the row that the foreign key refers to,
and no other, and where there is none its columns are NULL. -/
namespace RelQuery

namespace Relational

variable {main : OpenSource} {params : List Value} {earlier later joins : List JoinSource}
  {leads : JoinSource → List JoinSource → List Lead} {x : Lead}

/-- Along a lead, no condition fails on the rows that stand before its own. -/
def Settled (main : OpenSource) (params : List Value) (joins : List JoinSource) (x : Lead) : Prop :=
  ∀ later j earlier ps p lead, joins = later ++ j :: earlier → ps.length = later.length →
    x = ps ++ p :: lead → lead ∈ asked main params j earlier → ∀ q < p, q < size j.source →
      (condition main params earlier j lead q).isOk = true

theorem evaluableBack (evaluable : Evaluable main params leads (later ++ earlier)) :
    Evaluable main params leads earlier := by
  induction later with
  | nil => exact evaluable
  | cons j later ih => exact ih evaluable.1

theorem settledOf (evaluable : Evaluable main params (asked main params) joins) (x : Lead) :
    Settled main params joins x := by
  intro later j earlier ps p lead same _ _ asked q _ row
  subst same
  exact (evaluableBack evaluable).2 lead asked q row

end Relational

open Relational

namespace JoinRun

variable {evaluate : Source → Outcome Relation} {first source : Source} {others : List Join}
  {relation : Relation} {sources : List JoinSource} {s : OpenSource}

theorem openedAlike (evaluated : evaluate first = .ok relation)
    (opened : others.mapM (openJoin evaluate) = .ok sources) :
    List.Forall₂ (Opened evaluate) (first :: others.map (·.source))
      (opening first relation :: sources.map (·.source)) := by
  refine .cons ⟨false, relation, evaluated, rfl⟩ ?_
  rw [List.forall₂_map_left_iff, List.forall₂_map_right_iff]
  exact (Outcome.mapMOk.mp opened).imp fun _ _ => joinOpens

theorem openedNamed (evaluated : evaluate first = .ok relation)
    (opened : others.mapM (openJoin evaluate) = .ok sources)
    (distinct : (first.name :: others.map (·.source.name)).Nodup)
    (member : s ∈ opening first relation :: sources.map (·.source))
    (listed : source ∈ first :: others.map (·.source)) (same : s.name = source.name) :
    Opened evaluate source s := by
  obtain ⟨source', listed', opens⟩ := alikeMember (openedAlike evaluated opened) member
  have names : ((first :: others.map (·.source)).map Source.name).Nodup := by
    rw [List.map_cons, List.map_map]
    exact distinct
  have named : source'.name = s.name := by
    obtain ⟨hidden, relation, _, rfl⟩ := opens
    rfl
  rwa [List.inj_on_of_nodup_map names listed listed' (named.trans same).symm]

end JoinRun

namespace Link

variable {ctx : Context} {params : List Value} {evaluate : Source → Outcome Relation}
  {s : PathScope} {allowed : Reference → Prop} {first : Source} {others : List Join}
  {entries : List Link} {relation : Relation} {sources : List JoinSource}

/-- Links that are joined after the sources that their references start from. -/
structure Joined (ctx : Context) (evaluate : Source → Outcome Relation) (s : PathScope)
    (allowed : Reference → Prop) (first : Source) (others : List Join) (entries : List Link)
    (relation : Relation) (sources : List JoinSource) : Prop where
  catalog : s.catalog = ctx.catalog
  database : s.database = ctx.database
  scope : s.sources = first :: others.map (·.source)
  made : ∀ l ∈ entries, Links.Made (s.Purpose allowed) l
  mirrored : ∀ l ∈ entries, ∀ r, evaluate (.derived l.query l.name) = .ok r →
    ∃ t origins, l.Mirrors ctx t r origins
  evaluated : evaluate first = .ok relation
  opened : (others ++ entries.map toJoin).mapM (JoinRun.openJoin evaluate) = .ok sources
  distinct : (first.name :: (others ++ entries.map toJoin).map (·.source.name)).Nodup

section
variable (joined : Joined ctx evaluate s allowed first others entries relation sources)
include joined

theorem joinedParts : ∃ explicit added, sources = explicit ++ added ∧
    others.mapM (JoinRun.openJoin evaluate) = .ok explicit ∧
      List.Forall₂ (fun l j => ∃ r, evaluate (.derived l.query l.name) = .ok r ∧ j = l.opened r)
        entries added := by
  have opened := joined.opened
  rw [List.mapM_append] at opened
  obtain ⟨explicit, own, opened⟩ := Outcome.bindOk.mp opened
  obtain ⟨added, links, last⟩ := Outcome.bindOk.mp opened
  cases Outcome.pureOk.mp last
  refine ⟨explicit, added, rfl, own, ?_⟩
  have alike := Outcome.mapMOk.mp links
  rw [List.forall₂_map_left_iff] at alike
  exact alike.imp fun _ _ => openedOk

theorem joinedFresh {later earlier : List JoinSource} {j : JoinSource}
    (split : sources.reverse = later ++ j :: earlier) :
    j.source.name ∉ namesOf (opening first relation) earlier := by
  have distinct : (namesOf (opening first relation) sources.reverse).Nodup := by
    have alike := JoinRun.openedAlike joined.evaluated joined.opened
    have names : (opening first relation :: sources.map (·.source)).map (·.name) =
        (first :: (others ++ entries.map toJoin).map (·.source)).map Source.name := by
      rw [eq_comm, ← List.forall₂_eq_eq_eq, List.forall₂_map_left_iff, List.forall₂_map_right_iff]
      refine alike.imp fun source s => ?_
      rintro ⟨hidden, r, _, rfl⟩
      rfl
    have forward : ((opening first relation).name :: sources.map (·.source.name)).Nodup := by
      have all := joined.distinct
      rw [List.map_cons, List.map_cons, List.map_map, List.map_map] at names
      exact names ▸ all
    rw [namesOf, List.map_reverse, List.nodup_cons, List.mem_reverse, List.nodup_reverse]
    exact List.nodup_cons.mp forward
  rw [split, namesOf, List.map_append, List.map_cons] at distinct
  obtain ⟨outside, rest⟩ := List.nodup_cons.mp distinct
  have own := (List.nodup_cons.mp (List.nodup_append.mp rest).2.1).1
  rw [namesOf, List.mem_cons, not_or]
  exact ⟨fun same => outside (by simp [← same]), own⟩

theorem baseNamed {name : Option String} {base : PathBase} (based : s.base name = .ok base) :
    ∃ rename, .table base.database base.table rename ∈ first :: others.map (·.source) ∧
      rename.getD base.table = base.name := by
  obtain ⟨database, table, rename, _, rfl, found⟩ := PathScope.baseOk based
  exact ⟨rename, joined.scope ▸ List.mem_of_find?_eq_some found, rfl⟩

theorem linkBased {l : Link} (member : l ∈ entries) : ∃ name base, ∃ binding : Binding,
    s.base name = .ok base ∧ l.key = binding.linkKey base.name ∧ l.database = base.database := by
  have made := joined.made l member
  obtain ⟨entry, listed⟩ := List.exists_mem_of_ne_nil _ made.used
  obtain ⟨p, base, binding, last, _, resolved, _, key, database, _⟩ := made.purposes entry listed
  exact ⟨p.1, base, binding, (PathScope.resolveOk resolved).1, key, database⟩

theorem linkDatabase {l : Link} (member : l ∈ entries) {name : Option String} {base : PathBase}
    (based : s.base name = .ok base) (same : l.key.base = base.name) :
    l.databaseIn ctx = s.databaseOf base := by
  obtain ⟨name', base', binding, based', key, database⟩ := linkBased joined member
  rw [key] at same
  rw [databaseIn, database, PathScope.baseOnce based' based same, PathScope.databaseOf, joined.database]

theorem joinedKnown {explicit : List JoinSource}
    (own : others.mapM (JoinRun.openJoin evaluate) = .ok explicit) (back : List JoinSource)
    {source : Source} (listed : source ∈ first :: others.map (·.source)) :
    source.name ∈ namesOf (opening first relation) (back ++ explicit.reverse) := by
  obtain ⟨s', there, hidden, r', _, rfl⟩ :=
    alikeMember (JoinRun.openedAlike joined.evaluated own).flip listed
  rcases List.mem_cons.mp there with same | inside
  · exact List.mem_cons.mpr (.inl (congrArg OpenSource.name same))
  · obtain ⟨i, among, same⟩ := List.mem_map.mp inside
    refine List.mem_cons_of_mem _ (List.mem_map.mpr ⟨i, ?_, congrArg OpenSource.name same⟩)
    exact List.mem_append_right _ (List.mem_reverse.mpr among)

theorem joinedPlace {l : Link} (member : l ∈ entries) : ∃ r later earlier,
    evaluate (.derived l.query l.name) = .ok r ∧ sources.reverse = later ++ l.opened r :: earlier ∧
      (∀ i ∈ later, i.kind = .left) ∧
        ∀ source ∈ first :: others.map (·.source), source.name ∈ namesOf (opening first relation) earlier := by
  obtain ⟨explicit, added, rfl, own, links⟩ := joinedParts joined
  obtain ⟨j, listed, r, evaluated, rfl⟩ := alikeMember links.flip member
  obtain ⟨later, back, split⟩ := List.append_of_mem (List.mem_reverse.mpr listed)
  refine ⟨r, later, back ++ explicit.reverse, evaluated, by simp [split], fun i inside => ?_,
    fun source there => joinedKnown joined own back there⟩
  have among : i ∈ added := List.mem_reverse.mp (split ▸ List.mem_append_left _ inside)
  obtain ⟨l', _, r', _, rfl⟩ := alikeMember links among
  rfl

theorem baseSubRow (evaluates : ctx.Evaluates params evaluate) {name : Option String} {base : PathBase}
    (based : s.base name = .ok base) {later earlier : List JoinSource} {lead : Lead}
    (split : sources.reverse = later ++ earlier) (fits : Fits (opening first relation) earlier lead)
    (known : base.name ∈ namesOf (opening first relation) earlier) :
    ∃ t row hidden, ctx.storage.get? ⟨s.databaseOf base, base.table⟩ = some t ∧
      (compose (opening first relation) earlier lead).subRow? base.name = some ⟨t.columns, row, hidden⟩ := by
  obtain ⟨rename, listed, named⟩ := baseNamed joined based
  obtain ⟨sub, there⟩ := Composition.subRowKnown ((aliasesCompose fits _).mpr known)
  obtain ⟨source, member, same, p, rfl⟩ := subRowSource fits there
  have among : source ∈ opening first relation :: sources.map (·.source) := by
    rcases List.mem_cons.mp member with main | inside
    · exact main ▸ List.mem_cons_self
    · obtain ⟨i, own, rfl⟩ := List.mem_map.mp inside
      have whole : i ∈ sources.reverse := split ▸ List.mem_append_right _ own
      exact List.mem_cons_of_mem _ (List.mem_map_of_mem (List.mem_reverse.mp whole))
  have listed' : Source.table base.database base.table rename ∈
      first :: (others ++ entries.map toJoin).map (·.source) := by
    rw [List.map_append, ← List.cons_append]
    exact List.mem_append_left _ listed
  obtain ⟨hidden, r, evaluated, rfl⟩ := JoinRun.openedNamed joined.evaluated joined.opened
    joined.distinct among listed' (same.trans named.symm)
  obtain ⟨t, stored, rfl⟩ := Context.tableRead evaluates evaluated
  refine ⟨t, _, hidden, ?_, there⟩
  rw [PathScope.databaseOf, joined.database]
  exact stored

end

/-! Delivery -/

theorem generatedMember {column : String} {n : Nat} (member : column ∈ Link.generated n) :
    ∃ n : Nat, column = "c" ++ toString (n + 1) := by
  obtain ⟨i, _, rfl⟩ := List.mem_map.mp member
  exact ⟨i, rfl⟩

theorem readMatched {l : Link} {t : TableStore} {r : Relation} {origins : List Row}
    (mirrors : l.Mirrors ctx t r origins) (generated : l.selects.map (·.2) = Link.generated l.selects.length)
    {i : Nat} {select column : String} (entry : l.selects[i]? = some (select, column))
    {deliver : Row → Value}
    (delivers : List.Forall₂ (fun row r => r.values[i + 1]? = some (deliver row)) origins r.rows)
    {p : Nat} {row' : Row} (there : r.rows[p]? = some row') : ∃ row ∈ t.rows, ∀ hidden,
      (SubRow.mk r.columns (some row') hidden).read? l.key.targetKey =
          some (ctx.cell (l.databaseIn ctx) l.key.target (some row) l.key.targetKey) ∧
        (SubRow.mk r.columns (some row') hidden).read? column =
          some (if column = l.key.targetKey then
            ctx.cell (l.databaseIn ctx) l.key.target (some row) l.key.targetKey
          else deliver row) := by
  obtain ⟨row, origin, stored, head⟩ := originOf mirrors there
  refine ⟨row, stored, fun hidden => ?_⟩
  rw [mirrors.columns]
  refine ⟨readFirst head, ?_⟩
  by_cases same : column = l.key.targetKey
  · rw [if_pos same, same]
    exact readFirst head
  · rw [if_neg same]
    refine readLater (i := i) (generated ▸ generatedNodup _) (by simp [entry]) same ?_
    obtain ⟨bound, rfl⟩ := List.getElem?_eq_some_iff.mp there
    obtain ⟨bound', rfl⟩ := List.getElem?_eq_some_iff.mp origin
    exact delivers.get bound' bound

theorem edgeKey {t : TableStore} {database table field target key : String}
    (fills : ctx.storage.Fills ctx.catalog) (stored : ctx.storage.get? ⟨database, target⟩ = some t)
    (edge : ctx.catalog.edge database table field = .ok (target, key)) :
    t.schema.singlePrimaryKey = .ok key := by
  simp only [Catalog.edge, Outcome.bindOk, Outcome.pureOk] at edge
  obtain ⟨schema, _, target', _, schema', found, key', single, same⟩ := edge
  cases same
  cases found.symm.trans (Context.schemaStored fills stored)
  exact single

theorem nameVisible (n : Nat) : Links.nameOf n ≠ projectionAlias := by
  intro same
  have first := congrArg (fun name : String => name.toList.head?) same
  simp [Links.nameOf, projectionAlias, String.toList_append] at first

theorem madeRead {l : Link} (made : Links.Made (s.Purpose allowed) l) {scope : Scope} {c : Composition}
    (same : scope.row.sources = c.sources) (column : String) :
    (Expr.column ⟨some l.name, column⟩).eval scope = c.column l.name column := by
  obtain ⟨n, named⟩ := made.named
  have visible : l.name ≠ projectionAlias := named ▸ nameVisible n
  simp only [Expr.eval, Scope.column, if_neg visible]
  exact Composition.columnSame (by rw [Composition.subRow?, same]; rfl) column

theorem placeDelivers (fills : ctx.storage.Fills ctx.catalog) {l : Link} {t t' : TableStore}
    {r : Relation} {origins : List Row} {main : OpenSource} {earlier : List JoinSource} {lead : Lead}
    {p i : Nat} {table select column : String} {row : Option Row} {hidden : Bool}
    (deliver : Option Row → Value) (mirrors : l.Mirrors ctx t r origins)
    (generated : l.selects.map (·.2) = Link.generated l.selects.length)
    (entry : l.selects[i]? = some (select, column)) (nothing : deliver none = .null)
    (delivers : List.Forall₂ (fun row r => r.values[i + 1]? = some (deliver (some row))) origins r.rows)
    (edge : ctx.catalog.edge (l.databaseIn ctx) table l.key.baseKey = .ok (l.key.target, l.key.targetKey))
    (based : ctx.storage.get? ⟨l.databaseIn ctx, table⟩ = some t')
    (sub : (compose main earlier lead).subRow? l.key.base = some ⟨t'.columns, row, hidden⟩)
    (known : l.key.base ∈ namesOf main earlier) (fresh : l.name ∉ namesOf main earlier)
    (member : p :: lead ∈ members main params (l.opened r :: earlier))
    (settled : ∀ q < p, q < size (l.opened r).source →
      (condition main params earlier (l.opened r) lead q).isOk = true) :
    ((l.opened r).source.subRow (l.opened r).source.cursor.rows[p]?).read? column = some (
      let next := ctx.referred (l.databaseIn ctx) l.key.target l.key.targetKey
        (ctx.cell (l.databaseIn ctx) table row l.key.baseKey)
      if column = l.key.targetKey then ctx.cell (l.databaseIn ctx) l.key.target next l.key.targetKey
      else deliver next) := by
  have rowAt (p : Nat) : (l.opened r).source.cursor.rows[p]? = r.rows[p]? := by
    simp [opened, OpenSource.start, Cursor.start]
  have width : size (l.opened r).source = r.rows.length := by
    simp [opened, OpenSource.start, Cursor.start, size]
  have own (x : Option Row) : (l.opened r).source.subRow x = ⟨r.columns, x, true⟩ := rfl
  have baseCell {v : Value} (read : (compose main earlier lead).column l.key.base l.key.baseKey = .ok v) :
      ctx.cell (l.databaseIn ctx) table row l.key.baseKey = v := by
    obtain ⟨s, there, read⟩ := Composition.columnOk.mp read
    cases sub.symm.trans there
    exact Context.cellRead fills based read
  obtain ⟨before, place⟩ := (memMembersPlain rfl).mp member
  have fits := membersFit before
  rcases place with ⟨bound, holds⟩ | ⟨_, past, alone⟩
  -- The row of the query that matches stands for the row with the key.
  · obtain ⟨u, v, key, other, same⟩ := matchEquated (openedEquated l r) known fresh fits holds
    obtain ⟨row', there⟩ : ∃ row', r.rows[p]? = some row' :=
      ⟨_, List.getElem?_eq_getElem (width ▸ bound)⟩
    obtain ⟨target, stored, reads⟩ := readMatched mirrors generated entry delivers there
    rw [own, rowAt, there, (reads true).1] at key
    cases key
    rw [own, rowAt, there, (reads true).2, baseCell other,
      Context.referredRow fills mirrors.stored (edgeKey fills mirrors.stored edge) stored same]
  -- Every row of the table has one in the query, and each of them was asked in vain.
  · have missing : ctx.referred (l.databaseIn ctx) l.key.target l.key.targetKey
        (ctx.cell (l.databaseIn ctx) table row l.key.baseKey) = none := by
      refine Context.referredNone mirrors.stored fun target stored => ?_
      obtain ⟨q, r', there, head⟩ := mirrorOf mirrors stored
      have inside : q < size (l.opened r).source := width ▸ (List.getElem?_eq_some_iff.mp there).1
      obtain ⟨u, v, key, other, same⟩ := holdsEquated (openedEquated l r) known fresh fits
        (settled q (past ▸ inside) inside)
      rw [own, rowAt, there, mirrors.columns, readFirst head] at key
      cases key
      rw [baseCell other, ← same]
      exact alone q inside
    have empty : r.rows[p]? = none := by
      rw [past, width]
      exact List.getElem?_eq_none (Nat.le_refl _)
    have listed : column ∈ r.columns := by
      rw [mirrors.columns]
      exact List.mem_cons_of_mem _ (List.mem_map.mpr ⟨_, List.mem_of_getElem? entry, rfl⟩)
    rw [own, rowAt, empty, readPast listed, missing]
    simp only [Context.cellNone, nothing, ite_self]

/-- In every composition a link delivers from the row that the foreign key of its source refers to. -/
theorem linkReads (joined : Joined ctx evaluate s allowed first others entries relation sources)
    (evaluates : ctx.Evaluates params evaluate) (fills : ctx.storage.Fills ctx.catalog) {l : Link}
    (member : l ∈ entries) {name : Option String} {base : PathBase} (based : s.base name = .ok base)
    (same : l.key.base = base.name)
    (edge : ctx.catalog.edge (s.databaseOf base) base.table l.key.baseKey =
      .ok (l.key.target, l.key.targetKey))
    {t : TableStore} {r : Relation} {origins : List Row} (mirrors : l.Mirrors ctx t r origins)
    {later earlier : List JoinSource} (split : sources.reverse = later ++ l.opened r :: earlier)
    (left : ∀ i ∈ later, i.kind = .left) (known : base.name ∈ namesOf (opening first relation) earlier)
    {i : Nat} {select column : String} (entry : l.selects[i]? = some (select, column))
    (deliver : Option Row → Value) (nothing : deliver none = .null)
    (delivers : List.Forall₂ (fun row r => r.values[i + 1]? = some (deliver (some row))) origins r.rows)
    {x : Lead} (inside : x ∈ members (opening first relation) params sources.reverse)
    (settled : Settled (opening first relation) params sources.reverse x) :
    (compose (opening first relation) sources.reverse x).column l.name column = .ok (
      let next := ctx.referred (s.databaseOf base) l.key.target l.key.targetKey (ctx.cell
        (s.databaseOf base) base.table
        ((compose (opening first relation) sources.reverse x).row? base.name) l.key.baseKey)
      if column = l.key.targetKey then ctx.cell (s.databaseOf base) l.key.target next l.key.targetKey
      else deliver next) := by
  have there := linkDatabase joined member based same
  rw [split] at inside settled ⊢
  -- Only links follow, so the lead down to this one is still a member of the joins before them.
  obtain ⟨ps, y, rfl, width, inside'⟩ := membersBack (fun i among => by rw [left i among]; rfl) inside
  obtain ⟨p, lead, rfl⟩ := membersCons rfl inside'
  have before := ((memMembersPlain rfl).mp inside').1
  have fits := membersFit before
  have places := membersFit inside
  have fresh : l.name ∉ namesOf (opening first relation) earlier := joinedFresh joined split
  obtain ⟨t', row, hidden, stored, sub⟩ := baseSubRow joined evaluates based
    (split.trans (List.append_cons later (l.opened r) earlier)) fits known
  have baseRow : (compose (opening first relation) (later ++ l.opened r :: earlier)
      (ps ++ p :: lead)).row? base.name = row := by
    rw [List.append_cons later, List.append_cons ps] at places ⊢
    rw [Composition.row?, subRowLater (ps ++ [p]) (by simp [width]) places known, sub]
    rfl
  have ownRow : (compose (opening first relation) (later ++ l.opened r :: earlier)
      (ps ++ p :: lead)).subRow? l.name =
        some ((l.opened r).source.subRow (l.opened r).source.cursor.rows[p]?) := by
    rw [subRowLater ps width places (by simp [namesOf, opened, OpenSource.start])]
    exact subRowOwn fits fresh
  have reads := placeDelivers fills deliver mirrors (joined.made l member).columns entry nothing delivers
    (there ▸ edge) (there ▸ stored) (same ▸ sub) (same ▸ known) fresh inside'
    fun q less bound => settled later (l.opened r) earlier ps p lead rfl width rfl
      (by rw [askedPlain rfl]; exact before) q less bound
  rw [baseRow, ← there]
  exact Composition.columnOk.mpr ⟨_, ownRow, reads⟩

/-- The column that serves a path reads, in every composition, what the path delivers. -/
theorem joinedDelivers (joined : Joined ctx evaluate s allowed first others entries relation sources)
    (evaluates : ctx.Evaluates params evaluate) (fills : ctx.storage.Fills ctx.catalog)
    {name : Option String} {reference : String} {ref : ColumnRef} {names : List String} {base : PathBase}
    (linked : s.Linked entries (name, reference) ref) (forward : Path.Forward reference names)
    (based : s.base name = .ok base) (leads : ctx.catalog.Leads (s.databaseOf base) base.table names) :
    ∃ columns, Numbered columns ∧ columns.length + 1 = names.length ∧ columns.head? = some ref.column ∧
      ∀ x ∈ members (opening first relation) params sources.reverse,
        Settled (opening first relation) params sources.reverse x → ∀ scope : Scope,
          scope.row.sources = (compose (opening first relation) sources.reverse x).sources →
          (Expr.column ref).eval scope = .ok (ctx.delivered (s.databaseOf base) base.table
            ((compose (opening first relation) sources.reverse x).row? base.name) names columns) := by
  obtain ⟨base', binding, last, resolved, _, l, column, found, served, rfl⟩ := linked
  obtain ⟨based', first', _⟩ := PathScope.resolveOk resolved
  cases based.symm.trans based'
  obtain ⟨field, rest, target, key, select, rfl, edge, rfl, more⟩ := Binding.resolveStep forward first'
  obtain ⟨own, member⟩ := Links.linkKeyOf found
  have same := congrArg LinkKey.base own
  have there := linkDatabase joined member based same
  cases leads with
  | column _ _ => exact absurd rfl (Path.forwardSome more)
  | step edge' leads =>
      rw [← joined.catalog] at edge'
      cases edge.symm.trans edge'
      rw [joined.catalog] at edge
      obtain ⟨r, later, earlier, evaluated, place, left, known⟩ := joinedPlace joined member
      obtain ⟨t, origins, mirrors⟩ := joined.mirrored l member r evaluated
      obtain ⟨i, entry⟩ := List.getElem?_of_mem (Dictionary.getMember (d := l.selects) served)
      have made := joined.made l member
      -- The rest of the path has been taken in the query of the link.
      obtain ⟨columns, numbered, length, delivers⟩ :=
        mirrors.selections i _ rest entry more (by rw [there, own]; exact leads)
      have named : ∃ n : Nat, column = "c" ++ toString (n + 1) :=
        generatedMember (made.columns ▸ List.mem_map.mpr ⟨_, List.mem_of_getElem? entry, rfl⟩)
      have knownBase : base.name ∈ namesOf (opening first relation) earlier := by
        obtain ⟨rename, listed, named⟩ := baseNamed joined based
        exact named ▸ known _ listed
      refine ⟨column :: columns, List.forall_mem_cons.mpr ⟨named, numbered⟩, by simp [length], rfl,
        fun x inside settled scope sources => ?_⟩
      rw [madeRead made sources, linkReads joined evaluates fills member based same
        (by rw [own]; exact edge) mirrors place left knownBase entry
        (fun row => ctx.delivered (l.databaseIn ctx) l.key.target row rest columns)
        (Context.deliveredNone ..) delivers inside settled, Context.delivered, edge, there, own]
      rfl

/-! Links of paths -/

section
variable (joined : Joined ctx evaluate s allowed first others entries relation sources)
  (fills : ctx.storage.Fills ctx.catalog)
  (paths : ∀ p, allowed p → ∃ names, Path.Forward p.2 names) {explicit added : List JoinSource}
  (whole : sources = explicit ++ added) (own : others.mapM (JoinRun.openJoin evaluate) = .ok explicit)
  (links : List.Forall₂ (fun l j => ∃ r, evaluate (.derived l.query l.name) = .ok r ∧ j = l.opened r)
    entries added)
include joined fills paths whole own links

theorem joinedEach {P : List JoinSource → JoinSource → Prop}
    (each : ∀ l ∈ entries, ∀ r earlier, l.key.base ∈ namesOf (opening first relation) earlier →
      l.name ∉ namesOf (opening first relation) earlier →
        Unrepeated (l.opened r).source l.key.targetKey → P earlier (l.opened r)) :
    Each P explicit.reverse added.reverse := by
  refine eachIff.mpr fun front j back split => ?_
  have inside : j ∈ added := List.mem_reverse.mp (split ▸ List.mem_append_right _ List.mem_cons_self)
  obtain ⟨l, member, r, evaluated, rfl⟩ := alikeMember links inside
  have made := joined.made l member
  obtain ⟨entry, listed⟩ := List.exists_mem_of_ne_nil _ made.used
  obtain ⟨p, base, binding, last, here, resolved, _, key, database, _⟩ := made.purposes entry listed
  obtain ⟨based, found, _⟩ := PathScope.resolveOk resolved
  obtain ⟨rename, source, named⟩ := baseNamed joined based
  have known : l.key.base ∈ namesOf (opening first relation) (back ++ explicit.reverse) := by
    rw [key, Binding.linkKey, ← named]
    exact joinedKnown joined own back source
  have fresh : l.name ∉ namesOf (opening first relation) (back ++ explicit.reverse) :=
    have place : sources.reverse = front ++ l.opened r :: (back ++ explicit.reverse) := by
      simp [whole, split]
    joinedFresh joined place
  obtain ⟨t, origins, mirrors⟩ := joined.mirrored l member r evaluated
  obtain ⟨names, forward⟩ := paths p here
  obtain ⟨field, rest, target, primary, select, rfl, edge, rfl, more⟩ := Binding.resolveStep forward found
  have single : t.schema.singlePrimaryKey = .ok l.key.targetKey := by
    rw [joined.catalog, ← linkDatabase joined member based (congrArg LinkKey.base key)] at edge
    have stored := mirrors.stored
    rw [key] at stored ⊢
    exact edgeKey fills stored edge
  refine each l member r _ known fresh (unrepeated mirrors fills single (mirrors.ordered ?_))
  exact fun entry listed => PathScope.purposeForward paths (made.purposes entry listed)

theorem joinedSingle :
    Each (Single (opening first relation) params) explicit.reverse added.reverse :=
  joinedEach joined fills paths whole own links fun l _ r _ known fresh unrepeated =>
    singleEquated (openedEquated l r) known fresh unrepeated

theorem joinedSteady (mainly : ∀ p, allowed p → ∀ base, s.base p.1 = .ok base → base.name = first.name) :
    Each (Steady (opening first relation) params) explicit.reverse added.reverse := by
  refine joinedEach joined fills paths whole own links fun l member r _ known fresh _ =>
    steadyEquated (openedEquated l r) known fresh ?_
  have made := joined.made l member
  obtain ⟨entry, listed⟩ := List.exists_mem_of_ne_nil _ made.used
  obtain ⟨p, base, binding, last, here, resolved, _, key, _⟩ := made.purposes entry listed
  rw [key]
  exact mainly p here base (PathScope.resolveOk resolved).1

end

end Link

end RelQuery
