import Mathlib.Data.List.Induction
import Mathlib.Tactic.Choose
import RelQuery.Proofs.Expr.Parts
import RelQuery.Proofs.Grouping
import RelQuery.Proofs.Path.Links

/-! What an expansion makes of expressions. A reference becomes the column that the links serve it by in
the end, whatever is linked after it, so every part of a statement is rewritten by one substitution. -/
namespace RelQuery

namespace Expr

def reference? : Expr → Option Reference
  | .path name reference => some (name, reference)
  | _ => none

def references (es : List Expr) : List Reference := es.filterMap reference?

/-- A column in the place of a reference. -/
def column? (σ : Reference → ColumnRef) : Expr → Option (Id Expr)
  | .path name reference => some (.column (σ (name, reference)))
  | _ => none

/-- An expression with columns in the places of its references. -/
def linked (σ : Reference → ColumnRef) (e : Expr) : Expr := e.substituteM (column? σ)

variable {σ : Reference → ColumnRef} {e : Expr}

theorem linkedEq (σ : Reference → ColumnRef) (e : Expr) :
    e.linked σ = (column? σ e).getD (mapParts (linked σ) e) := by
  rw [linked, substituteEq]
  exact congrArg ((column? σ e).getD ·) (traversePure (m := Id) (linked σ) e)

theorem linkedOther (other : e.isPath = false) :
    e.linked σ = mapParts (linked σ) e := by
  rw [linkedEq]
  cases e <;> first | rfl | cases other

theorem linkedPlain (plain : e.hasPath = false) : e.linked σ = e := by
  induction e using partsInduction with
  | step e ih =>
      have own : e.isPath = false := by simpa using List.any_eq_false.mp plain e (nodesSelf e)
      have parts : mapParts (linked σ) e = mapParts id e := by
        refine mapPartsAlike fun p part => ih p part (List.any_eq_false.mpr fun n member => ?_)
        exact List.any_eq_false.mp plain n (nodesPart part member)
      rw [linkedOther own, parts, mapPartsId]

/-- The walk of an expression whose references have become columns. -/
theorem linkedNodes (σ : Reference → ColumnRef) (e : Expr) :
    (e.linked σ).nodes = e.nodes.map (linked σ) := by
  induction e using partsInduction with
  | step e ih =>
      cases path : e.isPath with
      | true =>
          cases e <;> first | rfl | cases path
      | false =>
          have parts : (e.parts.map (linked σ)).flatMap nodes = (e.parts.flatMap nodes).map (linked σ) := by
            rw [List.flatMap_map, List.map_flatMap]
            exact List.flatMap_congr ih
          rw [nodesEq, linkedOther path, mapPartsParts, parts, nodesEq e, List.map_cons, linkedOther path]

end Expr

namespace PathScope

/-- What a link is for: a selection of a reference that was resolved along its edge. -/
def Purpose (s : PathScope) (allowed : Reference → Prop) (key : LinkKey) (database : Option String)
    (select : String) : Prop :=
  ∃ p base binding last, allowed p ∧ s.resolve p.1 p.2 = .ok (base, binding, last) ∧
    last.selectsAll = false ∧ key = binding.linkKey base.name ∧ database = base.database ∧
      select = binding.target.select

/-- The column by which links serve a reference. -/
def Linked (s : PathScope) (entries : List Link) (p : Reference) (ref : ColumnRef) : Prop :=
  ∃ base binding last, s.resolve p.1 p.2 = .ok (base, binding, last) ∧ last.selectsAll = false ∧
    Links.Serves entries (binding.linkKey base.name) binding.target.select ref

variable {s : PathScope} {allowed : Reference → Prop} {ls ls' : Links} {p : Reference}
  {ref : ColumnRef} {entries entries' : List Link}

theorem linkedGrows (linked : s.Linked entries p ref) (grows : Links.Grows entries entries') :
    s.Linked entries' p ref := by
  obtain ⟨base, binding, last, resolved, plain, serves⟩ := linked
  exact ⟨base, binding, last, resolved, plain, Links.servesGrows serves grows⟩

theorem linkedOnce {ref' : ColumnRef} (linked : s.Linked entries p ref)
    (linked' : s.Linked entries p ref') : ref = ref' := by
  obtain ⟨base, binding, last, resolved, _, serves⟩ := linked
  obtain ⟨base', binding', last', resolved', _, serves'⟩ := linked'
  cases resolved.symm.trans resolved'
  exact Links.servesOnce serves serves'

/-! The source of a reference -/

theorem sourceFound {name : Option String} {source : Source} (found : s.source name = .ok source) :
    s.sources.find? (·.name == source.name) = some source := by
  unfold PathScope.source at found
  split at found
  · split at found
    · rename_i first there
      cases found
      obtain ⟨rest, same⟩ := List.head?_eq_some_iff.mp there
      rw [same, List.find?_cons_of_pos (by simp)]
    · cases found
  · split at found
    · rename_i there
      cases found
      have same := List.find?_some there
      rw [beq_iff_eq] at same
      rw [same, there]
    · cases found

theorem baseOk {name : Option String} {base : PathBase} (ok : s.base name = .ok base) :
    ∃ database table rename, s.source name = .ok (.table database table rename) ∧
      base = ⟨rename.getD table, database, table⟩ ∧
        s.sources.find? (·.name == base.name) = some (.table database table rename) := by
  obtain ⟨source, found, ok⟩ := Outcome.bindOk.mp ok
  cases source with
  | table database table rename =>
      cases Outcome.pureOk.mp ok
      exact ⟨database, table, rename, found, rfl, sourceFound found⟩
  | derived query rename => cases ok

theorem baseOnce {name name' : Option String} {base base' : PathBase} (ok : s.base name = .ok base)
    (ok' : s.base name' = .ok base') (same : base.name = base'.name) : base = base' := by
  obtain ⟨_, _, _, _, rfl, found⟩ := baseOk ok
  obtain ⟨_, _, _, _, rfl, found'⟩ := baseOk ok'
  rw [same] at found
  cases found.symm.trans found'
  rfl

theorem resolveOk {name : Option String} {reference : String} {base : PathBase}
    {binding last : Binding} (ok : s.resolve name reference = .ok (base, binding, last)) :
    s.base name = .ok base ∧
      Binding.resolve s.catalog (s.databaseOf base) (some base.table) reference = .ok binding ∧
        binding.terminal s.catalog (s.databaseOf base) = .ok last := by
  obtain ⟨base, own, ok⟩ := Outcome.bindOk.mp ok
  obtain ⟨binding, first, ok⟩ := Outcome.bindOk.mp ok
  obtain ⟨last, ends, ok⟩ := Outcome.bindOk.mp ok
  cases Outcome.pureOk.mp ok
  exact ⟨own, first, ends⟩

/-! References that are attached one after another -/

/-- The links once a reference is attached, unless it has nothing to be replaced by. -/
def attachReference (s : PathScope) (ls : Links) (p : Reference) : Links :=
  match s.resolve p.1 p.2 with
  | .ok (base, binding, last) =>
      if last.selectsAll then ls else (ls.attach base.name base.database binding).1
  | .error _ => ls

/-- The key of the link that serves a reference. -/
def linkKey? (s : PathScope) (p : Reference) : Option LinkKey :=
  match s.resolve p.1 p.2 with
  | .ok (base, binding, last) => if last.selectsAll then none else some (binding.linkKey base.name)
  | .error _ => none

theorem attachReferenceCases (s : PathScope) (ls : Links) (p : Reference) :
    (s.attachReference ls p = ls ∧ s.linkKey? p = none) ∨
      ∃ base binding last, s.resolve p.1 p.2 = .ok (base, binding, last) ∧ last.selectsAll = false ∧
        s.linkKey? p = some (binding.linkKey base.name) ∧
          s.attachReference ls p = (ls.attach base.name base.database binding).1 := by
  unfold attachReference linkKey?
  split
  · rename_i base binding last resolved
    cases star : last.selectsAll with
    | true => exact .inl ⟨rfl, rfl⟩
    | false => exact .inr ⟨base, binding, last, resolved, star, rfl, rfl⟩
  · exact .inl ⟨rfl, rfl⟩

theorem attachedGrows (ps : List Reference) (ls : Links) :
    Links.Grows ls.entries (ps.foldl s.attachReference ls).entries := by
  induction ps generalizing ls with
  | nil => exact Links.growsRefl _
  | cons p ps ih =>
      refine Links.growsTrans ?_ (ih (s.attachReference ls p))
      rcases s.attachReferenceCases ls p with ⟨same, _⟩ | ⟨base, binding, last, _, _, _, same⟩
      · rw [same]
        exact Links.growsRefl _
      · rw [same]
        exact (Links.attachServes rfl).1

theorem attachedMade {ps : List Reference} (here : ∀ p ∈ ps, allowed p)
    (made : ∀ l ∈ ls.entries, Links.Made (s.Purpose allowed) l) :
    ∀ l ∈ (ps.foldl s.attachReference ls).entries, Links.Made (s.Purpose allowed) l := by
  induction ps generalizing ls with
  | nil => exact made
  | cons p ps ih =>
      obtain ⟨own, others⟩ := List.forall_mem_cons.mp here
      refine ih others ?_
      rcases s.attachReferenceCases ls p with ⟨same, _⟩ | ⟨base, binding, last, ok, star, _, same⟩
      · rw [same]
        exact made
      · rw [same]
        have purpose : s.Purpose allowed (binding.linkKey base.name) base.database
            binding.target.select := ⟨p, base, binding, last, own, ok, star, rfl, rfl, rfl⟩
        refine Links.attachMade made (fun l member key => ?_) purpose rfl
        -- The first of its selections came from the same source.
        obtain ⟨first, listed⟩ := List.exists_mem_of_ne_nil _ (made l member).used
        obtain ⟨p', base', binding', _, _, ok', _, key', database, _⟩ := (made l member).purposes first listed
        have start : base.name = base'.name := by
          rw [key] at key'
          exact congrArg LinkKey.base key'
        rw [key, database, ← baseOnce (resolveOk ok).1 (resolveOk ok').1 start]
        exact purpose

/-- There is one link for each key, in the order in which references need them first. -/
theorem attachedKeys (s : PathScope) (used : List String) (ps : List Reference) :
    (ps.foldl s.attachReference (Links.new used)).entries.map Link.key =
      (ps.filterMap s.linkKey?).eraseDups := by
  induction ps using List.reverseRecOn with
  | nil => rfl
  | append_singleton ps p ih =>
      rw [List.foldl_concat, List.filterMap_append]
      rcases s.attachReferenceCases (ps.foldl s.attachReference (Links.new used)) p with
        ⟨same, none⟩ | ⟨base, binding, last, _, _, key, same⟩
      · rw [same, ih, List.filterMap_cons_none none, List.filterMap_nil, List.append_nil]
      · rw [same, Links.attachKeys, ih, List.filterMap_cons_some key, List.filterMap_nil,
          Grouping.eraseDupsConcat]
        simp only [List.mem_eraseDups]

/-! Actions that link references -/

/-- Columns for references, those that links serve among them. -/
def Agrees (s : PathScope) (entries : List Link) (σ : Reference → ColumnRef) : Prop :=
  ∀ p ref, s.Linked entries p ref → σ p = ref

theorem agreesGrows {σ : Reference → ColumnRef} (agrees : s.Agrees entries' σ)
    (grows : Links.Grows entries entries') : s.Agrees entries σ :=
  fun p ref linked => agrees p ref (linkedGrows linked grows)

theorem agreesExists (s : PathScope) (entries : List Link) : ∃ σ, s.Agrees entries σ := by
  have each (p : Reference) : ∃ ref, ∀ ref', s.Linked entries p ref' → ref = ref' := by
    by_cases served : ∃ ref, s.Linked entries p ref
    · obtain ⟨ref, linked⟩ := served
      exact ⟨ref, fun ref' linked' => linkedOnce linked linked'⟩
    · exact ⟨⟨none, p.2⟩, fun ref' linked' => absurd ⟨ref', linked'⟩ served⟩
  choose σ agrees using each
  exact ⟨σ, agrees⟩

/-- An action attaches some references and serves them, and its result is the one that the columns of all
references make, as they stand once everything is linked. -/
structure Follows {α : Type} (s : PathScope) (ps : List Reference)
    (result : (Reference → ColumnRef) → α) (ls : Links) (a : α) (ls' : Links) : Prop where
  attached : ls' = ps.foldl s.attachReference ls
  served : ∀ p ∈ ps, ∃ ref, s.Linked ls'.entries p ref
  rewritten : ∀ σ, s.Agrees ls'.entries σ → a = result σ

/-- Every run of an action follows some references. -/
def Following {α : Type} (s : PathScope) (ps : List Reference) (action : Linking α)
    (result : (Reference → ColumnRef) → α) : Prop :=
  ∀ ls a ls', action.run ls = .ok (a, ls') → s.Follows ps result ls a ls'

variable {α β γ : Type} {ps qs : List Reference} {action : Linking α}
  {result : (Reference → ColumnRef) → α} {final : (Reference → ColumnRef) → β}

theorem followPure {a : α} : s.Following [] (pure a) fun _ => a := by
  intro ls a' ls' ran
  cases ran
  exact ⟨rfl, by simp, fun σ _ => rfl⟩

theorem followThrow {e : Error} : s.Following ps (throw e : Linking α) result := by
  intro ls a ls' ran
  cases ran

theorem followBind {next : α → Linking β} {g : (Reference → ColumnRef) → α → β}
    (first : s.Following ps action result) (rest : ∀ a, s.Following qs (next a) fun σ => g σ a) :
    s.Following (ps ++ qs) (action >>= next) fun σ => g σ (result σ) := by
  intro ls b ls'' ran
  obtain ⟨⟨a, ls'⟩, ran, ran'⟩ := Outcome.bindOk.mp ran
  obtain ⟨attached, served, rewritten⟩ := first ls a ls' ran
  obtain ⟨attached', served', rewritten'⟩ := rest a ls' b ls'' ran'
  have grows : Links.Grows ls'.entries ls''.entries := attached' ▸ attachedGrows qs ls'
  refine ⟨by rw [attached', attached, List.foldl_append], fun p member => ?_, fun σ agrees => ?_⟩
  · rcases List.mem_append.mp member with early | late
    · obtain ⟨ref, there⟩ := served p early
      exact ⟨ref, linkedGrows there grows⟩
    · exact served' p late
  · rw [← rewritten σ (agreesGrows agrees grows)]
    exact rewritten' σ agrees

theorem followLift {o : Outcome α} {next : α → Linking β}
    (rest : ∀ a, o = .ok a → s.Following ps (next a) final) :
    s.Following ps ((liftM o : Linking α) >>= next) final := by
  intro ls b ls' ran
  obtain ⟨⟨a, middle⟩, lifted, ran⟩ := Outcome.bindOk.mp ran
  obtain ⟨a', ok, last⟩ := Outcome.bindOk.mp lifted
  cases Outcome.pureOk.mp last
  exact rest a ok ls b ls' ran

theorem followMap (f : α → β) (follows : s.Following ps action result) :
    s.Following ps (action >>= fun a => pure (f a)) fun σ => f (result σ) := by
  rw [← List.append_nil ps]
  exact followBind follows fun a => followPure

theorem followTwo (f : α → β → γ) {other : Linking β} (first : s.Following ps action result)
    (second : s.Following qs other final) :
    s.Following (ps ++ qs) (action >>= fun a => other >>= fun b => pure (f a b))
      fun σ => f (result σ) (final σ) :=
  followBind first fun a => followMap (f a) second

theorem followLink {name : Option String} {reference : String} :
    s.Following [(name, reference)] (s.link name reference) fun σ => .column (σ (name, reference)) := by
  refine followLift fun resolved ok => ?_
  obtain ⟨base, binding, last⟩ := resolved
  simp only
  split
  · exact followThrow
  · rename_i plain
    intro ls e ls' ran
    have ran : Except.ok (Expr.column (ls.attach base.name base.database binding).2,
        (ls.attach base.name base.database binding).1) = Except.ok (e, ls') := ran
    cases ran
    have star : last.selectsAll = false := by simpa using plain
    have linked : s.Linked (ls.attach base.name base.database binding).1.entries (name, reference)
        (ls.attach base.name base.database binding).2 :=
      ⟨base, binding, last, ok, star, (Links.attachServes rfl).2⟩
    refine ⟨?_, fun p member => ?_, fun σ agrees => ?_⟩
    · simp only [List.foldl_cons, List.foldl_nil, attachReference, ok, star, Bool.false_eq_true, if_false]
    · cases List.mem_singleton.mp member
      exact ⟨_, linked⟩
    · rw [agrees _ _ linked]

theorem followList (f : α → Linking β) {refs : α → List Reference}
    {g : (Reference → ColumnRef) → α → β} (xs : List α)
    (each : ∀ x, s.Following (refs x) (f x) fun σ => g σ x) :
    s.Following (xs.flatMap refs) (xs.mapM f) fun σ => xs.map (g σ) := by
  induction xs with
  | nil => exact followPure
  | cons x xs ih =>
      rw [List.mapM_cons]
      exact followTwo List.cons (each x) ih

theorem followOption (f : α → Linking β) {refs : α → List Reference}
    {g : (Reference → ColumnRef) → α → β} (x : Option α)
    (each : ∀ y, s.Following (refs y) (f y) fun σ => g σ y) :
    s.Following (x.toList.flatMap refs) (x.mapM f) fun σ => x.map (g σ) := by
  cases x with
  | none => exact followPure
  | some y =>
      simp only [Option.toList_some, List.flatMap_cons, List.flatMap_nil, List.append_nil]
      exact followMap some (each y)

/-! Expressions -/

/-- The substitution of an expansion, by the columns of the links. -/
def linkOf (s : PathScope) : Expr → Option (Linking Expr)
  | .path name reference => some (s.link name reference)
  | _ => none

theorem referencesAppend (es es' : List Expr) :
    Expr.references (es ++ es') = Expr.references es ++ Expr.references es' :=
  List.filterMap_append

section
open RelQuery.Expr

mutual

theorem followExpr : (e : Expr) →
    s.Following (references e.nodes) (e.substituteM s.linkOf) fun σ => e.linked σ
  | .column _ => followPure
  | .literal _ => followPure
  | .param _ => followPure
  | .path _ _ => followLink
  | .binary op l r => by
      have parts : references (nodes (.binary op l r)) = references (nodes l) ++ references (nodes r) :=
        referencesAppend _ _
      rw [parts]
      exact followTwo (binary op) (followExpr l) (followExpr r)
  | .unary op e => followMap (unary op) (followExpr e)
  | .call name args => followMap (call name) (followItems args)
  | .aggregate func arg distinct frame => by
      have parts : references (nodes (.aggregate func arg distinct frame)) =
          references (nodesOfArg arg) ++ references (nodesOfOver frame) := referencesAppend _ _
      rw [parts]
      exact followTwo (fun arg frame => aggregate func arg distinct frame) (followArg arg)
        (followOver frame)
  | .between negated e low high => by
      have parts : references (nodes (.between negated e low high)) =
          references (nodes e) ++ (references (nodes low) ++ references (nodes high)) := by
        rw [← List.append_assoc, ← referencesAppend, ← referencesAppend]
        rfl
      rw [parts]
      exact followBind (g := fun σ e' => between negated e' (low.linked σ) (high.linked σ))
        (followExpr e) fun e' =>
          followTwo (between negated e') (followExpr low) (followExpr high)
  | .inList negated e items => by
      have parts : references (nodes (.inList negated e items)) =
          references (nodes e) ++ references (nodesOfList items) := referencesAppend _ _
      rw [parts]
      exact followTwo (inList negated) (followExpr e) (followItems items)
  | .like negated e pattern => followMap (fun e => like negated e pattern) (followExpr e)
  termination_by structural e => e

theorem followItems : (es : List Expr) →
    s.Following (references (nodesOfList es)) (substituteList s.linkOf es)
      fun σ => substituteList (column? σ) es
  | [] => followPure
  | e :: es => by
      have parts : references (nodesOfList (e :: es)) =
          references (nodes e) ++ references (nodesOfList es) := referencesAppend _ _
      rw [parts]
      exact followTwo List.cons (followExpr e) (followItems es)
  termination_by structural es => es

theorem followArg : (a : Option Expr) →
    s.Following (references (nodesOfArg a)) (substituteArg s.linkOf a)
      fun σ => substituteArg (column? σ) a
  | none => followPure
  | some e => followMap some (followExpr e)
  termination_by structural a => a

theorem followOver : (o : Option (Over Expr)) →
    s.Following (references (nodesOfOver o)) (substituteOver s.linkOf o)
      fun σ => substituteOver (column? σ) o
  | none => followPure
  | some (.named _) => followPure
  | some (.spec ⟨base, partitionBy, orderBy⟩) => by
      have parts : references (nodesOfOver (some (.spec ⟨base, partitionBy, orderBy⟩))) =
          references (nodesOfList partitionBy) ++ references (nodesOfKeys orderBy) :=
        referencesAppend _ _
      rw [parts]
      exact followTwo (fun partitionBy orderBy => some (Over.spec ⟨base, partitionBy, orderBy⟩))
        (followItems partitionBy) (followKeys orderBy)
  termination_by structural o => o

theorem followKeys : (ks : List (SortKey Expr)) →
    s.Following (references (nodesOfKeys ks)) (substituteKeys s.linkOf ks)
      fun σ => substituteKeys (column? σ) ks
  | [] => followPure
  | ⟨e, direction⟩ :: ks => by
      have parts : references (nodesOfKeys (⟨e, direction⟩ :: ks)) =
          references (nodes e) ++ references (nodesOfKeys ks) := referencesAppend _ _
      rw [parts]
      exact followTwo (fun e ks => ⟨e, direction⟩ :: ks) (followExpr e) (followKeys ks)
  termination_by structural ks => ks

end

end

end PathScope

end RelQuery
