import RelQuery.Proofs.Expr.Substitution
import RelQuery.Proofs.Path.Rewriting

/-! Window calls by name and in full. Where the specification of a named window takes the place of its name,
every expression inside keeps its place, and those of the specification come in after each call. -/
namespace RelQuery

namespace WindowSpec

def hasPlainAggregate (s : WindowSpec Expr) : Bool := s.exprs.any Expr.hasPlainAggregate

end WindowSpec

namespace Expr

mutual

/-- An expression with a specification in the place of the name of a window. -/
def inlined (name : String) (spec : WindowSpec Expr) : Expr → Expr
  | .column ref => .column ref
  | .literal v => .literal v
  | .param i => .param i
  | .path table reference => .path table reference
  | .binary op l r => .binary op (inlined name spec l) (inlined name spec r)
  | .unary op e => .unary op (inlined name spec e)
  | .call f args => .call f (inlinedList name spec args)
  | .aggregate func arg distinct frame =>
      .aggregate func (inlinedArg name spec arg) distinct (inlinedOver name spec frame)
  | .between negated e low high =>
      .between negated (inlined name spec e) (inlined name spec low) (inlined name spec high)
  | .inList negated e items => .inList negated (inlined name spec e) (inlinedList name spec items)
  | .like negated e pattern => .like negated (inlined name spec e) pattern
  termination_by structural e => e

def inlinedList (name : String) (spec : WindowSpec Expr) : List Expr → List Expr
  | [] => []
  | e :: es => inlined name spec e :: inlinedList name spec es
  termination_by structural es => es

def inlinedArg (name : String) (spec : WindowSpec Expr) : Option Expr → Option Expr
  | none => none
  | some e => some (inlined name spec e)
  termination_by structural a => a

def inlinedOver (name : String) (spec : WindowSpec Expr) : Option (Over Expr) → Option (Over Expr)
  | none => none
  | some (.named other) => some (if other = name then .spec spec else .named other)
  | some (.spec ⟨base, partitionBy, orderBy⟩) =>
      some (.spec ⟨base, inlinedList name spec partitionBy, inlinedKeys name spec orderBy⟩)
  termination_by structural o => o

def inlinedKeys (name : String) (spec : WindowSpec Expr) : List (SortKey Expr) → List (SortKey Expr)
  | [] => []
  | ⟨e, direction⟩ :: ks => ⟨inlined name spec e, direction⟩ :: inlinedKeys name spec ks
  termination_by structural ks => ks

end

/-- A call over a window of some name. -/
def isNamed (name : String) : Expr → Bool
  | .aggregate _ _ _ (some (.named other)) => other == name
  | _ => false

/-- A call whose specification is based on a window of some name. -/
def isBased (name : String) : Expr → Bool
  | .aggregate _ _ _ (some (.spec s)) => s.base == some name
  | _ => false

def names (name : String) (e : Expr) : Bool := e.nodes.any (isNamed name)

variable {name : String} {spec : WindowSpec Expr} {e n : Expr} {ns ns' ms ms' : List Expr}

theorem inlinedListEq (es : List Expr) : inlinedList name spec es = es.map (inlined name spec) := by
  induction es with
  | nil => rfl
  | cons e es ih => rw [inlinedList, ih, List.map_cons]

theorem inlinedKeysEq (ks : List (SortKey Expr)) :
    inlinedKeys name spec ks = ks.map (mapKey (inlined name spec)) := by
  induction ks with
  | nil => rfl
  | cons k ks ih => rw [inlinedKeys, ih, List.map_cons, mapKey]

theorem inlinedArgEq (a : Option Expr) : inlinedArg name spec a = a.map (inlined name spec) := by
  cases a <;> rfl

theorem isNamedOf (named : n.isNamed name = true) :
    ∃ func arg distinct, n = .aggregate func arg distinct (some (.named name)) := by
  unfold isNamed at named
  split at named
  · rw [beq_iff_eq.mp named]
    exact ⟨_, _, _, rfl⟩
  · cases named

theorem inlinedOther (other : e.isNamed name = false) :
    e.inlined name spec = mapParts (inlined name spec) e := by
  cases e with
  | aggregate func arg distinct frame =>
      rcases frame with _ | window | ⟨base, partitionBy, orderBy⟩
      · rw [inlined, inlinedArgEq, inlinedOver]
        rfl
      · have apart : window ≠ name := by simpa [isNamed] using other
        rw [inlined, inlinedArgEq, inlinedOver, if_neg apart]
        rfl
      · rw [inlined, inlinedArgEq, inlinedOver, inlinedListEq, inlinedKeysEq]
        rfl
  | _ => simp [inlined, mapParts, inlinedListEq]

theorem inlinedNamed (func : AggregateFunc) (arg : Option Expr) (distinct : Bool) :
    inlined name spec (.aggregate func arg distinct (some (.named name))) =
      .aggregate func (arg.map (inlined name spec)) distinct (some (.spec spec)) := by
  rw [inlined, inlinedArgEq, inlinedOver, if_pos rfl]

theorem inlinedWindow (n : Expr) : (n.inlined name spec).isWindow = n.isWindow := by
  cases n with
  | aggregate func arg distinct frame =>
      rcases frame with _ | window | spec' <;> rfl
  | _ => rfl

theorem inlinedPlainAggregate (n : Expr) :
    (n.inlined name spec).isPlainAggregate = n.isPlainAggregate := by
  cases n with
  | aggregate func arg distinct frame =>
      rcases frame with _ | window | spec' <;> rfl
  | _ => rfl

theorem inlinedPath (n : Expr) : (n.inlined name spec).isPath = n.isPath := by cases n <;> rfl

theorem windowNamed (named : n.isNamed name = true) : n.isWindow = true := by
  obtain ⟨func, arg, distinct, rfl⟩ := isNamedOf named
  rfl

theorem namesWindow (plain : e.hasWindow = false) : e.names name = false :=
  List.any_eq_false.mpr fun n member named => List.any_eq_false.mp plain n member (windowNamed named)

/-! The walk -/

/-- A walk and what becomes of it. -/
inductive Inlining (name : String) (spec : WindowSpec Expr) : List Expr → List Expr → Prop
  | nil : Inlining name spec [] []
  | other {n : Expr} {ns ns' : List Expr} : n.isNamed name = false → Inlining name spec ns ns' →
      Inlining name spec (n :: ns) (n.inlined name spec :: ns')
  | named {n : Expr} {ns ns' ms ms' : List Expr} : n.isNamed name = true →
      Inlining name spec ns ns' → Inlining name spec ms ms' → Inlining name spec (n :: (ns ++ ms))
        (n.inlined name spec :: (ns' ++ (spec.exprs.flatMap nodes ++ ms')))

theorem inliningAppend (first : Inlining name spec ns ns') (second : Inlining name spec ms ms') :
    Inlining name spec (ns ++ ms) (ns' ++ ms') := by
  induction first with
  | nil => exact second
  | other apart _ ih => exact .other apart ih
  | named own one _ _ ih =>
      simp only [List.cons_append, List.append_assoc]
      exact .named own one ih

theorem inliningAll {es : List Expr}
    (each : ∀ p ∈ es, Inlining name spec p.nodes (p.inlined name spec).nodes) :
    Inlining name spec (es.flatMap nodes) ((es.map (inlined name spec)).flatMap nodes) := by
  induction es with
  | nil => exact .nil
  | cons e es ih =>
      obtain ⟨own, others⟩ := List.forall_mem_cons.mp each
      exact inliningAppend own (ih others)

theorem inlining (e : Expr) : Inlining name spec e.nodes (e.inlined name spec).nodes := by
  induction e using partsInduction with
  | step e ih =>
      cases named : e.isNamed name with
      | false =>
          rw [nodesEq e, nodesEq (e.inlined name spec), inlinedOther named, mapPartsParts,
            ← inlinedOther named]
          exact .other named (inliningAll ih)
      | true =>
          obtain ⟨func, arg, distinct, rfl⟩ := isNamedOf named
          have parts : Inlining name spec (arg.toList.flatMap nodes)
              ((arg.toList.map (inlined name spec)).flatMap nodes) :=
            inliningAll fun p member => ih p (List.mem_append_left _ member)
          have walk := Inlining.named named parts .nil
          rw [List.append_nil, List.append_nil] at walk
          rw [nodesEq, nodesEq (inlined ..), inlinedNamed]
          rw [inlinedNamed] at walk
          simpa [Expr.parts, overParts, Option.toList_map] using walk

/-! What stands in the result of a walk -/

theorem inliningMember (walk : Inlining name spec ns ns') (member : n ∈ ns') :
    (∃ o ∈ ns, n = o.inlined name spec) ∨
      ns.any (isNamed name) = true ∧ n ∈ spec.exprs.flatMap nodes := by
  induction walk with
  | nil => cases member
  | @other o ns ns' apart _ ih =>
      rcases List.mem_cons.mp member with rfl | later
      · exact .inl ⟨o, List.mem_cons_self, rfl⟩
      · rcases ih later with ⟨o, there, same⟩ | ⟨some, inside⟩
        · exact .inl ⟨o, List.mem_cons_of_mem _ there, same⟩
        · exact .inr ⟨by simp [some], inside⟩
  | @named o ns ns' ms ms' own _ _ first second =>
      have some : (o :: (ns ++ ms)).any (isNamed name) = true := by simp [own]
      rcases List.mem_cons.mp member with rfl | later
      · exact .inl ⟨o, List.mem_cons_self, rfl⟩
      · rcases List.mem_append.mp later with early | late
        · rcases first early with ⟨o, there, same⟩ | ⟨_, inside⟩
          · exact .inl ⟨o, List.mem_cons_of_mem _ (List.mem_append_left _ there), same⟩
          · exact .inr ⟨some, inside⟩
        · rcases List.mem_append.mp late with inside | last
          · exact .inr ⟨some, inside⟩
          · rcases second last with ⟨o, there, same⟩ | ⟨_, inside⟩
            · exact .inl ⟨o, List.mem_cons_of_mem _ (List.mem_append_right _ there), same⟩
            · exact .inr ⟨some, inside⟩

theorem inliningKeeps (walk : Inlining name spec ns ns') (member : n ∈ ns) :
    n.inlined name spec ∈ ns' := by
  induction walk with
  | nil => cases member
  | other _ _ ih =>
      rcases List.mem_cons.mp member with rfl | later
      · exact List.mem_cons_self
      · exact List.mem_cons_of_mem _ (ih later)
  | named _ _ _ first second =>
      rcases List.mem_cons.mp member with rfl | later
      · exact List.mem_cons_self
      · refine List.mem_cons_of_mem _ ?_
        rcases List.mem_append.mp later with early | late
        · exact List.mem_append_left _ (first early)
        · exact List.mem_append_right _ (List.mem_append_right _ (second late))

theorem inliningSpec (walk : Inlining name spec ns ns') (some : ns.any (isNamed name) = true) :
    spec.exprs.flatMap nodes ⊆ ns' := by
  induction walk with
  | nil => cases some
  | other apart _ ih =>
      rw [List.any_cons, apart, Bool.false_or] at some
      exact List.Subset.trans (ih some) (List.subset_cons_self ..)
  | named _ _ _ _ _ =>
      intro n inside
      exact List.mem_cons_of_mem _ (List.mem_append_right _ (List.mem_append_left _ inside))

/-- Expressions of some sort are the same ones, as long as the specification has none. -/
theorem inliningFilter {p : Expr → Bool} (kept : ∀ n, p (n.inlined name spec) = p n)
    (none : (spec.exprs.flatMap nodes).filter p = []) (walk : Inlining name spec ns ns') :
    ns'.filter p = (ns.filter p).map (inlined name spec) := by
  induction walk with
  | nil => rfl
  | other _ _ ih => simp only [List.filter_cons, kept, ih, apply_ite (List.map _), List.map_cons]
  | named _ _ _ first second =>
      simp only [List.filter_cons, List.filter_append, kept, none, first, second, List.nil_append,
        apply_ite (List.map _), List.map_cons, List.map_append]

/-- Up to the first call over the window, expressions of some sort are the same ones. -/
theorem inliningFirst {p : Expr → Bool} (kept : ∀ n, p (n.inlined name spec) = p n)
    (own : ∀ n, n.isNamed name = true → p n = true) (walk : Inlining name spec ns ns') :
    ns'.filter p = (ns.filter p).map (inlined name spec) ∨
      ∃ before n after after', n.isNamed name = true ∧ ns.filter p = before ++ n :: after ∧
        ns'.filter p = before.map (inlined name spec) ++ n.inlined name spec :: after' := by
  induction walk with
  | nil => exact .inl rfl
  | @other o ns ns' _ _ ih =>
      cases here : p o with
      | false => simpa only [List.filter_cons, kept, here, Bool.false_eq_true, if_false] using ih
      | true =>
          simp only [List.filter_cons, kept, here, if_true, List.map_cons]
          rcases ih with same | ⟨before, n, after, after', named, split, split'⟩
          · exact .inl (congrArg _ same)
          · exact .inr ⟨o :: before, n, after, after', named, congrArg _ split, congrArg _ split'⟩
  | @named o ns ns' ms ms' named _ _ _ _ =>
      exact .inr ⟨[], o, (ns ++ ms).filter p, (ns' ++ (spec.exprs.flatMap nodes ++ ms')).filter p, named,
        List.filter_cons_of_pos (own o named), List.filter_cons_of_pos ((kept o).trans (own o named))⟩

theorem inliningAny {p : Expr → Bool} (kept : ∀ n, p (n.inlined name spec) = p n)
    (walk : Inlining name spec ns ns') :
    ns'.any p = (ns.any p || ns.any (isNamed name) && spec.exprs.any fun e => e.nodes.any p) := by
  rw [Bool.eq_iff_iff, Bool.or_eq_true, Bool.and_eq_true]
  constructor
  · intro some
    obtain ⟨n, member, holds⟩ := List.any_eq_true.mp some
    rcases inliningMember walk member with ⟨o, there, rfl⟩ | ⟨named, inside⟩
    · exact .inl (List.any_eq_true.mpr ⟨o, there, (kept o).symm.trans holds⟩)
    · obtain ⟨e, listed, inside⟩ := List.mem_flatMap.mp inside
      exact .inr ⟨named, List.any_eq_true.mpr ⟨e, listed, List.any_eq_true.mpr ⟨n, inside, holds⟩⟩⟩
  · rintro (some | ⟨named, some⟩)
    · obtain ⟨n, member, holds⟩ := List.any_eq_true.mp some
      exact List.any_eq_true.mpr ⟨_, inliningKeeps walk member, (kept n).trans holds⟩
    · obtain ⟨e, listed, some⟩ := List.any_eq_true.mp some
      obtain ⟨n, inside, holds⟩ := List.any_eq_true.mp some
      exact List.any_eq_true.mpr
        ⟨n, inliningSpec walk named (List.mem_flatMap.mpr ⟨e, listed, inside⟩), holds⟩

theorem inlinedHasWindow (e : Expr) : (e.inlined name spec).hasWindow = e.hasWindow := by
  unfold hasWindow
  rw [inliningAny inlinedWindow (inlining e)]
  cases named : e.nodes.any (isNamed name) with
  | false => rw [Bool.false_and, Bool.or_false]
  | true =>
      obtain ⟨n, member, own⟩ := List.any_eq_true.mp named
      rw [List.any_eq_true.mpr ⟨n, member, windowNamed own⟩, Bool.true_or]

theorem inlinedHasPlainAggregate (e : Expr) : (e.inlined name spec).hasPlainAggregate =
    (e.hasPlainAggregate || e.names name && spec.hasPlainAggregate) :=
  inliningAny inlinedPlainAggregate (inlining e)

theorem inlinedAbsent (absent : e.names name = false) : e.inlined name spec = e := by
  induction e using partsInduction with
  | step e ih =>
      have own : e.isNamed name = false := by simpa using List.any_eq_false.mp absent e (nodesSelf e)
      have parts : mapParts (inlined name spec) e = mapParts id e := by
        refine mapPartsAlike fun p part => ih p part (List.any_eq_false.mpr fun n member => ?_)
        exact List.any_eq_false.mp absent n (nodesPart part member)
      rw [inlinedOther own, parts, mapPartsId]

theorem inlinedReference (n : Expr) : (n.inlined name spec).reference? = n.reference? := by cases n <;> rfl

theorem inlinedReferences {p : Reference} : p ∈ references (e.inlined name spec).nodes ↔
    p ∈ references e.nodes ∨ e.names name = true ∧ p ∈ spec.exprs.flatMap fun o => references o.nodes := by
  have walk : Inlining name spec e.nodes (e.inlined name spec).nodes := inlining e
  constructor
  · intro there
    obtain ⟨n, member, own⟩ := List.mem_filterMap.mp there
    rcases inliningMember walk member with ⟨o, before, rfl⟩ | ⟨named, inside⟩
    · exact .inl (List.mem_filterMap.mpr ⟨o, before, (inlinedReference o).symm.trans own⟩)
    · obtain ⟨e', listed, inside⟩ := List.mem_flatMap.mp inside
      exact .inr ⟨named, List.mem_flatMap.mpr ⟨e', listed, List.mem_filterMap.mpr ⟨n, inside, own⟩⟩⟩
  · rintro (there | ⟨named, there⟩)
    · obtain ⟨n, member, own⟩ := List.mem_filterMap.mp there
      exact List.mem_filterMap.mpr ⟨_, inliningKeeps walk member, (inlinedReference n).trans own⟩
    · obtain ⟨e', listed, there⟩ := List.mem_flatMap.mp there
      obtain ⟨n, member, own⟩ := List.mem_filterMap.mp there
      exact List.mem_filterMap.mpr ⟨n, inliningSpec walk named (List.mem_flatMap.mpr ⟨e', listed, member⟩), own⟩

/-! Substitutions -/

theorem substituteInlined {m : Type → Type} [Monad m] [LawfulMonad m] {f f' : Expr → Option (m Expr)}
    (e : Expr) (calls : ∀ n ∈ e.nodes, n.isWindow = true → (f n).isSome = true ∧ f' (n.inlined name spec) = f n)
    (others : ∀ n, n.isWindow = false → f n = none ∧ f' n = none) :
    (e.inlined name spec).substituteM f' = e.substituteM f := by
  induction e using partsInduction with
  | step e ih =>
      rw [substituteEq, substituteEq]
      cases window : e.isWindow with
      | true =>
          obtain ⟨some, same⟩ := calls e (nodesSelf e) window
          obtain ⟨other, replaced⟩ := Option.isSome_iff_exists.mp some
          rw [same, replaced]
          rfl
      | false =>
          have named : e.isNamed name = false := by
            cases named : e.isNamed name with
            | false => rfl
            | true => exact (windowNamed named).symm.trans window
          rw [(others e window).1, (others _ ((inlinedWindow e).trans window)).2, inlinedOther named,
            Option.getD_none, Option.getD_none, traverseMapped]
          exact traverseAlike fun p part => ih p part fun n member => calls n (nodesPart part member)

theorem linkedNamed (σ : Reference → ColumnRef) (n : Expr) : (n.linked σ).isNamed name = n.isNamed name := by
  rw [linkedEq]
  cases n with
  | aggregate func arg distinct frame =>
      rcases frame with _ | window | spec' <;> rfl
  | _ => rfl

/-- References become columns in a specification wherever it stands. -/
theorem linkedInlined (σ : Reference → ColumnRef) (e : Expr) :
    (e.inlined name spec).linked σ = (e.linked σ).inlined name (mapSpec (linked σ) spec) := by
  induction e using partsInduction with
  | step e ih =>
      cases path : e.isPath with
      | true =>
          cases e <;> first | rfl | cases path
      | false =>
          rw [linkedOther path, linkedOther ((inlinedPath e).trans path)]
          cases named : e.isNamed name with
          | false =>
              have kept : (mapParts (linked σ) e).isNamed name = false := by
                rw [← linkedOther path, linkedNamed, named]
              rw [inlinedOther named, inlinedOther kept, mapPartsMapped, mapPartsMapped]
              exact mapPartsAlike ih
          | true =>
              obtain ⟨func, arg, distinct, rfl⟩ := isNamedOf named
              have own : (arg.map (inlined name spec)).map (linked σ) =
                  (arg.map (linked σ)).map (inlined name (mapSpec (linked σ) spec)) := by
                cases arg with
                | none => rfl
                | some e => exact congrArg some (ih e List.mem_cons_self)
              rw [inlinedNamed]
              show Expr.aggregate func ((arg.map (inlined name spec)).map (linked σ)) distinct _ = _
              rw [own]
              exact (inlinedNamed ..).symm

theorem linkedBased (σ : Reference → ColumnRef) (n : Expr) : (n.linked σ).isBased name = n.isBased name := by
  rw [linkedEq]
  cases n with
  | aggregate func arg distinct frame =>
      rcases frame with _ | window | spec' <;> rfl
  | _ => rfl

theorem linkedHasPlainAggregate (σ : Reference → ColumnRef) (e : Expr) :
    (e.linked σ).hasPlainAggregate = e.hasPlainAggregate := by
  have each (n : Expr) : (n.linked σ).isPlainAggregate = n.isPlainAggregate := by
    rw [linkedEq]
    cases n with
    | aggregate func arg distinct frame =>
        rcases frame with _ | window | spec' <;> rfl
    | _ => rfl
  rw [hasPlainAggregate, linkedNodes, List.any_map]
  exact congrArg e.nodes.any (funext each)

theorem linkedSpecAggregate (σ : Reference → ColumnRef) (spec : WindowSpec Expr) :
    (mapSpec (linked σ) spec).hasPlainAggregate = spec.hasPlainAggregate := by
  rw [WindowSpec.hasPlainAggregate, mapSpecExprs, List.any_map]
  exact congrArg spec.exprs.any (funext (linkedHasPlainAggregate σ))

theorem linkedNames (σ : Reference → ColumnRef) (e : Expr) : (e.linked σ).names name = e.names name := by
  rw [names, linkedNodes, List.any_map]
  exact congrArg e.nodes.any (funext (linkedNamed σ))

/-- A column in an expression whose references have become columns was there, or stands for a reference. -/
theorem linkedColumn {σ : Reference → ColumnRef} {ref : ColumnRef} (member : .column ref ∈ (e.linked σ).nodes) :
    .column ref ∈ e.nodes ∨ ∃ p ∈ references e.nodes, ref = σ p := by
  rw [linkedNodes] at member
  obtain ⟨n, inside, same⟩ := List.mem_map.mp member
  cases n with
  | column ref' =>
      cases same
      exact .inl inside
  | path table reference =>
      cases same
      exact .inr ⟨(table, reference), List.mem_filterMap.mpr ⟨_, inside, rfl⟩, rfl⟩
  | _ =>
      rw [linkedOther rfl] at same
      cases same

end Expr

end RelQuery
