import RelQuery.Proofs.Expr.Inlining
import RelQuery.Proofs.Select.Sharing

/-! Window definitions. A chain of base names that ends meets each definition once, so a step for each of them is
enough. A definition that nothing is based on may be left out, where calls over it spell its specification out. -/
namespace RelQuery

namespace Windows

variable {definitions : List (String × WindowSpec Expr)} {k : Nat} {name n : String} {spec s : WindowSpec Expr}

/-- A specification stands for itself without a base, and else for what it adds to what its base stands for. -/
theorem basedOk {own : WindowSpec Expr} {stands : String → Outcome (WindowSpec Expr)} :
    (match own.base with
      | none => .ok own
      | some base => do return refine (← stands base) own : Outcome (WindowSpec Expr)) = .ok s ↔
    own.base = none ∧ s = own ∨
      ∃ base inner, own.base = some base ∧ stands base = .ok inner ∧ s = refine inner own := by
  cases own.base with
  | none => simp [eq_comm]
  | some base =>
      simp only [Outcome.bindOk, Outcome.pureOk, reduceCtorEq, false_and, false_or, Option.some.injEq,
        exists_and_left, exists_eq_left']
      exact exists_congr fun inner => and_congr_right fun _ => eq_comm

theorem namedOk : resolveNamed definitions (k + 1) n = .ok s ↔ ∃ own, definitions.lookup n = some own ∧
    (own.base = none ∧ s = own ∨
      ∃ base inner, own.base = some base ∧ resolveNamed definitions k base = .ok inner ∧ s = refine inner own) := by
  rw [resolveNamed]
  cases definitions.lookup n with
  | none => simp [Outcome.refuse]
  | some own =>
      simp only [Option.some.injEq, exists_eq_left']
      exact basedOk

theorem specOk {w : Windows} {own : WindowSpec Expr} : w.resolve (.spec own) = .ok s ↔ own.base = none ∧ s = own ∨
    ∃ base inner, own.base = some base ∧
      resolveNamed w.definitions (w.definitions.length + 1) base = .ok inner ∧ s = refine inner own :=
  basedOk

def Resolves (definitions : List (String × WindowSpec Expr)) (k : Nat) (n : String) : Prop :=
  ∃ s, resolveNamed definitions k n = .ok s

theorem resolvesNext : Resolves definitions (k + 1) n ↔
    ∃ s, definitions.lookup n = some s ∧ ∀ b, s.base = some b → Resolves definitions k b := by
  constructor
  · rintro ⟨s, ok⟩
    obtain ⟨own, found, ⟨unbased, _⟩ | ⟨base, inner, based, ok, _⟩⟩ := namedOk.mp ok
    · exact ⟨own, found, by simp [unbased]⟩
    · exact ⟨own, found, by simpa [based] using ⟨inner, ok⟩⟩
  · rintro ⟨own, found, bases⟩
    cases base : own.base with
    | none => exact ⟨own, namedOk.mpr ⟨own, found, .inl ⟨base, rfl⟩⟩⟩
    | some b =>
        obtain ⟨inner, ok⟩ := bases b base
        exact ⟨_, namedOk.mpr ⟨own, found, .inr ⟨b, inner, base, ok, rfl⟩⟩⟩

theorem resolveMore (ok : resolveNamed definitions k n = .ok s) :
    resolveNamed definitions (k + 1) n = .ok s := by
  induction k generalizing n s with
  | zero => cases ok
  | succ k ih =>
      obtain ⟨own, found, unbased | ⟨base, inner, based, ok, same⟩⟩ := namedOk.mp ok
      · exact namedOk.mpr ⟨own, found, .inl unbased⟩
      · exact namedOk.mpr ⟨own, found, .inr ⟨base, inner, based, ih ok, same⟩⟩

/-- As long as one more step resolves more names, there are more names than steps. -/
theorem resolvesFew (more : Resolves definitions (k + 1) n) (fewer : ¬ Resolves definitions k n) :
    ∃ ns : List String, ns.Nodup ∧ ns.length = k + 1 ∧
      ∀ m ∈ ns, m ∈ definitions.map (·.1) ∧ Resolves definitions (k + 1) m := by
  have listed {k : Nat} {n : String} (more : Resolves definitions (k + 1) n) : n ∈ definitions.map (·.1) := by
    obtain ⟨s, found, _⟩ := resolvesNext.mp more
    obtain ⟨before, after, split, _⟩ := List.lookup_eq_some_iff.mp found
    simp [split]
  -- a name that needs all steps is none of those that its base leads to, which need fewer
  induction k generalizing n with
  | zero => exact ⟨[n], List.nodup_singleton n, rfl, List.forall_mem_singleton.mpr ⟨listed more, more⟩⟩
  | succ k ih =>
      obtain ⟨s, found, bases⟩ := resolvesNext.mp more
      obtain ⟨b, base, short⟩ : ∃ b, s.base = some b ∧ ¬ Resolves definitions k b := by
        simpa using fun all => fewer (resolvesNext.mpr ⟨s, found, all⟩)
      obtain ⟨ns, distinct, length, each⟩ := ih (bases b base) short
      refine ⟨n :: ns, List.nodup_cons.mpr ⟨fun member => fewer (each n member).2, distinct⟩,
        by simp [length], List.forall_mem_cons.mpr ⟨⟨listed more, more⟩, fun m member => ?_⟩⟩
      obtain ⟨s, ok⟩ := (each m member).2
      exact ⟨(each m member).1, s, resolveMore ok⟩

/-- With more steps than definitions, one more step resolves nothing else. -/
theorem resolvesCut (enough : definitions.length < k) (more : Resolves definitions (k + 1) n) :
    Resolves definitions k n := by
  by_contra fewer
  obtain ⟨ns, distinct, length, each⟩ := resolvesFew more fewer
  have bound := distinct.length_le_of_subset fun m member => (each m member).1
  rw [length, List.length_map] at bound
  omega

theorem resolveEnough (n : String) : Outcome.Alike Eq
    (resolveNamed definitions (definitions.length + 2) n)
    (resolveNamed definitions (definitions.length + 1) n) := by
  cases ok : resolveNamed definitions (definitions.length + 1) n with
  | ok s =>
      rw [resolveMore ok]
      exact rfl
  | error e =>
      cases ok' : resolveNamed definitions (definitions.length + 2) n with
      | error e' => trivial
      | ok s =>
          obtain ⟨s', done⟩ := resolvesCut (Nat.lt_succ_self _) ⟨s, ok'⟩
          cases ok.symm.trans done

theorem checkOk {w : Windows} : SelectOf.checkWindows w = .ok () ↔
    ∀ d ∈ w.definitions, Resolves w.definitions (w.definitions.length + 1) d.1 := by
  have all (ds : List (String × WindowSpec Expr)) : (ds.forM fun d => do
      let _ ← w.resolve (.named d.1)) = (.ok () : Outcome Unit) ↔
        ∀ d ∈ ds, Resolves w.definitions (w.definitions.length + 1) d.1 := by
    induction ds with
    | nil => simp [Outcome.pureOk]
    | cons d ds ih =>
        rw [List.forM_eq_forM] at ih ⊢
        rw [List.forM_cons, List.forall_mem_cons, ← ih, Outcome.bindOk]
        constructor
        · rintro ⟨_, one, others⟩
          obtain ⟨s, resolved, _⟩ := Outcome.bindOk.mp one
          exact ⟨⟨s, resolved⟩, others⟩
        · rintro ⟨⟨s, resolved⟩, others⟩
          exact ⟨(), Outcome.bindOk.mpr ⟨s, resolved, rfl⟩, others⟩
  exact all w.definitions

/-! A definition that is left out -/

/-- Definitions with one more that nothing is based on, and the others. -/
structure Defines (definitions : List (String × WindowSpec Expr)) (name : String) (spec : WindowSpec Expr)
    (others : List (String × WindowSpec Expr)) : Prop where
  split : ∃ before after, definitions = before ++ (name, spec) :: after ∧ others = before ++ after
  root : spec.base = none
  fresh : ∀ d ∈ others, d.1 ≠ name ∧ d.2.base ≠ some name

variable {others : List (String × WindowSpec Expr)}

theorem definesName (defines : Defines definitions name spec others) :
    definitions.lookup name = some spec := by
  obtain ⟨before, after, rfl, rfl⟩ := defines.split
  refine List.lookup_eq_some_iff.mpr ⟨before, after, rfl, fun d member => ?_⟩
  have apart := (defines.fresh d (List.mem_append_left _ member)).1
  simpa using apart.symm

theorem definesOther (defines : Defines definitions name spec others) (apart : n ≠ name) :
    definitions.lookup n = others.lookup n := by
  obtain ⟨before, after, rfl, rfl⟩ := defines.split
  rw [List.lookup_append, List.lookup_append, List.lookup_cons, beq_eq_false_iff_ne.mpr apart]

theorem resolveOther (defines : Defines definitions name spec others) (apart : n ≠ name) :
    resolveNamed definitions k n = resolveNamed others k n := by
  induction k generalizing n with
  | zero => rfl
  | succ k ih =>
      rw [resolveNamed, resolveNamed, definesOther defines apart]
      cases found : others.lookup n with
      | none => rfl
      | some own =>
          obtain ⟨before, after, split, _⟩ := List.lookup_eq_some_iff.mp found
          have fresh := (defines.fresh (n, own) (by simp [split])).2
          cases base : own.base with
          | none => simp only [base]
          | some b => simp only [base, ih fun same : b = name => fresh (base.trans (congrArg some same))]

theorem resolveLeft (defines : Defines definitions name spec others) (apart : n ≠ name) :
    Outcome.Alike Eq (resolveNamed definitions (definitions.length + 1) n)
      (resolveNamed others (others.length + 1) n) := by
  have length : definitions.length = others.length + 1 := by
    obtain ⟨before, after, rfl, rfl⟩ := defines.split
    simp
    omega
  rw [resolveOther defines apart, length]
  exact resolveEnough n

theorem resolveOwn (defines : Defines definitions name spec others) :
    resolveNamed definitions (k + 1) name = .ok spec :=
  namedOk.mpr ⟨spec, definesName defines, .inl ⟨defines.root, rfl⟩⟩

theorem checkLeft {w w' : Windows} (defines : Defines w.definitions name spec w'.definitions) :
    SelectOf.checkWindows w = .ok () ↔ SelectOf.checkWindows w' = .ok () := by
  rw [checkOk, checkOk]
  have left {n : String} (apart : n ≠ name) : Resolves w.definitions (w.definitions.length + 1) n ↔
      Resolves w'.definitions (w'.definitions.length + 1) n := by
    have alike := resolveLeft defines apart
    constructor
    · rintro ⟨s, ok⟩
      obtain ⟨s', ok', _⟩ := Outcome.alikeOk alike ok
      exact ⟨s', ok'⟩
    · rintro ⟨s, ok⟩
      obtain ⟨s', ok', _⟩ := Outcome.alikeOk (Outcome.alikeSymm alike) ok
      exact ⟨s', ok'⟩
  obtain ⟨before, after, all, others⟩ := defines.split
  constructor
  · intro each d member
    refine (left (defines.fresh d member).1).mp (each d ?_)
    rw [others] at member
    rw [all]
    exact (List.mem_append.mp member).elim (List.mem_append_left _)
      fun late => List.mem_append_right _ (List.mem_cons_of_mem _ late)
  · intro each d member
    by_cases own : d.1 = name
    · exact ⟨spec, own ▸ resolveOwn defines⟩
    · refine (left own).mpr (each d ?_)
      rw [all] at member
      rw [others]
      rcases List.mem_append.mp member with early | late
      · exact List.mem_append_left _ early
      · rcases List.mem_cons.mp late with rfl | late
        · exact absurd rfl own
        · exact List.mem_append_right _ late

/-! Specifications of calls -/

theorem refineOwn (base s : WindowSpec Expr) : s.exprs ⊆ (refine base s).exprs := by
  intro e member
  rcases List.mem_append.mp member with key | criterion
  · exact List.mem_append_left _ (List.mem_append_right _ key)
  · refine List.mem_append_right _ ?_
    have some : s.orderBy.isEmpty = false := by
      cases none : s.orderBy with
      | nil =>
          rw [none] at criterion
          cases criterion
      | cons k ks => rfl
    rwa [refine, some]

theorem refineBoth {base s : WindowSpec Expr} {e : Expr} (member : e ∈ (refine base s).exprs) :
    e ∈ base.exprs ∨ e ∈ s.exprs := by
  rcases List.mem_append.mp member with key | criterion
  · exact (List.mem_append.mp key).imp (List.mem_append_left _) (List.mem_append_left _)
  · simp only [refine] at criterion
    split at criterion
    · exact .inl (List.mem_append_right _ criterion)
    · exact .inr (List.mem_append_right _ criterion)

variable {w w' : Windows} {call : Expr}

structure Usable (call : Expr) : Prop where
  window : call.isWindow = true
  plain : ∀ p ∈ call.parts, p.hasWindow = false

/-- What the specification of a call takes. -/
theorem specOfOk (ok : w.specOf call = .ok s) : ∃ func arg distinct frame,
    call = .aggregate func arg distinct (some frame) ∧ arg.any Expr.hasWindow = false ∧
      w.resolve frame = .ok s ∧ s.exprs.any Expr.hasWindow = false := by
  cases call with
  | aggregate func arg distinct frame =>
      cases frame with
      | none => cases ok
      | some frame =>
          rw [specOf] at ok
          split at ok
          · cases ok
          · rename_i plain
            obtain ⟨s', resolved, last⟩ := Outcome.bindOk.mp ok
            split at last
            · cases last
            · rename_i plain'
              cases Outcome.pureOk.mp last
              exact ⟨func, arg, distinct, frame, rfl, by simpa using plain, resolved, by simpa using plain'⟩
  | _ => cases ok

theorem specUsable (ok : w.specOf call = .ok s) : Usable call := by
  obtain ⟨func, arg, distinct, frame, rfl, plain, resolved, plain'⟩ := specOfOk ok
  refine ⟨rfl, fun p part => ?_⟩
  rcases List.mem_append.mp part with own | inside
  · cases arg with
    | none => cases own
    | some e =>
        cases List.mem_singleton.mp own
        exact plain
  · have listed : p ∈ s.exprs := by
      cases frame with
      | named window => cases inside
      | spec own =>
          obtain ⟨_, rfl⟩ | ⟨_, inner, _, _, rfl⟩ := specOk.mp resolved
          · exact inside
          · exact refineOwn inner own inside
    exact Bool.eq_false_iff.mpr (List.any_eq_false.mp plain' p listed)

theorem namesUsable (usable : Usable call) : call.names name = call.isNamed name := by
  rw [Bool.eq_iff_iff]
  constructor
  · intro some
    obtain ⟨n, member, named⟩ := List.any_eq_true.mp some
    rw [Expr.nodesEq] at member
    rcases List.mem_cons.mp member with rfl | inside
    · exact named
    · obtain ⟨p, part, member⟩ := List.mem_flatMap.mp inside
      exact absurd (Expr.windowNamed named) (List.any_eq_false.mp (usable.plain p part) n member)
  · exact fun named => List.any_eq_true.mpr ⟨call, Expr.nodesSelf call, named⟩

theorem partsKept (usable : Usable call) : ∀ p ∈ call.parts, p.inlined name spec = p := by
  exact fun p part => Expr.inlinedAbsent (Expr.namesWindow (usable.plain p part))

/-- A usable call is over the window, or it stays as it is. -/
theorem callKept (usable : Usable call) (other : call.isNamed name = false) :
    call.inlined name spec = call := by
  have parts : Expr.mapParts (Expr.inlined name spec) call = Expr.mapParts id call :=
    Expr.mapPartsAlike (partsKept usable)
  rw [Expr.inlinedOther other, parts, Expr.mapPartsId]

theorem argumentKept {func : AggregateFunc} {arg : Option Expr} {distinct : Bool} {frame : Option (Over Expr)}
    (usable : Usable (.aggregate func arg distinct frame)) : arg.map (Expr.inlined name spec) = arg := by
  cases arg with
  | none => rfl
  | some e => exact congrArg some (partsKept usable e List.mem_cons_self)

theorem usableInlined (usable : Usable (call.inlined name spec)) : Usable call := by
  refine ⟨(Expr.inlinedWindow call).symm.trans usable.window, fun p part => ?_⟩
  have kept : p.inlined name spec ∈ (call.inlined name spec).parts := by
    cases named : call.isNamed name with
    | false =>
        rw [Expr.inlinedOther named, Expr.mapPartsParts]
        exact List.mem_map_of_mem part
    | true =>
        obtain ⟨func, arg, distinct, rfl⟩ := Expr.isNamedOf named
        rw [Expr.inlinedNamed]
        refine List.mem_append_left _ ?_
        rw [Option.toList_map]
        exact List.mem_map_of_mem (by simpa [Expr.parts, Expr.overParts] using part)
  exact (Expr.inlinedHasWindow p).symm.trans (usable.plain _ kept)

theorem resolveSource {e : Expr} (ok : resolveNamed definitions k n = .ok s) (member : e ∈ s.exprs) :
    ∃ d ∈ definitions, e ∈ d.2.exprs := by
  induction k generalizing n s with
  | zero => cases ok
  | succ k ih =>
      obtain ⟨own, found, resolved⟩ := namedOk.mp ok
      obtain ⟨before, after, split, _⟩ := List.lookup_eq_some_iff.mp found
      have listed : (n, own) ∈ definitions := by simp [split]
      obtain ⟨_, rfl⟩ | ⟨_, inner, _, below, rfl⟩ := resolved
      · exact ⟨_, listed, member⟩
      · rcases refineBoth member with inside | inside
        · exact ih below inside
        · exact ⟨_, listed, inside⟩

/-- The expressions of a specification are parts of the call or of a definition. -/
theorem specSource {e : Expr} (ok : w.specOf call = .ok s) (member : e ∈ s.exprs) :
    e ∈ call.parts ∨ ∃ d ∈ w.definitions, e ∈ d.2.exprs := by
  obtain ⟨func, arg, distinct, frame, rfl, _, resolved, _⟩ := specOfOk ok
  cases frame with
  | named window => exact .inr (resolveSource resolved member)
  | spec own =>
      obtain ⟨_, rfl⟩ | ⟨_, inner, _, below, rfl⟩ := specOk.mp resolved
      · exact .inl (List.mem_append_right _ member)
      · rcases refineBoth member with inside | inside
        · exact .inr (resolveSource below inside)
        · exact .inl (List.mem_append_right _ inside)

theorem specAlike {func : AggregateFunc} {arg : Option Expr} {distinct : Bool} {frame frame' : Over Expr}
    (resolved : Outcome.Alike Eq (w.resolve frame) (w'.resolve frame')) :
    Outcome.Alike Eq (w.specOf (.aggregate func arg distinct (some frame)))
      (w'.specOf (.aggregate func arg distinct (some frame'))) := by
  rw [specOf, specOf]
  split
  · trivial
  · refine Outcome.alikeBind resolved fun s s' same => ?_
    rw [same]
    exact Outcome.alikeSame fun _ _ => rfl

theorem resolveSpelled (defines : Defines w.definitions name spec w'.definitions) {frame : Over Expr}
    (unnamed : ∀ n, frame = .named n → n ≠ name) (unbased : ∀ s, frame = .spec s → s.base ≠ some name) :
    Outcome.Alike Eq (w.resolve frame) (w'.resolve frame) := by
  cases frame with
  | named n => exact resolveLeft defines (unnamed n rfl)
  | spec s =>
      simp only [resolve]
      cases base : s.base with
      | none => exact rfl
      | some b =>
          have apart : b ≠ name := fun same => unbased s rfl (base.trans (congrArg some same))
          exact Outcome.alikeBind (resolveLeft defines apart) fun s s' same => congrArg (refine · _) same

/-- A call over a window whose specification contains windows is refused. -/
theorem specDoomed (defines : Defines w.definitions name spec w'.definitions)
    (doomed : spec.exprs.any Expr.hasWindow = true) (named : call.names name = true)
    (s : WindowSpec Expr) : w.specOf call ≠ .ok s := by
  intro ok
  obtain ⟨func, arg, distinct, rfl⟩ := Expr.isNamedOf ((namesUsable (specUsable ok)).symm.trans named)
  obtain ⟨_, _, _, _, same, _, resolved, plain⟩ := specOfOk ok
  cases same
  cases (resolveOwn defines).symm.trans resolved
  cases doomed.symm.trans plain

/-- A call has the specification that it has when this is spelled out. -/
theorem specSpelled (defines : Defines w.definitions name spec w'.definitions)
    (unbased : call.isBased name = false) :
    Outcome.Alike Eq (w.specOf call) (w'.specOf (call.inlined name spec)) := by
  by_cases usable : Usable call
  · cases named : call.isNamed name with
    | true =>
        obtain ⟨func, arg, distinct, rfl⟩ := Expr.isNamedOf named
        rw [Expr.inlinedNamed, argumentKept usable]
        refine specAlike ?_
        simp only [resolve, resolveOwn defines, defines.root]
        exact rfl
    | false =>
        rw [callKept usable named]
        cases call with
        | aggregate func arg distinct frame =>
            cases frame with
            | none => trivial
            | some frame =>
                refine specAlike (resolveSpelled defines ?_ ?_)
                · rintro n rfl same
                  simp [Expr.isNamed, same] at named
                · rintro s rfl same
                  simp [Expr.isBased, same] at unbased
        | _ => trivial
  · cases ok : w.specOf call with
    | ok s => exact absurd (specUsable ok) usable
    | error e =>
        cases ok' : w'.specOf (call.inlined name spec) with
        | ok s => exact absurd (usableInlined (specUsable ok')) usable
        | error e' => trivial

end Windows

end RelQuery
