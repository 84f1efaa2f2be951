import RelQuery.Proofs.Select.Kept
import RelQuery.Proofs.Select.Spelling

/-! Window fields with and without a name for a specification. A call that the form with the specification meets
again, and the one with the name does not, has the values that it had: a slot that it can read is never filled
twice. -/
namespace RelQuery

namespace Windows

variable {free : String → Prop} {name : String} {spec : WindowSpec Expr} {all : List Expr} {w w' : Windows}
  {outputs outputs' : List Output} {call : Expr} {values : Array Value}
  {definitions definitions' : List (String × WindowSpec Expr)}

/-! Fields -/

theorem resultBare (w : Windows) (row : Nat) :
    Expr.Bare fun call => if call.isWindow then some (w.result row call) else none := by
  intro n r replaced ref inside
  dsimp only at replaced
  split at replaced
  · have literal := Option.some.inj replaced
    unfold result at literal
    split at literal
    · cases literal
      cases List.mem_singleton.mp inside
    · cases literal
  · cases replaced

theorem rowSpelled {e : Expr} {o o' : Output} (same : o.Relabeled free o') (params : w.params = w'.params)
    (spares : e.Spares free) (row : Nat) (met : ∀ c ∈ calls e, ∃ v, w.results.lookup c.text = some v ∧
      w'.results.lookup (c.inlined name spec).text = some v) :
    Outcome.Alike Eq (do (← w.substitute row e).eval (o.scope w.params))
      (do (← w'.substitute row (e.inlined name spec)).eval (o'.scope w'.params)) := by
  have substituted : w'.substitute row (e.inlined name spec) = w.substitute row e := by
    refine Expr.substituteInlined e (fun n member window => ?_) fun n plain => by simp [plain]
    obtain ⟨v, own, other⟩ := met n (List.mem_filter.mpr ⟨member, window⟩)
    simp only [Expr.inlinedWindow, window, if_true, result, own, other]
    exact ⟨rfl, trivial⟩
  rw [substituted, ← params]
  cases replaced : w.substitute row e with
  | error e => exact True.intro
  | ok e' =>
      refine Scope.evalRelabeled (Output.relabeledScope same w.params) fun ref member => spares ref ?_
      exact Expr.substituteColumns (resultBare w row) replaced member

theorem fieldValues {v v' : Windows} (alike : List.Forall₂ (Output.Relabeled free) outputs outputs')
    (sim : Sim free name spec all definitions definitions' outputs outputs' v v') {e : Expr}
    (inside : calls e ⊆ all) (spares : e.Spares free)
    (met : ∀ c ∈ calls e, (v.results.lookup c.text).isSome = true) :
    Outcome.Alike Eq
      (outputs.zipIdx.mapM fun (o, row) => do (← v.substitute row e).eval (o.scope v.params))
      (outputs'.zipIdx.mapM fun (o, row) => do
        (← v'.substitute row (e.inlined name spec)).eval (o.scope v'.params)) := by
  refine Outcome.alikeMapMEq (zipIdxAlike alike 0) fun entry entry' both => ?_
  obtain ⟨o, row⟩ := entry
  obtain ⟨o', row'⟩ := entry'
  obtain ⟨same, rfl⟩ := both
  refine rowSpelled same sim.params spares row fun c member => ?_
  obtain ⟨values, stored⟩ := Option.isSome_iff_exists.mp (met c member)
  exact ⟨values, stored, sim.served c (inside member) values stored⟩

section
variable (spelled : Spelled free name spec all definitions definitions')
include spelled

theorem fieldSim (alike : List.Forall₂ (Output.Relabeled free) outputs outputs')
    (sim : Sim free name spec all definitions definitions' outputs outputs' w w') {e : Expr}
    (inside : calls e ⊆ all) (spares : e.Spares free) :
    Outcome.Alike (fun r r' => Sim free name spec all definitions definitions' outputs outputs' r.1 r'.1 ∧
        r.2 = r'.2 ∧ r.2.length = outputs.length)
      (w.evalField e outputs) (w'.evalField (e.inlined name spec) outputs') := by
  have evaluated := Outcome.alikeImp (callsSim spelled alike sim inside) fun v v' ok _ sim =>
    And.intro sim (rememberAll ok).1
  refine Outcome.alikeBind evaluated fun v v' both => ?_
  obtain ⟨sim, met⟩ := both
  have values := fieldValues alike sim inside spares met
  refine Outcome.alikeBind (Outcome.alikeImp values fun vs vs' ok _ same => And.intro ok same)
    fun vs vs' both => ?_
  obtain ⟨ok, same⟩ := both
  refine ⟨sim, same, ?_⟩
  have length := (Outcome.mapMOk.mp ok).length_eq
  rw [List.length_zipIdx] at length
  exact length.symm

end

/-! Filling slots -/

def Filled (i : Nat) (o p : Output) : Prop :=
  (∃ n, o.row.slots[i]? = some (n, .unset)) ∧ ∃ v, p = o.setField i v

theorem argumentFilled {i : Nat} {o p : Output} (filled : Filled i o p) (arg : Option Expr) :
    Outcome.Refines (w.argument arg o) (w.argument arg p) := by
  obtain ⟨⟨n, unset⟩, v, rfl⟩ := filled
  cases arg with
  | none => exact Outcome.Likeness.refining.refl _
  | some e => exact Expr.evalKept (Composition.setKeeps unset v) e o.members w.params

theorem settledFilled {i : Nat} {filled : List Output} (each : List.Forall₂ (Filled i) outputs filled)
    (settled : w.Settled outputs call values) : w.Settled filled call values := by
  obtain ⟨s, f, own, stored, computed⟩ := settled
  refine ⟨s, f, own, stored, ?_⟩
  cases call with
  | aggregate func arg distinct frame =>
      obtain ⟨args, ok, computed⟩ := Outcome.bindOk.mp computed
      have more := Outcome.Likeness.refining.mapM (each.imp fun o p one => argumentFilled (w := w) one arg)
      exact Outcome.bindOk.mpr ⟨args, more args ok, computed⟩
  | _ => cases own

theorem simFilled {i : Nat} {filled filled' : List Output} (each : List.Forall₂ (Filled i) outputs filled)
    (sim : Sim free name spec all definitions definitions' outputs outputs' w w') :
    Sim free name spec all definitions definitions' filled filled' w w' :=
  ⟨sim.definitions, sim.definitions', sim.params, sim.frames, sim.served,
    fun c listed v served unmet => settledFilled each (sim.settled c listed v served unmet), sim.known⟩

def filledWith (i : Nat) (outputs : List Output) (vs : List Value) : List Output :=
  (outputs.zip vs).map fun (o, v) => o.setField i v

theorem filledEach {i : Nat} {vs : List Value} (length : vs.length = outputs.length)
    (unset : ∀ o ∈ outputs, ∃ n, o.row.slots[i]? = some (n, .unset)) :
    List.Forall₂ (Filled i) outputs (filledWith i outputs vs) := by
  induction outputs generalizing vs with
  | nil => exact .nil
  | cons o outputs ih =>
      obtain ⟨own, others⟩ := List.forall_mem_cons.mp unset
      cases vs with
      | nil => cases length
      | cons v vs => exact .cons ⟨own, v, rfl⟩ (ih (Nat.succ.inj length) others)

theorem filledRelabeled (alike : List.Forall₂ (Output.Relabeled free) outputs outputs') (i : Nat)
    (vs : List Value) :
    List.Forall₂ (Output.Relabeled free) (filledWith i outputs vs) (filledWith i outputs' vs) := by
  induction alike generalizing vs with
  | nil => exact .nil
  | cons one _ ih =>
      cases vs with
      | nil => exact .nil
      | cons v vs => exact .cons (Output.relabeledField one i v) (ih vs)

theorem pendingFilled {i : Nat} {filled : List Output} {entries : List (OutputField × Nat)}
    (each : List.Forall₂ (Filled i) outputs filled) (apart : ∀ entry ∈ entries, entry.2 ≠ i)
    (pending : OutputField.Pending entries outputs) : OutputField.Pending entries filled := by
  intro entry listed p member
  obtain ⟨o, there, _, v, rfl⟩ := alikeMember each member
  obtain ⟨n, unset⟩ := pending entry listed o there
  refine ⟨n, ?_⟩
  rw [← unset]
  exact List.getElem?_modify_ne _ _ (apart entry listed).symm

def FieldSpelled (free : String → Prop) (name : String) (spec : WindowSpec Expr) (all : List Expr)
    (entry entry' : OutputField × Nat) : Prop :=
  calls entry.1.expr ⊆ all ∧ entry.1.expr.Spares free ∧
    entry'.1.expr = entry.1.expr.inlined name spec ∧ entry.2 = entry'.2

theorem windowsSim (spelled : Spelled free name spec all definitions definitions')
    {entries entries' : List (OutputField × Nat)}
    (listed : List.Forall₂ (FieldSpelled free name spec all) entries entries')
    (apart : (entries.map (·.2)).Nodup) (pending : OutputField.Pending entries outputs)
    (alike : List.Forall₂ (Output.Relabeled free) outputs outputs')
    (sim : Sim free name spec all definitions definitions' outputs outputs' w w') :
    Outcome.Alike (fun r r' => List.Forall₂ (Output.Relabeled free) r.2 r'.2)
      (entries.foldlM SelectOf.fillWindow (w, outputs)) (entries'.foldlM SelectOf.fillWindow (w', outputs')) := by
  -- filling a slot changes the rows that later calls read, and keeps the slots of later fields empty
  induction listed generalizing w w' outputs outputs' with
  | nil => exact alike
  | @cons entry entry' entries entries' one _ ih =>
      obtain ⟨inside, spares, form, place⟩ := one
      obtain ⟨own, others⟩ := List.nodup_cons.mp apart
      obtain ⟨unset, rest⟩ := List.forall_mem_cons.mp pending
      rw [List.foldlM_cons, List.foldlM_cons, SelectOf.fillWindow, SelectOf.fillWindow, form, ← place,
        bind_assoc, bind_assoc]
      refine Outcome.alikeBind (fieldSim spelled alike sim inside spares) fun ⟨v, vs⟩ ⟨v', vs'⟩ kept => ?_
      obtain ⟨sim, same, length⟩ := kept
      cases same
      have each := filledEach length unset
      have later : ∀ other ∈ entries, other.2 ≠ entry.2 := fun other member same =>
        own (List.mem_map.mpr ⟨other, member, same⟩)
      exact ih others (pendingFilled each later rest) (filledRelabeled alike entry.2 vs) (simFilled each sim)

end Windows

end RelQuery
