import RelQuery.Expr.Eval
import RelQuery.Proofs.Outcome

/-! What an evaluation reads. Scopes that read the columns of an expression alike, those of the members of
a group included, evaluate it alike, for every likeness of outcomes that sequences of like steps keep. -/
namespace RelQuery

namespace Outcome

/-- A likeness of outcomes that equal outcomes have and that sequences of like steps keep. -/
structure Likeness where
  rel : {α : Type} → Outcome α → Outcome α → Prop
  refl : {α : Type} → (o : Outcome α) → rel o o
  bind : {α β : Type} → {o o' : Outcome α} → {f g : α → Outcome β} → rel o o' → (∀ a, rel (f a) (g a)) →
    rel (o >>= f) (o' >>= g)

theorem Likeness.mapM (L : Likeness) {α β : Type} {f g : α → Outcome β} {xs ys : List α}
    (each : List.Forall₂ (fun x y => L.rel (f x) (g y)) xs ys) : L.rel (xs.mapM f) (ys.mapM g) := by
  induction each with
  | nil => exact L.refl _
  | cons one _ ih =>
      rw [List.mapM_cons, List.mapM_cons]
      exact L.bind one fun b => L.bind ih fun bs => L.refl _

variable {α β : Type} {o o' : Outcome α}

/-- A result that another outcome has as well. -/
def Refines (o o' : Outcome α) : Prop := ∀ a, o = .ok a → o' = .ok a

theorem refinesBind {f g : α → Outcome β} (first : Refines o o') (next : ∀ a, Refines (f a) (g a)) :
    Refines (o >>= f) (o' >>= g) := by
  intro b ok
  obtain ⟨a, own, ok⟩ := bindOk.mp ok
  exact bindOk.mpr ⟨a, first a own, next a b ok⟩

def Likeness.refining : Likeness := ⟨Refines, fun _ _ => id, refinesBind⟩

/-- Equal results, or failures of any kind. -/
def Likeness.agreeing : Likeness :=
  ⟨Alike Eq, fun _ => alikeSame fun _ _ => rfl, fun first next => alikeBind first fun a _ same => same ▸ next a⟩

end Outcome

open Outcome (Likeness)

theorem optionRelated {α β : Type} {R : α → β → Prop} {a : Option α} {b : Option β} (rel : Option.Rel R a b) :
    a = none ∧ b = none ∨ ∃ x y, a = some x ∧ b = some y ∧ R x y := by
  cases rel with
  | none => exact .inl ⟨rfl, rfl⟩
  | some related => exact .inr ⟨_, _, rfl, rfl, related⟩

namespace Scope

/-- Some columns are read in a scope, and in the scopes of its group, like those of another. -/
structure ReadsAlike (L : Likeness) (ns : List Expr) (s s' : Scope) : Prop where
  columns : ∀ ref, .column ref ∈ ns → L.rel (s.column ref) (s'.column ref)
  params : s.params = s'.params
  group : Option.Rel (List.Forall₂ fun m m' =>
    ∀ ref, .column ref ∈ ns → L.rel ((s.member m).column ref) ((s'.member m').column ref)) s.group s'.group

variable {L : Likeness} {ns ns' : List Expr} {s s' : Scope}

theorem readsFewer (alike : ReadsAlike L ns s s') (fewer : ns' ⊆ ns) : ReadsAlike L ns' s s' := by
  refine ⟨fun ref member => alike.columns ref (fewer member), alike.params, ?_⟩
  rcases optionRelated alike.group with ⟨group, group'⟩ | ⟨ms, ms', group, group', members⟩
  · rw [group, group']
    exact .none
  · rw [group, group']
    exact .some (members.imp fun m m' each ref member => each ref (fewer member))

theorem readsLeft (alike : ReadsAlike L (ns ++ ns') s s') : ReadsAlike L ns s s' :=
  readsFewer alike (List.subset_append_left ..)

theorem readsRight (alike : ReadsAlike L (ns ++ ns') s s') : ReadsAlike L ns' s s' :=
  readsFewer alike (List.subset_append_right ..)

theorem readsParts {n : Expr} (alike : ReadsAlike L (n :: ns) s s') : ReadsAlike L ns s s' :=
  readsFewer alike (List.subset_cons_self ..)

end Scope

namespace Expr
open Scope

variable (L : Likeness)

mutual

theorem evalReads : (e : Expr) → {s s' : Scope} → ReadsAlike L e.nodes s s' → L.rel (e.eval s) (e.eval s')
  | .column ref, _, _, alike => alike.columns ref List.mem_cons_self
  | .literal _, _, _, _ => L.refl _
  | .param i, _, _, alike => by
      simp only [eval, alike.params]
      exact L.refl _
  | .path _ _, _, _, _ => L.refl _
  | .binary op l r, s, s', alike => by
      have left := evalReads l (readsLeft (readsParts alike))
      have right := evalReads r (readsRight (readsParts alike))
      have strict (op : BinaryOp) : L.rel (do Eval.strict op (← eval l s) (← eval r s))
          (do Eval.strict op (← eval l s') (← eval r s')) :=
        L.bind left fun v => L.bind right fun w => L.refl _
      -- AND and OR read their right side only where the left one does not decide
      cases op
      case and =>
        refine L.bind left fun v => ?_
        dsimp only
        split
        · exact L.refl _
        · exact L.bind right fun w => L.refl _
      case or =>
        refine L.bind left fun v => ?_
        dsimp only
        split
        · exact L.refl _
        · exact L.bind right fun w => L.refl _
      all_goals exact strict _
  | .unary op e, _, _, alike => L.bind (evalReads e (readsParts alike)) fun _ => L.refl _
  | .call name args, _, _, alike => L.bind (listReads args (readsParts alike)) fun _ => L.refl _
  | .aggregate func arg distinct frame, s, s', alike => by
      simp only [eval]
      cases frame with
      | some frame => exact L.refl _
      | none =>
          rcases optionRelated alike.group with ⟨group, group'⟩ | ⟨ms, ms', group, group', members⟩
          · rw [group, group']
            exact L.refl _
          · have own : List.Forall₂ (fun m m' => ∀ ref, .column ref ∈ nodesOfArg arg →
                L.rel ((s.member m).column ref) ((s'.member m').column ref)) ms ms' :=
              members.imp fun m m' each ref member =>
                each ref (List.mem_cons_of_mem _ (List.mem_append_left _ member))
            rw [group, group']
            exact L.bind (argReads arg alike.params own) fun _ => L.refl _
  | .between negated e low high, _, _, alike =>
      L.bind (evalReads e (readsLeft (readsLeft (readsParts alike)))) fun _ =>
        L.bind (evalReads low (readsRight (readsLeft (readsParts alike)))) fun _ =>
          L.bind (evalReads high (readsRight (readsParts alike))) fun _ => L.refl _
  | .inList negated e items, _, _, alike => by
      refine L.bind (evalReads e (readsLeft (readsParts alike))) fun v => ?_
      split
      · exact L.refl _
      · exact L.bind (memberReads items v (some false) (readsRight (readsParts alike))) fun _ => L.refl _
  | .like negated e pattern, _, _, alike => L.bind (evalReads e (readsParts alike)) fun _ => L.refl _
  termination_by structural e => e

theorem listReads : (es : List Expr) → {s s' : Scope} → ReadsAlike L (nodesOfList es) s s' →
    L.rel (evalList es s) (evalList es s')
  | [], _, _, _ => L.refl _
  | e :: es, _, _, alike =>
      L.bind (evalReads e (readsLeft alike)) fun _ =>
        L.bind (listReads es (readsRight alike)) fun _ => L.refl _
  termination_by structural es => es

theorem argReads : (a : Option Expr) → {s s' : Scope} → {ms ms' : List Composition} →
    s.params = s'.params → List.Forall₂ (fun m m' => ∀ ref, .column ref ∈ nodesOfArg a →
      L.rel ((s.member m).column ref) ((s'.member m').column ref)) ms ms' →
    L.rel (evalArg a s ms) (evalArg a s' ms')
  | none, _, _, ms, ms', _, members => by
      have same : (ms.map fun _ => Value.boolean true) = ms'.map fun _ => Value.boolean true := by
        rw [List.map_const', List.map_const', members.length_eq]
      simp only [evalArg, same]
      exact L.refl _
  | some e, s, s', ms, ms', params, members => by
      refine L.mapM (members.imp fun m m' each => ?_)
      exact evalReads e ⟨each, params, .none⟩
  termination_by structural a => a

theorem memberReads : (es : List Expr) → {s s' : Scope} → (v : Value) → (unmatched : Option Bool) →
    ReadsAlike L (nodesOfList es) s s' → L.rel (evalMember es s v unmatched) (evalMember es s' v unmatched)
  | [], _, _, _, _, _ => L.refl _
  | e :: es, _, _, v, unmatched, alike => by
      refine L.bind (evalReads e (readsLeft alike)) fun item => ?_
      split
      · exact memberReads es v none (readsRight alike)
      · split
        · exact L.refl _
        · exact memberReads es v unmatched (readsRight alike)
  termination_by structural es => es

end

end Expr

end RelQuery
