import RelQuery.Proofs.Expr.Parts

/-! What a substitution depends on: the replacements of the expressions inside. Its result reads no columns
but those of the expression, as long as the replacements read none. -/
namespace RelQuery.Expr

theorem substituteAlike {m : Type → Type} [Monad m] [LawfulMonad m] {f g : Expr → Option (m Expr)}
    (e : Expr) (same : ∀ n ∈ e.nodes, f n = g n) : e.substituteM f = e.substituteM g := by
  induction e using partsInduction with
  | step e ih =>
      have parts : traverseParts (substituteM f) e = traverseParts (substituteM g) e :=
        traverseAlike fun p part => ih p part fun n member => same n (nodesPart part member)
      rw [substituteEq, substituteEq, same e (nodesSelf e), parts]

/-- Replacements in which there are no columns. -/
def Bare (f : Expr → Option (Outcome Expr)) : Prop :=
  ∀ n r, f n = some (.ok r) → ∀ ref, .column ref ∉ r.nodes

theorem substituteColumns {f : Expr → Option (Outcome Expr)} (bare : Bare f) {e e' : Expr}
    (ok : e.substituteM f = .ok e') {ref : ColumnRef} (member : .column ref ∈ e'.nodes) :
    .column ref ∈ e.nodes := by
  induction e using partsInduction generalizing e' with
  | step e ih =>
      rw [substituteEq] at ok
      cases replaced : f e with
      | some other =>
          rw [replaced] at ok
          exact absurd member (bare e e' (replaced.trans (congrArg some ok)) ref)
      | none =>
          rw [replaced] at ok
          rw [nodesEq] at member
          rcases List.mem_cons.mp member with rfl | inside
          · rw [traverseColumn ok]
            exact nodesSelf _
          · obtain ⟨p', part', member⟩ := List.mem_flatMap.mp inside
            obtain ⟨p, part, own⟩ := alikeMember (traverseOk ok) part'
            exact nodesPart part (ih p part own member)

end RelQuery.Expr
