import RelQuery.Expr.Eval
import RelQuery.Proofs.Aggregate

/-! Arithmetic of integers. An expression tree over integers has an exact value, and evaluation finds it exactly if
64 bits hold the value of every subtree and every remainder is defined. Otherwise an operation is refused. -/
namespace RelQuery

open Value (Fits fitsInt fitsHeld ofIntFits)

/-- The operations that give an integer for two integers. -/
inductive IntegerOp where
  | add | sub | mul | rem

namespace IntegerOp

def symbol : IntegerOp → BinaryOp
  | add => .add
  | sub => .sub
  | mul => .mul
  | rem => .mod

def exact : IntegerOp → Int → Int → Int
  | add, a, b => a + b
  | sub, a, b => a - b
  | mul, a, b => a * b
  | rem, a, b => a.tmod b

/-- A remainder is defined if the divisor is not zero and 64 bits hold the truncated quotient. -/
def Defined : IntegerOp → Int → Int → Prop
  | rem, a, b => b ≠ 0 ∧ Fits (a.tdiv b)
  | add, _, _ | sub, _, _ | mul, _, _ => True

end IntegerOp

/-- An expression over integers that a scope holds. Functions are called by any spelling of their names. -/
inductive IntegerTree (s : Scope) where
  | literal (n : Int64)
  | param (i : Nat) (n : Int64) (bound : s.params[i]? = some (.int n))
  | column (ref : ColumnRef) (n : Int64) (read : s.column ref = .ok (.int n))
  | binary (op : IntegerOp) (left right : IntegerTree s)
  | negation (t : IntegerTree s)
  | absolute (name : String) (named : name.map Char.toUpper = "ABS") (t : IntegerTree s)

namespace IntegerTree

variable {s : Scope}

def expr : IntegerTree s → Expr
  | literal n => .literal (.int n)
  | param i _ _ => .param i
  | column ref _ _ => .column ref
  | binary op left right => .binary op.symbol left.expr right.expr
  | negation t => .unary .neg t.expr
  | absolute name _ t => .call name [t.expr]

/-- The exact value, whatever it takes to hold it. -/
def value : IntegerTree s → Int
  | literal n => n.toInt
  | param _ n _ => n.toInt
  | column _ n _ => n.toInt
  | binary op left right => op.exact left.value right.value
  | negation t => -t.value
  | absolute _ _ t => t.value.natAbs

def subtrees : IntegerTree s → List (IntegerTree s)
  | binary op left right => binary op left right :: (left.subtrees ++ right.subtrees)
  | negation t => negation t :: t.subtrees
  | absolute name named t => absolute name named t :: t.subtrees
  | leaf => [leaf]

/-- Whether the operation at the root is defined. -/
def Defined : IntegerTree s → Prop
  | binary op left right => op.Defined left.value right.value
  | _ => True

/-- Every result on the way fits in 64 bits, and every operation is defined. -/
def Computable (t : IntegerTree s) : Prop := ∀ u ∈ t.subtrees, u.Defined ∧ Fits u.value

end IntegerTree

/-- An outcome that is an integer under a condition, and a refused operation otherwise. -/
structure Outcome.Gives (o : Outcome Value) (condition : Prop) (n : Int) : Prop where
  result : condition → ∃ m : Int64, o = .ok (.int m) ∧ m.toInt = n
  refused : ¬condition → ∃ cause, o = .error (.invalidOperation cause)

namespace Eval
open Outcome (Gives)

variable {o : Outcome Value} {P Q : Prop} {k n : Int}

theorem givesInt (n : Int64) (P : Prop) (holds : P) : Gives (.ok (.int n)) P n.toInt :=
  ⟨fun _ => ⟨n, rfl, rfl⟩, fun fails => absurd holds fails⟩

theorem givesBind {f : Value → Outcome Value} (first : Gives o P k)
    (next : ∀ m : Int64, m.toInt = k → Gives (f (.int m)) Q n) : Gives (o >>= f) (P ∧ Q) n := by
  by_cases holds : P
  · obtain ⟨m, own, same⟩ := first.result holds
    rw [own, and_iff_right holds]
    exact next m same
  · obtain ⟨cause, own⟩ := first.refused holds
    rw [own]
    exact ⟨fun both => absurd both.1 holds, fun _ => ⟨cause, rfl⟩⟩

theorem givesExact (cause : Misuse) (n : Int) : Gives (exact cause n) (Fits n) n := by
  unfold exact
  by_cases fits : Fits n
  · obtain ⟨m, same⟩ := fitsHeld fits
    rw [ofIntFits.mpr ⟨fits, same⟩]
    exact same ▸ givesInt m _ (fitsInt m)
  · have past : Value.ofInt? n = none := if_neg fits
    rw [past]
    exact ⟨fun held => absurd held fits, fun _ => ⟨cause, rfl⟩⟩

theorem givesArithmetic (op : IntegerOp) (a b : Int64) : Gives (integerArithmetic op.symbol a b)
    (op.Defined a.toInt b.toInt ∧ Fits (op.exact a.toInt b.toInt)) (op.exact a.toInt b.toInt) := by
  cases op with
  | rem =>
      simp only [IntegerOp.Defined, IntegerOp.symbol, IntegerOp.exact, integerArithmetic]
      by_cases zero : b = 0
      · rw [if_pos zero]
        exact ⟨fun both => absurd (zero ▸ rfl) both.1.1, fun _ => ⟨_, rfl⟩⟩
      · have nonzero : b.toInt ≠ 0 := fun same => zero (Int64.toInt_inj.mp (same.trans Int64.toInt_zero.symm))
        rw [if_neg zero, and_iff_right nonzero]
        exact givesBind (givesExact _ _) fun _ _ => givesExact _ _
  | _ =>
      rw [IntegerOp.Defined, true_and]
      exact givesExact _ _

theorem givesNegation (n : Int64) : Gives (unary .neg (.int n)) (Fits (-n.toInt)) (-n.toInt) :=
  givesExact _ _

theorem givesAbsolute {name : String} (named : name.map Char.toUpper = "ABS") (n : Int64) :
    Gives (call name [.int n]) (Fits n.toInt.natAbs) n.toInt.natAbs := by
  have own : call name [.int n] = absolute (.int n) := by
    unfold call
    rw [named]
    rfl
  rw [own]
  exact givesExact _ _

end Eval

namespace IntegerTree
open Outcome (Gives)
open Eval

variable {s : Scope} {op : IntegerOp} {t left right : IntegerTree s}

theorem computableBinary : (binary op left right).Computable ↔ left.Computable ∧ right.Computable ∧
    op.Defined left.value right.value ∧ Fits (op.exact left.value right.value) := by
  simp only [Computable, subtrees, List.forall_mem_cons, List.forall_mem_append, Defined, value]
  tauto

theorem computableNegation : (negation t).Computable ↔ t.Computable ∧ Fits (-t.value) := by
  simp only [Computable, subtrees, List.forall_mem_cons, Defined, value]
  tauto

theorem computableAbsolute {name : String} {named : name.map Char.toUpper = "ABS"} :
    (absolute name named t).Computable ↔ t.Computable ∧ Fits t.value.natAbs := by
  simp only [Computable, subtrees, List.forall_mem_cons, Defined, value]
  tauto

theorem evalBinary (op : IntegerOp) (l r : Expr) (s : Scope) : (Expr.binary op.symbol l r).eval s =
    l.eval s >>= fun a => r.eval s >>= fun b => Eval.strict op.symbol a b := by
  cases op <;> rfl

/-- Every operation is refused or exact, so that the whole tree is. -/
theorem evalGives (t : IntegerTree s) : Gives (t.expr.eval s) t.Computable t.value := by
  induction t with
  | literal n => exact givesInt n _ (by simp [Computable, subtrees, Defined, value, fitsInt])
  | param i n bound =>
      rw [expr, Expr.eval, bound]
      exact givesInt n _ (by simp [Computable, subtrees, Defined, value, fitsInt])
  | column ref n read =>
      rw [expr, Expr.eval, read]
      exact givesInt n _ (by simp [Computable, subtrees, Defined, value, fitsInt])
  | binary op left right first second =>
      rw [computableBinary, expr, evalBinary]
      refine givesBind first fun a same => givesBind second fun b same' => ?_
      have ints : Eval.strict op.symbol (.int a) (.int b) = integerArithmetic op.symbol a b := by
        cases op <;> rfl
      rw [ints, value, ← same, ← same']
      exact givesArithmetic op a b
  | negation t ih =>
      rw [computableNegation, expr, Expr.eval]
      refine givesBind ih fun n same => ?_
      rw [value, ← same]
      exact givesNegation n
  | absolute name named t ih =>
      have single : (Expr.call name [t.expr]).eval s = t.expr.eval s >>= fun v => Eval.call name [v] := by
        simp only [Expr.eval, Expr.evalList, bind_assoc, pure_bind]
        rfl
      rw [computableAbsolute, expr, single]
      refine givesBind ih fun n same => ?_
      rw [value, ← same]
      exact givesAbsolute named n

/-- A tree over integers evaluates to its exact value if every result on the way fits in 64 bits, no divisor is
zero and the truncated quotient behind every remainder fits too. In every other case an operation is refused. -/
theorem evaluatesExactly (t : IntegerTree s) :
    (∀ n : Int64, t.expr.eval s = .ok (.int n) ↔ t.Computable ∧ n.toInt = t.value) ∧
      (t.Computable → ∃ n : Int64, t.expr.eval s = .ok (.int n)) ∧
      (¬t.Computable → ∃ cause, t.expr.eval s = .error (.invalidOperation cause)) := by
  have gives := evalGives t
  refine ⟨fun n => ⟨fun own => ?_, ?_⟩, fun computable => ?_, gives.refused⟩
  · have computable : t.Computable := by
      by_contra fails
      obtain ⟨cause, refused⟩ := gives.refused fails
      cases own.symm.trans refused
    obtain ⟨m, found, same⟩ := gives.result computable
    cases own.symm.trans found
    exact ⟨computable, same⟩
  · rintro ⟨computable, same⟩
    obtain ⟨m, found, exact'⟩ := gives.result computable
    rw [found, Int64.toInt_inj.mp (same.trans exact'.symm)]
  · obtain ⟨m, found, _⟩ := gives.result computable
    exact ⟨m, found⟩

end IntegerTree

end RelQuery
