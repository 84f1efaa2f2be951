import RelQuery.Expr.Eval
import RelQuery.Proofs.Outcome

/-! Lists and ranges beside the comparisons that they stand for. A list has the value of its comparisons
with OR between them. A range has the value of its two comparisons with AND between them, except where one
bound is NULL and the value lies past the other: the range is unknown there, and the comparisons are not. -/
namespace RelQuery

namespace Logic

variable {a b c : Option Bool}

theorem truthValue (t : Option Bool) : truth (toValue t) = t := by
  rcases t with _ | _ | _ <;> rfl

theorem disjunctionAssoc : disjunction (disjunction a b) c = disjunction a (disjunction b c) := by
  rcases a with _ | _ | _ <;> rcases b with _ | _ | _ <;> rcases c with _ | _ | _ <;> rfl

theorem disjunctionFalse (t : Option Bool) : disjunction t (some false) = t := by
  rcases t with _ | _ | _ <;> rfl

theorem falseDisjunction (t : Option Bool) : disjunction (some false) t = t := by
  rcases t with _ | _ | _ <;> rfl

theorem trueDisjunction (t : Option Bool) : disjunction (some true) t = some true := by
  rcases t with _ | _ | _ <;> rfl

theorem disjunctionTrue (t : Option Bool) : disjunction t (some true) = some true := by
  rcases t with _ | _ | _ <;> rfl

theorem disjunctionDecided (decided : disjunction a b = some true) : a = some true ∨ b = some true := by
  rcases a with _ | _ | _ <;> rcases b with _ | _ | _ <;> simp_all [disjunction]

theorem falseConjunction (t : Option Bool) : conjunction (some false) t = some false := by
  rcases t with _ | _ | _ <;> rfl

theorem conjunctionFalse (t : Option Bool) : conjunction t (some false) = some false := by
  rcases t with _ | _ | _ <;> rfl

theorem conjunctionBoth (a b : Bool) : conjunction (some a) (some b) = some (a && b) := by
  cases a <;> cases b <;> rfl

theorem unknownConjunction (undecided : a ≠ some false) : conjunction none a = none := by
  rcases a with _ | _ | _
  · rfl
  · exact absurd rfl undecided
  · rfl

theorem conjunctionUnknown (undecided : a ≠ some false) : conjunction a none = none := by
  rcases a with _ | _ | _
  · rfl
  · exact absurd rfl undecided
  · rfl

end Logic

namespace Eval
open Logic

variable {v w least most : Value}

/-- The truth of a comparison. -/
def compared (op : BinaryOp) (v w : Value) : Option Bool :=
  if v.isNull || w.isNull then none else some (holds op (v.order w))

theorem comparedNull (op : BinaryOp) (w : Value) (null : v.isNull = true) : compared op v w = none := by
  rw [compared, null, Bool.true_or, if_pos rfl]

theorem comparedToNull (op : BinaryOp) (v : Value) (null : w.isNull = true) : compared op v w = none := by
  rw [compared, null, Bool.or_true, if_pos rfl]

theorem comparedPresent {op : BinaryOp} (left : v.isNull = false) (right : w.isNull = false) :
    compared op v w = some (holds op (v.order w)) := by
  rw [compared, left, right]
  rfl

theorem comparedValue (op : BinaryOp) (v w : Value) : comparison op v w = toValue (compared op v w) := by
  unfold comparison compared
  split <;> rfl

/-- Whether a value is one of some others, by comparisons with OR between them. -/
def anySame (v : Value) : List Value → Option Bool
  | [] => some false
  | w :: ws => disjunction (compared .eq v w) (anySame v ws)

theorem anySameAppend (v : Value) (ws ws' : List Value) :
    anySame v (ws ++ ws') = disjunction (anySame v ws) (anySame v ws') := by
  induction ws with
  | nil => exact (falseDisjunction _).symm
  | cons w ws ih => rw [List.cons_append, anySame, anySame, ih, disjunctionAssoc]

theorem anySameNull (null : v.isNull = true) {ws : List Value} (nonempty : ws ≠ []) :
    anySame v ws = none := by
  induction ws with
  | nil => exact absurd rfl nonempty
  | cons w ws ih =>
      rw [anySame, comparedNull .eq w null]
      cases ws with
      | nil => rfl
      | cons w' ws =>
          rw [ih (List.cons_ne_nil _ _)]
          rfl

/-- Whether one bound is NULL and a value lies past the other. -/
def PastBound (v least most : Value) : Prop :=
  compared .ge v least = some false ∧ most.isNull = true ∨
    least.isNull = true ∧ compared .le v most = some false

theorem betweenWithin (within : ¬ PastBound v least most) :
    between v least most = toValue (conjunction (compared .ge v least) (compared .le v most)) := by
  obtain ⟨above, below⟩ := not_or.mp within
  unfold between
  cases value : v.isNull with
  | true =>
      rw [comparedNull .ge least value, comparedNull .le most value]
      rfl
  | false =>
      cases lower : least.isNull with
      | true =>
          rw [comparedToNull .ge v lower, unknownConjunction fun past => below ⟨lower, past⟩]
          rfl
      | false =>
          cases upper : most.isNull with
          | true =>
              rw [comparedToNull .le v upper, conjunctionUnknown fun past => above ⟨past, upper⟩]
              rfl
          | false =>
              rw [comparedPresent value lower, comparedPresent value upper, conjunctionBoth]
              rfl

theorem betweenPast (past : PastBound v least most) :
    between v least most = .null ∧ conjunction (compared .ge v least) (compared .le v most) = some false := by
  unfold between
  rcases past with ⟨past, null⟩ | ⟨null, past⟩
  · rw [past, falseConjunction, null, Bool.or_true]
    exact ⟨rfl, rfl⟩
  · rw [past, conjunctionFalse, null, Bool.or_true, Bool.true_or]
    exact ⟨rfl, rfl⟩

end Eval

namespace Expr
open Logic Eval

variable {s : Scope} {x l r : Expr} {v w : Value} {items : List Expr} {ws : List Value}

theorem evalAnd (left : l.eval s = .ok v) (right : r.eval s = .ok w) :
    (binary .and l r).eval s = .ok (toValue (conjunction (truth v) (truth w))) := by
  simp only [eval, left, right, bind, Except.bind]
  split
  · rename_i decided
    rw [decided, falseConjunction]
    rfl
  · rfl

theorem evalOr (left : l.eval s = .ok v) (right : r.eval s = .ok w) :
    (binary .or l r).eval s = .ok (toValue (disjunction (truth v) (truth w))) := by
  simp only [eval, left, right, bind, Except.bind]
  split
  · rename_i decided
    rw [decided, trueDisjunction]
    rfl
  · rfl

theorem evalCompared {op : BinaryOp} (compares : op.precedence = 3) (left : l.eval s = .ok v)
    (right : r.eval s = .ok w) : (binary op l r).eval s = .ok (toValue (compared op v w)) := by
  rw [← comparedValue]
  cases op with
  | and | or | add | sub | mul | div | mod => cases compares
  | _ =>
      rw [eval, left, right]
      · rfl
      all_goals exact nofun

theorem evalNot (value : x.eval s = .ok (toValue a)) : (unary .not x).eval s = .ok (negate a) := by
  rw [eval, value]
  exact congrArg (fun t => Except.ok (negate t)) (truthValue a)

/-! Lists -/

/-- Comparisons of an expression with each of some items, in order, with OR between them. -/
inductive AnyEqual (x : Expr) : List Expr → Expr → Prop where
  | one (i : Expr) : AnyEqual x [i] (.binary .eq x i)
  | either {is js : List Expr} {l r : Expr} (left : AnyEqual x is l) (right : AnyEqual x js r) :
      AnyEqual x (is ++ js) (.binary .or l r)

theorem anyEqualSome (x : Expr) (nonempty : items ≠ []) : ∃ e, AnyEqual x items e := by
  induction items with
  | nil => exact absurd rfl nonempty
  | cons i items ih =>
      cases items with
      | nil => exact ⟨_, .one i⟩
      | cons j items =>
          obtain ⟨e, others⟩ := ih (List.cons_ne_nil _ _)
          exact ⟨_, .either (.one i) others⟩

theorem anyEqualValue {e : Expr} (any : AnyEqual x items e) (value : x.eval s = .ok v)
    (each : items.mapM (·.eval s) = .ok ws) : e.eval s = .ok (toValue (anySame v ws)) := by
  induction any generalizing ws with
  | one i =>
      rw [List.mapM_cons, List.mapM_nil] at each
      obtain ⟨w, own, last⟩ := Outcome.bindOk.mp each
      cases Outcome.pureOk.mp last
      rw [evalCompared rfl value own, anySame, anySame, disjunctionFalse]
  | either _ _ first second =>
      rw [List.mapM_append] at each
      obtain ⟨ws, own, each⟩ := Outcome.bindOk.mp each
      obtain ⟨ws', others, last⟩ := Outcome.bindOk.mp each
      cases Outcome.pureOk.mp last
      rw [evalOr (first own) (second others), truthValue, truthValue, anySameAppend]

theorem memberNext {i : Expr} {unmatched : Option Bool} (present : v.isNull = false) (own : i.eval s = .ok w)
    (undecided : unmatched ≠ some true) : evalMember (i :: items) s v unmatched =
      if compared .eq v w = some true then .ok (some true)
      else evalMember items s v (disjunction unmatched (compared .eq v w)) := by
  simp only [evalMember, own, bind, Except.bind, compared, present, Bool.false_or]
  by_cases null : w.isNull = true
  · have unknown : disjunction unmatched none = none := by
      rcases unmatched with _ | _ | _
      · rfl
      · rfl
      · exact absurd rfl undecided
    simp only [null, if_true, unknown, reduceCtorEq, if_false]
  · by_cases same : v.order w = .eq
    · simp [null, same, Eval.holds, pure, Except.pure]
    · have apart : (v.order w == .eq) = false := beq_eq_false_iff_ne.mpr same
      simp [null, same, Eval.holds, apart, disjunctionFalse]

/-- Looking through a list takes the comparisons together, until one of them is true. -/
theorem memberValue {unmatched : Option Bool} (present : v.isNull = false)
    (each : items.mapM (·.eval s) = .ok ws) (undecided : unmatched ≠ some true) :
    evalMember items s v unmatched = .ok (disjunction unmatched (anySame v ws)) := by
  induction items generalizing ws unmatched with
  | nil =>
      cases Outcome.pureOk.mp each
      exact congrArg Except.ok (disjunctionFalse _).symm
  | cons i items ih =>
      rw [List.mapM_cons] at each
      obtain ⟨w, own, each⟩ := Outcome.bindOk.mp each
      obtain ⟨ws, others, last⟩ := Outcome.bindOk.mp each
      cases Outcome.pureOk.mp last
      rw [memberNext present own undecided, anySame, ← disjunctionAssoc]
      split
      · rename_i matched
        rw [matched, disjunctionTrue, trueDisjunction]
      · rename_i differs
        refine ih others fun decided => ?_
        rcases disjunctionDecided decided with first | here
        · exact undecided first
        · exact differs here

theorem listValue (negated : Bool) (nonempty : items ≠ []) (value : x.eval s = .ok v)
    (each : items.mapM (·.eval s) = .ok ws) :
    (inList negated x items).eval s = .ok (negateIf negated (toValue (anySame v ws))) := by
  simp only [eval, value, bind, Except.bind]
  cases present : v.isNull with
  | true =>
      have found : ws ≠ [] := by
        rintro rfl
        exact nonempty (List.forall₂_nil_right_iff.mp (Outcome.mapMOk.mp each))
      rw [anySameNull present found]
      rfl
  | false =>
      have unmatched : some false ≠ some true := by decide
      rw [memberValue present each unmatched, falseDisjunction]
      rfl

/-- A list has the value of its comparisons with OR between them, however these are bracketed, and the
negations have one value too. -/
theorem listMatches (nonempty : items ≠ []) (value : x.eval s = .ok v)
    (each : ∀ i ∈ items, ∃ w, i.eval s = .ok w) :
    (∃ e, AnyEqual x items e) ∧ ∃ t, (inList false x items).eval s = .ok (toValue t) ∧
      (inList true x items).eval s = .ok (negate t) ∧
        ∀ e, AnyEqual x items e → e.eval s = .ok (toValue t) ∧ (unary .not e).eval s = .ok (negate t) := by
  obtain ⟨ws, listed⟩ := Outcome.mapMTotal each
  refine ⟨anyEqualSome x nonempty, anySame v ws, listValue false nonempty value listed, ?_, fun e any => ?_⟩
  · rw [listValue true nonempty value listed, negateIf, if_pos rfl, truthValue]
  · have expanded := anyEqualValue any value listed
    exact ⟨expanded, evalNot expanded⟩

/-- A number among a text, a NULL and an equal double. -/
theorem listMatchesMixed :
    let s := Scope.ofRow .empty [.int 5, .null]
    let items := [.literal (.string "5"), .param 1, .literal (.float (.ofInt64 5))]
    let e := Expr.binary .or (.binary .or (.binary .eq (.param 0) (.literal (.string "5")))
      (.binary .eq (.param 0) (.param 1))) (.binary .eq (.param 0) (.literal (.float (.ofInt64 5))))
    items ≠ [] ∧ (param 0).eval s = .ok (.int 5) ∧ (∀ i ∈ items, ∃ w, i.eval s = .ok w) ∧
      AnyEqual (.param 0) items e ∧ (inList false (.param 0) items).eval s = .ok (.boolean true) ∧
        e.eval s = (inList false (.param 0) items).eval s ∧
          (unary .not e).eval s = (inList true (.param 0) items).eval s := by
  intro s items e
  have nonempty : items ≠ [] := List.cons_ne_nil _ _
  have each : ∀ i ∈ items, ∃ w, i.eval s = .ok w := by simp [items, s, Scope.ofRow, eval]
  have any : AnyEqual (.param 0) items e := .either (.either (.one _) (.one _)) (.one _)
  obtain ⟨_, t, listed, negated, expands⟩ := listMatches (x := .param 0) (s := s) nonempty rfl each
  obtain ⟨expanded, opposite⟩ := expands e any
  exact ⟨nonempty, rfl, each, any, by decide +kernel, expanded.trans listed.symm, opposite.trans negated.symm⟩

/-! Ranges -/

/-- The comparisons that a range stands for. -/
def bounded (x low high : Expr) : Expr := .binary .and (.binary .ge x low) (.binary .le x high)

theorem boundedValue {low high : Expr} {least most : Value} (value : x.eval s = .ok v)
    (lower : low.eval s = .ok least) (upper : high.eval s = .ok most) : (bounded x low high).eval s =
      .ok (toValue (conjunction (compared .ge v least) (compared .le v most))) := by
  rw [bounded, evalAnd (evalCompared rfl value lower) (evalCompared rfl value upper), truthValue, truthValue]

theorem rangeValue {low high : Expr} {least most : Value} (negated : Bool) (value : x.eval s = .ok v)
    (lower : low.eval s = .ok least) (upper : high.eval s = .ok most) :
    (between negated x low high).eval s = .ok (negateIf negated (Eval.between v least most)) := by
  rw [eval, value, lower, upper]
  rfl

/-- A range has the value of its two comparisons with AND between them, and so have their negations, except
exactly where a bound is NULL and the value lies past the other one. -/
theorem rangeMatches {low high : Expr} {least most : Value} (value : x.eval s = .ok v)
    (lower : low.eval s = .ok least) (upper : high.eval s = .ok most) :
    (¬ PastBound v least most → ∃ t, (between false x low high).eval s = .ok (toValue t) ∧
      (between true x low high).eval s = .ok (negate t) ∧ (bounded x low high).eval s = .ok (toValue t) ∧
        (unary .not (bounded x low high)).eval s = .ok (negate t)) ∧
      (PastBound v least most → (between false x low high).eval s = .ok .null ∧
        (between true x low high).eval s = .ok .null ∧
          (bounded x low high).eval s = .ok (.boolean false) ∧
            (unary .not (bounded x low high)).eval s = .ok (.boolean true)) := by
  have own := boundedValue value lower upper
  refine ⟨fun within => ⟨conjunction (compared .ge v least) (compared .le v most), ?_, ?_, own, evalNot own⟩,
    fun past => ?_⟩
  · rw [rangeValue false value lower upper, betweenWithin within]
    rfl
  · rw [rangeValue true value lower upper, betweenWithin within, negateIf, if_pos rfl, truthValue]
  · obtain ⟨unknown, decided⟩ := betweenPast past
    rw [decided] at own
    refine ⟨?_, ?_, own, evalNot own⟩
    · rw [rangeValue false value lower upper, unknown]
      rfl
    · rw [rangeValue true value lower upper, unknown]
      rfl

/-- A NULL bound behind a bound that a number respects, and behind one that it does not. -/
theorem rangeMatchesHalf :
    let s := Scope.ofRow .empty [.int 5, .float (.ofInt64 3), .null, .string "five"]
    let e := bounded (.param 0) (.param 1) (.param 2)
    let e' := bounded (.param 0) (.param 3) (.param 2)
    ¬ PastBound (.int 5) (.float (.ofInt64 3)) .null ∧ PastBound (.int 5) (.string "five") .null ∧
      (between false (.param 0) (.param 1) (.param 2)).eval s = e.eval s ∧
        (between true (.param 0) (.param 1) (.param 2)).eval s = (unary .not e).eval s ∧
          e.eval s = .ok .null ∧
            (between true (.param 0) (.param 3) (.param 2)).eval s = .ok .null ∧
              (unary .not e').eval s = .ok (.boolean true) := by
  intro s e e'
  have within : ¬ PastBound (.int 5) (.float (.ofInt64 3)) .null := by
    unfold PastBound
    decide +kernel
  have past : PastBound (.int 5) (.string "five") .null := .inl ⟨by decide, rfl⟩
  have value : (param 0).eval s = .ok (.int 5) := rfl
  have lower : (param 1).eval s = .ok (.float (.ofInt64 3)) := rfl
  have lower' : (param 3).eval s = .ok (.string "five") := rfl
  have upper : (param 2).eval s = .ok .null := rfl
  obtain ⟨t, range, negated, expanded, opposite⟩ := (rangeMatches value lower upper).1 within
  obtain ⟨_, unknown, _, decided⟩ := (rangeMatches value lower' upper).2 past
  exact ⟨within, past, range.trans expanded.symm, negated.trans opposite.symm, by decide +kernel, unknown,
    decided⟩

/-- A number that lies below one bound of a range whose other bound is NULL. -/
theorem rangeDiffers :
    let s := Scope.ofRow .empty []
    let x := literal (.int 5)
    let low := literal (.int 10)
    let high := literal .null
    x.eval s = .ok (.int 5) ∧ low.eval s = .ok (.int 10) ∧ high.eval s = .ok .null ∧
      (between false x low high).eval s = .ok .null ∧
        (bounded x low high).eval s = .ok (.boolean false) ∧
          (between true x low high).eval s = .ok .null ∧
            (unary .not (bounded x low high)).eval s = .ok (.boolean true) ∧
              (between false x low high).eval s ≠ (bounded x low high).eval s ∧
                (between true x low high).eval s ≠ (unary .not (bounded x low high)).eval s := by
  refine ⟨rfl, rfl, rfl, rfl, rfl, rfl, rfl, by decide, by decide⟩

end Expr

end RelQuery
