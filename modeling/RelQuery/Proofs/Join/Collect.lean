import RelQuery.Proofs.Join.Candidate

/-! What a running join answers. Each step takes one lead from those ahead and answers its composition
exactly if the lead belongs to the join and its composition satisfies the condition; a whole run
therefore passes on, in order, the compositions of all leads that are ahead. -/
namespace RelQuery.Relational

section
variable (main : OpenSource) (params : List Value)

/-- The condition of a whole statement on a composition. -/
def whereHolds (condition : Option Expr) (params : List Value) (c : Composition) : Outcome Bool :=
  match condition with
  | none => .ok true
  | some e => passes e c params

/-- What is answered for some leads. -/
def answers (condition : Option Expr) (joins : List JoinSource) (leads : List Lead) :
    List Composition :=
  ((leads.filter fun x => (members main params joins.reverse).contains x).map
    (compose main joins.reverse)).filter fun c => truth (whereHolds condition params c)

/-- No evaluation of a statement's condition fails on the members among some leads. -/
def Filterable (condition : Option Expr) (joins : List JoinSource) (leads : List Lead) : Prop :=
  ∀ x ∈ leads, x ∈ members main params joins.reverse →
    (whereHolds condition params (compose main joins.reverse x)).isOk = true

/-- A run that has visited some leads. -/
structure Underway (joins : List JoinSource) (done : List Lead) (r : JoinRun) : Prop where
  mainSame : stillMain r.main = main
  joinsSame : r.joins.map still = joins
  paramsSame : r.params = params
  recorded : AllRecorded main params done [] joins r.records
  visited : done ++ ahead r = visits main joins

end

variable {main : OpenSource} {params : List Value} {joins : List JoinSource} {done : List Lead}
  {r : JoinRun}

theorem currentLast (r : JoinRun) : (currentLead r).getLast? = some r.main.cursor.position := by
  simp [currentLead]

theorem roundOfVisits {x : Lead} {m : Nat} (h : x ∈ visits main joins) (last : x.getLast? = some m) :
    m < rounds main joins := by
  simp only [visits, roundAt, List.mem_flatMap, List.mem_range, List.mem_map] at h
  obtain ⟨n, less, ps, _, rfl⟩ := h
  have same : n = m := by simpa using last
  exact same ▸ less

theorem currentRound (underway : Underway main params joins done r) (running : r.finished = false) :
    r.main.cursor.position < rounds main joins := by
  have member : currentLead r ∈ visits main joins := by
    rw [← underway.visited, aheadAdvance running]
    simp
  exact roundOfVisits member (currentLast r)

theorem completeCurrent (underway : Underway main params joins done r)
    (running : r.finished = false) :
    Complete main joins.reverse done (currentLead r) := by
  intro y fits less
  have split : done ++ currentLead r :: ahead r.advance = visits main joins := by
    rw [← aheadAdvance running]
    exact underway.visited
  obtain ⟨front, m, rfl⟩ := List.eq_nil_or_concat y |>.resolve_left (fitsNonempty fits)
  rw [List.concat_eq_append] at fits less ⊢
  have early : m < rounds main joins := by
    have current := currentRound underway running
    rw [readingSnoc, currentLead, readingSnoc] at less
    rcases List.cons_lt_cons_iff.mp less with first | ⟨same, _⟩ <;> omega
  have member := memVisits fits (by simp) early
  rw [← split] at member
  -- The leads that are not visited yet do not come before the current one.
  rcases List.mem_append.mp member with visited | later
  · exact visited
  · have sorted := visitsSorted main joins
    rw [← split] at sorted
    rcases List.mem_cons.mp later with same | later
    · exact absurd (same ▸ less) (List.lt_irrefl _)
    · have more := (List.pairwise_cons.mp (List.pairwise_append.mp sorted).2.1).1 _ later
      exact absurd less (List.lt_asymm more)

theorem memMembers {x : Lead} {m : Nat} (place : x.getLast? = some m)
    (early : m < rounds main joins) : x ∈ members main params joins.reverse ↔
      x ∈ reached main params (decide (m = size main)) joins.reverse := by
  rw [members, List.mem_append]
  have outerRev : JoinRun.hasOuter joins.reverse = JoinRun.hasOuter joins := by
    simp [JoinRun.hasOuter]
  by_cases last : m = size main
  · have outer : JoinRun.hasOuter joins.reverse = true := by
      rw [outerRev]
      by_contra none
      rw [rounds, if_neg none] at early
      omega
    simp only [last, decide_true, reached, if_true, lastRoundOfOuter outer]
    refine or_iff_right fun first => ?_
    obtain ⟨_, n, less, same⟩ := fromMainFits first
    have equal : n = m := Option.some.inj (same.symm.trans place)
    omega
  · simp only [last, decide_false, reached, Bool.false_eq_true, if_false]
    refine or_iff_left fun final => last ?_
    have same := (lastRoundFits (memExhausted.mp final).2).2
    exact Option.some.inj (place.symm.trans same)

theorem reachedBase (main : OpenSource) (params : List Value) {m : Nat} (bound : m ≤ size main) :
    [m] ∈ reached main params (decide (m = size main)) [] := by
  by_cases last : m = size main
  · rw [decide_eq_true last, reached, if_pos rfl, lastRoundOfPlain rfl, last]
    exact List.mem_singleton.mpr rfl
  · rw [decide_eq_false last]
    exact List.mem_map.mpr ⟨m, List.mem_range.mpr (Nat.lt_of_le_of_ne bound last), rfl⟩

theorem candidateCurrent (r : JoinRun) : r.candidate =
    JoinSource.extendAll (stillMain r.main).name r.params
      (decide (r.main.cursor.position = size (stillMain r.main))) r.joins r.records
      (JoinRun.hasOuter r.joins) [r.main.cursor.position]
      (compose (stillMain r.main) [] [r.main.cursor.position]) := by
  have noRow : r.main.cursor.fetch.isNone = decide (r.main.cursor.position = size r.main) := by
    have bound := positionLe r.main
    rw [← Option.not_isSome, Cursor.fetch, rowPresent, ← decide_not, decide_eq_decide]
    omega
  rw [JoinRun.candidate, noRow]
  rfl

theorem aheadCurrent
    (early : r.main.cursor.position < rounds (stillMain r.main) (r.joins.map still))
    (last : decide (r.main.cursor.position = size (stillMain r.main)) = true) :
    JoinRun.hasOuter r.joins = !JoinRun.hasOuter [] := by
  have place : r.main.cursor.position = size (stillMain r.main) := of_decide_eq_true last
  by_contra none
  rw [rounds, hasOuterStill, if_neg (by simpa using none)] at early
  omega

theorem candidateUnderway (underway : Underway main params joins done r)
    (running : r.finished = false)
    (evaluable : EvaluableAt main params joins.reverse (currentLead r)) :
    ∃ records, r.candidate = (records, .ok (if currentLead r ∈ members main params joins.reverse then
        some (compose main joins.reverse (currentLead r)) else none)) ∧
      AllRecorded main params (done ++ [currentLead r]) [] joins records := by
  have early := currentRound underway running
  have complete := completeCurrent underway running
  simp only [memMembers (currentLast r) early]
  obtain ⟨mainSame, joinsSame, paramsSame, recorded, _⟩ := underway
  subst mainSame joinsSame paramsSame
  obtain ⟨records, run, exact'⟩ := extendAllReached r.joins
    (reachedBase (stillMain r.main) r.params (positionLe r.main)) (aheadCurrent early) recorded
    (by rw [List.append_nil]; exact complete) (by rw [List.append_nil]; exact evaluable)
  rw [List.append_nil] at run
  exact ⟨records, by rw [candidateCurrent]; exact run, exact'⟩

theorem stillMainNext (s : OpenSource) :
    stillMain { s with cursor := s.cursor.next } = stillMain s := by
  cases ends : s.cursor.atEnd with
  | true => simp [stillMain, Cursor.next, (atEndIff _).mp ends]
  | false =>
      obtain ⟨_, rows, staged⟩ := nextOf ends
      simp [stillMain, Cursor.rewind, rows, staged]

theorem advanceSame (r : JoinRun) : stillMain r.advance.main = stillMain r.main ∧
    r.advance.joins.map still = r.joins.map still ∧ r.advance.records = r.records ∧
      r.advance.condition = r.condition ∧ r.advance.params = r.params := by
  simp only [JoinRun.advance]
  split
  · exact ⟨rfl, stillTurn _, rfl, rfl, rfl⟩
  · split
    · exact ⟨rfl, stillTurn _, rfl, rfl, rfl⟩
    · exact ⟨stillMainNext _, stillTurn _, rfl, rfl, rfl⟩

theorem stepUnderway (underway : Underway main params joins done r) (running : r.finished = false)
    (evaluable : EvaluableAt main params joins.reverse (currentLead r))
    (filterable : Filterable main params r.condition joins [currentLead r]) :
    ∃ r', r.step = (r', .ok (answers main params r.condition joins [currentLead r]).head?) ∧
      Underway main params joins (done ++ [currentLead r]) r' ∧ r'.condition = r.condition ∧
        ahead r = currentLead r :: ahead r' := by
  obtain ⟨records, candidate, recorded⟩ := candidateUnderway underway running evaluable
  obtain ⟨mainSame, joinsSame, recordsSame, conditionSame, paramsSame⟩ :=
    advanceSame { r with records := records }
  have moved : ahead r = currentLead r :: ahead (JoinRun.advance { r with records := records }) := by
    have split : ahead { r with records := records } = ahead r := rfl
    rw [← split]
    exact aheadAdvance running
  have next : Underway main params joins (done ++ [currentLead r])
      (JoinRun.advance { r with records := records }) := by
    refine ⟨mainSame.trans underway.mainSame, joinsSame.trans underway.joinsSame,
      paramsSame.trans underway.paramsSame, recordsSame ▸ recorded, ?_⟩
    rw [List.append_assoc, List.singleton_append, ← moved]
    exact underway.visited
  refine ⟨JoinRun.advance { r with records := records }, ?_, next, conditionSame, moved⟩
  by_cases belongs : currentLead r ∈ members main params joins.reverse
  · have answered := filterable _ (List.mem_singleton.mpr rfl) belongs
    have asks : JoinRun.passesCondition { r with records := records } =
        whereHolds r.condition params := by
      rw [← underway.paramsSame]
      rfl
    simp only [JoinRun.step, candidate, if_pos belongs, asks, answers]
    cases holds : whereHolds r.condition params (compose main joins.reverse (currentLead r)) with
    | error e => simp [holds, Except.isOk, Except.toBool] at answered
    | ok b => cases b <;> simp [belongs, holds, truth, Except.map]
  · simp [JoinRun.step, candidate, belongs, answers]

/-! Whole runs -/

section
variable {σ : Type} {f : σ → Composition → Outcome σ} {s : σ} {r' : JoinRun}

theorem foldFinished (finished : r.finished = true) : r.fold f s = (r, .ok s) := by
  rw [JoinRun.fold]
  simp [finished]

theorem foldNone (running : r.finished = false) (stepped : r.step = (r', .ok none)) :
    r.fold f s = r'.fold f s := by
  rw [JoinRun.fold]
  simp only [running, Bool.false_eq_true, dite_false]
  split <;> simp_all

theorem foldSome {c : Composition} (running : r.finished = false)
    (stepped : r.step = (r', .ok (some c))) : (r.fold f s).2 = (f s c).bind fun s => (r'.fold f s).2 := by
  rw [JoinRun.fold]
  simp only [running, Bool.false_eq_true, dite_false]
  split
  · simp_all
  · simp_all
  · rename_i same
    rw [stepped] at same
    cases same
    cases f s c <;> rfl

theorem answersCons (condition : Option Expr) (x : Lead) (leads : List Lead) :
    answers main params condition joins (x :: leads) =
      (answers main params condition joins [x]).head?.toList ++
        answers main params condition joins leads := by
  by_cases belongs : x ∈ members main params joins.reverse
  · cases holds : truth (whereHolds condition params (compose main joins.reverse x)) <;>
      simp [answers, belongs, holds]
  · simp [answers, belongs]

/-- A run passes on the compositions of all leads that are ahead, up to the first failure of the
function that takes them. -/
theorem foldUnderway (underway : Underway main params joins done r)
    (evaluable : Evaluable main params (asked main params) joins.reverse)
    (filterable : Filterable main params r.condition joins (ahead r)) :
    (r.fold f s).2 = (answers main params r.condition joins (ahead r)).foldlM f s := by
  -- Each step takes the first of the leads that are ahead, so these carry the induction.
  generalize leads : ahead r = rest at filterable
  induction rest generalizing r done s with
  | nil =>
      have finished : r.finished = true := by
        by_contra running
        rw [aheadAdvance (Bool.eq_false_iff.mpr running)] at leads
        exact absurd leads (by simp)
      rw [foldFinished finished]
      rfl
  | cons x rest ih =>
      have running : r.finished = false := by
        by_contra finished
        rw [aheadFinished (by simpa using finished)] at leads
        exact absurd leads (by simp)
      obtain ⟨rfl, _⟩ := List.cons.inj ((aheadAdvance running).symm.trans leads)
      obtain ⟨r', stepped, next, condition, moved⟩ := stepUnderway underway running
        (evaluableAt evaluable _) fun y member => filterable y (by simp [List.mem_singleton.mp member])
      have rest' : ahead r' = rest := (List.cons.inj (moved.symm.trans leads)).2
      have others : Filterable main params r'.condition joins rest := by
        rw [condition]
        exact fun y member => filterable y (by simp [member])
      have later (s : σ) : (r'.fold f s).2 =
          (answers main params r.condition joins rest).foldlM f s := by
        rw [← condition]
        exact ih next rest' others
      rw [answersCons, List.foldlM_append]
      cases answered : (answers main params r.condition joins [currentLead r]).head? with
      | none =>
          rw [answered] at stepped
          rw [foldNone running stepped, later]
          rfl
      | some c =>
          rw [answered] at stepped
          rw [foldSome running stepped]
          cases taken : f s c <;> simp [taken, later, Except.bind, bind, pure, Except.pure]

end

theorem foldPush (cs : List Composition) (seen : Array Composition) :
    cs.foldlM (fun (seen : Array Composition) c => (.ok (seen.push c) : Outcome _)) seen =
      .ok (seen ++ cs.toArray) := by
  induction cs generalizing seen with
  | nil => simp [pure, Except.pure]
  | cons c cs ih => simp [ih, bind, Except.bind]

theorem collectUnderway (underway : Underway main params joins done r)
    (evaluable : Evaluable main params (asked main params) joins.reverse)
    (filterable : Filterable main params r.condition joins (ahead r)) :
    r.collect.2 = .ok (answers main params r.condition joins (ahead r)) := by
  simp only [JoinRun.collect]
  rw [foldUnderway underway evaluable filterable, foldPush]
  simp [Except.map]

end RelQuery.Relational
