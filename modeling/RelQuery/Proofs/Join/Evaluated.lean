import RelQuery.Proofs.Join.Drawn

/-! What a run that succeeds has evaluated. A failure ends the run, so no condition failed on a lead that
it was asked on, and the answer is that of the leads that belong to the join. -/
namespace RelQuery.Relational

variable {main : OpenSource} {params : List Value} {done : List Lead} {earlier : List JoinSource}
  {j : JoinSource} {m : MatchRecord} {last : Bool} {lead : Lead}

/-! One step -/

theorem askedNow {b : Bool} (member : lead ∈ reached main params last earlier)
    (ahead : last = true → b = !JoinRun.hasOuter (j :: earlier))
    (asked : lead ∈ asked main params (still j) earlier) :
    (last && b) = false ∧ (last && j.kind.keepsUnmatchedJoin) = false := by
  rcases memAsked.mp asked with first | ⟨plain, outer, final⟩
  · have begins : lead ∈ reached main params false earlier := first
    have round : false = last := reachedOnce begins member
    subst round
    exact ⟨rfl, rfl⟩
  · have ends : lead ∈ reached main params true earlier := final
    have round : true = last := reachedOnce ends member
    subst round
    have own : j.kind.keepsUnmatchedJoin = false := plain
    rw [ahead rfl, hasOuterCons, outer, own]
    exact ⟨rfl, rfl⟩

theorem extendEvaluable {b : Bool} (member : lead ∈ reached main params last earlier)
    (ahead : last = true → b = !JoinRun.hasOuter (j :: earlier))
    (ok : (j.extend main.name params last b m lead (compose main earlier lead)).2.isOk = true)
    (asked : lead ∈ asked main params (still j) earlier)
    (row : j.source.cursor.position < size j.source) :
    (condition main params earlier (still j) lead j.source.cursor.position).isOk = true := by
  obtain ⟨now, own⟩ := askedNow member ahead asked
  obtain ⟨r, present, chosen⟩ := currentRow main earlier row
  rw [conditionCurrent params chosen]
  simp only [JoinSource.extend, present, now, own, Bool.false_eq_true, if_false] at ok
  split at ok
  · cases ok
  · rename_i holds
    rw [holds]
    rfl
  · rename_i holds
    rw [holds]
    rfl

theorem evaluableUnreached (joins : List JoinSource) (ps : List Nat)
    (same : ps.length = joins.length) (before : EvaluableAt main params earlier lead)
    (none : ∀ last, lead ∉ reached main params last earlier) :
    EvaluableAt main params (joins.reverse ++ earlier) (ps.reverse ++ lead) := by
  induction joins generalizing ps earlier lead with
  | nil =>
      obtain rfl := List.length_eq_zero_iff.mp same
      exact before
  | cons j joins ih =>
      cases ps with
      | nil => simp at same
      | cons p ps =>
          simp only [List.reverse_cons, List.append_assoc, List.singleton_append]
          exact ih ps (by simpa using same) ⟨before, fun asked => absurd asked (notAsked none)⟩
            fun last more => none last (reachedBack more)

theorem extendAllEvaluable (joins : List JoinSource) {b : Bool} {records : List MatchRecord}
    (member : lead ∈ reached main params last earlier)
    (ahead : last = true → b = !JoinRun.hasOuter earlier)
    (recorded : AllRecorded main params done earlier (joins.map still) records)
    (complete : Complete main ((joins.map still).reverse ++ earlier) done
      ((positions joins).reverse ++ lead))
    (ok : (JoinSource.extendAll main.name params last joins records b lead
      (compose main earlier lead)).2.isOk = true)
    (before : EvaluableAt main params earlier lead) :
    EvaluableAt main params ((joins.map still).reverse ++ earlier)
      ((positions joins).reverse ++ lead) := by
  induction joins generalizing earlier lead b records with
  | nil => exact before
  | cons j joins ih =>
      have beforeOuter := outerNext (j := j) ahead
      rw [positionsNext, stillsNext] at complete ⊢
      generalize result : j.extend main.name params last (b && !j.kind.keepsUnmatchedJoin)
        (records.headD .none) lead (compose main earlier lead) = answer at ok
      obtain ⟨m, o⟩ := answer
      simp only [JoinSource.extendAll, result] at ok
      have own : o.isOk = true := by
        cases o with
        | error e => exact absurd ok Bool.false_ne_true
        | ok c => rfl
      have here := extendEvaluable member beforeOuter
        ((congrArg (fun answer => answer.2.isOk) result).trans own)
      have next : EvaluableAt main params (still j :: earlier)
          (j.source.cursor.position :: lead) := ⟨before, here⟩
      obtain ⟨decided, _⟩ := extendReached member beforeOuter recorded.1
        (fun y => fitsPositions joins) complete here
      rw [result] at decided
      by_cases belongs : j.source.cursor.position :: lead ∈
          reached main params last (still j :: earlier)
      · rw [if_pos belongs] at decided
        simp only [show o = _ from decided] at ok
        exact ih belongs beforeOuter recorded.2 complete ok next
      · have width : (positions joins).length = (joins.map still).length := by simp [positions]
        refine evaluableUnreached _ _ width next fun other more => ?_
        have round := reachedOnce (reachedBack more) member
        exact belongs (round ▸ more)

variable {joins : List JoinSource} {r r' : JoinRun} {condition : Option Expr}

theorem candidateEvaluable (underway : Underway main params joins done r)
    (running : r.finished = false) (ok : r.candidate.2.isOk = true) :
    EvaluableAt main params joins.reverse (currentLead r) := by
  have early := currentRound underway running
  have complete := completeCurrent underway running
  obtain ⟨mainSame, joinsSame, paramsSame, recorded, _⟩ := underway
  subst mainSame joinsSame paramsSame
  have whole := extendAllEvaluable r.joins
    (reachedBase (stillMain r.main) r.params (positionLe r.main)) (aheadCurrent early) recorded
    (by rw [List.append_nil]; exact complete) (by rw [← candidateCurrent]; exact ok) trivial
  rw [List.append_nil] at whole
  exact whole

theorem stepEvaluable {o : Option Composition} (underway : Underway main params joins done r)
    (running : r.finished = false) (stepped : r.step = (r', .ok o)) :
    EvaluableAt main params joins.reverse (currentLead r) ∧
      Filterable main params r.condition joins [currentLead r] := by
  have formed : r.candidate.2.isOk = true := by
    simp only [JoinRun.step] at stepped
    split at stepped
    · cases stepped
    · rename_i found
      rw [found]
      rfl
    · rename_i found
      rw [found]
      rfl
  have evaluable := candidateEvaluable underway running formed
  refine ⟨evaluable, fun x member belongs => ?_⟩
  cases List.mem_singleton.mp member
  obtain ⟨records, candidate, _⟩ := candidateUnderway underway running evaluable
  have asks : JoinRun.passesCondition { r with records := records } =
      whereHolds r.condition params := by
    rw [← underway.paramsSame]
    rfl
  simp only [JoinRun.step, candidate, if_pos belongs, asks, Prod.mk.injEq] at stepped
  obtain ⟨b, holds, _⟩ := Outcome.mapOk.mp stepped.2
  rw [holds]
  rfl

/-! Whole runs -/

theorem foldEvaluable {σ : Type} {f : σ → Composition → Outcome σ} {s s' : σ}
    (underway : Underway main params joins done r) (ok : (r.fold f s).2 = .ok s') :
    ∀ x ∈ ahead r, EvaluableAt main params joins.reverse x ∧
      Filterable main params r.condition joins [x] := by
  -- What a step has evaluated concerns the first of the leads that are ahead.
  have one {r r' : JoinRun} {o : Option Composition} {done : List Lead}
      (underway : Underway main params joins done r) (running : r.finished = false)
      (stepped : r.step = (r', .ok o))
      (later : Underway main params joins (done ++ [currentLead r]) r' → ∀ x ∈ ahead r',
        EvaluableAt main params joins.reverse x ∧ Filterable main params r'.condition joins [x]) :
      ∀ x ∈ ahead r, EvaluableAt main params joins.reverse x ∧
        Filterable main params r.condition joins [x] := by
    obtain ⟨evaluable, filterable⟩ := stepEvaluable underway running stepped
    obtain ⟨next, stepped', underway', condition, moved⟩ :=
      stepUnderway underway running evaluable filterable
    cases stepped.symm.trans stepped'
    intro x member
    rw [moved] at member
    rcases List.mem_cons.mp member with same | member
    · subst same
      exact ⟨evaluable, filterable⟩
    · rw [← condition]
      exact later underway' x member
  fun_induction JoinRun.fold f s r generalizing done with
  | case1 s r finished =>
      intro x member
      rw [aheadFinished finished] at member
      cases member
  | case2 s r running r' e stepped => cases ok
  | case3 s r running r' stepped ih =>
      exact one underway (by simpa using running) stepped fun underway' => ih underway' ok
  | case4 s r running r' c stepped e failed => cases ok
  | case5 s r running r' c stepped next taken ih =>
      exact one underway (by simpa using running) stepped fun underway' => ih underway' ok

theorem fitsStart (later : List JoinSource) (fits : Fits main earlier lead) :
    Fits main (later ++ earlier) (later.map (fun _ => 0) ++ lead) := by
  induction later with
  | nil => exact fits
  | cons j later ih => exact ⟨Nat.zero_le _, ih⟩

theorem askedPlace (asked : lead ∈ asked main params j earlier) {later : List JoinSource}
    (split : joins.reverse = later ++ j :: earlier) :
    Fits main earlier lead ∧ ∃ m < rounds main joins, lead.getLast? = some m := by
  have outer : JoinRun.hasOuter earlier = true → JoinRun.hasOuter joins = true := by
    intro outer
    have all : JoinRun.hasOuter joins.reverse = true := by
      rw [split]
      simp only [JoinRun.hasOuter, List.any_append, List.any_cons, Bool.or_eq_true]
      exact .inr (.inr outer)
    simpa [JoinRun.hasOuter] using all
  rcases memAsked.mp asked with first | ⟨_, more, final⟩
  · obtain ⟨fits, m, less, place⟩ := fromMainFits first
    refine ⟨fits, m, ?_, place⟩
    rw [rounds]
    split <;> omega
  · obtain ⟨fits, place⟩ := lastRoundFits final
    refine ⟨fits, _, ?_, place⟩
    rw [rounds, if_pos (outer more)]
    exact Nat.lt_succ_self _

theorem evaluableOfVisits
    (each : ∀ x ∈ visits main joins, EvaluableAt main params joins.reverse x)
    {later : List JoinSource} (split : joins.reverse = later ++ earlier) :
    Evaluable main params (asked main params) earlier := by
  induction earlier generalizing later with
  | nil => trivial
  | cons j earlier ih =>
      have split' : joins.reverse = (later ++ [j]) ++ earlier := by rw [split]; simp
      refine ⟨ih split', fun lead asked p row => ?_⟩
      obtain ⟨fits, m, early, place⟩ := askedPlace asked split
      have here : Fits main (j :: earlier) (p :: lead) := ⟨Nat.le_of_lt row, fits⟩
      have whole := fitsStart later here
      rw [← split] at whole
      have visited := each _ (memVisits whole (lastOfAppend (mainOfCons place)) early)
      rw [split] at visited
      exact (evaluableAtOf (by simp) visited).2 asked row

section
variable {evaluate : Source → Outcome Relation} {first : Source} {others : List Join}
  {cs : List Composition} {relation : Relation} {sources : List JoinSource}

/-- What a run that was started and has succeeded is made of. -/
structure Answered (evaluate : Source → Outcome Relation) (first : Source) (others : List Join)
    (condition : Option Expr) (params : List Value) (relation : Relation)
    (sources : List JoinSource) (cs : List Composition) : Prop where
  evaluated : evaluate first = .ok relation
  opened : others.mapM (JoinRun.openJoin evaluate) = .ok sources
  distinct : (first.name :: others.map (·.source.name)).Nodup
  evaluable : Evaluable (opening first relation) params (asked (opening first relation) params)
    sources.reverse
  filterable : Filterable (opening first relation) params condition sources
    (visits (opening first relation) sources)
  answer : cs = answers (opening first relation) params condition sources
    (visits (opening first relation) sources)

theorem collectAnswered (started : JoinRun.start evaluate first others condition params = .ok r)
    (collected : r.collect.2 = .ok cs) : ∃ relation sources,
      Answered evaluate first others condition params relation sources cs := by
  obtain ⟨distinct, relation, sources, evaluated, opened, _⟩ := startOk.mp started
  obtain ⟨r', started', underway, filter, all⟩ :=
    startUnderway condition params distinct evaluated opened
  cases started.symm.trans started'
  obtain ⟨seen, folded, _⟩ := Outcome.mapOk.mp collected
  have each := foldEvaluable underway folded
  rw [all, filter] at each
  have evaluable := evaluableOfVisits (fun x visited => (each x visited).1) (List.nil_append _).symm
  have filterable : Filterable (opening first relation) params condition sources
      (visits (opening first relation) sources) := fun x visited =>
    (each x visited).2 x (List.mem_singleton.mpr rfl)
  have answered := collectUnderway underway evaluable (by rw [filter, all]; exact filterable)
  rw [filter, all] at answered
  exact ⟨relation, sources, evaluated, opened, distinct, evaluable, filterable,
    Except.ok.inj (collected.symm.trans answered)⟩

theorem answeredCollects (evaluated : evaluate first = .ok relation)
    (opened : others.mapM (JoinRun.openJoin evaluate) = .ok sources)
    (distinct : (first.name :: others.map (·.source.name)).Nodup)
    (evaluable : Evaluable (opening first relation) params (asked (opening first relation) params)
      sources.reverse) :
    ∃ r, JoinRun.start evaluate first others none params = .ok r ∧
      r.collect.2 = .ok (answers (opening first relation) params none sources
        (visits (opening first relation) sources)) := by
  obtain ⟨r, started, underway, filter, all⟩ :=
    startUnderway none params distinct evaluated opened
  have collected := collectUnderway underway evaluable (by rw [filter]; exact fun _ _ _ => rfl)
  rw [filter, all] at collected
  exact ⟨r, started, collected⟩

end

end RelQuery.Relational
