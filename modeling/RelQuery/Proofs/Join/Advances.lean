import Mathlib.Algebra.BigOperators.Group.List.Basic
import RelQuery.Proofs.Join.Answer
import RelQuery.Proofs.Outcome

/-! How far a running join gets. The advances of a join that was just started show every reading of its cursors
once, in rising order, and after the last one the join is finished for good. A fetch makes some of these
advances, so it ends wherever it starts from and whatever it rejects. -/
namespace RelQuery.Relational

open JoinRun (advance turn hasOuter)

variable {r r' : JoinRun}

/-! One advance after another -/

/-- A run after some advances. -/
def advanced (k : Nat) (r : JoinRun) : JoinRun := advance^[k] r

theorem advancedSucc (k : Nat) (r : JoinRun) : advanced (k + 1) r = advanced k r.advance :=
  Function.iterate_succ_apply ..

theorem advancedAdd (k n : Nat) (r : JoinRun) : advanced (k + n) r = advanced k (advanced n r) :=
  Function.iterate_add_apply ..

/-- A join is only finished when its main cursor is past its end. -/
def MainEnds (r : JoinRun) : Prop := r.finished = true → r.main.cursor.atEnd = true

theorem advanceEq (r : JoinRun) : r.advance =
    if (turn r.joins).2 then
      if r.main.cursor.atEnd then { r with joins := (turn r.joins).1, finished := true }
      else { r with
        joins := (turn r.joins).1
        main := { r.main with cursor := r.main.cursor.next }
        finished := r.main.cursor.next.atEnd && !hasOuter (turn r.joins).1 }
    else { r with joins := (turn r.joins).1 } := by
  unfold JoinRun.advance
  generalize turn r.joins = turned
  obtain ⟨joins, carried⟩ := turned
  cases carried <;> rfl

theorem mainEndsAdvance (exhausted : MainEnds r) : MainEnds r.advance := by
  intro finished
  rw [advanceEq] at finished ⊢
  split
  · rename_i carries
    rw [if_pos carries] at finished
    split
    · assumption
    · rename_i goes
      rw [if_neg goes] at finished
      exact (Bool.and_eq_true_iff.mp finished).1
  · rename_i stays
    rw [if_neg stays] at finished
    exact exhausted finished

theorem finishedAdvance (exhausted : MainEnds r) (finished : r.finished = true) :
    r.advance.finished = true := by
  rw [advanceEq, if_pos (exhausted finished)]
  split
  · rfl
  · exact finished

theorem aheadNil : ahead r = [] ↔ r.finished = true := by
  refine ⟨fun none => ?_, aheadFinished⟩
  by_contra running
  rw [aheadAdvance (Bool.eq_false_iff.mpr running)] at none
  cases none

/-- Advancing drops the leads that are ahead one by one, and nothing comes after the last. -/
theorem aheadAdvanced (exhausted : MainEnds r) (k : Nat) :
    ahead (advanced k r) = (ahead r).drop k ∧ MainEnds (advanced k r) := by
  induction k generalizing r with
  | zero => exact ⟨rfl, exhausted⟩
  | succ k ih =>
      rw [advancedSucc]
      obtain ⟨dropped, still⟩ := ih (mainEndsAdvance exhausted)
      refine ⟨?_, still⟩
      cases done : r.finished with
      | true => rw [dropped, aheadFinished done, aheadFinished (finishedAdvance exhausted done)]; simp
      | false => rw [dropped, aheadAdvance done, List.drop_succ_cons]

theorem finishedAdvanced (exhausted : MainEnds r) (k : Nat) :
    (advanced k r).finished = decide ((ahead r).length ≤ k) := by
  rw [Bool.eq_iff_iff, decide_eq_true_iff, ← aheadNil, (aheadAdvanced exhausted k).1, List.drop_eq_nil_iff]

theorem leadsAdvanced (exhausted : MainEnds r) :
    (List.range (ahead r).length).map (fun k => currentLead (advanced k r)) = ahead r := by
  refine List.ext_getElem (by simp) fun k bound bound' => ?_
  rw [List.getElem_map, List.getElem_range]
  have running : (advanced k r).finished = false := by
    rw [finishedAdvanced exhausted, decide_eq_false_iff_not]
    exact Nat.not_le.mpr bound'
  have first := aheadAdvance running
  rw [(aheadAdvanced exhausted k).1, List.drop_eq_getElem_cons bound'] at first
  exact (List.cons.inj first).1.symm

/-! Readings of the cursors -/

/-- The positions of all cursors as a counter shows them: that of the main source, then those of the joins from
the last to the first. -/
def counter (r : JoinRun) : List Nat := r.main.cursor.position :: (positions r.joins).reverse

theorem counterReading (r : JoinRun) : counter r = reading (currentLead r) := (readingSnoc ..).symm

theorem memTurns {joins : List JoinSource} {ps : List Nat} :
    ps ∈ turns joins ↔ List.Forall₂ (· ≤ ·) ps (joins.map fun j => size j.source) := by
  induction joins generalizing ps with
  | nil => simp [turns]
  | cons j joins ih =>
      simp only [turns, List.mem_flatMap, List.mem_map, List.mem_range, List.map_cons,
        List.forall₂_cons_right_iff, ih, Nat.lt_succ_iff]
      constructor
      · rintro ⟨qs, each, p, bound, rfl⟩
        exact ⟨p, qs, bound, each, rfl⟩
      · rintro ⟨p, qs, bound, each, rfl⟩
        exact ⟨qs, each, p, bound, rfl⟩

theorem memReadings {main : OpenSource} {joins : List JoinSource} {t : List Nat} :
    t ∈ (visits main joins).map reading ↔ ∃ m ps, t = m :: ps.reverse ∧
      List.Forall₂ (· ≤ ·) ps (joins.map fun j => size j.source) ∧ m < rounds main joins := by
  simp only [visits, roundAt, List.mem_map, List.mem_flatMap, List.mem_range, ← memTurns]
  constructor
  · rintro ⟨_, ⟨m, less, ps, member, rfl⟩, rfl⟩
    exact ⟨m, ps, readingSnoc .., member, less⟩
  · rintro ⟨m, ps, rfl, member, less⟩
    exact ⟨_, ⟨m, less, ps, member, rfl⟩, readingSnoc ..⟩

theorem turnsCount (joins : List JoinSource) :
    (turns joins).length = ((joins.map fun j => size j.source).map (· + 1)).prod := by
  induction joins with
  | nil => rfl
  | cons j joins ih =>
      simp only [turns, List.length_flatMap, List.length_map, List.length_range, List.map_const',
        List.sum_replicate, ih, List.map_cons, List.prod_cons]
      exact Nat.mul_comm ..

theorem visitsCount (main : OpenSource) (joins : List JoinSource) : (visits main joins).length =
    rounds main joins * ((joins.map fun j => size j.source).map (· + 1)).prod := by
  simp [visits, List.length_flatMap, roundAt, turnsCount]

/-! Fetching -/

/-- Runs whose cursors stand alike, whatever was matched and whatever is asked. -/
structure SameWheels (r r' : JoinRun) : Prop where
  main : r.main = r'.main
  joins : r.joins = r'.joins
  finished : r.finished = r'.finished

theorem sameTrans {r'' : JoinRun} (same : SameWheels r r') (same' : SameWheels r' r'') : SameWheels r r'' :=
  ⟨same.main.trans same'.main, same.joins.trans same'.joins, same.finished.trans same'.finished⟩

theorem sameAdvance (same : SameWheels r r') : SameWheels r.advance r'.advance := by
  obtain ⟨main, joins, finished⟩ := same
  rw [advanceEq, advanceEq, main, joins]
  split
  · split
    · exact ⟨rfl, rfl, rfl⟩
    · exact ⟨rfl, rfl, rfl⟩
  · exact ⟨rfl, rfl, finished⟩

theorem sameAdvanced (same : SameWheels r r') (k : Nat) : SameWheels (advanced k r) (advanced k r') := by
  induction k generalizing r r' with
  | zero => exact same
  | succ k ih =>
      rw [advancedSucc, advancedSucc]
      exact ih (sameAdvance same)

theorem sameAhead (same : SameWheels r r') : ahead r = ahead r' := by
  obtain ⟨main, joins, finished⟩ := same
  rw [ahead, ahead, main, joins, finished]

/-- A step stays where it is if a join condition fails, and advances otherwise. -/
theorem stepWheels {o : Outcome (Option Composition)} (stepped : r.step = (r', o)) :
    SameWheels r' r.advance ∨ SameWheels r' r ∧ ∃ e, o = .error e := by
  have moved (records : List MatchRecord) :
      SameWheels (JoinRun.advance { r with records := records }) r.advance :=
    sameAdvance ⟨rfl, rfl, rfl⟩
  simp only [JoinRun.step] at stepped
  split at stepped <;> cases stepped
  · exact .inr ⟨⟨rfl, rfl, rfl⟩, _, rfl⟩
  · exact .inl (moved _)
  · exact .inl (moved _)

/-- The loop of a fetch, given up after a number of steps. -/
def fetchWithin : Nat → JoinRun → Option (JoinRun × Outcome (Option Composition))
  | steps, r =>
      if r.finished then some (r, .ok none)
      else
        match steps with
        | 0 => none
        | steps + 1 =>
            match r.step with
            | (r', .ok none) => fetchWithin steps r'
            | (r', o) => some (r', o)

theorem fetchFinished (finished : r.finished = true) : r.fetch = (r, .ok none) := by
  rw [JoinRun.fetch, dif_pos finished]

theorem fetchRejected (running : r.finished = false) (stepped : r.step = (r', .ok none)) :
    r.fetch = r'.fetch := by
  rw [JoinRun.fetch, dif_neg (Bool.eq_false_iff.mp running)]
  split <;> simp_all

theorem fetchAnswered {o : Outcome (Option Composition)} (running : r.finished = false)
    (stepped : r.step = (r', o)) (answers : o ≠ .ok none) : r.fetch = (r', o) := by
  rw [JoinRun.fetch, dif_neg (Bool.eq_false_iff.mp running)]
  split
  · rename_i again
    cases stepped.symm.trans again
    exact absurd rfl answers
  · rename_i answered
    exact answered.symm.trans stepped

/-- A fetch ends within the leads that are ahead, having advanced past some of them. -/
theorem fetchEnds {steps : Nat} (enough : (ahead r).length ≤ steps) :
    fetchWithin steps r = some r.fetch ∧ ∃ k ≤ (ahead r).length, SameWheels r.fetch.1 (advanced k r) := by
  induction steps generalizing r with
  | zero =>
      have finished : r.finished = true := aheadNil.mp (List.eq_nil_of_length_eq_zero (Nat.le_zero.mp enough))
      rw [fetchWithin, if_pos finished, fetchFinished finished]
      exact ⟨rfl, 0, Nat.zero_le _, rfl, rfl, rfl⟩
  | succ steps ih =>
      cases running : r.finished with
      | true =>
          rw [fetchWithin, if_pos running, fetchFinished running]
          exact ⟨rfl, 0, Nat.zero_le _, rfl, rfl, rfl⟩
      | false =>
          have left : (ahead r).length = (ahead r.advance).length + 1 := congrArg List.length (aheadAdvance running)
          rw [fetchWithin, if_neg (Bool.eq_false_iff.mp running)]
          generalize stepped : r.step = answer
          obtain ⟨r', o⟩ := answer
          by_cases rejects : o = .ok none
          · subst rejects
            obtain moved | ⟨_, _, failed⟩ := stepWheels stepped
            · have fewer : (ahead r').length ≤ steps := by
                rw [sameAhead moved]
                omega
              obtain ⟨ends, k, bound, same⟩ := ih fewer
              rw [fetchRejected running stepped]
              refine ⟨ends, k + 1, by rw [left, ← sameAhead moved]; omega, ?_⟩
              exact sameTrans same (sameAdvanced moved k)
            · cases failed
          · rw [fetchAnswered running stepped rejects]
            refine ⟨?_, ?_⟩
            · rcases o with e | _ | c
              · rfl
              · exact absurd rfl rejects
              · rfl
            · obtain moved | ⟨stays, _⟩ := stepWheels stepped
              · exact ⟨1, by omega, moved⟩
              · exact ⟨0, Nat.zero_le _, stays⟩

/-! Engines -/

/-- Some join is RIGHT or FULL. -/
def HasOuter (joins : List Join) : Prop := ∃ j ∈ joins, j.kind = .right ∨ j.kind = .full

instance decidableHasOuter (joins : List Join) : Decidable (HasOuter joins) :=
  inferInstanceAs (Decidable (∃ j ∈ joins, _))

/-- How many rows the sources of a join have. -/
structure Sized (evaluate : Source → Outcome Relation) (main : Source) (joins : List Join) (n : Nat)
    (sizes : List Nat) : Prop where
  main : ∃ relation, evaluate main = .ok relation ∧ relation.rows.length = n
  joins : List.Forall₂ (fun j size => ∃ relation, evaluate j.source = .ok relation ∧
    relation.rows.length = size) joins sizes

section
variable {evaluate : Source → Outcome Relation} {main : Source} {joins : List Join} {condition : Option Expr}
  {params : List Value} {sources : List JoinSource}

theorem startWheels (started : JoinRun.start evaluate main joins condition params = .ok r) :
    (∃ relation, evaluate main = .ok relation ∧ r.main = opening main relation) ∧
      joins.mapM (JoinRun.openJoin evaluate) = .ok r.joins ∧
        r.finished = (r.main.cursor.atEnd && !hasOuter r.joins) := by
  obtain ⟨_, relation, sources, evaluated, opened, rfl⟩ := startOk.mp started
  exact ⟨⟨relation, evaluated, rfl⟩, opened, rfl⟩

theorem openedSizes (opened : joins.mapM (JoinRun.openJoin evaluate) = .ok sources) :
    List.Forall₂ (fun j size => ∃ relation, evaluate j.source = .ok relation ∧ relation.rows.length = size)
      joins (sources.map fun j => size j.source) := by
  rw [List.forall₂_map_right_iff]
  refine (Outcome.mapMOk.mp opened).imp fun j s one => ?_
  obtain ⟨relation, evaluated, last⟩ := Outcome.bindOk.mp one
  cases Outcome.pureOk.mp last
  exact ⟨relation, evaluated, rfl⟩

theorem openedHasOuter (opened : joins.mapM (JoinRun.openJoin evaluate) = .ok sources) :
    hasOuter sources = true ↔ HasOuter joins := by
  have kinds := congrArg (List.any · JoinKind.keepsUnmatchedJoin) (openedAll opened).2.2
  simp only [List.any_map, Function.comp_def] at kinds
  rw [JoinRun.hasOuter, kinds, List.any_eq_true, HasOuter]
  refine exists_congr fun j => and_congr_right fun _ => ?_
  cases j.kind <;> simp [JoinKind.keepsUnmatchedJoin]

theorem roundsLess {main : OpenSource} {m : Nat} : m < rounds main sources ↔
    m < size main ∨ m = size main ∧ hasOuter sources = true := by
  unfold rounds
  split
  · rename_i outer
    rw [outer, Nat.lt_succ_iff_lt_or_eq]
    simp
  · rename_i plain
    simp [plain]

end

/-- The advances of an engine that was just started show every reading of its cursors once, in rising order,
those with the main cursor past its end only if some join is RIGHT or FULL. After that it is finished and stays
so, and a fetch answers nothing and moves no cursor. Before it, a fetch ends within the readings that are left,
whatever was matched and whatever the conditions say. -/
theorem advancesVisit {evaluate : Source → Outcome Relation} {e e' : JoinEngine}
    (started : e.init evaluate = .ok e') : ∃ r n sizes, e'.run = some r ∧ Sized evaluate e.main e.joins n sizes ∧
      let total := (if HasOuter e.joins then n + 1 else n) * (sizes.map (· + 1)).prod
      let readings := (List.range total).map fun k => counter (advanced k r)
      readings.Pairwise (· < ·) ∧
      (∀ t, t ∈ readings ↔ ∃ m ps, t = m :: ps.reverse ∧ List.Forall₂ (· ≤ ·) ps sizes ∧
        (m < n ∨ m = n ∧ HasOuter e.joins)) ∧
      (∀ k, (advanced k r).finished = decide (total ≤ k)) ∧
      ∀ k r', SameWheels r' (advanced k r) →
        (total ≤ k → JoinEngine.fetch { e' with run := some r' } = ({ e' with run := some r' }, .ok none)) ∧
        fetchWithin (total - k) r' = some r'.fetch ∧
        ∃ k', k ≤ k' ∧ k' ≤ max k total ∧ SameWheels r'.fetch.1 (advanced k' r) := by
  obtain ⟨r, ran, last⟩ := Outcome.bindOk.mp started
  cases Outcome.pureOk.mp last
  obtain ⟨⟨relation, evaluated, mainSame⟩, opened, ends⟩ := startWheels ran
  have exhausted : MainEnds r := fun finished => (Bool.and_eq_true_iff.mp (ends ▸ finished)).1
  have all : ahead r = visits r.main r.joins :=
    aheadStart (by rw [mainSame]; rfl) (openedAll opened).1 ends
  have outer := openedHasOuter opened
  have rows : size r.main = relation.rows.length := by
    rw [mainSame]
    rfl
  refine ⟨r, size r.main, r.joins.map fun j => size j.source, rfl, ⟨⟨relation, evaluated, rows.symm⟩,
    openedSizes opened⟩, ?_⟩
  intro total readings
  have count : (ahead r).length = total := by
    rw [all, visitsCount, rounds]
    simp only [total, outer]
  have shown : readings = (visits r.main r.joins).map reading := by
    rw [← all, ← leadsAdvanced exhausted, count, List.map_map]
    exact List.map_congr_left fun k _ => counterReading _
  refine ⟨?_, fun t => ?_, fun k => ?_, fun k r' same => ?_⟩
  · rw [shown, List.pairwise_map]
    exact visitsSorted r.main r.joins
  · rw [shown, memReadings]
    simp only [roundsLess, outer]
  · rw [finishedAdvanced exhausted, count]
  · have left : (ahead r').length = total - k := by
      rw [sameAhead same, (aheadAdvanced exhausted k).1, List.length_drop, count]
    obtain ⟨within, steps, few, moved⟩ := fetchEnds (Nat.le_of_eq left)
    refine ⟨fun past => ?_, within, steps + k, Nat.le_add_left .., ?_, ?_⟩
    · have finished : r'.finished = true := aheadNil.mp (List.eq_nil_of_length_eq_zero (by omega))
      simp only [JoinEngine.fetch, JoinEngine.read, fetchFinished finished]
    · omega
    · rw [advancedAdd]
      exact sameTrans moved (sameAdvanced same steps)

/-- No row in the first join, and two in the second one, which adds a round of its own. -/
def scarce (s : Source) : Relation :=
  .ofResult (.new ["id"] (if s.name = "e" then [] else [[.int 1], [.int 2]]))

theorem advancesVisitScarce :
    let e := JoinEngine.new (named "a") [joinOf .left "e", joinOf .right "b"] none []
    ∃ e' r, e.init (.ok ∘ scarce) = .ok e' ∧ e'.run = some r ∧
      ((List.range 9).map fun k => counter (advanced k r)).Pairwise (· < ·) ∧
      [2, 2, 0] ∈ (List.range 9).map (fun k => counter (advanced k r)) ∧
      (∀ k, (advanced k r).finished = decide (9 ≤ k)) ∧ fetchWithin 9 r = some r.fetch := by
  intro e
  obtain ⟨e', started⟩ : ∃ e', e.init (.ok ∘ scarce) = .ok e' := ⟨_, rfl⟩
  obtain ⟨r, n, sizes, run, ⟨⟨relation, evaluated, rfl⟩, others⟩, sorted, all, finished, fetches⟩ :=
    advancesVisit started
  cases evaluated
  have rows : sizes = [0, 2] := by
    obtain ⟨_, _, ⟨_, empty, rfl⟩, rest, rfl⟩ := List.forall₂_cons_left_iff.mp others
    obtain ⟨_, _, ⟨_, two, rfl⟩, last, rfl⟩ := List.forall₂_cons_left_iff.mp rest
    obtain rfl := List.forall₂_nil_left_iff.mp last
    cases empty
    cases two
    rfl
  subst rows
  have corner : [2, 2, 0] ∈ (List.range 9).map fun k => counter (advanced k r) :=
    (all _).mpr ⟨2, [0, 2], rfl, by decide, .inr ⟨rfl, by decide⟩⟩
  exact ⟨e', r, started, run, sorted, corner, finished, (fetches 0 r ⟨rfl, rfl, rfl⟩).2.1⟩

end RelQuery.Relational
