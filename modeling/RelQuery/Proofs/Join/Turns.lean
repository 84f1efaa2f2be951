import RelQuery.Proofs.Join.Relational

/-! The order in which a running join visits the positions of its cursors. Advancing removes the first of
the leads that are ahead, and the leads ahead of a join that was just started are all that there are,
in the rising order of their readings. -/
namespace RelQuery.Relational

/-- A join with its cursor on the first row, as it was started. -/
def still (j : JoinSource) : JoinSource := JoinRun.moveCursor Cursor.rewind j

def stillMain (s : OpenSource) : OpenSource := { s with cursor := s.cursor.rewind }

def positions (joins : List JoinSource) : List Nat := joins.map (·.source.cursor.position)

def currentLead (r : JoinRun) : Lead := (positions r.joins).reverse ++ [r.main.cursor.position]

/-- All positions of the joins' cursors, the first join first, as they follow one another. -/
def turns : List JoinSource → List (List Nat)
  | [] => [[]]
  | j :: joins => (turns joins).flatMap fun ps => (List.range (size j.source + 1)).map (· :: ps)

/-- The positions from the current ones to the last of the round. -/
def upcoming : List JoinSource → List (List Nat)
  | [] => [[]]
  | j :: joins =>
      match upcoming joins with
      | [] => []
      | ps :: rest =>
          (List.range' j.source.cursor.position
              (size j.source + 1 - j.source.cursor.position)).map (· :: ps) ++
            rest.flatMap fun ps => (List.range (size j.source + 1)).map (· :: ps)

/-- The number of positions that the main cursor is read at. -/
def rounds (main : OpenSource) (joins : List JoinSource) : Nat :=
  if JoinRun.hasOuter joins then size main + 1 else size main

def roundAt (joins : List JoinSource) (m : Nat) : List Lead :=
  (turns joins).map fun ps => ps.reverse ++ [m]

/-- Every lead that a run visits. -/
def visits (main : OpenSource) (joins : List JoinSource) : List Lead :=
  (List.range (rounds main joins)).flatMap (roundAt joins)

/-- The leads that a run has still to visit. -/
def ahead (r : JoinRun) : List Lead :=
  if r.finished then []
  else
    (upcoming r.joins).map (fun ps => ps.reverse ++ [r.main.cursor.position]) ++
      (List.range' (r.main.cursor.position + 1)
        (rounds r.main r.joins - (r.main.cursor.position + 1))).flatMap (roundAt r.joins)

/-! One turn -/

theorem positionLe (s : OpenSource) : s.cursor.position ≤ size s := s.cursor.inRange

theorem atEndIff (c : Cursor) : c.atEnd = true ↔ c.position = c.rows.size := by
  have bound := c.inRange
  simp only [Cursor.atEnd, decide_eq_true_eq]
  omega

theorem nextOf {c : Cursor} (h : c.atEnd = false) :
    c.next.position = c.position + 1 ∧ c.next.rows = c.rows ∧ c.next.staged = c.staged := by
  simp only [Cursor.atEnd, decide_eq_false_iff_not, Nat.not_le] at h
  simp [Cursor.next, h]

@[simp] theorem stillKind (j : JoinSource) : (still j).kind = j.kind := rfl

theorem stillNext {j : JoinSource} : still (JoinRun.moveCursor Cursor.next j) = still j := by
  cases ends : j.source.cursor.atEnd with
  | true =>
      have same := (atEndIff _).mp ends
      simp [still, JoinRun.moveCursor, Cursor.next, same]
  | false =>
      obtain ⟨_, rows, staged⟩ := nextOf ends
      simp [still, JoinRun.moveCursor, Cursor.rewind, rows, staged]

theorem stillTurn (joins : List JoinSource) : (JoinRun.turn joins).1.map still = joins.map still := by
  induction joins with
  | nil => rfl
  | cons j joins ih =>
      simp only [JoinRun.turn]
      split
      · simp only [List.map_cons, ih]
        rfl
      · simp [stillNext]

theorem hasOuterStill (joins : List JoinSource) :
    JoinRun.hasOuter (joins.map still) = JoinRun.hasOuter joins := by
  induction joins with
  | nil => rfl
  | cons j joins ih => simp [ih, still, JoinRun.moveCursor]

theorem hasOuterTurn (joins : List JoinSource) :
    JoinRun.hasOuter (JoinRun.turn joins).1 = JoinRun.hasOuter joins := by
  rw [← hasOuterStill, stillTurn, hasOuterStill]

theorem turnsStill (joins : List JoinSource) : turns (joins.map still) = turns joins := by
  induction joins with
  | nil => rfl
  | cons j joins ih =>
      simp only [List.map_cons, turns, ih]
      rfl

theorem turnsTurn (joins : List JoinSource) : turns (JoinRun.turn joins).1 = turns joins := by
  rw [← turnsStill, stillTurn, turnsStill]

theorem upcomingCons {j : JoinSource} {joins : List JoinSource} {ps : List Nat}
    {rest : List (List Nat)} (h : upcoming joins = ps :: rest) : upcoming (j :: joins) =
      (List.range' j.source.cursor.position
          (size j.source + 1 - j.source.cursor.position)).map (· :: ps) ++
        rest.flatMap fun ps => (List.range (size j.source + 1)).map (· :: ps) := by
  simp [upcoming, h]

theorem upcomingFirst {j : JoinSource} {joins : List JoinSource}
    (first : j.source.cursor.position = 0) : upcoming (j :: joins) =
      (upcoming joins).flatMap fun ps => (List.range (size j.source + 1)).map (· :: ps) := by
  simp only [upcoming, first]
  cases upcoming joins with
  | nil => rfl
  | cons ps rest => simp [List.range_eq_range']

theorem upcomingStart {joins : List JoinSource}
    (first : ∀ j ∈ joins, j.source.cursor.position = 0) : upcoming joins = turns joins := by
  induction joins with
  | nil => rfl
  | cons j joins ih =>
      rw [upcomingFirst (first j (by simp)), ih fun i member => first i (by simp [member])]
      rfl

theorem upcomingTurn (joins : List JoinSource) :
    upcoming joins = positions joins ::
        (if (JoinRun.turn joins).2 then [] else upcoming (JoinRun.turn joins).1) ∧
      ((JoinRun.turn joins).2 = true → upcoming (JoinRun.turn joins).1 = turns joins) := by
  induction joins with
  | nil => simp [upcoming, JoinRun.turn, positions, turns]
  | cons j joins ih =>
      obtain ⟨split, again⟩ := ih
      cases ends : j.source.cursor.atEnd with
      | true =>
          have place : j.source.cursor.position = size j.source := (atEndIff _).mp ends
          have wheel : JoinRun.turn (j :: joins) =
              (JoinRun.moveCursor Cursor.rewind j :: (JoinRun.turn joins).1,
                (JoinRun.turn joins).2) := by
            simp [JoinRun.turn, ends]
          have first : upcoming (JoinRun.moveCursor Cursor.rewind j :: (JoinRun.turn joins).1) =
              (upcoming (JoinRun.turn joins).1).flatMap fun ps =>
                (List.range (size j.source + 1)).map (· :: ps) := upcomingFirst rfl
          rw [wheel]
          refine ⟨?_, fun carried => ?_⟩
          · rw [upcomingCons split, place, first]
            cases (JoinRun.turn joins).2 <;> simp [positions, place]
          · rw [first, again carried]
            rfl
      | false =>
          obtain ⟨place, rows, _⟩ := nextOf ends
          have bound := positionLe j.source
          have notEnd : j.source.cursor.position ≠ size j.source := fun same =>
            Bool.false_ne_true (ends ▸ (atEndIff _).mpr same)
          have wheel : JoinRun.turn (j :: joins) =
              (JoinRun.moveCursor Cursor.next j :: joins, false) := by
            simp [JoinRun.turn, ends]
          have more : size j.source + 1 - j.source.cursor.position =
              size j.source + 1 - (j.source.cursor.position + 1) + 1 := by omega
          have moved : size (JoinRun.moveCursor Cursor.next j).source = size j.source :=
            congrArg Array.size rows
          rw [wheel, upcomingCons split, upcomingCons split, more, List.range'_succ, moved]
          refine ⟨?_, fun carried => absurd carried Bool.false_ne_true⟩
          simp [positions, JoinRun.moveCursor, place]

theorem roundAtTurn (joins : List JoinSource) :
    roundAt (JoinRun.turn joins).1 = roundAt joins := by
  funext m
  simp [roundAt, turnsTurn]

theorem aheadNextRound {r : JoinRun} (carried : (JoinRun.turn r.joins).2 = true)
    (ends : r.main.cursor.atEnd = false) : ahead r.advance =
      (List.range' (r.main.cursor.position + 1)
        (rounds r.main r.joins - (r.main.cursor.position + 1))).flatMap (roundAt r.joins) := by
  obtain ⟨place, rows, _⟩ := nextOf ends
  have bound := r.main.cursor.next.inRange
  rw [place, rows] at bound
  have same : r.advance.joins = (JoinRun.turn r.joins).1 := by simp [JoinRun.advance, carried, ends]
  have moved : r.advance.main = { r.main with cursor := r.main.cursor.next } := by
    simp [JoinRun.advance, carried, ends]
  have finished : r.advance.finished =
      (r.main.cursor.next.atEnd && !JoinRun.hasOuter (JoinRun.turn r.joins).1) := by
    simp [JoinRun.advance, carried, ends]
  have total : rounds r.advance.main r.advance.joins = rounds r.main r.joins := by
    simp [rounds, same, moved, hasOuterTurn, size, rows]
  cases last : r.advance.finished with
  | true =>
      rw [finished, hasOuterTurn, Bool.and_eq_true, Bool.not_eq_true'] at last
      have past := (atEndIff _).mp last.1
      rw [place, rows] at past
      simp [ahead, finished, hasOuterTurn, last, rounds, size, past]
  | false =>
      have more : r.main.cursor.position + 1 < rounds r.main r.joins := by
        rw [finished, hasOuterTurn, Bool.and_eq_false_iff, Bool.not_eq_false'] at last
        rcases last with notEnd | outer
        · have different : r.main.cursor.position + 1 ≠ r.main.cursor.rows.size := fun past =>
            Bool.false_ne_true (notEnd ▸ (atEndIff _).mpr (by rw [place, rows, past]))
          simp only [rounds, size]
          split <;> omega
        · simp only [rounds, outer, if_true, size]
          omega
      obtain ⟨n, count⟩ := Nat.exists_eq_add_of_lt more
      have left : rounds r.main r.joins - (r.main.cursor.position + 1) = n + 1 := by omega
      rw [left, List.range'_succ, List.flatMap_cons, ahead, last, total, same, roundAtTurn,
        (upcomingTurn r.joins).2 carried, moved, place]
      have rest : rounds r.main r.joins - (r.main.cursor.position + 1 + 1) = n := by omega
      simp [rest, roundAt]

theorem aheadAdvance {r : JoinRun} (running : r.finished = false) :
    ahead r = currentLead r :: ahead r.advance := by
  have split := (upcomingTurn r.joins).1
  rw [ahead, running, split]
  cases carried : (JoinRun.turn r.joins).2 with
  | false =>
      simp [JoinRun.advance, carried, ahead, running, currentLead, rounds, hasOuterTurn,
        roundAtTurn]
  | true =>
      cases ends : r.main.cursor.atEnd with
      | true =>
          have place : r.main.cursor.position = size r.main := (atEndIff _).mp ends
          have past : rounds r.main r.joins - (size r.main + 1) = 0 := by
            simp only [rounds]
            split <;> omega
          simp [JoinRun.advance, carried, ends, ahead, currentLead, place, past]
      | false => simp [aheadNextRound carried ends, currentLead]

theorem aheadFinished {r : JoinRun} (finished : r.finished = true) : ahead r = [] := by
  simp [ahead, finished]

theorem aheadStart {r : JoinRun} (main : r.main.cursor.position = 0)
    (joins : ∀ j ∈ r.joins, j.source.cursor.position = 0)
    (finished : r.finished = (r.main.cursor.atEnd && !JoinRun.hasOuter r.joins)) :
    ahead r = visits r.main r.joins := by
  cases past : r.finished with
  | true =>
      rw [finished, Bool.and_eq_true, Bool.not_eq_true'] at past
      have none := (atEndIff _).mp past.1
      rw [main] at none
      simp [ahead, finished, past, visits, rounds, size, ← none]
  | false =>
      have more : 0 < rounds r.main r.joins := by
        rw [finished, Bool.and_eq_false_iff, Bool.not_eq_false'] at past
        rcases past with notEnd | outer
        · have different : r.main.cursor.position ≠ r.main.cursor.rows.size := fun same =>
            Bool.false_ne_true (notEnd ▸ (atEndIff _).mpr same)
          simp only [rounds, size]
          split <;> omega
        · simp [rounds, outer]
      obtain ⟨n, count⟩ := Nat.exists_eq_add_of_lt more
      have total : rounds r.main r.joins = n + 1 := by omega
      rw [ahead, past, upcomingStart joins, main, visits, total, List.range_eq_range',
        List.range'_succ]
      simp [roundAt]

/-! What is visited, and in which order -/

theorem fitsPositions (joins : List JoinSource) {main : OpenSource} {earlier : List JoinSource}
    {lead : Lead} (fits : Fits main earlier lead) :
    Fits main ((joins.map still).reverse ++ earlier) ((positions joins).reverse ++ lead) := by
  induction joins generalizing earlier lead with
  | nil => exact fits
  | cons j joins ih =>
      have more : Fits main (still j :: earlier) (j.source.cursor.position :: lead) :=
        ⟨positionLe j.source, fits⟩
      simpa [positions] using ih more

theorem turnsOfFits {joins earlier : List JoinSource} {main : OpenSource} {x : Lead}
    (fits : Fits main (joins.reverse ++ earlier) x) :
    ∃ ps ∈ turns joins, ∃ lead, Fits main earlier lead ∧ x = ps.reverse ++ lead := by
  induction joins generalizing earlier with
  | nil => exact ⟨[], by simp [turns], x, fits, rfl⟩
  | cons j joins ih =>
      rw [List.reverse_cons, List.append_assoc, List.singleton_append] at fits
      obtain ⟨ps, member, lead, rest, rfl⟩ := ih fits
      match lead, rest with
      | p :: lead, ⟨bound, rest⟩ =>
          refine ⟨p :: ps, ?_, lead, rest, by simp⟩
          simp only [turns, List.mem_flatMap, List.mem_map, List.mem_range]
          exact ⟨ps, member, p, Nat.lt_succ_of_le bound, rfl⟩

theorem memVisits {main : OpenSource} {joins : List JoinSource} {x : Lead} {m : Nat}
    (fits : Fits main joins.reverse x) (last : x.getLast? = some m)
    (less : m < rounds main joins) : x ∈ visits main joins := by
  rw [← List.append_nil joins.reverse] at fits
  obtain ⟨ps, member, lead, rest, rfl⟩ := turnsOfFits fits
  match lead, rest with
  | [n], _ =>
      have same : n = m := by simpa using last
      simp only [visits, roundAt, List.mem_flatMap, List.mem_range, List.mem_map]
      exact ⟨m, less, ps, member, by rw [same]⟩

@[simp] theorem readingSnoc (ps : List Nat) (m : Nat) : reading (ps ++ [m]) = m :: ps := by
  simp [reading]

theorem turnsLength {joins : List JoinSource} {ps : List Nat} (h : ps ∈ turns joins) :
    ps.length = joins.length := by
  induction joins generalizing ps with
  | nil => simp_all [turns]
  | cons j joins ih =>
      simp only [turns, List.mem_flatMap, List.mem_map] at h
      obtain ⟨qs, member, p, _, rfl⟩ := h
      simp [ih member]

theorem appendLess {a b c d : List Nat} (less : a < b) (same : a.length = b.length) :
    a ++ c < b ++ d := by
  induction a generalizing b with
  | nil =>
      cases b with
      | nil => exact absurd less (List.lt_irrefl _)
      | cons y b => simp at same
  | cons x a ih =>
      cases b with
      | nil => simp at same
      | cons y b =>
          rw [List.cons_append, List.cons_append, List.cons_lt_cons_iff]
          rcases List.cons_lt_cons_iff.mp less with first | ⟨equal, rest⟩
          · exact .inl first
          · exact .inr ⟨equal, ih rest (by simpa using same)⟩

theorem turnsSorted (joins : List JoinSource) :
    (turns joins).Pairwise fun ps qs => ps.reverse < qs.reverse := by
  induction joins with
  | nil => simp [turns]
  | cons j joins ih =>
      rw [turns, List.pairwise_flatMap]
      constructor
      · intro ps _
        rw [List.pairwise_map]
        refine List.pairwise_lt_range.imp fun less => ?_
        rw [List.reverse_cons, List.reverse_cons]
        exact List.append_left_lt (List.cons_lt_cons_iff.mpr (.inl less))
      · refine ih.imp_of_mem fun {ps qs} left right less => ?_
        simp only [List.mem_map, forall_exists_index, and_imp, forall_apply_eq_imp_iff₂,
          List.reverse_cons]
        intro p _ q _
        exact appendLess less (by simp [turnsLength left, turnsLength right])

theorem visitsSorted (main : OpenSource) (joins : List JoinSource) :
    (visits main joins).Pairwise fun a b => reading a < reading b := by
  rw [visits, List.pairwise_flatMap]
  constructor
  · intro m _
    rw [roundAt, List.pairwise_map]
    refine (turnsSorted joins).imp fun less => ?_
    rw [readingSnoc, readingSnoc]
    exact List.cons_lt_cons_iff.mpr (.inr ⟨rfl, less⟩)
  · refine List.pairwise_lt_range.imp fun less => ?_
    simp only [roundAt, List.mem_map, forall_exists_index, and_imp, forall_apply_eq_imp_iff₂,
      readingSnoc]
    intro ps _ qs _
    exact List.cons_lt_cons_iff.mpr (.inl less)

end RelQuery.Relational
