import RelQuery.Proofs.Join.Matches

/-! The candidate of a running join. A join whose condition is asked records a match and extends the lead;
past its end it keeps the lead if nothing matched it. Both agree with what the join is made of, as soon
as the leads before the current one were visited. -/
namespace RelQuery.Relational

variable {main : OpenSource} {params : List Value} {done : List Lead} {earlier : List JoinSource}
  {j : JoinSource} {m : MatchRecord} {last : Bool} {lead before : Lead} {all : List JoinSource}

/-! Leads that come before others -/

theorem readingSmaller (before : Lead) (some : lead ≠ []) {p q : Nat} (less : p < q) :
    reading (before ++ p :: lead) < reading (before ++ q :: lead) := by
  obtain ⟨front, n, rfl⟩ := List.eq_nil_or_concat lead |>.resolve_left some
  have snoc (r : Nat) : before ++ r :: (front ++ [n]) = (before ++ r :: front) ++ [n] := by simp
  rw [List.concat_eq_append, snoc, snoc, readingSnoc, readingSnoc]
  refine List.cons_lt_cons_iff.mpr (.inr ⟨rfl, List.append_left_lt ?_⟩)
  exact List.cons_lt_cons_iff.mpr (.inl less)

theorem readingEarlier {a b : Lead} {n k : Nat} (left : a.getLast? = some n)
    (right : b.getLast? = some k) (less : n < k) : reading a < reading b := by
  obtain ⟨a, rfl⟩ := List.getLast?_eq_some_iff.mp left
  obtain ⟨b, rfl⟩ := List.getLast?_eq_some_iff.mp right
  rw [readingSnoc, readingSnoc]
  exact List.cons_lt_cons_iff.mpr (.inl less)

theorem lastOfAppend {a b : Lead} {n : Nat} (h : b.getLast? = some n) :
    (a ++ b).getLast? = some n := by
  simp [List.getLast?_append, h]

/-! Records are complete where they are read -/

theorem leadComplete (recorded : Recorded main params done earlier j m)
    (keeps : j.kind.keepsUnmatchedMain = true) (asked : lead ∈ asked main params j earlier)
    (fits : Fits main earlier lead)
    (within : ∀ y, Fits main (j :: earlier) y → Fits main all (before ++ y))
    (complete : Complete main all done (before ++ size j.source :: lead)) :
    m.leadMatched lead = true ↔
      ∃ q < size j.source, holdsAt main params earlier j lead q = true := by
  rw [recorded.leads]
  constructor
  · rintro ⟨_, q, _, bound, holds, _⟩
    exact ⟨q, bound, holds⟩
  · rintro ⟨q, bound, holds⟩
    have visited : before ++ q :: lead ∈ done :=
      complete _ (within _ ⟨Nat.le_of_lt bound, fits⟩)
        (readingSmaller before (fitsNonempty fits) bound)
    exact ⟨keeps, q, asked, bound, holds, _, visited, List.suffix_append _ _⟩

theorem rowComplete (recorded : Recorded main params done earlier j m)
    (keeps : j.kind.keepsUnmatchedJoin = true) (final : lead ∈ lastRound main params earlier)
    (within : ∀ y, Fits main (j :: earlier) y → Fits main all (before ++ y)) {p : Nat}
    (bound : p < size j.source) (complete : Complete main all done (before ++ p :: lead)) :
    m.rowMatched p = true ↔
      ∃ l ∈ fromMain main params earlier, holdsAt main params earlier j l p = true := by
  rw [recorded.rows]
  constructor
  · rintro ⟨_, l, asked, _, holds, _⟩
    rcases memAsked.mp asked with first | ⟨plain, _⟩
    · exact ⟨l, first, holds⟩
    · exact absurd plain (by simp [keeps])
  · rintro ⟨l, member, holds⟩
    obtain ⟨fits, n, less, place⟩ := fromMainFits member
    have visited : before ++ p :: l ∈ done :=
      complete _ (within _ ⟨Nat.le_of_lt bound, fits⟩)
        (readingEarlier (lastOfAppend (mainOfCons place))
          (lastOfAppend (mainOfCons (lastRoundFits final).2)) less)
    exact ⟨keeps, l, memAsked.mpr (.inl member), bound, holds, _, visited,
      List.suffix_append _ _⟩

/-! What a row and what the end of a join add to a lead -/

theorem rowMemKept {leads : List Lead} (member : lead ∈ leads) {p : Nat} (row : p < size j.source) :
    p :: lead ∈ kept main params earlier j leads ↔ holdsAt main params earlier j lead p = true := by
  rw [consMemKept]
  constructor
  · rintro ⟨_, ⟨_, holds⟩ | ⟨_, same, _⟩⟩
    · exact holds
    · exact absurd same (Nat.ne_of_lt row)
  · exact fun holds => ⟨member, .inl ⟨row, holds⟩⟩

theorem pastMemKept {leads : List Lead} (member : lead ∈ leads)
    (matched : j.kind.keepsUnmatchedMain = true → (m.leadMatched lead = true ↔
      ∃ q < size j.source, holdsAt main params earlier j lead q = true)) :
    size j.source :: lead ∈ kept main params earlier j leads ↔
      j.kind.keepsUnmatchedMain = true ∧ m.leadMatched lead = false := by
  rw [consMemKept]
  constructor
  · rintro ⟨_, ⟨row, _⟩ | ⟨keeps, _, none⟩⟩
    · exact absurd row (Nat.lt_irrefl _)
    · refine ⟨keeps, Bool.eq_false_iff.mpr fun hit => ?_⟩
      obtain ⟨q, bound, holds⟩ := (matched keeps).mp hit
      exact Bool.false_ne_true ((none q bound).symm.trans holds)
  · rintro ⟨keeps, unmatched⟩
    refine ⟨member, .inr ⟨keeps, rfl, fun q bound => Bool.eq_false_iff.mpr fun holds => ?_⟩⟩
    have hit := (matched keeps).mpr ⟨q, bound, holds⟩
    exact Bool.false_ne_true (unmatched.symm.trans hit)

theorem rowMemLastRound (keeps : j.kind.keepsUnmatchedJoin = true)
    (final : lead ∈ lastRound main params earlier) {p : Nat} (row : p < size j.source)
    (matched : m.rowMatched p = true ↔
      ∃ l ∈ fromMain main params earlier, holdsAt main params earlier j l p = true) :
    p :: lead ∈ lastRound main params (j :: earlier) ↔ m.rowMatched p = false := by
  rw [memLastRoundOfKeeping keeps]
  constructor
  · rintro ⟨_, _, equal, _, place⟩
    cases equal
    rcases place with orphan | ⟨_, _, past⟩
    · refine Bool.eq_false_iff.mpr fun hit => ?_
      obtain ⟨l, member, holds⟩ := matched.mp hit
      exact Bool.false_ne_true (((memOrphans.mp orphan).2 l member).symm.trans holds)
    · exact absurd past (Nat.ne_of_lt row)
  · intro unmatched
    refine ⟨p, lead, rfl, final, .inl (memOrphans.mpr ⟨row, fun l member => ?_⟩)⟩
    refine Bool.eq_false_iff.mpr fun holds => ?_
    exact Bool.false_ne_true (unmatched.symm.trans (matched.mpr ⟨l, member, holds⟩))

theorem pastMemLastRound (keeps : j.kind.keepsUnmatchedJoin = true)
    (final : lead ∈ lastRound main params earlier) :
    size j.source :: lead ∈ lastRound main params (j :: earlier) ↔
      j.kind.keepsUnmatchedMain = true ∧ JoinRun.hasOuter earlier = true := by
  rw [memLastRoundOfKeeping keeps]
  constructor
  · rintro ⟨_, _, equal, _, place⟩
    cases equal
    rcases place with orphan | ⟨all, outer, _⟩
    · exact absurd (memOrphans.mp orphan).1 (Nat.lt_irrefl _)
    · exact ⟨all, outer⟩
  · rintro ⟨all, outer⟩
    exact ⟨_, lead, rfl, final, .inr ⟨all, outer, rfl⟩⟩

theorem silentInLastRound (final : lead ∈ lastRound main params earlier)
    (silent : j.kind.keepsUnmatchedJoin = true ∨ JoinRun.hasOuter earlier = false) :
    lead ∉ asked main params j earlier := by
  intro asked
  rcases memAsked.mp asked with first | ⟨plain, outer, _⟩
  · exact notBoth first final
  · simp [plain, outer] at silent

/-! One join -/

theorem currentRow (main : OpenSource) (earlier : List JoinSource)
    (row : j.source.cursor.position < size j.source) :
    ∃ r, j.source.cursor.fetch = some r ∧ ∀ lead,
      compose main (still j :: earlier) (j.source.cursor.position :: lead) =
        j.source.pushInto (compose main earlier lead) (some r) := by
  obtain ⟨r, present⟩ : ∃ r, j.source.cursor.fetch = some r := ⟨_, Array.getElem?_eq_getElem row⟩
  refine ⟨r, present, fun lead => ?_⟩
  rw [← present]
  rfl

/-- The condition of a join at its current row is the one that the engine evaluates. -/
theorem conditionCurrent (params : List Value) {r : Row} (chosen : ∀ lead,
      compose main (still j :: earlier) (j.source.cursor.position :: lead) =
        j.source.pushInto (compose main earlier lead) (some r)) (lead : Lead) :
    condition main params earlier (still j) lead j.source.cursor.position =
      j.holds main.name params (j.source.pushInto (compose main earlier lead) (some r)) := by
  rw [condition, chosen]
  rfl

theorem extendAsked {b : Bool} (row : j.source.cursor.position < size j.source)
    (now : (last && b) = false) (own : (last && j.kind.keepsUnmatchedJoin) = false)
    (evaluable : (condition main params earlier (still j) lead j.source.cursor.position).isOk =
      true) :
    j.extend main.name params last b m lead (compose main earlier lead) =
      if holdsAt main params earlier (still j) lead j.source.cursor.position then
        (m.record j.kind lead j.source.cursor.position,
          .ok (some (compose main (still j :: earlier) (j.source.cursor.position :: lead))))
      else (m, .ok none) := by
  obtain ⟨r, present, chosen⟩ := currentRow main earlier row
  have same := conditionCurrent params chosen lead
  rw [same] at evaluable
  simp only [JoinSource.extend, present, now, own, holdsAt, same, chosen, Bool.false_eq_true,
    if_false]
  cases holds : j.holds main.name params (j.source.pushInto (compose main earlier lead) (some r)) with
  | error e => simp [holds, Except.isOk, Except.toBool] at evaluable
  | ok answer => cases answer <;> simp [truth]

theorem extendOwn {b : Bool} (row : j.source.cursor.position < size j.source)
    (now : b = false) (keeps : j.kind.keepsUnmatchedJoin = true) :
    j.extend main.name params true b m lead (compose main earlier lead) =
      (m, .ok (if m.rowMatched j.source.cursor.position then none
        else some (compose main (still j :: earlier) (j.source.cursor.position :: lead)))) := by
  obtain ⟨r, present, chosen⟩ := currentRow main earlier row
  simp [JoinSource.extend, present, now, keeps, chosen]

theorem extendAhead (row : j.source.cursor.position < size j.source) :
    j.extend main.name params true true m lead (compose main earlier lead) = (m, .ok none) := by
  obtain ⟨r, present, _⟩ := currentRow main earlier row
  simp [JoinSource.extend, present]

theorem extendPast {b : Bool} (past : j.source.cursor.position = size j.source) :
    j.extend main.name params last b m lead (compose main earlier lead) =
      (m, .ok (if (last && b) = true ∨ j.kind.keepsUnmatchedMain = true ∧
            (compose main earlier lead).hasRows = true ∧ m.leadMatched lead = false then
          some (compose main (still j :: earlier) (size j.source :: lead)) else none)) := by
  have absent : j.source.cursor.fetch = none := by simp [Cursor.fetch, past, size]
  have chosen : compose main (still j :: earlier) (size j.source :: lead) =
      j.source.pushInto (compose main earlier lead) none := by
    rw [← absent, ← past]
    rfl
  simp only [JoinSource.extend, absent, chosen, Bool.or_eq_true, Bool.and_eq_true,
    Bool.not_eq_true', and_assoc]

/-- The lead is passed on exactly if it belongs to a join, and the record stays exact. -/
def Decides (main : OpenSource) (params : List Value) (done : List Lead) (earlier : List JoinSource)
    (j : JoinSource) (before lead : Lead) (leads : List Lead)
    (result : MatchRecord × Outcome (Option Composition)) : Prop :=
  result.2 = .ok (if j.source.cursor.position :: lead ∈ leads then
      some (compose main (still j :: earlier) (j.source.cursor.position :: lead)) else none) ∧
    Recorded main params (done ++ [before ++ j.source.cursor.position :: lead]) earlier (still j)
      result.1

theorem extendKept {b : Bool} {leads : List Lead} (member : lead ∈ leads)
    (asked : lead ∈ asked main params (still j) earlier) (fits : Fits main earlier lead)
    (rows : (compose main earlier lead).hasRows = true)
    (now : (last && b) = false) (own : (last && j.kind.keepsUnmatchedJoin) = false)
    (recorded : Recorded main params done earlier (still j) m)
    (within : ∀ y, Fits main (still j :: earlier) y → Fits main all (before ++ y))
    (complete : Complete main all done (before ++ j.source.cursor.position :: lead))
    (evaluable : j.source.cursor.position < size j.source →
      (condition main params earlier (still j) lead j.source.cursor.position).isOk = true) :
    Decides main params done earlier j before lead (kept main params earlier (still j) leads)
      (j.extend main.name params last b m lead (compose main earlier lead)) := by
  rcases Nat.lt_or_eq_of_le (positionLe j.source) with row | past
  · have belongs : j.source.cursor.position :: lead ∈ kept main params earlier (still j) leads ↔
        holdsAt main params earlier (still j) lead j.source.cursor.position = true :=
      rowMemKept member row
    rw [extendAsked row now own (evaluable row)]
    by_cases holds : holdsAt main params earlier (still j) lead j.source.cursor.position = true
    · rw [if_pos holds]
      exact ⟨by rw [if_pos (belongs.mpr holds)], recordedMatch recorded rfl asked row holds⟩
    · rw [if_neg holds]
      refine ⟨by rw [if_neg (mt belongs.mp holds)], ?_⟩
      exact recordedMiss recorded rfl (askedLength asked) fun _ _ => by simpa using holds
  · rw [past] at complete
    have belongs := pastMemKept member fun keeps =>
      leadComplete recorded keeps asked fits within complete
    rw [extendPast past]
    refine ⟨congrArg Except.ok (if_congr ?_ (by rw [past]) rfl), ?_⟩
    · rw [past, now, rows]
      refine Iff.trans ?_ belongs.symm
      simp
    · rw [past]
      exact recordedMiss recorded rfl (askedLength asked) fun _ row => absurd row (Nat.lt_irrefl _)

theorem extendKeeping (keeps : j.kind.keepsUnmatchedJoin = true)
    (final : lead ∈ lastRound main params earlier)
    (recorded : Recorded main params done earlier (still j) m)
    (within : ∀ y, Fits main (still j :: earlier) y → Fits main all (before ++ y))
    (complete : Complete main all done (before ++ j.source.cursor.position :: lead)) :
    Decides main params done earlier j before lead (lastRound main params (still j :: earlier))
      (j.extend main.name params true false m lead (compose main earlier lead)) := by
  have fits := (lastRoundFits final).1
  have own : (still j).kind.keepsUnmatchedJoin = true := keeps
  have silent : lead ∉ asked main params (still j) earlier := silentInLastRound final (.inl own)
  have same : Recorded main params (done ++ [before ++ j.source.cursor.position :: lead]) earlier
      (still j) m := recordedMiss recorded rfl (fitsLength fits) fun asked => absurd asked silent
  rcases Nat.lt_or_eq_of_le (positionLe j.source) with row | past
  · have belongs := rowMemLastRound own final row (rowComplete recorded own final within row complete)
    rw [extendOwn row rfl keeps]
    refine ⟨?_, same⟩
    cases found : m.rowMatched j.source.cursor.position with
    | true =>
        rw [if_pos rfl, if_neg]
        exact fun member => Bool.false_ne_true ((belongs.mp member).symm.trans found)
    | false => rw [if_neg Bool.false_ne_true, if_pos (belongs.mpr found)]
  · have belongs := pastMemLastRound own final
    have unmatched : m.leadMatched lead = false := by
      rw [Bool.eq_false_iff]
      intro matched
      obtain ⟨_, q, asked, _⟩ := (recorded.leads lead).mp matched
      exact silent asked
    rw [extendPast past]
    refine ⟨congrArg Except.ok (if_congr ?_ (by rw [past]) rfl), same⟩
    rw [past, hasRowsLastRound final]
    refine Iff.trans ?_ belongs.symm
    simp [unmatched]

theorem extendLeading (plain : j.kind.keepsUnmatchedJoin = false)
    (outer : JoinRun.hasOuter earlier = false) (final : lead ∈ lastRound main params earlier)
    (recorded : Recorded main params done earlier (still j) m) :
    Decides main params done earlier j before lead (lastRound main params (still j :: earlier))
      (j.extend main.name params true true m lead (compose main earlier lead)) := by
  have silent : lead ∉ asked main params (still j) earlier := silentInLastRound final (.inr outer)
  have same : Recorded main params (done ++ [before ++ j.source.cursor.position :: lead]) earlier
      (still j) m :=
    recordedMiss recorded rfl (fitsLength (lastRoundFits final).1) fun asked => absurd asked silent
  have leads : lastRound main params (still j :: earlier) =
      [size j.source :: ends main earlier] := lastRoundOfLeading plain outer
  rw [lastRoundOfPlain outer, List.mem_singleton] at final
  rw [leads]
  rcases Nat.lt_or_eq_of_le (positionLe j.source) with row | past
  · rw [extendAhead row]
    refine ⟨?_, same⟩
    rw [if_neg]
    intro belongs
    have place := (List.cons.inj (List.mem_singleton.mp belongs)).1
    exact absurd place (Nat.ne_of_lt row)
  · rw [extendPast past]
    refine ⟨?_, same⟩
    simp [past, final]

theorem extendReached {b : Bool} (member : lead ∈ reached main params last earlier)
    (ahead : last = true → b = !JoinRun.hasOuter (j :: earlier))
    (recorded : Recorded main params done earlier (still j) m)
    (within : ∀ y, Fits main (still j :: earlier) y → Fits main all (before ++ y))
    (complete : Complete main all done (before ++ j.source.cursor.position :: lead))
    (evaluable : lead ∈ asked main params (still j) earlier →
      j.source.cursor.position < size j.source →
        (condition main params earlier (still j) lead j.source.cursor.position).isOk = true) :
    Decides main params done earlier j before lead (reached main params last (still j :: earlier))
      (j.extend main.name params last b m lead (compose main earlier lead)) := by
  cases last with
  | false =>
      have asked : lead ∈ asked main params (still j) earlier := memAsked.mpr (.inl member)
      exact extendKept member asked (reachedFits member) (hasRowsFromMain member) rfl rfl recorded
        within complete (evaluable asked)
  | true =>
      rw [ahead rfl]
      cases keeps : j.kind.keepsUnmatchedJoin with
      | true =>
          simp only [hasOuterCons, keeps, Bool.true_or, Bool.not_true]
          exact extendKeeping keeps member recorded within complete
      | false =>
          simp only [hasOuterCons, keeps, Bool.false_or]
          cases outer : JoinRun.hasOuter earlier with
          | true =>
              have leads : reached main params true (still j :: earlier) =
                  kept main params earlier (still j) (lastRound main params earlier) :=
                lastRoundOfFollowing keeps outer
              have asked : lead ∈ asked main params (still j) earlier :=
                memAsked.mpr (.inr ⟨keeps, outer, member⟩)
              rw [leads]
              exact extendKept member asked (reachedFits member) (hasRowsLastRound member ▸ outer) rfl
                (by simp [keeps]) recorded within complete (evaluable asked)
          | false => exact extendLeading keeps outer member recorded

/-! All joins -/

theorem evaluableAtOf {later : List JoinSource} {ps : List Nat} (same : ps.length = later.length)
    (h : EvaluableAt main params (later ++ earlier) (ps ++ lead)) :
    EvaluableAt main params earlier lead := by
  induction later generalizing ps with
  | nil =>
      obtain rfl := List.length_eq_zero_iff.mp same
      exact h
  | cons j later ih =>
      cases ps with
      | nil => simp at same
      | cons p ps => exact ih (by simpa using same) h.1

/-! The joins that follow the first one -/

theorem positionsNext (j : JoinSource) (joins : List JoinSource) (lead : Lead) :
    (positions (j :: joins)).reverse ++ lead =
      (positions joins).reverse ++ j.source.cursor.position :: lead := by
  simp [positions]

theorem stillsNext (j : JoinSource) (joins earlier : List JoinSource) :
    ((j :: joins).map still).reverse ++ earlier = (joins.map still).reverse ++ still j :: earlier := by
  simp

theorem outerNext {j : JoinSource} {b : Bool} (ahead : last = true → b = !JoinRun.hasOuter earlier) :
    last = true → (b && !j.kind.keepsUnmatchedJoin) = !JoinRun.hasOuter (j :: earlier) := by
  intro final
  rw [ahead final, hasOuterCons, Bool.not_or, Bool.and_comm]

theorem extendAllReached (joins : List JoinSource) {b : Bool} {records : List MatchRecord}
    (member : lead ∈ reached main params last earlier)
    (ahead : last = true → b = !JoinRun.hasOuter earlier)
    (recorded : AllRecorded main params done earlier (joins.map still) records)
    (complete : Complete main ((joins.map still).reverse ++ earlier) done
      ((positions joins).reverse ++ lead))
    (evaluable : EvaluableAt main params ((joins.map still).reverse ++ earlier)
      ((positions joins).reverse ++ lead)) :
    ∃ records', JoinSource.extendAll main.name params last joins records b lead
        (compose main earlier lead) =
          (records', .ok (if (positions joins).reverse ++ lead ∈
              reached main params last ((joins.map still).reverse ++ earlier) then
            some (compose main ((joins.map still).reverse ++ earlier)
              ((positions joins).reverse ++ lead)) else none)) ∧
      AllRecorded main params (done ++ [(positions joins).reverse ++ lead]) earlier
        (joins.map still) records' := by
  induction joins generalizing earlier lead b records with
  | nil => exact ⟨records, by simp [JoinSource.extendAll, positions, member], trivial⟩
  | cons j joins ih =>
      have beforeOuter := outerNext (j := j) ahead
      rw [positionsNext, stillsNext] at complete evaluable ⊢
      obtain ⟨decided, exact'⟩ := extendReached member beforeOuter recorded.1
        (fun y => fitsPositions joins) complete
        (evaluableAtOf (by simp [positions]) evaluable).2
      have width : (j.source.cursor.position :: lead).length = (still j :: earlier).length + 1 :=
        congrArg Nat.succ (fitsLength (reachedFits member))
      generalize result : j.extend main.name params last (b && !j.kind.keepsUnmatchedJoin)
        (records.headD .none) lead (compose main earlier lead) = answer at decided exact'
      obtain ⟨m, o⟩ := answer
      -- The joins that follow are asked only for a lead that this join passes on.
      by_cases belongs : j.source.cursor.position :: lead ∈
          reached main params last (still j :: earlier)
      · rw [if_pos belongs] at decided
        obtain ⟨rest, run, restRecorded⟩ := ih belongs beforeOuter recorded.2 complete evaluable
        refine ⟨m :: rest, ?_, exact', restRecorded⟩
        simp only [JoinSource.extendAll, result, show o = _ from decided, run]
      · rw [if_neg belongs] at decided
        have outside : (positions joins).reverse ++ j.source.cursor.position :: lead ∉
            reached main params last ((joins.map still).reverse ++ still j :: earlier) :=
          fun more => belongs (reachedStart (joins.map still) (positions joins)
            (by simp [positions]) more)
        refine ⟨m :: records.tail, ?_, exact', ?_⟩
        · simp only [JoinSource.extendAll, result, show o = _ from decided, if_neg outside]
        · refine allRecordedMiss _ (positions joins) recorded.2 (by simp [positions]) width rfl ?_
          intro other more
          exact belongs (reachedOnce (reachedBack more) member ▸ more)

end RelQuery.Relational
