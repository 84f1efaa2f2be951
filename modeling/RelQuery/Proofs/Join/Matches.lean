import RelQuery.Proofs.Join.Turns

/-! What a run records while it visits leads, and what it makes of the next one. A record holds exactly
the matches on the leads that were visited. It is read only where every lead that could add to the
answer was visited before, so the candidate at a lead is there exactly if the lead belongs to the join. -/
namespace RelQuery.Relational

variable (main : OpenSource) (params : List Value)

/-- A match on a lead that was visited. -/
def Hit (done : List Lead) (earlier : List JoinSource) (j : JoinSource) (lead : Lead) (p : Nat) :
    Prop :=
  lead ∈ asked main params j earlier ∧ p < size j.source ∧
    holdsAt main params earlier j lead p = true ∧ ∃ x ∈ done, p :: lead <:+ x

structure Recorded (done : List Lead) (earlier : List JoinSource) (j : JoinSource)
    (m : MatchRecord) : Prop where
  leads : ∀ lead, m.leadMatched lead = true ↔
    j.kind.keepsUnmatchedMain = true ∧ ∃ p, Hit main params done earlier j lead p
  rows : ∀ p, m.rowMatched p = true ↔
    j.kind.keepsUnmatchedJoin = true ∧ ∃ lead, Hit main params done earlier j lead p

def AllRecorded (done : List Lead) : List JoinSource → List JoinSource → List MatchRecord → Prop
  | _, [], _ => True
  | earlier, j :: joins, records =>
      Recorded main params done earlier j (records.headD .none) ∧
        AllRecorded done (j :: earlier) joins records.tail

/-- Every lead that comes before another one was visited. -/
def Complete (joins : List JoinSource) (done : List Lead) (x : Lead) : Prop :=
  ∀ y, Fits main joins y → reading y < reading x → y ∈ done

/-- The leads that a round, the last one or another, forms. -/
def reached (last : Bool) (earlier : List JoinSource) : List Lead :=
  if last then lastRound main params earlier else fromMain main params earlier

variable {main : OpenSource} {params : List Value} {done : List Lead} {earlier : List JoinSource}
  {j : JoinSource} {m : MatchRecord} {last : Bool} {x lead before : Lead} {p : Nat}

/-! Leads that are asked, and leads that are reached -/

theorem memAsked : lead ∈ asked main params j earlier ↔
    lead ∈ fromMain main params earlier ∨ j.kind.keepsUnmatchedJoin = false ∧
      JoinRun.hasOuter earlier = true ∧ lead ∈ lastRound main params earlier := by
  rw [asked, List.mem_append]
  cases j.kind.keepsUnmatchedJoin <;> simp [memExhausted]

theorem askedLength (h : lead ∈ asked main params j earlier) :
    lead.length = earlier.length + 1 := by
  rcases memAsked.mp h with first | ⟨_, _, final⟩
  · exact fitsLength (fromMainFits first).1
  · exact fitsLength (lastRoundFits final).1

theorem reachedFits (h : lead ∈ reached main params last earlier) : Fits main earlier lead := by
  cases last with
  | false => exact (fromMainFits h).1
  | true => exact (lastRoundFits h).1

theorem reachedBack (h : p :: lead ∈ reached main params last (j :: earlier)) :
    lead ∈ reached main params last earlier := by
  cases last with
  | false => exact (consMemKept.mp h).1
  | true => exact lastRoundBack h

theorem reachedOnce {other : Bool} (h : lead ∈ reached main params other earlier)
    (h' : lead ∈ reached main params last earlier) : other = last := by
  cases other <;> cases last
  · rfl
  · exact absurd h' (notBoth h)
  · exact absurd h (notBoth h')
  · rfl

theorem reachedStart (joins : List JoinSource) (ps : List Nat) (same : ps.length = joins.length)
    (h : ps.reverse ++ lead ∈ reached main params last (joins.reverse ++ earlier)) :
    lead ∈ reached main params last earlier := by
  induction joins generalizing ps earlier lead with
  | nil =>
      cases ps with
      | nil => exact h
      | cons p ps => simp at same
  | cons j joins ih =>
      cases ps with
      | nil => simp at same
      | cons p ps =>
          simp only [List.reverse_cons, List.append_assoc, List.singleton_append] at h
          exact reachedBack (ih ps (by simpa using same) h)

theorem notAsked (none : ∀ last, lead ∉ reached main params last earlier) :
    lead ∉ asked main params j earlier := by
  intro h
  rcases memAsked.mp h with first | ⟨_, _, final⟩
  · exact none false first
  · exact none true final

/-! Records of matches -/

theorem leadMatchedRecord (kind : JoinKind) (l : Lead) :
    (m.record kind lead p).leadMatched l = true ↔
      kind.keepsUnmatchedMain = true ∧ lead = l ∨ m.leadMatched l = true := by
  cases keeps : kind.keepsUnmatchedMain <;>
    simp [MatchRecord.leadMatched, MatchRecord.record, keeps, Std.TreeSet.contains_insert]

theorem rowMatchedRecord (kind : JoinKind) (q : Nat) :
    (m.record kind lead p).rowMatched q = true ↔
      kind.keepsUnmatchedJoin = true ∧ p = q ∨ m.rowMatched q = true := by
  cases keeps : kind.keepsUnmatchedJoin <;>
    simp [MatchRecord.rowMatched, MatchRecord.record, keeps, Std.TreeSet.contains_insert]

theorem recordedNone (earlier : List JoinSource) (j : JoinSource) :
    Recorded main params [] earlier j .none := by
  constructor <;> simp [MatchRecord.none, MatchRecord.leadMatched, MatchRecord.rowMatched, Hit]

theorem hitSnoc (place : x = before ++ p :: lead) (width : lead.length = earlier.length + 1)
    {l : Lead} {q : Nat} : Hit main params (done ++ [x]) earlier j l q ↔
      Hit main params done earlier j l q ∨ l = lead ∧ q = p ∧
        lead ∈ asked main params j earlier ∧ p < size j.source ∧
          holdsAt main params earlier j lead p = true := by
  constructor
  · rintro ⟨asked, bound, holds, y, member, suffix⟩
    rcases List.mem_append.mp member with old | new
    · exact .inl ⟨asked, bound, holds, y, old, suffix⟩
    · rw [List.mem_singleton.mp new, place] at suffix
      have long : (q :: l).length = (p :: lead).length := by simp [askedLength asked, width]
      have both := List.suffix_of_suffix_length_le suffix (List.suffix_append before (p :: lead))
        (Nat.le_of_eq long)
      obtain ⟨rfl, rfl⟩ := List.cons.inj (both.eq_of_length long)
      exact .inr ⟨rfl, rfl, asked, bound, holds⟩
  · rintro (⟨asked, bound, holds, y, member, suffix⟩ | ⟨rfl, rfl, asked, bound, holds⟩)
    · exact ⟨asked, bound, holds, y, List.mem_append_left _ member, suffix⟩
    · exact ⟨asked, bound, holds, x, by simp, place ▸ List.suffix_append _ _⟩

theorem recordedMatch (recorded : Recorded main params done earlier j m)
    (place : x = before ++ p :: lead) (asked : lead ∈ asked main params j earlier)
    (bound : p < size j.source) (holds : holdsAt main params earlier j lead p = true) :
    Recorded main params (done ++ [x]) earlier j (m.record j.kind lead p) := by
  have more {l : Lead} {q : Nat} : Hit main params (done ++ [x]) earlier j l q ↔
      Hit main params done earlier j l q ∨ l = lead ∧ q = p ∧
        lead ∈ Relational.asked main params j earlier ∧ p < size j.source ∧
          holdsAt main params earlier j lead p = true := hitSnoc place (askedLength asked)
  constructor
  · intro l
    rw [leadMatchedRecord, recorded.leads]
    simp only [more, asked, bound, holds]
    constructor
    · rintro (⟨keeps, rfl⟩ | ⟨keeps, q, hit⟩)
      · exact ⟨keeps, p, .inr ⟨rfl, rfl, trivial, trivial, trivial⟩⟩
      · exact ⟨keeps, q, .inl hit⟩
    · rintro ⟨keeps, q, hit | ⟨same, _⟩⟩
      · exact .inr ⟨keeps, q, hit⟩
      · exact .inl ⟨keeps, same.symm⟩
  · intro q
    rw [rowMatchedRecord, recorded.rows]
    simp only [more, asked, bound, holds]
    constructor
    · rintro (⟨keeps, rfl⟩ | ⟨keeps, l, hit⟩)
      · exact ⟨keeps, lead, .inr ⟨rfl, rfl, trivial, trivial, trivial⟩⟩
      · exact ⟨keeps, l, .inl hit⟩
    · rintro ⟨keeps, l, hit | ⟨_, same, _⟩⟩
      · exact .inr ⟨keeps, l, hit⟩
      · exact .inl ⟨keeps, same.symm⟩

theorem recordedMiss (recorded : Recorded main params done earlier j m)
    (place : x = before ++ p :: lead) (width : lead.length = earlier.length + 1)
    (miss : lead ∈ asked main params j earlier → p < size j.source →
      holdsAt main params earlier j lead p = false) :
    Recorded main params (done ++ [x]) earlier j m := by
  have same {l q} : Hit main params (done ++ [x]) earlier j l q ↔
      Hit main params done earlier j l q := by
    rw [hitSnoc place width, or_iff_left]
    rintro ⟨_, _, asked, bound, holds⟩
    exact Bool.false_ne_true ((miss asked bound).symm.trans holds)
  constructor
  · simpa only [same] using recorded.leads
  · simpa only [same] using recorded.rows

theorem allRecordedMiss (joins : List JoinSource) (ps : List Nat) {records : List MatchRecord}
    (recorded : AllRecorded main params done earlier joins records)
    (same : ps.length = joins.length) (width : lead.length = earlier.length + 1)
    (place : x = ps.reverse ++ lead) (none : ∀ last, lead ∉ reached main params last earlier) :
    AllRecorded main params (done ++ [x]) earlier joins records := by
  induction joins generalizing ps earlier lead records with
  | nil => trivial
  | cons j joins ih =>
      cases ps with
      | nil => simp at same
      | cons p ps =>
          simp only [List.reverse_cons, List.append_assoc, List.singleton_append] at place
          refine ⟨recordedMiss recorded.1 place width fun asked => absurd asked (notAsked none), ?_⟩
          exact ih ps recorded.2 (by simpa using same) (by simp [width]) place
            fun last more => none last (reachedBack more)

end RelQuery.Relational
