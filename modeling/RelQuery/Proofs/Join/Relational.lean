import RelQuery.Join.Engine
import Mathlib.Data.List.Nodup

/-! Joins as relations. A lead lists the position of the main source and those of some joins, the last
join first; the position past the end of a source stands for an empty sub-row. Joins apply from the
left, so a list of joins is read from its last one, which is followed by the joins before it. -/
namespace RelQuery.Relational

abbrev Lead := List Nat

def size (s : OpenSource) : Nat := s.cursor.rows.size

/-- What a condition says, where a failure says no. -/
def truth : Outcome Bool → Bool
  | .ok b => b
  | .error _ => false

section
variable (main : OpenSource) (params : List Value)

/-- The sub-rows that a lead chooses. -/
def compose : List JoinSource → Lead → Composition
  | j :: earlier, p :: lead => j.source.pushInto (compose earlier lead) j.source.cursor.rows[p]?
  | _, lead => main.pushInto .empty (lead.head?.bind fun m => main.cursor.rows[m]?)

/-- The condition of a join on a lead with one of the join's rows. -/
def condition (earlier : List JoinSource) (j : JoinSource) (lead : Lead) (p : Nat) : Outcome Bool :=
  j.holds main.name params (compose main (j :: earlier) (p :: lead))

def holdsAt (earlier : List JoinSource) (j : JoinSource) (lead : Lead) (p : Nat) : Bool :=
  truth (condition main params earlier j lead p)

/-- The lead that has no row at all. -/
def ends : List JoinSource → Lead
  | [] => [size main]
  | j :: earlier => size j.source :: ends earlier

/-- The leads before a join with each row that they match. -/
def pairs (earlier : List JoinSource) (j : JoinSource) (before : List Lead) : List Lead :=
  before.flatMap fun lead =>
    ((List.range (size j.source)).filter (holdsAt main params earlier j lead)).map (· :: lead)

/-- The leads before a join that match none of its rows. -/
def unmatched (earlier : List JoinSource) (j : JoinSource) (before : List Lead) : List Lead :=
  before.filter fun lead => !(List.range (size j.source)).any (holdsAt main params earlier j lead)

/-- The rows of a join that match no lead before it. -/
def orphans (earlier : List JoinSource) (j : JoinSource) (before : List Lead) : List Nat :=
  (List.range (size j.source)).filter fun p => !before.any (holdsAt main params earlier j · p)

/-- What a join makes of the leads before it, its own unmatched rows left out. -/
def kept (earlier : List JoinSource) (j : JoinSource) (before : List Lead) : List Lead :=
  pairs main params earlier j before ++
    if j.kind.keepsUnmatchedMain then
      (unmatched main params earlier j before).map (size j.source :: ·)
    else []

/-- The join of all sources, one after another. -/
def reference : List JoinSource → List Lead
  | [] => (List.range (size main)).map ([·])
  | j :: earlier =>
      let before := reference earlier
      kept main params earlier j before ++
        if j.kind.keepsUnmatchedJoin then
          (orphans main params earlier j before).map (· :: ends main earlier)
        else []

/-- The part of the join that starts from the rows of the main source. -/
def fromMain : List JoinSource → List Lead
  | [] => (List.range (size main)).map ([·])
  | j :: earlier => kept main params earlier j (fromMain earlier)

/-- What a run adds once its main cursor is past its end. A RIGHT or FULL join gives the rows that match
nothing from the main source to each lead of this round, and no condition is asked. -/
def exhausted : List JoinSource → List Lead
  | [] => []
  | j :: earlier =>
      if j.kind.keepsUnmatchedJoin then
        (if JoinRun.hasOuter earlier then exhausted earlier else [ends main earlier]).flatMap
            (fun lead => (orphans main params earlier j (fromMain main params earlier)).map (· :: lead)) ++
          if j.kind.keepsUnmatchedMain then (exhausted earlier).map (size j.source :: ·) else []
      else kept main params earlier j (exhausted earlier)

/-- The leads of the round past the end of the main source. Before the first RIGHT or FULL join there
is only the one without rows. -/
def lastRound (earlier : List JoinSource) : List Lead :=
  if JoinRun.hasOuter earlier then exhausted main params earlier else [ends main earlier]

/-- What a run collects. -/
def members (earlier : List JoinSource) : List Lead :=
  fromMain main params earlier ++ exhausted main params earlier

/-- The leads on which a run asks for the condition of a join. -/
def asked (j : JoinSource) (earlier : List JoinSource) : List Lead :=
  fromMain main params earlier ++
    if j.kind.keepsUnmatchedJoin then [] else exhausted main params earlier

/-- No join has a condition that fails on the leads given for it. -/
def Evaluable (leads : JoinSource → List JoinSource → List Lead) : List JoinSource → Prop
  | [] => True
  | j :: earlier => Evaluable leads earlier ∧ ∀ lead ∈ leads j earlier, ∀ p < size j.source,
      (condition main params earlier j lead p).isOk = true

instance decidableEvaluable (leads : JoinSource → List JoinSource → List Lead) :
    (joins : List JoinSource) → Decidable (Evaluable main params leads joins)
  | [] => isTrue trivial
  | _ :: earlier =>
      have := decidableEvaluable leads earlier
      inferInstanceAs (Decidable (_ ∧ _))

/-- Along a lead, no condition fails that a run asks. -/
def EvaluableAt : List JoinSource → Lead → Prop
  | j :: earlier, p :: lead => EvaluableAt earlier lead ∧ (lead ∈ asked main params j earlier →
      p < size j.source → (condition main params earlier j lead p).isOk = true)
  | _, _ => True

/-- Positions within the sources, or past the end of them. -/
def Fits : List JoinSource → Lead → Prop
  | [], [m] => m ≤ size main
  | j :: earlier, p :: lead => p ≤ size j.source ∧ Fits earlier lead
  | _, _ => False

end

/-- The positions of a lead as a counter shows them: the main source first, then the joins from the last
one to the first. -/
def reading (lead : Lead) : List Nat := lead.getLastD 0 :: lead.dropLast

section
variable {main : OpenSource} {params : List Value}

theorem evaluableAt {joins : List JoinSource} (h : Evaluable main params (asked main params) joins)
    (lead : Lead) : EvaluableAt main params joins lead := by
  induction joins generalizing lead with
  | nil => trivial
  | cons j earlier ih =>
      cases lead with
      | nil => trivial
      | cons p lead => exact ⟨ih h.1 lead, fun asked row => h.2 lead asked p row⟩

theorem fitsNonempty {earlier lead} (h : Fits main earlier lead) : lead ≠ [] := by
  rintro rfl
  cases earlier <;> simp [Fits] at h

theorem fitsLength {earlier lead} (h : Fits main earlier lead) :
    lead.length = earlier.length + 1 := by
  induction earlier generalizing lead with
  | nil => match lead, h with
    | [_], _ => rfl
  | cons j earlier ih =>
      cases lead with
      | nil => exact absurd rfl (fitsNonempty h)
      | cons p lead => simp [ih h.2]

theorem fitsNil {lead} (h : Fits main [] lead) : ∃ m, lead = [m] ∧ m ≤ size main := by
  cases lead with
  | nil => exact absurd rfl (fitsNonempty h)
  | cons m rest =>
      cases rest with
      | nil => exact ⟨m, rfl, h⟩
      | cons _ _ => cases h

theorem fitsCons {j : JoinSource} {earlier lead} (h : Fits main (j :: earlier) lead) :
    ∃ p rest, lead = p :: rest ∧ p ≤ size j.source ∧ Fits main earlier rest := by
  cases lead with
  | nil => exact absurd rfl (fitsNonempty h)
  | cons p rest => exact ⟨p, rest, rfl, h⟩

theorem fitsEnds (earlier : List JoinSource) : Fits main earlier (ends main earlier) := by
  induction earlier with
  | nil => exact Nat.le_refl _
  | cons j earlier ih => exact ⟨Nat.le_refl _, ih⟩

theorem mainOfCons {p m : Nat} {lead : Lead} (h : lead.getLast? = some m) :
    (p :: lead).getLast? = some m := by
  simp [List.getLast?_cons, h]

theorem mainOfEnds (earlier : List JoinSource) : (ends main earlier).getLast? = some (size main) := by
  induction earlier with
  | nil => rfl
  | cons j earlier ih => exact mainOfCons ih

/-! Members of a join -/

variable {earlier : List JoinSource} {j : JoinSource} {before : List Lead}

theorem memPairs {x : Lead} : x ∈ pairs main params earlier j before ↔
    ∃ p lead, x = p :: lead ∧ lead ∈ before ∧ p < size j.source ∧
      holdsAt main params earlier j lead p = true := by
  simp only [pairs, List.mem_flatMap, List.mem_map, List.mem_filter, List.mem_range]
  constructor
  · rintro ⟨lead, member, p, ⟨bound, matched⟩, rfl⟩
    exact ⟨p, lead, rfl, member, bound, matched⟩
  · rintro ⟨p, lead, rfl, member, bound, matched⟩
    exact ⟨lead, member, p, ⟨bound, matched⟩, rfl⟩

theorem memUnmatched {lead : Lead} : lead ∈ unmatched main params earlier j before ↔
    lead ∈ before ∧ ∀ q < size j.source, holdsAt main params earlier j lead q = false := by
  simp [unmatched, List.mem_filter]

theorem memOrphans {p : Nat} : p ∈ orphans main params earlier j before ↔
    p < size j.source ∧ ∀ lead ∈ before, holdsAt main params earlier j lead p = false := by
  simp [orphans, List.mem_filter]

theorem memKept {x : Lead} : x ∈ kept main params earlier j before ↔
    ∃ p lead, x = p :: lead ∧ lead ∈ before ∧
      (p < size j.source ∧ holdsAt main params earlier j lead p = true ∨
        j.kind.keepsUnmatchedMain = true ∧ p = size j.source ∧
          ∀ q < size j.source, holdsAt main params earlier j lead q = false) := by
  simp only [kept, List.mem_append, memPairs, List.mem_ite_nil_right, List.mem_map, memUnmatched]
  constructor
  · rintro (⟨p, lead, rfl, member, matched⟩ | ⟨keeps, lead, ⟨member, none⟩, rfl⟩)
    · exact ⟨p, lead, rfl, member, .inl matched⟩
    · exact ⟨_, lead, rfl, member, .inr ⟨keeps, rfl, none⟩⟩
  · rintro ⟨p, lead, rfl, member, matched | ⟨keeps, rfl, none⟩⟩
    · exact .inl ⟨p, lead, rfl, member, matched⟩
    · exact .inr ⟨keeps, lead, ⟨member, none⟩, rfl⟩

theorem consMemKept {p : Nat} {lead : Lead} : p :: lead ∈ kept main params earlier j before ↔
    lead ∈ before ∧
      (p < size j.source ∧ holdsAt main params earlier j lead p = true ∨
        j.kind.keepsUnmatchedMain = true ∧ p = size j.source ∧
          ∀ q < size j.source, holdsAt main params earlier j lead q = false) := by
  rw [memKept]
  constructor
  · rintro ⟨_, _, same, h⟩
    cases same
    exact h
  · intro h
    exact ⟨p, lead, rfl, h⟩

@[simp] theorem hasOuterNil : JoinRun.hasOuter [] = false := rfl

@[simp] theorem hasOuterCons (j : JoinSource) (earlier : List JoinSource) :
    JoinRun.hasOuter (j :: earlier) = (j.kind.keepsUnmatchedJoin || JoinRun.hasOuter earlier) := by
  simp [JoinRun.hasOuter]

/-! The last round -/

theorem lastRoundOfOuter (outer : JoinRun.hasOuter earlier = true) :
    lastRound main params earlier = exhausted main params earlier := by
  simp [lastRound, outer]

theorem lastRoundOfPlain (plain : JoinRun.hasOuter earlier = false) :
    lastRound main params earlier = [ends main earlier] := by
  simp [lastRound, plain]

theorem exhaustedOfPlain (plain : JoinRun.hasOuter earlier = false) :
    exhausted main params earlier = [] := by
  induction earlier with
  | nil => rfl
  | cons j earlier ih =>
      simp only [hasOuterCons, Bool.or_eq_false_iff] at plain
      simp [exhausted, plain.1, ih plain.2, kept, pairs, unmatched]

theorem memExhausted {x : Lead} : x ∈ exhausted main params earlier ↔
    JoinRun.hasOuter earlier = true ∧ x ∈ lastRound main params earlier := by
  cases outer : JoinRun.hasOuter earlier with
  | true => simp [lastRoundOfOuter outer]
  | false => simp [exhaustedOfPlain outer]

theorem exhaustedOfKeeping (keeps : j.kind.keepsUnmatchedJoin = true) :
    exhausted main params (j :: earlier) =
      (lastRound main params earlier).flatMap (fun lead =>
          (orphans main params earlier j (fromMain main params earlier)).map (· :: lead)) ++
        if j.kind.keepsUnmatchedMain then
          (exhausted main params earlier).map (size j.source :: ·)
        else [] := by
  simp only [exhausted, keeps, if_true]
  rfl

theorem memLastRoundOfKeeping (keeps : j.kind.keepsUnmatchedJoin = true) {x : Lead} :
    x ∈ lastRound main params (j :: earlier) ↔ ∃ p lead, x = p :: lead ∧
      lead ∈ lastRound main params earlier ∧
      (p ∈ orphans main params earlier j (fromMain main params earlier) ∨
        j.kind.keepsUnmatchedMain = true ∧ JoinRun.hasOuter earlier = true ∧
          p = size j.source) := by
  have outer : JoinRun.hasOuter (j :: earlier) = true := by simp [keeps]
  rw [lastRoundOfOuter outer, exhaustedOfKeeping keeps]
  simp only [List.mem_append, List.mem_flatMap, List.mem_map, List.mem_ite_nil_right, memExhausted]
  constructor
  · rintro (⟨lead, member, p, orphan, rfl⟩ | ⟨all, lead, ⟨outer, member⟩, rfl⟩)
    · exact ⟨p, lead, rfl, member, .inl orphan⟩
    · exact ⟨_, lead, rfl, member, .inr ⟨all, outer, rfl⟩⟩
  · rintro ⟨p, lead, rfl, member, orphan | ⟨all, outer, rfl⟩⟩
    · exact .inl ⟨lead, member, p, orphan, rfl⟩
    · exact .inr ⟨all, lead, ⟨outer, member⟩, rfl⟩

theorem lastRoundOfFollowing (plain : j.kind.keepsUnmatchedJoin = false)
    (outer : JoinRun.hasOuter earlier = true) : lastRound main params (j :: earlier) =
      kept main params earlier j (lastRound main params earlier) := by
  have more : JoinRun.hasOuter (j :: earlier) = true := by simp [outer]
  rw [lastRoundOfOuter more, lastRoundOfOuter outer]
  simp [exhausted, plain]

theorem lastRoundOfLeading (plain : j.kind.keepsUnmatchedJoin = false)
    (outer : JoinRun.hasOuter earlier = false) : lastRound main params (j :: earlier) =
      [size j.source :: ends main earlier] := by
  have more : JoinRun.hasOuter (j :: earlier) = false := by simp [plain, outer]
  rw [lastRoundOfPlain more]
  rfl

theorem lastRoundBack {p : Nat} {lead : Lead}
    (h : p :: lead ∈ lastRound main params (j :: earlier)) :
    lead ∈ lastRound main params earlier := by
  cases keeps : j.kind.keepsUnmatchedJoin with
  | true =>
      obtain ⟨_, _, same, member, _⟩ := (memLastRoundOfKeeping keeps).mp h
      cases same
      exact member
  | false =>
      cases outer : JoinRun.hasOuter earlier with
      | true => exact (consMemKept.mp (lastRoundOfFollowing keeps outer ▸ h)).1
      | false =>
          rw [lastRoundOfLeading keeps outer, List.mem_singleton] at h
          cases h
          simp [lastRoundOfPlain outer]

/-! Every lead of a join fits, and its last position tells whether the main source has a row in it -/

theorem keptFits {P : Option Nat → Prop}
    (each : ∀ lead ∈ before, Fits main earlier lead ∧ P lead.getLast?) {x : Lead}
    (h : x ∈ kept main params earlier j before) : Fits main (j :: earlier) x ∧ P x.getLast? := by
  obtain ⟨p, lead, rfl, member, matched⟩ := memKept.mp h
  obtain ⟨fits, last⟩ := each lead member
  have bound : p ≤ size j.source := by
    rcases matched with ⟨less, _⟩ | ⟨_, same, _⟩
    · exact Nat.le_of_lt less
    · exact Nat.le_of_eq same
  refine ⟨⟨bound, fits⟩, ?_⟩
  rwa [List.getLast?_cons_of_ne_nil (fitsNonempty fits)]

theorem fromMainFits {x : Lead} (h : x ∈ fromMain main params earlier) :
    Fits main earlier x ∧ ∃ m < size main, x.getLast? = some m := by
  induction earlier generalizing x with
  | nil =>
      obtain ⟨m, bound, rfl⟩ := List.mem_map.mp h
      have less := List.mem_range.mp bound
      exact ⟨Nat.le_of_lt less, m, less, rfl⟩
  | cons j earlier ih =>
      exact keptFits (P := fun last => ∃ m < size main, last = some m)
        (fun lead member => ih member) h

theorem lastRoundFits {x : Lead} (h : x ∈ lastRound main params earlier) :
    Fits main earlier x ∧ x.getLast? = some (size main) := by
  induction earlier generalizing x with
  | nil =>
      rw [lastRoundOfPlain rfl, List.mem_singleton] at h
      subst h
      exact ⟨fitsEnds [], mainOfEnds []⟩
  | cons j earlier ih =>
      cases keeps : j.kind.keepsUnmatchedJoin with
      | true =>
          obtain ⟨p, lead, rfl, member, place⟩ := (memLastRoundOfKeeping keeps).mp h
          obtain ⟨fits, last⟩ := ih member
          refine ⟨⟨?_, fits⟩, mainOfCons last⟩
          rcases place with orphan | ⟨_, _, same⟩
          · exact Nat.le_of_lt (memOrphans.mp orphan).1
          · exact Nat.le_of_eq same
      | false =>
          cases outer : JoinRun.hasOuter earlier with
          | true =>
              rw [lastRoundOfFollowing keeps outer] at h
              exact keptFits (P := fun last => last = some (size main))
                (fun lead member => ih member) h
          | false =>
              rw [lastRoundOfLeading keeps outer, List.mem_singleton] at h
              subst h
              exact ⟨fitsEnds (j :: earlier), mainOfEnds (j :: earlier)⟩

theorem notBoth {x : Lead} (first : x ∈ fromMain main params earlier) :
    x ∉ lastRound main params earlier := by
  intro last
  obtain ⟨_, m, less, place⟩ := fromMainFits first
  have same : m = size main := Option.some.inj (place.symm.trans (lastRoundFits last).2)
  omega

/-! Whether a composition has a row -/

theorem hasRowsPush (c : Composition) (name : String) (s : SubRow) :
    (c.push name s).hasRows = (c.hasRows || s.row.isSome) := by
  simp [Composition.hasRows, Composition.push, SubRow.isEmpty]

theorem rowPresent (s : OpenSource) (p : Nat) : s.cursor.rows[p]?.isSome = decide (p < size s) := by
  by_cases bound : p < s.cursor.rows.size <;> simp [size, bound]

theorem hasRowsCons (earlier : List JoinSource) (j : JoinSource) (p : Nat) (lead : Lead) :
    (compose main (j :: earlier) (p :: lead)).hasRows =
      ((compose main earlier lead).hasRows || decide (p < size j.source)) := by
  rw [compose, OpenSource.pushInto, hasRowsPush]
  simp only [OpenSource.subRow, rowPresent]

theorem hasRowsSingle (m : Nat) : (compose main [] [m]).hasRows = decide (m < size main) := by
  rw [compose, OpenSource.pushInto, hasRowsPush]
  · exact rowPresent main m
  · simp

theorem hasRowsFromMain {x : Lead} (h : x ∈ fromMain main params earlier) :
    (compose main earlier x).hasRows = true := by
  induction earlier generalizing x with
  | nil =>
      obtain ⟨m, bound, rfl⟩ := List.mem_map.mp h
      simpa [hasRowsSingle] using bound
  | cons j earlier ih =>
      obtain ⟨p, lead, rfl, member, _⟩ := memKept.mp h
      simp [hasRowsCons, ih member]

theorem hasRowsEnds (earlier : List JoinSource) :
    (compose main earlier (ends main earlier)).hasRows = false := by
  induction earlier with
  | nil => simp [ends, hasRowsSingle]
  | cons j earlier ih => simp [ends, hasRowsCons, ih]

theorem hasRowsLastRound {x : Lead} (h : x ∈ lastRound main params earlier) :
    (compose main earlier x).hasRows = JoinRun.hasOuter earlier := by
  induction earlier generalizing x with
  | nil =>
      rw [lastRoundOfPlain rfl, List.mem_singleton] at h
      subst h
      exact hasRowsEnds []
  | cons j earlier ih =>
      cases keeps : j.kind.keepsUnmatchedJoin with
      | true =>
          obtain ⟨p, lead, rfl, member, place⟩ := (memLastRoundOfKeeping keeps).mp h
          rw [hasRowsCons, ih member]
          rcases place with orphan | ⟨_, outer, _⟩
          · simp [keeps, (memOrphans.mp orphan).1]
          · simp [outer]
      | false =>
          cases outer : JoinRun.hasOuter earlier with
          | true =>
              rw [lastRoundOfFollowing keeps outer] at h
              obtain ⟨p, lead, rfl, member, _⟩ := memKept.mp h
              simp [hasRowsCons, ih member, outer]
          | false =>
              rw [lastRoundOfLeading keeps outer, List.mem_singleton] at h
              subst h
              rw [hasOuterCons, keeps, outer]
              exact hasRowsEnds (j :: earlier)

end

end RelQuery.Relational
