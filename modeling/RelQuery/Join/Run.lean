import RelQuery.Join.Candidate

/-! A running join. Its cursors turn like the wheels of a counter: the first join is the fastest and
the main source the slowest, and every wheel has one place more than its source has rows. A RIGHT or
FULL join adds one turn of the others with the main cursor past its end. The number of steps that are
left bounds every loop over the compositions. -/
namespace RelQuery

structure JoinRun where
  main : OpenSource
  joins : List JoinSource
  records : List MatchRecord
  condition : Option Expr
  params : List Value
  finished : Bool

namespace JoinRun

def hasOuter (joins : List JoinSource) : Bool := joins.any (·.kind.keepsUnmatchedJoin)

def firstRepeated : List String → List String → Option String
  | _, [] => none
  | seen, name :: names => if seen.contains name then some name else firstRepeated (name :: seen) names

def openJoin (evaluate : Source → Outcome Relation) (j : Join) : Outcome JoinSource := do
  return ⟨.start j.source.name j.hidden (← evaluate j.source), j.kind, j.condition⟩

/-- Evaluates the sources of a join and places every cursor on its first row. -/
def start (evaluate : Source → Outcome Relation) (main : Source) (joins : List Join)
    (condition : Option Expr) (params : List Value) : Outcome JoinRun :=
  match firstRepeated [] (main.name :: joins.map (·.source.name)) with
  | some name => .refuse (.repeatedAlias name)
  | none => do
      let mainSource := OpenSource.start main.name false (← evaluate main)
      let joinSources ← joins.mapM (openJoin evaluate)
      return {
        main := mainSource
        joins := joinSources
        records := joinSources.map fun _ => .none
        condition := condition
        params := params
        finished := mainSource.cursor.atEnd && !hasOuter joinSources }

/-- The composition at the current positions, with the matches that it added. -/
def candidate (r : JoinRun) : List MatchRecord × Outcome (Option Composition) :=
  let row := r.main.cursor.fetch
  JoinSource.extendAll r.main.name r.params row.isNone r.joins r.records (hasOuter r.joins)
    [r.main.cursor.position] (r.main.pushInto .empty row)

def moveCursor (f : Cursor → Cursor) (j : JoinSource) : JoinSource :=
  { j with source := { j.source with cursor := f j.source.cursor } }

/-- Turns the wheels of the joins by one, and tells whether the last one came round. -/
def turn : List JoinSource → List JoinSource × Bool
  | [] => ([], true)
  | j :: js =>
      if j.source.cursor.atEnd then
        let (js', carried) := turn js
        (moveCursor Cursor.rewind j :: js', carried)
      else (moveCursor Cursor.next j :: js, false)

def advance (r : JoinRun) : JoinRun :=
  let (joins, carried) := turn r.joins
  if !carried then { r with joins := joins }
  else if r.main.cursor.atEnd then { r with joins := joins, finished := true }
  else
    let cursor := r.main.cursor.next
    { r with
      joins := joins
      main := { r.main with cursor := cursor }
      finished := cursor.atEnd && !hasOuter joins }

def passesCondition (r : JoinRun) (c : Composition) : Outcome Bool :=
  match r.condition with
  | none => .ok true
  | some e => passes e c r.params

/-- Looks at the current positions and moves on. A failure of a join condition does not move. -/
def step (r : JoinRun) : JoinRun × Outcome (Option Composition) :=
  let (records, o) := r.candidate
  let r := { r with records := records }
  match o with
  | .error e => (r, .error e)
  | .ok none => (r.advance, .ok none)
  | .ok (some c) => (r.advance, (r.passesCondition c).map fun b => if b then some c else none)

/-! The steps that are left -/

/-- The places that a cursor has still to visit in its turn. -/
def placesLeft (c : Cursor) : Nat := c.rows.size - c.position

/-- The number of positions that the joins' cursors have together. -/
def places : List JoinSource → Nat
  | [] => 1
  | j :: js => (j.source.cursor.rows.size + 1) * places js

def turnsLeft : List JoinSource → Nat
  | [] => 0
  | j :: js => placesLeft j.source.cursor + (j.source.cursor.rows.size + 1) * turnsLeft js

def remaining (r : JoinRun) : Nat :=
  if r.finished then 0 else placesLeft r.main.cursor * places r.joins + turnsLeft r.joins + 1

theorem placesLeftAtEnd {c : Cursor} (h : c.atEnd = true) : placesLeft c = 0 := by
  simp only [Cursor.atEnd, decide_eq_true_eq] at h
  exact Nat.sub_eq_zero_of_le h

theorem placesLeftNext {c : Cursor} (h : c.atEnd = false) :
    placesLeft c.next + 1 = placesLeft c ∧ c.next.rows = c.rows := by
  simp only [Cursor.atEnd, decide_eq_false_iff_not, Nat.not_le] at h
  refine ⟨?_, ?_⟩ <;> simp only [Cursor.next, h, ↓reduceDIte, placesLeft]
  omega

/-- A turn keeps the number of places, and takes one off those left or starts a new round. -/
theorem turnLeft (joins : List JoinSource) :
    places (turn joins).1 = places joins ∧
      ((turn joins).2 = false → turnsLeft (turn joins).1 + 1 = turnsLeft joins) ∧
      ((turn joins).2 = true → turnsLeft (turn joins).1 + 1 = places joins) := by
  induction joins with
  | nil => simp [turn, places, turnsLeft]
  | cons j js ih =>
      obtain ⟨same, stay, round⟩ := ih
      cases ends : j.source.cursor.atEnd with
      | false =>
          obtain ⟨left, rows⟩ := placesLeftNext ends
          simp only [turn, ends, Bool.false_eq_true, ↓reduceIte, places, turnsLeft, moveCursor, rows,
            false_implies, and_true, true_and, forall_const]
          omega
      | true =>
          have left := placesLeftAtEnd ends
          simp only [turn, ends, ↓reduceIte, places, turnsLeft, moveCursor, Cursor.rewind, same,
            placesLeft, Nat.sub_zero, true_and]
          simp only [placesLeft] at left
          refine ⟨fun h => ?_, fun h => ?_⟩
          · rw [← stay h, Nat.mul_succ]
            omega
          · rw [← round h, Nat.mul_succ]
            omega

/-- Every step of a run that is not finished takes one off the steps that are left. -/
theorem remainingAdvance (r : JoinRun) (h : r.finished = false) :
    r.advance.remaining < r.remaining := by
  obtain ⟨same, stay, round⟩ := turnLeft r.joins
  cases carried : (turn r.joins).2 with
  | false =>
      have one := stay carried
      simp only [advance, carried, remaining, h, Bool.not_false, ↓reduceIte, same,
        Bool.false_eq_true]
      omega
  | true =>
      cases ends : r.main.cursor.atEnd with
      | true => simp [advance, carried, remaining, h, ends]
      | false =>
          have one := round carried
          obtain ⟨left, _⟩ := placesLeftNext ends
          simp only [advance, carried, remaining, h, ends, Bool.not_true, Bool.false_eq_true,
            ↓reduceIte, same]
          split
          · omega
          · rw [← left, Nat.succ_mul]
            omega

theorem remainingStep {r r' : JoinRun} {c : Option Composition} (h : r.finished = false)
    (stepped : r.step = (r', .ok c)) : r'.remaining < r.remaining := by
  have moved (records : List MatchRecord) :
      (advance { r with records := records }).remaining < r.remaining :=
    remainingAdvance { r with records := records } h
  simp only [step] at stepped
  split at stepped
  · simp at stepped
  · simp only [Prod.mk.injEq] at stepped
    exact stepped.1 ▸ moved _
  · simp only [Prod.mk.injEq] at stepped
    exact stepped.1 ▸ moved _

/-! Reading compositions -/

/-- The next composition that satisfies the joins and the condition. -/
def fetch (r : JoinRun) : JoinRun × Outcome (Option Composition) :=
  if _ : r.finished then (r, .ok none)
  else
    match _ : r.step with
    | (r', .ok none) => fetch r'
    | (r', o) => (r', o)
  termination_by r.remaining
  decreasing_by exact remainingStep (Bool.eq_false_iff.mpr ‹_›) ‹_›

/-- Passes every further composition to a function, in order, up to the first failure of either. -/
def fold {σ : Type} (f : σ → Composition → Outcome σ) (s : σ) (r : JoinRun) : JoinRun × Outcome σ :=
  if _ : r.finished then (r, .ok s)
  else
    match _ : r.step with
    | (r', .error e) => (r', .error e)
    | (r', .ok none) => fold f s r'
    | (r', .ok (some c)) =>
        match f s c with
        | .error e => (r', .error e)
        | .ok s' => fold f s' r'
  termination_by r.remaining
  decreasing_by all_goals exact remainingStep (Bool.eq_false_iff.mpr ‹_›) ‹_›

/-- Every further composition. -/
def collect (r : JoinRun) : JoinRun × Outcome (List Composition) :=
  let (r, cs) := r.fold (fun (cs : Array Composition) c => .ok (cs.push c)) #[]
  (r, cs.map Array.toList)

/-! Sources by name -/

def sources (r : JoinRun) : List OpenSource := r.main :: r.joins.map (·.source)

def source? (r : JoinRun) (name : String) : Option OpenSource := r.sources.find? (·.name == name)

/-- A composition of empty sub-rows. -/
def emptyComposition (r : JoinRun) : Composition :=
  r.sources.foldl (fun c s => s.pushInto c none) .empty

end JoinRun

end RelQuery
