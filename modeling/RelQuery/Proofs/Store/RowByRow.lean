import RelQuery.Proofs.Store.Reachable
import Mathlib.Data.List.ReduceOption

/-! Batches of additions row by row. A batch does what its rows do one after another, each in a call of its
own, so it can be divided anywhere. It answers the key of each row that it wrote, in the order of the rows. -/
namespace RelQuery.TableStore

variable {σ : Type} {s s' : TableStore} {state state' : σ} {positions : List Nat} {columns : List String}
  {handler : Option (DuplicateHandler σ)} {given : List Value} {rows first second : List (List Value)}
  {keys : List Key} {p p' : Progress σ}

namespace Progress

/-- A batch before its first row. -/
def begun (s : TableStore) (state : σ) : Progress σ := ⟨s, state, [], #[]⟩

/-- What a batch comes to if another one has gone before it. -/
def resumed (earlier p : Progress σ) : Progress σ :=
  { p with undo := p.undo ++ earlier.undo, keys := earlier.keys ++ p.keys }

def resuming (earlier : Progress σ) :
    Except (Error × Progress σ) (Progress σ) → Except (Error × Progress σ) (Progress σ)
  | .ok p => .ok (earlier.resumed p)
  | .error (e, p) => .error (e, earlier.resumed p)

theorem resumedBegun (p : Progress σ) : p.resumed (begun p.store p.handlerState) = p := by
  simp [resumed, begun]

theorem resumedAdded (earlier p : Progress σ) (values : List Value) :
    (earlier.resumed p).added values = earlier.resumed (p.added values) := by
  simp [resumed, added]

theorem resumedSettled (earlier p : Progress σ) (id : Nat) (action : DuplicateAction) :
    (earlier.resumed p).settled id action = earlier.resuming (p.settled id action) := by
  cases action with
  | ignore => rfl
  | update values =>
      have store : (earlier.resumed p).store = p.store := rfl
      simp only [settled, store]
      cases p.store.replace (.new id values) with
      | error e => rfl
      | ok result => simp [resumed, resuming]

theorem resumedStored (earlier p : Progress σ) (values : List Value) :
    (earlier.resumed p).stored handler values = earlier.resuming (p.stored handler values) := by
  have store : (earlier.resumed p).store = p.store := rfl
  have state : (earlier.resumed p).handlerState = p.handlerState := rfl
  simp only [stored, store, state]
  cases p.store.conflict? values none with
  | none => exact congrArg Except.ok (resumedAdded earlier p values)
  | some clash =>
      obtain ⟨_, id⟩ := clash
      dsimp only
      cases p.store.row? id with
      | none => cases handler <;> rfl
      | some existing =>
          cases handler with
          | none => rfl
          | some decide =>
              dsimp only
              obtain ⟨_ | action, state⟩ := decide existing (.dummy values) p.handlerState
              · rfl
              · exact resumedSettled earlier { p with handlerState := state } id action

theorem resumedRow (earlier p : Progress σ) (given : List Value) :
    addRow positions handler (earlier.resumed p) given =
      earlier.resuming (addRow positions handler p given) := by
  have store : (earlier.resumed p).store = p.store := rfl
  simp only [addRow, store]
  split
  · rfl
  · cases p.store.assignAuto (p.store.layout positions given) with
    | error e => rfl
    | ok assigned =>
        obtain ⟨counted, values⟩ := assigned
        dsimp only
        cases counted.checkNotNull values with
        | error e => rfl
        | ok complete => exact resumedStored earlier { p with store := counted } values

theorem resumedRows (earlier p : Progress σ) (rows : List (List Value)) :
    rows.foldlM (addRow positions handler) (earlier.resumed p) =
      earlier.resuming (rows.foldlM (addRow positions handler) p) := by
  induction rows generalizing p with
  | nil => rfl
  | cons given rows ih =>
      simp only [List.foldlM_cons, resumedRow]
      cases addRow positions handler p given with
      | error failure => rfl
      | ok next => exact ih next

theorem resumingOk {earlier : Progress σ} {result : Except (Error × Progress σ) (Progress σ)} :
    earlier.resuming result = .ok p ↔ ∃ p', result = .ok p' ∧ earlier.resumed p' = p := by
  cases result <;> simp [resuming]

theorem rowsAppend : (first ++ second).foldlM (addRow positions handler) (begun s state) = .ok p ↔
    ∃ middle rest, first.foldlM (addRow positions handler) (begun s state) = .ok middle ∧
      second.foldlM (addRow positions handler) (begun middle.store middle.handlerState) = .ok rest ∧
        middle.resumed rest = p := by
  rw [List.foldlM_append]
  cases first.foldlM (addRow positions handler) (begun s state) with
  | error e => simp [bind, Except.bind]
  | ok middle =>
      have rest : second.foldlM (addRow positions handler) middle = middle.resuming
          (second.foldlM (addRow positions handler) (begun middle.store middle.handlerState)) := by
        rw [← resumedRows, resumedBegun]
      simp [bind, Except.bind, rest, resumingOk]

theorem rowsPositioned (ok : rows.foldlM (addRow positions handler) p = .ok p') :
    columns.mapM p'.store.position = columns.mapM p.store.position := by
  have kept : Writes p.store p'.store :=
    addRowsKept (I := fun q => Writes p.store q.store) .refl
      (fun _ _ _ _ _ _ _ added writes => writes.trans (addRowWrites added)) ok
  have same : p'.store.position = p.store.position := by
    funext name
    simp only [position, writesSchema kept]
  rw [same]

end Progress

open Progress (begun rowsAppend rowsPositioned)

/-! A batch in two parts -/

theorem addAllOk : s.addAll rows columns handler state = ⟨s', state', .ok keys⟩ ↔ ∃ positions p,
    columns.mapM s.position = .ok positions ∧
      rows.foldlM (Progress.addRow positions handler) (begun s state) = .ok p ∧
        p.store = s' ∧ p.handlerState = state' ∧ p.keys.toList = keys := by
  simp only [addAll, begun]
  cases columns.mapM s.position with
  | error e => simp
  | ok positions =>
      simp only [Except.ok.injEq, exists_and_left, exists_eq_left']
      cases rows.foldlM (Progress.addRow positions handler) ⟨s, state, [], #[]⟩ <;> simp

/-- A batch succeeds exactly if its two parts do so in turn, each in a call of its own. -/
theorem addAllAppend : s.addAll (first ++ second) columns handler state = ⟨s', state', .ok keys⟩ ↔
    ∃ middle between keys₁ keys₂, s.addAll first columns handler state = ⟨middle, between, .ok keys₁⟩ ∧
      middle.addAll second columns handler between = ⟨s', state', .ok keys₂⟩ ∧ keys₁ ++ keys₂ = keys := by
  constructor
  · intro ok
    obtain ⟨positions, p, listed, ran, rfl, rfl, rfl⟩ := addAllOk.mp ok
    obtain ⟨middle, rest, front, back, rfl⟩ := rowsAppend.mp ran
    have listed' : columns.mapM middle.store.position = .ok positions := (rowsPositioned front).trans listed
    exact ⟨_, _, _, _, addAllOk.mpr ⟨positions, middle, listed, front, rfl, rfl, rfl⟩,
      addAllOk.mpr ⟨positions, rest, listed', back, rfl, rfl, rfl⟩, Array.toList_append.symm⟩
  · rintro ⟨_, _, _, _, ok, ok', rfl⟩
    obtain ⟨positions, middle, listed, front, rfl, rfl, rfl⟩ := addAllOk.mp ok
    obtain ⟨positions', rest, listed', back, rfl, rfl, rfl⟩ := addAllOk.mp ok'
    cases listed'.symm.trans ((rowsPositioned front).trans listed)
    exact addAllOk.mpr ⟨positions, _, listed, rowsAppend.mpr ⟨middle, rest, front, back, rfl⟩, rfl, rfl,
      Array.toList_append⟩

/-! The rows of a batch -/

/-- A row whose key is taken, and what the handler says about it. -/
inductive Asked (s : TableStore) (columns : List String) (handler : Option (DuplicateHandler σ)) (state : σ)
    (given : List Value) : Outcome DuplicateAction → Prop where
  | taken {positions : List Nat} {counted : TableStore} {values : List Value} {ix : UniqueIndex} {id : Nat}
      {existing : Row} {decide : DuplicateHandler σ} (listed : columns.mapM s.position = .ok positions)
      (assigned : s.assignAuto (s.layout positions given) = .ok (counted, values))
      (clash : counted.conflict? values none = some (ix, id)) (there : counted.row? id = some existing)
      (handled : handler = some decide) :
      Asked s columns handler state given (decide existing (.dummy values) state).1

/-- What a row does in a call of its own. It answers the key of the row that it wrote, or nothing if the
handler has it ignored. -/
structure Answered (s : TableStore) (columns : List String) (handler : Option (DuplicateHandler σ)) (state : σ)
    (given : List Value) (answer : Option Key) (s' : TableStore) (state' : σ) : Prop where
  single : s.addAll [given] columns handler state = ⟨s', state', .ok answer.toList⟩
  ignored : answer = none ↔ Asked s columns handler state given (.ok .ignore)
  written : ∀ key ∈ answer, ∃ id r, s'.row? id = some r ∧ s'.keyOf r = key

inductive RowByRow (columns : List String) (handler : Option (DuplicateHandler σ)) :
    TableStore → σ → List (List Value) → List (Option Key) → TableStore → σ → Prop where
  | done {s : TableStore} {state : σ} : RowByRow columns handler s state [] [] s state
  | row {s s' s'' : TableStore} {state state' state'' : σ} {given : List Value} {answer : Option Key}
      {rows : List (List Value)} {answers : List (Option Key)}
      (first : Answered s columns handler state given answer s' state')
      (rest : RowByRow columns handler s' state' rows answers s'' state'') :
      RowByRow columns handler s state (given :: rows) (answer :: answers) s'' state''

theorem settledOk {id : Nat} {action : DuplicateAction} : p.settled id action = .ok p' ↔
    action = .ignore ∧ p = p' ∨ ∃ values store fresh old, action = .update values ∧
      p.store.replace (.new id values) = .ok (store, fresh, old) ∧
        { p with store := store, undo := .replaced old :: p.undo, keys := p.keys.push (store.keyOf fresh) } =
          p' := by
  cases action with
  | ignore => simp [Progress.settled]
  | update values =>
      simp only [Progress.settled]
      cases replaced : p.store.replace (.new id values) with
      | error e => simp [replaced]
      | ok result => simp [replaced, Prod.ext_iff]

theorem storedOk {values : List Value} : p.stored handler values = .ok p' ↔
    p.store.conflict? values none = none ∧ p.added values = p' ∨
      ∃ ix id existing decide action, p.store.conflict? values none = some (ix, id) ∧
        p.store.row? id = some existing ∧ handler = some decide ∧
          (decide existing (.dummy values) p.handlerState).1 = .ok action ∧
            { p with handlerState := (decide existing (.dummy values) p.handlerState).2 }.settled id action =
              .ok p' := by
  simp only [Progress.stored]
  cases p.store.conflict? values none with
  | none => simp
  | some clash =>
      obtain ⟨ix, id⟩ := clash
      cases there : p.store.row? id with
      | none => cases handler <;> simp [there]
      | some existing =>
          cases handler with
          | none => simp
          | some decide =>
              cases decided : (decide existing (.dummy values) p.handlerState).1 <;> simp [there, decided]

theorem addRowOk : Progress.addRow positions handler p given = .ok p' ↔ given.length = positions.length ∧
    ∃ counted values, p.store.assignAuto (p.store.layout positions given) = .ok (counted, values) ∧
      counted.checkNotNull values = .ok () ∧ { p with store := counted }.stored handler values = .ok p' := by
  simp only [Progress.addRow]
  split
  · simp_all
  · cases p.store.assignAuto (p.store.layout positions given) with
    | error e => simp
    | ok assigned =>
        obtain ⟨counted, values⟩ := assigned
        cases complete : counted.checkNotNull values <;> simp_all

theorem askedTaken {counted : TableStore} {values : List Value} {answer : Outcome DuplicateAction}
    (listed : columns.mapM s.position = .ok positions)
    (assigned : s.assignAuto (s.layout positions given) = .ok (counted, values)) :
    Asked s columns handler state given answer ↔ ∃ ix id existing decide,
      counted.conflict? values none = some (ix, id) ∧ counted.row? id = some existing ∧
        handler = some decide ∧ (decide existing (.dummy values) state).1 = answer := by
  constructor
  · rintro ⟨listed', assigned', clash, there, handled⟩
    cases listed.symm.trans listed'
    cases assigned.symm.trans assigned'
    exact ⟨_, _, _, _, clash, there, handled, rfl⟩
  · rintro ⟨ix, id, existing, decide, clash, there, handled, rfl⟩
    exact .taken listed assigned clash there handled

theorem addAllAnswered (ok : s.addAll [given] columns handler state = ⟨s', state', .ok keys⟩) :
    ∃ answer, Answered s columns handler state given answer s' state' ∧ answer.toList = keys := by
  obtain ⟨positions, p, listed, ran, rfl, rfl, rfl⟩ := addAllOk.mp ok
  have row : Progress.addRow positions handler (begun s state) given = .ok p := by
    simpa only [List.foldlM_cons, List.foldlM_nil, bind_pure] using ran
  obtain ⟨_, counted, values, assigned, _, kept⟩ := addRowOk.mp row
  have asked {answer} : Asked s columns handler state given answer ↔ _ := askedTaken listed assigned
  rcases storedOk.mp kept with ⟨free, rfl⟩ | ⟨ix, id, existing, decide, action, clash, there, rfl, decided, rest⟩
  · refine ⟨some _, ⟨ok, by simp [asked, free], fun key written => ?_⟩, rfl⟩
    cases written
    exact ⟨_, _, by rw [Progress.added, rowInserted, if_pos rfl], rfl⟩
  · rcases settledOk.mp rest with ⟨rfl, rfl⟩ | ⟨updated, store, fresh, old, rfl, replaced, rfl⟩
    · have ignored := asked.mpr ⟨ix, id, existing, decide, clash, there, rfl, decided⟩
      exact ⟨none, ⟨ok, by simp [ignored], by simp⟩, rfl⟩
    · refine ⟨some _, ⟨ok, ?_, fun key written => ?_⟩, rfl⟩
      · simp only [begun] at clash there decided
        simp [asked, clash, there, decided]
      · cases written
        exact ⟨_, _, by rw [rowReplaced replaced, if_pos rfl], rfl⟩

theorem addAllRowByRow (ok : s.addAll rows columns handler state = ⟨s', state', .ok keys⟩) :
    ∃ answers, RowByRow columns handler s state rows answers s' state' ∧ answers.reduceOption = keys := by
  induction rows generalizing s state keys with
  | nil =>
      obtain ⟨_, _, _, ran, rfl, rfl, rfl⟩ := addAllOk.mp ok
      cases ran
      exact ⟨[], .done, rfl⟩
  | cons given rows ih =>
      obtain ⟨middle, between, own, others, first, rest, rfl⟩ := addAllAppend.mp (List.singleton_append ▸ ok)
      obtain ⟨answer, answered, rfl⟩ := addAllAnswered first
      obtain ⟨answers, rowByRow, rfl⟩ := ih rest
      refine ⟨answer :: answers, .row answered rowByRow, ?_⟩
      cases answer with
      | none => simp [List.reduceOption_cons_of_none]
      | some key => simp [List.reduceOption_cons_of_some]

theorem addAllSucceeded (ok : (s.addAll rows columns handler state).keys = .ok keys) :
    s.addAll rows columns handler state = ⟨(s.addAll rows columns handler state).store,
      (s.addAll rows columns handler state).handlerState, .ok keys⟩ := by
  rw [← ok]

/-- A batch succeeds exactly if its two parts do so one after the other. Then it leaves the same table and the
same handler, and answers the keys of the first part and those of the second, one for each row that is not
ignored. -/
theorem addAllDivides (s : TableStore) (first second : List (List Value)) (columns : List String)
    (handler : Option (DuplicateHandler σ)) (state : σ) :
    let one := s.addAll first columns handler state
    let two := one.store.addAll second columns handler one.handlerState
    let both := s.addAll (first ++ second) columns handler state
    ((∃ keys, both.keys = .ok keys) ↔ (∃ keys, one.keys = .ok keys) ∧ ∃ keys, two.keys = .ok keys) ∧
      ∀ keys keys', one.keys = .ok keys → two.keys = .ok keys' →
        both = ⟨two.store, two.handlerState, .ok (keys ++ keys')⟩ ∧
          ∃ answers, RowByRow columns handler s state (first ++ second) answers both.store both.handlerState ∧
            answers.reduceOption = keys ++ keys' := by
  intro one two both
  have joined {keys keys'} (ok : one.keys = .ok keys) (ok' : two.keys = .ok keys') :
      both = ⟨two.store, two.handlerState, .ok (keys ++ keys')⟩ :=
    addAllAppend.mpr ⟨_, _, _, _, addAllSucceeded ok, addAllSucceeded ok', rfl⟩
  refine ⟨⟨?_, ?_⟩, fun keys keys' ok ok' => ⟨joined ok ok', ?_⟩⟩
  · rintro ⟨keys, ok⟩
    obtain ⟨middle, between, own, others, front, back, rfl⟩ := addAllAppend.mp (addAllSucceeded ok)
    have earlier : one = ⟨middle, between, .ok own⟩ := front
    refine ⟨⟨own, by rw [earlier]⟩, others, ?_⟩
    simp only [two, earlier, back]
  · rintro ⟨⟨keys, ok⟩, keys', ok'⟩
    exact ⟨keys ++ keys', by rw [joined ok ok']⟩
  · rw [joined ok ok']
    exact addAllRowByRow (joined ok ok')

/-- A handler that lets every other row replace the one that has its key, beginning with the first. -/
def everyOther : DuplicateHandler Bool := fun _ given replaces =>
  (.ok (if replaces then .update given.values else .ignore), !replaces)

theorem takenDivides :
    let given := [[.int 1, .int 11], [.int 3, .int 12]]
    let given' := [[.int 3, .int 13], [.null, .int 14]]
    let both := taken.addAll (given ++ given') ["id", "seat"] (some everyOther) true
    both.keys = .ok [[.int 1], [.int 3], [.int 4]] ∧
      ∃ answers, RowByRow ["id", "seat"] (some everyOther) taken true (given ++ given') answers both.store
          both.handlerState ∧ answers.reduceOption = [[.int 1], [.int 3], [.int 4]] := by
  intro given given' both
  obtain ⟨_, divided⟩ := addAllDivides taken given given' ["id", "seat"] (some everyOther) true
  obtain ⟨same, rowByRow⟩ := divided [[.int 1], [.int 3]] [[.int 4]] (by decide +kernel) (by decide +kernel)
  exact ⟨congrArg Added.keys same, rowByRow⟩

end RelQuery.TableStore
