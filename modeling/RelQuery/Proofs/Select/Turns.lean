import RelQuery.Proofs.Select.Filling

/-! Window fields in their turns. Each is evaluated over output rows in which it and the window fields after it
have no values yet, and is served what was computed in earlier turns. -/
namespace RelQuery

namespace Windows

/-- A field with the output rows as they are when its turn comes. -/
structure Turn where
  expr : Expr
  rows : List Output

/-- The values of fields that are evaluated one after another, with what was computed for those before. -/
def inTurn (w : Windows) : List Turn → Outcome (List (List Value))
  | [] => .ok []
  | t :: turns => do
      let (w, values) ← w.evalField t.expr t.rows
      return values :: (← w.inTurn turns)

/-- The values of a field that is evaluated alone. -/
def alone (w : Windows) (t : Turn) : Outcome (List Value) := (w.evalField t.expr t.rows).map (·.2)

/-- A call of some field, with the rows of its turn. -/
def Asks (turns : List Turn) (rows : List Output) (call : Expr) : Prop :=
  ∃ t ∈ turns, t.rows = rows ∧ call ∈ calls t.expr

/-- Calls of one text have one result, and specifications of one text have one frame, each over the rows of its
turn. -/
structure Unmistaken (w : Windows) (turns : List Turn) : Prop where
  calls : ∀ rows call rows' call', Asks turns rows call → Asks turns rows' call' → call.text = call'.text →
    w.own rows call = w.own rows' call'
  specs : ∀ rows call rows' call' spec spec', Asks turns rows call → Asks turns rows' call' →
    w.specOf call = .ok spec → w.specOf call' = .ok spec' → spec.text = spec'.text →
      WindowFrame.build spec rows w.params = WindowFrame.build spec' rows' w.params

/-- An evaluator whose caches hold frames and results that calls have of their own. -/
structure Truthful (w₀ : Windows) (turns : List Turn) (w : Windows) : Prop where
  definitions : w.definitions = w₀.definitions
  params : w.params = w₀.params
  frames : ∀ text f, w.frames.lookup text = some f → ∃ rows call spec, Asks turns rows call ∧
    w₀.specOf call = .ok spec ∧ spec.text = text ∧ WindowFrame.build spec rows w₀.params = .ok f
  results : ∀ text values, w.results.lookup text = some values → ∃ rows call, Asks turns rows call ∧
    call.text = text ∧ w₀.own rows call = .ok values

section
variable {w₀ w v : Windows} {turns : List Turn} {rows : List Output} {call : Expr} {values : Array Value}
  {spec : WindowSpec Expr} {f : WindowFrame}

theorem truthfulNew (definitions : List (String × WindowSpec Expr)) (params : List Value) (turns : List Turn) :
    Truthful (new definitions params) turns (new definitions params) := by
  refine ⟨rfl, rfl, fun _ _ stored => ?_, fun _ _ stored => ?_⟩ <;> cases stored

theorem storedCases {β : Type} {text text' : String} {b c : β} {entries : List (String × β)}
    (stored : ((text', b) :: entries).lookup text = some c) :
    text = text' ∧ c = b ∨ entries.lookup text = some c := by
  by_cases own : text = text'
  · rw [own, List.lookup_cons_self] at stored
    exact .inl ⟨own, (Option.some.inj stored).symm⟩
  · exact .inr ((lookupNew own).symm.trans stored)

theorem resultOwn (told : w₀.Unmistaken turns) (truthful : Truthful w₀ turns w) (asks : Asks turns rows call)
    (stored : w.results.lookup call.text = some values) : w₀.own rows call = .ok values := by
  obtain ⟨rows', call', asks', text, own⟩ := truthful.results _ _ stored
  rw [told.calls rows call rows' call' asks asks' text.symm, own]

theorem frameOwn (told : w₀.Unmistaken turns) (truthful : Truthful w₀ turns w) (asks : Asks turns rows call)
    (spelled : w₀.specOf call = .ok spec) (framed : w.frame spec rows = .ok (v, f)) :
    WindowFrame.build spec rows w₀.params = .ok f ∧ Truthful w₀ turns v := by
  unfold frame at framed
  split at framed
  · rename_i stored
    cases framed
    obtain ⟨rows', call', spec', asks', spelled', text, built⟩ := truthful.frames _ _ stored
    exact ⟨(told.specs _ _ _ _ _ _ asks asks' spelled spelled' text.symm).trans built, truthful⟩
  · obtain ⟨f, built, last⟩ := Outcome.bindOk.mp framed
    cases Outcome.pureOk.mp last
    rw [truthful.params] at built
    refine ⟨built, truthful.definitions, truthful.params, fun text g stored => ?_, truthful.results⟩
    rcases storedCases stored with ⟨rfl, rfl⟩ | before
    · exact ⟨rows, call, spec, asks, spelled, rfl, built⟩
    · exact truthful.frames text g before

theorem rememberTruthful (told : w₀.Unmistaken turns) (truthful : Truthful w₀ turns w)
    (asks : Asks turns rows call) (ok : remember rows w call = .ok v) : Truthful w₀ turns v := by
  cases met : w.results.lookup call.text with
  | some values =>
      rw [rememberMet met] at ok
      cases ok
      exact truthful
  | none =>
      rw [rememberNew met, specOfSame truthful.definitions] at ok
      obtain ⟨spec, spelled, ok⟩ := Outcome.bindOk.mp ok
      obtain ⟨⟨v, f⟩, framed, ok⟩ := Outcome.bindOk.mp ok
      obtain ⟨values, computed, last⟩ := Outcome.bindOk.mp ok
      cases Outcome.pureOk.mp last
      obtain ⟨built, kept⟩ := frameOwn told truthful asks spelled framed
      rw [valuesSame truthful.params] at computed
      have own : w₀.own rows call = .ok values :=
        Outcome.bindOk.mpr ⟨spec, spelled, Outcome.bindOk.mpr ⟨f, built, computed⟩⟩
      refine ⟨kept.definitions, kept.params, kept.frames, fun text others stored => ?_⟩
      rcases storedCases stored with ⟨rfl, rfl⟩ | before
      · exact ⟨rows, call, asks, rfl, own⟩
      · exact kept.results text others before

theorem rememberAllTruthful (told : w₀.Unmistaken turns) (truthful : Truthful w₀ turns w) {asked : List Expr}
    (asks : ∀ call ∈ asked, Asks turns rows call) (ok : asked.foldlM (remember rows) w = .ok v) :
    Truthful w₀ turns v := by
  induction asked generalizing w with
  | nil =>
      cases Outcome.pureOk.mp ok
      exact truthful
  | cons call asked ih =>
      obtain ⟨one, others⟩ := List.forall_mem_cons.mp asks
      rw [List.foldlM_cons] at ok
      obtain ⟨w, first, ok⟩ := Outcome.bindOk.mp ok
      exact ih (rememberTruthful told truthful one first) others ok

/-- What a field is made of its calls' own results. -/
def ownField (w : Windows) (t : Turn) : Outcome (List Value) := do
  let _ ← (calls t.expr).mapM (w.own t.rows)
  w.fieldWith t.rows (fun call => (w.own t.rows call).toOption) t.expr

theorem fieldInTurn (told : w₀.Unmistaken turns) (truthful : Truthful w₀ turns w) {t : Turn} (member : t ∈ turns)
    {column : List Value} (ok : w.evalField t.expr t.rows = .ok (v, column)) :
    Truthful w₀ turns v ∧ w₀.ownField t = .ok column := by
  obtain ⟨v, asked, ok⟩ := Outcome.bindOk.mp ok
  obtain ⟨column, computed, last⟩ := Outcome.bindOk.mp ok
  cases Outcome.pureOk.mp last
  have asks : ∀ call ∈ calls t.expr, Asks turns t.rows call := fun call inside => ⟨t, member, rfl, inside⟩
  have kept := rememberAllTruthful told truthful asks asked
  have met : ∀ call ∈ calls t.expr, ∃ values, v.results.lookup call.text = some values ∧
      w₀.own t.rows call = .ok values := by
    intro call inside
    obtain ⟨values, stored⟩ := Option.isSome_iff_exists.mp ((rememberAll asked).1 call inside)
    exact ⟨values, stored, resultOwn told kept (asks call inside) stored⟩
  have results : ∃ all, (calls t.expr).mapM (w₀.own t.rows) = .ok all :=
    Outcome.mapMTotal fun call inside => (met call inside).imp fun _ both => both.2
  obtain ⟨all, results⟩ := results
  refine ⟨kept, Outcome.bindOk.mpr ⟨all, results, ?_⟩⟩
  rw [← computed]
  unfold fieldWith
  refine congrArg (t.rows.zipIdx.mapM ·) (funext fun (o, row) => ?_)
  rw [kept.params]
  refine congrArg (· >>= _) (Expr.substituteAlike t.expr fun n inside => ?_)
  cases window : n.isWindow with
  | false => rfl
  | true =>
      obtain ⟨values, stored, own⟩ := met n (List.mem_filter.mpr ⟨inside, window⟩)
      simp only [if_true, result, stored, own]
      rfl

theorem specsListed {met : List Expr} (listed : spec ∈ w.specs met) : ∃ call ∈ met, w.specOf call = .ok spec := by
  obtain ⟨call, inside, spelled⟩ := List.mem_filterMap.mp listed
  refine ⟨call, inside, ?_⟩
  cases own : w.specOf call with
  | error e =>
      rw [own] at spelled
      cases spelled
  | ok spec =>
      rw [own] at spelled
      exact congrArg Except.ok (Option.some.inj spelled)

theorem distinguishedTurn (told : w.Unmistaken turns) {t : Turn} (member : t ∈ turns) :
    w.Distinguished t.rows (calls t.expr) := by
  have asks (call : Expr) (inside : call ∈ calls t.expr) : Asks turns t.rows call := ⟨t, member, rfl, inside⟩
  refine ⟨fun call inside other inside' text => told.calls _ _ _ _ (asks call inside) (asks other inside') text,
    fun spec listed other listed' text => ?_⟩
  obtain ⟨call, inside, spelled⟩ := specsListed listed
  obtain ⟨call', inside', spelled'⟩ := specsListed listed'
  exact told.specs _ _ _ _ _ _ (asks call inside) (asks call' inside') spelled spelled' text

end

section
variable {definitions : List (String × WindowSpec Expr)} {params : List Value} {turns : List Turn}

theorem aloneOwn (told : (new definitions params).Unmistaken turns) {t : Turn} (member : t ∈ turns)
    {column : List Value} (ok : (new definitions params).ownField t = .ok column) :
    (new definitions params).alone t = .ok column := by
  have start : Holds (new definitions params) t.rows [] (new definitions params) := holdsNew definitions params
  have none : (new definitions params).Known t.rows (calls t.expr) [] := nofun
  have served := fieldServed start t.expr
  have own := fieldOwn (distinguishedTurn told member) none (List.Subset.refl (calls t.expr))
  obtain ⟨_, after, _, rfl, _⟩ := Outcome.alikeOk (Outcome.alikeSymm own) ok
  obtain ⟨shared, evaluated, _, same⟩ := Outcome.alikeOk (Outcome.alikeSymm served) after
  exact Outcome.mapOk.mpr ⟨shared, evaluated, same⟩

/-- Where texts tell calls and specifications apart, fields have in their turns the values that they have alone. -/
theorem inTurnAlone (told : (new definitions params).Unmistaken turns) {columns : List (List Value)}
    (ok : (new definitions params).inTurn turns = .ok columns) :
    turns.mapM (new definitions params).alone = .ok columns := by
  have later {w : Windows} {rest : List Turn} (truthful : Truthful (new definitions params) turns w)
      (inside : rest ⊆ turns) {columns : List (List Value)} (ok : w.inTurn rest = .ok columns) :
      rest.mapM (new definitions params).alone = .ok columns := by
    induction rest generalizing w columns with
    | nil => exact ok
    | cons t rest ih =>
        obtain ⟨member, others⟩ := List.cons_subset.mp inside
        obtain ⟨⟨v, column⟩, evaluated, ok⟩ := Outcome.bindOk.mp ok
        obtain ⟨columns, turns, last⟩ := Outcome.bindOk.mp ok
        cases Outcome.pureOk.mp last
        obtain ⟨kept, own⟩ := fieldInTurn told truthful member evaluated
        rw [List.mapM_cons, aloneOwn told member own, ih kept others turns]
        rfl
  exact later (truthfulNew definitions params turns) (List.Subset.refl _) ok

end

end Windows

namespace Composition

/-- The composition with some of its slots emptied. -/
def emptied (places : List Nat) (c : Composition) : Composition :=
  { c with slots := c.slots.mapIdx fun i s => if i ∈ places then (s.1, .unset) else s }

variable {c : Composition} {places places' : List Nat} {i : Nat}

theorem emptiedSlot (places : List Nat) (c : Composition) (i : Nat) :
    (c.emptied places).slots[i]? = (c.slots[i]?).map fun s => if i ∈ places then (s.1, .unset) else s :=
  List.getElem?_mapIdx

theorem emptiedOther (other : i ∉ places) : (c.emptied places).slots[i]? = c.slots[i]? := by
  simp [emptiedSlot, other]

theorem emptiedPending (unset : ∀ i ∈ places, ∃ n, c.slots[i]? = some (n, .unset)) : c.emptied places = c := by
  have slots : (c.emptied places).slots = c.slots := by
    refine List.ext_getElem? fun i => ?_
    by_cases listed : i ∈ places
    · obtain ⟨n, pending⟩ := unset i listed
      simp [emptiedSlot, pending, listed]
    · exact emptiedOther listed
  exact congrArg (Composition.mk c.sources) slots

theorem emptiedSet (listed : i ∈ places) (v : Value) : (c.setSlot i v).emptied places = c.emptied places := by
  have slots : ((c.setSlot i v).emptied places).slots = (c.emptied places).slots := by
    refine List.ext_getElem? fun j => ?_
    rw [emptiedSlot, emptiedSlot, setSlot, List.getElem?_modify]
    by_cases same : i = j
    · subst same
      cases c.slots[i]? <;> simp [listed]
    · cases c.slots[j]? <;> simp [same]
  exact congrArg (Composition.mk c.sources) slots

theorem emptiedMore (more : places' ⊆ places) : (c.emptied places').emptied places = c.emptied places := by
  have slots : ((c.emptied places').emptied places).slots = (c.emptied places).slots := by
    refine List.ext_getElem? fun i => ?_
    rw [emptiedSlot, emptiedSlot, emptiedSlot]
    by_cases listed : i ∈ places'
    · cases c.slots[i]? <;> simp [listed, more listed]
    · cases c.slots[i]? <;> simp [listed]
  exact congrArg (Composition.mk c.sources) slots

theorem emptiedKeeps (places : List Nat) (c : Composition) : (c.emptied places).Keeps c := by
  refine ⟨rfl, fun name v read => ?_⟩
  unfold slot? at read ⊢
  -- some slots are the same, and the others answer nothing
  have each : List.Forall₂ (fun s t : String × Slot => s = t ∨ s = (t.1, .unset)) (c.emptied places).slots c.slots := by
    refine List.forall₂_iff_get.mpr ⟨by simp [emptied], fun i inside inside' => ?_⟩
    simp only [emptied, List.get_eq_getElem, List.getElem_mapIdx]
    split
    · exact .inr rfl
    · exact .inl rfl
  generalize (c.emptied places).slots = emptied at each read
  generalize c.slots = slots at each
  induction each with
  | nil => exact read
  | @cons s t _ _ one _ ih =>
      rw [List.lookup_cons] at read ⊢
      rcases one with rfl | rfl
      · cases own : name == s.1 with
        | true =>
            rw [own] at read
            exact read
        | false =>
            rw [own] at read
            exact ih read
      · cases own : name == t.1 with
        | true =>
            rw [own] at read
            cases read
        | false =>
            rw [own] at read
            exact ih read

end Composition

namespace Output

/-- The output row without the values of some fields. -/
def emptied (places : List Nat) (o : Output) : Output := { o with row := o.row.emptied places }

variable {outputs : List Output} {places places' : List Nat}

theorem emptiedPending (unset : ∀ i ∈ places, ∀ o ∈ outputs, ∃ n, o.row.slots[i]? = some (n, .unset)) :
    outputs.map (emptied places) = outputs := by
  refine (List.map_congr_left fun o listed => ?_).trans (List.map_id outputs)
  exact congrArg (Output.mk · o.members) (Composition.emptiedPending fun i place => unset i place o listed)

theorem emptiedMore (more : places' ⊆ places) :
    (outputs.map (emptied places')).map (emptied places) = outputs.map (emptied places) := by
  rw [List.map_map]
  refine List.map_congr_left fun o _ => ?_
  exact congrArg (Output.mk · o.members) (Composition.emptiedMore more)

end Output

/-- Filling a slot changes nothing about the rows without it. -/
theorem Windows.filledEmptied {i : Nat} {outputs filled : List Output} {places : List Nat}
    (each : List.Forall₂ (Filled i) outputs filled) (listed : i ∈ places) :
    filled.map (Output.emptied places) = outputs.map (Output.emptied places) := by
  rw [← List.forall₂_eq_eq_eq, List.forall₂_map_left_iff, List.forall₂_map_right_iff]
  refine each.flip.imp fun p o one => ?_
  obtain ⟨_, v, rfl⟩ := one
  exact congrArg (Output.mk · o.members) (Composition.emptiedSet listed v)

end RelQuery
