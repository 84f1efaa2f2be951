import RelQuery.Proofs.Expr.Substitution
import RelQuery.Proofs.Select.Slots

/-! Window calls that share an evaluator. Its caches are keyed by text, so a call gets what the earliest call
of its text computes, over the frame of the earliest specification of the same text. That is what the call
computes on its own as long as equal texts stand for calls and for frames that are equal. -/
namespace RelQuery

namespace Windows

/-- The specification that a call is computed over. Neither it nor the argument contains windows. -/
def specOf (w : Windows) : Expr → Outcome (WindowSpec Expr)
  | .aggregate func arg distinct (some frame) =>
      if arg.any Expr.hasWindow then
        .refuse (.windowInCall (Expr.aggregate func arg distinct (some frame)).text)
      else do
        let spec ← w.resolve frame
        if spec.exprs.any Expr.hasWindow then .refuse (.windowInSpec spec.text) else return spec
  | _ => .error (.invalidOperation .notWindow)

/-- The values of a call over a frame. -/
def valuesOver (w : Windows) (outputs : List Output) (f : WindowFrame) : Expr → Outcome (Array Value)
  | .aggregate func arg distinct _ => do
      let args ← outputs.mapM (w.argument arg)
      f.compute func distinct args.toArray
  | _ => .error (.invalidOperation .notWindow)

/-- What a call computes on its own. -/
def own (w : Windows) (outputs : List Output) (call : Expr) : Outcome (Array Value) := do
  let spec ← w.specOf call
  let f ← WindowFrame.build spec outputs w.params
  w.valuesOver outputs f call

/-! Earliest calls -/

def specs (w : Windows) (met : List Expr) : List (WindowSpec Expr) :=
  met.filterMap fun call => (w.specOf call).toOption

def earliest (w : Windows) (met : List Expr) (spec : WindowSpec Expr) : WindowSpec Expr :=
  ((w.specs met).find? (·.text == spec.text)).getD spec

/-- What a call computes over the frame of the earliest specification of its text. -/
def among (w : Windows) (outputs : List Output) (met : List Expr) (call : Expr) :
    Outcome (Array Value) := do
  let spec ← w.specOf call
  let f ← WindowFrame.build (w.earliest met spec) outputs w.params
  w.valuesOver outputs f call

def served (w : Windows) (outputs : List Output) (met : List Expr) (text : String) : Option (Array Value) :=
  (met.find? (·.text == text)).bind fun call => (w.among outputs met call).toOption

/-- Meets a call, which has to have values. -/
def ask (w : Windows) (outputs : List Output) (met : List Expr) (call : Expr) : Outcome (List Expr) :=
  if met.any (·.text == call.text) then .ok met
  else do
    let _ ← w.among outputs (met ++ [call]) call
    return met ++ [call]

def calls (e : Expr) : List Expr := e.nodes.filter Expr.isWindow

/-- The values of a field, given those of its calls. -/
def fieldWith (w : Windows) (outputs : List Output) (values : Expr → Option (Array Value)) (e : Expr) :
    Outcome (List Value) :=
  outputs.zipIdx.mapM fun (o, row) => do
    let e ← e.substituteM fun call =>
      if call.isWindow then
        some (match (values call).bind (·[row]?) with
          | some v => .ok (.literal v)
          | none => .error (.invalidOperation .missingResult))
      else none
    e.eval (o.scope w.params)

theorem computeCallEq (w : Windows) (call : Expr) (outputs : List Output) :
    w.computeCall call outputs = (do
      let spec ← w.specOf call
      let (w', f) ← w.frame spec outputs
      let values ← w.valuesOver outputs f call
      return (w', values)) := by
  cases call with
  | aggregate func arg distinct frame =>
      cases frame with
      | none => rfl
      | some frame =>
          simp only [computeCall, specOf]
          split
          · rfl
          · rw [bind_assoc]
            refine bind_congr fun spec => ?_
            split
            · rfl
            · rw [pure_bind]
              unfold Windows.frame
              split
              · simp only [valuesOver, bind_assoc]
                rfl
              · cases WindowFrame.build spec outputs w.params with
                | error e => rfl
                | ok f =>
                    simp only [valuesOver, bind_assoc]
                    rfl
  | _ => rfl

/-! The caches -/

section
variable {w₀ w w' : Windows} {outputs : List Output} {met : List Expr} {call : Expr}

/-- The caches of an evaluator that has met some calls: one frame for each text of a specification, and one
result for each text of a call. -/
structure Holds (w₀ : Windows) (outputs : List Output) (met : List Expr) (w : Windows) : Prop where
  definitions : w.definitions = w₀.definitions
  params : w.params = w₀.params
  frames : ∀ text, (w.frames.lookup text).map Except.ok =
    ((w₀.specs met).find? (·.text == text)).map fun spec => WindowFrame.build spec outputs w₀.params
  results : ∀ text, (w.results.lookup text).map Except.ok =
    (met.find? (·.text == text)).map (w₀.among outputs met)

theorem holdsNew (definitions : List (String × WindowSpec Expr)) (params : List Value) :
    Holds (new definitions params) outputs [] (new definitions params) :=
  ⟨rfl, rfl, fun _ => rfl, fun _ => rfl⟩

theorem specOfSame (definitions : w.definitions = w₀.definitions) : w.specOf = w₀.specOf := by
  funext call
  cases call with
  | aggregate func arg distinct frame =>
      cases frame with
      | none => rfl
      | some frame => simp only [specOf, resolve, definitions]
  | _ => rfl

theorem valuesSame (params : w.params = w₀.params) (f : WindowFrame) :
    w.valuesOver outputs f call = w₀.valuesOver outputs f call := by
  cases call with
  | aggregate func arg distinct frame =>
      have argument : w.argument arg = w₀.argument arg := by
        funext o
        simp only [argument, params]
      simp only [valuesOver, argument]
  | _ => rfl

theorem earliestFound {spec first : WindowSpec Expr} {more : List Expr}
    (found : (w₀.specs met).find? (·.text == spec.text) = some first) :
    w₀.earliest (met ++ more) spec = first := by
  rw [earliest, specs, List.filterMap_append, List.find?_append]
  rw [specs] at found
  rw [found]
  rfl

theorem specsMeet {spec : WindowSpec Expr} (ok : w₀.specOf call = .ok spec) :
    w₀.specs (met ++ [call]) = w₀.specs met ++ [spec] := by
  simp [specs, ok, Except.toOption]

theorem earliestNew {spec : WindowSpec Expr} (ok : w₀.specOf call = .ok spec)
    (none : (w₀.specs met).find? (·.text == spec.text) = none) :
    w₀.earliest (met ++ [call]) spec = spec := by
  rw [earliest, specsMeet ok, List.find?_append, none]
  simp

/-- Calls that are met later change nothing for those that were met. -/
theorem amongLater {more : List Expr} (member : call ∈ met) :
    w₀.among outputs (met ++ more) call = w₀.among outputs met call := by
  unfold among
  cases ok : w₀.specOf call with
  | error e => rfl
  | ok spec =>
      have listed : spec ∈ w₀.specs met :=
        List.mem_filterMap.mpr ⟨call, member, by rw [ok]; rfl⟩
      obtain ⟨first, found⟩ := Option.isSome_iff_exists.mp
        (List.find?_isSome.mpr ⟨spec, listed, BEq.rfl⟩ :
          ((w₀.specs met).find? (·.text == spec.text)).isSome = true)
      have same : w₀.earliest met spec = first := by rw [earliest, found]; rfl
      simp only [bind, Except.bind, earliestFound found, same]

theorem resultsMeet {values : Array Value} (holds : Holds w₀ outputs met w)
    (fresh : met.find? (·.text == call.text) = none)
    (computed : w₀.among outputs (met ++ [call]) call = .ok values) (text : String) :
    (((call.text, values) :: w.results).lookup text).map Except.ok =
      ((met ++ [call]).find? (·.text == text)).map (w₀.among outputs (met ++ [call])) := by
  rw [List.find?_append, List.lookup_cons]
  by_cases own : text = call.text
  · subst own
    rw [fresh]
    simp [computed]
  · have apart : (text == call.text) = false := beq_eq_false_iff_ne.mpr own
    have other : (call.text == text) = false := beq_eq_false_iff_ne.mpr (Ne.symm own)
    simp only [apart, List.find?_cons, other, List.find?_nil, Option.or_none, holds.results]
    cases found : met.find? (·.text == text) with
    | none => rfl
    | some d => exact congrArg some (amongLater (List.mem_of_find?_eq_some found)).symm

theorem framesKnown {spec : WindowSpec Expr} {f : WindowFrame} (holds : Holds w₀ outputs met w)
    (ok : w₀.specOf call = .ok spec) (stored : w.frames.lookup spec.text = some f) (text : String) :
    (w.frames.lookup text).map Except.ok = ((w₀.specs (met ++ [call])).find? (·.text == text)).map
      fun spec => WindowFrame.build spec outputs w₀.params := by
  have known := holds.frames spec.text
  rw [holds.frames, specsMeet ok, List.find?_append]
  cases found : (w₀.specs met).find? (·.text == text) with
  | some first => rfl
  | none =>
      have apart : (spec.text == text) = false := by
        rw [beq_eq_false_iff_ne]
        rintro rfl
        rw [stored, found] at known
        cases known
      simp [apart]

theorem framesNew {spec : WindowSpec Expr} {f : WindowFrame} (holds : Holds w₀ outputs met w)
    (ok : w₀.specOf call = .ok spec) (stored : w.frames.lookup spec.text = none)
    (built : WindowFrame.build spec outputs w₀.params = .ok f) (text : String) :
    (((spec.text, f) :: w.frames).lookup text).map Except.ok =
      ((w₀.specs (met ++ [call])).find? (·.text == text)).map fun spec =>
        WindowFrame.build spec outputs w₀.params := by
  have known := holds.frames spec.text
  rw [stored] at known
  have fresh := Option.map_eq_none_iff.mp known.symm
  rw [specsMeet ok, List.find?_append, List.lookup_cons]
  by_cases own : text = spec.text
  · subst own
    rw [fresh]
    simp [built]
  · have apart : (text == spec.text) = false := beq_eq_false_iff_ne.mpr own
    have other : (spec.text == text) = false := beq_eq_false_iff_ne.mpr (Ne.symm own)
    simp only [apart, List.find?_cons, other, List.find?_nil, Option.or_none, holds.frames]

/-- The frame of a new call is the one of the earliest specification of its text. -/
theorem frameEarliest {spec : WindowSpec Expr} (holds : Holds w₀ outputs met w)
    (ok : w₀.specOf call = .ok spec) :
    Outcome.Alike (fun framed f => framed.2 = f ∧ framed.1.definitions = w₀.definitions ∧
        framed.1.params = w₀.params ∧ framed.1.results = w.results ∧
          ∀ text, (framed.1.frames.lookup text).map Except.ok =
            ((w₀.specs (met ++ [call])).find? (·.text == text)).map fun spec =>
              WindowFrame.build spec outputs w₀.params)
      (w.frame spec outputs) (WindowFrame.build (w₀.earliest (met ++ [call]) spec) outputs w₀.params) := by
  have cached := holds.frames spec.text
  unfold Windows.frame
  rw [holds.params]
  cases stored : w.frames.lookup spec.text with
  | some f =>
      rw [stored] at cached
      obtain ⟨first, found, built⟩ := Option.map_eq_some_iff.mp cached.symm
      rw [earliestFound found, built]
      exact ⟨rfl, holds.definitions, holds.params, rfl, framesKnown holds ok stored⟩
  | none =>
      rw [stored] at cached
      rw [earliestNew ok (Option.map_eq_none_iff.mp cached.symm)]
      cases built : WindowFrame.build spec outputs w₀.params with
      | error e => trivial
      | ok f => exact ⟨rfl, holds.definitions, rfl, rfl, framesNew holds ok stored built⟩

theorem rememberAsk (holds : Holds w₀ outputs met w) (call : Expr) :
    Outcome.Alike (fun w' met' => Holds w₀ outputs met' w') (remember outputs w call)
      (w₀.ask outputs met call) := by
  have known := holds.results call.text
  unfold remember ask
  cases result : w.results.lookup call.text with
  | some values =>
      rw [result] at known
      obtain ⟨d, found, _⟩ := Option.map_eq_some_iff.mp known.symm
      have any : met.any (·.text == call.text) = true :=
        List.any_eq_true.mpr ⟨d, List.mem_of_find?_eq_some found, by simpa using List.find?_some found⟩
      rw [any]
      exact holds
  | none =>
      rw [result] at known
      -- the call is met before its frame is looked for, so that its own specification counts
      have fresh : met.find? (·.text == call.text) = none := Option.map_eq_none_iff.mp known.symm
      have any : met.any (·.text == call.text) = false := by simpa using fresh
      rw [any, if_neg Bool.false_ne_true, computeCallEq, specOfSame holds.definitions]
      cases ok : w₀.specOf call with
      | error e =>
          rw [among, ok]
          exact True.intro
      | ok spec =>
          have computed : w₀.among outputs (met ++ [call]) call = (do
              let f ← WindowFrame.build (w₀.earliest (met ++ [call]) spec) outputs w₀.params
              w₀.valuesOver outputs f call) := by
            rw [among, ok]
            rfl
          have framed := frameEarliest holds ok
          rw [computed]
          show Outcome.Alike _ ((w.frame spec outputs >>= fun framed =>
              w.valuesOver outputs framed.2 call >>= fun values => pure (framed.1, values)) >>=
            fun computed => pure { computed.1 with results := (call.text, computed.2) :: computed.1.results })
            _
          rw [bind_assoc, bind_assoc]
          refine Outcome.alikeBind (Outcome.alikeImp framed fun _ _ _ built kept => And.intro built kept)
            fun framed f kept => ?_
          obtain ⟨built, rfl, definitions, params, results, frames⟩ := kept
          rw [valuesSame holds.params]
          cases values : w₀.valuesOver outputs framed.2 call with
          | error e => exact True.intro
          | ok values =>
              rw [built] at computed
              refine ⟨definitions, params, frames, ?_⟩
              rw [results]
              exact resultsMeet holds fresh (computed.trans values)

theorem resultServed (holds : Holds w₀ outputs met w) (text : String) :
    w.results.lookup text = w₀.served outputs met text := by
  have kept := holds.results text
  unfold served
  cases found : met.find? (·.text == text) with
  | none =>
      rw [found] at kept
      exact Option.map_eq_none_iff.mp kept
  | some call =>
      rw [found] at kept
      obtain ⟨values, stored, computed⟩ := Option.map_eq_some_iff.mp kept
      rw [stored, Option.bind_some, ← computed]
      rfl

/-- A field is served as its calls are met, after those of the fields before it. -/
def fieldAfter (w : Windows) (outputs : List Output) (met : List Expr) (e : Expr) :
    Outcome (List Expr × List Value) := do
  let met ← (calls e).foldlM (w.ask outputs) met
  let values ← w.fieldWith outputs (fun call => w.served outputs met call.text) e
  return (met, values)

theorem fieldServed (holds : Holds w₀ outputs met w) (e : Expr) :
    Outcome.Alike (fun shared served => Holds w₀ outputs served.1 shared.1 ∧ shared.2 = served.2)
      (w.evalField e outputs) (w₀.fieldAfter outputs met e) := by
  unfold evalField fieldAfter
  refine Outcome.alikeBind (Outcome.alikeFold (List.forall₂_same.mpr fun call _ => rfl) holds
    fun w met call call' holds same => by cases same; exact rememberAsk holds call) fun w met holds => ?_
  have substituted : (outputs.zipIdx.mapM fun (o, row) => do
      let e ← w.substitute row e
      e.eval (o.scope w.params)) =
        w₀.fieldWith outputs (fun call => w₀.served outputs met call.text) e := by
    have results : (fun text => w.results.lookup text) = w₀.served outputs met := funext (resultServed holds)
    unfold fieldWith
    rw [← results, ← holds.params]
    rfl
  rw [substituted]
  exact Outcome.alikeBind (Outcome.alikeSame fun values _ => rfl) fun values values' same => ⟨holds, same⟩

end

/-! Fields one after another -/

def sharing (w : Windows) (outputs : List Output) (fields : List Expr) : Outcome Windows :=
  fields.foldlM (fun w e => (w.evalField e outputs).map (·.1)) w

def meeting (w : Windows) (outputs : List Output) (fields : List Expr) : Outcome (List Expr) :=
  fields.foldlM (fun met e => (w.fieldAfter outputs met e).map (·.1)) []

/-- Each field has the values that it has on its own, and each of its calls has its own result. -/
def Faithful (w : Windows) (outputs : List Output) (fields : List Expr) : Prop :=
  ∀ before e after w', fields = before ++ e :: after → w.sharing outputs before = .ok w' →
    ((w'.evalField e outputs).map (·.2)).toOption = ((w.evalField e outputs).map (·.2)).toOption ∧
      ∀ w'' values, w'.evalField e outputs = .ok (w'', values) → ∀ call ∈ calls e,
        w''.results.lookup call.text = ((w.computeCall call outputs).map (·.2)).toOption

/-- Being served by the earliest calls makes no difference to a field, nor to any of its calls. -/
def ServedAlike (w : Windows) (outputs : List Output) (fields : List Expr) : Prop :=
  ∀ before e after met, fields = before ++ e :: after → w.meeting outputs before = .ok met →
    ((w.fieldAfter outputs met e).map (·.2)).toOption = ((w.fieldAfter outputs [] e).map (·.2)).toOption ∧
      ∀ met' values, w.fieldAfter outputs met e = .ok (met', values) → ∀ call ∈ calls e,
        w.served outputs met' call.text = (w.own outputs call).toOption

/-- Calls of one text have one result, and specifications of one text have one frame. -/
structure Distinguished (w : Windows) (outputs : List Output) (all : List Expr) : Prop where
  calls : ∀ call ∈ all, ∀ other ∈ all, call.text = other.text → w.own outputs call = w.own outputs other
  specs : ∀ spec ∈ w.specs all, ∀ other ∈ w.specs all, spec.text = other.text →
    WindowFrame.build spec outputs w.params = WindowFrame.build other outputs w.params

section
variable {w₀ w w' : Windows} {outputs : List Output} {met all : List Expr} {call : Expr}

theorem sharingMeets (holds : Holds w₀ outputs [] w₀) (fields : List Expr) :
    Outcome.Alike (fun w met => Holds w₀ outputs met w) (w₀.sharing outputs fields)
      (w₀.meeting outputs fields) := by
  refine Outcome.alikeFold (List.forall₂_same.mpr fun e _ => rfl) holds fun w met e e' holds same => ?_
  cases same
  have served := fieldServed holds e
  cases shared : w.evalField e outputs <;> cases after : w₀.fieldAfter outputs met e <;>
    rw [shared, after] at served
  · exact True.intro
  · exact served.elim
  · exact served.elim
  · exact served.1

theorem ownAlone (frames : w.frames = []) :
    (w.computeCall call outputs).map (·.2) = w.own outputs call := by
  rw [computeCallEq, own]
  cases w.specOf call with
  | error e => rfl
  | ok spec =>
      simp only [bind, Except.bind, Windows.frame, frames, List.lookup_nil]
      cases WindowFrame.build spec outputs w.params with
      | error e => rfl
      | ok f =>
          simp only [pure, Except.pure]
          cases w.valuesOver outputs f call <;> rfl

/-- Calls that were met are among all calls and have results of their own. -/
def Known (w : Windows) (outputs : List Output) (all met : List Expr) : Prop :=
  ∀ call ∈ met, call ∈ all ∧ (w.own outputs call).isOk = true

theorem amongOwn (apart : w.Distinguished outputs all) (known : ∀ call ∈ met, call ∈ all)
    (member : call ∈ met) : w.among outputs met call = w.own outputs call := by
  unfold among own
  cases ok : w.specOf call with
  | error e => rfl
  | ok spec =>
      have listed (met : List Expr) (member : call ∈ met) : spec ∈ w.specs met :=
        List.mem_filterMap.mpr ⟨call, member, by rw [ok]; rfl⟩
      obtain ⟨first, found⟩ := Option.isSome_iff_exists.mp
        (List.find?_isSome.mpr ⟨spec, listed met member, BEq.rfl⟩ :
          ((w.specs met).find? (·.text == spec.text)).isSome = true)
      have same : first.text = spec.text := by simpa using List.find?_some found
      have inside : first ∈ w.specs all := by
        obtain ⟨other, there, own⟩ := List.mem_filterMap.mp (List.mem_of_find?_eq_some found)
        exact List.mem_filterMap.mpr ⟨other, known other there, own⟩
      have earliest : w.earliest met spec = first := by rw [earliest, found]; rfl
      simp only [bind, Except.bind, earliest,
        apart.specs first inside spec (listed all (known call member)) same]

theorem servedOwn (apart : w.Distinguished outputs all) (known : ∀ call ∈ met, call ∈ all)
    (inside : call ∈ all) (any : met.any (·.text == call.text) = true) :
    w.served outputs met call.text = (w.own outputs call).toOption := by
  obtain ⟨d, found⟩ := Option.isSome_iff_exists.mp
    (List.find?_isSome.mpr (List.any_eq_true.mp any) :
      (met.find? (·.text == call.text)).isSome = true)
  have there := List.mem_of_find?_eq_some found
  have same : d.text = call.text := by simpa using List.find?_some found
  rw [served, found, Option.bind_some, amongOwn apart known there,
    apart.calls d (known d there) call inside same]

theorem askOwn (apart : w.Distinguished outputs all) (known : w.Known outputs all met)
    (inside : call ∈ all) : Outcome.Alike (fun met' _ => w.Known outputs all met' ∧
        met'.any (·.text == call.text) = true ∧ met ⊆ met')
      (w.ask outputs met call) (w.own outputs call) := by
  unfold ask
  cases any : met.any (·.text == call.text) with
  | true =>
      obtain ⟨d, there, same⟩ := List.any_eq_true.mp any
      obtain ⟨listed, ok⟩ := known d there
      rw [apart.calls d listed call inside (by simpa using same)] at ok
      cases values : w.own outputs call with
      | error e =>
          rw [values] at ok
          cases ok
      | ok values => exact ⟨known, any, List.Subset.refl _⟩
  | false =>
      have all' : ∀ d ∈ met ++ [call], d ∈ all := by
        intro d member
        rcases List.mem_append.mp member with early | late
        · exact (known d early).1
        · exact List.mem_singleton.mp late ▸ inside
      rw [if_neg Bool.false_ne_true, amongOwn apart all' (by simp)]
      cases values : w.own outputs call with
      | error e => exact True.intro
      | ok values =>
          refine ⟨fun d member => ⟨all' d member, ?_⟩, by simp, List.subset_append_left _ _⟩
          rcases List.mem_append.mp member with early | late
          · exact (known d early).2
          · rw [List.mem_singleton.mp late, values]
            rfl

theorem asksOwn (apart : w.Distinguished outputs all) (known : w.Known outputs all met)
    {asked : List Expr} (inside : asked ⊆ all) : Outcome.Alike (fun met' _ =>
        w.Known outputs all met' ∧ met ⊆ met' ∧ ∀ call ∈ asked, met'.any (·.text == call.text) = true)
      (asked.foldlM (w.ask outputs) met) (asked.mapM (w.own outputs)) := by
  induction asked generalizing met with
  | nil => exact ⟨known, List.Subset.refl _, by simp⟩
  | cons call asked ih =>
      obtain ⟨first, rest⟩ := List.cons_subset.mp inside
      rw [List.foldlM_cons, List.mapM_cons]
      refine Outcome.alikeBind (askOwn apart known first) fun met' _ kept => ?_
      obtain ⟨known', any, grows⟩ := kept
      rw [← bind_pure (asked.foldlM (w.ask outputs) met')]
      refine Outcome.alikeBind (ih known' rest) fun met'' _ kept => ?_
      obtain ⟨known'', grows', others⟩ := kept
      refine ⟨known'', List.Subset.trans grows grows', List.forall_mem_cons.mpr ⟨?_, others⟩⟩
      obtain ⟨d, there, same⟩ := List.any_eq_true.mp any
      exact List.any_eq_true.mpr ⟨d, grows' there, same⟩

theorem fieldOwn (apart : w.Distinguished outputs all) (known : w.Known outputs all met) {e : Expr}
    (inside : calls e ⊆ all) : Outcome.Alike (fun served values => w.Known outputs all served.1 ∧
        served.2 = values ∧ ∀ call ∈ calls e,
          w.served outputs served.1 call.text = (w.own outputs call).toOption)
      (w.fieldAfter outputs met e) (do
        let _ ← (calls e).mapM (w.own outputs)
        w.fieldWith outputs (fun call => (w.own outputs call).toOption) e) := by
  unfold fieldAfter
  refine Outcome.alikeBind (asksOwn apart known inside) fun met' _ kept => ?_
  obtain ⟨known', _, any⟩ := kept
  have served : ∀ call ∈ calls e, w.served outputs met' call.text = (w.own outputs call).toOption :=
    fun call member => servedOwn apart (fun d there => (known' d there).1) (inside member) (any call member)
  have same : w.fieldWith outputs (fun call => w.served outputs met' call.text) e =
      w.fieldWith outputs (fun call => (w.own outputs call).toOption) e := by
    unfold fieldWith
    refine congrArg (outputs.zipIdx.mapM ·) (funext fun entry => ?_)
    refine congrArg (· >>= _) (Expr.substituteAlike e fun n member => ?_)
    cases window : n.isWindow with
    | false => rfl
    | true => simp only [if_true, served n (List.mem_filter.mpr ⟨member, window⟩)]
  rw [same]
  cases w.fieldWith outputs (fun call => (w.own outputs call).toOption) e with
  | error e => exact True.intro
  | ok values => exact ⟨known', rfl, served⟩

theorem callsInside {fields : List Expr} {e : Expr} (member : e ∈ fields) :
    calls e ⊆ fields.flatMap calls :=
  fun _ there => List.mem_flatMap.mpr ⟨e, member, there⟩

theorem meetingKnown {fields before : List Expr} (apart : w.Distinguished outputs (fields.flatMap calls))
    (early : before ⊆ fields) (known : w.Known outputs (fields.flatMap calls) met) {met' : List Expr}
    (meets : before.foldlM (fun met e => (w.fieldAfter outputs met e).map (·.1)) met = .ok met') :
    w.Known outputs (fields.flatMap calls) met' := by
  induction before generalizing met with
  | nil =>
      cases Outcome.pureOk.mp meets
      exact known
  | cons e before ih =>
      obtain ⟨own, others⟩ := List.cons_subset.mp early
      rw [List.foldlM_cons] at meets
      obtain ⟨_, one, meets⟩ := Outcome.bindOk.mp meets
      obtain ⟨served, field, rfl⟩ := Outcome.mapOk.mp one
      obtain ⟨_, _, next, _⟩ := Outcome.alikeOk
        (fieldOwn apart known (callsInside own)) field
      exact ih others next meets

theorem servedAlikeOwn {fields : List Expr} (apart : w.Distinguished outputs (fields.flatMap calls)) :
    w.ServedAlike outputs fields := by
  intro before e after met split meets
  have member : e ∈ fields := by simp [split]
  have early : before ⊆ fields := by simp [split]
  have inside := callsInside member
  have start : w.Known outputs (fields.flatMap calls) [] := nofun
  have later := fieldOwn apart (meetingKnown apart early start meets) inside
  have alone := fieldOwn apart start inside
  constructor
  · rw [Outcome.alikeMapped later fun _ _ kept => kept.2.1,
      Outcome.alikeMapped alone fun _ _ kept => kept.2.1]
  · intro met' values field
    obtain ⟨_, _, _, _, served⟩ := Outcome.alikeOk later field
    exact served

end

/-- Evaluating fields one after another gives each its own values, and each of its calls its own result,
exactly if being served by the earliest calls and specifications of the same texts makes no difference. It
makes none where calls of one text have one result, and specifications of one text one frame. -/
theorem sharesIff (definitions : List (String × WindowSpec Expr)) (params : List Value)
    (outputs : List Output) (fields : List Expr) :
    ((new definitions params).Faithful outputs fields ↔
        (new definitions params).ServedAlike outputs fields) ∧
      ((new definitions params).Distinguished outputs (fields.flatMap calls) →
        (new definitions params).Faithful outputs fields) := by
  have start : Holds (new definitions params) outputs [] (new definitions params) :=
    holdsNew definitions params
  have faithful : (new definitions params).Faithful outputs fields ↔
      (new definitions params).ServedAlike outputs fields := by
    constructor
    · intro faithful before e after met split meets
      obtain ⟨w, shared, holds⟩ := Outcome.alikeOk (Outcome.alikeSymm (sharingMeets start before)) meets
      obtain ⟨values, results⟩ := faithful before e after w split shared
      have later := fieldServed holds e
      have alone := fieldServed start e
      constructor
      · rw [← Outcome.alikeMapped later fun _ _ kept => kept.2,
          ← Outcome.alikeMapped alone fun _ _ kept => kept.2, values]
      · intro met' values field call member
        obtain ⟨⟨w', _⟩, evaluated, holds, _⟩ := Outcome.alikeOk (Outcome.alikeSymm later) field
        rw [← resultServed holds, results w' _ evaluated call member, ownAlone rfl]
    · intro served before e after w split shared
      obtain ⟨met, meets, holds⟩ := Outcome.alikeOk (sharingMeets start before) shared
      obtain ⟨values, results⟩ := served before e after met split meets
      have later := fieldServed holds e
      have alone := fieldServed start e
      constructor
      · rw [Outcome.alikeMapped later fun _ _ kept => kept.2,
          Outcome.alikeMapped alone fun _ _ kept => kept.2, values]
      · intro w' values evaluated call member
        obtain ⟨⟨met', _⟩, field, holds, _⟩ := Outcome.alikeOk later evaluated
        rw [resultServed holds, results met' _ field call member, ownAlone rfl]
  exact ⟨faithful, fun apart => faithful.mpr (servedAlikeOwn apart)⟩

/-- The least of a condition over all rows. -/
def leastOf (condition : Expr) : Expr := .aggregate .min (some condition) false (some (.spec ⟨none, [], []⟩))

def equalityIsNull : Expr :=
  leastOf (.unary .isNull (.binary .eq (.column ⟨none, "a"⟩) (.column ⟨none, "b"⟩)))

def equalsNullness : Expr :=
  leastOf (.binary .eq (.column ⟨none, "a"⟩) (.unary .isNull (.column ⟨none, "b"⟩)))

def unknownAndTwo : List Output :=
  [.ofRow ⟨[("t", ⟨["a", "b"], some (.dummy [.null, .int 2]), false⟩)], []⟩]

/-- An operand of IS NULL stands without parentheses, so two calls of different meaning share a text. -/
theorem nullnessMisread :
    equalityIsNull.text = equalsNullness.text ∧
      ((new [] []).evalField equalityIsNull unknownAndTwo).map (·.2) = .ok [.boolean true] ∧
      ((new [] []).evalField equalsNullness unknownAndTwo).map (·.2) = .ok [.null] ∧
      (do
        let (w, first) ← (new [] []).evalField equalityIsNull unknownAndTwo
        let (_, second) ← w.evalField equalsNullness unknownAndTwo
        return (first, second)) = .ok ([.boolean true], [.boolean true]) ∧
      ¬ (new [] []).Faithful unknownAndTwo [equalityIsNull, equalsNullness] := by
  have second : ((new [] []).evalField equalsNullness unknownAndTwo).map (·.2) = .ok [.null] := by
    decide +kernel
  have both : (do
      let (w, first) ← (new [] []).evalField equalityIsNull unknownAndTwo
      let (_, second) ← w.evalField equalsNullness unknownAndTwo
      return (first, second)) = (.ok ([.boolean true], [.boolean true]) : Outcome _) := by decide +kernel
  refine ⟨by decide +kernel, by decide +kernel, second, both, fun faithful => ?_⟩
  obtain ⟨⟨w, _⟩, one, both⟩ := Outcome.bindOk.mp both
  obtain ⟨⟨_, _⟩, two, last⟩ := Outcome.bindOk.mp both
  cases Outcome.pureOk.mp last
  have shared : (new [] []).sharing unknownAndTwo [equalityIsNull] = .ok w := by
    rw [sharing, List.foldlM_cons, one]
    rfl
  have same := (faithful [equalityIsNull] equalsNullness [] w rfl shared).1
  rw [two, second] at same
  cases same

end Windows

end RelQuery
