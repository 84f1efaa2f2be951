import RelQuery.Proofs.Select.Resolution
import RelQuery.Proofs.Select.Stages

/-! Window calls with and without a name for a specification. Both forms run through the same frames and results
as long as calls that share a text in one form do so in the other, or are the same call there. -/
namespace RelQuery

namespace Windows

variable {free : String → Prop} {name : String} {spec s : WindowSpec Expr} {all : List Expr} {w w' : Windows}
  {outputs outputs' : List Output} {call other : Expr} {f : WindowFrame} {values : Array Value}
  {definitions definitions' : List (String × WindowSpec Expr)}

/-! Frames and values -/

theorem buildRelabeled (params : List Value)
    (alike : List.Forall₂ (Output.Relabeled free) outputs outputs') (spares : ∀ e ∈ s.exprs, e.Spares free) :
    Outcome.Alike Eq (WindowFrame.build s outputs params) (WindowFrame.build s outputs' params) := by
  have keys : Outcome.Alike Eq (outputs.mapM (WindowFrame.rowKeys s params))
      (outputs'.mapM (WindowFrame.rowKeys s params)) := by
    refine Outcome.alikeMapMEq alike fun o o' same => ?_
    have scopes := Output.relabeledFieldScope same params
    refine Outcome.alikeBind (Scope.evalListRelabeled scopes fun e member =>
      spares e (List.mem_append_left _ member)) fun p p' partition => ?_
    refine Outcome.alikeBind (Scope.evalListRelabeled scopes fun e member =>
      spares e (List.mem_append_right _ member)) fun o o' order => ?_
    rw [partition, order]
    exact rfl
  refine Outcome.alikeBind keys fun keys keys' same => ?_
  rw [same]
  exact rfl

theorem valuesRelabeled (alike : List.Forall₂ (Output.Relabeled free) outputs outputs')
    (params : w.params = w'.params) (spares : call.Spares free) :
    Outcome.Alike Eq (w.valuesOver outputs f call) (w'.valuesOver outputs' f call) := by
  cases call with
  | aggregate func arg distinct frame =>
      have args : Outcome.Alike Eq (outputs.mapM (w.argument arg)) (outputs'.mapM (w'.argument arg)) := by
        refine Outcome.alikeMapMEq alike fun o o' same => ?_
        cases arg with
        | none => exact rfl
        | some e =>
            simp only [argument, params]
            exact Scope.evalRelabeled (Output.relabeledScope same w'.params)
              (Expr.sparesPart spares List.mem_cons_self)
      refine Outcome.alikeBind args fun args args' same => ?_
      rw [same]
      exact Outcome.alikeSame fun _ _ => rfl
  | _ => trivial

theorem valuesSpelled (usable : Usable call) :
    w.valuesOver outputs f (call.inlined name spec) = w.valuesOver outputs f call := by
  have own := usable.window
  cases call with
  | aggregate func arg distinct frame =>
      rw [Expr.inlined, Expr.inlinedArgEq, argumentKept usable]
      rfl
  | _ => cases own

/-- A frame is at hand, or it is built; all others stay. -/
def Framed (w : Windows) (s : WindowSpec Expr) (framed : Windows × WindowFrame) : Prop :=
  ∃ frames, framed.1 = { w with frames := frames } ∧ frames.lookup s.text = some framed.2 ∧
    ∀ text f, w.frames.lookup text = some f → frames.lookup text = some f

theorem frameFramed {framed : Windows × WindowFrame} (ok : w.frame s outputs = .ok framed) :
    w.Framed s framed := by
  unfold Windows.frame at ok
  split at ok
  · rename_i stored
    cases ok
    exact ⟨w.frames, rfl, stored, fun _ _ => id⟩
  · rename_i missing
    obtain ⟨f, _, last⟩ := Outcome.bindOk.mp ok
    cases Outcome.pureOk.mp last
    refine ⟨_, rfl, by simp, fun text g there => ?_⟩
    have apart : text ≠ s.text := by
      rintro rfl
      rw [missing] at there
      cases there
    rw [List.lookup_cons, beq_eq_false_iff_ne.mpr apart, there]

theorem frameRelabeled (alike : List.Forall₂ (Output.Relabeled free) outputs outputs')
    (params : w.params = w'.params) (frames : w.frames = w'.frames) (spares : ∀ e ∈ s.exprs, e.Spares free) :
    Outcome.Alike (fun framed framed' => framed.2 = framed'.2 ∧ framed.1.frames = framed'.1.frames)
      (w.frame s outputs) (w'.frame s outputs') := by
  unfold Windows.frame
  rw [← frames, ← params]
  split
  · exact ⟨rfl, frames⟩
  · refine Outcome.alikeBind (buildRelabeled w.params alike spares) fun f f' same => ?_
    rw [same]
    exact ⟨rfl, rfl⟩

/-! Calls -/

/-- Calls that share a text share it when the specification is spelled out, and the other way round unless
they are the same call then. -/
structure ToldApart (name : String) (spec : WindowSpec Expr) (all : List Expr) : Prop where
  named : ∀ c ∈ all, ∀ d ∈ all, c.text = d.text → c.names name = d.names name ∧
    (c.inlined name spec).text = (d.inlined name spec).text
  spelled : ∀ c ∈ all, ∀ d ∈ all, (c.inlined name spec).text = (d.inlined name spec).text →
    c.text = d.text ∨ c.inlined name spec = d.inlined name spec

/-- What the two forms of some calls have in common from the start. -/
structure Spelled (free : String → Prop) (name : String) (spec : WindowSpec Expr) (all : List Expr)
    (definitions definitions' : List (String × WindowSpec Expr)) : Prop where
  defines : Defines definitions name spec definitions'
  unbased : ∀ c ∈ all, c.isBased name = false
  spares : ∀ c ∈ all, c.Spares free
  sparing : ∀ d ∈ definitions, ∀ e ∈ d.2.exprs, e.Spares free
  texts : ToldApart name spec all

/-- A call that would have some values. -/
def Settled (w : Windows) (outputs : List Output) (call : Expr) (values : Array Value) : Prop :=
  ∃ s f, w.specOf call = .ok s ∧ w.frames.lookup s.text = some f ∧
    w.valuesOver outputs f call = .ok values

structure Sim (free : String → Prop) (name : String) (spec : WindowSpec Expr) (all : List Expr)
    (definitions definitions' : List (String × WindowSpec Expr)) (outputs outputs' : List Output)
    (w w' : Windows) : Prop where
  definitions : w.definitions = definitions
  definitions' : w'.definitions = definitions'
  params : w.params = w'.params
  frames : w.frames = w'.frames
  served : ∀ c ∈ all, ∀ v, w.results.lookup c.text = some v →
    w'.results.lookup (c.inlined name spec).text = some v
  settled : ∀ c ∈ all, ∀ v, w'.results.lookup (c.inlined name spec).text = some v →
    w.results.lookup c.text = none → w.Settled outputs c v
  known : ∀ text v, w.results.lookup text = some v → ∃ d ∈ all, d.text = text ∧ ∃ s, w.specOf d = .ok s

theorem simStart (params : List Value) : Sim free name spec all definitions definitions' outputs outputs'
    (new definitions params) (new definitions' params) := by
  refine ⟨rfl, rfl, rfl, rfl, fun _ _ _ met => ?_, fun _ _ _ met => ?_, fun _ _ met => ?_⟩ <;> cases met

theorem settledOf {v : Windows} (definitions : v.definitions = w.definitions) (params : v.params = w.params)
    (own : w.specOf call = .ok s) (stored : v.frames.lookup s.text = some f)
    (computed : w.valuesOver outputs f call = .ok values) : v.Settled outputs call values :=
  ⟨s, f, by rw [specOfSame definitions, own], stored, by rw [valuesSame params, computed]⟩

theorem settledMore {v : Windows} (settled : w.Settled outputs call values)
    (definitions : v.definitions = w.definitions) (params : v.params = w.params)
    (frames : ∀ text f, w.frames.lookup text = some f → v.frames.lookup text = some f) :
    v.Settled outputs call values := by
  obtain ⟨s, f, own, stored, computed⟩ := settled
  exact settledOf definitions params own (frames _ _ stored) computed

theorem rememberMet (met : w.results.lookup call.text = some values) : remember outputs w call = .ok w := by
  rw [remember, met]

theorem rememberNew (missing : w.results.lookup call.text = none) : remember outputs w call = (do
    let s ← w.specOf call
    let framed ← w.frame s outputs
    let values ← w.valuesOver outputs framed.2 call
    return { framed.1 with results := (call.text, values) :: framed.1.results }) := by
  rw [remember, missing]
  show w.computeCall call outputs >>= _ = _
  rw [computeCallEq]
  simp only [bind_assoc, pure_bind]

theorem lookupNew {β : Type} {k k' : String} {b : β} {entries : List (String × β)} (apart : k ≠ k') :
    ((k', b) :: entries).lookup k = entries.lookup k := by
  rw [List.lookup_cons, beq_eq_false_iff_ne.mpr apart]

section
variable (spelled : Spelled free name spec all definitions definitions')
include spelled

theorem specSim (sim : Sim free name spec all definitions definitions' outputs outputs' w w')
    (member : call ∈ all) :
    Outcome.Alike Eq (w.specOf call) (w'.specOf (call.inlined name spec)) := by
  refine specSpelled ?_ (spelled.unbased call member)
  rw [sim.definitions, sim.definitions']
  exact spelled.defines

theorem specSpares (sim : Sim free name spec all definitions definitions' outputs outputs' w w')
    (member : call ∈ all) (ok : w.specOf call = .ok s) : ∀ e ∈ s.exprs, e.Spares free := by
  intro e inside
  rcases specSource ok inside with part | ⟨d, listed, inside⟩
  · exact Expr.sparesPart (spelled.spares call member) part
  · exact spelled.sparing d (sim.definitions ▸ listed) e inside

/-- A call that only the spelled out form has met is met. -/
theorem simMet (sim : Sim free name spec all definitions definitions' outputs outputs' w w')
    (member : call ∈ all) (missing : w.results.lookup call.text = none)
    (met : w'.results.lookup (call.inlined name spec).text = some values) :
    Sim free name spec all definitions definitions' outputs outputs'
      { w with results := (call.text, values) :: w.results } w' := by
  have settled := sim.settled call member values met missing
  refine ⟨sim.definitions, sim.definitions', sim.params, sim.frames, fun c listed v served => ?_,
    fun c listed v served unmet => ?_, fun text v stored => ?_⟩
  · by_cases same : c.text = call.text
    · rw [same, List.lookup_cons_self] at served
      rw [(spelled.texts.named c listed call member same).2, met, served]
    · exact sim.served c listed v ((lookupNew same).symm.trans served)
  · have apart : c.text ≠ call.text := by
      intro same
      rw [same, List.lookup_cons_self] at unmet
      cases unmet
    exact settledMore (sim.settled c listed v served ((lookupNew apart).symm.trans unmet)) rfl rfl
      fun _ _ => id
  · by_cases same : text = call.text
    · obtain ⟨s, _, own, _⟩ := settled
      exact ⟨call, member, same.symm, s, own⟩
    · exact sim.known text v ((lookupNew same).symm.trans stored)

/-- A call that neither form has met is met in both. -/
theorem simNew {frames : List (String × WindowFrame)}
    (sim : Sim free name spec all definitions definitions' outputs outputs' w w') (member : call ∈ all)
    (missing' : w'.results.lookup (call.inlined name spec).text = none) (own : w.specOf call = .ok s)
    (stored : frames.lookup s.text = some f) (computed : w.valuesOver outputs f call = .ok values)
    (grown : ∀ text f, w.frames.lookup text = some f → frames.lookup text = some f) :
    Sim free name spec all definitions definitions' outputs outputs'
      { w with frames := frames, results := (call.text, values) :: w.results }
      { w' with frames := frames, results := ((call.inlined name spec).text, values) :: w'.results } := by
  refine ⟨sim.definitions, sim.definitions', sim.params, rfl, fun c listed v served => ?_,
    fun c listed v served unmet => ?_, fun text v stored => ?_⟩
  · by_cases same : c.text = call.text
    · rw [same, List.lookup_cons_self] at served
      rw [(spelled.texts.named c listed call member same).2, List.lookup_cons_self, served]
    · have earlier := sim.served c listed v ((lookupNew same).symm.trans served)
      have apart : (c.inlined name spec).text ≠ (call.inlined name spec).text := by
        intro same
        rw [same, missing'] at earlier
        cases earlier
      exact (lookupNew apart).trans earlier
  · have apart : c.text ≠ call.text := by
      intro same
      rw [same, List.lookup_cons_self] at unmet
      cases unmet
    by_cases same : (c.inlined name spec).text = (call.inlined name spec).text
    · rw [same, List.lookup_cons_self] at served
      cases served
      have equal := (spelled.texts.spelled c listed call member same).resolve_left apart
      obtain ⟨s', ok, rfl⟩ := Outcome.alikeOk (specSim spelled sim member) own
      obtain ⟨s', own', rfl⟩ := Outcome.alikeOk (Outcome.alikeSymm (specSim spelled sim listed)) (equal ▸ ok)
      have shared : w.valuesOver outputs f c = w.valuesOver outputs f call := by
        rw [← valuesSpelled (specUsable own'), equal, valuesSpelled (specUsable own)]
      exact settledOf rfl rfl own' stored (shared.trans computed)
    · exact settledMore (sim.settled c listed v ((lookupNew same).symm.trans served)
        ((lookupNew apart).symm.trans unmet)) rfl rfl grown
  · by_cases same : text = call.text
    · exact ⟨call, member, same.symm, s, own⟩
    · exact sim.known text v ((lookupNew same).symm.trans stored)

theorem rememberSim (alike : List.Forall₂ (Output.Relabeled free) outputs outputs')
    (sim : Sim free name spec all definitions definitions' outputs outputs' w w') (member : call ∈ all) :
    Outcome.Alike (Sim free name spec all definitions definitions' outputs outputs')
      (remember outputs w call) (remember outputs' w' (call.inlined name spec)) := by
  cases met : w.results.lookup call.text with
  | some v =>
      rw [rememberMet met, rememberMet (sim.served call member v met)]
      exact sim
  | none =>
      cases met' : w'.results.lookup (call.inlined name spec).text with
      | some v =>
          -- only the form with the specification has met the call: its frame is there, and computes the same
          obtain ⟨s, f, own, stored, computed⟩ := sim.settled call member v met' met
          have framed : w.frame s outputs = .ok (w, f) := by rw [Windows.frame, stored]
          rw [rememberMet met', rememberNew met, own]
          simp only [bind, Except.bind, framed, computed]
          exact simMet spelled sim member met met'
      | none =>
          rw [rememberNew met, rememberNew met']
          have specs := Outcome.alikeImp (specSim spelled sim member) fun s s' own own' => And.intro own
          refine Outcome.alikeBind specs fun s s' both => ?_
          obtain ⟨own, rfl⟩ := both
          have frames := Outcome.alikeImp
            (frameRelabeled alike sim.params sim.frames (specSpares spelled sim member own))
            fun one other ok ok' same => And.intro (frameFramed ok) (And.intro (frameFramed ok') same)
          refine Outcome.alikeBind frames fun one other all => ?_
          obtain ⟨v, f⟩ := one
          obtain ⟨v', f'⟩ := other
          obtain ⟨framed, framed', same, shared⟩ := all
          obtain ⟨frames, state, stored, grown⟩ := framed
          obtain ⟨frames', state', _⟩ := framed'
          subst state state'
          cases same
          cases shared
          have answers : Outcome.Alike Eq (w.valuesOver outputs f call)
              (w'.valuesOver outputs' f (call.inlined name spec)) := by
            rw [valuesSpelled (specUsable own)]
            exact valuesRelabeled alike sim.params (spelled.spares call member)
          refine Outcome.alikeBind (Outcome.alikeImp answers fun _ _ computed _ => And.intro computed)
            fun values values' both => ?_
          obtain ⟨computed, rfl⟩ := both
          have next := simNew spelled sim member met' own stored computed grown
          exact next

end

theorem rememberKeeps {v : Windows} (ok : remember outputs w call = .ok v) :
    (v.results.lookup call.text).isSome = true ∧
      ∀ text, (w.results.lookup text).isSome = true → (v.results.lookup text).isSome = true := by
  cases met : w.results.lookup call.text with
  | some values =>
      rw [rememberMet met] at ok
      cases ok
      exact ⟨by rw [met]; rfl, fun _ => id⟩
  | none =>
      rw [rememberNew met] at ok
      obtain ⟨s, _, ok⟩ := Outcome.bindOk.mp ok
      obtain ⟨framed, ok', ok⟩ := Outcome.bindOk.mp ok
      obtain ⟨values, _, last⟩ := Outcome.bindOk.mp ok
      cases Outcome.pureOk.mp last
      obtain ⟨frames, state, _⟩ := frameFramed ok'
      refine ⟨by simp, fun text there => ?_⟩
      by_cases same : text = call.text
      · rw [same, List.lookup_cons_self]
        rfl
      · rw [lookupNew same, state]
        exact there

theorem rememberAll {v : Windows} {asked : List Expr} (ok : asked.foldlM (remember outputs) w = .ok v) :
    (∀ c ∈ asked, (v.results.lookup c.text).isSome = true) ∧
      ∀ text, (w.results.lookup text).isSome = true → (v.results.lookup text).isSome = true := by
  induction asked generalizing w with
  | nil =>
      cases Outcome.pureOk.mp ok
      exact ⟨by simp, fun _ => id⟩
  | cons c asked ih =>
      rw [List.foldlM_cons] at ok
      obtain ⟨one, first, ok⟩ := Outcome.bindOk.mp ok
      obtain ⟨own, kept⟩ := rememberKeeps first
      obtain ⟨others, later⟩ := ih ok
      exact ⟨List.forall_mem_cons.mpr ⟨later _ own, others⟩, fun text there => later text (kept text there)⟩

section
variable (spelled : Spelled free name spec all definitions definitions')
include spelled

theorem rememberAllSim (alike : List.Forall₂ (Output.Relabeled free) outputs outputs')
    (sim : Sim free name spec all definitions definitions' outputs outputs' w w') {asked : List Expr}
    (inside : asked ⊆ all) :
    Outcome.Alike (Sim free name spec all definitions definitions' outputs outputs')
      (asked.foldlM (remember outputs) w)
      ((asked.map (Expr.inlined name spec)).foldlM (remember outputs') w') := by
  have listed : List.Forall₂ (fun c c' => c ∈ all ∧ c' = c.inlined name spec) asked
      (asked.map (Expr.inlined name spec)) := by
    rw [List.forall₂_map_right_iff, List.forall₂_same]
    exact fun c member => ⟨inside member, rfl⟩
  refine Outcome.alikeFold listed sim fun w w' c c' sim one => ?_
  obtain ⟨member, rfl⟩ := one
  exact rememberSim spelled alike sim member

/-- Over a specification with windows, neither form of a call over the name is computed. -/
theorem rememberDoomed (sim : Sim free name spec all definitions definitions' outputs outputs' w w')
    (doomed : spec.exprs.any Expr.hasWindow = true) (member : call ∈ all) (named : call.isNamed name = true) :
    (∃ e, remember outputs w call = .error e) ∧
      ∃ e, remember outputs' w' (call.inlined name spec) = .error e := by
  have defines : Defines w.definitions name spec w'.definitions := by
    rw [sim.definitions, sim.definitions']
    exact spelled.defines
  have names : call.names name = true := List.any_eq_true.mpr ⟨call, Expr.nodesSelf call, named⟩
  have refused := specDoomed defines doomed names
  have unmet : w.results.lookup call.text = none := by
    cases met : w.results.lookup call.text with
    | none => rfl
    | some v =>
        obtain ⟨d, listed, same, s, ok⟩ := sim.known call.text v met
        exact absurd ok (specDoomed defines doomed ((spelled.texts.named d listed call member same).1.trans names) s)
  have unmet' : w'.results.lookup (call.inlined name spec).text = none := by
    cases met : w'.results.lookup (call.inlined name spec).text with
    | none => rfl
    | some v =>
        obtain ⟨s, _, ok, _⟩ := sim.settled call member v met unmet
        exact absurd ok (refused s)
  have specs := specSim spelled sim member
  rw [rememberNew unmet, rememberNew unmet']
  cases own : w.specOf call with
  | ok s => exact absurd own (refused s)
  | error e =>
      cases own' : w'.specOf (call.inlined name spec) with
      | ok s =>
          rw [own, own'] at specs
          exact specs.elim
      | error e' => exact ⟨⟨e, rfl⟩, e', rfl⟩

theorem callsSim (alike : List.Forall₂ (Output.Relabeled free) outputs outputs')
    (sim : Sim free name spec all definitions definitions' outputs outputs' w w') {e : Expr}
    (inside : calls e ⊆ all) :
    Outcome.Alike (Sim free name spec all definitions definitions' outputs outputs')
      ((calls e).foldlM (remember outputs) w)
      ((calls (e.inlined name spec)).foldlM (remember outputs') w') := by
  unfold calls at inside ⊢
  cases doomed : spec.exprs.any Expr.hasWindow with
  | false =>
      have none : (spec.exprs.flatMap Expr.nodes).filter Expr.isWindow = [] := by
        refine List.filter_eq_nil_iff.mpr fun n member window => ?_
        obtain ⟨p, part, member⟩ := List.mem_flatMap.mp member
        exact List.any_eq_false.mp doomed p part (List.any_eq_true.mpr ⟨n, member, window⟩)
      rw [Expr.inliningFilter Expr.inlinedWindow none (Expr.inlining e)]
      exact rememberAllSim spelled alike sim inside
  | true =>
      -- the first call over the name fails in both forms, and before it the walks are the same
      have walk : Expr.Inlining name spec e.nodes (e.inlined name spec).nodes := Expr.inlining e
      rcases Expr.inliningFirst Expr.inlinedWindow (fun n => Expr.windowNamed) walk with
        same | ⟨before, n, after, after', named, split, split'⟩
      · rw [same]
        exact rememberAllSim spelled alike sim inside
      · have listed : ∀ c ∈ before ++ n :: after, c ∈ all := fun c member => inside (split ▸ member)
        rw [split, split', List.foldlM_append, List.foldlM_append]
        refine Outcome.alikeBind (rememberAllSim spelled alike sim fun c member =>
          listed c (List.mem_append_left _ member)) fun v v' sim => ?_
        obtain ⟨⟨e, failed⟩, e', failed'⟩ := rememberDoomed spelled sim doomed (listed n (by simp)) named
        rw [List.foldlM_cons, List.foldlM_cons, failed, failed']
        exact True.intro

end

end Windows

end RelQuery
