import Mathlib
import RelQuery.Proofs.Path.Preserved
import RelQuery.Proofs.Select.Turns

/-! What the rows of a result are made of. When all stages are done, every field of every output row has its value:
what the field evaluates to for the row, over its group, or, in its turn, over its window. -/
namespace RelQuery

namespace Windows

variable {w v : Windows} {e : Expr} {outputs : List Output} {vs : List Value}

theorem fieldLength (ok : w.evalField e outputs = .ok (v, vs)) : vs.length = outputs.length := by
  obtain ⟨_, _, ok⟩ := Outcome.bindOk.mp ok
  obtain ⟨vs, computed, last⟩ := Outcome.bindOk.mp ok
  cases Outcome.pureOk.mp last
  have length := (Outcome.mapMOk.mp computed).length_eq
  rw [List.length_zipIdx] at length
  exact length.symm

theorem filledColumn {i : Nat} {n : String} (length : vs.length = outputs.length)
    (unset : ∀ o ∈ outputs, o.row.slots[i]? = some (n, .unset)) :
    (filledWith i outputs vs).map (fun o => o.row.slots[i]?) = vs.map fun v => some (n, .value v) := by
  induction outputs generalizing vs with
  | nil => rw [List.length_eq_zero_iff.mp length]; rfl
  | cons o outputs ih =>
      obtain ⟨own, others⟩ := List.forall_mem_cons.mp unset
      cases vs with
      | nil => cases length
      | cons v vs =>
          have first : (o.setField i v).row.slots[i]? = some (n, .value v) := by
            simp [Output.setField, Composition.setSlot, own]
          simp only [filledWith, List.zip_cons_cons, List.map_cons, first]
          exact congrArg _ (ih (Nat.succ.inj length) others)

end Windows

namespace OutputField
open Windows (Turn)

/-- The places of the window fields from a place on. -/
def windowsFrom (fields : List OutputField) (i : Nat) : List Nat :=
  ((ofKind fields .window).map (·.2)).filter (i ≤ ·)

/-- A window field with the output rows as they are when its turn comes, given the rows as they are in the end. -/
def turn (fields : List OutputField) (finished : List Output) (entry : OutputField × Nat) : Turn :=
  ⟨entry.1.expr, finished.map (Output.emptied (windowsFrom fields entry.2))⟩

/-- The slots of a field have some values. -/
def Fills (finished : List Output) (entry : OutputField × Nat) (vs : List Value) : Prop :=
  finished.map (fun o => o.row.slots[entry.2]?) = vs.map fun v => some (entry.1.name, .value v)

/-- What a field evaluates to for each of the output rows. -/
def evalEach (w : Windows) (fields : List OutputField) (finished : List Output) (entry : OutputField × Nat) :
    Outcome (List Value) :=
  match entry.1.kind with
  | .window => w.alone (turn fields finished entry)
  | _ => finished.mapM fun o => evalOver w.params o entry.1

/-- The slots of a field have the values that it evaluates to. -/
def Computes (w : Windows) (fields : List OutputField) (finished : List Output) (entry : OutputField × Nat) :
    Prop :=
  ∃ vs, evalEach w fields finished entry = .ok vs ∧ Fills finished entry vs

variable {fields : List OutputField} {outputs finished : List Output} {before rest : List (OutputField × Nat)}
  {entry : OutputField × Nat} {w w' : Windows}

theorem fillsOnce {vs vs' : List Value} (fills : Fills finished entry vs) (fills' : Fills finished entry vs') :
    vs = vs' := by
  refine List.map_injective_iff.mpr (fun v v' same => ?_) (fills.symm.trans fills')
  cases same
  rfl

theorem fillsEach {params : List Value} (each : ∀ o ∈ finished, HasValue params o entry) :
    ∃ vs, finished.mapM (evalOver params · entry.1) = .ok vs ∧ Fills finished entry vs := by
  induction finished with
  | nil => exact ⟨[], rfl, rfl⟩
  | cons o finished ih =>
      obtain ⟨⟨v, slot, own⟩, others⟩ := List.forall_mem_cons.mp each
      obtain ⟨vs, values, fills⟩ := ih others
      refine ⟨v :: vs, ?_, ?_⟩
      · rw [List.mapM_cons, own, values]
        rfl
      · rw [Fills, List.map_cons, List.map_cons, slot, fills]

theorem windowsFromSplit (split : ofKind fields .window = before ++ entry :: rest) :
    windowsFrom fields entry.2 = (entry :: rest).map (·.2) := by
  have sorted := placesSorted fields .window
  rw [split, List.map_append, List.map_cons] at sorted
  obtain ⟨_, later, earlier⟩ := List.pairwise_append.mp sorted
  obtain ⟨after, _⟩ := List.pairwise_cons.mp later
  rw [windowsFrom, split, List.map_append, List.filter_append]
  have none : (before.map (·.2)).filter (entry.2 ≤ ·) = [] := by
    refine List.filter_eq_nil_iff.mpr fun i member => ?_
    have less := earlier i member entry.2 List.mem_cons_self
    simpa using less
  have all : ((entry :: rest).map (·.2)).filter (entry.2 ≤ ·) = (entry :: rest).map (·.2) := by
    refine List.filter_eq_self.mpr fun i member => ?_
    rcases List.mem_cons.mp member with rfl | inside
    · simp
    · simpa using Nat.le_of_lt (after i inside)
  rw [none, all, List.nil_append]

end OutputField

namespace SelectOf
open OutputField (Pending Fills turn)

variable {q : Select} {fields : List OutputField} {params : List Value} {rows : List Composition}
  {empty : Composition} {outputs finished : List Output} {entries : List (OutputField × Nat)}
  {w w' : Windows}

variable {field : OutputField × Nat} {outputs' : List Output}

/-- A window field is computed and its slots are filled; those of the fields after it are still empty. -/
theorem windowFills (apart : ((field :: entries).map (·.2)).Nodup) (pending : Pending (field :: entries) outputs)
    (ok : fillWindow (w, outputs) field = .ok (w', outputs')) :
    ∃ vs, w.evalField field.1.expr outputs = .ok (w', vs) ∧ vs.length = outputs.length ∧
      outputs' = Windows.filledWith field.2 outputs vs ∧
        List.Forall₂ (Windows.Filled field.2) outputs outputs' ∧ Pending entries outputs' := by
  obtain ⟨own, _⟩ := List.nodup_cons.mp apart
  obtain ⟨unset, rest⟩ := List.forall_mem_cons.mp pending
  obtain ⟨⟨v, vs⟩, evaluated, last⟩ := Outcome.bindOk.mp ok
  cases Outcome.pureOk.mp last
  have length := Windows.fieldLength evaluated
  have each := Windows.filledEach length unset
  refine ⟨vs, evaluated, length, rfl, each, Windows.pendingFilled each (fun other member same => ?_) rest⟩
  exact own (List.mem_map.mpr ⟨other, member, same⟩)

/-- Window fields are computed over the rows of the end without what is computed later. -/
theorem foldEmptied (apart : (entries.map (·.2)).Nodup) (pending : Pending entries outputs)
    (ok : entries.foldlM fillWindow (w, outputs) = .ok (w', finished)) :
    finished.map (Output.emptied (entries.map (·.2))) = outputs := by
  induction entries generalizing w outputs with
  | nil =>
      cases Outcome.pureOk.mp ok
      exact Output.emptiedPending nofun
  | cons entry entries ih =>
      rw [List.foldlM_cons] at ok
      obtain ⟨⟨v, filled⟩, first, ok⟩ := Outcome.bindOk.mp ok
      obtain ⟨_, _, _, _, each, later⟩ := windowFills apart pending first
      have earlier := ih (List.nodup_cons.mp apart).2 later ok
      rw [List.map_cons]
      calc finished.map (Output.emptied (entry.2 :: entries.map (·.2)))
        _ = (finished.map (Output.emptied (entries.map (·.2)))).map
              (Output.emptied (entry.2 :: entries.map (·.2))) :=
            (Output.emptiedMore (List.subset_cons_self ..)).symm
        _ = outputs.map (Output.emptied (entry.2 :: entries.map (·.2))) := by
            rw [earlier]
            exact Windows.filledEmptied each List.mem_cons_self
        _ = outputs := by
            refine Output.emptiedPending fun i listed o member => ?_
            obtain ⟨other, inside, rfl⟩ := List.mem_map.mp (show i ∈ (entry :: entries).map (·.2) from listed)
            exact pending other inside o member

/-- Filling the slots of window fields one after another gives each the values that it has in its turn. -/
theorem foldInTurn (before : List (OutputField × Nat)) (split : OutputField.ofKind fields .window = before ++ entries)
    (slotted : Slotted (fields.map (·.name)) outputs) (pending : Pending entries outputs)
    (ok : entries.foldlM fillWindow (w, outputs) = .ok (w', finished)) :
    ∃ columns, w.inTurn (entries.map (turn fields finished)) = .ok columns ∧
      List.Forall₂ (Fills finished) entries columns := by
  induction entries generalizing before w outputs with
  | nil => exact ⟨[], rfl, .nil⟩
  | cons entry entries ih =>
      have places := OutputField.placesNodup fields .window
      rw [split, List.map_append] at places
      have apart := (List.nodup_append.mp places).2.1
      obtain ⟨own, others⟩ := List.nodup_cons.mp apart
      -- the rows of the turn are those of the end without the values of this field and of the later ones
      have rows := foldEmptied apart pending ok
      rw [List.foldlM_cons] at ok
      obtain ⟨⟨v, filled⟩, first, ok⟩ := Outcome.bindOk.mp ok
      obtain ⟨vs, evaluated, length, own', _, later⟩ := windowFills apart pending first
      obtain ⟨columns, inTurn, fills⟩ :=
        ih (before ++ [entry]) (by simp [split]) (windowSlotted first slotted) later ok
      refine ⟨vs :: columns, ?_, .cons ?_ fills⟩
      · rw [List.map_cons, turn, OutputField.windowsFromSplit split, rows]
        exact Outcome.bindOk.mpr ⟨_, evaluated, Outcome.bindOk.mpr ⟨columns, inTurn, rfl⟩⟩
      · have place : entry ∈ OutputField.ofKind fields .window := by simp [split]
        have named : ∀ o ∈ outputs, o.row.slots[entry.2]? = some (entry.1.name, .unset) := by
          intro o member
          obtain ⟨n, empty⟩ := pending entry List.mem_cons_self o member
          rw [empty, OutputField.slotNamed (slotted o member) (OutputField.kindField place).1 empty]
        rw [Fills, ← Windows.filledColumn length named, ← own', ← foldEmptied others later ok, List.map_map]
        exact List.map_congr_left fun o _ => (Composition.emptiedOther own).symm

/-- The result of a query is made of its output rows: each row of it has one value for each column, that of the
slot of an output row. -/
structure MadeOf (q : Select) (params : List Value) (rows : List Composition) (empty : Composition)
    (fields : List OutputField) (finished : List Output) (r : ResultSet) : Prop where
  listed : OutputField.ofFields empty q.fields = .ok fields
  computed : q.computedRows fields params rows empty = .ok finished
  named : r.columns = fields.map (·.name)
  made : ∀ row ∈ r.rows, row.length = r.columns.length ∧
    ∃ o ∈ finished, o.row.slots = r.columns.zip (row.map Slot.value)

section
variable (fresh : ∀ c ∈ rows, c.slots = []) (none : empty.slots = [])
  (ok : q.computedRows fields params rows empty = .ok finished)
include fresh none ok

/-- All fields but those of windows have their values on the rows of the end, and window fields have the values of
their turns. -/
theorem finishedFills :
    (∀ entry ∈ fields.zipIdx, entry.1.kind ≠ .window → ∀ o ∈ finished, OutputField.HasValue params o entry) ∧
      ∃ columns, (Windows.new q.windows params).inTurn
          ((OutputField.ofKind fields .window).map (turn fields finished)) = .ok columns ∧
        List.Forall₂ (Fills finished) (OutputField.ofKind fields .window) columns := by
  obtain ⟨outputs, formed, ok⟩ := Outcome.bindOk.mp ok
  obtain ⟨filtered, kept, ok⟩ := Outcome.bindOk.mp ok
  obtain ⟨_, _, ok⟩ := Outcome.bindOk.mp ok
  obtain ⟨⟨w', finished⟩, ok, last⟩ := Outcome.bindOk.mp ok
  cases Outcome.pureOk.mp last
  have pending : Pending (OutputField.ofKind fields .window) filtered := fun entry listed o member =>
    outputsPending fresh none formed entry listed o (filterFewer kept member)
  have slotted := filterSlotted kept (outputsSlotted fresh none formed)
  refine ⟨fun entry field kind o listed => ?_, foldInTurn [] rfl slotted pending ok⟩
  have emptied := foldEmptied (OutputField.placesNodup fields .window) pending ok
  have early : o.emptied ((OutputField.ofKind fields .window).map (·.2)) ∈ filtered :=
    emptied ▸ List.mem_map.mpr ⟨o, listed, rfl⟩
  have other : entry.2 ∉ (OutputField.ofKind fields .window).map (·.2) := by
    intro place
    obtain ⟨window, there, same⟩ := List.mem_map.mp place
    obtain ⟨own, windowed⟩ := OutputField.kindField there
    rw [same, List.mem_zipIdx_iff_getElem?.mp field] at own
    exact kind (Option.some.inj own ▸ windowed)
  have has := outputsValues fresh none formed (filterFewer kept early) field kind
  exact OutputField.valueKept has (Composition.emptiedKeeps _ o.row) rfl (Composition.emptiedOther other).symm

/-- No slot is left unset. -/
theorem finishedSlots {o : Output} (listed : o ∈ finished) :
    o.row.slots = (fields.map (·.name)).zip (o.row.project.map Slot.value) := by
  obtain ⟨values, columns, _, fills⟩ := finishedFills fresh none ok
  have names := computedSlotted fresh none ok o listed
  have set : ∀ s ∈ o.row.slots, ∃ v, s.2 = .value v := by
    intro s member
    obtain ⟨i, there⟩ := List.mem_iff_getElem?.mp member
    have name : (fields.map (·.name))[i]? = some s.1 := by
      rw [← names, Composition.slotNames, List.getElem?_map, there]
      rfl
    rw [List.getElem?_map] at name
    obtain ⟨f, field, _⟩ := Option.map_eq_some_iff.mp name
    have entry : (f, i) ∈ fields.zipIdx := List.mem_zipIdx_iff_getElem?.mpr field
    by_cases kind : f.kind = .window
    · obtain ⟨vs, _, fill⟩ := alikeMember fills.flip
        (List.mem_filter.mpr ⟨entry, by simpa using kind⟩ : (f, i) ∈ OutputField.ofKind fields .window)
      have own : some s ∈ vs.map fun v => some (f.name, Slot.value v) :=
        fill ▸ List.mem_map.mpr ⟨o, listed, there⟩
      obtain ⟨v, _, same⟩ := List.mem_map.mp own
      exact ⟨v, congrArg Prod.snd (Option.some.inj same).symm⟩
    · obtain ⟨v, own, _⟩ := values (f, i) entry kind o listed
      rw [there] at own
      exact ⟨v, congrArg Prod.snd (Option.some.inj own)⟩
  rw [← names, Composition.slotNames, Composition.project, List.map_map, List.zip_map', ← List.map_id o.row.slots,
    List.map_map]
  refine List.map_congr_left fun s member => ?_
  obtain ⟨v, value⟩ := set s member
  exact Prod.ext rfl (by simp [value])

end

/-- Window fields have the values that they have alone exactly where no turn is served otherwise. -/
theorem windowsAlone {columns : List (List Value)}
    (inTurn : w.inTurn ((OutputField.ofKind fields .window).map (turn fields finished)) = .ok columns)
    (fills : List.Forall₂ (Fills finished) (OutputField.ofKind fields .window) columns) :
    (∀ entry ∈ OutputField.ofKind fields .window, OutputField.Computes w fields finished entry) ↔
      w.inTurn ((OutputField.ofKind fields .window).map (turn fields finished)) =
        ((OutputField.ofKind fields .window).map (turn fields finished)).mapM w.alone := by
  have each : (∀ entry ∈ OutputField.ofKind fields .window, OutputField.Computes w fields finished entry) ↔
      List.Forall₂ (fun entry vs => w.alone (turn fields finished entry) = .ok vs)
        (OutputField.ofKind fields .window) columns := by
    constructor
    · intro computes
      have both := (List.forall₂_and_left _ _).mpr (And.intro (fun entry listed =>
        And.intro (OutputField.kindField listed).2 (computes entry listed)) fills)
      refine both.imp fun entry vs ⟨⟨kind, vs', own, fills'⟩, fills⟩ => ?_
      rw [OutputField.evalEach, kind] at own
      rw [OutputField.fillsOnce fills fills']
      exact own
    · intro alone entry listed
      obtain ⟨vs, _, own, fill⟩ := alikeMember (alone.mp (fun _ _ own fill => And.intro own fill) fills).flip listed
      refine ⟨vs, ?_, fill⟩
      rw [OutputField.evalEach, (OutputField.kindField listed).2]
      exact own
  rw [each, inTurn, eq_comm, Outcome.mapMOk, List.forall₂_map_left_iff]

/-- Whatever a query groups, filters or computes over windows, each row of its result has one value for each column,
the value of a slot that is set. -/
theorem resultComputes {r : ResultSet} (fresh : ∀ c ∈ rows, c.slots = []) (none : empty.slots = [])
    (ok : q.result params rows empty = .ok r) :
    ∃ fields finished, q.MadeOf params rows empty fields finished r ∧
      let w := Windows.new q.windows params
      let turns := (OutputField.ofKind fields .window).map (turn fields finished)
      (∀ entry ∈ fields.zipIdx, entry.1.kind ≠ .window → OutputField.Computes w fields finished entry) ∧
        (∃ columns, w.inTurn turns = .ok columns ∧
          List.Forall₂ (Fills finished) (OutputField.ofKind fields .window) columns) ∧
        ((∀ entry ∈ fields.zipIdx, OutputField.Computes w fields finished entry) ↔
          w.inTurn turns = turns.mapM w.alone) ∧
        (w.Unmistaken turns → ∀ entry ∈ fields.zipIdx, OutputField.Computes w fields finished entry) := by
  obtain ⟨fields, finished, expanded, computed, columns, projects⟩ := resultProjects ok
  obtain ⟨values, filled, inTurn, fills⟩ := finishedFills fresh none computed
  refine ⟨fields, finished, ⟨expanded, computed, columns, fun row listed => ?_⟩, ?_⟩
  · obtain ⟨o, member, rfl⟩ := projects row listed
    refine ⟨?_, o, member, columns ▸ finishedSlots fresh none computed member⟩
    rw [Composition.projectLength, computedSlotted fresh none computed o member, columns]
  · intro w turns
    have others : ∀ entry ∈ fields.zipIdx, entry.1.kind ≠ .window → OutputField.Computes w fields finished entry := by
      intro entry field kind
      obtain ⟨vs, own, fill⟩ := OutputField.fillsEach (values entry field kind)
      refine ⟨vs, ?_, fill⟩
      unfold OutputField.evalEach
      split
      · exact absurd ‹_› kind
      · exact own
    have all : (∀ entry ∈ fields.zipIdx, OutputField.Computes w fields finished entry) ↔
        w.inTurn turns = turns.mapM w.alone := by
      rw [← windowsAlone inTurn fills]
      refine ⟨fun each entry listed => each entry (List.mem_of_mem_filter listed), fun windows entry field => ?_⟩
      by_cases kind : entry.1.kind = .window
      · exact windows entry (List.mem_filter.mpr ⟨field, by simpa using kind⟩)
      · exact others entry field kind
    refine ⟨others, ⟨filled, inTurn, fills⟩, all, fun told => all.mpr ?_⟩
    rw [inTurn, Windows.inTurnAlone told inTurn]

end SelectOf

namespace Context
open OutputField (Computes Fills turn)

variable {ctx : Context} {params : List Value} {q : Select} {r : ResultSet}

/-- Each row of a result has one value for each column, and no value stands for a field that was not computed: the
slots of all output rows are set. They have what their fields evaluate to, for the row, over its group or in turn
over its window. In its turn a window field has the values that it has alone exactly if what was computed in earlier
turns makes no difference, which is so where texts tell window calls and specifications apart. -/
theorem selectComputes (ok : ctx.select params q = .ok r) :
    ∃ X main others run rows fields finished, q.expand ctx.catalog ctx.database = .ok X ∧ X.sources = main :: others ∧
      JoinRun.start (ctx.sourceWithin params (Source.depthOfQuery q + 1)) main (others.map JoinOf.cross ++ X.joins)
        X.condition params = .ok run ∧ run.collect.2 = .ok rows ∧
      X.MadeOf params rows run.emptyComposition fields finished r ∧
      let w := Windows.new X.windows params
      let turns := (OutputField.ofKind fields .window).map (turn fields finished)
      (∀ entry ∈ fields.zipIdx, entry.1.kind ≠ .window → Computes w fields finished entry) ∧
        (∃ columns, w.inTurn turns = .ok columns ∧
          List.Forall₂ (Fills finished) (OutputField.ofKind fields .window) columns) ∧
        ((∀ entry ∈ fields.zipIdx, Computes w fields finished entry) ↔ w.inTurn turns = turns.mapM w.alone) ∧
        (w.Unmistaken turns → ∀ entry ∈ fields.zipIdx, Computes w fields finished entry) := by
  rw [select, selectWithinEq] at ok
  obtain ⟨X, expanded, ok⟩ := Outcome.bindOk.mp ok
  unfold SelectOf.evalWith at ok
  split at ok
  · cases ok
  · rename_i main others sources
    obtain ⟨run, started, ok⟩ := Outcome.bindOk.mp ok
    obtain ⟨rows, collected, ok⟩ := Outcome.bindOk.mp ok
    have fresh : ∀ c ∈ rows, c.slots = [] := fun c member =>
      JoinRun.passesSlots (JoinRun.collectPasses collected c member)
    obtain ⟨fields, finished, made, computes⟩ := SelectOf.resultComputes fresh (JoinRun.emptySlots run) ok
    exact ⟨X, main, others, run, rows, fields, finished, expanded, sources, started, collected, made, computes⟩

def largestFirst : Expr :=
  .aggregate .rank none false (some (.spec ⟨none, [], [⟨.column ⟨none, "n"⟩, .desc⟩]⟩))

/-- Organisations ranked by the number of their users. -/
def organisations : Select where
  distinct := false
  fields := [.expr (.column ⟨none, "org"⟩) none,
    .expr (.aggregate .count (some (.column ⟨none, "id"⟩)) false none) (some "n"),
    .expr largestFirst (some "place")]
  sources := [.table none "users" none]
  joins := []
  condition := none
  groupBy := [.column ⟨none, "org"⟩]
  having := some (.binary .ge (.column ⟨none, "n"⟩) (.literal (.int 1)))
  windows := []
  orderBy := []
  limit := none
  offset := none

theorem singleUnmistaken (w : Windows) (t : Windows.Turn) (single : Windows.calls t.expr = [largestFirst]) :
    w.Unmistaken [t] := by
  have once {rows : List Output} {call : Expr} (asks : Windows.Asks [t] rows call) :
      rows = t.rows ∧ call = largestFirst := by
    obtain ⟨t', member, rfl, inside⟩ := asks
    cases List.mem_singleton.mp member
    rw [single] at inside
    exact ⟨rfl, List.mem_singleton.mp inside⟩
  refine ⟨fun rows call rows' call' asks asks' _ => ?_,
    fun rows call rows' call' spec spec' asks asks' own own' _ => ?_⟩
  · rw [(once asks).1, (once asks').1, (once asks).2, (once asks').2]
  · rw [(once asks).2] at own
    rw [(once asks').2] at own'
    rw [(once asks).1, (once asks').1, Except.ok.inj (own.symm.trans own')]

/-- A direct, an aggregate and a window field beside HAVING have the values that they evaluate to. -/
theorem selectComputesOrganisations :
    let result : ResultSet := ⟨["org", "n", "place"], [[.int 7, .int 2, .int 1], [.int 8, .int 1, .int 2]]⟩
    (staff "id").select [] organisations = .ok result ∧
      ∃ fields finished, fields.map (·.kind) = [.direct, .aggregate, .window] ∧
        (∀ row ∈ result.rows, ∃ o ∈ finished, o.row.slots = result.columns.zip (row.map Slot.value)) ∧
          ∀ entry ∈ fields.zipIdx, Computes (.new [] []) fields finished entry := by
  intro result
  have answered : (staff "id").select [] organisations = .ok result := by cbv
  obtain ⟨X, _, _, run, _, fields, finished, expanded, _, _, _, made, _, _, _, computes⟩ := selectComputes answered
  have own : organisations.expand (staff "id").catalog (staff "id").database = .ok organisations := rfl
  cases own.symm.trans expanded
  cases made.listed
  refine ⟨answered, _, finished, by decide +kernel, fun row listed => (made.made row listed).2, computes ?_⟩
  exact singleUnmistaken _ _ rfl

/-- A table with one row, of NULL and 2. -/
def unknown : Context :=
  let schema : TableSchema := ⟨"t", [.new "a" .int64, .new "b" .int64], [], [], false, "memory"⟩
  { catalog := ⟨"main", [(⟨"main", "t"⟩, schema)]⟩
    storage := (Storage.ofCatalog ⟨"main", [(⟨"main", "t"⟩, schema)]⟩).fill ⟨"main", "t"⟩ [[.null, .int 2]]
    database := "main" }

def leasts (fields : List Field) : Select where
  distinct := false
  fields := fields
  sources := [.table none "t" none]
  joins := []
  condition := none
  groupBy := []
  having := none
  windows := []
  orderBy := []
  limit := none
  offset := none

open Windows (equalityIsNull equalsNullness unknownAndTwo)

/-- A field that is NULL has the value of a field before it, whose call has the same text. -/
theorem nullnessServed :
    let both := leasts [.expr equalityIsNull (some "p"), .expr equalsNullness (some "q")]
    let result : ResultSet := ⟨["p", "q"], [[.boolean true, .boolean true]]⟩
    let fields : List OutputField := [⟨"p", equalityIsNull⟩, ⟨"q", equalsNullness⟩]
    unknown.select [] both = .ok result ∧
      unknown.select [] (leasts [.expr equalsNullness (some "q")]) = .ok ⟨["q"], [[.null]]⟩ ∧
      ∃ finished, both.MadeOf [] (unknownAndTwo.map (·.row)) .empty fields finished result ∧
        ¬ ∀ entry ∈ fields.zipIdx, Computes (.new [] []) fields finished entry := by
  intro both result fields
  let finished : List Output := unknownAndTwo.map fun o =>
    .ofRow { o.row with slots := [("p", .value (.boolean true)), ("q", .value (.boolean true))] }
  refine ⟨by decide +kernel, by decide +kernel, finished, ⟨rfl, by decide +kernel, rfl, by decide +kernel⟩,
    fun all => ?_⟩
  obtain ⟨vs, own, fill⟩ := all (⟨"q", equalsNullness⟩, 1) (by simp [fields])
  have alone : OutputField.evalEach (.new [] []) fields finished (⟨"q", equalsNullness⟩, 1) = .ok [.null] := by
    decide +kernel
  cases own.symm.trans alone
  cases fill

end Context

end RelQuery
