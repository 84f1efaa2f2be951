import RelQuery.Proofs.Join.Answer
import RelQuery.Proofs.Outcome

/-! What a run leaves alone and what it reads. Steps move cursors and fill records only, so the sources
stay what they were when the join was started; every composition has a sub-row for each of them, in order,
and satisfies the joins and the condition; and a function that is given the compositions one by one is
given those that `collect` lists. -/
namespace RelQuery

/-- The names of the sub-rows, with the mark of those that are hidden. -/
def Composition.marks (c : Composition) : List (String × Bool) := c.sources.map fun s => (s.1, s.2.hidden)

namespace JoinRun
open Relational (still stillMain advanceSame foldFinished foldNone foldSome foldPush
  firstRepeatedNone)

def settled (r : JoinRun) : List OpenSource := r.sources.map stillMain

/-- The names of the sources, with the mark of those that are hidden. -/
def marks (r : JoinRun) : List (String × Bool) := r.sources.map fun s => (s.name, s.hidden)

def Drawn (sources : List OpenSource) (c : Composition) : Prop :=
  ∀ name row, c.row? name = some row → ∃ s ∈ sources, s.name = name ∧ row ∈ s.cursor.rows

section
variable (main : String) (params : List Value) (last : Bool)

/-- The ways in which joins may extend a composition. The row of a join satisfies its condition, which is
asked of a RIGHT or FULL join only where the main source has a row. A sub-row stays empty by a LEFT or
FULL join, or where the main source has none. -/
inductive Joined : List JoinSource → Composition → Composition → Prop where
  | done (c : Composition) : Joined [] c c
  | row {j : JoinSource} {joins : List JoinSource} {c c' : Composition} {row : Row}
      (member : row ∈ j.source.cursor.rows)
      (matched : last = true ∧ j.kind.keepsUnmatchedJoin = true ∨
        j.holds main params (j.source.pushInto c (some row)) = .ok true)
      (rest : Joined joins (j.source.pushInto c (some row)) c') : Joined (j :: joins) c c'
  | empty {j : JoinSource} {joins : List JoinSource} {c c' : Composition}
      (kept : last = true ∨ j.kind.keepsUnmatchedMain = true)
      (rest : Joined joins (j.source.pushInto c none) c') : Joined (j :: joins) c c'

end

/-- A composition of the sources' rows that satisfies the joins and the condition. -/
def Passes (r : JoinRun) (c : Composition) : Prop :=
  ∃ row : Option Row, (∀ own ∈ row, own ∈ r.main.cursor.rows) ∧
    Joined r.main.name r.params row.isNone r.joins (r.main.pushInto .empty row) c ∧
      r.passesCondition c = .ok true

variable {r r' : JoinRun} {c c' : Composition} {sources : List OpenSource}

/-! Sources -/

theorem settledJoins (joins : List JoinSource) :
    (joins.map (·.source)).map stillMain = (joins.map still).map (·.source) := by
  rw [List.map_map, List.map_map]
  rfl

theorem settledAdvance (r : JoinRun) : r.advance.settled = r.settled := by
  obtain ⟨main, joins, _⟩ := advanceSame r
  simp only [settled, sources, List.map_cons, settledJoins, main, joins]

theorem settledStep (r : JoinRun) : r.step.1.settled = r.settled := by
  have filled (records : List MatchRecord) : settled { r with records := records } = r.settled := rfl
  simp only [step]
  split
  · exact filled _
  · exact settledAdvance _
  · exact settledAdvance _

theorem settledFold {σ : Type} (f : σ → Composition → Outcome σ) (s : σ) (r : JoinRun) :
    (r.fold f s).1.settled = r.settled := by
  fun_induction fold f s r with
  | case1 => rfl
  | case2 s r _ r' e stepped => rw [← settledStep r, stepped]
  | case3 s r _ r' stepped ih => rw [ih, ← settledStep r, stepped]
  | case4 s r _ r' c stepped e failed => rw [← settledStep r, stepped]
  | case5 s r _ r' c stepped s' taken ih => rw [ih, ← settledStep r, stepped]

/-! What the rows of a composition are -/

theorem rowPush (c : Composition) (name other : String) (sub : SubRow) {row : Row}
    (there : (c.push name sub).row? other = some row) :
    c.row? other = some row ∨ other = name ∧ sub.row = some row := by
  simp only [Composition.row?, Composition.subRow?, Composition.push, List.lookup_append] at there ⊢
  cases first : c.sources.lookup other with
  | some found => exact .inl (by simpa [first] using there)
  | none =>
      right
      rw [first, Option.none_or, List.lookup_cons] at there
      by_cases same : other = name
      · subst same
        exact ⟨rfl, by simpa using there⟩
      · have apart : (other == name) = false := beq_eq_false_iff_ne.mpr same
        simp [apart] at there

theorem drawnPush {s : OpenSource} {row : Option Row} (drawn : Drawn sources c) (member : s ∈ sources)
    (own : ∀ r ∈ row, r ∈ s.cursor.rows) : Drawn sources (s.pushInto c row) := by
  intro name r there
  rcases rowPush c s.name name _ there with before | ⟨same, here⟩
  · exact drawn name r before
  · exact ⟨s, member, same.symm, own r here⟩

theorem joinedDrawn {main : String} {params : List Value} {last : Bool} {joins : List JoinSource}
    (joined : Joined main params last joins c c') (drawn : Drawn sources c)
    (member : ∀ j ∈ joins, j.source ∈ sources) : Drawn sources c' := by
  induction joined with
  | done => exact drawn
  | row own _ _ ih =>
      refine ih (drawnPush drawn (member _ List.mem_cons_self) ?_)
        fun i inside => member i (List.mem_cons_of_mem _ inside)
      rintro _ ⟨⟩
      exact own
  | empty _ _ ih =>
      exact ih (drawnPush drawn (member _ List.mem_cons_self) (by simp))
        fun i inside => member i (List.mem_cons_of_mem _ inside)

theorem passesDrawn (passes : r.Passes c) : Drawn r.sources c := by
  obtain ⟨row, own, joined, _⟩ := passes
  refine joinedDrawn joined (drawnPush ?_ List.mem_cons_self own)
    fun j member => List.mem_cons_of_mem _ (List.mem_map_of_mem member)
  intro name row there
  simp [Composition.row?, Composition.subRow?, Composition.empty] at there

/-! Steps -/

section
variable {main : String} {params : List Value} {last early : Bool} {lead : List Nat}

theorem joinedStill {joins joins' : List JoinSource} (same : joins'.map still = joins.map still)
    (joined : Joined main params last joins' c c') : Joined main params last joins c c' := by
  induction joined generalizing joins with
  | done =>
      obtain rfl := List.map_eq_nil_iff.mp same.symm
      exact .done _
  | @row i _ _ _ row member matched _ ih =>
      obtain ⟨j, rest, rfl, one, others⟩ := List.map_eq_cons_iff.mp same.symm
      have source : stillMain j.source = stillMain i.source := congrArg (fun j => j.source) one
      have kind : j.kind = i.kind := congrArg (fun j => j.kind) one
      have rows : j.source.cursor.rows = i.source.cursor.rows :=
        congrArg (fun s => s.cursor.rows) source
      have pushed (c : Composition) (row : Option Row) :
          j.source.pushInto c row = i.source.pushInto c row :=
        congrArg (fun s => s.pushInto c row) source
      have asks : j.holds main params = i.holds main params :=
        congrArg (fun s => s.holds main params) one
      have own : row ∈ j.source.cursor.rows := rows ▸ member
      refine .row own ?_ ?_
      · rwa [kind, pushed, asks]
      · rw [pushed]
        exact ih others.symm
  | @empty i _ _ _ kept _ ih =>
      obtain ⟨j, rest, rfl, one, others⟩ := List.map_eq_cons_iff.mp same.symm
      have kind : j.kind = i.kind := congrArg (fun j => j.kind) one
      have pushed (c : Composition) : j.source.pushInto c none = i.source.pushInto c none :=
        congrArg (fun s => s.source.pushInto c none) one
      refine .empty (kind ▸ kept) ?_
      rw [pushed]
      exact ih others.symm

theorem passesAdvance (passes : r.advance.Passes c) : r.Passes c := by
  obtain ⟨main, joins, _, condition, params⟩ := advanceSame r
  obtain ⟨row, own, joined, holds⟩ := passes
  have name : r.advance.main.name = r.main.name := congrArg (fun s => s.name) main
  have rows : r.advance.main.cursor.rows = r.main.cursor.rows := congrArg (·.cursor.rows) main
  have pushed : r.advance.main.pushInto .empty row = r.main.pushInto .empty row :=
    congrArg (fun s => s.pushInto .empty row) main
  have filter : r.advance.passesCondition c = r.passesCondition c := by
    simp only [passesCondition, condition, params]
  refine ⟨row, rows ▸ own, ?_, filter ▸ holds⟩
  rw [name, params, pushed] at joined
  exact joinedStill joins joined

theorem extendJoins {j : JoinSource} {m m' : MatchRecord}
    (extended : j.extend main params last early m lead c = (m', .ok (some c'))) :
    ∃ row : Option Row, c' = j.source.pushInto c row ∧
      ∀ {joins : List JoinSource} {final : Composition}, Joined main params last joins c' final →
        Joined main params last (j :: joins) c final := by
  simp only [JoinSource.extend] at extended
  split at extended
  · rename_i row fetched
    have member : row ∈ j.source.cursor.rows := Array.mem_of_getElem? fetched
    refine ⟨some row, ?_⟩
    split at extended
    · cases extended
    · split at extended
      · rename_i own
        simp only [Prod.mk.injEq, Except.ok.injEq, Option.ite_none_left_eq_some,
          Option.some.injEq] at extended
        obtain ⟨_, _, rfl⟩ := extended
        simp only [Bool.and_eq_true] at own
        exact ⟨rfl, fun rest => .row member (.inl own) rest⟩
      · split at extended
        · cases extended
        · rename_i holds
          cases extended
          exact ⟨rfl, fun rest => .row member (.inr holds) rest⟩
        · cases extended
  · -- Past the last row, a sub-row is formed only where it may stay empty.
    refine ⟨none, ?_⟩
    simp only [Prod.mk.injEq, Except.ok.injEq, Option.ite_none_right_eq_some, Bool.or_eq_true,
      Bool.and_eq_true, Option.some.injEq] at extended
    obtain ⟨_, kept, rfl⟩ := extended
    exact ⟨rfl, fun rest => .empty (kept.imp And.left fun keeps => keeps.1.1) rest⟩

theorem extendAllJoins {joins : List JoinSource} {records records' : List MatchRecord}
    (extended : JoinSource.extendAll main params last joins records early lead c =
      (records', .ok (some c'))) : Joined main params last joins c c' := by
  induction joins generalizing records records' early lead c with
  | nil =>
      cases extended
      exact .done _
  | cons j joins ih =>
      simp only [JoinSource.extendAll] at extended
      split at extended
      · rename_i m next one
        generalize others : JoinSource.extendAll main params last joins records.tail
          (early && !j.kind.keepsUnmatchedJoin) (j.source.cursor.position :: lead) next = rest
          at extended
        obtain ⟨ms, o⟩ := rest
        simp only [Prod.mk.injEq] at extended
        obtain ⟨_, rfl⟩ := extended
        obtain ⟨_, _, joins⟩ := extendJoins one
        exact joins (ih others)
      · rename_i m o refused one
        simp only [Prod.mk.injEq] at extended
        obtain ⟨_, rfl⟩ := extended
        exact (refused c' rfl).elim

end

theorem stepAdvances {o : Option Composition} (stepped : r.step = (r', .ok o)) :
    ∃ records, r' = advance { r with records := records } := by
  simp only [step] at stepped
  split at stepped <;> simp only [Prod.mk.injEq] at stepped
  · cases stepped.2
  · exact ⟨_, stepped.1.symm⟩
  · exact ⟨_, stepped.1.symm⟩

theorem stepPasses (stepped : r.step = (r', .ok (some c))) : r.Passes c := by
  simp only [step] at stepped
  split at stepped
  · cases stepped
  · cases stepped
  · rename_i found formed
    simp only [Prod.mk.injEq, Outcome.mapOk, Option.ite_none_right_eq_some, Option.some.injEq]
      at stepped
    obtain ⟨_, b, holds, rfl, rfl⟩ := stepped
    refine ⟨r.main.cursor.fetch, fun own fetched => Array.mem_of_getElem? fetched, ?_, holds⟩
    exact extendAllJoins (Prod.ext rfl formed)

theorem passesLater {o : Option Composition} (stepped : r.step = (r', .ok o)) (passes : r'.Passes c) :
    r.Passes c := by
  obtain ⟨records, rfl⟩ := stepAdvances stepped
  have filled : Passes { r with records := records } c := passesAdvance passes
  exact filled

/-! Whole runs -/

section
variable {σ : Type} {f : σ → Composition → Outcome σ} {s s' : σ}

theorem foldReads (ok : (r.fold f s).2 = .ok s') : ∃ cs : List Composition,
    r.collect.2 = .ok cs ∧ cs.foldlM f s = .ok s' ∧ ∀ c ∈ cs, r.Passes c := by
  -- What `collect` has gathered before is arbitrary, so that the induction can follow the fold.
  suffices reads : ∃ cs : List Composition, (∀ seen : Array Composition,
      (r.fold (fun seen c => (.ok (seen.push c) : Outcome _)) seen).2 = .ok (seen ++ cs.toArray)) ∧
        cs.foldlM f s = .ok s' ∧ ∀ c ∈ cs, r.Passes c by
    obtain ⟨cs, all, folded, passes⟩ := reads
    refine ⟨cs, ?_, folded, passes⟩
    simp only [collect, all]
    simp [Except.map]
  fun_induction fold f s r with
  | case1 s r finished =>
      cases ok
      exact ⟨[], fun seen => by rw [foldFinished finished]; simp, rfl, by simp⟩
  | case2 s r running r' e stepped => cases ok
  | case3 s r running r' stepped ih =>
      obtain ⟨cs, all, folded, passes⟩ := ih ok
      refine ⟨cs, fun seen => ?_, folded, fun c member => passesLater stepped (passes c member)⟩
      rw [foldNone (by simpa using running) stepped]
      exact all seen
  | case4 s r running r' c stepped e failed => cases ok
  | case5 s r running r' c stepped next taken ih =>
      obtain ⟨cs, all, folded, passes⟩ := ih ok
      refine ⟨c :: cs, fun seen => ?_, ?_, ?_⟩
      · rw [foldSome (by simpa using running) stepped]
        simp [Except.bind, all]
      · rw [List.foldlM_cons, taken]
        exact folded
      · intro other member
        rcases List.mem_cons.mp member with rfl | member
        · exact stepPasses stepped
        · exact passesLater stepped (passes other member)

end

theorem collectPasses {cs : List Composition} (ok : r.collect.2 = .ok cs) : ∀ c ∈ cs, r.Passes c := by
  obtain ⟨seen, folded, rfl⟩ := Outcome.mapOk.mp ok
  obtain ⟨cs, _, pushed, passes⟩ := foldReads folded
  rw [foldPush] at pushed
  cases pushed
  simpa using passes

/-! Starting -/

def Opened (evaluate : Source → Outcome Relation) (source : Source) (s : OpenSource) : Prop :=
  ∃ hidden relation, evaluate source = .ok relation ∧ s = OpenSource.start source.name hidden relation

theorem joinOpens {evaluate : Source → Outcome Relation} {j : Join} {opened : JoinSource}
    (ok : openJoin evaluate j = .ok opened) : Opened evaluate j.source opened.source := by
  obtain ⟨relation, evaluated, last⟩ := Outcome.bindOk.mp ok
  cases Outcome.pureOk.mp last
  exact ⟨j.hidden, relation, evaluated, rfl⟩

theorem startOpens {evaluate : Source → Outcome Relation} {main : Source} {joins : List Join}
    {condition : Option Expr} {params : List Value}
    (ok : start evaluate main joins condition params = .ok r) :
    (main.name :: joins.map (·.source.name)).Nodup ∧
      List.Forall₂ (Opened evaluate) (main :: joins.map (·.source)) r.sources := by
  obtain ⟨distinct, relation, opened, evaluated, others, rfl⟩ := Relational.startOk.mp ok
  refine ⟨distinct, .cons ⟨false, relation, evaluated, rfl⟩ ?_⟩
  rw [List.forall₂_map_left_iff]
  exact List.forall₂_map_right_iff.mpr ((Outcome.mapMOk.mp others).imp fun _ _ => joinOpens)

/-! The sub-rows of a composition -/

theorem marksPush (s : OpenSource) (c : Composition) (row : Option Row) :
    (s.pushInto c row).marks = c.marks ++ [(s.name, s.hidden)] := by
  simp [OpenSource.pushInto, Composition.push, Composition.marks, OpenSource.subRow]

theorem joinedMarks {main : String} {params : List Value} {last : Bool} {joins : List JoinSource}
    (joined : Joined main params last joins c c') :
    c'.marks = c.marks ++ joins.map fun j => (j.source.name, j.source.hidden) := by
  induction joined with
  | done => simp
  | row _ _ _ ih =>
      rw [ih, marksPush, List.append_assoc]
      rfl
  | empty _ _ ih =>
      rw [ih, marksPush, List.append_assoc]
      rfl

theorem passesMarks (passes : r.Passes c) : c.marks = r.marks := by
  obtain ⟨row, _, joined, _⟩ := passes
  rw [joinedMarks joined, marksPush, marks, sources, List.map_cons, List.map_map]
  rfl

theorem emptyMarks (r : JoinRun) : r.emptyComposition.marks = r.marks := by
  have pushed (sources : List OpenSource) (c : Composition) :
      (sources.foldl (fun c s => s.pushInto c none) c).marks =
        c.marks ++ sources.map fun s => (s.name, s.hidden) := by
    induction sources generalizing c with
    | nil => exact (List.append_nil _).symm
    | cons s sources ih =>
        rw [List.foldl_cons, ih, marksPush, List.append_assoc]
        rfl
  exact pushed r.sources .empty

theorem startMarks {evaluate : Source → Outcome Relation} {main : Source} {joins : List Join}
    {condition : Option Expr} {params : List Value}
    (ok : start evaluate main joins condition params = .ok r) :
    r.marks = (main.name, false) :: joins.map fun j => (j.source.name, j.hidden) := by
  obtain ⟨_, relation, opened, _, others, rfl⟩ := Relational.startOk.mp ok
  have same : joins.map (fun j => (j.source.name, j.hidden)) =
      opened.map fun o => (o.source.name, o.source.hidden) := by
    rw [← List.forall₂_eq_eq_eq, List.forall₂_map_left_iff, List.forall₂_map_right_iff]
    refine (Outcome.mapMOk.mp others).imp fun j o opens => ?_
    obtain ⟨_, _, last⟩ := Outcome.bindOk.mp opens
    cases Outcome.pureOk.mp last
    rfl
  rw [same, marks, sources, List.map_cons, List.map_map]
  rfl

end JoinRun

end RelQuery
