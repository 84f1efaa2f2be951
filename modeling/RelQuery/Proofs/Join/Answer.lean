import RelQuery.Proofs.Join.Collect
import RelQuery.Proofs.Join.Reference

/-! The answer of a join engine. It is the join of the sources, one after another, in the rising order of
the cursors' readings, as long as no more than one join is RIGHT or FULL. With more of them the engine
answers the join exactly if its last round finds the members that have no row of the main source. -/
namespace RelQuery.Relational

section
variable {main : OpenSource} {params : List Value} {joins : List JoinSource}

theorem membersVisited {x : Lead} (h : x ∈ members main params joins.reverse) :
    x ∈ visits main joins := by
  rcases List.mem_append.mp h with first | final
  · obtain ⟨fits, m, less, last⟩ := fromMainFits first
    refine memVisits fits last ?_
    rw [rounds]
    split <;> omega
  · obtain ⟨outer, final⟩ := memExhausted.mp final
    obtain ⟨fits, last⟩ := lastRoundFits final
    refine memVisits fits last ?_
    rw [rounds, if_pos (by simpa [JoinRun.hasOuter] using outer)]
    exact Nat.lt_succ_self _

theorem membersSorted (main : OpenSource) (params : List Value) (joins : List JoinSource) :
    ((visits main joins).filter fun x => (members main params joins.reverse).contains x).Perm
      (members main params joins.reverse) := by
  have distinct : (visits main joins).Nodup :=
    (visitsSorted main joins).imp fun {a b} less (same : a = b) =>
      List.lt_irrefl _ (same ▸ less)
  rw [List.perm_ext_iff_of_nodup (distinct.filter _) (membersNodup _)]
  intro x
  rw [List.mem_filter, List.contains_iff_mem]
  exact and_iff_right_of_imp membersVisited

theorem evaluableOfSingle (single : joins.countP (·.kind.keepsUnmatchedJoin) ≤ 1)
    (h : Evaluable main params (fun _ earlier => reference main params earlier) joins) :
    Evaluable main params (asked main params) joins := by
  induction joins with
  | nil => trivial
  | cons j earlier ih =>
      rw [List.countP_cons] at single
      have fewer : earlier.countP (·.kind.keepsUnmatchedJoin) ≤ 1 := by omega
      refine ⟨ih fewer h.1, fun lead asked => h.2 lead ((memReferenceOfSingle fewer).mpr ?_)⟩
      rcases memAsked.mp asked with first | ⟨_, final⟩
      · exact List.mem_append_left _ first
      · exact List.mem_append_right _ (memExhausted.mpr final)

end

/-! Starting a join -/

theorem firstRepeatedNone (names seen : List String) : JoinRun.firstRepeated seen names = none ↔
    names.Nodup ∧ ∀ name ∈ names, name ∉ seen := by
  induction names generalizing seen with
  | nil => simp [JoinRun.firstRepeated]
  | cons name names ih =>
      rw [JoinRun.firstRepeated]
      by_cases again : name ∈ seen
      · simp [again]
      · simp only [List.contains_iff_mem, again, if_false, ih, List.nodup_cons, List.mem_cons,
          not_or, forall_eq_or_imp, not_false_eq_true, true_and]
        constructor
        · rintro ⟨distinct, fresh⟩
          exact ⟨⟨fun member => (fresh name member).1 rfl, distinct⟩,
            fun other member => (fresh other member).2⟩
        · rintro ⟨⟨alone, distinct⟩, fresh⟩
          exact ⟨distinct, fun other member =>
            ⟨fun same => alone (same ▸ member), fresh other member⟩⟩

variable {evaluate : Source → Outcome Relation} {main : Source} {joins : List Join}
  {condition : Option Expr} {params : List Value} {relation : Relation}
  {sources : List JoinSource}

theorem openedAll (opened : joins.mapM (JoinRun.openJoin evaluate) = .ok sources) :
    (∀ j ∈ sources, j.source.cursor.position = 0) ∧ sources.map still = sources ∧
      sources.map (·.kind) = joins.map (·.kind) := by
  induction joins generalizing sources with
  | nil =>
      cases Outcome.pureOk.mp opened
      exact ⟨by simp, rfl, rfl⟩
  | cons j joins ih =>
      rw [List.mapM_cons, Outcome.bindOk] at opened
      obtain ⟨source, one, opened⟩ := opened
      obtain ⟨rest, others, last⟩ := Outcome.bindOk.mp opened
      cases Outcome.pureOk.mp last
      obtain ⟨relation, _, last⟩ := Outcome.bindOk.mp one
      cases Outcome.pureOk.mp last
      obtain ⟨first, same, kinds⟩ := ih others
      refine ⟨?_, ?_, ?_⟩
      · intro i member
        rcases List.mem_cons.mp member with rfl | member
        · rfl
        · exact first i member
      · rw [List.map_cons, same]
        rfl
      · rw [List.map_cons, List.map_cons, kinds]

theorem countOpened (opened : joins.mapM (JoinRun.openJoin evaluate) = .ok sources) :
    sources.reverse.countP (·.kind.keepsUnmatchedJoin) =
      joins.countP (·.kind.keepsUnmatchedJoin) := by
  have kinds (p : JoinKind → Bool) : sources.countP (fun j => p j.kind) =
      joins.countP (fun j => p j.kind) := by
    have same := congrArg (List.countP p) (openedAll opened).2.2
    rwa [List.countP_map, List.countP_map] at same
  rw [List.countP_reverse]
  exact kinds _

def opening (main : Source) (relation : Relation) : OpenSource :=
  OpenSource.start main.name false relation

theorem allRecordedNone {main : OpenSource} (earlier sources : List JoinSource) :
    AllRecorded main params [] earlier sources (sources.map fun _ => .none) := by
  induction sources generalizing earlier with
  | nil => trivial
  | cons j sources ih => exact ⟨recordedNone earlier j, ih (j :: earlier)⟩

/-- The run that a join of sources which have been opened starts with. -/
def starting (main : OpenSource) (sources : List JoinSource) (condition : Option Expr) (params : List Value) :
    JoinRun :=
  ⟨main, sources, sources.map fun _ => .none, condition, params, main.cursor.atEnd && !JoinRun.hasOuter sources⟩

theorem startOk {r : JoinRun} : JoinRun.start evaluate main joins condition params = .ok r ↔
    (main.name :: joins.map (·.source.name)).Nodup ∧ ∃ relation sources, evaluate main = .ok relation ∧
      joins.mapM (JoinRun.openJoin evaluate) = .ok sources ∧
        r = starting (opening main relation) sources condition params := by
  have fresh := firstRepeatedNone (main.name :: joins.map (·.source.name)) []
  simp only [List.not_mem_nil, not_false_eq_true, implies_true, and_true] at fresh
  rw [JoinRun.start, ← fresh]
  cases JoinRun.firstRepeated [] (main.name :: joins.map (·.source.name)) with
  | some name => simp [Outcome.refuse]
  | none =>
      simp only [Outcome.bindOk, Outcome.pureOk, true_and, exists_and_left]
      refine exists_congr fun relation => and_congr_right fun _ => ?_
      exact exists_congr fun sources => and_congr_right fun _ => eq_comm

theorem startUnderway (condition : Option Expr) (params : List Value)
    (distinct : (main.name :: joins.map (·.source.name)).Nodup)
    (evaluated : evaluate main = .ok relation)
    (opened : joins.mapM (JoinRun.openJoin evaluate) = .ok sources) :
    ∃ r, JoinRun.start evaluate main joins condition params = .ok r ∧
      Underway (opening main relation) params sources [] r ∧ r.condition = condition ∧
        ahead r = visits (opening main relation) sources := by
  obtain ⟨first, same, _⟩ := openedAll opened
  have all := aheadStart (r := starting (opening main relation) sources condition params) rfl first rfl
  exact ⟨_, startOk.mpr ⟨distinct, relation, sources, evaluated, opened, rfl⟩,
    ⟨rfl, same, rfl, allRecordedNone [] sources, all⟩, rfl, all⟩

theorem collectMembers (condition : Option Expr) (params : List Value)
    (distinct : (main.name :: joins.map (·.source.name)).Nodup)
    (evaluated : evaluate main = .ok relation)
    (opened : joins.mapM (JoinRun.openJoin evaluate) = .ok sources)
    (evaluable : Evaluable (opening main relation) params (asked (opening main relation) params)
      sources.reverse)
    (filterable : ∀ x ∈ members (opening main relation) params sources.reverse,
      (whereHolds condition params (compose (opening main relation) sources.reverse x)).isOk =
        true) :
    ∃ e, (JoinEngine.new main joins condition params).init evaluate = .ok e ∧
      e.collect.2 = .ok (answers (opening main relation) params condition sources
        (visits (opening main relation) sources)) := by
  obtain ⟨r, started, underway, filter, all⟩ :=
    startUnderway condition params distinct evaluated opened
  have collected := collectUnderway underway evaluable
    (filter ▸ fun x _ belongs => filterable x belongs)
  refine ⟨_, by simp only [JoinEngine.init, started, JoinEngine.new]; rfl, ?_⟩
  rw [filter, all] at collected
  exact collected

/-! Sources of one column, for the samples -/

def numbers (s : Source) : Relation :=
  let ids : List Int64 := match s.name with
    | "a" => [1, 2]
    | "b" => [1]
    | "c" => [2, 3]
    | _ => [7]
  .ofResult (.new ["id"] (ids.map fun n => [.int n]))

def named (name : String) : Source := .table none name none

def sourceOf (j : Join) : JoinSource :=
  ⟨.start j.source.name j.hidden (numbers j.source), j.kind, j.condition⟩

theorem opensNumbers (joins : List Join) :
    joins.mapM (JoinRun.openJoin (.ok ∘ numbers)) = .ok (joins.map sourceOf) := by
  induction joins with
  | nil => rfl
  | cons j joins ih =>
      rw [List.mapM_cons, ih]
      rfl

def joinOf (kind : JoinKind) (name : String) : Join := ⟨kind, named name, some (.shared "id"), false⟩

/-- With at most one RIGHT or FULL join, an engine collects the join of its sources. -/
theorem collectsJoin (distinct : (main.name :: joins.map (·.source.name)).Nodup)
    (evaluated : evaluate main = .ok relation)
    (opened : joins.mapM (JoinRun.openJoin evaluate) = .ok sources)
    (single : joins.countP (·.kind.keepsUnmatchedJoin) ≤ 1)
    (evaluable : Evaluable (opening main relation) params
      (fun _ earlier => reference (opening main relation) params earlier) sources.reverse)
    (filterable : ∀ x ∈ reference (opening main relation) params sources.reverse,
      (whereHolds condition params (compose (opening main relation) sources.reverse x)).isOk =
        true) :
    ∃ e, (JoinEngine.new main joins condition params).init evaluate = .ok e ∧
      ∃ leads : List Lead, leads.Perm (reference (opening main relation) params sources.reverse) ∧
        leads.Pairwise (fun a b => reading a < reading b) ∧
        e.collect.2 = .ok ((leads.map (compose (opening main relation) sources.reverse)).filter
          fun c => truth (whereHolds condition params c)) := by
  rw [← countOpened opened] at single
  obtain ⟨e, init, collected⟩ := collectMembers condition params distinct evaluated opened
    (evaluableOfSingle single evaluable)
    (fun x member => filterable x ((memReferenceOfSingle single).mpr member))
  refine ⟨e, init, _, ?_, ?_, collected⟩
  · exact (membersSorted _ _ _).trans (referenceOfSingle single).symm
  · exact (visitsSorted _ _).filter _

theorem collectsJoinFullAmongLeft :
    let joins := [joinOf .left "b", joinOf .full "c", ⟨.left, named "d", none, false⟩]
    let sources := (joins.map sourceOf).reverse
    let main := opening (named "a") (numbers (named "a"))
    let present : Expr := .unary .isNotNull (.column ⟨some "c", "id"⟩)
    ∃ e, (JoinEngine.new (named "a") joins (some present) []).init (.ok ∘ numbers) = .ok e ∧
      ∃ leads : List Lead, leads.Perm [[0, 0, 1, 1], [0, 2, 0, 0], [0, 1, 1, 2]] ∧
        leads.Pairwise (fun a b => reading a < reading b) ∧
        e.collect.2 = .ok ((leads.map (compose main sources)).filter
          fun c => truth (whereHolds (some present) [] c)) := by
  intro joins sources main present
  have all : reference main [] sources = [[0, 0, 1, 1], [0, 2, 0, 0], [0, 1, 1, 2]] := by
    decide +kernel
  rw [← all]
  exact collectsJoin (by decide) rfl (opensNumbers joins) (by decide) (by decide +kernel) (by decide +kernel)

/-- With any RIGHT and FULL joins, an engine collects the members of the run. They are the join of its
sources exactly if the last round finds the members without a row of the main source. -/
theorem collectsJoinIff (distinct : (main.name :: joins.map (·.source.name)).Nodup)
    (evaluated : evaluate main = .ok relation)
    (opened : joins.mapM (JoinRun.openJoin evaluate) = .ok sources)
    (evaluable : Evaluable (opening main relation) params (asked (opening main relation) params)
      sources.reverse) :
    ∃ e, (JoinEngine.new main joins none params).init evaluate = .ok e ∧
      ∃ cs, e.collect.2 = .ok cs ∧
        cs.Perm ((members (opening main relation) params sources.reverse).map
          (compose (opening main relation) sources.reverse)) ∧
        (cs.Perm ((reference (opening main relation) params sources.reverse).map
            (compose (opening main relation) sources.reverse)) ↔
          ((exhausted (opening main relation) params sources.reverse).map
            (compose (opening main relation) sources.reverse)).Perm
          ((mainless (opening main relation) params sources.reverse).map
            (compose (opening main relation) sources.reverse))) := by
  obtain ⟨e, init, collected⟩ := collectMembers none params distinct evaluated opened evaluable
    fun _ _ => rfl
  have all : (answers (opening main relation) params none sources
      (visits (opening main relation) sources)).Perm
      ((members (opening main relation) params sources.reverse).map
        (compose (opening main relation) sources.reverse)) := by
    simp only [answers, whereHolds, truth, List.filter_true]
    exact (membersSorted (opening main relation) params sources).map _
  refine ⟨e, init, _, collected, all, ?_⟩
  have parts := (referenceSplit (opening main relation) params sources.reverse).map
    (compose (opening main relation) sources.reverse)
  rw [List.map_append] at parts
  rw [all.congr_left, parts.congr_right, members, List.map_append, List.perm_append_left_iff]

theorem collectsJoinRightAllMatched :
    let joins := [joinOf .right "b", ⟨.right, named "d", none, false⟩]
    let sources := (joins.map sourceOf).reverse
    let main := opening (named "a") (numbers (named "a"))
    ∃ e, (JoinEngine.new (named "a") joins none []).init (.ok ∘ numbers) = .ok e ∧
      ∃ cs, e.collect.2 = .ok cs ∧
        cs.Perm ((reference main [] sources).map (compose main sources)) := by
  intro joins sources main
  obtain ⟨e, init, cs, collected, _, same⟩ := collectsJoinIff
    (by decide : ((named "a").name :: joins.map (·.source.name)).Nodup) rfl (opensNumbers joins)
    (by decide +kernel : Evaluable main [] (asked main []) sources)
  have rest : ((exhausted main [] sources).map (compose main sources)).Perm
      ((mainless main [] sources).map (compose main sources)) := by decide +kernel
  exact ⟨e, init, cs, collected, same.mpr rest⟩

/-- A RIGHT join after a RIGHT join whose rows all match loses its own unmatched rows. -/
theorem collectsNothingAfterMatchedRight :
    let joins := [joinOf .right "b", joinOf .right "c"]
    let sources := (joins.map sourceOf).reverse
    let main := opening (named "a") (numbers (named "a"))
    Evaluable main [] (fun _ earlier => reference main [] earlier) sources ∧
      ¬ ∃ e, (JoinEngine.new (named "a") joins none []).init (.ok ∘ numbers) = .ok e ∧
        ∃ cs, e.collect.2 = .ok cs ∧
          cs.Perm ((reference main [] sources).map (compose main sources)) := by
  intro joins sources main
  refine ⟨by decide +kernel, ?_⟩
  rintro ⟨e, init, cs, collected, all⟩
  obtain ⟨e', init', collected'⟩ := collectMembers none []
    (by decide : ((named "a").name :: joins.map (·.source.name)).Nodup) rfl (opensNumbers joins)
    (by decide +kernel : Evaluable main [] (asked main []) sources) fun _ _ => rfl
  cases init.symm.trans init'
  have same : cs = answers main [] none sources.reverse (visits main sources.reverse) := by
    exact Except.ok.inj (collected.symm.trans collected')
  have lost : answers main [] none sources.reverse (visits main sources.reverse) = [] := by
    decide +kernel
  have two : (reference main [] sources).length = 2 := by decide +kernel
  have none := all.length_eq
  rw [same, lost, List.length_map, two] at none
  exact absurd none (by decide)

end RelQuery.Relational
