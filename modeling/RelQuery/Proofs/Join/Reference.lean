import RelQuery.Proofs.Join.Relational

/-! The relational join and the two parts in which a run forms it. The part that starts from rows of the
main source is always the same. With at most one RIGHT or FULL join the last round is the rest; with
more of them the rest may differ. -/
namespace RelQuery.Relational

variable {main : OpenSource} {params : List Value} {earlier : List JoinSource} {j : JoinSource}

/-- The members of the join that have no row of the main source. -/
def mainless (main : OpenSource) (params : List Value) (earlier : List JoinSource) : List Lead :=
  (reference main params earlier).filter fun lead => lead.getLast? == some (size main)

theorem memReference {x : Lead} : x ∈ reference main params (j :: earlier) ↔
    x ∈ kept main params earlier j (reference main params earlier) ∨
      j.kind.keepsUnmatchedJoin = true ∧
        ∃ p ∈ orphans main params earlier j (reference main params earlier),
          x = p :: ends main earlier := by
  simp only [reference, List.mem_append, List.mem_ite_nil_right, List.mem_map, eq_comm]

theorem referenceFits {x : Lead} (h : x ∈ reference main params earlier) :
    Fits main earlier x ∧ ∃ m ≤ size main, x.getLast? = some m := by
  induction earlier generalizing x with
  | nil =>
      obtain ⟨m, bound, rfl⟩ := List.mem_map.mp h
      have less := Nat.le_of_lt (List.mem_range.mp bound)
      exact ⟨less, m, less, rfl⟩
  | cons j earlier ih =>
      rcases memReference.mp h with matched | ⟨_, p, orphan, rfl⟩
      · exact keptFits (P := fun last => ∃ m ≤ size main, last = some m)
          (fun lead member => ih member) matched
      · exact ⟨⟨Nat.le_of_lt (memOrphans.mp orphan).1, fitsEnds earlier⟩, _, Nat.le_refl _,
          mainOfCons (mainOfEnds earlier)⟩

/-! Nothing is joined twice -/

theorem productNodup {before : List Lead} {rows : Lead → List Nat} (leads : before.Nodup)
    (each : ∀ lead, (rows lead).Nodup) :
    (before.flatMap fun lead => (rows lead).map (· :: lead)).Nodup := by
  rw [List.Nodup, List.pairwise_flatMap]
  constructor
  · intro lead _
    rw [List.pairwise_map]
    exact (each lead).imp fun apart same => apart (List.cons.inj same).1
  · refine leads.imp fun apart => ?_
    simp only [List.mem_map, forall_exists_index, and_imp, forall_apply_eq_imp_iff₂]
    intro p _ q _ same
    exact apart (List.cons.inj same).2

theorem consNodup {before : List Lead} (p : Nat) (leads : before.Nodup) :
    (before.map (p :: ·)).Nodup := by
  rw [List.Nodup, List.pairwise_map]
  exact leads.imp fun apart same => apart (List.cons.inj same).2

theorem orphansNodup (before : List Lead) : (orphans main params earlier j before).Nodup :=
  List.nodup_range.filter _

theorem keptNodup {before : List Lead} (leads : before.Nodup) :
    (kept main params earlier j before).Nodup := by
  rw [kept, List.nodup_append]
  refine ⟨productNodup leads fun lead => List.nodup_range.filter _, ?_, ?_⟩
  · split
    · exact consNodup _ (leads.filter _)
    · exact List.nodup_nil
  · intro x paired y alone same
    obtain ⟨p, lead, rfl, _, bound, _⟩ := memPairs.mp paired
    obtain ⟨_, l, _, rfl⟩ : j.kind.keepsUnmatchedMain = true ∧
        ∃ l, l ∈ unmatched main params earlier j before ∧ size j.source :: l = y := by
      simpa using alone
    exact absurd (List.cons.inj same).1 (Nat.ne_of_lt bound)

theorem fromMainNodup (earlier : List JoinSource) : (fromMain main params earlier).Nodup := by
  induction earlier with
  | nil => exact List.nodup_range.map fun _ _ same => (List.cons.inj same).1
  | cons j earlier ih => exact keptNodup ih

theorem exhaustedNodup (earlier : List JoinSource) : (exhausted main params earlier).Nodup := by
  induction earlier with
  | nil => exact List.nodup_nil
  | cons j earlier ih =>
      cases keeps : j.kind.keepsUnmatchedJoin with
      | false =>
          rw [exhausted, keeps]
          exact keptNodup ih
      | true =>
          have round : (lastRound main params earlier).Nodup := by
            rw [lastRound]
            split
            · exact ih
            · exact List.nodup_singleton _
          rw [exhaustedOfKeeping keeps, List.nodup_append]
          refine ⟨productNodup round fun _ => orphansNodup _, ?_, ?_⟩
          · split
            · exact consNodup _ ih
            · exact List.nodup_nil
          · intro x paired y alone same
            obtain ⟨lead, _, p, orphan, rfl⟩ : ∃ lead ∈ lastRound main params earlier,
                ∃ p ∈ orphans main params earlier j (fromMain main params earlier),
                  p :: lead = x := by
              simpa using paired
            obtain ⟨_, l, _, rfl⟩ : j.kind.keepsUnmatchedMain = true ∧
                ∃ l, l ∈ exhausted main params earlier ∧ size j.source :: l = y := by
              simpa using alone
            exact absurd (List.cons.inj same).1 (Nat.ne_of_lt (memOrphans.mp orphan).1)

theorem referenceNodup (earlier : List JoinSource) : (reference main params earlier).Nodup := by
  induction earlier with
  | nil => exact List.nodup_range.map fun _ _ same => (List.cons.inj same).1
  | cons j earlier ih =>
      rw [reference, List.nodup_append]
      refine ⟨keptNodup ih, ?_, ?_⟩
      · split
        · exact (orphansNodup _).map fun _ _ same => (List.cons.inj same).1
        · exact List.nodup_nil
      · intro x matched y own same
        obtain ⟨_, p, orphan, rfl⟩ : j.kind.keepsUnmatchedJoin = true ∧
            ∃ p ∈ orphans main params earlier j (reference main params earlier),
              p :: ends main earlier = y := by
          simpa using own
        obtain ⟨bound, none⟩ := memOrphans.mp orphan
        subst same
        obtain ⟨member, ⟨_, holds⟩ | ⟨_, past, _⟩⟩ := consMemKept.mp matched
        · exact Bool.false_ne_true ((none _ member).symm.trans holds)
        · exact absurd past (Nat.ne_of_lt bound)

theorem membersNodup (earlier : List JoinSource) : (members main params earlier).Nodup := by
  rw [members, List.nodup_append]
  refine ⟨fromMainNodup earlier, exhaustedNodup earlier, fun x first y final same => ?_⟩
  exact notBoth first (memExhausted.mp (same ▸ final)).2

/-! The part from the main source -/

theorem memFromMain {x : Lead} : x ∈ fromMain main params earlier ↔
    x ∈ reference main params earlier ∧ x.getLast? ≠ some (size main) := by
  induction earlier generalizing x with
  | nil =>
      simp only [fromMain, reference, List.mem_map, List.mem_range]
      constructor
      · rintro ⟨m, bound, rfl⟩
        refine ⟨⟨m, bound, rfl⟩, fun same => ?_⟩
        exact absurd (Option.some.inj same) (Nat.ne_of_lt bound)
      · exact fun h => h.1
  | cons j earlier ih =>
      have last {p : Nat} {lead : Lead} (h : lead ∈ reference main params earlier) :
          (p :: lead).getLast? = lead.getLast? := by
        obtain ⟨_, m, _, same⟩ := referenceFits h
        rw [same, mainOfCons same]
      rw [fromMain, memKept]
      constructor
      · rintro ⟨p, lead, rfl, member, place⟩
        obtain ⟨member, notEnd⟩ := ih.mp member
        exact ⟨memReference.mpr (.inl (memKept.mpr ⟨p, lead, rfl, member, place⟩)),
          (last member).symm ▸ notEnd⟩
      · rintro ⟨member, notEnd⟩
        rcases memReference.mp member with matched | ⟨_, p, _, rfl⟩
        · obtain ⟨p, lead, rfl, member, place⟩ := memKept.mp matched
          exact ⟨p, lead, rfl, ih.mpr ⟨member, last member ▸ notEnd⟩, place⟩
        · exact absurd (mainOfCons (mainOfEnds earlier)) notEnd

theorem referenceSplit (main : OpenSource) (params : List Value) (earlier : List JoinSource) :
    (reference main params earlier).Perm
      (fromMain main params earlier ++ mainless main params earlier) := by
  have parts : (fromMain main params earlier ++ mainless main params earlier).Nodup := by
    rw [List.nodup_append]
    refine ⟨fromMainNodup earlier, (referenceNodup earlier).filter _, ?_⟩
    intro x first y rest same
    have place := (List.mem_filter.mp (same ▸ rest)).2
    exact (memFromMain.mp first).2 (by simpa using place)
  rw [List.perm_ext_iff_of_nodup (referenceNodup earlier) parts]
  intro x
  rw [List.mem_append, memFromMain, mainless, List.mem_filter, beq_iff_eq]
  tauto

/-! At most one RIGHT or FULL join -/

theorem referenceOfPlain (plain : JoinRun.hasOuter earlier = false) :
    reference main params earlier = fromMain main params earlier := by
  induction earlier with
  | nil => rfl
  | cons j earlier ih =>
      simp only [hasOuterCons, Bool.or_eq_false_iff] at plain
      simp [reference, fromMain, plain.1, ih plain.2]

theorem plainOfCount (none : earlier.countP (·.kind.keepsUnmatchedJoin) = 0) :
    JoinRun.hasOuter earlier = false := by
  rw [List.countP_eq_zero] at none
  simpa [JoinRun.hasOuter] using none

theorem memKeptUnion {before first rest : List Lead}
    (parts : ∀ lead, lead ∈ before ↔ lead ∈ first ∨ lead ∈ rest) {x : Lead} :
    x ∈ kept main params earlier j before ↔
      x ∈ kept main params earlier j first ∨ x ∈ kept main params earlier j rest := by
  rw [memKept, memKept, memKept]
  constructor
  · rintro ⟨p, lead, rfl, member, place⟩
    rcases (parts lead).mp member with left | right
    · exact .inl ⟨p, lead, rfl, left, place⟩
    · exact .inr ⟨p, lead, rfl, right, place⟩
  · rintro (⟨p, lead, rfl, member, place⟩ | ⟨p, lead, rfl, member, place⟩)
    · exact ⟨p, lead, rfl, (parts lead).mpr (.inl member), place⟩
    · exact ⟨p, lead, rfl, (parts lead).mpr (.inr member), place⟩

theorem memReferenceOfSingle (single : earlier.countP (·.kind.keepsUnmatchedJoin) ≤ 1) {x : Lead} :
    x ∈ reference main params earlier ↔ x ∈ members main params earlier := by
  rw [members, List.mem_append]
  induction earlier generalizing x with
  | nil => simp [reference, fromMain, exhausted]
  | cons j earlier ih =>
      rw [List.countP_cons] at single
      cases keeps : j.kind.keepsUnmatchedJoin with
      | true =>
          have plain : JoinRun.hasOuter earlier = false := plainOfCount (by simpa [keeps] using single)
          rw [reference, referenceOfPlain plain, exhaustedOfKeeping keeps, lastRoundOfPlain plain,
            exhaustedOfPlain plain]
          simp [keeps, fromMain]
      | false =>
          have before : ∀ y, y ∈ reference main params earlier ↔
              y ∈ fromMain main params earlier ∨ y ∈ exhausted main params earlier :=
            fun y => ih (by simpa [keeps] using single)
          rw [memReference, exhausted, keeps, fromMain, if_neg Bool.false_ne_true,
            memKeptUnion before]
          simp

theorem referenceOfSingle (single : earlier.countP (·.kind.keepsUnmatchedJoin) ≤ 1) :
    (reference main params earlier).Perm (members main params earlier) :=
  (List.perm_ext_iff_of_nodup (referenceNodup earlier) (membersNodup earlier)).mpr fun _ =>
    memReferenceOfSingle single

end RelQuery.Relational
