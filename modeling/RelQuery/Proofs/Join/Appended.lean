import RelQuery.Proofs.Join.Evaluated

/-! LEFT joins that come after the other joins of a statement. One that never matches more than one row
keeps every lead before it exactly once. If its row also depends on the main source alone, the leads
keep their order. -/
namespace RelQuery.Relational

variable {main : OpenSource} {params : List Value} {earlier later : List JoinSource} {j : JoinSource}
  {before : List Lead} {lead : Lead} {p : Nat}

/-! One LEFT join -/

theorem matchesSingle
    (once : ∀ p < size j.source, ∀ q < size j.source, holdsAt main params earlier j lead p = true →
      holdsAt main params earlier j lead q = true → p = q) {rest : List Nat}
    (found : (List.range (size j.source)).filter (holdsAt main params earlier j lead) = p :: rest) :
    rest = [] := by
  have distinct : (p :: rest).Nodup := found ▸ List.nodup_range.filter _
  have each : ∀ q ∈ p :: rest, q < size j.source ∧ holdsAt main params earlier j lead q = true := by
    intro q member
    rw [← found, List.mem_filter, List.mem_range] at member
    exact member
  obtain ⟨bound, holds⟩ := each p List.mem_cons_self
  refine List.eq_nil_iff_forall_not_mem.mpr fun q member => ?_
  obtain ⟨bound', holds'⟩ := each q (List.mem_cons_of_mem _ member)
  exact (List.nodup_cons.mp distinct).1 (once p bound q bound' holds holds' ▸ member)

theorem keptSingle (keeps : j.kind.keepsUnmatchedMain = true)
    (once : ∀ lead ∈ before, ∀ p < size j.source, ∀ q < size j.source,
      holdsAt main params earlier j lead p = true → holdsAt main params earlier j lead q = true →
        p = q) :
    ((kept main params earlier j before).map List.tail).Perm before := by
  induction before with
  | nil => simp [kept, pairs, unmatched]
  | cons lead before ih =>
      have others := ih fun l member => once l (List.mem_cons_of_mem _ member)
      simp only [kept, keeps, if_true, List.map_append] at others ⊢
      cases found : (List.range (size j.source)).filter (holdsAt main params earlier j lead) with
      | nil =>
          have paired : pairs main params earlier j (lead :: before) =
              pairs main params earlier j before := by
            simp [pairs, found]
          have alone : unmatched main params earlier j (lead :: before) =
              lead :: unmatched main params earlier j before := by
            rw [unmatched, List.filter_cons_of_pos, unmatched]
            simpa [List.filter_eq_nil_iff] using found
          rw [paired, alone, List.map_cons, List.map_cons]
          exact List.perm_middle.trans (others.cons lead)
      | cons p rest =>
          obtain rfl := matchesSingle (once lead List.mem_cons_self) found
          have paired : pairs main params earlier j (lead :: before) =
              (p :: lead) :: pairs main params earlier j before := by
            simp [pairs, found]
          have alone : unmatched main params earlier j (lead :: before) =
              unmatched main params earlier j before := by
            have here : p ∈ (List.range (size j.source)).filter (holdsAt main params earlier j lead) :=
              found ▸ List.mem_cons_self
            rw [unmatched, List.filter_cons_of_neg, unmatched]
            simpa using ⟨p, List.mem_filter.mp here |>.imp List.mem_range.mp id⟩
          rw [paired, alone, List.map_cons, List.cons_append]
          exact others.cons lead

theorem membersPlain (plain : j.kind.keepsUnmatchedJoin = false) :
    members main params (j :: earlier) = kept main params earlier j (fromMain main params earlier) ++
      kept main params earlier j (exhausted main params earlier) := by
  rw [members, exhausted, plain, fromMain, if_neg Bool.false_ne_true]

theorem memMembersPlain (plain : j.kind.keepsUnmatchedJoin = false) :
    p :: lead ∈ members main params (j :: earlier) ↔ lead ∈ members main params earlier ∧
      (p < size j.source ∧ holdsAt main params earlier j lead p = true ∨
        j.kind.keepsUnmatchedMain = true ∧ p = size j.source ∧
          ∀ q < size j.source, holdsAt main params earlier j lead q = false) := by
  rw [membersPlain plain, List.mem_append, consMemKept, consMemKept, members, List.mem_append]
  exact or_and_right.symm

theorem membersCons {x : Lead} (plain : j.kind.keepsUnmatchedJoin = false)
    (member : x ∈ members main params (j :: earlier)) : ∃ p lead, x = p :: lead := by
  rw [membersPlain plain, List.mem_append] at member
  rcases member with first | final
  · obtain ⟨p, lead, same, _⟩ := memKept.mp first
    exact ⟨p, lead, same⟩
  · obtain ⟨p, lead, same, _⟩ := memKept.mp final
    exact ⟨p, lead, same⟩

theorem membersFit {x : Lead} (member : x ∈ members main params earlier) : Fits main earlier x := by
  rcases List.mem_append.mp member with first | final
  · exact (fromMainFits first).1
  · exact (lastRoundFits (memExhausted.mp final).2).1

/-! All of them -/

section
variable (main : OpenSource) (params : List Value)

structure Single (earlier : List JoinSource) (j : JoinSource) : Prop where
  left : j.kind = .left
  once : ∀ lead ∈ members main params earlier, ∀ p < size j.source, ∀ q < size j.source,
    holdsAt main params earlier j lead p = true → holdsAt main params earlier j lead q = true → p = q

/-- The same rows match wherever the main source has the same row. -/
def Steady (earlier : List JoinSource) (j : JoinSource) : Prop :=
  ∀ lead ∈ members main params earlier, ∀ lead' ∈ members main params earlier,
    lead.getLast? = lead'.getLast? → ∀ p < size j.source,
      holdsAt main params earlier j lead p = holdsAt main params earlier j lead' p

/-- Each of some joins has a property after the joins before it. -/
def Each (P : List JoinSource → JoinSource → Prop) (earlier : List JoinSource) :
    List JoinSource → Prop
  | [] => True
  | j :: later => Each P earlier later ∧ P (later ++ earlier) j

end

theorem membersAppended (single : Each (Single main params) earlier later) :
    ((members main params (later ++ earlier)).map (List.drop later.length)).Perm
      (members main params earlier) := by
  induction later with
  | nil => exact .of_eq ((List.map_congr_left fun _ _ => rfl).trans (List.map_id _))
  | cons j later ih =>
      obtain ⟨others, left, once⟩ := single
      have keeps : j.kind.keepsUnmatchedMain = true := by rw [left]; rfl
      have plain : j.kind.keepsUnmatchedJoin = false := by rw [left]; rfl
      have tails : ((members main params (j :: (later ++ earlier))).map List.tail).Perm
          (members main params (later ++ earlier)) := by
        rw [membersPlain plain, List.map_append]
        refine List.Perm.append (keptSingle keeps fun lead member => ?_)
          (keptSingle keeps fun lead member => ?_)
        · exact once lead (List.mem_append_left _ member)
        · exact once lead (List.mem_append_right _ member)
      have split : List.drop (j :: later).length = List.drop later.length ∘ @List.tail Nat := by
        funext x
        simp [List.drop_tail]
      rw [split, ← List.map_map]
      exact (tails.map _).trans (ih others)

theorem appendedAlike (single : Each (Single main params) earlier later)
    (steady : Each (Steady main params) earlier later) {a b : Lead}
    (left : a ∈ members main params (later ++ earlier))
    (right : b ∈ members main params (later ++ earlier)) (same : a.getLast? = b.getLast?) :
    a.take later.length = b.take later.length := by
  induction later generalizing a b with
  | nil => rfl
  | cons j later ih =>
      obtain ⟨others, kind, once⟩ := single
      have plain : j.kind.keepsUnmatchedJoin = false := by rw [kind]; rfl
      rw [List.cons_append] at left right
      obtain ⟨p, a, rfl⟩ := membersCons plain left
      obtain ⟨q, b, rfl⟩ := membersCons plain right
      obtain ⟨left, place⟩ := (memMembersPlain plain).mp left
      obtain ⟨right, place'⟩ := (memMembersPlain plain).mp right
      rw [List.getLast?_cons_of_ne_nil (fitsNonempty (membersFit left)),
        List.getLast?_cons_of_ne_nil (fitsNonempty (membersFit right))] at same
      have alike := steady.2 a left b right same
      have equal : p = q := by
        rcases place with ⟨bound, holds⟩ | ⟨_, past, none⟩
        · rcases place' with ⟨bound', holds'⟩ | ⟨_, _, none⟩
          · exact once b right p bound q bound' (alike p bound ▸ holds) holds'
          · rw [alike p bound, none p bound] at holds
            cases holds
        · rcases place' with ⟨bound', holds'⟩ | ⟨_, past', _⟩
          · rw [← alike q bound', none q bound'] at holds'
            cases holds'
          · rw [past, past']
      rw [equal, List.length_cons, List.take_succ_cons, List.take_succ_cons,
        ih others steady.1 left right same]

theorem readingAppend (ps : List Nat) (some : lead ≠ []) :
    reading (ps ++ lead) = lead.getLastD 0 :: (ps ++ lead.dropLast) := by
  obtain ⟨front, m, rfl⟩ := List.eq_nil_or_concat lead |>.resolve_left some
  rw [List.concat_eq_append, ← List.append_assoc, readingSnoc]
  simp

theorem readingAppended (single : Each (Single main params) earlier later)
    (steady : Each (Steady main params) earlier later) {a b : Lead}
    (left : a ∈ members main params (later ++ earlier))
    (right : b ∈ members main params (later ++ earlier)) (less : reading a < reading b) :
    reading (a.drop later.length) < reading (b.drop later.length) := by
  have own {x : Lead} (member : x ∈ members main params (later ++ earlier)) :
      x.drop later.length ≠ [] :=
    fitsNonempty (membersFit ((membersAppended single).mem_iff.mp (List.mem_map_of_mem member)))
  have last {x : Lead} (member : x ∈ members main params (later ++ earlier)) :
      (x.drop later.length).getLast? = x.getLast? := by
    rw [List.getLast?_drop, if_neg]
    exact fun short => own member (List.drop_eq_nil_of_le short)
  have shown {x : Lead} (member : x ∈ members main params (later ++ earlier)) : reading x =
      (x.drop later.length).getLastD 0 ::
        (x.take later.length ++ (x.drop later.length).dropLast) := by
    rw [← readingAppend _ (own member), List.take_append_drop]
  rw [shown left, shown right, List.cons_lt_cons_iff] at less
  rw [reading, reading, List.cons_lt_cons_iff]
  rcases less with first | ⟨same, rest⟩
  · exact .inl first
  · have place : a.getLast? = b.getLast? := by
      rw [← last left, ← last right, List.getLast?_eq_some_getLast (own left),
        List.getLast?_eq_some_getLast (own right)]
      simpa [List.getLastD_eq_getLast?, List.getLast?_eq_some_getLast (own left),
        List.getLast?_eq_some_getLast (own right)] using same
    rw [appendedAlike single steady left right place] at rest
    refine .inr ⟨same, ?_⟩
    by_contra above
    exact List.not_lt.mpr (List.append_left_le (List.not_lt.mp above)) rest

end RelQuery.Relational

namespace RelQuery.Composition

/-- The sub-rows of some sources. -/
def restrict (names : List String) (c : Composition) : Composition :=
  { c with sources := c.sources.filter fun s => names.contains s.1 }

theorem restrictPush {names : List String} {c : Composition} {name : String} {s : SubRow}
    (other : name ∉ names) : (c.push name s).restrict names = c.restrict names := by
  simp [restrict, push, other]

theorem restrictOwn {names : List String} {c : Composition} (own : ∀ name ∈ c.aliases, name ∈ names) :
    c.restrict names = c := by
  have all : c.sources.filter (fun s => names.contains s.1) = c.sources :=
    List.filter_eq_self.mpr fun s member =>
      List.contains_iff_mem.mpr (own s.1 (List.mem_map_of_mem member))
  rw [restrict, all]

end RelQuery.Composition

namespace RelQuery.Relational

variable {main : OpenSource} {params : List Value} {earlier later : List JoinSource} {lead : Lead}

/-! Compositions and runs -/

def namesOf (main : OpenSource) (earlier : List JoinSource) : List String :=
  main.name :: earlier.map (·.source.name)

theorem aliasesPush (c : Composition) (name : String) (s : SubRow) :
    (c.push name s).aliases = c.aliases ++ [name] := by
  simp [Composition.aliases, Composition.push]

theorem aliasesCompose (fits : Fits main earlier lead) : ∀ name,
    name ∈ (compose main earlier lead).aliases ↔ name ∈ namesOf main earlier := by
  induction earlier generalizing lead with
  | nil =>
      intro name
      obtain ⟨m, rfl, _⟩ := fitsNil fits
      rw [compose, OpenSource.pushInto, aliasesPush]
      · simp [namesOf, Composition.empty, Composition.aliases]
      · simp
  | cons j earlier ih =>
      intro name
      obtain ⟨p, lead, rfl, _, fits⟩ := fitsCons fits
      rw [compose, OpenSource.pushInto, aliasesPush, List.mem_append, ih fits name]
      simp only [namesOf, List.map_cons, List.mem_cons, List.not_mem_nil, or_false]
      tauto

theorem restrictAppended {names : List String} (apart : ∀ j ∈ later, j.source.name ∉ names)
    (own : ∀ name ∈ namesOf main earlier, name ∈ names)
    (fits : Fits main (later ++ earlier) lead) :
    (compose main (later ++ earlier) lead).restrict names =
      compose main earlier (lead.drop later.length) := by
  induction later generalizing lead with
  | nil => exact Composition.restrictOwn fun name listed => own name ((aliasesCompose fits name).mp listed)
  | cons j later ih =>
      obtain ⟨p, lead, rfl, _, fits⟩ := fitsCons fits
      rw [List.cons_append, compose, OpenSource.pushInto,
        Composition.restrictPush (apart j List.mem_cons_self),
        ih (fun i member => apart i (List.mem_cons_of_mem _ member)) fits]
      rfl

/-- The members of a join in the order of a run. -/
def formed (main : OpenSource) (params : List Value) (joins : List JoinSource) : List Lead :=
  (visits main joins).filter fun x => (members main params joins.reverse).contains x

theorem answersAll (main : OpenSource) (params : List Value) (joins : List JoinSource) :
    answers main params none joins (visits main joins) =
      (formed main params joins).map (compose main joins.reverse) := by
  simp only [answers, whereHolds, truth, List.filter_true, formed]

theorem answersMember {main : OpenSource} {params : List Value} {condition : Option Expr}
    {joins : List JoinSource} {leads : List Lead} {c : Composition}
    (answer : c ∈ answers main params condition joins leads) :
    ∃ x ∈ members main params joins.reverse, c = compose main joins.reverse x := by
  obtain ⟨x, member, rfl⟩ := List.mem_map.mp (List.mem_filter.mp answer).1
  exact ⟨x, by simpa using (List.mem_filter.mp member).2, rfl⟩

theorem formedPerm (main : OpenSource) (params : List Value) (joins : List JoinSource) :
    (formed main params joins).Perm (members main params joins.reverse) :=
  membersSorted main params joins

theorem formedSorted (main : OpenSource) (params : List Value) (joins : List JoinSource) :
    (formed main params joins).Pairwise fun a b => reading a < reading b :=
  (visitsSorted main joins).filter _

section
variable {explicit added : List JoinSource} {names : List String}
  (single : Each (Single main params) explicit.reverse added.reverse)
include single

theorem formedAppended : ((formed main params (explicit ++ added)).map
    (List.drop added.length)).Perm (formed main params explicit) := by
  have whole := (formedPerm main params (explicit ++ added)).map (List.drop added.length)
  rw [List.reverse_append] at whole
  have first := membersAppended single
  rw [List.length_reverse] at first
  exact whole.trans (first.trans (formedPerm main params explicit).symm)

theorem formedSteady (steady : Each (Steady main params) explicit.reverse added.reverse) :
    (formed main params (explicit ++ added)).map (List.drop added.length) =
      formed main params explicit := by
  refine (formedAppended single).eq_of_pairwise ?_ ?_ (formedSorted main params explicit)
  · intro a b _ _ less more
    exact absurd more (List.lt_asymm less)
  · rw [List.pairwise_map]
    refine (formedSorted main params (explicit ++ added)).imp_of_mem fun {a b} left right less => ?_
    have among {x : Lead} (member : x ∈ formed main params (explicit ++ added)) :
        x ∈ members main params (added.reverse ++ explicit.reverse) := by
      rw [← List.reverse_append]
      exact (formedPerm main params _).mem_iff.mp member
    have next := readingAppended single steady (among left) (among right) less
    rwa [List.length_reverse] at next

end

theorem restrictFormed {explicit added : List JoinSource} {names : List String}
    (apart : ∀ j ∈ added, j.source.name ∉ names)
    (own : ∀ name ∈ namesOf main explicit, name ∈ names) : (answers main params none
      (explicit ++ added) (visits main (explicit ++ added))).map (Composition.restrict names) =
    ((formed main params (explicit ++ added)).map (List.drop added.length)).map
      (compose main explicit.reverse) := by
  rw [answersAll, List.map_map, List.map_map]
  refine List.map_congr_left fun x member => ?_
  have fits := membersFit ((formedPerm main params (explicit ++ added)).mem_iff.mp member)
  rw [List.reverse_append] at fits
  rw [Function.comp_apply, Function.comp_apply, List.reverse_append,
    restrictAppended (fun j inside => apart j (List.mem_reverse.mp inside)) ?_ fits,
    List.length_reverse]
  intro name listed
  exact own name (by simpa [namesOf] using listed)

end RelQuery.Relational
