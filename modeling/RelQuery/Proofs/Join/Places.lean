import RelQuery.Proofs.Join.Equated

/-! The sub-rows of a composition, by the places of its lead. A lead of a join goes on from one of the join
before it, and the sub-rows of the sources before stay what they were. -/
namespace RelQuery.Relational

variable {main : OpenSource} {params : List Value} {earlier later joins : List JoinSource}
  {j : JoinSource} {lead x : Lead} {p m : Nat} {name : String}

theorem eachIff {P : List JoinSource → JoinSource → Prop} : Each P earlier later ↔
    ∀ front j back, later = front ++ j :: back → P (back ++ earlier) j := by
  induction later with
  | nil => simp [Each]
  | cons i later ih =>
      rw [Each, ih]
      constructor
      · rintro ⟨others, own⟩ front j back same
        cases front with
        | nil =>
            cases same
            exact own
        | cons i' front =>
            cases same
            exact others front j back rfl
      · intro all
        exact ⟨fun front j back same => all (i :: front) j back (by rw [same]; rfl), all [] i later rfl⟩

theorem askedPlain (plain : j.kind.keepsUnmatchedJoin = false) :
    asked main params j earlier = members main params earlier := by
  rw [asked, plain, members]
  rfl

theorem membersBack (plain : ∀ i ∈ later, i.kind.keepsUnmatchedJoin = false)
    (member : x ∈ members main params (later ++ earlier)) :
    ∃ ps lead, x = ps ++ lead ∧ ps.length = later.length ∧ lead ∈ members main params earlier := by
  induction later generalizing x with
  | nil => exact ⟨[], x, rfl, rfl, member⟩
  | cons j later ih =>
      have own := plain j List.mem_cons_self
      rw [List.cons_append] at member
      obtain ⟨p, y, rfl⟩ := membersCons own member
      obtain ⟨ps, lead, rfl, width, before⟩ := ih (fun i inside => plain i (List.mem_cons_of_mem _ inside))
        ((memMembersPlain own).mp member).1
      exact ⟨p :: ps, lead, rfl, by simp [width], before⟩

theorem subRowLater (ps : List Nat) (width : ps.length = later.length)
    (places : Fits main (later ++ earlier) (ps ++ lead))
    (known : name ∈ namesOf main earlier) :
    (compose main (later ++ earlier) (ps ++ lead)).subRow? name =
      (compose main earlier lead).subRow? name := by
  induction later generalizing ps with
  | nil =>
      obtain rfl := List.length_eq_zero_iff.mp width
      rfl
  | cons j later ih =>
      match ps, width with
      | p :: ps, width =>
          have known' : name ∈ namesOf main (later ++ earlier) := by
            rcases List.mem_cons.mp known with same | inside
            · exact same ▸ List.mem_cons_self
            · exact List.mem_cons_of_mem _ (by rw [List.map_append]; exact List.mem_append_right _ inside)
          have places : Fits main (later ++ earlier) (ps ++ lead) := places.2
          rw [List.cons_append, List.cons_append, compose, OpenSource.pushInto,
            Composition.subRowKept ((aliasesCompose places _).mpr known')]
          exact ih ps (by simpa using width) places

theorem subRowSource {s : SubRow} (fits : Fits main earlier lead)
    (there : (compose main earlier lead).subRow? name = some s) :
    ∃ source ∈ main :: earlier.map (·.source), source.name = name ∧
      ∃ p : Nat, s = source.subRow source.cursor.rows[p]? := by
  induction earlier generalizing lead with
  | nil =>
      obtain ⟨m, rfl, _⟩ := fitsNil fits
      rw [compose, OpenSource.pushInto, Composition.subRowPush] at there
      · simp only [Composition.subRow?, Composition.empty, List.lookup_nil, Option.none_or] at there
        split at there
        · rename_i same
          cases there
          exact ⟨main, List.mem_cons_self, same.symm, m, rfl⟩
        · cases there
      · simp
  | cons j earlier ih =>
      obtain ⟨p, lead, rfl, _, fits⟩ := fitsCons fits
      rw [compose, OpenSource.pushInto, Composition.subRowPush] at there
      cases before : (compose main earlier lead).subRow? name with
      | some s' =>
          rw [before, Option.some_or] at there
          cases there
          obtain ⟨source, member, own⟩ := ih fits before
          refine ⟨source, ?_, own⟩
          rcases List.mem_cons.mp member with same | inside
          · exact same ▸ List.mem_cons_self
          · exact List.mem_cons_of_mem _ (List.mem_cons_of_mem _ inside)
      | none =>
          rw [before, Option.none_or] at there
          split at there
          · rename_i same
            cases there
            exact ⟨j.source, by simp, same.symm, p, rfl⟩
          · cases there

theorem formedNone (main : OpenSource) (params : List Value) :
    formed main params [] = (List.range (size main)).map ([·]) := by
  have visited : visits main [] = (List.range (size main)).map ([·]) := by
    rw [List.map_eq_flatMap]
    rfl
  rw [formed, visited]
  refine List.filter_eq_self.mpr fun x member => List.contains_iff_mem.mpr ?_
  exact List.mem_append_left _ member

/-! LEFT joins only -/

theorem leftPlain (left : ∀ j ∈ earlier, j.kind = .left) : JoinRun.hasOuter earlier = false := by
  refine List.any_eq_false.mpr fun j member => ?_
  rw [left j member]
  exact Bool.false_ne_true

theorem leftMembers (left : ∀ j ∈ earlier, j.kind = .left) :
    members main params earlier = fromMain main params earlier := by
  rw [members, exhaustedOfPlain (leftPlain left), List.append_nil]

theorem leftKeeps (left : ∀ j ∈ earlier, j.kind = .left) (row : m < size main) :
    ∃ x ∈ members main params earlier, x.getLast? = some m := by
  rw [leftMembers left]
  induction earlier with
  | nil => exact ⟨[m], List.mem_map.mpr ⟨m, List.mem_range.mpr row, rfl⟩, rfl⟩
  | cons j earlier ih =>
      obtain ⟨lead, member, last⟩ := ih fun i inside => left i (List.mem_cons_of_mem _ inside)
      have keeps : j.kind.keepsUnmatchedMain = true := by
        rw [left j List.mem_cons_self]
        rfl
      by_cases matched : ∃ p < size j.source, holdsAt main params earlier j lead p = true
      · obtain ⟨p, bound, holds⟩ := matched
        exact ⟨p :: lead, consMemKept.mpr ⟨member, .inl ⟨bound, holds⟩⟩, mainOfCons last⟩
      · refine ⟨size j.source :: lead, consMemKept.mpr ⟨member, .inr ⟨keeps, rfl, ?_⟩⟩, mainOfCons last⟩
        intro q bound
        simpa using fun holds => matched ⟨q, bound, holds⟩

theorem ownersPush (c : Composition) (name column : String) (s : SubRow) (hidden : s.hidden = true) :
    (c.push name s).owners column = c.owners column := by
  simp [Composition.owners, Composition.push, hidden]

/-- An unqualified name that only the main source answers to. -/
theorem findMain (visible : main.hidden = false) (hidden : ∀ j ∈ earlier, j.source.hidden = true)
    (fits : Fits main earlier lead) (last : lead.getLast? = some m) (column : String) :
    (compose main earlier lead).find column =
      .ok ((main.subRow main.cursor.rows[m]?).read? column) := by
  have owners : (compose main earlier lead).owners column =
      (((main.subRow main.cursor.rows[m]?).read? column).map (main.name, ·)).toList := by
    induction earlier generalizing lead with
    | nil =>
        obtain ⟨n, rfl, _⟩ := fitsNil fits
        obtain rfl : n = m := Option.some.inj last
        rw [compose, OpenSource.pushInto]
        · simp only [Composition.owners, Composition.push, Composition.empty, List.nil_append,
            List.head?_cons, Option.bind_some, OpenSource.subRow, visible, List.filterMap_cons,
            Bool.false_eq_true, if_false, List.filterMap_nil]
          cases SubRow.read? _ column <;> rfl
        · simp
    | cons j earlier ih =>
        obtain ⟨p, lead, rfl, _, fits⟩ := fitsCons fits
        rw [List.getLast?_cons_of_ne_nil (fitsNonempty fits)] at last
        rw [compose, OpenSource.pushInto, ownersPush _ _ _ _ (hidden j List.mem_cons_self)]
        exact ih (fun i inside => hidden i (List.mem_cons_of_mem _ inside)) fits last
  rw [Composition.find, owners]
  cases (main.subRow main.cursor.rows[m]?).read? column <;> rfl

end RelQuery.Relational
