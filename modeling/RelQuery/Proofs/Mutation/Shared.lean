import RelQuery.Proofs.Mutation.Update

/-! An UPDATE through several sources that one table backs. Each source stages whole rows of the table as
the statement found it, so the row that is written last takes back what the sources before it assigned
to other columns. -/
namespace RelQuery.Update

variable {u e : Update} {ctx : Context} {params : List Value} {r : JoinRun} {places : List Place}
  {cs : List Composition} {sources : List OpenSource} {affected : Affected} {name : TableName}
  {old new : Row} {i : Nat} {w : OpenSource × Composition} {a : Assignment}

section
variable (u : Update) (params : List Value) (sources : List OpenSource) (cs : List Composition)
  (name : TableName) (old : Row) (i : Nat)

/-- Some assignment, on some composition with the row, gives this value to this column of it. -/
def Gives (v : Value) : Prop :=
  ∃ s ∈ sources, s.origin = .table name ∧ ∃ c ∈ cs, c.row? s.name = some old ∧
    ∃ a ∈ u.set, u.assignsColumn s i a = true ∧ a.value.eval (.ofRow c params) = .ok v

/-- A column that was assigned has one of the values that it was given. -/
def Keeps (new : Row) : Prop :=
  (∃ v, u.Gives params sources cs name old i v) →
    ∃ v, u.Gives params sources cs name old i v ∧ new.values[i]? = some v

/-- The last writer of the row assigns this column. -/
def DecidedLast : Prop :=
  ∃ w a, (u.writers sources cs name old).getLast? = some w ∧ u.lastAssignment w.1 i = some a

end

theorem lastGives (written : u.Overwritten params (u.writers sources cs name old) old new)
    (last : (u.writers sources cs name old).getLast? = some w)
    (decides : u.lastAssignment w.1 i = some a) :
    ∃ v, u.Gives params sources cs name old i v ∧ new.values[i]? = some v := by
  obtain ⟨width, rewritten⟩ := written.values w last
  obtain ⟨member, origin, _, found⟩ := writerSource (List.mem_of_getLast? last)
  have inside : w.2 ∈ cs := List.mem_reverse.mp (List.mem_of_find?_eq_some found)
  have has : w.2.row? w.1.name = some old := by simpa using List.find?_some found
  have assigns : u.assignsColumn w.1 i a = true := List.find?_some decides
  have listed : a ∈ u.set := List.mem_reverse.mp (List.mem_of_find?_eq_some decides)
  have bound : i < old.values.length := by
    rw [assignsColumn, Bool.and_eq_true, beq_iff_eq] at assigns
    rw [width]
    exact (List.findIdx?_eq_some_iff_getElem.mp assigns.2).1
  obtain ⟨v, value, stored⟩ := rewritten.set i bound a decides
  exact ⟨v, ⟨w.1, member, origin, w.2, inside, has, a, listed, assigns, value⟩, stored⟩

theorem undecidedKept (written : u.Overwritten params (u.writers sources cs name old) old new)
    (undecided : ¬u.DecidedLast sources cs name old i) : new.values[i]? = old.values[i]? := by
  cases last : (u.writers sources cs name old).getLast? with
  | none => rw [written.kept (List.getLast?_eq_none_iff.mp last)]
  | some w =>
      obtain ⟨_, rewritten⟩ := written.values w last
      by_cases bound : i < old.values.length
      · refine rewritten.kept i bound ?_
        exact Option.eq_none_iff_forall_ne_some.mpr fun a decides => undecided ⟨w, a, last, decides⟩
      · have width := rewritten.width
        rw [List.getElem?_eq_none (by omega), List.getElem?_eq_none (by omega)]

theorem keepsIff (written : u.Overwritten params (u.writers sources cs name old) old new) :
    u.Keeps params sources cs name old i new ↔
      ((∃ v, u.Gives params sources cs name old i v) → u.DecidedLast sources cs name old i ∨
        ∃ v, u.Gives params sources cs name old i v ∧ old.values[i]? = some v) := by
  by_cases decided : u.DecidedLast sources cs name old i
  · obtain ⟨w, a, last, decides⟩ := decided
    exact ⟨fun _ _ => .inl ⟨w, a, last, decides⟩, fun _ _ => lastGives written last decides⟩
  · rw [Keeps, undecidedKept written decided]
    simp [decided]

/-- What was assigned to a row is kept exactly in the columns that the last source with the row assigns,
and where the value that the statement found happens to be an assigned one. -/
theorem runKeepsIff (reachable : ctx.storage.Reachable)
    (expanded : u.expand ctx.catalog ctx.database = .ok e)
    (ok : (u.run ctx params).2 = .ok affected) :
    ∃ r cs, JoinRun.start (ctx.relation params) e.target e.joins e.condition params = .ok r ∧
      r.collect.2 = .ok cs ∧ ∀ name t, ctx.storage.get? name = some t →
        ∃ t', (u.run ctx params).1.get? name = some t' ∧ List.Forall₂ (fun old new =>
          e.Overwritten params (e.writers r.sources cs name old) old new ∧ ∀ i,
            ((¬∃ v, e.Gives params r.sources cs name old i v) → new.values[i]? = old.values[i]?) ∧
            (e.Keeps params r.sources cs name old i new ↔
              ((∃ v, e.Gives params r.sources cs name old i v) → e.DecidedLast r.sources cs name old i ∨
                ∃ v, e.Gives params r.sources cs name old i v ∧ old.values[i]? = some v)))
          t.rows t'.rows := by
  have consistent := Storage.reachableConsistent reachable
  obtain ⟨e', r, places, cs, expanded', read, replaced, _⟩ := runOk consistent ok
  cases expanded.symm.trans expanded'
  refine ⟨r, cs, read.started, read.collected, fun name t there => ?_⟩
  obtain ⟨t', there', _, rows⟩ := rowsOverwritten read (consistent name t there) there replaced
  refine ⟨t', there', rows.imp fun old new written =>
    ⟨written, fun i => ⟨fun none => ?_, keepsIff written⟩⟩⟩
  refine undecidedKept written ?_
  rintro ⟨w, a, last, decides⟩
  obtain ⟨v, gives, _⟩ := lastGives written last decides
  exact none ⟨v, gives⟩

def crossing : Update :=
  { target := account "a"
    joins := [⟨.inner, account "b", some (.shared "id"), false⟩]
    set := [⟨⟨some "a", "balance"⟩, .literal (.int 11)⟩, ⟨⟨some "b", "note"⟩, .literal (.int 21)⟩]
    condition := none }

def crossed : Context := ledger [[1, 10, 20]] []

theorem runKeepsIffCrossing :
    (crossing.run crossed []).2 = .ok [("a", .ofKeys [[.int 1]]), ("b", .ofKeys [[.int 1]])] ∧
      ∃ r cs, JoinRun.start (crossed.relation []) crossing.target crossing.joins none [] = .ok r ∧
        r.collect.2 = .ok cs ∧ ∃ t t', crossed.storage.get? (inMain "accounts") = some t ∧
          (crossing.run crossed []).1.get? (inMain "accounts") = some t' ∧
          List.Forall₂ (fun old new => ∀ i,
            crossing.Keeps [] r.sources cs (inMain "accounts") old i new ↔
              ((∃ v, crossing.Gives [] r.sources cs (inMain "accounts") old i v) →
                crossing.DecidedLast r.sources cs (inMain "accounts") old i ∨
                ∃ v, crossing.Gives [] r.sources cs (inMain "accounts") old i v ∧
                  old.values[i]? = some v)) t.rows t'.rows := by
  have ok : (crossing.run crossed []).2 =
      .ok [("a", .ofKeys [[.int 1]]), ("b", .ofKeys [[.int 1]])] := by decide +kernel
  obtain ⟨r, cs, started, collected, tables⟩ := runKeepsIff (ledgerReachable _ _) rfl ok
  obtain ⟨t', there', rows⟩ := tables (inMain "accounts") _ rfl
  exact ⟨ok, r, cs, started, collected, _, t', rfl, there', rows.imp fun _ _ written i => (written.2 i).2⟩

/-- The balance that the first name assigns is lost when the second name's row is written. -/
theorem crossingLoses : crossed.storage.Reachable ∧
    (crossing.run crossed []).2 = .ok [("a", .ofKeys [[.int 1]]), ("b", .ofKeys [[.int 1]])] ∧
      ((crossing.run crossed []).1.get? (inMain "accounts")).map (·.rows) =
        some [⟨0, 3, [.int 1, .int 10, .int 21]⟩] ∧
      ∃ r cs, JoinRun.start (crossed.relation []) crossing.target crossing.joins none [] = .ok r ∧
        r.collect.2 = .ok cs ∧
          ¬crossing.Keeps [] r.sources cs (inMain "accounts") ⟨0, 1, [.int 1, .int 10, .int 20]⟩ 1
            ⟨0, 3, [.int 1, .int 10, .int 21]⟩ := by
  have read : (JoinRun.start (crossed.relation []) crossing.target crossing.joins none [] >>= fun r =>
      r.collect.2.map fun cs => (r.sources.head?.map fun s => (s.name, s.columns, s.origin),
        cs.map (·.row? "a"))) =
      .ok (some ("a", ["id", "balance", "note"], .table (inMain "accounts")),
        [some ⟨0, 1, [.int 1, .int 10, .int 20]⟩]) := by decide +kernel
  obtain ⟨r, started, read⟩ := Outcome.bindOk.mp read
  obtain ⟨cs, collected, read⟩ := Outcome.mapOk.mp read
  rw [Prod.mk.injEq, Option.map_eq_some_iff] at read
  obtain ⟨⟨s, first, same⟩, rows⟩ := read
  rw [Prod.mk.injEq, Prod.mk.injEq] at same
  obtain ⟨named, columns, origin⟩ := same
  obtain ⟨c, rest, rfl, has, _⟩ := List.map_eq_cons_iff.mp rows
  refine ⟨ledgerReachable _ _, by decide +kernel, by decide +kernel, r, _, started, collected,
    fun keeps => ?_⟩
  have given : crossing.assignsColumn s 1 ⟨⟨some "a", "balance"⟩, .literal (.int 11)⟩ = true := by
    rw [assignsColumn, assigns, named, columns]
    decide
  obtain ⟨v, ⟨_, _, _, _, _, _, a, listed, _, value⟩, stored⟩ := keeps ⟨.int 11, s,
    List.mem_of_mem_head? first, origin, c, List.mem_cons_self, named ▸ has, _,
    List.mem_cons_self, given, rfl⟩
  cases stored
  -- Neither of the assigned values is the balance that is left.
  rcases List.mem_cons.mp listed with rfl | listed
  · cases value
  · rcases List.mem_cons.mp listed with rfl | listed
    · cases value
    · cases listed

end RelQuery.Update
