import RelQuery.Store.Table
import Mathlib.Data.List.Nodup

/-! Unique indexes as relations between keys and rows. An index that covers some rows lists each of
their keys without a NULL, in the row's own spelling, with the row that has it. Two indexes that cover
the same rows are therefore equal, which is what taking writes back depends on. -/
namespace RelQuery

namespace Value

theorem rankOfOrder {a b : Value} (same : a.order b = .eq) : a.rank = b.rank := by
  have le : a.rank ≤ b.rank := rankLe (by rw [same]; rfl)
  have ge : b.rank ≤ a.rank := rankLe (by rw [orderSwap, same]; rfl)
  exact Nat.le_antisymm le ge

theorem nullOfOrder {a b : Value} (same : a.order b = .eq) : a.isNull = b.isNull := by
  have ranks := rankOfOrder same
  cases a <;> cases b <;> simp [rank, isNull] at ranks ⊢

end Value

namespace Key

theorem nullOfOrder {a b : Key} (same : order a b = .eq) : a.hasNull = b.hasNull := by
  induction a generalizing b with
  | nil =>
      cases b with
      | nil => rfl
      | cons v b => simp [order, List.compareLex] at same
  | cons u a ih =>
      cases b with
      | nil => simp [order, List.compareLex] at same
      | cons v b =>
          simp only [order, List.compareLex_cons_cons, Ordering.then_eq_eq] at same
          have first := Value.nullOfOrder same.1
          have rest : a.any Value.isNull = b.any Value.isNull := ih same.2
          simp only [hasNull, List.any_cons, first, rest]

theorem orderSelf (k : Key) : order k k = .eq := Std.ReflCmp.compare_self

theorem orderSymm {a b : Key} (same : order a b = .eq) : order b a = .eq := Std.OrientedCmp.eq_symm same

end Key

namespace UniqueIndex

abbrev Rows := Std.ExtTreeMap Nat Row

/-- An index lists a key, in this spelling, for a row. -/
def Holds (ix : UniqueIndex) (k : Key) (id : Nat) : Prop := (k, id) ∈ ix.holders.toList

/-- A row has a key without a NULL. -/
def Keyed (ix : UniqueIndex) (rows : Rows) (k : Key) (id : Nat) : Prop :=
  k.hasNull = false ∧ ∃ r, rows[id]? = some r ∧ ix.key r.values = k

def Covers (ix : UniqueIndex) (rows : Rows) : Prop := ∀ k id, Holds ix k id ↔ Keyed ix rows k id

/-- No row other than an excepted one has the key of some values, unless the key has a NULL. -/
def Free (ix : UniqueIndex) (rows : Rows) (values : List Value) (exempt : Option Nat) : Prop :=
  (ix.key values).hasNull = false → ∀ id r, rows[id]? = some r →
    Key.order (ix.key r.values) (ix.key values) = .eq → some id = exempt

variable {ix : UniqueIndex} {rows : Rows} {k : Key} {values : List Value} {id : Nat} {r : Row}

@[simp] theorem keyErase (ix : UniqueIndex) (values : List Value) (id : Nat) :
    (ix.erase values id).key = ix.key := by
  funext values
  simp only [erase]
  split <;> rfl

@[simp] theorem keyInsert (ix : UniqueIndex) (values : List Value) (id : Nat) :
    (ix.insert values id).key = ix.key := by
  funext values
  simp only [insert]
  split <;> rfl

@[simp] theorem clearErase (ix : UniqueIndex) (values : List Value) (id : Nat) :
    (ix.erase values id).clear = ix.clear := by
  simp only [erase]
  split <;> rfl

@[simp] theorem clearInsert (ix : UniqueIndex) (values : List Value) (id : Nat) :
    (ix.insert values id).clear = ix.clear := by
  simp only [insert]
  split <;> rfl

theorem holdsIff : Holds ix k id ↔ ix.holders.getKey? k = some k ∧ ix.holders[k]? = some id :=
  Std.ExtTreeMap.mem_toList_iff_getKey?_eq_some_and_getElem?_eq_some

theorem findIff : ix.find? k = some id ↔ ∃ k', Key.order k k' = .eq ∧ Holds ix k' id :=
  Std.ExtTreeMap.getElem?_eq_some_iff_exists_compare_eq_eq_and_mem_toList

theorem holdsOnce {k' : Key} {id' : Nat} (first : Holds ix k id) (second : Holds ix k' id')
    (same : Key.order k k' = .eq) : k = k' ∧ id = id' := by
  obtain ⟨spelled, row⟩ := holdsIff.mp first
  obtain ⟨spelled', row'⟩ := holdsIff.mp second
  have keys : ix.holders.getKey? k = ix.holders.getKey? k' := Std.ExtTreeMap.getKey?_congr same
  have ids : ix.holders[k]? = ix.holders[k']? := Std.ExtTreeMap.getElem?_congr same
  rw [spelled, spelled'] at keys
  rw [row, row'] at ids
  exact ⟨Option.some.inj keys, Option.some.inj ids⟩

theorem holdsInsert (complete : (ix.key values).hasNull = false) {id' : Nat} :
    Holds (ix.insert values id) k id' ↔
      if Key.order (ix.key values) k = .eq then k = ix.key values ∧ id' = id else Holds ix k id' := by
  rw [holdsIff]
  simp only [insert, complete, Bool.false_eq_true, if_false, Std.ExtTreeMap.getKey?_insert,
    Std.ExtTreeMap.getElem?_insert]
  split
  · simp [eq_comm]
  · exact holdsIff.symm

theorem insertIncomplete (incomplete : (ix.key values).hasNull = true) : ix.insert values id = ix := by
  simp [insert, incomplete]

theorem holdsErase (held : ix.find? (ix.key values) = some id) {id' : Nat} :
    Holds (ix.erase values id) k id' ↔ Key.order (ix.key values) k ≠ .eq ∧ Holds ix k id' := by
  rw [holdsIff]
  simp only [erase, held, if_true, Std.ExtTreeMap.getKey?_erase, Std.ExtTreeMap.getElem?_erase]
  split <;> rename_i same
  · simp [same]
  · rw [holdsIff]
    simp [same]

/-! The rows of a table after a write -/

theorem rowInsert (rows : Rows) (id : Nat) (r : Row) (id' : Nat) :
    (rows.insert id r)[id']? = if id = id' then some r else rows[id']? := by
  rw [Std.ExtTreeMap.getElem?_insert]
  simp only [Nat.compare_eq_eq]

theorem rowErase (rows : Rows) (id id' : Nat) :
    (rows.erase id)[id']? = if id = id' then none else rows[id']? := by
  rw [Std.ExtTreeMap.getElem?_erase]
  simp only [Nat.compare_eq_eq]

theorem eraseInsert (rows : Rows) (id : Nat) (r : Row) : (rows.erase id).insert id r = rows.insert id r := by
  ext id' : 1
  rw [rowInsert, rowInsert, rowErase]
  split <;> rfl

theorem insertBack (stored : rows[id]? = some r) (new : Row) :
    (rows.insert id new).insert id r = rows := by
  ext id' : 1
  rw [rowInsert, rowInsert]
  split
  · rename_i same
    rw [← same, stored]
  · rfl

theorem eraseBack (absent : rows[id]? = none) (new : Row) : (rows.insert id new).erase id = rows := by
  ext id' : 1
  rw [rowErase, rowInsert]
  split
  · rename_i same
    rw [← same, absent]
  · rfl

/-! An index covers the rows of its table -/

theorem coversEmpty (name : String) (columns : List Nat) : Covers (new name columns) ∅ := by
  intro k id
  simp [Holds, Keyed, new]

theorem coversClear (ix : UniqueIndex) : Covers ix.clear ∅ := coversEmpty ix.name ix.columns

theorem coversFindIncomplete (covers : Covers ix rows) (incomplete : k.hasNull = true) :
    ix.find? k = none := by
  cases found : ix.find? k with
  | none => rfl
  | some id =>
      obtain ⟨k', same, holds⟩ := findIff.mp found
      have complete := ((covers k' id).mp holds).1
      rw [← Key.nullOfOrder same, incomplete] at complete
      exact absurd complete (by simp)

theorem keyedErase {id' : Nat} : Keyed (ix.erase values id) (rows.erase id) k id' ↔
    id ≠ id' ∧ Keyed ix rows k id' := by
  simp only [Keyed, keyErase, rowErase]
  by_cases same : id = id' <;> simp [same]

theorem coversErase (covers : Covers ix rows) (stored : rows[id]? = some r) :
    Covers (ix.erase r.values id) (rows.erase id) := by
  intro k id'
  rw [keyedErase]
  by_cases incomplete : (ix.key r.values).hasNull = true
  · have absent : ix.find? (ix.key r.values) ≠ some id := by
      rw [coversFindIncomplete covers incomplete]
      simp
    rw [erase, if_neg absent, covers k id']
    refine (and_iff_right_of_imp ?_).symm
    rintro ⟨complete, r', stored', rfl⟩ rfl
    cases stored.symm.trans stored'
    exact Bool.false_ne_true (complete.symm.trans incomplete)
  · have complete : (ix.key r.values).hasNull = false := by simpa using incomplete
    have own : Holds ix (ix.key r.values) id := (covers _ _).mpr ⟨complete, r, stored, rfl⟩
    have held : ix.find? (ix.key r.values) = some id := findIff.mpr ⟨_, Key.orderSelf _, own⟩
    rw [holdsErase held, covers k id']
    refine and_congr_left fun other => not_congr ?_
    constructor
    · intro same
      exact (holdsOnce own ((covers k id').mpr other) same).2
    · rintro rfl
      obtain ⟨_, r', stored', rfl⟩ := other
      cases stored.symm.trans stored'
      exact Key.orderSelf _

theorem keyedInsert (absent : rows[id]? = none) {id' : Nat} :
    Keyed (ix.insert r.values id) (rows.insert id r) k id' ↔
      (k.hasNull = false ∧ id' = id ∧ k = ix.key r.values) ∨ Keyed ix rows k id' := by
  simp only [Keyed, keyInsert, rowInsert]
  by_cases same : id = id'
  · subst same
    simp only [if_true, absent, Option.some.injEq, exists_eq_left', reduceCtorEq, false_and,
      exists_false, and_false, or_false, true_and]
    exact and_congr_right fun _ => eq_comm
  · simp [same, Ne.symm same]

theorem coversInsert (covers : Covers ix rows) (absent : rows[id]? = none)
    (free : Free ix rows r.values none) : Covers (ix.insert r.values id) (rows.insert id r) := by
  intro k id'
  rw [keyedInsert absent, ← covers k id']
  by_cases incomplete : (ix.key r.values).hasNull = true
  · rw [insertIncomplete incomplete]
    refine (or_iff_right ?_).symm
    rintro ⟨complete, _, rfl⟩
    exact Bool.false_ne_true (complete.symm.trans incomplete)
  · have complete : (ix.key r.values).hasNull = false := by simpa using incomplete
    rw [holdsInsert complete]
    split <;> rename_i same
    · constructor
      · rintro ⟨rfl, rfl⟩
        exact .inl ⟨complete, rfl, rfl⟩
      · rintro (⟨_, rfl, rfl⟩ | holds)
        · exact ⟨rfl, rfl⟩
        · obtain ⟨_, r', stored, rfl⟩ := (covers k id').mp holds
          exact absurd (free complete id' r' stored (Key.orderSymm same)) (by simp)
    · refine (or_iff_right ?_).symm
      rintro ⟨_, _, rfl⟩
      exact same (Key.orderSelf _)

theorem coversOverwrite {old new : Row} (covers : Covers ix rows) (stored : rows[id]? = some old)
    (free : Free ix rows new.values (some id)) :
    Covers ((ix.erase old.values id).insert new.values id) (rows.insert id new) := by
  rw [← eraseInsert]
  refine coversInsert (coversErase covers stored) (by rw [rowErase, if_pos rfl]) ?_
  intro complete id' r' stored' same
  rw [keyErase] at complete same
  rw [rowErase] at stored'
  split at stored'
  · cases stored'
  · rename_i apart
    exact absurd (Option.some.inj (free complete id' r' stored' same)).symm apart

/-! What an index that covers its rows answers -/

theorem coversFind (covers : Covers ix rows) (complete : k.hasNull = false) :
    ix.find? k = some id ↔ ∃ r, rows[id]? = some r ∧ Key.order (ix.key r.values) k = .eq := by
  rw [findIff]
  constructor
  · rintro ⟨k', same, holds⟩
    obtain ⟨_, r, stored, rfl⟩ := (covers k' id).mp holds
    exact ⟨r, stored, Key.orderSymm same⟩
  · rintro ⟨r, stored, same⟩
    have complete' : (ix.key r.values).hasNull = false := (Key.nullOfOrder same).trans complete
    exact ⟨_, Key.orderSymm same, (covers _ id).mpr ⟨complete', r, stored, rfl⟩⟩

theorem coversOnce {r' : Row} {id' : Nat} (covers : Covers ix rows) (first : rows[id]? = some r)
    (second : rows[id']? = some r') (complete : (ix.key r.values).hasNull = false)
    (same : Key.order (ix.key r.values) (ix.key r'.values) = .eq) : id = id' := by
  have complete' : (ix.key r'.values).hasNull = false := (Key.nullOfOrder same).symm.trans complete
  exact (holdsOnce ((covers _ id).mpr ⟨complete, r, first, rfl⟩)
    ((covers _ id').mpr ⟨complete', r', second, rfl⟩) same).2

theorem coversFree (covers : Covers ix rows) (stored : rows[id]? = some r) :
    Free ix rows r.values (some id) := by
  intro complete id' r' stored' same
  exact congrArg some (coversOnce covers stored stored' complete (Key.orderSymm same)).symm

theorem conflictNone (covers : Covers ix rows) {exempt : Option Nat} :
    ix.conflict? values exempt = none ↔ Free ix rows values exempt := by
  simp only [conflict?, Free]
  by_cases incomplete : (ix.key values).hasNull = true
  · simp [incomplete]
  · have complete : (ix.key values).hasNull = false := by simpa using incomplete
    simp only [complete, Bool.false_eq_true, if_false, Option.filter_eq_none_iff, ne_eq,
      decide_not, Bool.not_eq_true', decide_eq_false_iff_not, Decidable.not_not, true_implies]
    constructor
    · intro free id r stored same
      exact free id ((coversFind covers complete).mpr ⟨r, stored, same⟩)
    · intro free id found
      obtain ⟨r, stored, same⟩ := (coversFind covers complete).mp found
      exact free id r stored same

theorem nodupHolders (ix : UniqueIndex) : ix.holders.toList.Nodup := by
  refine Std.ExtTreeMap.distinct_keys_toList.imp ?_
  rintro a b apart rfl
  exact apart (Key.orderSelf a.1)

theorem coversUnique {ix' : UniqueIndex} (shape : ix.clear = ix'.clear) (covers : Covers ix rows)
    (covers' : Covers ix' rows) : ix = ix' := by
  obtain ⟨name, columns, holders⟩ := ix
  obtain ⟨name', columns', holders'⟩ := ix'
  simp only [clear, mk.injEq, and_true] at shape
  obtain ⟨rfl, rfl⟩ := shape
  have equal : holders = holders' := by
    apply Std.ExtTreeMap.ext_toList
    rw [List.perm_ext_iff_of_nodup (nodupHolders ⟨name, columns, holders⟩)
      (nodupHolders ⟨name, columns, holders'⟩)]
    rintro ⟨k, id⟩
    exact (covers k id).trans (covers' k id).symm
  rw [equal]

/-! Taking a write back leaves the index as it was -/

theorem insertBackOut (covers : Covers ix rows) (absent : rows[id]? = none)
    (free : Free ix rows r.values none) : (ix.insert r.values id).erase r.values id = ix := by
  have inserted : Covers (ix.insert r.values id) (rows.insert id r) := coversInsert covers absent free
  have stored : (rows.insert id r)[id]? = some r := by rw [rowInsert, if_pos rfl]
  have erased := coversErase inserted stored
  rw [eraseBack absent] at erased
  exact coversUnique (by simp) erased covers

theorem overwriteBack {old new : Row} (covers : Covers ix rows) (stored : rows[id]? = some old)
    (free : Free ix rows new.values (some id)) :
    (((ix.erase old.values id).insert new.values id).erase new.values id).insert old.values id = ix := by
  have replaced := coversOverwrite covers stored free
  have stored' : (rows.insert id new)[id]? = some new := by rw [rowInsert, if_pos rfl]
  -- The key that comes back was that of a stored row, and no other row has taken it.
  have free' : Free ((ix.erase old.values id).insert new.values id) (rows.insert id new) old.values
      (some id) := by
    intro complete id' r' there same
    rw [keyInsert, keyErase] at complete same
    rw [rowInsert] at there
    split at there
    · rename_i here
      rw [here]
    · exact coversFree covers stored complete id' r' there same
  have restored := coversOverwrite replaced stored' free'
  rw [insertBack stored] at restored
  exact coversUnique (by simp) restored covers

end UniqueIndex

end RelQuery
