import Mathlib.Data.List.Induction
import RelQuery.Proofs.Grouping
import RelQuery.Proofs.Value.Digest
import Std.Data.HashMap.Lemmas

/-! Groups one row at a time. A hash map tells the place of a key's group, and a row goes to the end of that group or
begins one of its own. As equal keys are hashed alike, however that is done, the groups are those of equal keys. -/
namespace RelQuery.Grouping

variable {α : Type}

/-- A key as a hash map has it: compared as a query value, and hashed in some way by what its values are hashed by. -/
structure Hashed (hash : List Digest → UInt64) where
  key : Key

section
variable {hash : List Digest → UInt64}

instance : BEq (Hashed hash) := ⟨fun a b => a.key.same b.key⟩

instance : Hashable (Hashed hash) := ⟨fun a => hash a.key.digest⟩

instance : EquivBEq (Hashed hash) where
  rfl := Key.sameSelf _
  symm same := (Key.sameSymm ..).trans same
  trans first second := (Key.sameLeft first _).trans second

instance : LawfulHashable (Hashed hash) where
  hash_eq _ _ same := congrArg hash (Key.sameDigest same)

end

/-- Groups in the making, with the place of the group of each key. -/
structure Gathering (α : Type) (hash : List Digest → UInt64) where
  index : Std.HashMap (Hashed hash) Nat
  groups : List (List α)

namespace Gathering

variable {hash : List Digest → UInt64}

def add (t : Gathering α hash) (entry : Key × α) : Gathering α hash :=
  match t.index[(⟨entry.1⟩ : Hashed hash)]? with
  | some g => { t with groups := t.groups.modify g (· ++ [entry.2]) }
  | none => ⟨t.index.insert ⟨entry.1⟩ t.groups.length, t.groups ++ [[entry.2]]⟩

def run (hash : List Digest → UInt64) (keyed : List (Key × α)) : Gathering α hash := keyed.foldl add ⟨∅, []⟩

/-- The index and the groups are in step: each key has the place of its group. -/
structure InStep (keyed : List (Key × α)) (t : Gathering α hash) : Prop where
  index : ∀ key, t.index[(⟨key⟩ : Hashed hash)]? =
    ((keyed.map (·.1)).eraseDupsBy Key.same).findIdx? (key.same ·)
  groups : t.groups = ((keyed.map (·.1)).eraseDupsBy Key.same).map (membersOf keyed)

end Gathering

theorem firstsConcat {β : Type} (same : β → β → Bool) (xs : List β) (x : β) : (xs ++ [x]).eraseDupsBy same =
    xs.eraseDupsBy same ++ if (xs.eraseDupsBy same).any (same x ·) then [] else [x] := by
  match xs with
  | [] => simp [List.eraseDupsBy_cons]
  | first :: rest =>
      rw [List.cons_append, List.eraseDupsBy_cons, List.eraseDupsBy_cons, List.filter_append, List.any_cons]
      cases met : same x first with
      | true => simp [met]
      | false =>
          have kept : [x].filter (fun y => same y first = false) = [x] := by simp [met]
          rw [kept, firstsConcat same _ x]
          simp
termination_by xs.length
decreasing_by exact Nat.lt_succ_of_le (List.length_filter_le ..)

theorem membersConcat (keyed : List (Key × α)) (entry : Key × α) (key : Key) : membersOf (keyed ++ [entry]) key =
    membersOf keyed key ++ if entry.1.same key then [entry.2] else [] := by
  rw [membersOf, List.filter_append, List.map_append, membersOf]
  congr 1
  cases own : entry.1.same key <;> simp [own]

theorem firstsOnce {keys : List Key} {i j : Nat} {a b : Key} (own : (keys.eraseDupsBy Key.same)[i]? = some a)
    (own' : (keys.eraseDupsBy Key.same)[j]? = some b) (same : a.same b = true) : i = j := by
  obtain ⟨inside, rfl⟩ := List.getElem?_eq_some_iff.mp own
  obtain ⟨inside', rfl⟩ := List.getElem?_eq_some_iff.mp own'
  have apart := List.pairwise_iff_getElem.mp (firstsApart Key.same keys)
  rcases Nat.lt_trichotomy i j with less | equal | more
  · cases ((Key.sameSymm ..).trans same).symm.trans (apart i j inside inside' less)
  · exact equal
  · cases same.symm.trans (apart j i inside' inside more)

namespace Gathering

variable {hash : List Digest → UInt64} {keyed : List (Key × α)} {t : Gathering α hash}

theorem addMet {key : Key} {item : α} {g : Nat} (step : InStep keyed t)
    (found : t.index[(⟨key⟩ : Hashed hash)]? = some g) : InStep (keyed ++ [(key, item)]) (t.add (key, item)) := by
  have place := (step.index key).symm.trans found
  obtain ⟨inside, same, _⟩ := List.findIdx?_eq_some_iff_getElem.mp place
  have met : ((keyed.map (·.1)).eraseDupsBy Key.same).any (key.same ·) = true :=
    List.any_eq_true.mpr ⟨_, List.getElem_mem inside, same⟩
  have firsts : ((keyed ++ [(key, item)]).map (·.1)).eraseDupsBy Key.same =
      (keyed.map (·.1)).eraseDupsBy Key.same := by
    rw [List.map_append, List.map_singleton, firstsConcat, met, if_pos rfl, List.append_nil]
  simp only [add, found]
  refine ⟨fun other => by rw [firsts, step.index], ?_⟩
  rw [firsts, step.groups]
  refine List.ext_getElem? fun i => ?_
  rw [List.getElem?_modify, List.getElem?_map, List.getElem?_map]
  cases own : ((keyed.map (·.1)).eraseDupsBy Key.same)[i]? with
  | none => rfl
  | some first =>
      simp only [Option.map_eq_map, Option.map_some, Option.some.injEq, membersConcat]
      by_cases here : g = i
      · subst here
        have first' : first = _ := Option.some.inj (own.symm.trans (List.getElem?_eq_getElem inside))
        rw [if_pos rfl, first', if_pos same]
      · rw [if_neg here, if_neg, List.append_nil]
        intro alike
        refine here (firstsOnce (List.getElem?_eq_getElem inside) own ?_)
        rw [← Key.sameLeft same, alike]

theorem addNew {key : Key} {item : α} (step : InStep keyed t)
    (absent : t.index[(⟨key⟩ : Hashed hash)]? = none) : InStep (keyed ++ [(key, item)]) (t.add (key, item)) := by
  have apart : ∀ first ∈ (keyed.map (·.1)).eraseDupsBy Key.same, key.same first = false :=
    List.findIdx?_eq_none_iff.mp ((step.index key).symm.trans absent)
  have firsts : ((keyed ++ [(key, item)]).map (·.1)).eraseDupsBy Key.same =
      (keyed.map (·.1)).eraseDupsBy Key.same ++ [key] := by
    rw [List.map_append, List.map_singleton, firstsConcat, if_neg]
    rw [List.any_eq_true]
    rintro ⟨first, member, same⟩
    exact absurd same (by simp [apart first member])
  have others : membersOf keyed key = [] := by
    refine List.map_eq_nil_iff.mpr (List.filter_eq_nil_iff.mpr fun entry member same => ?_)
    obtain ⟨first, listed, alike⟩ := firstsCover Key.sameSelf (List.mem_map_of_mem (f := (·.1)) member)
    rw [Key.sameLeft same, apart first listed] at alike
    cases alike
  simp only [add, absent]
  refine ⟨fun other => ?_, ?_⟩
  · have length : t.groups.length = ((keyed.map (·.1)).eraseDupsBy Key.same).length := by
      rw [step.groups, List.length_map]
    rw [firsts, Std.HashMap.getElem?_insert, step.index, List.findIdx?_append, length]
    by_cases same : key.same other = true
    · have none : ((keyed.map (·.1)).eraseDupsBy Key.same).findIdx? (other.same ·) = none :=
        List.findIdx?_eq_none_iff.mpr fun first member => by rw [← Key.sameLeft same, apart first member]
      have own : other.same key = true := (Key.sameSymm ..).trans same
      have equal : ((⟨key⟩ : Hashed hash) == ⟨other⟩) = true := same
      simp [equal, none, own]
    · have other' : other.same key = false := (Key.sameSymm ..).trans (Bool.eq_false_iff.mpr same)
      have unequal : ((⟨key⟩ : Hashed hash) == ⟨other⟩) = false := Bool.eq_false_iff.mpr same
      simp [unequal, other']
  · rw [firsts, List.map_append, List.map_singleton, membersConcat, others, if_pos (Key.sameSelf key)]
    dsimp only
    rw [step.groups]
    refine congrArg (· ++ [[item]]) (List.map_congr_left fun first member => ?_)
    rw [membersConcat, if_neg (by simp [apart first member]), List.append_nil]

theorem addInStep (step : InStep keyed t) (entry : Key × α) : InStep (keyed ++ [entry]) (t.add entry) := by
  cases found : t.index[(⟨entry.1⟩ : Hashed hash)]? with
  | none => exact addNew step found
  | some g => exact addMet step found

/-- Rows one at a time come to the same groups, whatever their keys are hashed by. -/
theorem gathered (hash : List Digest → UInt64) (keyed : List (Key × α)) :
    (run hash keyed).groups = (ofKeyed keyed).map (·.members) := by
  suffices step : InStep keyed (run hash keyed) by
    rw [step.groups, ofKeyedEq, List.map_map]
    rfl
  induction keyed using List.reverseRecOn with
  | nil => exact ⟨fun key => by simp [run], rfl⟩
  | append_singleton keyed entry ih =>
      rw [run, List.foldl_append]
      exact addInStep ih entry

end Gathering

end RelQuery.Grouping
