import RelQuery.Proofs.Select.Frames
import RelQuery.Proofs.Select.Gathering
import RelQuery.Proofs.Select.Renaming

/-! Groups of rows. The rows with equal keys are one group, in which they stand as in the input; groups come in the
order of their first rows, which stand for them. Without criteria all rows are one group. -/
namespace RelQuery

namespace Grouping

variable {α : Type}

theorem eraseKeyed (keyed : List (Key × α)) : (keyed.map (·.1)).eraseDupsBy Key.same =
    (keyed.eraseDupsBy fun a b => a.1.same b.1).map (·.1) := by
  match keyed with
  | [] => rfl
  | first :: rest =>
      rw [List.map_cons, List.eraseDupsBy_cons, List.eraseDupsBy_cons, List.map_cons, List.filter_map,
        eraseKeyed]
      rfl
termination_by keyed.length
decreasing_by exact Nat.lt_succ_of_le (List.length_filter_le ..)

/-- The first members of the groups, in the order of the groups. -/
def leaders (keyed : List (Key × α)) : List α := (keyed.eraseDupsBy fun a b => a.1.same b.1).map (·.2)

theorem leadersSublist (keyed : List (Key × α)) : (leaders keyed).Sublist (keyed.map (·.2)) :=
  (firstsSublist ..).map _

theorem membersHead (keyed : List (Key × α)) (key : Key) :
    (membersOf keyed key).head? = (keyed.find? (·.1.same key)).map (·.2) := by
  rw [membersOf, List.head?_map, List.head?_filter]

theorem groupLeaders (keyed : List (Key × α)) :
    (ofKeyed keyed).map (·.members.head?) = (leaders keyed).map some := by
  rw [ofKeyedEq, eraseKeyed, leaders, List.map_map, List.map_map, List.map_map]
  refine List.map_congr_left fun entry kept => ?_
  simp only [Function.comp_apply, membersHead, firstsFindBy Prod.fst kept, Option.map_some]

theorem ofKeyedFilled (keyed : List (Key × α)) : ∀ g ∈ ofKeyed keyed, g.members ≠ [] := by
  intro g listed none
  have head : g.members.head? ∈ (leaders keyed).map some := groupLeaders keyed ▸ List.mem_map_of_mem listed
  obtain ⟨leader, _, own⟩ := List.mem_map.mp head
  rw [none] at own
  cases own

theorem membersSublist (keyed : List (Key × α)) (key : Key) : (membersOf keyed key).Sublist (keyed.map (·.2)) :=
  List.filter_sublist.map _

/-- Groups of places, which are those of some keys. -/
structure Partitions (keys : List Key) (groups : List (List Nat)) : Prop where
  once : groups.flatten.Perm (List.range keys.length)
  filled : ∀ g ∈ groups, g ≠ []
  input : ∀ g ∈ groups, g.Pairwise (· < ·)
  order : groups.Pairwise fun g h => ∀ i ∈ g.head?, ∀ j ∈ h.head?, i < j
  together : ∀ i j a b, keys[i]? = some a → keys[j]? = some b →
    ((∃ g ∈ groups, i ∈ g ∧ j ∈ g) ↔ a.same b = true)

/-- The groups of the places of some keys. -/
def placesByKey (keys : List Key) : List (List Nat) := (ofKeyed keys.zipIdx).map (·.members)

variable {keys : List Key}

theorem memPlaces {g : List Nat} : g ∈ placesByKey keys ↔
    ∃ key ∈ keys.eraseDupsBy Key.same, g = membersOf keys.zipIdx key := by
  simp only [placesByKey, ofKeyedEq, List.zipIdx_map_fst, List.map_map, List.mem_map, Function.comp_apply,
    eq_comm]

theorem memMembers {key : Key} {i : Nat} :
    i ∈ membersOf keys.zipIdx key ↔ ∃ a, keys[i]? = some a ∧ a.same key = true := by
  simp only [membersOf, List.mem_map, List.mem_filter, Prod.exists, List.mem_zipIdx_iff_getElem?]
  constructor
  · rintro ⟨a, i, ⟨there, same⟩, rfl⟩
    exact ⟨a, there, same⟩
  · rintro ⟨a, there, same⟩
    exact ⟨a, i, ⟨there, same⟩, rfl⟩

theorem placesPartition (keys : List Key) : Partitions keys (placesByKey keys) where
  once := by
    have perm := ofKeyedPerm keys.zipIdx
    rwa [List.flatMap_def, List.zipIdx_map_snd, ← List.range_eq_range'] at perm
  filled g listed := by
    obtain ⟨g, kept, rfl⟩ := List.mem_map.mp listed
    exact ofKeyedFilled _ g kept
  input g listed := by
    obtain ⟨key, _, rfl⟩ := memPlaces.mp listed
    refine List.Pairwise.sublist (membersSublist ..) ?_
    rw [List.zipIdx_map_snd]
    exact List.pairwise_lt_range'
  order := by
    have rising : (leaders keys.zipIdx).Pairwise (· < ·) := by
      refine List.Pairwise.sublist (leadersSublist _) ?_
      rw [List.zipIdx_map_snd]
      exact List.pairwise_lt_range'
    have heads : (placesByKey keys).map List.head? = (leaders keys.zipIdx).map some := by
      rw [placesByKey, List.map_map]
      exact groupLeaders keys.zipIdx
    have ordered : ((leaders keys.zipIdx).map some).Pairwise fun x y => ∀ i ∈ x, ∀ j ∈ y, i < j := by
      rw [List.pairwise_map]
      exact rising.imp (by simp)
    rw [← heads, List.pairwise_map] at ordered
    exact ordered
  together i j a b own own' := by
    constructor
    · rintro ⟨g, listed, member, member'⟩
      obtain ⟨key, _, rfl⟩ := memPlaces.mp listed
      obtain ⟨a', there, same⟩ := memMembers.mp member
      obtain ⟨b', there', same'⟩ := memMembers.mp member'
      cases own.symm.trans there
      cases own'.symm.trans there'
      exact (Key.sameRight same' a).trans same
    · intro same
      obtain ⟨key, kept, alike⟩ := firstsCover Key.sameSelf (List.mem_of_getElem? own)
      exact ⟨_, memPlaces.mpr ⟨key, kept, rfl⟩, memMembers.mpr ⟨a, own, alike⟩,
        memMembers.mpr ⟨b, own', (Key.sameLeft same key).symm.trans alike⟩⟩

end Grouping

namespace Output

variable {rows : List Composition} {groupBy : List Expr} {params : List Value} {keys : List Key}

/-- Whether an output row stands for the rows at some places, the first of which is its own. -/
def Gathers (rows : List Composition) (places : List Nat) (o : Output) : Prop :=
  ∃ members, o.members = some members ∧ members.head? = some o.row ∧
    List.Forall₂ (fun i row => rows[i]? = some row) places members

theorem groupsGather {groups : List (Group Nat)} {groups' : List (Group Composition)}
    (filled : ∀ g ∈ groups.map (·.members), g ≠ [])
    (alike : List.Forall₂ (fun g g' => List.Forall₂ (fun i row => rows[i]? = some row) g.members g'.members)
      groups groups') :
    List.Forall₂ (Gathers rows) (groups.map (·.members)) (groups'.filterMap ofGroup) := by
  induction alike with
  | nil => exact .nil
  | @cons g g' groups groups' one _ ih =>
      rw [List.map_cons, List.forall_mem_cons] at filled
      obtain ⟨key, members⟩ := g'
      dsimp only at one
      cases members with
      | nil => exact absurd (List.forall₂_nil_right_iff.mp one) filled.1
      | cons row members =>
          have own : ofGroup ⟨key, row :: members⟩ = some ⟨row, some (row :: members)⟩ := rfl
          rw [List.map_cons, List.filterMap_cons_some own]
          exact .cons ⟨_, rfl, rfl, one⟩ (ih filled.2)

theorem ofGroupsMembers {groups : List (Group Composition)} (filled : ∀ g ∈ groups, g.members ≠ []) :
    (groups.filterMap ofGroup).map (·.members) = groups.map fun g => some g.members := by
  induction groups with
  | nil => rfl
  | cons g groups ih =>
      obtain ⟨first, rest⟩ := List.forall_mem_cons.mp filled
      obtain ⟨key, members⟩ := g
      cases members with
      | nil => exact absurd rfl first
      | cons row members =>
          have own : ofGroup ⟨key, row :: members⟩ = some ⟨row, some (row :: members)⟩ := rfl
          rw [List.filterMap_cons_some own, List.map_cons, ih rest, List.map_cons]

/-- Rows whose keys have values fall into groups, one for each of the keys that are told apart, and each row is in
one of them. These are the groups that come of the rows one at a time. Without criteria there is one group of all
rows, also where there are none. -/
theorem ofGroupsPartitions (rows : List Composition) (groupBy : List Expr) (params : List Value)
    (empty : Outcome Composition) :
    (∀ keys, groupBy ≠ [] → rows.mapM (groupKey groupBy params) = .ok keys →
      ∃ groups outputs, ofGroups rows groupBy params empty = .ok outputs ∧
        List.Forall₂ (Gathers rows) groups outputs ∧ Grouping.Partitions keys groups ∧
          ∀ hash, outputs.map (·.members) = ((Grouping.Gathering.run hash (keys.zip rows)).groups.map some)) ∧
    ofGroups rows [] params empty =
      (rows.head?.elim empty Except.ok).map fun row => [⟨row, some rows⟩] := by
  refine ⟨fun keys criteria evaluated => ?_, ?_⟩
  · obtain ⟨paired, alike⟩ := keyedPlaces evaluated
    have partitions := Grouping.placesPartition keys
    refine ⟨Grouping.placesByKey keys, (Grouping.ofKeyed (keys.zip rows)).filterMap ofGroup, ?_, ?_, partitions,
      fun hash => ?_⟩
    · rw [ofGroups, if_neg (by simpa using criteria), paired]
      rfl
    · exact groupsGather partitions.filled (groupsAlike alike)
    · rw [ofGroupsMembers (Grouping.ofKeyedFilled _), Grouping.Gathering.gathered, List.map_map]
      rfl
  · rw [ofGroups]
    cases rows with
    | nil => cases empty <;> rfl
    | cons row rows => rfl

open WindowFrame (scores)

def scoredRows : List Composition := scores.map (·.row)

/-- An integer and a double that are equal are one team, and there is a group of no rows at all. -/
theorem ofGroupsPartitionsScored :
    let rows := scoredRows
    let team : List Expr := [.column ⟨none, "team"⟩]
    let keys : List Key := [[.int 1], [.int 2], [.float (.ofInt64 1)], [.int 1], [.int 1]]
    rows.mapM (groupKey team []) = .ok keys ∧
      (∃ groups outputs, ofGroups rows team [] (.ok ⟨[], []⟩) = .ok outputs ∧
        outputs.map (fun o => some o.row) = [rows[0]?, rows[1]?] ∧ List.Forall₂ (Gathers rows) groups outputs ∧
          Grouping.Partitions keys groups ∧
            ∀ hash, outputs.map (·.members) = ((Grouping.Gathering.run hash (keys.zip rows)).groups.map some)) ∧
      ofGroups [] [] [] (.ok ⟨[], []⟩) = .ok [⟨⟨[], []⟩, some []⟩] := by
  intro rows team keys
  have evaluated : rows.mapM (groupKey team []) = .ok keys := by decide +kernel
  obtain ⟨groups, outputs, answered, gathered, partitions, inTurn⟩ :=
    (ofGroupsPartitions rows team [] (.ok ⟨[], []⟩)).1 keys (by decide) evaluated
  have led : (ofGroups rows team [] (.ok ⟨[], []⟩)).map (·.map fun o => some o.row) =
      .ok [rows[0]?, rows[1]?] := by decide +kernel
  rw [answered] at led
  exact ⟨evaluated, ⟨groups, outputs, answered, Except.ok.inj led, gathered, partitions, inTurn⟩,
    (ofGroupsPartitions [] [] [] (.ok ⟨[], []⟩)).2⟩

end Output

end RelQuery
