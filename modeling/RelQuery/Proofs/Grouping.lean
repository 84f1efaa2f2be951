import RelQuery.Grouping
import RelQuery.Proofs.Value.Equality

/-! The first of equal items. What `firsts` lists is the input without the items that equal an earlier
one, so no two of its items are equal. The groups of keyed items are one for each key so listed, with
all items of that key. -/
namespace RelQuery.Grouping

variable {α : Type} {order : α → α → Ordering} [Std.TransCmp order]

theorem keepFirsts (items : List α) (seen : Std.TreeSet α order) (kept : Array α) :
    (items.foldl keepFirst (seen, kept)).2.toList = kept.toList ++
      (items.filter fun x => !seen.contains x).eraseDupsBy fun a b => order a b == .eq := by
  induction items generalizing seen kept with
  | nil => simp
  | cons x items ih =>
      rw [List.foldl_cons, keepFirst]
      cases met : seen.contains x with
      | true => simp [met, ih]
      | false =>
          have later : (items.filter fun y => !(seen.insert x).contains y) =
              (items.filter fun y => !seen.contains y).filter fun y => (order y x == .eq) = false := by
            rw [List.filter_filter]
            refine List.filter_congr fun y _ => ?_
            have turned : (order x y == .eq) = (order y x == .eq) := by
              rw [Bool.eq_iff_iff, beq_iff_eq, beq_iff_eq, Std.OrientedCmp.eq_comm]
            rw [Std.TreeSet.contains_insert, turned]
            cases order y x == .eq <;> simp
          rw [if_neg (by simp), ih, later, List.filter_cons_of_pos (by simp [met]),
            List.eraseDupsBy_cons]
          simp

theorem firstsErase (items : List α) :
    firsts order items = items.eraseDupsBy fun a b => order a b == .eq := by
  have all := @keepFirsts α order _ items ∅ #[]
  rw [List.filter_eq_self.mpr (by simp)] at all
  exact all

theorem firstsSublist (same : α → α → Bool) (xs : List α) : (xs.eraseDupsBy same).Sublist xs := by
  match xs with
  | [] => exact .slnil
  | first :: rest =>
      rw [List.eraseDupsBy_cons]
      exact .cons_cons first ((firstsSublist same _).trans List.filter_sublist)
termination_by xs.length
decreasing_by exact Nat.lt_succ_of_le (List.length_filter_le ..)

/-- Every item is equal to the first of those that are equal to it. -/
theorem firstsCover {same : α → α → Bool} (self : ∀ x, same x x = true) {xs : List α} {x : α}
    (member : x ∈ xs) : ∃ y ∈ xs.eraseDupsBy same, same x y = true := by
  match xs with
  | first :: rest =>
      rw [List.eraseDupsBy_cons]
      by_cases equal : same x first = true
      · exact ⟨first, List.mem_cons_self, equal⟩
      · have inside : x ∈ rest := by
          refine (List.mem_cons.mp member).resolve_left ?_
          rintro rfl
          exact equal (self x)
        have kept : x ∈ rest.filter fun y => same y first = false :=
          List.mem_filter.mpr ⟨inside, by simpa using equal⟩
        obtain ⟨y, listed, alike⟩ := firstsCover self kept
        exact ⟨y, List.mem_cons_of_mem _ listed, alike⟩
termination_by xs.length
decreasing_by exact Nat.lt_succ_of_le (List.length_filter_le ..)

theorem firstsApart (same : α → α → Bool) (xs : List α) :
    (xs.eraseDupsBy same).Pairwise fun a b => same b a = false := by
  match xs with
  | [] => exact .nil
  | first :: rest =>
      rw [List.eraseDupsBy_cons, List.pairwise_cons]
      refine ⟨fun x member => ?_, firstsApart same _⟩
      simpa using (List.mem_filter.mp ((firstsSublist same _).subset member)).2
termination_by xs.length
decreasing_by exact Nat.lt_succ_of_le (List.length_filter_le ..)

theorem eraseDupsConcat {α : Type} [BEq α] [LawfulBEq α] (xs : List α) (x : α) :
    (xs ++ [x]).eraseDups = if x ∈ xs then xs.eraseDups else xs.eraseDups ++ [x] := by
  rw [List.eraseDups_append]
  split
  · rename_i met
    have again : [x].removeAll xs = [] := List.filter_eq_nil_iff.mpr (by simpa using met)
    rw [again, List.eraseDups_nil, List.append_nil]
  · rename_i new
    have fresh : [x].removeAll xs = [x] := List.filter_eq_self.mpr (by simpa using new)
    rw [fresh, List.eraseDups_cons, List.filter_nil, List.eraseDups_nil]

theorem eraseDupsNodup {α : Type} [BEq α] [LawfulBEq α] (xs : List α) : xs.eraseDups.Nodup :=
  (firstsApart (· == ·) xs).imp fun apart same => by simp [same] at apart

theorem firstsKeys (keys : List Key) : firsts Key.order keys = keys.eraseDupsBy Key.same := by
  rw [firstsErase]
  congr 1
  funext a b
  rw [Bool.eq_iff_iff, beq_iff_eq, Key.sameIff]

theorem firstsKeysApart (keys : List Key) :
    (firsts Key.order keys).Pairwise fun a b => a.same b = false := by
  rw [firstsKeys]
  exact (firstsApart Key.same keys).imp fun apart => (Key.sameSymm _ _).trans apart

/-- An item that is kept is the first of those whose key is equal to its own. -/
theorem firstsFindBy (key : α → Key) {xs : List α} {x : α}
    (kept : x ∈ xs.eraseDupsBy fun a b => (key a).same (key b)) :
    xs.find? (fun y => (key y).same (key x)) = some x := by
  match xs with
  | first :: rest =>
      rw [List.eraseDupsBy_cons] at kept
      rcases List.mem_cons.mp kept with rfl | later
      · exact List.find?_cons_of_pos (Key.sameSelf (key x))
      · have other : (key x).same (key first) = false := by
          simpa using (List.mem_filter.mp ((firstsSublist _ _).subset later)).2
        have passed : ¬(key first).same (key x) = true := by simp [Key.sameSymm (key first), other]
        have alike : (fun a : α => decide (decide ((key a).same (key first) = false) = true ∧
            (key a).same (key x) = true)) = fun a => (key a).same (key x) := by
          funext a
          cases own : (key a).same (key x) with
          | false => simp
          | true => simp [Key.sameLeft own, other]
        rw [List.find?_cons_of_neg (p := fun y => (key y).same (key x)) passed]
        have found := firstsFindBy key later
        rwa [List.find?_filter, alike] at found
termination_by xs.length
decreasing_by exact Nat.lt_succ_of_le (List.length_filter_le ..)

theorem firstsFind {keys : List Key} {key : Key} (kept : key ∈ keys.eraseDupsBy Key.same) :
    keys.find? (·.same key) = some key := firstsFindBy id kept

/-- What is left where only the first of equal keys is kept. -/
structure FirstOccurrences (all kept : List Key) : Prop where
  order : kept.Sublist all
  apart : kept.Pairwise fun a b => a.same b = false
  covers : ∀ key ∈ all, ∃ first ∈ kept, key.same first = true
  first : ∀ key ∈ kept, all.find? (·.same key) = some key

theorem firstOccurrences (keys : List Key) : FirstOccurrences keys (keys.eraseDupsBy Key.same) where
  order := firstsSublist ..
  apart := firstsKeys keys ▸ firstsKeysApart keys
  covers _ member := firstsCover Key.sameSelf member
  first _ kept := firstsFind kept

/-- The members of a key, in input order. -/
def membersOf (keyed : List (Key × α)) (key : Key) : List α :=
  (keyed.filter fun entry => entry.1.same key).map (·.2)

theorem membersInsert (keyed : List (Key × α)) (groups : Std.TreeMap Key (List α) Key.order)
    (key : Key) :
    (keyed.foldl (fun groups (key, item) => groups.insert key (item :: groups.getD key [])) groups).getD
      key [] = (membersOf keyed key).reverse ++ groups.getD key [] := by
  induction keyed generalizing groups with
  | nil => rfl
  | cons entry keyed ih =>
      rw [List.foldl_cons, ih, Std.TreeMap.getD_insert, membersOf, membersOf, List.filter_cons]
      by_cases same : entry.1.order key = .eq
      · rw [if_pos same, if_pos ((Key.sameIff ..).mpr same), List.map_cons, List.reverse_cons,
          List.append_assoc, Std.TreeMap.getD_congr same]
        rfl
      · rw [if_neg same, if_neg (mt (Key.sameIff ..).mp same)]

/-- Groups stand for the distinct keys, in the order in which these first occur. -/
theorem ofKeyedEq (keyed : List (Key × α)) : ofKeyed keyed =
    ((keyed.map (·.1)).eraseDupsBy Key.same).map fun key => ⟨key, membersOf keyed key⟩ := by
  rw [ofKeyed, firstsKeys]
  refine List.map_congr_left fun key _ => ?_
  rw [membersByKey, membersInsert, Std.TreeMap.getD_emptyc, List.append_nil, List.reverse_reverse]

variable {keyed : List (Key × α)} {keys : List Key}

theorem membersWithout {key other : Key} (apart : other.same key = false) :
    membersOf (keyed.filter fun entry => !entry.1.same key) other = membersOf keyed other := by
  rw [membersOf, membersOf, List.filter_filter]
  congr 1
  refine List.filter_congr fun entry _ => ?_
  cases own : entry.1.same other with
  | false => rfl
  | true =>
      rw [Key.sameLeft own key, apart]
      rfl

/-- Where every item has the key of one group and of no other, the groups together hold each item once. -/
theorem membersPerm (apart : keys.Pairwise fun a b => b.same a = false)
    (covered : ∀ entry ∈ keyed, ∃ key ∈ keys, entry.1.same key = true) :
    (keys.flatMap (membersOf keyed)).Perm (keyed.map (·.2)) := by
  induction keys generalizing keyed with
  | nil =>
      have none : keyed = [] := by
        refine List.eq_nil_iff_forall_not_mem.mpr fun entry member => ?_
        simpa using covered entry member
      rw [none]
      exact .nil
  | cons key keys ih =>
      obtain ⟨first, rest⟩ := List.pairwise_cons.mp apart
      have others : keys.flatMap (membersOf keyed) =
          keys.flatMap (membersOf (keyed.filter fun entry => !entry.1.same key)) := by
        rw [List.flatMap_def, List.flatMap_def]
        exact congrArg List.flatten (List.map_congr_left fun other member => (membersWithout (first other member)).symm)
      rw [List.flatMap_cons, others]
      refine ((ih rest fun entry member => ?_).append_left _).trans ?_
      · obtain ⟨listed, another⟩ := List.mem_filter.mp member
        obtain ⟨other, there, own⟩ := covered entry listed
        rcases List.mem_cons.mp there with rfl | there
        · simp [own] at another
        · exact ⟨other, there, own⟩
      · rw [membersOf, ← List.map_append]
        exact (List.filter_append_perm _ keyed).map _

/-- Every item is in one group, once. -/
theorem ofKeyedPerm (keyed : List (Key × α)) :
    ((ofKeyed keyed).flatMap (·.members)).Perm (keyed.map (·.2)) := by
  rw [ofKeyedEq, List.flatMap_map]
  refine membersPerm (firstsApart Key.same _) fun entry member => ?_
  exact firstsCover Key.sameSelf (List.mem_map_of_mem member)

end RelQuery.Grouping
