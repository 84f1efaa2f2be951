import RelQuery.Pattern
import Mathlib.Data.List.Forall2
import Mathlib.Data.List.Infix

/-! Patterns as the texts that their characters stand for, one after another. A text matches a pattern exactly if
it falls into such pieces. So does the search that goes through both texts at once and tries every place after a
percent sign, which never calls itself deeper than the pattern is long. -/
namespace RelQuery.Pattern

/-- The texts that a character of a pattern stands for. -/
inductive Stands : Char → List Char → Prop where
  | run (piece : List Char) : Stands '%' piece
  | one (c : Char) : Stands '_' [c]
  | itself {p : Char} (noRun : p ≠ '%') (notAny : p ≠ '_') : Stands p [p]

/-- A text in pieces for which the characters of a pattern stand, in their order. -/
def Composed (pattern value : List Char) : Prop :=
  ∃ pieces, List.Forall₂ Stands pattern pieces ∧ pieces.flatten = value

variable {p c : Char} {ps cs value pattern : List Char}

theorem composedNil : Composed [] value ↔ value = [] := by
  simp only [Composed, List.forall₂_nil_left_iff, exists_eq_left, List.flatten_nil, eq_comm]

theorem composedCons : Composed (p :: ps) value ↔
    ∃ piece rest, Stands p piece ∧ Composed ps rest ∧ piece ++ rest = value := by
  simp only [Composed, List.forall₂_cons_left_iff]
  constructor
  · rintro ⟨_, ⟨piece, pieces, stands, others, rfl⟩, whole⟩
    exact ⟨piece, _, stands, ⟨pieces, others, rfl⟩, whole⟩
  · rintro ⟨piece, _, stands, ⟨pieces, others, rfl⟩, whole⟩
    exact ⟨piece :: pieces, ⟨piece, pieces, stands, others, rfl⟩, whole⟩

theorem standsOther (other : p ≠ '%') {piece : List Char} :
    Stands p piece ↔ ∃ c, piece = [c] ∧ (p = '_' ∨ p = c) := by
  constructor
  · rintro (_ | c | _)
    · exact absurd rfl other
    · exact ⟨c, rfl, .inl rfl⟩
    · exact ⟨p, rfl, .inr rfl⟩
  · rintro ⟨c, rfl, rfl | rfl⟩
    · exact .one c
    · by_cases underscore : p = '_'
      · exact underscore ▸ .one _
      · exact .itself other underscore

theorem composedPercent : Composed ('%' :: ps) value ↔ ∃ rest, rest <:+ value ∧ Composed ps rest := by
  rw [composedCons]
  constructor
  · rintro ⟨piece, rest, _, others, whole⟩
    exact ⟨rest, ⟨piece, whole⟩, others⟩
  · rintro ⟨rest, ⟨piece, whole⟩, others⟩
    exact ⟨piece, rest, .run piece, others, whole⟩

theorem composedOther (other : p ≠ '%') : Composed (p :: ps) value ↔
    ∃ c cs, value = c :: cs ∧ (p = '_' ∨ p = c) ∧ Composed ps cs := by
  simp only [composedCons, standsOther other]
  constructor
  · rintro ⟨_, cs, ⟨c, rfl, stands⟩, others, rfl⟩
    exact ⟨c, cs, rfl, stands, others⟩
  · rintro ⟨c, cs, rfl, stands, others⟩
    exact ⟨[c], cs, ⟨c, rfl, stands⟩, others, rfl⟩

/-- A run of percent signs stands for what one of them stands for. -/
theorem composedRun : Composed ('%' :: ps) value ↔
    ∃ rest, rest <:+ value ∧ Composed (ps.dropWhile (· == '%')) rest := by
  rw [composedPercent]
  induction ps generalizing value with
  | nil => rfl
  | cons p ps ih =>
      by_cases percent : p = '%'
      · subst percent
        rw [List.dropWhile_cons_of_pos (by rfl)]
        constructor
        · rintro ⟨middle, ending, others⟩
          obtain ⟨rest, later, found⟩ := ih.mp (composedPercent.mp others)
          exact ⟨rest, later.trans ending, found⟩
        · rintro ⟨rest, ending, others⟩
          exact ⟨value, List.suffix_rfl, composedPercent.mpr (ih.mpr ⟨rest, ending, others⟩)⟩
      · rw [List.dropWhile_cons_of_neg (by simpa using percent)]

/-! All endings at once -/

theorem setFromTails (f : List Char → Bool) (value : List Char) :
    setFrom (value.tails.map f) = value.tails.map fun ending => ending.tails.any f := by
  induction value with
  | nil => simp [setFrom]
  | cons c cs ih =>
      have next : setFrom ((c :: cs).tails.map f) =
          (f (c :: cs) || (setFrom (cs.tails.map f)).headD false) :: setFrom (cs.tails.map f) := by
        rw [List.tails_cons]
        rfl
      have first : (cs.tails.map fun ending => ending.tails.any f).headD false = cs.tails.any f := by
        cases cs <;> rfl
      rw [next, ih, first, List.tails_cons, List.map_cons, List.tails_cons, List.any_cons]

theorem likePercent (ps value : List Char)
    (all : matchesEndings value ps = value.tails.map (like ps)) :
    like ('%' :: ps) value = value.tails.any (like ps) := by
  simp only [like, if_true, all, List.any_map]
  rfl

theorem likeOther (other : p ≠ '%') (ps : List Char) (c : Char) (cs : List Char) :
    like (p :: ps) (c :: cs) = ((p = '_' || p = c) && like ps cs) := by
  simp only [like, if_neg other]

theorem matchesEndingsTails (ps value : List Char) :
    matchesEndings value ps = value.tails.map (like ps) := by
  induction ps generalizing value with
  | nil =>
      induction value with
      | nil => rfl
      | cons c cs ih =>
          rw [List.tails_cons, List.map_cons, ← ih]
          rfl
  | cons p ps ih =>
      by_cases percent : p = '%'
      · subst percent
        simp only [matchesEndings, if_true, ih, setFromTails]
        exact List.map_congr_left fun ending _ => (likePercent ps ending (ih ending)).symm
      · simp only [matchesEndings, if_neg percent, ih]
        induction value with
        | nil => simp [like, percent]
        | cons c cs further =>
            have later : cs.tails.map (like ps) = like ps cs :: (cs.tails.map (like ps)).tail := by
              cases cs <;> rfl
            rw [List.tails_cons, List.map_cons, List.tail_cons, later, List.zipWith_cons_cons,
              List.cons_append, further, List.map_cons, likeOther percent]

/-- A text matches a pattern exactly if the pattern's characters stand for pieces of it, in their order. -/
theorem likeIff : like pattern value = true ↔ Composed pattern value := by
  induction pattern generalizing value with
  | nil => rw [composedNil, like, List.isEmpty_iff]
  | cons p ps ih =>
      by_cases percent : p = '%'
      · subst percent
        rw [likePercent ps value (matchesEndingsTails ps value), List.any_eq_true, composedPercent]
        simp only [List.mem_tails, ih]
      · rw [composedOther percent]
        cases value with
        | nil => simp [like, percent]
        | cons c cs => simp [likeOther percent, ih]

/-! The search through both texts -/

/-- Searches from a place in a text and one in a pattern. Behind a run of percent signs every place that is left in
the text is tried. There is no answer if the search calls itself deeper than it may. -/
def search (value pattern : List Char) : (depth i j : Nat) → Option Bool
  | 0, _, _ => none
  | depth + 1, i, j =>
      match pattern[j]? with
      | none => some (i == value.length)
      | some p =>
          if p = '%' then
            let next := j + ((pattern.drop j).takeWhile (· == '%')).length
            (List.range' i (value.length + 1 - i)).anyM fun skip => search value pattern depth skip next
          else
            match value[i]? with
            | none => some false
            | some c => if p = '_' || p = c then search value pattern depth (i + 1) (j + 1) else some false

theorem anyAnswered {α : Type} {f : α → Option Bool} {g : α → Bool} {xs : List α}
    (each : ∀ x ∈ xs, f x = some (g x)) : xs.anyM f = some (xs.any g) := by
  induction xs with
  | nil => rfl
  | cons x xs ih =>
      obtain ⟨own, others⟩ := List.forall_mem_cons.mp each
      rw [List.anyM, own, ih others, List.any_cons]
      cases g x <;> rfl

theorem anyPlaces {n : Nat} (within : n ≤ value.length) : (List.range' n (value.length + 1 - n)).any
    (fun skip => like ps (value.drop skip)) = true ↔ ∃ rest, rest <:+ value.drop n ∧ Composed ps rest := by
  simp only [List.any_eq_true, List.mem_range'_1, likeIff]
  constructor
  · rintro ⟨skip, ⟨from', _⟩, found⟩
    exact ⟨_, List.drop_suffix_drop_left value from', found⟩
  · rintro ⟨rest, ending, found⟩
    have place := List.suffix_iff_eq_drop.mp ending
    have short := ending.length_le
    rw [List.drop_drop] at place
    rw [List.length_drop] at place short
    exact ⟨_, by omega, place ▸ found⟩

theorem dropRun (f : Char → Bool) (ps : List Char) : ps.drop (ps.takeWhile f).length = ps.dropWhile f := by
  have whole : (ps.takeWhile f ++ ps.dropWhile f).drop (ps.takeWhile f).length = ps.dropWhile f := List.drop_left
  rwa [List.takeWhile_append_dropWhile] at whole

theorem likeRun (ps value : List Char) : like ('%' :: ps) value = true ↔
    ∃ rest, rest <:+ value ∧ Composed (ps.dropWhile (· == '%')) rest := by
  rw [likeIff, composedRun]

/-- The search answers what matching by endings does, and calls itself once for each character of the pattern
at most. -/
theorem searchAnswers {depth i j : Nat} (within : i ≤ value.length) (within' : j ≤ pattern.length)
    (enough : pattern.length - j < depth) :
    search value pattern depth i j = some (like (pattern.drop j) (value.drop i)) := by
  induction depth generalizing i j with
  | zero => omega
  | succ depth ih =>
      simp only [search]
      cases here : pattern[j]? with
      | none =>
          have ended := List.getElem?_eq_none_iff.mp here
          rw [List.drop_eq_nil_of_le ended, like, Option.some.injEq, Bool.eq_iff_iff, beq_iff_eq,
            List.isEmpty_iff, List.drop_eq_nil_iff]
          omega
      | some p =>
          obtain ⟨inside, own⟩ := List.getElem?_eq_some_iff.mp here
          have rest : pattern.drop j = p :: pattern.drop (j + 1) := own ▸ List.drop_eq_getElem_cons inside
          dsimp only
          rw [rest]
          by_cases percent : p = '%'
          · subst percent
            rw [if_pos rfl, List.takeWhile_cons_of_pos (by rfl), List.length_cons]
            have short := (List.takeWhile_prefix (· == '%') (l := pattern.drop (j + 1))).length_le
            have past := dropRun (· == '%') (pattern.drop (j + 1))
            rw [List.length_drop] at short
            rw [List.drop_drop] at past
            have each (skip : Nat) (place : skip ∈ List.range' i (value.length + 1 - i)) :=
              ih (i := skip) (j := j + (((pattern.drop (j + 1)).takeWhile (· == '%')).length + 1))
                (by rw [List.mem_range'_1] at place; omega) (by omega) (by omega)
            rw [anyAnswered each, Option.some.injEq, Bool.eq_iff_iff, anyPlaces within, likeRun, ← past,
              Nat.add_right_comm, Nat.add_assoc]
          · rw [if_neg percent]
            cases there : value[i]? with
            | none =>
                have ended := List.getElem?_eq_none_iff.mp there
                rw [List.drop_eq_nil_of_le ended, like, if_neg percent]
            | some c =>
                obtain ⟨inside', own'⟩ := List.getElem?_eq_some_iff.mp there
                have later : value.drop i = c :: value.drop (i + 1) :=
                  own' ▸ List.drop_eq_getElem_cons inside'
                rw [later, likeOther percent]
                dsimp only
                split <;> rename_i met
                · rw [ih inside' inside (by omega), met, Bool.true_and]
                · rw [Bool.eq_false_iff.mpr met, Bool.false_and]

/-- A text matches a pattern exactly if it consists of pieces for which the pattern's characters stand in order: any
piece for a percent sign, a piece of one character for an underscore, and itself for any other character. The search
from the beginning of both texts comes to the same answer, no deeper than the pattern is long. -/
theorem matchesComposed (value pattern : String) :
    (matchesPattern value pattern = true ↔ Composed pattern.toList value.toList) ∧
      ∀ depth, pattern.length < depth →
        search value.toList pattern.toList depth 0 0 = some (matchesPattern value pattern) := by
  refine ⟨likeIff, fun depth enough => ?_⟩
  rw [← String.length_toList] at enough
  exact searchAnswers (Nat.zero_le _) (Nat.zero_le _) (by omega)

theorem matchesComposedName : Composed ['M', '_', 'l', '%', '%', 'r'] ['M', 'ü', 'l', 'l', 'e', 'r'] ∧
    ¬Composed ['M', '_', 'l', '%', '%', 'r'] ['M', 'u', 'e', 'l', 'l', 'e', 'r'] ∧
      search ['M', 'ü', 'l', 'l', 'e', 'r'] ['M', '_', 'l', '%', '%', 'r'] 7 0 0 = some true := by
  obtain ⟨composed, searched⟩ := matchesComposed "Müller" "M_l%%r"
  obtain ⟨composed', _⟩ := matchesComposed "Mueller" "M_l%%r"
  have found : matchesPattern "Müller" "M_l%%r" = true := by decide +kernel
  have missed : matchesPattern "Mueller" "M_l%%r" = false := by decide +kernel
  refine ⟨composed.mp found, fun other => ?_, (searched 7 (by decide +kernel)).trans (congrArg some found)⟩
  exact Bool.false_ne_true (missed.symm.trans (composed'.mpr other))

end RelQuery.Pattern
