import RelQuery.Proofs.Path.Starred

/-! Paths backwards. A path is its names and markers one after another without anything between them, so a text that
is put together could be read with other markers than those it was made of. Where no name has a character
that markers start with, it is read as it was made, and a reversed path has the same names and the swapped
markers in the opposite order. -/
namespace RelQuery

/-- A name or a marker of a path. -/
inductive Token where
  | name (cs : List Char)
  | marker (m : Marker)
  deriving DecidableEq, Repr

namespace Marker

theorem swapSwap (m : Marker) : m.swap.swap = m := by cases m <;> rfl

end Marker

namespace Token

def swap : Token → Token
  | name cs => name cs
  | marker m => marker m.swap

def name? : Token → Option (List Char)
  | name cs => some cs
  | marker _ => none

def marker? : Token → Option Marker
  | name _ => none
  | marker m => some m

theorem swapSwap (t : Token) : t.swap.swap = t := by
  cases t with
  | name cs => rfl
  | marker m => exact congrArg marker m.swapSwap

theorem markerSwap (t : Token) : t.swap.marker? = t.marker?.map Marker.swap := by cases t <;> rfl

end Token

namespace Trail

variable {t t' : Trail} {name : List Char} {passed steps : List (Marker × List Char)} {cs : List Char}

def stepTokens (steps : List (Marker × List Char)) : List Token :=
  steps.flatMap fun step => [.marker step.1, .name step.2]

def tokens (t : Trail) : List Token := .name t.start :: stepTokens t.steps

/-- Names without the characters that markers start with. -/
def Plain (t : Trail) : Prop := Marker.Free t.start ∧ ∀ step ∈ t.steps, Marker.Free step.2

theorem stepTokensInj {steps' : List (Marker × List Char)} (same : stepTokens steps = stepTokens steps') :
    steps = steps' := by
  induction steps generalizing steps' with
  | nil =>
      cases steps' with
      | nil => rfl
      | cons step' steps' => cases same
  | cons step steps ih =>
      cases steps' with
      | nil => cases same
      | cons step' steps' =>
          simp only [stepTokens, List.flatMap_cons, List.cons_append, List.nil_append, List.cons.injEq,
            Token.marker.injEq, Token.name.injEq] at same
          obtain ⟨marker, name, rest⟩ := same
          exact congrArg₂ List.cons (Prod.ext marker name) (ih rest)

theorem tokensInj (same : t.tokens = t'.tokens) : t = t' := by
  obtain ⟨start, steps⟩ := t
  obtain ⟨start', steps'⟩ := t'
  obtain ⟨first, rest⟩ := List.cons.inj same
  cases first
  cases stepTokensInj rest
  rfl

theorem plainTokens : t.Plain ↔ ∀ cs, .name cs ∈ t.tokens → Marker.Free cs := by
  simp only [Plain, tokens, stepTokens, List.mem_cons, List.mem_flatMap, Token.name.injEq, reduceCtorEq,
    List.not_mem_nil, false_or, or_false]
  constructor
  · rintro ⟨first, later⟩ cs (rfl | ⟨step, member, rfl⟩)
    · exact first
    · exact later step member
  · exact fun each => ⟨each _ (.inl rfl), fun step member => each _ (.inr ⟨step, member, rfl⟩)⟩

/-! Reading what was put together -/

theorem charsStep (start name : List Char) (m : Marker) (steps : List (Marker × List Char)) :
    toChars ⟨start, (m, name) :: steps⟩ = start ++ m.chars ++ toChars ⟨name, steps⟩ := by
  simp [toChars]

theorem ofCharsEq (cs : List Char) : ofChars cs = match Marker.split? cs with
    | none => ⟨cs, []⟩
    | some (lead, m, rest) => ⟨lead, (m, (ofChars rest).start) :: (ofChars rest).steps⟩ := by
  rw [ofChars]
  split <;> rename_i split <;> rw [split]

/-- Reading a text loses nothing of it. -/
theorem charsOfChars (cs : List Char) : (ofChars cs).toChars = cs := by
  rw [ofCharsEq]
  cases split : Marker.split? cs with
  | none => simp [toChars]
  | some found =>
      obtain ⟨lead, m, rest⟩ := found
      have shorter := Marker.splitShorter split
      dsimp only
      rw [charsStep, charsOfChars rest, Marker.splitParts split]
termination_by cs.length

theorem ofCharsChars (plain : t.Plain) : ofChars t.toChars = t := by
  obtain ⟨start, steps⟩ := t
  induction steps generalizing start with
  | nil =>
      rw [toChars, List.flatMap_nil, List.append_nil, ofCharsEq, Marker.freeSplit plain.1]
  | cons step steps ih =>
      obtain ⟨m, name⟩ := step
      obtain ⟨own, later⟩ := List.forall_mem_cons.mp plain.2
      rw [charsStep, ofCharsEq, Marker.freeLead plain.1]
      dsimp only
      rw [ih name ⟨own, later⟩]

/-! Walking backwards -/

theorem reverseOntoTokens (name : List Char) (passed steps : List (Marker × List Char)) :
    (reverseOnto name passed steps).tokens =
      (tokens ⟨name, steps⟩).reverse.map Token.swap ++ stepTokens passed := by
  induction steps generalizing name passed with
  | nil => rfl
  | cons step steps ih =>
      obtain ⟨m, next⟩ := step
      rw [reverseOnto, ih]
      simp [tokens, stepTokens, Token.swap]

theorem reverseTokens (t : Trail) : t.reverse.tokens = t.tokens.reverse.map Token.swap := by
  rw [reverse, reverseOntoTokens, stepTokens, List.flatMap_nil, List.append_nil]

theorem reverseReverse (t : Trail) : t.reverse.reverse = t := by
  refine tokensInj ?_
  rw [reverseTokens, reverseTokens, ← List.map_reverse, List.reverse_reverse, List.map_map]
  exact (List.map_congr_left fun token _ => token.swapSwap).trans (List.map_id _)

theorem plainReverse (plain : t.Plain) : t.reverse.Plain := by
  refine plainTokens.mpr fun cs listed => ?_
  rw [reverseTokens] at listed
  obtain ⟨token, there, same⟩ := List.mem_map.mp listed
  cases token with
  | name cs' =>
      cases same
      exact plainTokens.mp plain cs (List.mem_reverse.mp there)
  | marker m => cases same

end Trail

namespace Path

variable {p : String}

def tokens (reference : String) : List Token := (Trail.ofChars reference.toList).tokens

def names (reference : String) : List (List Char) := (tokens reference).filterMap Token.name?

def markerTokens (reference : String) : List Marker := (tokens reference).filterMap Token.marker?

/-- No name has a character that markers start with. -/
def Plain (reference : String) : Prop := ∀ name ∈ names reference, ∀ c ∈ name, c ≠ '~' ∧ c ≠ '<'

theorem reverseTrail (plain : Plain p) :
    Trail.ofChars (reverse p).toList = (Trail.ofChars p.toList).reverse := by
  have own : (Trail.ofChars p.toList).Plain :=
    Trail.plainTokens.mpr fun cs listed => plain cs (List.mem_filterMap.mpr ⟨.name cs, listed, rfl⟩)
  rw [reverse, String.toList_ofList]
  exact Trail.ofCharsChars (Trail.plainReverse own)

theorem startsToken (m : Marker) (reference : String) :
    starts m reference = true ↔ (markerTokens reference).head? = some m := by
  rw [starts, split?, markerTokens, tokens, Trail.ofCharsEq]
  cases Marker.split? reference.toList with
  | none => simp [Trail.tokens, Trail.stepTokens, Token.marker?]
  | some found => simp [Trail.tokens, Trail.stepTokens, List.filterMap_cons, Token.marker?]

/-- A path reversed has the tokens of the path in the opposite order with every marker swapped. So reversing it
again gives the path, and it starts with the marker that, swapped, the reversed one ends with. -/
theorem reverseSwaps (plain : Plain p) :
    tokens (reverse p) = (tokens p).reverse.map Token.swap ∧ reverse (reverse p) = p ∧
      (isOutgoing p = true ↔ (markerTokens (reverse p)).getLast? = some .incoming) ∧
      (isIncoming p = true ↔ (markerTokens (reverse p)).getLast? = some .outgoing) := by
  have swapped : tokens (reverse p) = (tokens p).reverse.map Token.swap := by
    rw [tokens, reverseTrail plain, Trail.reverseTokens]
    rfl
  have markers : markerTokens (reverse p) = (markerTokens p).reverse.map Marker.swap := by
    rw [markerTokens, swapped, List.filterMap_map, markerTokens, ← List.filterMap_reverse, List.map_filterMap]
    exact List.filterMap_congr fun token _ => token.markerSwap
  have last (m : Marker) : (markerTokens (reverse p)).getLast? = some m.swap ↔ starts m p = true := by
    rw [startsToken, markers, List.getLast?_map, List.getLast?_reverse, Option.map_eq_some_iff]
    constructor
    · rintro ⟨first, there, same⟩
      rw [there, ← m.swapSwap, ← same, first.swapSwap]
    · exact fun there => ⟨m, there, rfl⟩
  refine ⟨swapped, ?_, (last .outgoing).symm, (last .incoming).symm⟩
  rw [reverse, reverseTrail plain, Trail.reverseReverse, Trail.charsOfChars, String.ofList_toList]

/-- Markers next to each other, with empty names between and behind them. -/
theorem reverseSwapsEmpty : Plain "boss~><~~>" ∧ reverse "boss~><~~>" = "<~~><~boss" ∧
    tokens (reverse "boss~><~~>") = [.name [], .marker .incoming, .name [], .marker .outgoing, .name [],
      .marker .incoming, .name "boss".toList] ∧
    reverse (reverse "boss~><~~>") = "boss~><~~>" ∧
    (isOutgoing "boss~><~~>" = true ↔ (markerTokens (reverse "boss~><~~>")).getLast? = some .incoming) := by
  have apart : names "boss~><~~>" = ["boss".toList, [], [], []] := by decide +kernel
  have boss : ∀ c ∈ "boss".toList, c ≠ '~' ∧ c ≠ '<' := by simp
  have plain : Plain "boss~><~~>" := by
    intro name member
    rw [apart] at member
    simp only [List.mem_cons, List.not_mem_nil, or_false] at member
    rcases member with rfl | rfl | rfl | rfl
    · exact boss
    all_goals exact nofun
  obtain ⟨_, twice, outgoing, _⟩ := reverseSwaps plain
  exact ⟨plain, by decide +kernel, by decide +kernel, twice, outgoing⟩

end Path

end RelQuery
