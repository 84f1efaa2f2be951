/-! Arrow references as texts: names with a marker between any two of them. The marker for outgoing
references follows a foreign key to the table that it refers to, the marker for incoming references
follows one back. A text is read from the left, and the first two characters that form a marker are
one. -/
namespace RelQuery

inductive Marker where
  | outgoing
  | incoming
  deriving DecidableEq, Repr

namespace Marker

def chars : Marker → List Char
  | outgoing => ['~', '>']
  | incoming => ['<', '~']

def swap : Marker → Marker
  | outgoing => incoming
  | incoming => outgoing

/-- The marker at the head of a text, with the rest. -/
def leading? : List Char → Option (Marker × List Char)
  | '~' :: '>' :: rest => some (outgoing, rest)
  | '<' :: '~' :: rest => some (incoming, rest)
  | _ => none

/-- The text before the first marker, that marker, and the text after it. -/
def split? : List Char → Option (List Char × Marker × List Char)
  | [] => none
  | c :: cs =>
      match leading? (c :: cs) with
      | some (m, rest) => some ([], m, rest)
      | none => (split? cs).map fun (lead, m, rest) => (c :: lead, m, rest)

theorem leadingShorter {cs rest : List Char} {m : Marker} (h : leading? cs = some (m, rest)) :
    rest.length < cs.length := by
  unfold leading? at h
  split at h <;> simp only [Option.some.injEq, Prod.mk.injEq, reduceCtorEq] at h
  · rw [← h.2, List.length_cons, List.length_cons]
    omega
  · rw [← h.2, List.length_cons, List.length_cons]
    omega

theorem splitShorter {cs lead rest : List Char} {m : Marker}
    (h : split? cs = some (lead, m, rest)) : rest.length < cs.length := by
  induction cs generalizing lead with
  | nil => simp [split?] at h
  | cons c cs ih =>
      unfold split? at h
      split at h
      · rename_i hit
        simp only [Option.some.injEq, Prod.mk.injEq] at h
        exact h.2.2 ▸ leadingShorter hit
      · obtain ⟨⟨lead', m', rest'⟩, inner, same⟩ := Option.map_eq_some_iff.mp h
        simp only [Prod.mk.injEq] at same
        obtain ⟨-, rfl, rfl⟩ := same
        exact Nat.lt_succ_of_lt (ih inner)

end Marker

/-- A name, and the markers and names that follow it. -/
structure Trail where
  start : List Char
  steps : List (Marker × List Char)
  deriving DecidableEq, Repr

namespace Trail

def ofChars (cs : List Char) : Trail :=
  match _ : Marker.split? cs with
  | none => ⟨cs, []⟩
  | some (lead, m, rest) =>
      let tail := ofChars rest
      ⟨lead, (m, tail.start) :: tail.steps⟩
  termination_by cs.length
  decreasing_by exact Marker.splitShorter ‹_›

def toChars (t : Trail) : List Char := t.start ++ t.steps.flatMap fun (m, name) => m.chars ++ name

/-- Walks the steps backwards: what has been passed becomes the end of the reversed trail. -/
def reverseOnto (name : List Char) (passed : List (Marker × List Char)) :
    List (Marker × List Char) → Trail
  | [] => ⟨name, passed⟩
  | (m, next) :: rest => reverseOnto next ((m.swap, name) :: passed) rest

def reverse (t : Trail) : Trail := reverseOnto t.start [] t.steps

end Trail

namespace Path

def split? (reference : String) : Option (List Char × Marker × List Char) :=
  Marker.split? reference.toList

def isPath (reference : String) : Bool := (split? reference).isSome

def starts (m : Marker) (reference : String) : Bool := (split? reference).any (·.2.1 == m)

def isOutgoing (reference : String) : Bool := starts .outgoing reference

def isIncoming (reference : String) : Bool := starts .incoming reference

def reverse (reference : String) : String :=
  String.ofList (Trail.ofChars reference.toList).reverse.toChars

/-- How many markers a reference has. -/
def markers (reference : String) : Nat := (Trail.ofChars reference.toList).steps.length

end Path

end RelQuery
