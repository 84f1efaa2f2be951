import RelQuery.Text.CaseTable

/-! Upper and lower case of whole texts. A character may map to several, and a capital sigma is
written in its final form exactly when it ends a word: a cased character stands before it and none
after it, where case-ignorable characters in between do not count. -/
namespace RelQuery.Text

def inRanges (ranges : Array (Nat × Nat)) (c : Char) : Bool :=
  ranges.any fun r => r.1 ≤ c.toNat && c.toNat ≤ r.2

/-- Applies the first run that holds the code point. -/
def shiftByRun (runs : Array CaseRun) (c : Char) : Char :=
  match runs.find? fun r => r.first ≤ c.toNat && c.toNat ≤ r.last && (c.toNat - r.first) % r.step == 0 with
  | some r => Char.ofNat (Int.toNat (c.toNat + r.shift))
  | none => c

def mapCase (sequences : List (Nat × List Nat)) (runs : Array CaseRun) (c : Char) : List Char :=
  match sequences.lookup c.toNat with
  | some codes => codes.map Char.ofNat
  | none => [shiftByRun runs c]

def upperChar (c : Char) : List Char := mapCase upperSequences upperRuns c

def lowerChar (c : Char) : List Char := mapCase lowerSequences lowerRuns c

def upper (s : String) : String := String.ofList (s.toList.flatMap upperChar)

/-- Whether the first character that is not case-ignorable is cased. -/
def meetsCased (cs : List Char) : Bool :=
  match cs.dropWhile (inRanges caseIgnorableRanges) with
  | c :: _ => inRanges casedRanges c
  | [] => false

/-- Lower case of the rest of a text, given the characters before it, nearest first. -/
def lowerAfter (before : List Char) : List Char → List Char
  | [] => []
  | c :: rest =>
      let lowered :=
        if c = 'Σ' then [if meetsCased before && !meetsCased rest then 'ς' else 'σ']
        else lowerChar c
      lowered ++ lowerAfter (c :: before) rest

def lower (s : String) : String := String.ofList (lowerAfter [] s.toList)

end RelQuery.Text
