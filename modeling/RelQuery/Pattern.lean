/-! Text patterns: a percent sign stands for any run of characters, an underscore for any one
character, and every other character for itself. What follows a percent sign is read from its end, and
matched there with all endings of the text at once, so that no part of the text is matched twice. -/
namespace RelQuery.Pattern

/-- Whether a flag or one after it is set, for each of some flags. -/
def setFrom (flags : List Bool) : List Bool :=
  flags.foldr (fun flag later => (flag || later.headD false) :: later) []

/-- Whether a pattern matches the endings of a text, from the whole text to the empty one. -/
def matchesEndings (value : List Char) : List Char → List Bool
  | [] => value.map (fun _ => false) ++ [true]
  | p :: ps =>
      let rest := matchesEndings value ps
      if p = '%' then setFrom rest
      else value.zipWith (fun c later => (p = '_' || p = c) && later) rest.tail ++ [false]

def like : (pattern value : List Char) → Bool
  | [], value => value.isEmpty
  | p :: ps, value =>
      if p = '%' then (matchesEndings value ps).any id
      else
        match value with
        | [] => false
        | c :: cs => (p = '_' || p = c) && like ps cs

end RelQuery.Pattern

namespace RelQuery

def matchesPattern (value pattern : String) : Bool := Pattern.like pattern.toList value.toList

end RelQuery
