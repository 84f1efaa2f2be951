import RelQuery.Proofs.Select.Resolution

/-! Chains of window specifications. An OVER clause resolves exactly if its base names lead to a specification
without a base, and then to that specification with the keys of the others added one after another. The
count of the names followed so far ends the search in a circle, and no chain without a circle is that long. -/
namespace RelQuery.Windows

variable {definitions : List (String × WindowSpec Expr)} {k depth calls : Nat} {name : String}
  {s spec : WindowSpec Expr} {chain : List (WindowSpec Expr)}

/-- The specifications that base names lead to from a name, from the one without a base up. The first definition
of a name counts. -/
inductive Chain (definitions : List (String × WindowSpec Expr)) : String → List (WindowSpec Expr) → Prop where
  | root {name : String} {spec : WindowSpec Expr} (found : definitions.lookup name = some spec)
      (unbased : spec.base = none) : Chain definitions name [spec]
  | based {name base : String} {spec : WindowSpec Expr} {chain : List (WindowSpec Expr)}
      (found : definitions.lookup name = some spec) (based : spec.base = some base)
      (rest : Chain definitions base chain) : Chain definitions name (chain ++ [spec])

/-- The specifications that an OVER clause leads to. -/
def Reaches (definitions : List (String × WindowSpec Expr)) : Over Expr → List (WindowSpec Expr) → Prop
  | .named name, chain => Chain definitions name chain
  | .spec spec, chain =>
      match spec.base with
      | none => chain = [spec]
      | some base => ∃ rest, Chain definitions base rest ∧ chain = rest ++ [spec]

/-- The partition keys of a chain one after another, and the last sort keys that there are. -/
def merged (chain : List (WindowSpec Expr)) : WindowSpec Expr where
  base := none
  partitionBy := chain.flatMap (·.partitionBy)
  orderBy := ((chain.map (·.orderBy)).filter (!·.isEmpty)).getLastD []

theorem mergedRoot (unbased : spec.base = none) : merged [spec] = spec := by
  obtain ⟨base, partitionBy, orderBy⟩ := spec
  cases unbased
  cases orderBy <;> simp [merged]

theorem mergedSnoc (chain : List (WindowSpec Expr)) (spec : WindowSpec Expr) :
    merged (chain ++ [spec]) = refine (merged chain) spec := by
  simp only [merged, refine, List.flatMap_append, List.map_append, List.filter_append]
  cases own : spec.orderBy <;> simp [own]

/-! Enough steps -/

theorem resolveMany (ok : resolveNamed definitions k name = .ok s) (i : Nat) :
    resolveNamed definitions (k + i) name = .ok s := by
  induction i with
  | zero => exact ok
  | succ i ih => exact resolveMore ih

theorem resolvesBack (i : Nat) (more : Resolves definitions (definitions.length + 1 + i) name) :
    Resolves definitions (definitions.length + 1) name := by
  induction i with
  | zero => exact more
  | succ i ih => exact ih (resolvesCut (by omega) more)

/-- What any number of steps resolves, one for each definition and one more resolve. -/
theorem resolveEver (ok : resolveNamed definitions k name = .ok s) :
    resolveNamed definitions (definitions.length + 1) name = .ok s := by
  have later := resolveMany ok (definitions.length + 1)
  rw [Nat.add_comm] at later
  obtain ⟨s', ok'⟩ := resolvesBack k ⟨s, later⟩
  cases later.symm.trans (resolveMany ok' k)
  exact ok'

theorem resolveChain (leads : Chain definitions name chain) :
    resolveNamed definitions (definitions.length + 1) name = .ok (merged chain) := by
  induction leads with
  | root found unbased =>
      rw [mergedRoot unbased]
      exact namedOk.mpr ⟨_, found, .inl ⟨unbased, rfl⟩⟩
  | based found based rest ih =>
      rw [mergedSnoc]
      exact resolveEver (namedOk.mpr ⟨_, found, .inr ⟨_, _, based, ih, rfl⟩⟩)

theorem chainOf (ok : resolveNamed definitions k name = .ok s) :
    ∃ chain, Chain definitions name chain ∧ s = merged chain := by
  induction k generalizing name s with
  | zero => cases ok
  | succ k ih =>
      obtain ⟨spec, found, ⟨unbased, rfl⟩ | ⟨base, inner, based, below, rfl⟩⟩ := namedOk.mp ok
      · exact ⟨[s], .root found unbased, (mergedRoot unbased).symm⟩
      · obtain ⟨chain, rest, rfl⟩ := ih below
        exact ⟨chain ++ [spec], .based found based rest, (mergedSnoc chain spec).symm⟩

/-! The search itself -/

/-- Follows base names until their number passes that of the definitions, given up after a number of calls. -/
def followWithin (definitions : List (String × WindowSpec Expr)) :
    Nat → Nat → String → Option (Outcome (WindowSpec Expr))
  | 0, _, _ => none
  | calls + 1, depth, name =>
      if definitions.length < depth then some (.refuse (.windowCycle name))
      else
        match definitions.lookup name with
        | none => some (.refuse (.windowUndefined name))
        | some spec =>
            match spec.base with
            | none => some (.ok spec)
            | some base =>
                (followWithin definitions calls (depth + 1) base).map fun o => do return refine (← o) spec

theorem followEnds (enough : definitions.length + 2 ≤ depth + calls) (early : depth ≤ definitions.length + 1) :
    followWithin definitions calls depth name =
      some (resolveNamed definitions (definitions.length + 1 - depth) name) := by
  induction calls generalizing depth name with
  | zero => omega
  | succ calls ih =>
      rw [followWithin]
      split
      · have last : definitions.length + 1 - depth = 0 := by omega
        rw [last]
        rfl
      · have more : definitions.length + 1 - depth = definitions.length + 1 - (depth + 1) + 1 := by omega
        rw [more, resolveNamed]
        cases definitions.lookup name with
        | none => rfl
        | some spec =>
            cases based : spec.base with
            | none => simp only [based]
            | some base =>
                simp only [based]
                rw [ih (by omega) (by omega)]
                rfl

/-- Resolution ends, and it succeeds exactly for the chains that end. The specification has no base, the partition
keys of the chain from its root up, and the last sort keys on it. -/
theorem resolvesChains (w : Windows) (frame : Over Expr) :
    (∀ name, followWithin w.definitions (w.definitions.length + 2) 0 name =
      some (resolveNamed w.definitions (w.definitions.length + 1) name)) ∧
    ((∃ spec, w.resolve frame = .ok spec) ↔ ∃ chain, Reaches w.definitions frame chain) ∧
    ∀ chain, Reaches w.definitions frame chain → w.resolve frame = .ok (merged chain) := by
  have forward (chain : List (WindowSpec Expr)) (reaches : Reaches w.definitions frame chain) :
      w.resolve frame = .ok (merged chain) := by
    cases frame with
    | named name => exact resolveChain reaches
    | spec spec =>
        obtain ⟨base, partitionBy, orderBy⟩ := spec
        cases base with
        | none =>
            have alone : chain = [⟨none, partitionBy, orderBy⟩] := reaches
            rw [alone, mergedRoot rfl]
            rfl
        | some base =>
            obtain ⟨rest, leads, rfl⟩ := reaches
            rw [mergedSnoc]
            exact Outcome.bindOk.mpr ⟨_, resolveChain leads, rfl⟩
  have backward (spec : WindowSpec Expr) (ok : w.resolve frame = .ok spec) :
      ∃ chain, Reaches w.definitions frame chain := by
    cases frame with
    | named name =>
        obtain ⟨chain, leads, _⟩ := chainOf ok
        exact ⟨chain, leads⟩
    | spec spec =>
        obtain ⟨base, partitionBy, orderBy⟩ := spec
        cases base with
        | none => exact ⟨_, rfl⟩
        | some base =>
            obtain ⟨_, inner, _⟩ := Outcome.bindOk.mp ok
            obtain ⟨rest, leads, _⟩ := chainOf inner
            exact ⟨_, rest, leads, rfl⟩
  refine ⟨fun name => followEnds (by omega) (Nat.zero_le _), ⟨?_, ?_⟩, forward⟩
  · rintro ⟨spec, ok⟩
    exact backward spec ok
  · rintro ⟨chain, reaches⟩
    exact ⟨_, forward chain reaches⟩

/-- Three windows, the first on the second and that one on the third. -/
def tower (root : Option String) : Windows :=
  .new [("a", ⟨some "b", [.column ⟨none, "x"⟩], []⟩), ("b", ⟨some "c", [.column ⟨none, "y"⟩], []⟩),
    ("c", ⟨root, [.column ⟨none, "z"⟩], []⟩)] []

/-- The longest chain that there can be. -/
theorem resolvesChainsTower : ∃ chain, Reaches (tower none).definitions (.named "a") chain ∧ chain.length = 3 ∧
    (tower none).resolve (.named "a") = .ok (merged chain) ∧ (merged chain).text = "PARTITION BY z, y, x" ∧
      followWithin (tower none).definitions 5 0 "a" = some (.ok (merged chain)) := by
  have reaches : Reaches (tower none).definitions (.named "a") _ :=
    .based rfl rfl (.based rfl rfl (.root rfl rfl))
  obtain ⟨ends, _, resolves⟩ := resolvesChains (tower none) (.named "a")
  have resolved := resolves _ reaches
  exact ⟨_, reaches, rfl, resolved, by decide +kernel, (ends "a").trans (congrArg some resolved)⟩

/-- A circle of as many windows. -/
example : ((tower (some "a")).resolve (.named "a")).toOption.map (·.text) = none := by decide +kernel

end RelQuery.Windows
