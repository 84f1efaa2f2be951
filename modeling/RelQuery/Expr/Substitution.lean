import RelQuery.Expr.Basic

/-! Substitution in expressions. The replacement of an expression, where there is one, takes its place
as it stands; otherwise its parts are looked at from left to right, window specifications last. -/
namespace RelQuery.Expr

variable {m : Type → Type} [Monad m]

mutual

def substituteM (f : Expr → Option (m Expr)) : Expr → m Expr
  | .column ref => (f (.column ref)).getD (pure (.column ref))
  | .literal v => (f (.literal v)).getD (pure (.literal v))
  | .param i => (f (.param i)).getD (pure (.param i))
  | .path table reference => (f (.path table reference)).getD (pure (.path table reference))
  | .binary op l r =>
      match f (.binary op l r) with
      | some other => other
      | none => do
          let l' ← substituteM f l
          let r' ← substituteM f r
          return .binary op l' r'
  | .unary op e =>
      match f (.unary op e) with
      | some other => other
      | none => do return .unary op (← substituteM f e)
  | .call name args =>
      match f (.call name args) with
      | some other => other
      | none => do return .call name (← substituteList f args)
  | .aggregate func arg distinct frame =>
      match f (.aggregate func arg distinct frame) with
      | some other => other
      | none => do
          let arg' ← substituteArg f arg
          let frame' ← substituteOver f frame
          return .aggregate func arg' distinct frame'
  | .between negated e low high =>
      match f (.between negated e low high) with
      | some other => other
      | none => do
          let e' ← substituteM f e
          let low' ← substituteM f low
          let high' ← substituteM f high
          return .between negated e' low' high'
  | .inList negated e items =>
      match f (.inList negated e items) with
      | some other => other
      | none => do
          let e' ← substituteM f e
          let items' ← substituteList f items
          return .inList negated e' items'
  | .like negated e pattern =>
      match f (.like negated e pattern) with
      | some other => other
      | none => do return .like negated (← substituteM f e) pattern
  termination_by structural e => e

def substituteList (f : Expr → Option (m Expr)) : List Expr → m (List Expr)
  | [] => pure []
  | e :: es => do
      let e' ← substituteM f e
      let es' ← substituteList f es
      return e' :: es'
  termination_by structural es => es

def substituteArg (f : Expr → Option (m Expr)) : Option Expr → m (Option Expr)
  | none => pure none
  | some e => do return some (← substituteM f e)
  termination_by structural a => a

def substituteOver (f : Expr → Option (m Expr)) : Option (Over Expr) → m (Option (Over Expr))
  | none => pure none
  | some (.named name) => pure (some (.named name))
  | some (.spec ⟨base, partitionBy, orderBy⟩) => do
      let partitionBy' ← substituteList f partitionBy
      let orderBy' ← substituteKeys f orderBy
      return some (.spec ⟨base, partitionBy', orderBy'⟩)
  termination_by structural o => o

def substituteKeys (f : Expr → Option (m Expr)) : List (SortKey Expr) → m (List (SortKey Expr))
  | [] => pure []
  | ⟨e, direction⟩ :: ks => do
      let e' ← substituteM f e
      let ks' ← substituteKeys f ks
      return ⟨e', direction⟩ :: ks'
  termination_by structural ks => ks

end

end RelQuery.Expr
