import RelQuery.Expr.Substitution
import RelQuery.Proofs.Outcome

/-! The parts of an expression, and what is done to all of them. A walk is an expression followed by the walks of
its parts, and a substitution that leaves an expression where it is goes on with its parts. -/
namespace RelQuery.Expr

def overParts : Option (Over Expr) → List Expr
  | some (.spec s) => s.exprs
  | _ => []

def parts : Expr → List Expr
  | .column _ | .literal _ | .param _ | .path _ _ => []
  | .binary _ l r => [l, r]
  | .unary _ e => [e]
  | .call _ args => args
  | .aggregate _ arg _ frame => arg.toList ++ overParts frame
  | .between _ e low high => [e, low, high]
  | .inList _ e items => e :: items
  | .like _ e _ => [e]

theorem nodesOfListEq (es : List Expr) : nodesOfList es = es.flatMap nodes := by
  induction es with
  | nil => rfl
  | cons e es ih => rw [nodesOfList, ih, List.flatMap_cons]

theorem nodesOfKeysEq (ks : List (SortKey Expr)) : nodesOfKeys ks = (ks.map (·.expr)).flatMap nodes := by
  induction ks with
  | nil => rfl
  | cons k ks ih => rw [nodesOfKeys, ih, List.map_cons, List.flatMap_cons]

theorem nodesOfArgEq (a : Option Expr) : nodesOfArg a = a.toList.flatMap nodes := by
  cases a with
  | none => rfl
  | some e => simp [nodesOfArg]

theorem nodesOfOverEq (o : Option (Over Expr)) : nodesOfOver o = (overParts o).flatMap nodes := by
  rcases o with _ | name | ⟨base, partitionBy, orderBy⟩
  · rfl
  · rfl
  · rw [nodesOfOver, nodesOfListEq, nodesOfKeysEq, overParts, WindowSpec.exprs, List.flatMap_append]

/-- The expressions inside an expression are itself and those inside its parts. -/
theorem nodesEq (e : Expr) : e.nodes = e :: e.parts.flatMap nodes := by
  cases e <;> simp [nodes, parts, nodesOfListEq, nodesOfArgEq, nodesOfOverEq]

theorem nodesPart {e p : Expr} (part : p ∈ e.parts) : p.nodes ⊆ e.nodes := by
  intro n member
  rw [nodesEq]
  exact List.mem_cons_of_mem _ (List.mem_flatMap.mpr ⟨p, part, member⟩)

theorem nodesSelf (e : Expr) : e ∈ e.nodes := by
  rw [nodesEq]
  exact List.mem_cons_self

theorem partShorter {e p : Expr} (part : p ∈ e.parts) : p.nodes.length < e.nodes.length := by
  obtain ⟨before, after, split⟩ := List.append_of_mem part
  rw [nodesEq e, split, List.length_cons, List.flatMap_append, List.flatMap_cons, List.length_append,
    List.length_append]
  omega

/-- What holds of an expression as soon as it holds of its parts. -/
theorem partsInduction {P : Expr → Prop} (step : ∀ e, (∀ p ∈ e.parts, P p) → P e) (e : Expr) : P e :=
  step e fun p _ => partsInduction step p
termination_by e.nodes.length
decreasing_by exact partShorter ‹_›

/-! Doing something to all parts -/

section
variable {m : Type → Type} [Monad m]

def traverseKey (g : Expr → m Expr) (k : SortKey Expr) : m (SortKey Expr) := do
  return { k with expr := ← g k.expr }

def traverseOver (g : Expr → m Expr) : Option (Over Expr) → m (Option (Over Expr))
  | some (.spec s) => do
      let partitionBy ← s.partitionBy.mapM g
      let orderBy ← s.orderBy.mapM (traverseKey g)
      return some (.spec ⟨s.base, partitionBy, orderBy⟩)
  | o => pure o

/-- An expression with what an action makes of its parts, from left to right. -/
def traverseParts (g : Expr → m Expr) : Expr → m Expr
  | .binary op l r => do return .binary op (← g l) (← g r)
  | .unary op e => do return .unary op (← g e)
  | .call name args => do return .call name (← args.mapM g)
  | .aggregate func arg distinct frame => do
      return .aggregate func (← arg.mapM g) distinct (← traverseOver g frame)
  | .between negated e low high => do return .between negated (← g e) (← g low) (← g high)
  | .inList negated e items => do return .inList negated (← g e) (← items.mapM g)
  | .like negated e pattern => do return .like negated (← g e) pattern
  | e => pure e

variable [LawfulMonad m] {f : Expr → Option (m Expr)}

theorem mapMAlike {α β : Type} {g h : α → m β} {xs : List α} (same : ∀ x ∈ xs, g x = h x) :
    xs.mapM g = xs.mapM h := by
  induction xs with
  | nil => rfl
  | cons x xs ih =>
      obtain ⟨own, others⟩ := List.forall_mem_cons.mp same
      rw [List.mapM_cons, List.mapM_cons, own, ih others]

theorem traverseAlike {g h : Expr → m Expr} {e : Expr} (same : ∀ p ∈ e.parts, g p = h p) :
    traverseParts g e = traverseParts h e := by
  cases e with
  | aggregate func arg distinct frame =>
      obtain ⟨left, right⟩ := List.forall_mem_append.mp same
      have first : arg.mapM g = arg.mapM h := by
        cases arg with
        | none => rfl
        | some e => rw [Option.mapM_some, Option.mapM_some, left e (by simp)]
      have second : traverseOver g frame = traverseOver h frame := by
        rcases frame with _ | name | spec
        · rfl
        · rfl
        · obtain ⟨keys, criteria⟩ := List.forall_mem_append.mp right
          have sorted : spec.orderBy.mapM (traverseKey g) = spec.orderBy.mapM (traverseKey h) :=
            mapMAlike fun k member => by
              rw [traverseKey, traverseKey, criteria _ (List.mem_map_of_mem member)]
          rw [traverseOver, traverseOver, mapMAlike keys, sorted]
      rw [traverseParts, traverseParts, first, second]
  | call name args =>
      have all : args.mapM g = args.mapM h := mapMAlike same
      rw [traverseParts, traverseParts, all]
  | inList negated e items =>
      obtain ⟨own, others⟩ := List.forall_mem_cons.mp same
      rw [traverseParts, traverseParts, own, mapMAlike others]
  | _ => simp_all [traverseParts, parts]

/-! Pure changes -/

def mapKey (h : Expr → Expr) (k : SortKey Expr) : SortKey Expr := { k with expr := h k.expr }

def mapSpec (h : Expr → Expr) (s : WindowSpec Expr) : WindowSpec Expr :=
  ⟨s.base, s.partitionBy.map h, s.orderBy.map (mapKey h)⟩

def mapOver (h : Expr → Expr) : Over Expr → Over Expr
  | .named name => .named name
  | .spec s => .spec (mapSpec h s)

def mapParts (h : Expr → Expr) : Expr → Expr
  | .binary op l r => .binary op (h l) (h r)
  | .unary op e => .unary op (h e)
  | .call name args => .call name (args.map h)
  | .aggregate func arg distinct frame => .aggregate func (arg.map h) distinct (frame.map (mapOver h))
  | .between negated e low high => .between negated (h e) (h low) (h high)
  | .inList negated e items => .inList negated (h e) (items.map h)
  | .like negated e pattern => .like negated (h e) pattern
  | e => e

theorem mapPartsId (e : Expr) : mapParts id e = e := by
  have key : mapKey id = id := rfl
  cases e with
  | aggregate func arg distinct frame =>
      rcases frame with _ | name | spec <;> simp [mapParts, mapOver, mapSpec, key]
  | _ => simp [mapParts]

theorem mapSpecExprs (h : Expr → Expr) (s : WindowSpec Expr) : (mapSpec h s).exprs = s.exprs.map h := by
  simp [mapSpec, WindowSpec.exprs, mapKey]

theorem mapPartsParts (h : Expr → Expr) (e : Expr) : (mapParts h e).parts = e.parts.map h := by
  cases e with
  | aggregate func arg distinct frame =>
      rcases frame with _ | name | spec <;> cases arg <;>
        simp [mapParts, parts, overParts, mapOver, mapSpecExprs]
  | _ => simp [mapParts, parts]

theorem overMapped (g : Expr → m Expr) (h : Expr → Expr) (o : Option (Over Expr)) :
    traverseOver g (o.map (mapOver h)) = traverseOver (fun p => g (h p)) o := by
  rcases o with _ | name | spec
  · rfl
  · rfl
  · simp only [Option.map_some, mapOver, mapSpec, traverseOver, List.mapM_map]
    rfl

theorem traverseMapped (g : Expr → m Expr) (h : Expr → Expr) (e : Expr) :
    traverseParts g (mapParts h e) = traverseParts (fun p => g (h p)) e := by
  cases e with
  | aggregate func arg distinct frame =>
      rw [mapParts, traverseParts, traverseParts, overMapped]
      cases arg <;> rfl
  | _ => simp [mapParts, traverseParts, List.mapM_map, Function.comp_def]

theorem overPure (h : Expr → Expr) (o : Option (Over Expr)) :
    traverseOver (fun p => (pure (h p) : m Expr)) o = pure (o.map (mapOver h)) := by
  rcases o with _ | name | spec
  · rfl
  · rfl
  · have keys : traverseKey (fun p => (pure (h p) : m Expr)) = fun k => pure (mapKey h k) := by
      funext k
      rw [traverseKey, pure_bind]
      rfl
    simp only [traverseOver, keys, List.mapM_pure, pure_bind]
    rfl

theorem traversePure (h : Expr → Expr) (e : Expr) :
    traverseParts (fun p => (pure (h p) : m Expr)) e = pure (mapParts h e) := by
  cases e with
  | aggregate func arg distinct frame => cases arg <;> simp [mapParts, traverseParts, overPure]
  | _ => simp [mapParts, traverseParts]

theorem mapPartsAlike {h h' : Expr → Expr} {e : Expr} (same : ∀ p ∈ e.parts, h p = h' p) :
    mapParts h e = mapParts h' e := by
  have all := traverseAlike (m := Id) (g := fun p => pure (h p)) (h := fun p => pure (h' p)) same
  rwa [traversePure, traversePure] at all

theorem mapPartsMapped (h h' : Expr → Expr) (e : Expr) :
    mapParts h (mapParts h' e) = mapParts (fun p => h (h' p)) e := by
  have all := traverseMapped (m := Id) (fun p => pure (h p)) h' e
  rwa [traversePure, traversePure] at all

theorem substituteListEq (es : List Expr) : substituteList f es = es.mapM (substituteM f) := by
  induction es with
  | nil => rfl
  | cons e es ih => rw [substituteList, List.mapM_cons, ih]

theorem substituteKeysEq (ks : List (SortKey Expr)) :
    substituteKeys f ks = ks.mapM (traverseKey (substituteM f)) := by
  induction ks with
  | nil => rfl
  | cons k ks ih => simp [substituteKeys, List.mapM_cons, traverseKey, ih]

theorem substituteArgEq (a : Option Expr) : substituteArg f a = a.mapM (substituteM f) := by
  cases a with
  | none => rfl
  | some e => simp [substituteArg]

theorem substituteOverEq (o : Option (Over Expr)) :
    substituteOver f o = traverseOver (substituteM f) o := by
  rcases o with _ | name | ⟨base, partitionBy, orderBy⟩
  · rfl
  · rfl
  · rw [substituteOver, substituteListEq, substituteKeysEq]
    rfl

/-- A replaced expression stays as it stands, and any other is substituted part by part. -/
theorem substituteEq (e : Expr) :
    e.substituteM f = (f e).getD (traverseParts (substituteM f) e) := by
  cases e <;> simp only [substituteM, substituteListEq, substituteArgEq, substituteOverEq] <;>
    cases f _ <;> rfl

end

section
variable {g : Expr → Outcome Expr} {e e' : Expr}

theorem optionOk {a a' : Option Expr} (ok : a.mapM g = .ok a') :
    List.Forall₂ (fun p p' => g p = .ok p') a.toList a'.toList := by
  cases a with
  | none =>
      cases Outcome.pureOk.mp ok
      exact .nil
  | some e =>
      obtain ⟨e', one, rfl⟩ := Outcome.mapOk.mp ok
      exact .cons one .nil

theorem overOk {o o' : Option (Over Expr)} (ok : traverseOver g o = .ok o') :
    List.Forall₂ (fun p p' => g p = .ok p') (overParts o) (overParts o') := by
  rcases o with _ | name | spec
  · cases Outcome.pureOk.mp ok
    exact .nil
  · cases Outcome.pureOk.mp ok
    exact .nil
  · obtain ⟨partitionBy, keys, ok⟩ := Outcome.bindOk.mp ok
    obtain ⟨orderBy, criteria, ok⟩ := Outcome.bindOk.mp ok
    cases Outcome.pureOk.mp ok
    refine List.rel_append (Outcome.mapMOk.mp keys) ?_
    rw [List.forall₂_map_left_iff, List.forall₂_map_right_iff]
    refine (Outcome.mapMOk.mp criteria).imp fun k k' one => ?_
    obtain ⟨e, own, last⟩ := Outcome.bindOk.mp one
    cases Outcome.pureOk.mp last
    exact own

/-- An action on all parts that succeeds does so on each of them. -/
theorem traverseOk (ok : traverseParts g e = .ok e') :
    List.Forall₂ (fun p p' => g p = .ok p') e.parts e'.parts := by
  cases e with
  | aggregate func arg distinct frame =>
      obtain ⟨arg', left, ok⟩ := Outcome.bindOk.mp ok
      obtain ⟨frame', right, ok⟩ := Outcome.bindOk.mp ok
      cases Outcome.pureOk.mp ok
      exact List.rel_append (optionOk left) (overOk right)
  | call name args =>
      obtain ⟨args', all, ok⟩ := Outcome.bindOk.mp ok
      cases Outcome.pureOk.mp ok
      exact Outcome.mapMOk.mp all
  | inList negated e items =>
      obtain ⟨e', own, ok⟩ := Outcome.bindOk.mp ok
      obtain ⟨items', all, ok⟩ := Outcome.bindOk.mp ok
      cases Outcome.pureOk.mp ok
      exact .cons own (Outcome.mapMOk.mp all)
  | binary op l r =>
      obtain ⟨l', left, ok⟩ := Outcome.bindOk.mp ok
      obtain ⟨r', right, ok⟩ := Outcome.bindOk.mp ok
      cases Outcome.pureOk.mp ok
      exact .cons left (.cons right .nil)
  | between negated e low high =>
      obtain ⟨e', own, ok⟩ := Outcome.bindOk.mp ok
      obtain ⟨low', left, ok⟩ := Outcome.bindOk.mp ok
      obtain ⟨high', right, ok⟩ := Outcome.bindOk.mp ok
      cases Outcome.pureOk.mp ok
      exact .cons own (.cons left (.cons right .nil))
  | unary op e =>
      obtain ⟨e', own, ok⟩ := Outcome.bindOk.mp ok
      cases Outcome.pureOk.mp ok
      exact .cons own .nil
  | like negated e pattern =>
      obtain ⟨e', own, ok⟩ := Outcome.bindOk.mp ok
      cases Outcome.pureOk.mp ok
      exact .cons own .nil
  | _ =>
      cases Outcome.pureOk.mp ok
      exact .nil

theorem traverseColumn {ref : ColumnRef} (ok : traverseParts g e = .ok (.column ref)) :
    e = .column ref := by
  cases e <;> simp only [traverseParts, Outcome.bindOk, Outcome.pureOk] at ok <;> simp_all

end

end RelQuery.Expr
