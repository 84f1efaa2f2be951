import RelQuery.Proofs.Select.Renaming

/-! The stages of a query over fields whose names differ where nothing reads them. Up to the windows, and after
them, both lists of fields lead to like output rows. -/
namespace RelQuery

variable {free : String → Prop} {params : List Value}

namespace OutputField

/-- Fields that are evaluated alike, as far as they do not need all output rows. -/
structure Relabeled (free : String → Prop) (f f' : OutputField) : Prop where
  named : f.name = f'.name ∨ free f.name ∧ free f'.name
  kind : f'.kind = f.kind
  expr : f.kind ≠ .window → f'.expr = f.expr
  spares : f.expr.Spares free

variable {fields fields' : List OutputField}

theorem pushRelabeled {c c' : Composition} {f f' : OutputField} (alike : c.Relabeled free c')
    (same : f.Relabeled free f') :
    Outcome.Alike (Composition.Relabeled free) (pushTo params c f) (pushTo params c' f') := by
  unfold pushTo
  rw [same.kind]
  cases kind : f.kind with
  | direct =>
      rw [same.expr (by simp [kind])]
      have scopes : (Scope.ofRow c params).Relabeled free (Scope.ofRow c' params) :=
        ⟨alike, .none, rfl, rfl⟩
      refine Outcome.alikeBind (Scope.evalRelabeled scopes same.spares) fun v v' value => ?_
      rw [value]
      exact Composition.relabeledPush alike same.named
  | _ => exact Composition.relabeledPush alike same.named

theorem projectRelabeled {c c' : Composition} (same : List.Forall₂ (Relabeled free) fields fields')
    (alike : c.Relabeled free c') :
    Outcome.Alike (Composition.Relabeled free) (project fields params c) (project fields' params c') :=
  Outcome.alikeFold same alike fun _ _ _ _ alike one => pushRelabeled alike one

theorem kindsAlike {R : OutputField → OutputField → Prop} (kinds : ∀ f f', R f f' → f'.kind = f.kind)
    (same : List.Forall₂ R fields fields') (k : FieldKind) :
    List.Forall₂ (fun entry entry' => R entry.1 entry'.1 ∧ entry.1.kind = k ∧ entry.2 = entry'.2)
      (ofKind fields k) (ofKind fields' k) := by
  unfold ofKind
  generalize 0 = n
  induction same generalizing n with
  | nil => exact .nil
  | @cons f f' _ _ one _ ih =>
      simp only [List.zipIdx_cons, List.filter_cons, kinds f f' one]
      split
      · rename_i own
        exact .cons ⟨one, of_decide_eq_true own, rfl⟩ (ih (n + 1))
      · exact ih (n + 1)

theorem fieldsSet {o o' : Output} (alike : o.Relabeled free o') (vs : List (Nat × Value)) :
    (vs.foldl (fun o (i, v) => o.setField i v) o).Relabeled free
      (vs.foldl (fun o (i, v) => o.setField i v) o') := by
  induction vs generalizing o o' with
  | nil => exact alike
  | cons v vs ih => exact ih (Output.relabeledField alike v.1 v.2)

theorem aggregatesAlike {o o' : Output} (same : List.Forall₂ (Relabeled free) fields fields')
    (alike : o.Relabeled free o') : Outcome.Alike (List.Forall₂ Eq)
      ((ofKind fields .aggregate).mapM fun (f, i) => do return (i, ← f.expr.eval (o.scope params)))
      ((ofKind fields' .aggregate).mapM fun (f, i) => do
        return (i, ← f.expr.eval (o'.scope params))) := by
  refine Outcome.alikeMapM (kindsAlike (fun _ _ one => one.kind) same .aggregate) fun entry entry' one => ?_
  obtain ⟨one, kind, place⟩ := one
  simp only [one.expr (by simp [kind]), place]
  refine Outcome.alikeBind (Scope.evalRelabeled (Output.relabeledScope alike params) one.spares) ?_
  exact fun v v' value => congrArg (Prod.mk _) value

theorem aggregateRelabeled {o o' : Output} (same : List.Forall₂ (Relabeled free) fields fields')
    (alike : o.Relabeled free o') :
    Outcome.Alike (Output.Relabeled free) (aggregateInto fields params o) (aggregateInto fields' params o') := by
  unfold aggregateInto
  refine Outcome.alikeBind (aggregatesAlike same alike) fun vs vs' all => ?_
  rw [List.forall₂_eq_eq_eq] at all
  subst all
  exact fieldsSet alike vs

end OutputField

namespace Output

variable {rows rows' : List Composition} {groupBy : List Expr} {empty empty' : Outcome Composition}
  {outputs outputs' : List Output}

theorem groupsRelabeled (alike : List.Forall₂ (Composition.Relabeled free) rows rows')
    (none : Outcome.Alike (Composition.Relabeled free) empty empty')
    (spares : ∀ e ∈ groupBy, e.Spares free) :
    Outcome.Alike (List.Forall₂ (Relabeled free)) (ofGroups rows groupBy params empty)
      (ofGroups rows' groupBy params empty') := by
  unfold ofGroups
  split
  · cases alike with
    | nil => exact Outcome.alikeBind none fun c c' same => .cons ⟨same, .some .nil⟩ .nil
    | cons one others => exact .cons ⟨one, .some (.cons one others)⟩ .nil
  · have keyed : Outcome.Alike (List.Forall₂ (KeyedAlike (Composition.Relabeled free)))
        (rows.mapM fun c => do return (← groupKey groupBy params c, c))
        (rows'.mapM fun c => do return (← groupKey groupBy params c, c)) := by
      refine Outcome.alikeMapM alike fun c c' same => ?_
      have key := Scope.evalListRelabeled
        (relabeledFieldScope (relabeledRow same) params) spares
      exact Outcome.alikeBind key fun key key' equal => ⟨equal, same⟩
    refine Outcome.alikeBind keyed fun keyed keyed' same => ?_
    refine List.rel_filterMap (fun g g' members => ?_) (groupsAlike same)
    unfold ofGroup
    generalize g.members = ms at members
    generalize g'.members = ms' at members
    cases members with
    | nil => exact .none
    | cons one others => exact .some ⟨one, .some (.cons one others)⟩

theorem sortRelabeled {orderBy : List (SortKey Expr)} (alike : List.Forall₂ (Relabeled free) outputs outputs')
    (spares : ∀ e ∈ orderBy.map (·.expr), e.Spares free) :
    Outcome.Alike (List.Forall₂ (Relabeled free)) (sort outputs orderBy params)
      (sort outputs' orderBy params) := by
  unfold sort
  split
  · exact alike
  · have keyed : Outcome.Alike (List.Forall₂ (KeyedAlike (Relabeled free)))
        (outputs.mapM fun o => do
          return (← Expr.evalList (orderBy.map (·.expr)) (o.fieldScope params), o))
        (outputs'.mapM fun o => do
          return (← Expr.evalList (orderBy.map (·.expr)) (o.fieldScope params), o)) := by
      refine Outcome.alikeMapM alike fun o o' same => ?_
      have key := Scope.evalListRelabeled (relabeledFieldScope same params) spares
      exact Outcome.alikeBind key fun key key' equal => ⟨equal, same⟩
    exact Outcome.alikeBind keyed fun keyed keyed' same => itemsAlike (sortAlike _ same)

theorem filterRelabeled {e : Expr} (alike : List.Forall₂ (Relabeled free) outputs outputs')
    (spares : e.Spares free) :
    Outcome.Alike (List.Forall₂ (Relabeled free))
      (outputs.filterM fun o => e.satisfied (o.fieldScope params))
      (outputs'.filterM fun o => e.satisfied (o.fieldScope params)) := by
  rw [Outcome.filterEq, Outcome.filterEq]
  have marks : Outcome.Alike (List.Forall₂ fun m m' => m.1.Relabeled free m'.1 ∧ m.2 = m'.2)
      (outputs.mapM (Outcome.marked fun o => e.satisfied (o.fieldScope params)))
      (outputs'.mapM (Outcome.marked fun o => e.satisfied (o.fieldScope params))) := by
    refine Outcome.alikeMapM alike fun o o' same => ?_
    have kept := Scope.satisfiedRelabeled (relabeledFieldScope same params) spares
    exact Outcome.alikeBind kept fun b b' equal => ⟨same, equal⟩
  cases ok : outputs.mapM (Outcome.marked fun o => e.satisfied (o.fieldScope params)) <;>
    cases ok' : outputs'.mapM (Outcome.marked fun o => e.satisfied (o.fieldScope params)) <;>
    rw [ok, ok'] at marks
  · exact trivial
  · exact marks.elim
  · exact marks.elim
  · refine List.rel_map (fun _ _ one => one.1) (List.rel_filter (fun m m' one => ?_) marks)
    exact iff_of_eq (congrArg (· = true) one.2)

theorem projectedRelabeled (alike : List.Forall₂ (Relabeled free) outputs outputs') :
    outputs.map (·.row.project) = outputs'.map (·.row.project) := by
  induction alike with
  | nil => rfl
  | cons one _ ih => rw [List.map_cons, List.map_cons, Composition.relabeledProject one.row, ih]

end Output

end RelQuery
