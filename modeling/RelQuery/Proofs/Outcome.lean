import Mathlib.Data.List.Forall2
import RelQuery.Error

/-! Outcomes of lists, item by item. Two outcomes are alike if both are failures, or both are results and
these are related; sequences of like steps have like outcomes. -/
namespace RelQuery

namespace Outcome

variable {α β γ δ : Type}

theorem mapBind {o : Outcome α} {f : α → Outcome β} {g : β → γ} :
    (o >>= f).map g = o >>= fun a => (f a).map g := by
  cases o <;> rfl

theorem bindNext {o : Outcome α} {f g : α → Outcome β} (next : ∀ a, o = .ok a → f a = g a) :
    o >>= f = o >>= g := by
  cases o with
  | error e => rfl
  | ok a => exact next a rfl

theorem mapMOk {f : α → Outcome β} {xs : List α} {ys : List β} :
    xs.mapM f = .ok ys ↔ List.Forall₂ (fun x y => f x = .ok y) xs ys := by
  induction xs generalizing ys with
  | nil => rw [List.mapM_nil, pureOk, List.forall₂_nil_left_iff, eq_comm]
  | cons x xs ih =>
      simp only [List.mapM_cons, bindOk, pureOk, List.forall₂_cons_left_iff, ih]
      constructor
      · rintro ⟨y, one, ys, others, rfl⟩
        exact ⟨y, ys, one, others, rfl⟩
      · rintro ⟨y, ys, one, others, rfl⟩
        exact ⟨y, one, ys, others, rfl⟩

theorem mapMTotal {f : α → Outcome β} {xs : List α} (each : ∀ x ∈ xs, ∃ y, f x = .ok y) :
    ∃ ys, xs.mapM f = .ok ys := by
  induction xs with
  | nil => exact ⟨[], rfl⟩
  | cons x xs ih =>
      obtain ⟨y, own⟩ := each x List.mem_cons_self
      obtain ⟨ys, others⟩ := ih fun x member => each x (List.mem_cons_of_mem _ member)
      exact ⟨y :: ys, by rw [List.mapM_cons, own, others]; rfl⟩

theorem mapMEach {f : α → Outcome β} {g : β → γ} {h : α → γ} {xs : List α}
    (each : ∀ x ∈ xs, (f x).map g = .ok (h x)) : (xs.mapM f).map (List.map g) = .ok (xs.map h) := by
  induction xs with
  | nil => rfl
  | cons x xs ih =>
      obtain ⟨y, own, same⟩ := mapOk.mp (each x List.mem_cons_self)
      obtain ⟨ys, others, rest⟩ := mapOk.mp (ih fun x member => each x (List.mem_cons_of_mem _ member))
      rw [List.mapM_cons, own, others, List.map_cons, ← same, ← rest]
      rfl

theorem mapMError {f : α → Outcome β} {xs : List α} {e : Error} (fails : xs.mapM f = .error e) :
    ∃ x ∈ xs, f x = .error e := by
  induction xs with
  | nil => cases fails
  | cons x xs ih =>
      rw [List.mapM_cons] at fails
      cases own : f x with
      | error e' =>
          rw [own] at fails
          cases fails
          exact ⟨x, List.mem_cons_self, own⟩
      | ok y =>
          cases others : xs.mapM f with
          | ok ys => simp [own, others, bind, Except.bind, pure, Except.pure] at fails
          | error e' =>
              rw [own, others] at fails
              cases fails
              obtain ⟨x, member, first⟩ := ih others
              exact ⟨x, List.mem_cons_of_mem _ member, first⟩

/-- Where each list takes its items one by one, lists one after another are one list. -/
theorem mapMFlatten {f : α → Outcome β} {g : List α → Outcome (List β)} {xss : List (List α)}
    (each : ∀ xs ∈ xss, g xs = xs.mapM f) : (xss.mapM g).map List.flatten = xss.flatten.mapM f := by
  induction xss with
  | nil => rfl
  | cons xs xss ih =>
      obtain ⟨first, rest⟩ := List.forall_mem_cons.mp each
      rw [List.mapM_cons, List.flatten_cons, List.mapM_append, ← ih rest, first]
      cases xs.mapM f with
      | error e => rfl
      | ok ys => cases xss.mapM g <;> rfl

theorem mapMConst {f : α → Outcome (α × β)} {o : Outcome β} {xs : List α} (some : xs ≠ [])
    (each : ∀ x ∈ xs, f x = o.map fun y => (x, y)) : xs.mapM f = o.map fun y => xs.map fun x => (x, y) := by
  cases o with
  | error e =>
      obtain ⟨x, xs, rfl⟩ := List.exists_cons_of_ne_nil some
      rw [List.mapM_cons, each x List.mem_cons_self]
      rfl
  | ok y =>
      refine mapMOk.mpr (List.forall₂_map_right_iff.mpr (List.forall₂_same.mpr ?_))
      exact each

/-! Related outcomes -/

def Alike (R : α → β → Prop) : Outcome α → Outcome β → Prop
  | .ok a, .ok b => R a b
  | .error _, .error _ => True
  | _, _ => False

variable {R : α → β → Prop} {S : γ → δ → Prop} {o : Outcome α} {o' : Outcome β}

theorem alikeUnit {o o' : Outcome Unit} (both : o = .ok () ↔ o' = .ok ()) : Alike Eq o o' := by
  cases o <;> cases o' <;> simp_all [Alike]

theorem alikeOk {a : α} (alike : Alike R o o') (ok : o = .ok a) : ∃ b, o' = .ok b ∧ R a b := by
  subst ok
  cases o' with
  | error e => exact alike.elim
  | ok b => exact ⟨b, rfl, alike⟩

theorem alikeSymm (alike : Alike R o o') : Alike (fun b a => R a b) o' o := by
  cases o <;> cases o' <;> exact alike

theorem alikeMapped {f : α → γ} {g : β → γ} (alike : Alike R o o') (same : ∀ a b, R a b → f a = g b) :
    (o.map f).toOption = (o'.map g).toOption := by
  cases o <;> cases o'
  · rfl
  · exact alike.elim
  · exact alike.elim
  · exact congrArg some (same _ _ alike)

theorem alikeSame {R : α → α → Prop} (same : ∀ a, o = .ok a → R a a) : Alike R o o := by
  cases o with
  | error e => trivial
  | ok a => exact same a rfl

theorem alikeImp {R' : α → β → Prop} (alike : Alike R o o')
    (imp : ∀ a b, o = .ok a → o' = .ok b → R a b → R' a b) : Alike R' o o' := by
  cases o <;> cases o'
  · trivial
  · exact alike
  · exact alike
  · exact imp _ _ rfl rfl alike

theorem alikeBind {f : α → Outcome γ} {g : β → Outcome δ} (alike : Alike R o o')
    (next : ∀ a b, R a b → Alike S (f a) (g b)) : Alike S (o >>= f) (o' >>= g) := by
  cases o <;> cases o'
  · trivial
  · exact alike.elim
  · exact alike.elim
  · exact next _ _ alike

theorem alikeNext {f : α → Outcome γ} {g : α → Outcome δ} (next : ∀ a, o = .ok a → Alike S (f a) (g a)) :
    Alike S (o >>= f) (o >>= g) := by
  cases o with
  | error e => trivial
  | ok a => exact next a rfl

theorem alikeMapM {f : α → Outcome γ} {g : β → Outcome δ} {xs : List α} {ys : List β}
    (listed : List.Forall₂ R xs ys) (each : ∀ x y, R x y → Alike S (f x) (g y)) :
    Alike (List.Forall₂ S) (xs.mapM f) (ys.mapM g) := by
  induction listed with
  | nil => exact .nil
  | cons one _ ih =>
      rw [List.mapM_cons, List.mapM_cons]
      refine alikeBind (each _ _ one) fun a b first => alikeBind ih fun as bs rest => ?_
      exact .cons first rest

theorem alikeMapMEq {f : α → Outcome γ} {g : β → Outcome γ} {xs : List α} {ys : List β}
    (listed : List.Forall₂ R xs ys) (each : ∀ x y, R x y → Alike Eq (f x) (g y)) :
    Alike Eq (xs.mapM f) (ys.mapM g) := by
  refine alikeImp (alikeMapM listed each) fun vs vs' _ _ all => ?_
  rwa [List.forall₂_eq_eq_eq] at all

theorem alikeFold {f : γ → α → Outcome γ} {g : δ → β → Outcome δ} {xs : List α} {ys : List β}
    {s : γ} {t : δ} (listed : List.Forall₂ R xs ys) (start : S s t)
    (each : ∀ s t x y, S s t → R x y → Alike S (f s x) (g t y)) :
    Alike S (xs.foldlM f s) (ys.foldlM g t) := by
  induction listed generalizing s t with
  | nil => exact start
  | cons one _ ih =>
      rw [List.foldlM_cons, List.foldlM_cons]
      exact alikeBind (each _ _ _ _ start one) fun s t next => ih next

end Outcome

theorem alikeMember {α β : Type} {R : α → β → Prop} {xs : List α} {ys : List β}
    (alike : List.Forall₂ R xs ys) {y : β} (member : y ∈ ys) : ∃ x ∈ xs, R x y := by
  induction alike with
  | nil => cases member
  | cons one _ ih =>
      rcases List.mem_cons.mp member with rfl | inside
      · exact ⟨_, List.mem_cons_self, one⟩
      · obtain ⟨x, there, related⟩ := ih inside
        exact ⟨x, List.mem_cons_of_mem _ there, related⟩

namespace Outcome

/-! Filters -/

variable {α : Type} {p : α → Outcome Bool} {xs ys : List α}

/-- An item with what a filter says of it. -/
def marked (p : α → Outcome Bool) (x : α) : Outcome (α × Bool) := (p x).map fun b => (x, b)

def chosen (marks : List (α × Bool)) : List α := (marks.filter (·.2)).map (·.1)

theorem filterEq (p : α → Outcome Bool) (xs : List α) : xs.filterM p = (xs.mapM (marked p)).map chosen := by
  have kept (xs acc : List α) : xs.filterAuxM p acc =
      (xs.mapM (marked p)).map fun marks => (chosen marks).reverse ++ acc := by
    induction xs generalizing acc with
    | nil => rfl
    | cons x xs ih =>
        rw [List.filterAuxM, List.mapM_cons, marked]
        cases p x with
        | error e => rfl
        | ok b =>
            simp only [bind, Except.bind, ih, Except.map]
            cases xs.mapM (marked p) with
            | error e => rfl
            | ok marks => cases b <;> simp [chosen, pure, Except.pure]
  rw [List.filterM, kept]
  cases xs.mapM (marked p) with
  | error e => rfl
  | ok marks => simp [Except.map, bind, Except.bind, pure, Except.pure]

theorem filterSubset (ok : xs.filterM p = .ok ys) : ys ⊆ xs := by
  rw [filterEq] at ok
  obtain ⟨marks, each, rfl⟩ := mapOk.mp ok
  intro x kept
  obtain ⟨entry, member, rfl⟩ := List.mem_map.mp kept
  obtain ⟨x, there, asked⟩ := alikeMember (mapMOk.mp each) (List.mem_of_mem_filter member)
  obtain ⟨b, _, rfl⟩ := mapOk.mp asked
  exact there

end Outcome

end RelQuery
