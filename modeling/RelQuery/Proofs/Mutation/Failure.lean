import RelQuery.Proofs.Mutation.Update

/-! An UPDATE that fails. Nothing is written while compositions are read, and a batch of replacements has
no way back: the rows that come before the one that is refused stay written. -/
namespace RelQuery

namespace Storage
open TableStore (supersededNewer memRows writesConsistent)

variable {before after : Storage} {done : List (OpenSource × Row)}

/-- A row that is written has a version that it did not have before. -/
theorem replacedRowsIff (consistent : before.Consistent) (replaced : Replaced before after done) :
    (∀ name, (after.get? name).map (·.rows) = (before.get? name).map (·.rows)) ↔ done = [] := by
  constructor
  · intro same
    cases done with
    | nil => rfl
    | cons entry rest =>
        obtain ⟨name, t, origin, there⟩ := replaced.backed entry List.mem_cons_self
        obtain ⟨t', there', writes, each⟩ := replaced.present name t there
        have listed : entry.2 ∈ rowsTo name (entry :: rest) :=
          List.mem_map.mpr ⟨entry, List.mem_filter.mpr ⟨List.mem_cons_self, by simp [origin]⟩, rfl⟩
        obtain ⟨old, stored⟩ := Option.isSome_iff_exists.mp (replaced.fits name t there _ listed).1
        have own := (consistent name t there).ids _ _ stored
        have rows : t'.rows = t.rows := by
          have equal := same name
          rw [there, there'] at equal
          exact Option.some.inj equal
        have still : old ∈ t'.rows := rows ▸ (memRows (consistent name t there)).mpr (own.1 ▸ stored)
        have found := (memRows (writesConsistent writes (consistent name t there))).mp still
        rw [each, own.1, stored, Option.map_some, Option.some.injEq] at found
        have newer := supersededNewer listed own.1.symm
        rw [found] at newer
        exact absurd newer (Nat.lt_irrefl _)
  · rintro rfl name
    rw [replaced.untouched name rfl]

end Storage

namespace Update
open Storage (Replaced Refused replacedNone replacedRowsIff)

variable {u : Update} {ctx : Context} {params : List Value} {cause : Error}

/-- An UPDATE that fails leaves every table as it was exactly if no row was written before the failure:
it failed before it wrote at all, or the first staged row was refused. -/
theorem runRestoresIff (reachable : ctx.storage.Reachable)
    (failed : (u.run ctx params).2 = .error cause) :
    ∃ done, Replaced ctx.storage (u.run ctx params).1 done ∧
      (u.stageAll ctx params = .error cause ∧ done = [] ∨
        ∃ staged s row rest, u.stageAll ctx params = .ok staged ∧
          pending staged.sources = done ++ (s, row) :: rest ∧
            Refused (u.run ctx params).1 s row cause) ∧
      ((∀ name, ((u.run ctx params).1.get? name).map (·.rows) =
        (ctx.storage.get? name).map (·.rows)) ↔ done = []) := by
  have consistent := Storage.reachableConsistent reachable
  rcases runError consistent failed with
    ⟨unread, left⟩ | ⟨staged, done, s, row, rest, read, all, replaced, refused⟩
  · have none : Replaced ctx.storage (u.run ctx params).1 [] := left ▸ replacedNone ctx.storage
    exact ⟨[], none, .inl ⟨unread, rfl⟩, replacedRowsIff consistent none⟩
  · exact ⟨done, replaced, .inr ⟨staged, s, row, rest, read, all, refused⟩,
      replacedRowsIff consistent replaced⟩

def levelling : Update :=
  ⟨account "a", [], [⟨⟨none, "balance"⟩, .literal (.int 30)⟩], none⟩

def unequal : Context := ledger [[1, 10, 0], [2, 20, 0]] []

theorem runRestoresIffLevelling :
    (levelling.run unequal []).2 = .error (.uniqueConstraint "by_balance" [.int 30]) ∧
      ∃ done, Replaced unequal.storage (levelling.run unequal []).1 done ∧
        ((∀ name, ((levelling.run unequal []).1.get? name).map (·.rows) =
          (unequal.storage.get? name).map (·.rows)) ↔ done = []) := by
  have failed : (levelling.run unequal []).2 = .error (.uniqueConstraint "by_balance" [.int 30]) := by
    decide +kernel
  obtain ⟨done, replaced, _, same⟩ := runRestoresIff (ledgerReachable _ _) failed
  exact ⟨failed, done, replaced, same⟩

/-- The first account keeps the new balance although the statement fails on the second. -/
theorem levellingStays : unequal.storage.Reachable ∧
    (levelling.run unequal []).2 = .error (.uniqueConstraint "by_balance" [.int 30]) ∧
      ((levelling.run unequal []).1.get? (inMain "accounts")).map (·.rows) =
        some [⟨0, 2, [.int 1, .int 30, .int 0]⟩, ⟨1, 1, [.int 2, .int 20, .int 0]⟩] ∧
      ((levelling.run unequal []).1.get? (inMain "accounts")).map (·.rows) ≠
        (unequal.storage.get? (inMain "accounts")).map (·.rows) := by
  refine ⟨ledgerReachable _ _, ?_⟩
  decide +kernel

end Update

end RelQuery
