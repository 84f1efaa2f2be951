import RelQuery.Proofs.Join.Drawn
import RelQuery.Proofs.Store.Storage
import RelQuery.Select.Query

/-! The sources of a mutation. Each has a name of its own, and one that is backed by a table lists the
rows that the table has when the statement begins; so does every composition that is read from it. -/
namespace RelQuery

def Source.backing (ctx : Context) : Source → Option TableName
  | .table database name _ => some (ctx.tableName database name)
  | .derived _ _ => none

namespace JoinRun

variable {evaluate : Source → Outcome Relation} {ctx : Context} {main source : Source}
  {joins : List Join} {condition : Option Expr} {params : List Value} {r : JoinRun} {s s' : OpenSource}
  {name : TableName} {c : Composition} {row : Row}

theorem startDistinct (started : start evaluate main joins condition params = .ok r) :
    (r.sources.map (·.name)).Nodup := by
  obtain ⟨distinct, opened⟩ := startOpens started
  have names : r.sources.map (·.name) = (main :: joins.map (·.source)).map Source.name := by
    rw [eq_comm, ← List.forall₂_eq_eq_eq, List.forall₂_map_left_iff, List.forall₂_map_right_iff]
    refine opened.imp fun source s => ?_
    rintro ⟨hidden, relation, _, rfl⟩
    rfl
  rw [names, List.map_cons, List.map_map]
  exact distinct

theorem sourceOpened (started : start evaluate main joins condition params = .ok r)
    (member : s ∈ r.sources) :
    ∃ source ∈ main :: joins.map (·.source), Opened evaluate source s :=
  alikeMember (startOpens started).2 member

theorem startFresh (started : start evaluate main joins condition params = .ok r)
    (member : s ∈ r.sources) : Relational.stillMain s = s ∧ s.cursor.staged = [] := by
  obtain ⟨source, _, hidden, relation, _, rfl⟩ := sourceOpened started member
  exact ⟨rfl, rfl⟩

theorem startSettled (started : start evaluate main joins condition params = .ok r) :
    r.settled = r.sources :=
  (List.map_congr_left fun _ member => (startFresh started member).1).trans (List.map_id _)

theorem openedBacking (opened : Opened (ctx.relation params) source s) :
    source.backing ctx = some name ↔ s.origin = .table name := by
  obtain ⟨hidden, relation, evaluated, rfl⟩ := opened
  cases source with
  | table database table rename =>
      obtain ⟨t, _, last⟩ := Outcome.bindOk.mp evaluated
      cases Outcome.pureOk.mp last
      simp [Source.backing, OpenSource.start, Relation.ofTable]
  | derived query rename =>
      obtain ⟨result, _, last⟩ := Outcome.bindOk.mp evaluated
      cases Outcome.pureOk.mp last
      simp [Source.backing, OpenSource.start, Relation.ofResult]

theorem openedTable (opened : Opened (ctx.relation params) source s) (origin : s.origin = .table name) :
    ∃ t, ctx.storage.get? name = some t ∧ s.columns = t.columns ∧ s.cursor.rows = t.rows.toArray := by
  obtain ⟨hidden, relation, evaluated, rfl⟩ := opened
  cases source with
  | table database table rename =>
      obtain ⟨t, found, last⟩ := Outcome.bindOk.mp evaluated
      cases Outcome.pureOk.mp last
      cases origin
      exact ⟨t, Storage.storeOk.mp found, rfl, rfl⟩
  | derived query rename =>
      obtain ⟨result, _, last⟩ := Outcome.bindOk.mp evaluated
      cases Outcome.pureOk.mp last
      cases origin

section
variable (started : start (ctx.relation params) main joins condition params = .ok r)
include started

theorem sourceTable (member : s ∈ r.sources) (origin : s.origin = .table name) :
    ∃ t, ctx.storage.get? name = some t ∧ s.columns = t.columns ∧ s.cursor.rows = t.rows.toArray := by
  obtain ⟨source, _, opened⟩ := sourceOpened started member
  exact openedTable opened origin

theorem drawnStored (drawn : Drawn r.sources c) (member : s ∈ r.sources)
    (origin : s.origin = .table name) (there : c.row? s.name = some row) :
    ∃ t, ctx.storage.get? name = some t ∧ row ∈ t.rows := by
  obtain ⟨s', member', same, own⟩ := drawn s.name row there
  cases List.inj_on_of_nodup_map (startDistinct started) member' member same
  obtain ⟨t, stored, _, rows⟩ := sourceTable started member origin
  exact ⟨t, stored, by simpa [rows] using own⟩

end

end JoinRun

/-! Accounts and their entries, for the samples -/

def accounts : TableSchema :=
  { name := "accounts"
    columns := [{ Column.new "id" .int64 with nullable := false }, .new "balance" .int64,
      .new "note" .int64]
    primaryKey := ["id"]
    uniqueKeys := [("by_balance", ["balance"])]
    autoIncrement := false
    engine := "memory" }

def entries : TableSchema :=
  { name := "entries"
    columns := [{ Column.new "id" .int64 with nullable := false }, .new "account" .int64,
      .new "amount" .int64]
    primaryKey := ["id"]
    uniqueKeys := []
    autoIncrement := false
    engine := "memory" }

def filled (schema : TableSchema) (rows : List (List Int64)) : TableStore :=
  ((TableStore.new schema).addAll (rows.map (·.map .int)) schema.columnNames none ()).store

theorem filledReachable (schema : TableSchema) (rows : List (List Int64)) :
    TableStore.Reachable (filled schema rows).schema (filled schema rows) := by
  have filled : TableStore.Reachable schema (filled schema rows) := .addAll .new _ _ none ()
  rwa [TableStore.reachableSchema filled]

def inMain (table : String) : TableName := ⟨"main", table⟩

def ledger (rows rows' : List (List Int64)) : Context :=
  { catalog := ⟨"main", [(inMain "accounts", accounts), (inMain "entries", entries)]⟩
    storage := [(inMain "accounts", filled accounts rows), (inMain "entries", filled entries rows')]
    database := "main" }

theorem ledgerReachable (rows rows' : List (List Int64)) : (ledger rows rows').storage.Reachable := by
  refine Storage.reachableOf fun entry member => ?_
  simp only [ledger, List.mem_cons, List.not_mem_nil, or_false] at member
  rcases member with rfl | rfl
  · exact filledReachable accounts rows
  · exact filledReachable entries rows'

def account (rename : String) : Source := .table none "accounts" (some rename)

def columnOf (table column : String) : Expr := .column ⟨some table, column⟩

end RelQuery
