import Mathlib.Data.List.Perm.Subperm
import RelQuery.Proofs.Grouping
import RelQuery.Proofs.Path.Mirrors

/-! Selections that are attached one after another. What an attachment does is one of three things: it finds its
column, it adds a column to a link, or it adds a link. After any sequence of attachments the links are the keys
that were attached, in the order in which they came, and each lists what was attached to it under the columns
that were answered. -/
namespace RelQuery

/-- A call that attaches a selection: the source and the database that it starts from, and where it leads. -/
structure Attachment where
  base : String
  database : Option String
  binding : Binding
  deriving DecidableEq, Repr

namespace Attachment

def key (a : Attachment) : LinkKey := a.binding.linkKey a.base

def select (a : Attachment) : String := a.binding.target.select

def run (a : Attachment) (ls : Links) : Links × ColumnRef := ls.attach a.base a.database a.binding

end Attachment

namespace Links

variable {ls : Links} {entries : List Link} {key : LinkKey} {l : Link} {select : String} {ref : ColumnRef}
  {used : List String} {a : Attachment}

/-! Free names -/

/-- Going on from a number to the next one until its name is free. -/
inductive Searches (used : List String) : Nat → Nat → Prop where
  | found {n : Nat} (free : nameOf (n + 1) ∉ used) : Searches used n (n + 1)
  | next {n m : Nat} (taken : nameOf (n + 1) ∈ used) (rest : Searches used (n + 1) m) : Searches used n m

theorem nameOfInj {n m : Nat} (same : nameOf n = nameOf m) : n = m :=
  Nat.repr_inj.mp ((String.append_right_inj "j").mp same)

theorem searchesFree {n m : Nat} (searches : Searches used n m) : nameOf m ∉ used := by
  induction searches with
  | found free => exact free
  | next _ _ ih => exact ih

theorem searchesTo {n k : Nat} (taken : ∀ i < k, nameOf (n + 1 + i) ∈ used) (free : nameOf (n + 1 + k) ∉ used) :
    Searches used n (n + 1 + k) := by
  induction k generalizing n with
  | zero => exact .found free
  | succ k ih =>
      have shift (i : Nat) : n + 1 + 1 + i = n + 1 + (i + 1) := by omega
      refine .next (taken 0 (Nat.zero_lt_succ k)) ?_
      rw [← shift]
      refine ih (fun i less => ?_) (by rwa [shift])
      rw [shift]
      exact taken (i + 1) (Nat.succ_lt_succ less)

/-- The search ends, because the names that it tries first are more than the names in use. -/
theorem searchesFresh (used : List String) (last : Nat) : Searches used last (freshNumber used last) := by
  unfold freshNumber
  dsimp only
  cases found : ((List.range (used.length + 1)).map (last + 1 + ·)).find? fun n => !used.contains (nameOf n) with
  | none =>
      have distinct : ((List.range (used.length + 1)).map fun k => nameOf (last + 1 + k)).Nodup :=
        List.nodup_range.map fun k k' same => Nat.add_left_cancel (nameOfInj same)
      have within : ((List.range (used.length + 1)).map fun k => nameOf (last + 1 + k)) ⊆ used := by
        intro name member
        obtain ⟨k, less, rfl⟩ := List.mem_map.mp member
        simpa using List.find?_eq_none.mp found (last + 1 + k) (List.mem_map_of_mem less)
      have length := (List.Nodup.subperm distinct within).length_le
      rw [List.length_map, List.length_range] at length
      exact absurd length (Nat.not_succ_le_self _)
  | some n =>
      obtain ⟨free, k, bound, rfl, before⟩ := List.find?_eq_some_iff_getElem.mp found
      simp only [List.getElem_map, List.getElem_range] at before free ⊢
      exact searchesTo (fun i less => by simpa using before i less) (by simpa using free)

/-! One attachment -/

theorem linkOfNone (missing : linkOf entries key = none) : ∀ l ∈ entries, l.key ≠ key := by
  intro l listed own
  simpa [own] using List.find?_eq_none.mp missing l listed

theorem attachToFound (select : String) (found : linkOf entries key = some l) :
    ∃ front rest, entries = front ++ l :: rest ∧ (∀ other ∈ front, other.key ≠ key) ∧
      attachTo key select entries =
        some (front ++ (l.attach select).1 :: rest, ⟨some l.name, (l.attach select).2⟩) := by
  induction entries with
  | nil => cases found
  | cons first entries ih =>
      by_cases own : first.key = key
      · rw [linkOf, List.find?_cons_of_pos (by simpa using own)] at found
        cases found
        exact ⟨[], entries, rfl, List.forall_mem_nil _, by rw [attachTo, if_pos own]; rfl⟩
      · rw [linkOf, List.find?_cons_of_neg (by simpa using own)] at found
        obtain ⟨front, rest, rfl, others, attached⟩ := ih found
        refine ⟨first :: front, rest, rfl, List.forall_mem_cons.mpr ⟨own, others⟩, ?_⟩
        rw [attachTo, if_neg own, attached]
        rfl

theorem runFound (found : linkOf ls.entries a.key = some l) : ∃ front rest, ls.entries = front ++ l :: rest ∧
    (∀ other ∈ front, other.key ≠ a.key) ∧ a.run ls = ({ ls with entries := front ++ (l.attach a.select).1 :: rest },
      ⟨some l.name, (l.attach a.select).2⟩) := by
  obtain ⟨front, rest, split, others, attached⟩ := attachToFound a.select found
  have known : attachTo ⟨a.base, a.binding.base.actingKey, a.binding.target.actingKey, a.binding.target.table⟩
      a.binding.target.select ls.entries = _ := attached
  refine ⟨front, rest, split, others, ?_⟩
  rw [Attachment.run, attach]
  dsimp only
  rw [known]

/-- A selection that is served is attached without any change. -/
theorem runServed (serves : Serves ls.entries a.key a.select ref) : a.run ls = (ls, ref) := by
  obtain ⟨l, column, found, served, rfl⟩ := serves
  obtain ⟨front, rest, split, _, attached⟩ := runFound found
  have same : l.attach a.select = (l, column) := by rw [Link.attach, served]
  rw [attached, same, ← split]

theorem runMore (found : linkOf ls.entries a.key = some l) (new : l.selects.lookup a.select = none) :
    ∃ front rest column, column = "c" ++ toString (l.selects.length + 1) ∧ ls.entries = front ++ l :: rest ∧
      (∀ other ∈ front, other.key ≠ a.key) ∧ a.run ls =
        ({ ls with entries := front ++ { l with selects := l.selects ++ [(a.select, column)] } :: rest },
          ⟨some l.name, column⟩) := by
  obtain ⟨front, rest, split, others, attached⟩ := runFound found
  refine ⟨front, rest, _, rfl, split, others, ?_⟩
  rw [attached, Link.attach, new]

theorem runNew (missing : linkOf ls.entries a.key = none) : ∃ n, Searches ls.used ls.lastNumber n ∧ a.run ls =
    (⟨ls.entries ++ [⟨a.key, a.database, nameOf n, [(a.select, "c" ++ toString 1)]⟩], nameOf n :: ls.used, n⟩,
      ⟨some (nameOf n), "c" ++ toString 1⟩) := by
  have new : attachTo ⟨a.base, a.binding.base.actingKey, a.binding.target.actingKey, a.binding.target.table⟩
      a.binding.target.select ls.entries = none := by
    rw [Option.eq_none_iff_forall_ne_some]
    rintro ⟨entries', ref⟩ found
    obtain ⟨front, l, _, _, _, split, own, _⟩ := attachToSome found
    exact linkOfNone missing l (by simp [split]) own
  refine ⟨freshNumber ls.used ls.lastNumber, searchesFresh .., ?_⟩
  rw [Attachment.run, attach]
  dsimp only
  rw [new]
  rfl

/-! All attachments -/

/-- Attaches selections to a new registry, and lists the column that each was answered. -/
def attachAll (used : List String) (calls : List Attachment) : Links × List (Attachment × ColumnRef) :=
  calls.foldl (fun (ls, answered) a => ((a.run ls).1, answered ++ [(a, (a.run ls).2)])) (new used, [])

theorem attachAllConcat (used : List String) (calls : List Attachment) (a : Attachment) :
    attachAll used (calls ++ [a]) = ((a.run (attachAll used calls).1).1,
      (attachAll used calls).2 ++ [(a, (a.run (attachAll used calls).1).2)]) := by
  rw [attachAll, List.foldl_concat]
  rfl

/-- What was attached to a key, with the columns that were answered, each once. -/
def selectsFor (answered : List (Attachment × ColumnRef)) (key : LinkKey) : List (String × String) :=
  ((answered.filter (·.1.key = key)).map fun (a, ref) => (a.select, ref.column)).eraseDups

/-- The links hold what was attached. -/
structure Records (used : List String) (ls : Links) (answered : List (Attachment × ColumnRef)) : Prop where
  keys : ls.entries.map (·.key) = (answered.map (·.1.key)).eraseDups
  names : (ls.entries.map (·.name)).Nodup
  free : ∀ l ∈ ls.entries, l.name ∉ used
  given : used ⊆ ls.used
  taken : ∀ l ∈ ls.entries, l.name ∈ ls.used
  selects : ∀ l ∈ ls.entries, l.selects = selectsFor answered l.key
  columns : ∀ l ∈ ls.entries, l.selects.map (·.2) = Link.generated l.selects.length
  serves : ∀ x ∈ answered, Serves ls.entries x.1.key x.1.select x.2

variable {answered : List (Attachment × ColumnRef)}

theorem selectsForOther (apart : a.key ≠ key) : selectsFor (answered ++ [(a, ref)]) key = selectsFor answered key := by
  simp [selectsFor, List.filter_append, apart]

theorem selectsForOwn : selectsFor (answered ++ [(a, ref)]) a.key =
    if (a.select, ref.column) ∈ selectsFor answered a.key then selectsFor answered a.key
    else selectsFor answered a.key ++ [(a.select, ref.column)] := by
  simp only [selectsFor, List.filter_append, List.map_append, List.filter_cons, decide_true, if_true, List.filter_nil,
    List.map_cons, List.map_nil, Grouping.eraseDupsConcat, List.mem_eraseDups]

theorem keysKnown (records : Records used ls answered) (found : linkOf ls.entries a.key = some l) :
    ls.entries.map (·.key) = ((answered ++ [(a, ref)]).map (·.1.key)).eraseDups := by
  obtain ⟨own, listed⟩ := linkKeyOf found
  have met : a.key ∈ answered.map (·.1.key) := by
    rw [← List.mem_eraseDups, ← records.keys, ← own]
    exact List.mem_map_of_mem listed
  rw [List.map_append, List.map_singleton, Grouping.eraseDupsConcat, if_pos met, records.keys]

theorem servesMore {ls' : Links} (records : Records used ls answered) (ran : a.run ls = (ls', ref)) :
    ∀ x ∈ answered ++ [(a, ref)], Serves ls'.entries x.1.key x.1.select x.2 := by
  obtain ⟨grows, serves⟩ := attachServes ran
  intro x member
  rcases List.mem_append.mp member with old | added
  · exact servesGrows (records.serves x old) grows
  · rw [List.mem_singleton.mp added]
    exact serves

theorem linkOnce (records : Records used ls answered) {l' : Link} (listed : l ∈ ls.entries) (listed' : l' ∈ ls.entries)
    (same : l.key = l'.key) : l = l' :=
  List.inj_on_of_nodup_map (records.keys ▸ Grouping.eraseDupsNodup _) listed listed' same

theorem selectMember {selects : List (String × String)} {column : String}
    (served : selects.lookup select = some column) : (select, column) ∈ selects := by
  obtain ⟨before, after, rfl, _⟩ := List.lookup_eq_some_iff.mp served
  simp

theorem recordsServed (records : Records used ls answered) (serves : Serves ls.entries a.key a.select ref) :
    Records used ls (answered ++ [(a, ref)]) := by
  have again := servesMore records (runServed serves)
  obtain ⟨l, column, found, served, rfl⟩ := serves
  obtain ⟨key, there⟩ := linkKeyOf found
  refine { records with keys := keysKnown records found, serves := again, selects := fun other listed => ?_ }
  rw [records.selects other listed]
  by_cases own : a.key = other.key
  · have member : (a.select, column) ∈ selectsFor answered a.key := by
      rw [← key, ← records.selects l there]
      exact selectMember served
    rw [← own, selectsForOwn, if_pos member]
  · rw [selectsForOther own]

theorem replacedMember {front rest : List Link} {l' i : Link} (records : Records used ls answered)
    (split : ls.entries = front ++ l :: rest) (listed : i ∈ front ++ l' :: rest) :
    i ∈ ls.entries ∧ i.key ≠ l.key ∨ i = l' := by
  have distinct : (ls.entries.map (·.key)).Nodup := records.keys ▸ Grouping.eraseDupsNodup _
  rw [split, List.map_append, List.map_cons, List.nodup_middle, ← List.map_append] at distinct
  have apart : ∀ other ∈ front ++ rest, other.key ≠ l.key := fun other member same =>
    (List.nodup_cons.mp distinct).1 (same ▸ List.mem_map_of_mem member)
  rw [List.mem_append, List.mem_cons] at listed
  rw [split]
  rcases listed with before | same | after
  · exact .inl ⟨List.mem_append_left _ before, apart i (List.mem_append_left _ before)⟩
  · exact .inr same
  · exact .inl ⟨by simp [after], apart i (List.mem_append_right _ after)⟩

theorem recordsMore (records : Records used ls answered) (found : linkOf ls.entries a.key = some l)
    (new : l.selects.lookup a.select = none) : Records used (a.run ls).1 (answered ++ [(a, (a.run ls).2)]) := by
  obtain ⟨front, rest, column, numbered, split, _, ran⟩ := runMore found new
  have serves := servesMore records ran
  obtain ⟨key, there⟩ := linkKeyOf found
  have fresh : (a.select, column) ∉ selectsFor answered a.key := by
    rw [← key, ← records.selects l there]
    exact fun member => by simpa using List.lookup_eq_none_iff.mp new _ member
  rw [ran]
  -- one link has got a selection, and the other links are as they were
  have each {i : Link} (listed : i ∈ front ++ { l with selects := l.selects ++ [(a.select, column)] } :: rest) :=
    replacedMember records split listed
  have keys : (front ++ { l with selects := l.selects ++ [(a.select, column)] } :: rest).map (·.key) =
      ls.entries.map (·.key) := by simp [split]
  have names : (front ++ { l with selects := l.selects ++ [(a.select, column)] } :: rest).map (·.name) =
      ls.entries.map (·.name) := by simp [split]
  refine ⟨keys.trans (keysKnown records found), names ▸ records.names, fun i listed => ?_, records.given,
    fun i listed => ?_, fun i listed => ?_, fun i listed => ?_, serves⟩
  · rcases each listed with ⟨old, _⟩ | rfl
    · exact records.free i old
    · exact records.free l there
  · rcases each listed with ⟨old, _⟩ | rfl
    · exact records.taken i old
    · exact records.taken l there
  · rcases each listed with ⟨old, apart⟩ | rfl
    · rw [selectsForOther (key ▸ apart.symm)]
      exact records.selects i old
    · have own : selectsFor (answered ++ [(a, ⟨some l.name, column⟩)]) l.key =
          selectsFor answered l.key ++ [(a.select, column)] := by
        rw [key, selectsForOwn, if_neg fresh]
      rw [own, ← records.selects l there]
  · rcases each listed with ⟨old, _⟩ | rfl
    · exact records.columns i old
    · simp [records.columns l there, numbered, Link.generatedSucc]

theorem recordsNew (records : Records used ls answered) (missing : linkOf ls.entries a.key = none) :
    Records used (a.run ls).1 (answered ++ [(a, (a.run ls).2)]) := by
  obtain ⟨n, searches, ran⟩ := runNew missing
  have serves := servesMore records ran
  have free := searchesFree searches
  have unmet : a.key ∉ answered.map (·.1.key) := by
    rw [← List.mem_eraseDups, ← records.keys]
    intro member
    obtain ⟨l, listed, own⟩ := List.mem_map.mp member
    exact linkOfNone missing l listed own
  have nothing : selectsFor answered a.key = [] := by
    have none : answered.filter (·.1.key = a.key) = [] :=
      List.filter_eq_nil_iff.mpr fun x member => by
        simpa using fun same => unmet (List.mem_map.mpr ⟨x, member, same⟩)
    rw [selectsFor, none]
    rfl
  rw [ran]
  refine ⟨?_, ?_, fun l listed => ?_, fun name member => List.mem_cons_of_mem _ (records.given member),
    fun l listed => ?_, fun l listed => ?_, fun l listed => ?_, serves⟩
  · rw [List.map_append, List.map_append, List.map_singleton, List.map_singleton, Grouping.eraseDupsConcat,
      if_neg unmet, records.keys]
  · rw [List.map_append, List.map_singleton]
    refine List.nodup_append.mpr ⟨records.names, List.nodup_singleton _, fun name old name' added => ?_⟩
    obtain ⟨l, listed, rfl⟩ := List.mem_map.mp old
    rintro rfl
    have same : l.name = nameOf n := List.mem_singleton.mp added
    exact free (same ▸ records.taken l listed)
  · rcases List.mem_append.mp listed with old | added
    · exact records.free l old
    · rw [List.mem_singleton.mp added]
      exact fun member => free (records.given member)
  · rcases List.mem_append.mp listed with old | added
    · exact List.mem_cons_of_mem _ (records.taken l old)
    · rw [List.mem_singleton.mp added]
      exact List.mem_cons_self
  · rcases List.mem_append.mp listed with old | added
    · rw [selectsForOther (linkOfNone missing l old).symm]
      exact records.selects l old
    · rw [List.mem_singleton.mp added, selectsForOwn, nothing]
      rfl
  · rcases List.mem_append.mp listed with old | added
    · exact records.columns l old
    · rw [List.mem_singleton.mp added]
      rfl

theorem recordsRun (records : Records used ls answered) (a : Attachment) :
    Records used (a.run ls).1 (answered ++ [(a, (a.run ls).2)]) := by
  cases found : linkOf ls.entries a.key with
  | none => exact recordsNew records found
  | some l =>
      cases served : l.selects.lookup a.select with
      | none => exact recordsMore records found served
      | some column =>
          have serves : Serves ls.entries a.key a.select ⟨some l.name, column⟩ := ⟨l, column, found, served, rfl⟩
          rw [runServed serves]
          exact recordsServed records serves

theorem attachAllRecords (used : List String) (calls : List Attachment) :
    Records used (attachAll used calls).1 (attachAll used calls).2 := by
  induction calls using List.reverseRecOn with
  | nil => exact ⟨rfl, List.nodup_nil, nofun, List.Subset.refl _, nofun, nofun, nofun, nofun⟩
  | append_singleton calls a ih =>
      rw [attachAllConcat]
      exact recordsRun ih a

theorem answeredCalls (used : List String) (calls : List Attachment) :
    (attachAll used calls).2.map (·.1) = calls := by
  induction calls using List.reverseRecOn with
  | nil => rfl
  | append_singleton calls a ih => rw [attachAllConcat, List.map_append, ih, List.map_singleton]

/-! What the links answer -/

/-- Columns tell keys and selections apart. -/
theorem servesApart {key' : LinkKey} {select' : String} (records : Records used ls answered)
    (serves : Serves ls.entries key select ref) (serves' : Serves ls.entries key' select' ref) :
    key = key' ∧ select = select' := by
  obtain ⟨l, column, found, served, rfl⟩ := serves
  obtain ⟨l', column', found', served', same⟩ := serves'
  obtain ⟨own, listed⟩ := linkKeyOf found
  obtain ⟨own', listed'⟩ := linkKeyOf found'
  obtain ⟨name, rfl⟩ := ColumnRef.mk.inj same
  cases List.inj_on_of_nodup_map records.names listed listed' (Option.some.inj name)
  have columns : (l.selects.map (·.2)).Nodup := records.columns l listed ▸ Link.generatedNodup _
  have once := List.inj_on_of_nodup_map columns (selectMember served) (selectMember served') rfl
  exact ⟨own.symm.trans own', congrArg Prod.fst once⟩

/-- A left join to a query of the target under a name, on the equality of the acting keys. The query lists the acting
key and then what was attached to the key, each selection as the column that was answered for it. -/
def JoinsKey (answered : List (Attachment × ColumnRef)) (key : LinkKey) (join : Join) : Prop :=
  join.kind = .left ∧ ∃ database name query, join.source = .derived query name ∧
    query.sources = [.table database key.target none] ∧
    query.fields = .expr (.column ⟨none, key.targetKey⟩) none :: (selectsFor answered key).map Link.selectField ∧
    join.condition = some (.condition (.binary .eq (.column ⟨some name, key.targetKey⟩)
      (.column ⟨some key.base, key.baseKey⟩))) ∧
    ∀ x ∈ answered, x.1.key = key → x.2.table = some name

theorem joinsKey (records : Records used ls answered) (listed : l ∈ ls.entries) : JoinsKey answered l.key l.toJoin := by
  refine ⟨rfl, l.database, l.name, l.query, rfl, rfl, ?_, rfl, fun x member same => ?_⟩
  · rw [← records.selects l listed]
    rfl
  · obtain ⟨l', column, found, _, ref⟩ := records.serves x member
    obtain ⟨own, there⟩ := linkKeyOf found
    rw [ref, linkOnce records there listed (own.trans same)]

end Links

end RelQuery
