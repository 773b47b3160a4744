import Alchemy.Library.Sequential
import Alchemy.Tpcc.Chronicle

/-! A transaction that runs alone: no other transaction moves, and no lock is busy. What it
finds is what records and indexes say, so its outcome and what it leaves behind can be computed
from the state it starts in.
-/

namespace Alchemy.Tpcc

open Cache Oid Interaction

variable {A : Type}

/-! ### The environment -/

/-- Records and indexes, and what the transaction has done so far, newest first. -/
structure Solo (A : Type) where
  shared : Shared A
  log : List (Step A)

/-- What an operation can answer: locks are granted, everything else is as it is. -/
def Shared.Serves (config : DbConfig) (shared : Shared A) : (op : Op A) → op.Answer → Prop
  | .lock table rid _, answer => answer = .ok () ∧ ∃ record, shared.rows table rid = some record
  | .lastNameRange low high length, answer =>
      answer = (config.scan.range shared.cLastIdx low high length).map Prod.snd
  | op, answer => shared.Answers config op answer

/-- The database without other transactions. -/
def alone (config : DbConfig) : Environment (Op.Answer (A := A)) (Solo A) where
  answers := fun solo => solo.shared.Serves config
  after := fun solo step => ⟨solo.shared.after step, step :: solo.log⟩

/-- The part of a transaction, started alone, ends in a state and with a result in `post`. -/
def Alone {α : Type} (config : DbConfig) (post : Solo A → Except Stop α → Prop)
    (part : Txn A α) (solo : Solo A)
    : Prop :=
  Prog.Ensures (alone config) post part solo

/-! ### What a transaction looks at -/

/-- A record that is read, or a table that is scanned. -/
inductive Look
  | read (table : Table) (rid : Rid)
  | scan (table : Table) (rids : List Rid)
deriving DecidableEq

def look? : Step A → Option Look
  | ⟨.read table rid _, _⟩ | ⟨.readAndPromote table rid _, _⟩ => some (.read table rid)
  | ⟨.range table _ _ _, rids⟩ => some (.scan table rids)
  | _ => none

/-- What the transaction has looked at, oldest first. -/
def looks (log : List (Step A)) : List Look :=
  log.reverse.filterMap look?

/-- The records of a table among them. -/
def rowsRead (table : Table) (seen : List Look) : List Rid :=
  seen.filterMap (fun look =>
    match look with
    | .read target rid => if target = table then some rid else none
    | .scan _ _ => none)

/-- From one point of a transaction to a later one: the records and indexes there, and what it
has looked at in between.
-/
structure Solo.Leads (solo : Solo A) (shared : Shared A) (seen : List Look) (later : Solo A)
    : Prop where
  shared : later.shared = shared
  looks : looks later.log = Tpcc.looks solo.log ++ seen

theorem Solo.Leads.refl (solo : Solo A) : solo.Leads solo.shared [] solo :=
  ⟨rfl, (List.append_nil _).symm⟩

theorem looks_cons (step : Step A) (log : List (Step A))
    : looks (step :: log) = looks log ++ (look? step).toList := by
  cases look : look? step <;> simp [looks, look]

/-! ### Rules -/

section Rules

variable {config : DbConfig} {base solo : Solo A} {shared : Shared A} {seen : List Look}
  {table : Table} {rid : Rid} {kind : GuardKind} {α β : Type}

theorem alone_then {post : Solo A → Except Stop β → Prop} (first : Txn A α)
    (rest : α → Txn A β)
    : Alone config post (first >>= rest) solo
      ↔ Alone config (settles (fun later result => Alone config post (rest result) later) post)
          first solo :=
  ensures_then first rest

theorem alone_perform {op : Op A} {post : Solo A → Except Stop op.Answer → Prop}
    (here : base.Leads shared seen solo) (served : ∃ answer, shared.Serves config op answer)
    (onward
      : ∀ answer, shared.Serves config op answer
        → ∀ later,
            base.Leads (shared.after ⟨op, answer⟩) (seen ++ (look? ⟨op, answer⟩).toList) later
            → post later (.ok answer))
    : Alone config post (Txn.perform op) solo := by
  obtain ⟨rfl, looked⟩ := here
  refine ⟨served, fun answer serves => onward answer serves _ ⟨rfl, ?_⟩⟩
  rw [← List.append_assoc, ← looked]
  exact looks_cons ..

/-- An operation with one answer. -/
theorem alone_answer {op : Op A} {post : Solo A → Except Stop op.Answer → Prop}
    (here : base.Leads shared seen solo) (answer : op.Answer)
    (served : ∀ other, shared.Serves config op other ↔ other = answer)
    (onward
      : ∀ later,
          base.Leads (shared.after ⟨op, answer⟩) (seen ++ (look? ⟨op, answer⟩).toList) later
          → post later (.ok answer))
    : Alone config post (Txn.perform op) solo := by
  refine alone_perform here ⟨answer, (served answer).mpr rfl⟩ ?_
  intro other serves later leads
  obtain rfl := (served other).mp serves
  exact onward later leads

/-- Operations that change nothing and look at nothing. -/
theorem Solo.Leads.quiet {op : Op A} {answer : op.Answer}
    (leads : base.Leads (shared.after ⟨op, answer⟩) (seen ++ (look? ⟨op, answer⟩).toList) solo)
    (still : op.changes = false) (blind : look? ⟨op, answer⟩ = none)
    : base.Leads shared seen solo := by
  rw [shared.after_of_quiet still, blind] at leads
  simpa using leads

theorem alone_lockRid {record : table.Record A} {post : Solo A → Except Stop Rid → Prop}
    (here : base.Leads shared seen solo) (row : shared.rows table rid = some record)
    (onward : ∀ later, base.Leads shared seen later → post later (.ok rid))
    : Alone config post (Txn.lockRid table kind rid) solo := by
  rw [Txn.lockRid, alone_then]
  refine alone_answer here (.ok ()) (fun other => and_iff_left ⟨record, row⟩) ?_
  intro later leads
  exact onward later (leads.quiet rfl rfl)

theorem alone_lockKey {key : UInt64} {record : table.Record A}
    {post : Solo A → Except Stop Rid → Prop} (here : base.Leads shared seen solo)
    (found : (shared.index table)[key]? = some rid)
    (row : shared.rows table rid = some record)
    (onward : ∀ later, base.Leads shared seen later → post later (.ok rid))
    : Alone config post (Txn.lockKey table kind key) solo := by
  rw [Txn.lockKey, alone_then]
  refine alone_answer here (some rid) (fun other => by rw [← found]; rfl) ?_
  intro later leads
  exact alone_lockRid (leads.quiet rfl rfl) row onward

theorem alone_read {query : List table.Name}
    {post : Solo A → Except Stop (Txn.QueryValue table) → Prop}
    (here : base.Leads shared seen solo)
    (onward : ∀ later, base.Leads shared (seen ++ [.read table rid]) later
      → post later (.ok ⟨rid, query⟩))
    : Alone config post (Txn.read table rid query) solo := by
  rw [Txn.read, alone_then]
  refine alone_perform here ⟨(), trivial⟩ ?_
  intro _ _ later leads
  exact onward later leads

theorem alone_readAndPromote {query : List table.Name}
    {post : Solo A → Except Stop (Txn.QueryValue table) → Prop}
    (here : base.Leads shared seen solo)
    (onward : ∀ later, base.Leads shared (seen ++ [.read table rid]) later
      → post later (.ok ⟨rid, query⟩))
    : Alone config post (Txn.readAndPromote table rid query) solo := by
  rw [Txn.readAndPromote, alone_then]
  refine alone_perform here ⟨(), trivial⟩ ?_
  intro _ _ later leads
  exact onward later leads

section Fields

variable {value : Txn.QueryValue table} {name : table.Name} {record : table.Record A}

/-- A field of the query that no schema drops is read as it is. -/
theorem alone_getValue {post : Solo A → Except Stop ((table.type name).Value A) → Prop}
    (here : base.Leads shared seen solo) (row : shared.rows table value.rid = some record)
    (asked : name ∈ value.query) (kept : table.Kept name)
    (onward : ∀ later, base.Leads shared seen later → post later (.ok (record name)))
    : Alone config post (Txn.getValue value name) solo := by
  rw [Txn.getValue, alone_then]
  refine alone_answer here (some (record name)) ?_ ?_
  · intro other
    constructor
    · rintro ⟨found, there, reads⟩
      obtain rfl := Option.some.inj (row.symm.trans there)
      obtain ⟨read, rfl, same⟩ := reads.1 asked
      rw [same kept]
    · rintro rfl
      exact ⟨record, row, Table.reads_some ..⟩
  · intro later leads
    exact onward later (leads.quiet rfl rfl)

/-- A field of the query is found, and one that every schema caches. -/
theorem alone_find {post : Solo A → Except Stop ((table.type name).Value A) → Prop}
    (here : base.Leads shared seen solo) (row : shared.rows table value.rid = some record)
    (asked : name ∈ value.query ∨ table.Cached name)
    (onward : ∀ found later, base.Leads shared seen later → post later (.ok found))
    : Alone config post (Txn.getValue value name) solo := by
  rw [Txn.getValue, alone_then]
  refine alone_perform here ⟨some (record name), record, row, Table.reads_some ..⟩ ?_
  rintro answer ⟨_, _, reads⟩ later leads
  have some : answer.isSome = true := by
    rcases asked with listed | cached
    · obtain ⟨found, rfl, _⟩ := reads.1 listed
      rfl
    · exact reads.2 cached
  obtain ⟨found, rfl⟩ := Option.isSome_iff_exists.mp some
  exact onward found later (leads.quiet rfl rfl)

theorem alone_touch {names : List table.Name} {post : Solo A → Except Stop Unit → Prop}
    (here : base.Leads shared seen solo) (row : shared.rows table value.rid = some record)
    (asked : ∀ name ∈ names, name ∈ value.query)
    (onward : ∀ later, base.Leads shared seen later → post later (.ok ()))
    : Alone config post (Txn.touch value names) solo := by
  induction names generalizing solo with
  | nil => exact onward solo here
  | cons name rest ih =>
      rw [Txn.touch, alone_then]
      refine alone_find here row (.inl (asked name (by simp))) (fun found later here => ?_)
      exact ih here (fun other member => asked other (List.mem_cons_of_mem _ member))

theorem alone_setValue {new : (table.type name).Value A}
    {post : Solo A → Except Stop Unit → Prop} (here : base.Leads shared seen solo)
    (row : shared.rows table value.rid = some record)
    (onward
      : ∀ later,
          base.Leads
            (shared.setRow table value.rid (some (Function.update record name new))) seen later
          → post later (.ok ()))
    : Alone config post (Txn.setValue value name new) solo := by
  rw [Txn.setValue, alone_then]
  refine alone_perform here ⟨some (record name), record, row, Table.reads_some ..⟩ ?_
  intro answer _ later leads
  have stored : shared.after ⟨.getValueMut table value.rid value.query name new, answer⟩
      = shared.setRow table value.rid (some (Function.update record name new)) := by
    rw [Shared.after, row, Option.map_some]
  rw [stored] at leads
  exact onward later (by simpa [look?] using leads)

theorem alone_update {change : (table.type name).Value A → (table.type name).Value A}
    {post : Solo A → Except Stop Unit → Prop} (here : base.Leads shared seen solo)
    (row : shared.rows table value.rid = some record) (asked : name ∈ value.query)
    (kept : table.Kept name)
    (onward
      : ∀ later,
          base.Leads
            (shared.setRow table value.rid
              (some (Function.update record name (change (record name))))) seen later
          → post later (.ok ()))
    : Alone config post (Txn.update value name change) solo := by
  rw [Txn.update, alone_then]
  exact alone_getValue here row asked kept (fun later here => alone_setValue here row onward)

end Fields

theorem alone_range {low high : UInt64} {length : Nat}
    {post : Solo A → Except Stop (List Rid) → Prop} (here : base.Leads shared seen solo)
    (onward
      : ∀ rids, rids = (config.scan.range (shared.index table) low high length).map Prod.snd
        → ∀ later, base.Leads shared (seen ++ [.scan table rids]) later → post later (.ok rids))
    : Alone config post (Txn.perform (.range table low high length)) solo := by
  refine alone_perform here ⟨_, rfl⟩ ?_
  rintro rids rfl later leads
  exact onward _ rfl later leads

theorem alone_drop {post : Solo A → Except Stop Unit → Prop}
    (here : base.Leads shared seen solo)
    (onward : ∀ later, base.Leads shared seen later → post later (.ok ()))
    : Alone config post (Txn.drop table kind rid) solo := by
  refine alone_perform here ⟨(), trivial⟩ ?_
  intro _ _ later leads
  exact onward later (leads.quiet rfl rfl)

end Rules

/-! ### Alone in the ledger -/

section Ledger

variable [Money A] {τ : Type} [DecidableEq τ] {config : DbConfig} {ledger last : Ledger A τ}
  {t : τ}

/-- A lock that is busy. -/
def Op.Contended : (op : Op A) → op.Answer → Prop
  | .lock _ _ _, .error _ => True
  | _, _ => False

/-- Operations of one task, with none of another task in between and no lock refused. -/
inductive Ledger.Proceeds (config : DbConfig) (t : τ) : Ledger A τ → Ledger A τ → Prop
  | stop (ledger : Ledger A τ) : Proceeds config t ledger ledger
  | did {ledger last : Ledger A τ} {activity : Activity A} {op : Op A}
    {next : op.Answer → Remainder A} {answer : op.Answer}
    (here : ledger.active t = some activity) (calls : activity.rest = .call op next)
    (answers : ledger.Answers config t op answer) (free : ¬op.Contended answer)
    (onward : Proceeds config t (ledger.record t activity ⟨op, answer⟩ (next answer)) last)
    : Proceeds config t ledger last

omit [DecidableEq τ] in
theorem Ledger.Answers.serves {op : Op A} {answer : op.Answer}
    (answers : ledger.Answers config t op answer) (free : ¬op.Contended answer)
    : ledger.shared.Serves config op answer := by
  cases op with
  | lock table rid kind =>
      cases answer with
      | ok => exact ⟨rfl, answers.2⟩
      | error error => exact absurd trivial free
  | lastNameRange low high length => exact answers
  | _ => exact answers.shared

/-- What a transaction ensures alone, it does in the ledger when nothing interferes. -/
theorem Ledger.Proceeds.ensures {post : Solo A → Except Stop Unit → Prop}
    {activity final : Activity A} (proceeds : Proceeds config t ledger last)
    (here : ledger.active t = some activity)
    (ensures : activity.rest.Ensures (Tpcc.alone config) post ⟨ledger.shared, activity.log⟩)
    (there : last.active t = some final)
    : final.rest.Ensures (Tpcc.alone config) post ⟨last.shared, final.log⟩ := by
  induction proceeds generalizing activity with
  | stop ledger =>
      rw [here] at there
      cases there
      exact ensures
  | did before calls answers free _ ih =>
      rw [here] at before
      cases before
      rw [calls] at ensures
      exact ih (record_active ..) (ensures.2 _ (answers.serves free)) there

end Ledger

end Alchemy.Tpcc
