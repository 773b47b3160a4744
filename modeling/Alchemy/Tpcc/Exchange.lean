import Alchemy.Tpcc.Cells
import Alchemy.Tpcc.Chronicle
import Alchemy.Tpcc.TwoPhaseCalls

/-! Steps of different tasks that can be exchanged. An operation depends on the guards on its record
and on one cell of the shared data. A guard keeps others away from the record, so operations of
two-phase transactions get in each other's way only if the second one takes a lock that the first
one drops, or if both make an entry under one key.
-/

namespace Alchemy.Tpcc

open Cache Oid Interaction

variable {A τ : Type}

/-! ### Events -/

/-- A lock that was taken. -/
def granted : Step A → Bool
  | ⟨.lock _ _ _, .ok _⟩ => true
  | _ => false

/-- A guard is taken with a lock or a new record. -/
theorem gained_cases {step : Step A} {table : Table} {rid : Rid} {kind : GuardKind}
    (taken : gained step = some (table, rid, kind))
    : step = ⟨.lock table rid kind, .ok ()⟩
      ∨ kind = .write ∧ ∃ record, step = ⟨.insert table record, rid⟩ := by
  obtain ⟨op, answer⟩ := step
  cases op with
  | lock =>
      cases answer with
      | error => cases taken
      | ok =>
          cases taken
          exact .inl rfl
  | insert table record =>
      cases taken
      exact .inr ⟨rfl, record, rfl⟩
  | _ => cases taken

variable [Money A]

namespace DbEvent

/-- The cell an event changes. -/
def writes (event : DbEvent A) : Option Cell :=
  event.step?.bind written

/-- The guard it takes. -/
def takes (event : DbEvent A) : Option (Table × Rid × GuardKind) :=
  event.step?.bind gained

def drops (event : DbEvent A) : Bool :=
  event.step?.any (fun step => step.op.drops)

def locks (event : DbEvent A) : Bool :=
  event.step?.any granted

/-- An event of a two-phase transaction. -/
def Mixing : DbEvent A → Prop
  | .pending => False
  | .began txn => txn.twoPhase = true
  | .did step => step.op.gathers = true ∨ step.op.settles = true
  | .returned _ _ _ => True

/-- Two events that make no entry under the same key. -/
def EntriesApart (first second : DbEvent A) : Prop :=
  ∀ cell, first.writes = some cell → second.writes = some cell → ∃ table rid, cell = .row table rid

/-- Such events, of which the second takes no lock if the first drops one. -/
structure Apart (first second : DbEvent A) : Prop where
  entries : first.EntriesApart second
  phases : first.drops = true → second.locks = false

/-- The entries an event depends on. -/
def Looks : DbEvent A → Cell → Prop
  | .did ⟨.get table key, _⟩, cell => cell = .entry table key
  | .did ⟨.indexInsert table key _, _⟩, cell => cell = .entry table key
  | .did ⟨.newOrderInsert key _, _⟩, cell => cell = .newOrder key
  | .did ⟨.lastNameRange _ _ _, _⟩, cell => ∃ key, cell = .lastName key
  | _, _ => False

/-- Two-phase transactions make entries about orders only, and look those up nowhere. -/
theorem not_writes_of_looks {event other : DbEvent A} {cell : Cell} (mixing : event.Mixing)
    (mixing' : other.Mixing) (entries : event.EntriesApart other) (looks : other.Looks cell)
    : event.writes ≠ some cell := by
  intro writes
  unfold Looks at looks
  split at looks
  · subst looks
    cases event with
    | did step =>
        obtain ⟨op, answer⟩ := step
        cases op with
        | indexInsert =>
            cases writes
            simp only [Mixing, Op.gathers, Op.settles, Op.accesses] at mixing mixing'
            simp_all
        | _ => cases writes
    | _ => cases writes
  · subst looks
    obtain ⟨_, _, ⟨⟩⟩ := entries _ writes rfl
  · subst looks
    obtain ⟨_, _, ⟨⟩⟩ := entries _ writes rfl
  · obtain ⟨key, rfl⟩ := looks
    cases event with
    | did step =>
        obtain ⟨op, answer⟩ := step
        cases op with
        | lastNameInsert => simp [Mixing, Op.gathers, Op.settles, Op.accesses] at mixing
        | _ => cases writes
    | _ => cases writes
  · exact looks

end DbEvent

def Shared.told (shared : Shared A) : DbEvent A → Shared A
  | .did step => shared.after step
  | _ => shared

theorem Shared.told_agree {shared : Shared A} {event : DbEvent A} {cell : Cell}
    (apart : event.writes ≠ some cell)
    : (shared.told event).Agree shared cell := by
  cases event with
  | did step => exact Shared.after_agree apart
  | _ => exact .refl _ _

/-! ### What a step leaves to others -/

namespace Ledger

variable [DecidableEq τ] {config : DbConfig} {ledger left right middle next : Ledger A τ} {t u : τ}
  {event other : DbEvent A} {table : Table} {rid : Rid} {kind mode : GuardKind}

theorem Moves.shared (moves : ledger.Moves config t next event)
    : next.shared = ledger.shared.told event := by
  cases moves <;> rfl

theorem Moves.held_did {step : Step A} (moves : ledger.Moves config t next (.did step))
    (table : Table)
    : next.held t table = guardsAfter table (ledger.held t table) step := by
  cases moves with
  | did here | release here => exact held_record here table

/-- A guard is given up by dropping it only. -/
theorem Moves.held_kept (moves : ledger.Moves config t next event) (keeps : event.drops = false)
    (member : (rid, kind) ∈ ledger.held u table)
    : (rid, kind) ∈ next.held u table := by
  by_cases same : u = t
  · subst same
    cases moves with
    | rest => exact member
    | begin idle =>
        rw [Ledger.held, idle] at member
        cases member
    | finish here ended free =>
        rw [held_of_active here, free] at member
        cases member
    | release => cases keeps
    | @did _ op _ answer here =>
        rw [held_record here]
        cases op with
        | lock =>
            cases answer with
            | error => exact member
            | ok =>
                simp only [guardsAfter]
                split <;> simp [member]
        | insert =>
            simp only [guardsAfter]
            split <;> simp [member]
        | drop => cases keeps
        | _ => exact member
  · rw [moves.held_other same]
    exact member

/-- What a step takes was free, and its task holds it. -/
theorem Moves.took (moves : ledger.Moves config t next event)
    (taken : event.takes = some (table, rid, kind))
    : ledger.Free table rid kind ∧ (rid, kind) ∈ next.held t table := by
  cases event with
  | did step =>
      constructor
      · cases moves with
        | did here calls answers => exact answers.free taken
        | release => cases taken
      · rw [moves.held_did]
        rcases gained_cases taken with rfl | ⟨rfl, record, rfl⟩ <;> simp [guardsAfter]
  | _ => cases taken

/-- Guards are on records that are there. -/
def Guarded (ledger : Ledger A τ) : Prop :=
  ∀ t table rid kind, (rid, kind) ∈ ledger.held t table
    → ledger.shared.rows table rid ≠ none

theorem Moves.guarded (moves : ledger.Moves config t next event) (guarded : ledger.Guarded)
    : next.Guarded := by
  intro holder table rid kind member absent
  rw [moves.shared] at absent
  rcases moves.held member with before | ⟨rfl, _, step, rfl, taken⟩
  · have there := guarded holder table rid kind before
    cases event with
    | did step => exact there (Shared.after_rows_eq_none.mp absent).1
    | _ => exact there absent
  · obtain ⟨before, kept⟩ := Shared.after_rows_eq_none.mp absent
    rcases gained_cases taken with rfl | ⟨_, record, rfl⟩
    · cases moves with
      | did here calls answers =>
          obtain ⟨_, record, row⟩ := answers
          cases row.symm.trans before
    · exact kept record rfl

theorem Run.guarded {past : History A τ} (run : Run config past ledger) : ledger.Guarded := by
  induction run with
  | start =>
      intro holder table rid kind member
      cases member
  | extend _ moves ih => exact moves.guarded ih

/-- A step of another task leaves a guarded record alone. -/
theorem Moves.row_guarded (moves : ledger.Moves config t next event)
    (exclusive : ledger.Exclusive) (guarded : ledger.Guarded) (different : u ≠ t)
    (holds : (rid, kind) ∈ ledger.held u table)
    : next.shared.rows table rid = ledger.shared.rows table rid := by
  obtain ⟨record, row⟩ := Option.ne_none_iff_exists'.mp (guarded u table rid kind holds)
  rw [row]
  exact moves.row_kept exclusive different holds row

theorem Moves.touches (moves : ledger.Moves config t next event)
    (writes : event.writes = some (.row table rid))
    : ledger.shared.rows table rid = none ∨ (rid, .write) ∈ ledger.held t table := by
  cases moves with
  | did here calls answers => exact answers.touches (written_row.mp writes)
  | _ => cases writes

/-- What a step writes to, its task holds afterwards. -/
theorem Moves.writes_held (moves : ledger.Moves config t next event)
    (writes : event.writes = some (.row table rid))
    : (rid, .write) ∈ next.held t table := by
  have same := moves
  cases moves with
  | @did _ op _ answer here calls answers =>
      cases op with
      | insert =>
          cases writes
          exact (same.took rfl).2
      | getValueMut =>
          cases writes
          exact same.held_kept rfl answers.1
      | _ => cases writes
  | _ => cases writes

/-! ### Answers -/

omit [DecidableEq τ] in
theorem free_iff
    : ledger.Free table rid kind
      ↔ ∀ t mode, (rid, mode) ∈ ledger.held t table → kind = .read ∧ mode = .read := by
  constructor
  · intro free t mode member
    cases kind with
    | read => cases mode <;> first | exact ⟨rfl, rfl⟩ | exact absurd member (free t)
    | write => exact absurd member (free t mode)
  · intro excludes
    cases kind with
    | read => exact fun t member => by cases (excludes t .write member).2
    | write => exact fun t mode member => by cases (excludes t mode member).1

/-- The operation of an event can be answered like this. -/
def Answered (config : DbConfig) (ledger : Ledger A τ) (t : τ) : DbEvent A → Prop
  | .did step => ledger.Answers config t step.op step.answer
  | _ => True

theorem Moves.answered (moves : ledger.Moves config t next event)
    : ledger.Answered config t event := by
  cases moves with
  | did here calls answers => exact answers
  | @release activity _ table rid kind here ended member =>
      change (rid, kind) ∈ ledger.held t table
      rw [held_of_active here]
      exact member
  | _ => trivial

omit [DecidableEq τ] in
/-- An operation has the same answer where its task holds the same guards, its record and its
entries are the same, and what it takes is free.
-/
theorem Answered.carried (answered : left.Answered config t event) (mixing : event.Mixing)
    (held : ∀ table, right.held t table = left.held t table)
    (rows : ∀ table rid kind, (rid, kind) ∈ left.held t table
      → right.shared.rows table rid = left.shared.rows table rid)
    (entries : ∀ cell, event.Looks cell → right.shared.Agree left.shared cell)
    (takes : ∀ table rid kind, event.takes = some (table, rid, kind)
      → right.Free table rid kind
        ∧ (right.shared.rows table rid = none ↔ left.shared.rows table rid = none))
    : right.Answered config t event := by
  cases event with
  | pending | began | returned => trivial
  | did step =>
      obtain ⟨op, answer⟩ := step
      cases op with
      | get | indexInsert | newOrderInsert => exact Eq.trans answered (Eq.symm (entries _ rfl))
      | lastNameRange low high length =>
          refine Eq.trans answered ?_
          rw [Shared.range_eq (fun key => Eq.symm (entries (.lastName key) ⟨key, rfl⟩))]
      | lock table rid kind =>
          cases answer with
          | error => exact answered
          | ok =>
              obtain ⟨free, row⟩ := takes table rid kind rfl
              refine ⟨free, Option.ne_none_iff_exists'.mp (fun absent => ?_)⟩
              exact Option.ne_none_iff_exists'.mpr answered.2 (row.mp absent)
      | insert table record =>
          obtain ⟨free, row⟩ := takes table answer .write rfl
          exact ⟨free, row.mpr answered.2⟩
      | read | readAndPromote => trivial
      | getValue table rid query name =>
          obtain ⟨⟨kind, member⟩, found⟩ := answered
          refine ⟨⟨kind, (held table).symm ▸ member⟩, ?_⟩
          rw [rows table rid kind member]
          exact found
      | getValueMut table rid query name value =>
          obtain ⟨member, found⟩ := answered
          refine ⟨(held table).symm ▸ member, ?_⟩
          rw [rows table rid .write member]
          exact found
      | drop table rid kind =>
          change (rid, kind) ∈ right.held t table
          rw [held table]
          exact answered
      | range | lastNameInsert | newOrderRange | newOrderRemove =>
          simp [DbEvent.Mixing, Op.gathers, Op.settles, Op.accesses] at mixing

/-- The same transactions are running, and the shared data are the same. -/
structure Same (left right : Ledger A τ) : Prop where
  active : left.active = right.active
  shared : left.shared.Same right.shared

def advance (ledger : Ledger A τ) (t : τ) (event : DbEvent A) (after : Option (Activity A))
    : Ledger A τ where
  shared := ledger.shared.told event
  active := Function.update ledger.active t after

theorem Moves.eq_advance (moves : ledger.Moves config t next event)
    : next = ledger.advance t event (next.active t) := by
  have active : next.active = Function.update ledger.active t (next.active t) :=
    (Function.update_eq_iff.mpr ⟨rfl, fun other different => (moves.active_other different).symm⟩).symm
  rw [advance, ← active, ← moves.shared]

/-- A transaction takes the same step wherever the machine can answer. -/
theorem Moves.replay (moves : left.Moves config t next event) (mixing : event.Mixing)
    (same : right.active t = left.active t) (answered : right.Answered config t event)
    : right.Moves config t (right.advance t event (next.active t)) event := by
  cases moves with
  | rest => exact mixing.elim
  | begin idle =>
      rw [setActive_active]
      exact .begin (same.trans idle)
  | did here calls =>
      rw [record_active]
      exact .did (same.trans here) calls answered
  | release here ended =>
      rw [record_active]
      exact .release (same.trans here) ended (held_of_active (same.trans here) _ ▸ answered)
  | finish here ended free =>
      rw [setActive_active]
      exact .finish (same.trans here) ended free

theorem Moves.matched (same : left.Same right) (moves : left.Moves config t next event)
    (mixing : event.Mixing)
    : ∃ next', right.Moves config t next' event ∧ next.Same next' := by
  have held (t : τ) (table : Table) : right.held t table = left.held t table := by
    rw [Ledger.held, Ledger.held, same.active]
  have rows (table : Table) (rid : Rid) : right.shared.rows table rid = left.shared.rows table rid :=
    (same.shared (.row table rid)).symm
  have answered : right.Answered config t event := by
    refine moves.answered.carried mixing (held t) (fun table rid _ _ => rows table rid)
      (fun cell _ => (same.shared cell).symm) (fun table rid kind taken => ⟨?_, by rw [rows]⟩)
    have free := (moves.took taken).1
    rw [free_iff] at free ⊢
    intro holder mode member
    rw [held] at member
    exact free holder mode member
  refine ⟨_, moves.replay mixing (congrFun same.active t).symm answered, ?_, ?_⟩
  · rw [moves.eq_advance]
    simp only [advance, same.active, Function.update_self]
  · rw [moves.shared]
    cases event with
    | did step => exact fun cell => (same.shared cell).after
    | _ => exact same.shared

/-! ### Exchange -/

section Pair

variable (moves : ledger.Moves config t middle event) (follows : middle.Moves config u next other)
  (different : u ≠ t) (exclusive : ledger.Exclusive) (guarded : ledger.Guarded)
  (mixing : event.Mixing) (mixing' : other.Mixing) (apart : event.Apart other)

include moves follows different exclusive guarded apart

/-- Events that are apart change different cells: a record is written to under a guard. -/
theorem Moves.cells_apart
    : ∀ cell, event.writes = some cell → other.writes ≠ some cell := by
  intro cell writes also
  obtain ⟨table, rid, rfl⟩ := apart.entries cell writes also
  have mine := moves.writes_held writes
  rcases follows.touches also with absent | theirs
  · exact moves.guarded guarded t table rid .write mine absent
  · exact different (moves.exclusive exclusive t u table rid .write mine theirs).1

include mixing mixing'

/-- What another task could do after a step, it could do before it. -/
theorem Moves.sooner : ledger.Answered config u other := by
  refine follows.answered.carried mixing' (fun table => (moves.held_other different table).symm)
    ?_ ?_ ?_
  · intro table rid kind member
    rw [moves.held_other different] at member
    exact (moves.row_guarded exclusive guarded different member).symm
  · intro cell looks
    rw [moves.shared]
    exact (Shared.told_agree
      (DbEvent.not_writes_of_looks mixing mixing' apart.entries looks)).symm
  · intro table rid kind taken
    obtain ⟨free, _⟩ := follows.took taken
    -- The step has not inserted the record, or its task would hold it.
    have rows : ledger.shared.rows table rid = none ↔ middle.shared.rows table rid = none := by
      rw [moves.shared]
      cases event with
      | did step =>
          refine Iff.trans ?_ Shared.after_rows_eq_none.symm
          rw [iff_self_and]
          rintro _ record rfl
          cases (free_iff.mp free t .write (moves.took rfl).2).2
      | _ => rfl
    refine ⟨free_iff.mpr (fun holder mode member => ?_), rows⟩
    cases drops : event.drops with
    | false => exact free_iff.mp free holder mode (moves.held_kept drops member)
    | true =>
        -- The other one takes no lock but inserts a record, on which there was no guard.
        have unlocked := apart.phases drops
        cases other with
        | did step =>
            rcases gained_cases taken with rfl | ⟨_, record, rfl⟩
            · cases unlocked
            · exact absurd (rows.mpr follows.answered.2) (guarded holder table rid mode member)
        | _ => cases taken

/-- What a task could do, it can still do after a step of another one that could follow. -/
theorem Moves.later {elsewhere : Ledger A τ} (instead : ledger.Moves config u elsewhere other)
    : elsewhere.Answered config t event := by
  refine moves.answered.carried mixing (fun table => instead.held_other different.symm table)
    (fun table rid kind => instead.row_guarded exclusive guarded different.symm) ?_ ?_
  · intro cell looks
    rw [instead.shared]
    exact Shared.told_agree (DbEvent.not_writes_of_looks mixing' mixing
      (fun cell writes also => apart.entries cell also writes) looks)
  · intro table rid kind taken
    obtain ⟨free, member⟩ := moves.took taken
    constructor
    · refine free_iff.mpr (fun holder mode held => ?_)
      rcases instead.held held with before | ⟨rfl, _, _, rfl, also⟩
      · exact free_iff.mp free holder mode before
      · exact (free_iff.mp (follows.took also).1 t kind member).symm
    · have untouched : other.writes ≠ some (.row table rid) := by
        intro writes
        rcases follows.touches writes with absent | theirs
        · exact moves.guarded guarded t table rid kind member absent
        · exact different (moves.exclusive exclusive u t table rid kind theirs member).1.symm
      have same : elsewhere.shared.rows table rid = ledger.shared.rows table rid := by
        rw [instead.shared]
        exact Shared.told_agree untouched
      rw [same]

/-- Two steps of different tasks can be exchanged. -/
theorem Moves.exchange
    : ∃ middle' next', ledger.Moves config u middle' other ∧ middle'.Moves config t next' event
      ∧ next.Same next' := by
  have instead := follows.replay mixing' (moves.active_other different).symm
    (moves.sooner follows different exclusive guarded mixing mixing' apart)
  have then' := moves.replay mixing (instead.active_other different.symm)
    (moves.later follows different exclusive guarded mixing mixing' apart instead)
  have cells := moves.cells_apart follows different exclusive guarded apart
  refine ⟨_, _, instead, then', ?_, ?_⟩
  · rw [follows.eq_advance, moves.eq_advance]
    simp only [advance, Function.update_self]
    exact Function.update_comm different.symm ..
  · rw [follows.shared, moves.shared]
    cases event with
    | did step =>
        cases other with
        | did step' => exact Shared.after_comm cells
        | _ => exact Shared.Agree.refl _
    | _ => cases other <;> exact Shared.Agree.refl _

end Pair

end Ledger

end Alchemy.Tpcc
