import Alchemy.Tpcc.Ledger

/-! The database refines its ledger. A call of a cache takes many steps on the machine and
none on the ledger until it returns; its last step is the step of the ledger.
-/

namespace Alchemy.Tpcc

open ByteImage Cache CacheState Oid Interaction Interleaving

variable {A τ : Type} [Money A] [DecidableEq τ]

/-! ### The invariant of a table -/

/-- What the caches hide. -/
def Db.ledger (db : Db A τ) : Ledger A τ where
  shared := db.shared
  active := fun t => (db.tasks t).map Task.toActivity

omit [DecidableEq τ] in
theorem Db.resting {db : Db A τ} (idle : ∀ t, db.tasks t = none) (t : τ)
    : db.ledger.active t = none :=
  congrArg (Option.map Task.toActivity) (idle t)

/-- The bytes of a row. -/
def Table.images (table : Table) (rows : Rid → Option (table.Record A)) (rid : Rid)
    : Image Byte :=
  match rows rid with
  | some record => table.image record
  | none => fun _ => 0

/-- The operation is this call of the cache. -/
def Op.Calls (config : DbConfig) (op : Op A) (table : Table) : Call → Prop
  | .lock rid lockOp => ∃ kind, op = .lock table rid kind ∧ lockOp = tryOp kind
  | .query rid fields =>
      ∃ names, (op = .read table rid names ∨ op = .readAndPromote table rid names)
        ∧ fields = config.query table names
  | .insert _ val => ∃ record, op = .insert table record ∧ val = table.image record

/-- A task is inside a call of the cache only if this is the operation it is at. -/
def Inside (config : DbConfig) (table : Table) (task : Option (Task A)) (pc : Pc) : Prop :=
  pc = .idle
  ∨ ∃ running op next call,
      task = some running ∧ running.entered = true ∧ running.rest = .call op next
      ∧ pc.call = some call ∧ op.Calls config table call

/-- The cache of a table, its rows, the guards of the tasks on it, and the tasks. -/
structure SoundAt (config : DbConfig) (table : Table) (cache : CacheState τ)
    (rows : Rid → Option (table.Record A)) (held : τ → List (Rid × GuardKind))
    (tasks : τ → Option (Task A))
    : Prop where
  consistent : Consistent (config.cache table) cache
  contents : Contents (config.cache table) cache (table.images rows)
  published : ∀ rid, rid ∈ cache.published ↔ ∃ record, rows rid = some record
  accounted : cache.Accounted held
  inside : ∀ t, Inside config table (tasks t) (cache.pc t)

/-- The invariant of the database. -/
def Db.Sound (config : DbConfig) (db : Db A τ) : Prop :=
  ∀ table, SoundAt config table (db.caches table) (db.shared.rows table)
    (fun t => db.ledger.held t table) db.tasks

section TableSteps

variable {config : DbConfig} {table : Table} {cache next : CacheState τ}
  {rows after : Rid → Option (table.Record A)} {held : τ → List (Rid × GuardKind)}
  {tasks : τ → Option (Task A)} {t : τ} {event : CacheEvent} {task : Option (Task A)}

omit [Money A] in
theorem fields_laws (config : DbConfig) (table : Table)
    : (config.cache table).schema.LensLaws (config.cache table).fields :=
  (config.schema table).keptFields_laws (config.padding table)

/-- A task that is in no call on the table does something else. -/
theorem SoundAt.elsewhere (sound : SoundAt config table cache rows held tasks)
    (idle : cache.pc t = .idle)
    : SoundAt config table cache rows held (Function.update tasks t task) where
  consistent := sound.consistent
  contents := sound.contents
  published := sound.published
  accounted := sound.accounted
  inside := by
    intro other
    by_cases same : other = t
    · subst same
      exact .inl idle
    · rw [Function.update_of_ne same]
      exact sound.inside other

/-- A step of the cache, with the rows and the guards its event says. -/
theorem SoundAt.step (sound : SoundAt config table cache rows held tasks)
    (effect : CacheState.Effect (config.cache table) cache t next event)
    (published
      : ∀ rid, rid ∈ event.publishes cache.published ↔ ∃ record, after rid = some record)
    (images
      : ∀ rid record, after rid = some record
          → SameFields (config.cache table).fields (event.apply rid (table.images rows rid))
              (table.image record))
    (inside : Inside config table task (next.pc t))
    : SoundAt config table next after (Function.update held t (event.account (held t)))
        (Function.update tasks t task) where
  consistent := (sound.consistent.advance effect).consistent
  contents := by
    intro rid member
    have content := sound.contents.step (fields_laws config table) sound.consistent effect rid
      member
    rw [effect.published_eq, published] at member
    obtain ⟨record, row⟩ := member
    refine content.same ?_
    rw [Table.images, row]
    exact images rid record row
  published := by
    intro rid
    rw [effect.published_eq]
    exact published rid
  accounted := sound.accounted.step sound.consistent effect
  inside := by
    intro other
    by_cases same : other = t
    · subst same
      rw [Function.update_self]
      exact inside
    · rw [Function.update_of_ne same,
        (sound.consistent.advance effect).guarantee.pc other same]
      exact sound.inside other

/-- A step of the cache that inserts and writes nothing keeps the rows. -/
theorem SoundAt.still (sound : SoundAt config table cache rows held tasks)
    (effect : CacheState.Effect (config.cache table) cache t next event)
    (quiet : ∀ image rid, event.apply rid image = image)
    (silent : event.publishes cache.published = cache.published)
    (inside : Inside config table task (next.pc t))
    : SoundAt config table next rows (Function.update held t (event.account (held t)))
        (Function.update tasks t task) := by
  refine sound.step effect ?_ ?_ inside
  · intro rid
    rw [silent]
    exact sound.published rid
  · intro rid record row
    rw [quiet, Table.images, row]
    exact .refl _ _

end TableSteps

/-! ### The database and its ledger -/

/-- The table whose rows or guards an operation may change. -/
def Op.target : Op A → Option Table
  | .lock table _ _ | .getValueMut table _ _ _ _ | .insert table _ | .drop table _ _ =>
      some table
  | _ => none

omit [Money A] in
theorem guardsAfter_apart {table : Table} {step : Step A}
    (apart : step.op.target ≠ some table) (held : List (Rid × GuardKind))
    : guardsAfter table held step = held := by
  obtain ⟨op, answer⟩ := step
  cases op with
  | lock target rid kind =>
      cases answer with
      | ok => exact if_neg (fun same => apart (congrArg some same))
      | error => rfl
  | insert target record => exact if_neg (fun same => apart (congrArg some same))
  | drop target rid kind => exact if_neg (fun same => apart (congrArg some same))
  | _ => rfl

section OwnTable

variable (table : Table) (held : List (Rid × GuardKind)) (rid : Rid)

omit [Money A] in
@[simp]
theorem guardsAfter_lock (kind : GuardKind)
    : guardsAfter table held (⟨.lock table rid kind, .ok ()⟩ : Step A) = (rid, kind) :: held :=
  if_pos rfl

omit [Money A] in
@[simp]
theorem guardsAfter_insert (record : table.Record A)
    : guardsAfter table held (⟨.insert table record, rid⟩ : Step A) = (rid, .write) :: held :=
  if_pos rfl

omit [Money A] in
@[simp]
theorem guardsAfter_drop (kind : GuardKind)
    : guardsAfter table held (⟨.drop table rid kind, ()⟩ : Step A) = held.erase (rid, kind) :=
  if_pos rfl

end OwnTable

omit [Money A] in
theorem Shared.after_rows_apart {table : Table} {step : Step A}
    (apart : step.op.target ≠ some table) (shared : Shared A)
    : (shared.after step).rows table = shared.rows table := by
  funext rid
  refine Shared.after_rows ?_
  obtain ⟨op, answer⟩ := step
  cases op with
  | insert target record =>
      intro same
      cases same
      exact apart rfl
  | getValueMut target written query name value =>
      intro same
      cases same
      exact apart rfl
  | _ =>
      intro same
      cases same

section Machine

variable {config : DbConfig} {db next : Db A τ} {t : τ} {task : Task A} {event : DbEvent A}
  {table : Table} {op : Op A} {rid : Rid}

theorem ledger_setTask (db : Db A τ) (t : τ) (task : Option (Task A))
    : (db.setTask t task).ledger = db.ledger.setActive t (task.map Task.toActivity) := by
  refine congrArg (Ledger.mk db.shared) ?_
  funext other
  by_cases same : other = t
  · subst same
    simp [Db.setTask]
  · simp [Db.setTask, Db.ledger, same]

theorem ledger_finish (db : Db A τ) (t : τ) (activity : Activity A)
    (caches : Table → CacheState τ) (step : Step A) (rest : Remainder A)
    : (db.finish t activity caches step rest).1.ledger
      = db.ledger.record t activity step rest := by
  refine congrArg (Ledger.mk (db.shared.after step)) ?_
  funext other
  by_cases same : other = t
  · subst same
    simp [Db.finish]
  · simp [Db.finish, Db.ledger, same]

omit [DecidableEq τ] in
theorem ledger_active (running : db.tasks t = some task)
    : db.ledger.active t = some task.toActivity :=
  congrArg (Option.map Task.toActivity) running

/-- A task that has logged an operation is as sound as each of the tables. -/
theorem Db.Sound.finish {caches : Table → CacheState τ} {step : Step A} {rest : Remainder A}
    (running : db.tasks t = some task)
    (each
      : ∀ table,
          SoundAt config table (caches table) ((db.shared.after step).rows table)
            (Function.update (fun other => db.ledger.held other table) t
              (guardsAfter table (db.ledger.held t table) step))
            (Function.update db.tasks t
              (some { txn := task.txn, log := step :: task.log, rest, entered := false })))
    : (db.finish t task.toActivity caches step rest).1.Sound config := by
  intro table
  have books : (fun other =>
        (db.finish t task.toActivity caches step rest).1.ledger.held other table)
      = Function.update (fun other => db.ledger.held other table) t
          (guardsAfter table (db.ledger.held t table) step) := by
    funext other
    rw [ledger_finish]
    by_cases same : other = t
    · subst same
      rw [Function.update_self, Ledger.held_record (ledger_active running)]
    · rw [Function.update_of_ne same, Ledger.held, Ledger.held, Ledger.record_other same]
  rw [books]
  exact each table

/-- An operation on one table leaves the others as they are. -/
theorem Db.Sound.elsewhere {step : Step A} {after : Option (Task A)} (sound : db.Sound config)
    (idle : (db.caches table).pc t = .idle) (apart : step.op.target ≠ some table)
    : SoundAt config table (db.caches table) ((db.shared.after step).rows table)
        (Function.update (fun other => db.ledger.held other table) t
          (guardsAfter table (db.ledger.held t table) step))
        (Function.update db.tasks t after) := by
  rw [Shared.after_rows_apart apart, guardsAfter_apart apart,
    Function.update_eq_self t (fun other => db.ledger.held other table)]
  exact (sound table).elsewhere idle

/-- An operation that has changed the cache of one table. -/
theorem Db.Sound.did {cache : CacheState τ} {step : Step A} {rest : Remainder A}
    (sound : db.Sound config) (running : db.tasks t = some task)
    (target : step.op.target = none ∨ step.op.target = some table)
    (others : ∀ other, other ≠ table → (db.caches other).pc t = .idle)
    (here
      : SoundAt config table cache ((db.shared.after step).rows table)
          (Function.update (fun other => db.ledger.held other table) t
            (guardsAfter table (db.ledger.held t table) step))
          (Function.update db.tasks t
            (some { txn := task.txn, log := step :: task.log, rest, entered := false })))
    : (db.finish t task.toActivity (Function.update db.caches table cache) step rest).1.Sound
        config := by
  refine Db.Sound.finish running ?_
  intro other
  by_cases same : other = table
  · subst same
    rw [Function.update_self]
    exact here
  · rw [Function.update_of_ne same]
    refine sound.elsewhere (others other same) ?_
    rcases target with none' | here'
    · simp [none']
    · simp [here', Ne.symm same]

theorem moves_finish {caches : Table → CacheState τ} {onward : op.Answer → Remainder A}
    {answer : op.Answer} (running : db.tasks t = some task)
    (calls : task.rest = .call op onward) (answers : db.ledger.Answers config t op answer)
    : db.ledger.Moves config t
        (db.finish t task.toActivity caches ⟨op, answer⟩ (onward answer)).1.ledger
        (.did ⟨op, answer⟩) := by
  rw [ledger_finish]
  exact .did (ledger_active running) calls answers

/-- A task without guards begins or ends a transaction. -/
theorem Db.Sound.setTask {after : Option (Task A)} (sound : db.Sound config)
    (idle : ∀ table, (db.caches table).pc t = .idle) (free : ∀ table, db.ledger.held t table = [])
    (clear : ∀ table running, after = some running → guards table running.log = [])
    : (db.setTask t after).Sound config := by
  intro table
  have books : (fun other => (db.setTask t after).ledger.held other table)
      = fun other => db.ledger.held other table := by
    funext other
    rw [ledger_setTask]
    by_cases same : other = t
    · subst same
      rw [free, Ledger.held, Ledger.setActive_active]
      cases after with
      | none => rfl
      | some running => exact clear table running rfl
    · rw [Ledger.held, Ledger.held, Ledger.setActive_other same]
  rw [books]
  exact (sound table).elsewhere (idle table)

/-- A task is in a call of no other table than that of its operation. -/
theorem Db.Sound.idle_of_calls {onward : op.Answer → Remainder A} (sound : db.Sound config)
    (running : db.tasks t = some task) (calls : task.rest = .call op onward)
    (elsewhere : ∀ call, ¬op.Calls config table call)
    : (db.caches table).pc t = .idle := by
  rcases (sound table).inside t with idle | ⟨_, _, _, call, same, _, rest, _, inside⟩
  · exact idle
  · rw [running] at same
    cases same
    rw [calls] at rest
    cases rest
    exact absurd inside (elsewhere call)

theorem Db.Sound.idle_of_ended {outcome : Except Stop Unit} (sound : db.Sound config)
    (running : db.tasks t = some task) (ended : task.rest = .pure outcome) (table : Table)
    : (db.caches table).pc t = .idle := by
  rcases (sound table).inside t with idle | ⟨_, _, _, call, same, _, rest, _, inside⟩
  · exact idle
  · rw [running] at same
    cases same
    rw [ended] at rest
    cases rest

omit [DecidableEq τ] in
theorem Op.not_calls (single : op.call (τ := τ) config rid = none) (call : Call)
    : ¬op.Calls config table call := by
  cases call with
  | lock target lockOp =>
      rintro ⟨kind, rfl, _⟩
      cases single
  | query target fields =>
      rintro ⟨names, rfl | rfl, _⟩
      · cases single
      · cases single
  | insert target val =>
      rintro ⟨record, rfl, _⟩
      cases single

omit [DecidableEq τ] in
/-- A call is a call of the table it names. -/
theorem Op.calls_table {other : Table} {move : CacheMove τ} {call : Call}
    (named : op.call config rid = some (table, move)) (calls : op.Calls config other call)
    : other = table := by
  cases call with
  | lock target lockOp =>
      obtain ⟨kind, rfl, _⟩ := calls
      cases named
      rfl
  | query target fields =>
      obtain ⟨names, rfl | rfl, _⟩ := calls
      · cases named
        rfl
      · cases named
        rfl
  | insert target val =>
      obtain ⟨record, rfl, _⟩ := calls
      cases named
      rfl

/-! ### Calls of a cache -/

variable {cache : CacheState τ} {cacheEvent : CacheEvent} {move : CacheMove τ}

/-- The first step of a call returns nothing. -/
theorem Op.call_begins (named : op.call config rid = some (table, move))
    (taken
      : (db.caches table).step (config.cache table) t move = some (cache, cacheEvent))
    : cacheEvent.isInner = true
      ∧ ∃ call, (cache.pc t).call = some call ∧ op.Calls config table call := by
  cases op with
  | lock target other kind =>
      cases named
      obtain ⟨_, started⟩ := step_start (by simp) taken
      simp only [CacheState.start, guarded_eq_some] at started
      obtain ⟨_, rfl, rfl⟩ := started
      exact ⟨rfl, .lock other (tryOp kind), by rw [CacheState.goto_pc]; rfl, kind, rfl, rfl⟩
  | read target other names =>
      cases named
      obtain ⟨_, started⟩ := step_start (by simp) taken
      simp only [CacheState.start, guarded_eq_some] at started
      obtain ⟨_, rfl, rfl⟩ := started
      exact ⟨rfl, .query other (config.query table names), by rw [CacheState.goto_pc]; rfl, names,
        .inl rfl, rfl⟩
  | readAndPromote target other names =>
      cases named
      obtain ⟨_, started⟩ := step_start (by simp) taken
      simp only [CacheState.start, guarded_eq_some] at started
      obtain ⟨_, rfl, rfl⟩ := started
      exact ⟨rfl, .query other (config.query table names), by rw [CacheState.goto_pc]; rfl, names,
        .inr rfl, rfl⟩
  | insert target record =>
      cases named
      obtain ⟨_, started⟩ := step_start (by simp) taken
      simp only [CacheState.start, guarded_eq_some] at started
      obtain ⟨_, rfl, rfl⟩ := started
      exact ⟨rfl, .insert rid (table.image record), by rw [CacheState.goto_pc]; rfl, record, rfl,
        rfl⟩
  | _ => cases named

/-- A step inside a call changes nothing the ledger shows. -/
theorem Db.Sound.pending (sound : db.Sound config) (running : db.tasks t = some task)
    (effect : CacheState.Effect (config.cache table) (db.caches table) t cache cacheEvent)
    (inner : cacheEvent.isInner = true)
    (others : ∀ other, other ≠ table → (db.caches other).pc t = .idle)
    (inside : Inside config table (some { task with entered := true }) (cache.pc t))
    : db.ledger.Moves config t
        ((db.setCache table cache).setTask t (some { task with entered := true })).ledger
        .pending
      ∧ ((db.setCache table cache).setTask t (some { task with entered := true })).Sound
          config := by
  have same : ((db.setCache table cache).setTask t (some { task with entered := true })).ledger
      = db.ledger := by
    rw [ledger_setTask]
    exact congrArg (Ledger.mk db.shared)
      (Function.update_eq_iff.mpr ⟨(ledger_active running).symm, fun _ _ => rfl⟩)
  rw [same]
  refine ⟨.rest, ?_⟩
  intro other
  rw [same]
  by_cases here : other = table
  · subst here
    have kept : SoundAt config other cache (db.shared.rows other)
        (Function.update (fun thread => db.ledger.held thread other) t
          (cacheEvent.account (db.ledger.held t other)))
        (Function.update db.tasks t (some { task with entered := true })) := by
      cases cacheEvent with
      | pending | placed => exact (sound other).still effect (fun _ _ => rfl) rfl inside
      | _ => cases inner
    have account : cacheEvent.account (db.ledger.held t other) = db.ledger.held t other := by
      cases cacheEvent with
      | pending | placed => rfl
      | _ => cases inner
    rw [account, Function.update_eq_self t (fun thread => db.ledger.held thread other)] at kept
    simpa [Db.setCache, Db.setTask] using kept
  · have kept : SoundAt config other (db.caches other) (db.shared.rows other)
        (fun thread => db.ledger.held thread other)
        (Function.update db.tasks t (some { task with entered := true })) :=
      (sound other).elsewhere (others other here)
    simpa [Db.setCache, Db.setTask, here] using kept

/-- A call that returns answers as the ledger says, and leaves the database sound. -/
theorem Db.Sound.returns {onward : op.Answer → Remainder A} {call : Call} {answer : op.Answer}
    (sound : db.Sound config) (running : db.tasks t = some task)
    (calls : op.Calls config table call)
    (effect : CacheState.Effect (config.cache table) (db.caches table) t cache cacheEvent)
    (idle : cache.pc t = .idle) (returns : call.Returns cacheEvent)
    (found : op.answer? cacheEvent = some answer)
    (others : ∀ other, other ≠ table → (db.caches other).pc t = .idle)
    : db.ledger.Answers config t op answer
      ∧ (db.finish t task.toActivity (Function.update db.caches table cache) ⟨op, answer⟩
          (onward answer)).1.Sound config := by
  have accounted := (sound table).accounted.step (sound table).consistent effect
  have after := ((sound table).consistent.advance effect).consistent
  cases call with
  | lock target lockOp =>
      obtain ⟨kind, rfl, rfl⟩ := calls
      obtain ⟨label, rfl, ends⟩ := returns
      have either : label = .granted kind ∨ ∃ error, label = .failed error := by
        cases kind with
        | read => exact ends
        | write => exact ends
      rcases either with rfl | ⟨error, rfl⟩
      · obtain rfl := Option.some.inj found
        refine ⟨⟨accounted.granted after, ?_⟩, ?_⟩
        · exact ((sound table).published target).mp (effect.granted_published (sound table).consistent)
        · refine sound.did running (.inr rfl) others ?_
          rw [guardsAfter_lock]
          exact (sound table).still effect (fun _ _ => rfl) rfl (.inl idle)
      · obtain rfl := Option.some.inj found
        refine ⟨effect.failed_busy, ?_⟩
        exact sound.did running (.inr rfl) others
          ((sound table).still effect (fun _ _ => rfl) rfl (.inl idle))
  | query target fields =>
      obtain ⟨value, rfl⟩ := returns
      obtain ⟨names, rfl | rfl, rfl⟩ := calls
      · exact ⟨trivial, sound.did running (.inl rfl) others
          ((sound table).still effect (fun _ _ => rfl) rfl (.inl idle))⟩
      · exact ⟨trivial, sound.did running (.inl rfl) others
          ((sound table).still effect (fun _ _ => rfl) rfl (.inl idle))⟩
  | insert target val =>
      obtain ⟨record, rfl, rfl⟩ := calls
      obtain rfl := returns
      obtain rfl := Option.some.inj found
      have fresh := effect.inserted_fresh (sound table).consistent
      refine ⟨⟨accounted.granted after, ?_⟩, ?_⟩
      · have absent := fun row => fresh (((sound table).published target).mpr row)
        exact Option.eq_none_iff_forall_ne_some.mpr (fun record row => absent ⟨record, row⟩)
      · refine sound.did running (.inr rfl) others ?_
        rw [guardsAfter_insert]
        refine (sound table).step effect ?_ ?_ (.inl idle)
        · intro other
          by_cases same : other = target
          · subst same
            simp [CacheEvent.publishes, Shared.after]
          · rw [Shared.after_rows (by simp [touched, Ne.symm same]), ← (sound table).published]
            simp [CacheEvent.publishes, same]
        · intro other row found
          by_cases same : other = target
          · subst same
            obtain rfl : record = row := by simpa [Shared.after] using found
            rw [CacheEvent.apply, if_pos rfl]
            exact .refl _ _
          · rw [Shared.after_rows (by simp [touched, Ne.symm same])] at found
            rw [CacheEvent.apply, if_neg (Ne.symm same), Table.images, found]
            exact .refl _ _

/-! ### Operations that take one step -/

/-- An operation that leaves the caches alone. -/
theorem Db.Sound.plain {step : Step A} {rest : Remainder A} (sound : db.Sound config)
    (running : db.tasks t = some task) (idle : ∀ table, (db.caches table).pc t = .idle)
    (target : step.op.target = none)
    : (db.finish t task.toActivity db.caches step rest).1.Sound config := by
  refine Db.Sound.finish running ?_
  intro table
  exact sound.elsewhere (idle table) (by simp [target])

theorem view?_live {names : List table.Name} {view : View τ}
    (found : db.view? config t table rid names = some view)
    : view ∈ (db.caches table).views ∧ view.owner = t ∧ view.rid = rid
      ∧ view.query = config.query table names := by
  have matches' := List.find?_some found
  simp only [decide_eq_true_eq] at matches'
  exact ⟨List.mem_of_find?_eq_some found, matches'⟩

/-- The owner of a query value holds a guard on its record, and the record is there. -/
theorem Db.Sound.viewed (sound : db.Sound config) {view : View τ}
    (idle : (db.caches table).pc view.owner = .idle) (live : view ∈ (db.caches table).views)
    : (∃ kind, (view.rid, kind) ∈ db.ledger.held view.owner table)
      ∧ ∃ record, db.shared.rows table view.rid = some record := by
  have known := (sound table).consistent.views view live
  refine ⟨?_, ((sound table).published view.rid).mp known.published⟩
  obtain ⟨⟨owner, kind⟩, member, rfl⟩ := known.held
  refine ⟨kind, (sound table).accounted.mem_held ?_ member⟩
  rw [idle]
  cases kind <;> rfl

/-- Fields that every schema caches are found. -/
theorem Db.Sound.fetch_cached {view : View τ} {name : table.Name} (sound : db.Sound config)
    (live : view ∈ (db.caches table).views) (cached : table.Cached name)
    : ∃ value, db.fetch config view table name = some value := by
  obtain ⟨place, said⟩ := Option.isSome_iff_exists.mp
    (cached (config.schema table) (config.padding table) (config.schema_table table))
  obtain ⟨location, found⟩ := ((sound table).consistent.views view live).located said
  exact ⟨_, by rw [Db.fetch, found, Option.map_some]⟩

/-- A field of the query is found. If no schema of the table drops it, its value is that of
the row.
-/
theorem Db.Sound.fetch {view : View τ} {name : table.Name} {names : List table.Name}
    {record : table.Record A} (sound : db.Sound config)
    (idle : (db.caches table).pc view.owner = .idle) (live : view ∈ (db.caches table).views)
    (query : view.query = config.query table names)
    (row : db.shared.rows table view.rid = some record)
    : Table.Reads record names name (db.fetch config view table name) := by
  refine ⟨fun asked => ?_,
    fun cached => Option.isSome_iff_exists.mpr (sound.fetch_cached live cached)⟩
  by_cases declared : table.field name ∈ (config.cache table).fields
  · have listed : table.field name ∈ view.query := by
      rw [query]
      exact List.mem_filter.mpr ⟨List.mem_map_of_mem asked, decide_eq_true declared⟩
    have bytes := (sound table).contents.fetch (fields_laws config table)
      (sound table).consistent idle live declared listed
    rw [Table.images, row, Table.read_image] at bytes
    refine ⟨record name, ?_, fun _ => rfl⟩
    obtain ⟨location, found, same⟩ := Option.map_eq_some_iff.mp bytes
    rw [Db.fetch, found, Option.map_some, same, FieldType.decode_encode]
  · have dropped : ¬table.Kept name :=
      fun kept => declared (TpccSchema.mem_keptFields (config.schema_table table) kept)
    obtain ⟨value, fetched⟩ := sound.fetch_cached live (TpccSchema.dropped_cached dropped)
    exact ⟨value, fetched, fun kept => absurd kept dropped⟩

/-- Writing the bytes of a field is writing the field. -/
theorem sameFields_update (config : DbConfig) (record : table.Record A) (name : table.Name)
    (value : (table.type name).Value A)
    : SameFields (config.cache table).fields
        (write (table.image record) (table.field name).span.start
          ((table.type name).encode value))
        (table.image (Function.update record name value)) := by
  intro field declared
  obtain ⟨other, rfl⟩ := TpccSchema.keptFields_name (config.schema_table table) declared
  rw [Table.read_image_write, Table.read_image]

theorem Db.Sound.getValueMut {names : List table.Name} {name : table.Name}
    {value : (table.type name).Value A} {caches : Table → CacheState τ}
    {answer : (Op.getValueMut table rid names name value).Answer} {rest : Remainder A}
    (sound : db.Sound config) (running : db.tasks t = some task)
    (idle : ∀ table, (db.caches table).pc t = .idle)
    (moved : db.single config t (.getValueMut table rid names name value) = some (caches, answer))
    : db.ledger.Answers config t (.getValueMut table rid names name value) answer
      ∧ (db.finish t task.toActivity caches ⟨.getValueMut table rid names name value, answer⟩
          rest).1.Sound config := by
  simp only [Db.single] at moved
  split at moved
  · cases moved
  · next view found =>
      obtain ⟨⟨cache, cacheEvent⟩, taken, same⟩ := Option.map_eq_some_iff.mp moved
      obtain ⟨rfl, rfl⟩ := Prod.mk.inj same
      obtain ⟨live, rfl, rfl, query⟩ := view?_live found
      obtain ⟨member, rfl, still⟩ := step_getValueMut taken
      obtain ⟨_, record, row⟩ := sound.viewed (idle table) live
      have writes : (view.rid, .write) ∈ db.ledger.held view.owner table :=
        (sound table).accounted.mem_held (by rw [idle table]; rfl) member
      refine ⟨⟨writes, record, row, sound.fetch (idle table) live query row⟩, ?_⟩
      · refine sound.did running (.inr rfl) (fun other _ => idle other) ?_
        refine (sound table).step (step_effect taken) ?_ ?_ (.inl (still.trans (idle table)))
        · intro other
          by_cases same : other = view.rid
          · subst same
            simp [CacheEvent.publishes, Shared.after, (sound table).published, row]
          · rw [Shared.after_rows (by simp [touched, Ne.symm same]), ← (sound table).published]
            rfl
        · intro other changed after
          by_cases same : other = view.rid
          · subst same
            obtain rfl : Function.update record name value = changed := by
              simpa [Shared.after, row] using after
            rw [CacheEvent.apply, if_pos rfl, Table.images, row]
            exact sameFields_update config record name value
          · rw [Shared.after_rows (by simp [touched, Ne.symm same])] at after
            rw [CacheEvent.apply, if_neg (Ne.symm same), Table.images, after]
            exact .refl _ _

theorem Db.Sound.drop {kind : GuardKind} {caches : Table → CacheState τ}
    {rest : Remainder A} (sound : db.Sound config) (running : db.tasks t = some task)
    (idle : ∀ table, (db.caches table).pc t = .idle)
    (moved : db.single config t (.drop table rid kind) = some (caches, ()))
    : db.ledger.Answers config t (.drop table rid kind) ()
      ∧ (db.finish t task.toActivity caches ⟨.drop table rid kind, ()⟩ rest).1.Sound
          config := by
  obtain ⟨⟨cache, cacheEvent⟩, taken, same⟩ := Option.map_eq_some_iff.mp moved
  obtain ⟨rfl, _⟩ := Prod.mk.inj same
  obtain ⟨member, rfl, still⟩ := step_drop taken
  refine ⟨(sound table).accounted.mem_held (by rw [idle table]; cases kind <;> rfl) member, ?_⟩
  refine sound.did running (.inr rfl) (fun other _ => idle other) ?_
  rw [guardsAfter_drop]
  exact (sound table).still (step_effect taken) (fun _ _ => rfl) rfl
    (.inl (still.trans (idle table)))

/-- An operation that takes one step answers as the ledger says. -/
theorem Db.Sound.single {caches : Table → CacheState τ} {answer : op.Answer}
    {rest : Remainder A} (sound : db.Sound config) (running : db.tasks t = some task)
    (idle : ∀ table, (db.caches table).pc t = .idle)
    (moved : db.single config t op = some (caches, answer))
    : db.ledger.Answers config t op answer
      ∧ (db.finish t task.toActivity caches ⟨op, answer⟩ rest).1.Sound config := by
  cases op with
  | getValue table rid names name =>
      obtain ⟨view, found, same⟩ := Option.map_eq_some_iff.mp moved
      obtain ⟨rfl, rfl⟩ := Prod.mk.inj same
      obtain ⟨live, rfl, rfl, query⟩ := view?_live found
      obtain ⟨holds, record, row⟩ := sound.viewed (idle table) live
      exact ⟨⟨holds, record, row, sound.fetch (idle table) live query row⟩,
        sound.plain running idle rfl⟩
  | getValueMut table rid names name value => exact sound.getValueMut running idle moved
  | drop table rid kind => exact sound.drop running idle moved
  | lock | read | readAndPromote | insert => cases moved
  | _ =>
      obtain ⟨rfl, rfl⟩ := Prod.mk.inj (Option.some.inj moved)
      exact ⟨rfl, sound.plain running idle rfl⟩

/-! ### Steps and runs -/

omit [DecidableEq τ] in
/-- The event that ends a call answers its operation. -/
theorem Op.answer?_of_returns {call : Call} (calls : op.Calls config table call)
    (returns : call.Returns cacheEvent)
    : op.answer? cacheEvent ≠ none := by
  cases call with
  | lock target lockOp =>
      obtain ⟨kind, rfl, rfl⟩ := calls
      obtain ⟨label, rfl, ends⟩ := returns
      cases kind with
      | read | write =>
          rcases ends with rfl | ⟨error, rfl⟩
          · simp [Op.answer?]
          · simp [Op.answer?]
  | query target fields =>
      obtain ⟨value, rfl⟩ := returns
      obtain ⟨names, rfl | rfl, _⟩ := calls
      · simp [Op.answer?]
      · simp [Op.answer?]
  | insert target val =>
      obtain ⟨record, rfl, _⟩ := calls
      obtain rfl := returns
      simp [Op.answer?]

/-- One step of a call: it goes on and shows nothing, or it returns. -/
theorem Db.Sound.goCall {onward : op.Answer → Remainder A} {choice : Bool}
    (sound : db.Sound config) (running : db.tasks t = some task)
    (calls : task.rest = .call op onward) (named : op.call config rid = some (table, move))
    (taken
      : cacheStep (config.cache table) (db.caches table)
          (t, if task.entered then .advance choice else move) = some (cache, cacheEvent))
    : (op.answer? cacheEvent = none
        → db.ledger.Moves config t
            ((db.setCache table cache).setTask t (some { task with entered := true })).ledger
            .pending
          ∧ ((db.setCache table cache).setTask t (some { task with entered := true })).Sound
              config)
      ∧ ∀ answer, op.answer? cacheEvent = some answer
        → db.ledger.Answers config t op answer
          ∧ (db.finish t task.toActivity (Function.update db.caches table cache) ⟨op, answer⟩
              (onward answer)).1.Sound config := by
  have others (other : Table) (different : other ≠ table) : (db.caches other).pc t = .idle :=
    sound.idle_of_calls running calls
      (fun call there => different (Op.calls_table named there))
  have effect := step_effect taken
  have quiet (inner : cacheEvent.isInner = true) (answer : op.Answer)
      : op.answer? cacheEvent ≠ some answer := by
    cases cacheEvent with
    | pending | placed => cases op <;> simp [Op.answer?]
    | _ => cases inner
  cases entered : task.entered with
  | false =>
      rw [entered] at taken
      obtain ⟨inner, call, at', is⟩ := Op.call_begins named taken
      refine ⟨fun _ => ?_, fun answer found => absurd found (quiet inner answer)⟩
      exact sound.pending running effect inner others
        (.inr ⟨_, op, onward, call, rfl, rfl, calls, at', is⟩)
  | true =>
      rw [entered] at taken
      rcases (sound table).inside t with idle | ⟨_, _, _, call, same, _, rest, at', is⟩
      · change (db.caches table).resume (config.cache table) t choice = _ at taken
        rw [CacheState.resume, idle] at taken
        cases taken
      · rw [running] at same
        cases same
        rw [calls] at rest
        cases rest
        rcases effect.call ((sound table).consistent.calls t) at' with ⟨on, inner⟩ | ⟨idle, returns⟩
        · refine ⟨fun _ => ?_, fun answer found => absurd found (quiet inner answer)⟩
          exact sound.pending running effect inner others
            (.inr ⟨_, op, onward, call, rfl, rfl, calls, on, is⟩)
        · refine ⟨fun unanswered => absurd unanswered (Op.answer?_of_returns is returns), ?_⟩
          exact fun answer found => sound.returns running is effect idle returns found others

theorem Db.Sound.go {choice : Bool} (sound : db.Sound config)
    (moved : db.go config t rid choice = some (next, event))
    : db.ledger.Moves config t next.ledger event ∧ next.Sound config := by
  unfold Db.go at moved
  split at moved
  · cases moved
  · next task running =>
      split at moved
      · next outcome ended =>
          rw [Option.ite_none_right_eq_some] at moved
          obtain ⟨free, same⟩ := moved
          obtain ⟨rfl, rfl⟩ := Prod.mk.inj (Option.some.inj same)
          have none' (table : Table) : guards table task.log = [] := free table table.mem_all
          refine ⟨?_, sound.setTask (sound.idle_of_ended running ended) ?_ (by simp)⟩
          · rw [ledger_setTask]
            exact .finish (ledger_active running) ended none'
          · intro table
            rw [Ledger.held_of_active (ledger_active running)]
            exact none' table
      · next op onward calls =>
          split at moved
          · next single =>
              obtain ⟨⟨caches, answer⟩, taken, same⟩ := Option.map_eq_some_iff.mp moved
              obtain ⟨rfl, rfl⟩ := Prod.mk.inj same
              have idle (table : Table) : (db.caches table).pc t = .idle :=
                sound.idle_of_calls running calls (Op.not_calls single)
              obtain ⟨answers, kept⟩ := sound.single running idle taken
              exact ⟨moves_finish running calls answers, kept⟩
          · next table move named =>
              split at moved
              · cases moved
              · next cache cacheEvent taken =>
                  obtain ⟨goes, ends⟩ := sound.goCall running calls named taken
                  split at moved
                  · next unanswered =>
                      obtain ⟨rfl, rfl⟩ := Prod.mk.inj (Option.some.inj moved)
                      exact goes unanswered
                  · next answer found =>
                      obtain ⟨rfl, rfl⟩ := Prod.mk.inj (Option.some.inj moved)
                      obtain ⟨answers, kept⟩ := ends answer found
                      exact ⟨moves_finish running calls answers, kept⟩

/-- Moving a clock hand shows nowhere. -/
theorem Db.Sound.shift (sound : db.Sound config) (t : τ) (table : Table) (hand : τ → Nat)
    : (db.setCache table { db.caches table with hand }).Sound config := by
  intro other
  change SoundAt config other (Function.update db.caches table _ other) (db.shared.rows other)
    (fun thread => db.ledger.held thread other) db.tasks
  by_cases same : other = table
  · subst same
    rw [Function.update_self]
    exact
      { consistent := (sound other).consistent.shift t hand
        contents := (sound other).contents.shift hand
        published := (sound other).published
        accounted := (sound other).accounted
        inside := (sound other).inside }
  · rw [Function.update_of_ne same]
    exact sound other

/-- Every step of the database is a step of its ledger. -/
theorem Db.Sound.step {action : τ × DbMove A} (sound : db.Sound config)
    (taken : dbStep config db action = some (next, event))
    : db.ledger.Moves config action.1 next.ledger event ∧ next.Sound config := by
  obtain ⟨t, move⟩ := action
  change db.step config t move = some (next, event) at taken
  cases move with
  | go rid choice => exact sound.go taken
  | begin txn =>
      simp only [Db.step] at taken
      split at taken
      · next idle =>
          obtain ⟨rfl, rfl⟩ := Prod.mk.inj (Option.some.inj taken)
          have absent : db.ledger.active t = none := congrArg (Option.map Task.toActivity) idle
          refine ⟨?_, sound.setTask ?_ ?_ ?_⟩
          · rw [ledger_setTask]
            exact .begin absent
          · intro table
            rcases (sound table).inside t with resting | ⟨_, _, _, _, running, _⟩
            · exact resting
            · rw [idle] at running
              cases running
          · intro table
            rw [Ledger.held, absent]
          · rintro table _ ⟨⟩
            rfl
      · cases taken
  | release table rid kind =>
      simp only [Db.step] at taken
      split at taken
      · cases taken
      · next task running =>
          split at taken
          · cases taken
          · next outcome ended =>
              rw [Option.ite_none_right_eq_some] at taken
              obtain ⟨member, moved⟩ := taken
              obtain ⟨⟨caches, _⟩, dropped, same⟩ := Option.map_eq_some_iff.mp moved
              obtain ⟨rfl, rfl⟩ := Prod.mk.inj same
              refine ⟨?_, (sound.drop running (sound.idle_of_ended running ended) dropped).2⟩
              change db.ledger.Moves config t
                (db.finish t task.toActivity _ _ _).1.ledger _
              rw [ledger_finish]
              exact .release (ledger_active running) ended member
  | shift table hand =>
      obtain ⟨rfl, rfl⟩ := Prod.mk.inj (Option.some.inj taken)
      exact ⟨.rest, sound.shift t table _⟩

theorem empty_sound (storage : Table → Rid → Image Byte) (hand : Table → τ → Nat)
    : (Db.empty storage hand : Db A τ).Sound config := by
  intro table
  exact
    { consistent := init_consistent (storage table) (hand table)
      contents := fun rid member => (List.not_mem_nil member).elim
      published := fun rid => by simp [Db.empty, CacheState.init, Shared.empty]
      accounted := fun thread rid kind => by cases kind <;> rfl
      inside := fun _ => .inl rfl }

/-- Every run of the database is a run of its ledger. -/
theorem ledger_run {storage : Table → Rid → Image Byte} {hand : Table → τ → Nat}
    {trace : List ((τ × DbMove A) × DbEvent A)}
    (run : Interleaving.Run (dbStep config) (Db.empty storage hand) trace db)
    : db.Sound config ∧ Ledger.Run config (history trace) db.ledger := by
  induction run with
  | start => exact ⟨empty_sound storage hand, .start⟩
  | extend earlier taken ih =>
      obtain ⟨sound, past⟩ := ih
      obtain ⟨moves, kept⟩ := sound.step taken
      refine ⟨kept, ?_⟩
      rw [history, List.map_append]
      exact past.extend moves

/-! ### Records as they are seen through the caches -/

/-- Cache and storage of a table together hold this record. -/
def Db.Shows (config : DbConfig) (db : Db A τ) (table : Table) (rid : Rid)
    (record : table.Record A)
    : Prop :=
  rid ∈ (db.caches table).published
  ∧ Content (config.cache table) (db.caches table) rid (table.image record)

/-- Every row is shown. -/
theorem Db.Sound.shows_row {record : table.Record A} (sound : db.Sound config)
    (row : db.shared.rows table rid = some record)
    : db.Shows config table rid record := by
  have published := ((sound table).published rid).mpr ⟨record, row⟩
  have content := (sound table).contents rid published
  rw [Table.images, row] at content
  exact ⟨published, content⟩

/-- What is shown is a row, up to fields that a schema drops. -/
theorem Db.Sound.shows {record : table.Record A} (sound : db.Sound config)
    (shows : db.Shows config table rid record)
    : ∃ row, db.shared.rows table rid = some row
      ∧ ∀ name, table.Kept name → record name = row name := by
  obtain ⟨published, content⟩ := shows
  obtain ⟨row, here⟩ := ((sound table).published rid).mp published
  refine ⟨row, here, fun name kept => ?_⟩
  have same := content.unique (sound table).consistent published (sound.shows_row here).2
    (table.field name) (TpccSchema.mem_keptFields (config.schema_table table) kept)
  rw [Table.read_image, Table.read_image] at same
  have decoded := congrArg ((table.type name).decode (A := A)) same
  rwa [FieldType.decode_encode, FieldType.decode_encode] at decoded

end Machine

end Alchemy.Tpcc
