import Alchemy.Cache.Transparency
import Alchemy.Tpcc.Transactions

/-! `TpccWorkload` under many tasks: seven cached tables, their indexes and the two extra ones.
A task runs one transaction after the other. Each step of a task is one atomic step of a cache,
of a word or of an index; a call of a cache takes many.
-/

namespace Alchemy.Tpcc

open ByteImage Cache Oid Interaction Interleaving

/-! ### Configuration and state -/

/-- A schema for each table, the sizes of its cache, and what is left to the compiler and to
the index: the padding of cached records, and what a scan returns.
-/
structure DbConfig where
  schema : Table → TpccSchema
  schema_table : ∀ table, (schema table).table = table
  padding : Table → Image Byte
  capacity : Table → Nat
  capacity_pos : ∀ table, 0 < capacity table
  capacity_u32 : ∀ table, capacity table < 2 ^ 32
  probeLen : Table → Nat
  scan : IndexScan

/-- The cache of a table. Its declared fields are those that obey the lens laws. -/
def DbConfig.cache (config : DbConfig) (table : Table) : CacheConfig where
  capacity := config.capacity table
  probeLen := config.probeLen table
  schema := (config.schema table).schema (config.padding table)
  fields := (config.schema table).keptFields
  capacity_pos := config.capacity_pos table
  capacity_u32 := config.capacity_u32 table

/-- Caches with room for one whole tuple of each table. -/
def DbConfig.wholeTuples (closed : Bool) : DbConfig where
  schema
    | .warehouse => .warehouseTuple
    | .district => .districtTuple
    | .customer => .customerTuple
    | .item => .itemTuple
    | .stock => .stockTuple
    | .order => .orderTuple
    | .orderLine => .orderLineTuple
  schema_table := by intro table; cases table <;> rfl
  padding := fun _ _ => 0
  capacity := fun _ => 1
  capacity_pos := fun _ => Nat.one_pos
  capacity_u32 := fun _ => Nat.one_lt_two_pow (by decide)
  probeLen := fun _ => 1
  scan := .sorted closed

variable {A τ : Type} [Money A] [DecidableEq τ]

/-- What is left of a transaction. -/
abbrev Remainder (A : Type) := Prog (Op.Answer (A := A)) (Except Stop Unit)

/-- A running transaction: the operations that have returned, newest first, and what is left
to do.
-/
structure Activity (A : Type) [Money A] where
  txn : Transaction A
  log : List (Step A)
  rest : Remainder A

/-- A task inside a transaction; `entered` while it is inside a call of a cache. -/
structure Task (A : Type) [Money A] extends Activity A where
  entered : Bool

structure Db (A τ : Type) [Money A] where
  caches : Table → CacheState τ
  shared : Shared A
  tasks : τ → Option (Task A)

/-- Before `load`: empty caches over any storage. -/
def Db.empty (storage : Table → Rid → Image Byte) (hand : Table → τ → Nat) : Db A τ where
  caches := fun table => .init (storage table) (hand table)
  shared := .empty
  tasks := fun _ => none

/-- A task begins a transaction, takes its next step, releases a guard at the end of its
transaction, or finds the clock hand of a cache moved by another task of its thread. `rid` is
the record that an insertion allocates, `choice` the coin of the cache.
-/
inductive DbMove (A : Type) [Money A]
  | begin (txn : Transaction A)
  | go (rid : Rid) (choice : Bool)
  | release (table : Table) (rid : Rid) (kind : GuardKind)
  | shift (table : Table) (hand : Nat)

inductive DbEvent (A : Type) [Money A]
  | pending
  | began (txn : Transaction A)
  | did (step : Step A)
  | returned (txn : Transaction A) (log : List (Step A)) (outcome : Except Stop Unit)

/-! ### Operations on the machine -/

/-- `try_read` and `try_write` -/
def tryOp : GuardKind → LockOp
  | .read => .tryRead
  | .write => .tryWrite

/-- The fields of a query, without those that every schema of the table caches and one of them
does not write back; they leave `matches` as it is.
-/
def DbConfig.query (config : DbConfig) (table : Table) (names : List table.Name) : List Field :=
  (names.map table.field).filter (fun field => field ∈ (config.cache table).fields)

/-- The call of a cache that an operation is, if it is one. -/
def Op.call (config : DbConfig) (rid : Rid) : Op A → Option (Table × CacheMove τ)
  | .lock table target kind => some (table, .lock target (tryOp kind))
  | .read table target names => some (table, .read target (config.query table names))
  | .readAndPromote table target names =>
      some (table, .readAndPromote target (config.query table names))
  | .insert table record => some (table, .insert rid (table.image record))
  | _ => none

/-- The answer of a call that ends with this event. -/
def Op.answer? : (op : Op A) → CacheEvent → Option op.Answer
  | .lock _ _ _, .locked _ (.granted _) => some (.ok ())
  | .lock _ _ _, .locked _ (.failed error) => some (.error error)
  | .read _ _ _, .viewed _ _ _ => some ()
  | .readAndPromote _ _ _, .viewed _ _ _ => some ()
  | .insert _ _, .inserted rid _ => some rid
  | _, _ => none

namespace Db

def setCache (db : Db A τ) (table : Table) (cache : CacheState τ) : Db A τ :=
  { db with caches := Function.update db.caches table cache }

def setTask (db : Db A τ) (t : τ) (task : Option (Task A)) : Db A τ :=
  { db with tasks := Function.update db.tasks t task }

/-- The query value of a task for a record and a query. -/
def view? (config : DbConfig) (db : Db A τ) (t : τ) (table : Table) (rid : Rid)
    (names : List table.Name)
    : Option (View τ) :=
  (db.caches table).views.find?
    (fun view => view.owner = t ∧ view.rid = rid ∧ view.query = config.query table names)

/-- The field a query value refers to; `none` is the failing `expect`. -/
def fetch (config : DbConfig) (db : Db A τ) (view : View τ) (table : Table) (name : table.Name)
    : Option ((table.type name).Value A) :=
  (view.value.locate (config.cache table).schema (table.field name)).map
    (fun location =>
      (table.type name).decode ((db.caches table).fetch (table.field name).size location))

/-- An operation that is a single step: the caches after it and its answer. -/
def single (config : DbConfig) (db : Db A τ) (t : τ)
    : (op : Op A) → Option ((Table → CacheState τ) × op.Answer)
  | .get table key => some (db.caches, (db.shared.index table)[key]?)
  | .getValue table rid names name =>
      (db.view? config t table rid names).map (fun view =>
        (db.caches, db.fetch config view table name))
  | .getValueMut table rid names name value =>
      match db.view? config t table rid names with
      | none => none
      | some view =>
          (cacheStep (config.cache table) (db.caches table)
            (t, .getValueMut view (table.field name) ((table.type name).encode value))).map
            (fun moved =>
              (Function.update db.caches table moved.1, db.fetch config view table name))
  | .drop table rid kind =>
      (cacheStep (config.cache table) (db.caches table) (t, .drop rid kind)).map
        (fun moved => (Function.update db.caches table moved.1, ()))
  | .indexInsert table key _ => some (db.caches, (db.shared.index table)[key]?)
  | .range table low high length =>
      some (db.caches,
        (config.scan.range (db.shared.index table) low high length).map Prod.snd)
  | .lastNameInsert key _ => some (db.caches, db.shared.cLastIdx[key]?)
  | .lastNameRange low high length =>
      some (db.caches, (config.scan.range db.shared.cLastIdx low high length).map Prod.snd)
  | .newOrderInsert key _ => some (db.caches, db.shared.newOrder[key]?)
  | .newOrderRange low high length =>
      some (db.caches, config.scan.range db.shared.newOrder low high length)
  | .newOrderRemove key => some (db.caches, db.shared.newOrder[key]?)
  | _ => none

/-- A task logs a returned operation and goes on. -/
def finish (db : Db A τ) (t : τ) (activity : Activity A) (caches : Table → CacheState τ)
    (step : Step A) (rest : Remainder A)
    : Db A τ × DbEvent A :=
  ({ caches
     shared := db.shared.after step
     tasks :=
      Function.update db.tasks t
        (some { txn := activity.txn, log := step :: activity.log, rest, entered := false }) },
    .did step)

/-- The next step of a task. -/
def go (config : DbConfig) (db : Db A τ) (t : τ) (rid : Rid) (choice : Bool)
    : Option (Db A τ × DbEvent A) :=
  match db.tasks t with
  | none => none
  | some task =>
      match task.rest with
      | .pure outcome =>
          if ∀ table ∈ Table.all, guards table task.log = [] then
            some (db.setTask t none, .returned task.txn task.log outcome)
          else none
      | .call op next =>
          match op.call config rid with
          | none =>
              (db.single config t op).map (fun moved =>
                db.finish t task.toActivity moved.1 ⟨op, moved.2⟩ (next moved.2))
          | some (table, move) =>
              match cacheStep (config.cache table) (db.caches table)
                (t, if task.entered then .advance choice else move) with
              | none => none
              | some (cache, event) =>
                  match op.answer? event with
                  | none =>
                      some ((db.setCache table cache).setTask t
                        (some { task with entered := true }), .pending)
                  | some answer =>
                      some (db.finish t task.toActivity (Function.update db.caches table cache)
                        ⟨op, answer⟩ (next answer))

/-- One step of task `t`. -/
def step (config : DbConfig) (db : Db A τ) (t : τ) : DbMove A → Option (Db A τ × DbEvent A)
  | .begin txn =>
      match db.tasks t with
      | none =>
          some (db.setTask t (some { txn, log := [], rest := txn.program, entered := false }),
            .began txn)
      | some _ => none
  | .go rid choice => db.go config t rid choice
  | .release table rid kind =>
      match db.tasks t with
      | none => none
      | some task =>
          match task.rest with
          | .call _ _ => none
          | .pure _ =>
              if (rid, kind) ∈ guards table task.log then
                (db.single config t (.drop table rid kind)).map (fun moved =>
                  db.finish t task.toActivity moved.1 ⟨.drop table rid kind, ()⟩ task.rest)
              else none
  | .shift table hand =>
      some (db.setCache table
        { db.caches table with hand := Function.update (db.caches table).hand t hand }, .pending)

end Db

/-- The step function of the whole database; an action names its task. -/
def dbStep (config : DbConfig) (db : Db A τ) (action : τ × DbMove A)
    : Option (Db A τ × DbEvent A) :=
  db.step config action.1 action.2

/-- Who did what. -/
abbrev History (A τ : Type) [Money A] := List (τ × DbEvent A)

/-- The history a trace tells. -/
def history (trace : List ((τ × DbMove A) × DbEvent A)) : History A τ :=
  trace.map (fun entry => (entry.1.1, entry.2))

/-! ### The first rows of a small database -/

def firstWarehouse : WarehouseRow UInt64 where
  record := Function.update Table.warehouse.zeroed .wYtd (300000 • (Money.one : UInt64) : UInt64)
  wId := by decide
  wYtd := Function.update_self ..

def firstDistrict : DistrictRow UInt64 where
  record
    | .dYtd => (30000 • (Money.one : UInt64) : UInt64)
    | .dNextOId => (3001 : UInt64)
    | field => Table.district.zeroed field
  dId := by decide
  dWId := by decide
  dYtd := rfl
  dNextOId := rfl

def firstCustomer : CustomerRow UInt64 where
  record
    | .cMiddle => ⟨textOE, by decide⟩
    | .cDiscount => (1 : UInt64)
    | .cCreditLim => (50000 • (Money.one : UInt64) : UInt64)
    | .cBalance => (-(10 • (Money.one : UInt64)) : UInt64)
    | .cYtdPayment => (10 • (Money.one : UInt64) : UInt64)
    | .cPaymentCnt => (1 : UInt32)
    | field => Table.customer.zeroed field
  seed := 0
  cId := by decide
  cDId := by decide
  cWId := by decide
  seed_lt := by decide
  cMiddle := rfl
  cCreditLim := rfl
  cBalance := rfl
  cYtdPayment := rfl
  cPaymentCnt := rfl
  cDeliveryCnt := rfl

def itemRow (iId : Fin itemScale) : ItemRow UInt64 where
  record
    | .iId => (iId.val.toUInt64 : UInt64)
    | .iPrice => (3 : UInt64)
    | field => Table.item.zeroed field
  iId := Nat.lt_of_le_of_lt (Nat.mod_le ..) iId.isLt

def stockRow (iId : Fin itemScale) : StockRow UInt64 where
  record
    | .sIId => (iId.val.toUInt64 : UInt64)
    | .sQuantity => (50 : UInt64)
    | field => Table.stock.zeroed field
  sIId := Nat.lt_of_le_of_lt (Nat.mod_le ..) iId.isLt
  sWId := firstWarehouse.wId
  sQuantity_ge := (by decide : 10 ≤ (50 : UInt64).toNat)
  sQuantity_le := (by decide : (50 : UInt64).toNat ≤ 100)
  sYtd := rfl
  sOrderCnt := rfl
  sRemoteCnt := rfl

/-- Load the rows that an order of these items reads. -/
def loadRows (iIds : List (Fin itemScale)) : List (Transaction UInt64) :=
  [.loadWarehouse firstWarehouse, .loadDistrict firstDistrict, .loadCustomer firstCustomer]
    ++ iIds.flatMap (fun iId => [.loadItem (itemRow iId), .loadStock (stockRow iId)])

def firstItems : List (Fin itemScale) :=
  (List.finRange 5).map (Fin.castLE (by decide))

/-- Five pieces of each of the first five items. -/
def firstNewOrder : NewOrderInput where
  wId := 0
  dId := 0
  cId := 0
  olCnt := 5
  orders := (List.range 15).map (fun iId => ⟨UInt32.ofNat iId, 0, 5⟩)
  oEntryD := 0
  allLocal := true
  orders_length := by decide
  olCnt_le := by decide

/-- A payment to the first customer. -/
def firstPayment (hAmount : UInt64) : PaymentInput UInt64 where
  wId := 0
  dId := 0
  cWId := 0
  cDId := 0
  cQuery := .id 0
  hAmount
  hDate := 0

/-- The first order of a new database. -/
def placeFirst : List (Transaction UInt64) :=
  loadRows firstItems ++ [.newOrder firstNewOrder]

/-! ### Scripts -/

/-- The next move of a task that goes on: a record that it inserts gets the next number, and in the
end it releases its guards.
-/
def Db.nextMove (db : Db A τ) (task : Task A) : DbMove A :=
  match task.rest with
  | .call (.insert table _) _ => .go (BitVec.ofNat 32 (db.shared.index table).size) false
  | .call _ _ => .go 0 false
  | .pure _ =>
      match Table.all.findSome? (fun table =>
        (guards table task.log).head?.map (fun guard => (table, guard))) with
      | some (table, rid, kind) => .release table rid kind
      | none => .go 0 false

/-- Some steps of some tasks. -/
abbrev Script (A τ : Type) [Money A] := List ((Db A τ → Option (τ × DbMove A)) × Nat)

/-- The task goes on with its transaction. -/
def goesOn (t : τ) (steps : Nat) : Script A τ :=
  [(fun db => (db.tasks t).map (fun task => (t, db.nextMove task)), steps)]

/-- The task begins a transaction. -/
def begins (t : τ) (txn : Transaction A) (steps : Nat) : Script A τ :=
  (fun _ => some (t, .begin txn), 1) :: goesOn t steps

/-- The task runs whole transactions, one after the other. -/
def runs (t : τ) (txns : List (Transaction A)) : Script A τ :=
  txns.flatMap (fun txn => begins t txn 1000)

/-- What comes of a script. -/
def Db.play (db : Db UInt64 τ) (script : Script UInt64 τ)
    : Option (Db UInt64 τ × List ((τ × DbMove UInt64) × DbEvent UInt64)) :=
  direct (dbStep (.wholeTuples false)) script db []

theorem Db.play_reaches {db : Db UInt64 τ} {script : Script UInt64 τ}
    (test : Db UInt64 τ × List ((τ × DbMove UInt64) × DbEvent UInt64) → Bool)
    (passed : (db.play script).any test = true)
    : ∃ trace last, Run (dbStep (.wholeTuples false)) db trace last
      ∧ test (last, trace) = true :=
  direct_reaches .start test passed

/-- What comes of it in a new database. -/
theorem play_reaches (script : Script UInt64 τ)
    (test : Db UInt64 τ × List ((τ × DbMove UInt64) × DbEvent UInt64) → Bool)
    (passed : ((Db.empty (fun _ _ _ => 0) (fun _ _ => 0)).play script).any test = true)
    : ∃ trace last, Run (dbStep (.wholeTuples false)) (Db.empty (fun _ _ _ => 0) (fun _ _ => 0))
        trace last
      ∧ test (last, trace) = true :=
  Db.play_reaches test passed

end Alchemy.Tpcc
