import SniperBot.Basis.Buffers
import SniperBot.Events.Delivery
import SniperBot.Features.Registry
import Mathlib.Data.List.Sort
import Mathlib.Data.Finset.Sort
import Mathlib.Data.String.Basic

/-!
# Coalesced state writes

`event_state_batch_transaction`, `_stage_upsert` and `_flush_event_state_batch` (`database.py`).
Inside the transaction an upsert, a context update or a processed mark only enters a buffer; the
flush writes every buffer out in few statements. Outside, the same calls execute one statement
each.

A row is a function from columns to values, `none` being NULL, and a table one from identities,
the values of its key columns, to rows. PostgreSQL checks the foreign keys of a statement when it
ends; SQLite, which the program opens without `PRAGMA foreign_keys`, does not. What else a column
accepts is a parameter of the schema.

There is one raw row for an event id, since `record_events` inserts it together with the claim.
-/

namespace SniperBot.Events

open Basis Features

/-! ## Tables -/

/-- The models of the upserts that a batch stages. -/
inductive UpsertModel
  | tokenRow | poolRow | candidateRow | walletProfileRow | walletRelationRow
  deriving DecidableEq, Repr

/-- The `keys` that the callers of `_upsert` pass. -/
def UpsertModel.keys : UpsertModel → List String
  | .tokenRow => ["mint"]
  | .poolRow => ["pool_address"]
  | .candidateRow => ["id"]
  | .walletProfileRow => ["wallet_address"]
  | .walletRelationRow => ["wallet_a", "wallet_b"]

/-- The columns of the `values` that the callers of `_upsert` build; each table has no others. -/
def UpsertModel.columns : UpsertModel → List String
  | .tokenRow =>
      ["mint", "token_program", "name", "symbol", "decimals", "total_supply_raw",
        "creator_address", "creation_signature", "creation_slot", "creation_time", "metadata_uri",
        "metadata_mutable", "enrichment_json", "enriched_at", "first_seen_at", "updated_at"]
  | .poolRow =>
      ["pool_address", "mint", "protocol", "quote_mint", "base_vault", "quote_vault",
        "creation_signature", "creation_slot", "creation_time", "migration_signature", "status",
        "updated_at"]
  | .candidateRow =>
      ["id", "mint", "pool_address", "state", "detected_at", "eligible_at", "armed_at",
        "expired_at", "rejected_at", "reject_reason", "strategy_version_id", "config_hash",
        "runtime_state_json"]
  | .walletProfileRow =>
      ["wallet_address", "first_seen_at", "initial_funder", "funding_signature", "known_creator",
        "tokens_created", "tokens_traded", "tokens_created_7d", "tokens_created_30d",
        "tokens_reaching_pumpswap", "tokens_reaching_2x_executable", "tokens_with_liquidity_rug",
        "tokens_with_dev_dump_5m", "median_peak_return", "median_token_lifetime_seconds",
        "median_dev_sell_delay_seconds", "last_token_created_at", "known_funding_cluster",
        "profile_updated_at"]
  | .walletRelationRow =>
      ["wallet_a", "wallet_b", "relation_score", "relation_types_json", "first_detected_at",
        "last_detected_at"]

theorem keys_subset_columns (model : UpsertModel) : ∀ key ∈ model.keys, key ∈ model.columns := by
  cases model <;> decide

/-- What a foreign key refers to: a table of the batch, or `strategy_versions`. -/
inductive Reference
  | table (model : UpsertModel)
  | strategyVersions
  deriving DecidableEq

/-- The `ForeignKey` columns of `db_models.py`. -/
def UpsertModel.foreignKeys : UpsertModel → List (String × Reference)
  | .poolRow => [("mint", .table .tokenRow)]
  | .candidateRow =>
      [("mint", .table .tokenRow), ("pool_address", .table .poolRow),
        ("strategy_version_id", .strategyVersions)]
  | .tokenRow => []
  | .walletProfileRow => []
  | .walletRelationRow => []

/-- The second model refers to the first one. -/
def UpsertModel.IsParentOf (parent child : UpsertModel) : Prop :=
  ∃ reference ∈ child.foreignKeys, reference.2 = .table parent

instance (parent child : UpsertModel) : Decidable (parent.IsParentOf child) := by
  unfold UpsertModel.IsParentOf
  infer_instance

theorem not_isParentOf_self (model : UpsertModel) : ¬ model.IsParentOf model := by
  cases model <;> decide

/-- `TABLE_DEPENDENCY_ORDER`: the positions in `Base.metadata.sorted_tables`, which lists a table
after the tables it refers to. -/
structure DependencyOrder where
  index : UpsertModel → Nat
  injective : Function.Injective index
  parents : ∀ parent child : UpsertModel, parent.IsParentOf child → index parent < index child

/-- `values: dict[str, Any]` -/
abbrev Values (γ : Type) := String → Option γ

/-- `tuple(values[key] for key in key_tuple)` -/
def UpsertModel.identity {γ : Type} (model : UpsertModel) (values : Values γ) : List (Option γ) :=
  model.keys.map values

/-- The rows of a table, each under its identity. -/
@[ext]
structure Table (γ : Type) (model : UpsertModel) where
  row : List (Option γ) → Option (Values γ)
  keyed : ∀ identity values, row identity = some values → model.identity values = identity
  columns : ∀ identity values, row identity = some values →
    ∀ column, column ∉ model.columns → values column = none

section Upsert

variable {γ : Type} {model : UpsertModel}

/-- The row that `INSERT` stores. -/
def UpsertModel.inserted (model : UpsertModel) (values : Values γ) : Values γ := fun column =>
  if column ∈ model.columns then values column else none

/-- The row that `ON CONFLICT DO UPDATE` leaves: every column but the keys is taken over. -/
def UpsertModel.updated (model : UpsertModel) (old values : Values γ) : Values γ := fun column =>
  if column ∈ model.columns ∧ column ∉ model.keys then values column else old column

theorem identity_inserted (values : Values γ) :
    model.identity (model.inserted values) = model.identity values :=
  List.map_congr_left fun key hkey => if_pos (keys_subset_columns model key hkey)

variable [DecidableEq γ]

/-- The rows after `INSERT … ON CONFLICT DO UPDATE` with the values of one row. -/
def Table.upsertRow (table : Table γ model) (values : Values γ) :
    List (Option γ) → Option (Values γ) :=
  Function.update table.row (model.identity values)
    (match table.row (model.identity values) with
    | none => some (model.inserted values)
    | some old => some (model.updated old values))

/-- Since the values cover all columns, nothing of an old row is left. -/
theorem Table.upsertRow_eq (table : Table γ model) (values : Values γ) :
    table.upsertRow values =
      Function.update table.row (model.identity values) (some (model.inserted values)) := by
  unfold Table.upsertRow
  congr 1
  split
  · rfl
  · rename_i old hold
    congr 1
    funext column
    unfold UpsertModel.updated UpsertModel.inserted
    by_cases hcolumn : column ∈ model.columns
    · by_cases hkey : column ∈ model.keys
      · rw [if_neg fun hboth => hboth.2 hkey, if_pos hcolumn]
        exact List.map_inj_left.mp (table.keyed _ old hold) column hkey
      · rw [if_pos ⟨hcolumn, hkey⟩, if_pos hcolumn]
    · rw [if_neg fun hboth => hcolumn hboth.1, if_neg hcolumn]
      exact table.columns _ old hold column hcolumn

/-- One row of an upsert statement. -/
def Table.upsert (table : Table γ model) (values : Values γ) : Table γ model where
  row := table.upsertRow values
  keyed := by
    intro identity row hrow
    rw [Table.upsertRow_eq, Function.update_apply] at hrow
    split at hrow
    · rename_i heq
      cases hrow
      rw [identity_inserted, heq]
    · exact table.keyed identity row hrow
  columns := by
    intro identity row hrow column hcolumn
    rw [Table.upsertRow_eq, Function.update_apply] at hrow
    split at hrow
    · cases hrow
      exact if_neg hcolumn
    · exact table.columns identity row hrow column hcolumn

end Upsert

/-! ## Statements -/

/-- The columns of `raw_chain_events` that a context update reads and writes. -/
structure RawContext where
  blockDate : Int
  mint : Option String
  poolAddress : Option String
  deriving DecidableEq

/-- `block_time.date()`, in days since the epoch -/
def date (time : Time) : Int := time / seconds 86400

structure StateDb (γ : Type) where
  contexts : Dict String RawContext
  claims : EventDb
  tables : (model : UpsertModel) → Table γ model
  strategyVersions : List γ

/-- What the columns of a table accept: types, lengths and NOT NULL. -/
structure Schema (γ : Type) where
  accepts : UpsertModel → Values γ → Bool

inductive StateError
  /-- an update met another number of raw rows than requested -/
  | rawContext
  /-- a row breaks a constraint of its table -/
  | integrity
  /-- `event processing claim was superseded` -/
  | superseded
  /-- `event claim token is missing` -/
  | tokenMissing
  /-- a statement fails for a reason outside the batch -/
  | connection
  deriving DecidableEq

/-- The mark of an event: its id, claim token and time. -/
structure ProcessedMark where
  eventId : String
  token : Nat
  processedAt : Time
  deriving DecidableEq

inductive Statement (γ : Type)
  | rawContexts (events : List EventEnvelope)
  | upsertRows (model : UpsertModel) (rows : List (Values γ))
  | markProcessed (marks : List ProcessedMark)

section Execute

variable {γ : Type} [DecidableEq γ]

/-- The raw row of the event, under the date of its block. -/
def StateDb.HasRaw (db : StateDb γ) (event : EventEnvelope) : Prop :=
  ∃ row ∈ db.contexts.get? event.eventId, row.blockDate = date event.blockTime

instance (db : StateDb γ) (event : EventEnvelope) : Decidable (db.HasRaw event) := by
  unfold StateDb.HasRaw
  infer_instance

def RawContext.update (event : EventEnvelope) (row : RawContext) : RawContext :=
  { row with mint := event.mint, poolAddress := event.poolAddress }

/-- The parent that a value of a foreign-key column names. -/
def StateDb.HasParent (db : StateDb γ) (reference : Reference) (value : γ) : Prop :=
  match reference with
  | .table parent => ((db.tables parent).row [some value]).isSome = true
  | .strategyVersions => value ∈ db.strategyVersions

instance (db : StateDb γ) (reference : Reference) (value : γ) :
    Decidable (db.HasParent reference value) := by
  unfold StateDb.HasParent
  split <;> infer_instance

/-- The foreign keys of a row, which only PostgreSQL checks. -/
def StateDb.References (db : StateDb γ) (dialect : Dialect) (model : UpsertModel)
    (values : Values γ) : Prop :=
  dialect = .postgresql → ∀ reference ∈ model.foreignKeys, ∀ value ∈ values reference.1,
    db.HasParent reference.2 value

instance (db : StateDb γ) (dialect : Dialect) (model : UpsertModel) (values : Values γ) :
    Decidable (db.References dialect model values) := by
  unfold StateDb.References
  infer_instance

/-- The claim is in `PROCESSING` under the token of the mark. -/
def EventDb.Holds (db : EventDb) (mark : ProcessedMark) : Prop :=
  ∃ row ∈ db.dedup.get? mark.eventId, row.status = .processing ∧ row.token = some mark.token

instance (db : EventDb) (mark : ProcessedMark) : Decidable (db.Holds mark) := by
  unfold EventDb.Holds
  infer_instance

/-- The tables with rows upserted into one of them. -/
def StateDb.upsertRows (db : StateDb γ) (model : UpsertModel) (rows : List (Values γ)) :
    StateDb γ :=
  { db with tables := Function.update db.tables model (rows.foldl Table.upsert (db.tables model)) }

/-- The raw rows with the contexts of events written into them. -/
def StateDb.updateContexts (db : StateDb γ) (events : List EventEnvelope) : StateDb γ :=
  { db with
    contexts := events.foldl (fun rows event =>
      rows.update event.eventId (RawContext.update event)) db.contexts }

/-- `max(claims[event_id][1] for event_id in event_id_chunk)` -/
def latest (marks : List ProcessedMark) : Time :=
  ((marks.map ProcessedMark.processedAt).max?).getD 0

/-- The claims settled by one statement, all at the latest of their times. -/
def StateDb.settleMarks (db : StateDb γ) (marks : List ProcessedMark) : StateDb γ :=
  { db with
    claims := db.claims.settleBatch .processed (latest marks) (marks.map ProcessedMark.eventId) }

def Statement.execute (schema : Schema γ) (dialect : Dialect) (db : StateDb γ) :
    Statement γ → Except StateError (StateDb γ)
  | .rawContexts events =>
      if ∀ event ∈ events, db.HasRaw event then .ok (db.updateContexts events)
      else .error .rawContext
  | .upsertRows model rows =>
      let written := db.upsertRows model rows
      if ∀ values ∈ rows, schema.accepts model values = true ∧
          written.References dialect model values then
        .ok written
      else .error .integrity
  | .markProcessed marks =>
      if ∀ mark ∈ marks, db.claims.Holds mark then .ok (db.settleMarks marks)
      else .error .superseded

/-- The statements of a session, from statement `n` on; `fault` says which ones fail for a reason
outside the batch. -/
def executeAll (schema : Schema γ) (dialect : Dialect) (fault : Nat → Bool) :
    Nat → List (Statement γ) → StateDb γ → Except StateError (StateDb γ)
  | _, [], db => .ok db
  | n, statement :: rest, db =>
      if fault n = true then .error .connection
      else (statement.execute schema dialect db).bind
        (executeAll schema dialect fault (n + 1) rest)

end Execute

/-! ## Calls -/

/-- What a call of the batch asks for. -/
inductive StateCall (γ : Type)
  | upsert (model : UpsertModel) (values : Values γ)
  | updateRawEventContext (event : EventEnvelope)
  | markEventProcessed (eventId : String) (processedAt : Time)
  | markEventsProcessed (eventIds : List String) (processedAt : Time)

/-- `SQLITE_SAFE_BOUND_PARAMETER_BUDGET` and `POSTGRES_SAFE_BOUND_PARAMETER_BUDGET` -/
def parameterBudget : Dialect → Nat
  | .sqlite => 900
  | .postgresql => 30000

/-- The chunks of `_execute_mark_events_processed`; PostgreSQL passes all marks as one value. -/
def markPieces (dialect : Dialect) (marks : List ProcessedMark) : List (List ProcessedMark) :=
  if marks = [] then []
  else
    let ordered := marks.insertionSort fun a b => a.eventId ≤ b.eventId
    match dialect with
    | .postgresql => [ordered]
    | .sqlite => slices ((parameterBudget .sqlite - 4) / 3) ordered

def markStatements {γ : Type} (dialect : Dialect) (marks : List ProcessedMark) :
    List (Statement γ) :=
  (markPieces dialect marks).map .markProcessed

/-- `sorted(set(event_ids))` -/
def sortedIds (eventIds : List String) : List String := Text.sorted eventIds.toFinset

/-- The mark of an event under the token that the instance holds for it. -/
def processedMark (held : Dict String Nat) (processedAt : Time) (eventId : String) :
    Except StateError ProcessedMark :=
  match held.get? eventId with
  | none => .error .tokenMissing
  | some token => .ok ⟨eventId, token, processedAt⟩

section Calls

variable {γ : Type} [DecidableEq γ] (schema : Schema γ) (dialect : Dialect)
  (held : Dict String Nat)

/-- A call outside a batch, in a session that is open already. -/
def StateCall.execute (db : StateDb γ) : StateCall γ → Except StateError (StateDb γ)
  | .upsert model values => (Statement.upsertRows model [values]).execute schema dialect db
  | .updateRawEventContext event => (Statement.rawContexts [event]).execute schema dialect db
  | .markEventProcessed eventId processedAt =>
      (processedMark held processedAt eventId).bind fun mark =>
        (Statement.markProcessed [mark]).execute schema dialect db
  | .markEventsProcessed eventIds processedAt =>
      ((sortedIds eventIds).mapM (processedMark held processedAt)).bind fun marks =>
        executeAll schema dialect (fun _ => false) 0 (markStatements dialect marks) db

/-- The calls one at a time, in call order. -/
def executeCalls (calls : List (StateCall γ)) (db : StateDb γ) :
    Except StateError (StateDb γ) :=
  calls.foldlM (StateCall.execute schema dialect held) db

end Calls

/-! ## Batches -/

/-- `_EventStateBatch`, with one group of rows for each model. -/
structure StateBatch (γ : Type) where
  rawContexts : Dict String EventEnvelope := Dict.empty
  processedClaims : Dict String (Nat × Time) := Dict.empty
  upsertGroups : Dict UpsertModel (Dict (List (Option γ)) (Values γ)) := Dict.empty

section Batches

variable {γ : Type} [DecidableEq γ]

/-- `_stage_upsert` -/
def StateBatch.stageUpsert (batch : StateBatch γ) (model : UpsertModel) (values : Values γ) :
    StateBatch γ :=
  let group := (batch.upsertGroups.get? model).getD Dict.empty
  { batch with
    upsertGroups := batch.upsertGroups.set model (group.set (model.identity values) values) }

/-- A mark enters `processed_claims`; `merge` combines its time with that of an earlier mark. -/
def StateBatch.stageMark (merge : Time → Time → Time) (batch : StateBatch γ)
    (mark : ProcessedMark) : Except StateError (StateBatch γ) :=
  match batch.processedClaims.get? mark.eventId with
  | none =>
      .ok { batch with
        processedClaims := batch.processedClaims.set mark.eventId (mark.token, mark.processedAt) }
  | some previous =>
      if previous.1 ≠ mark.token then .error .superseded
      else
        .ok { batch with
          processedClaims := batch.processedClaims.set mark.eventId
            (mark.token, merge mark.processedAt previous.2) }

/-- A call inside the batch. -/
def StateBatch.stage (held : Dict String Nat) (batch : StateBatch γ) :
    StateCall γ → Except StateError (StateBatch γ)
  | .upsert model values => .ok (batch.stageUpsert model values)
  | .updateRawEventContext event =>
      .ok { batch with rawContexts := batch.rawContexts.set event.eventId event }
  | .markEventProcessed eventId processedAt =>
      (processedMark held processedAt eventId).bind (batch.stageMark max)
  | .markEventsProcessed eventIds processedAt =>
      ((sortedIds eventIds).mapM (processedMark held processedAt)).bind fun marks =>
        marks.foldlM (StateBatch.stageMark fun processedAt _ => processedAt) batch

variable (order : DependencyOrder) (text : Option γ → String) (dialect : Dialect)

/-- The events of the context updates, in the order of their ids. -/
def StateBatch.contextEvents (batch : StateBatch γ) : List EventEnvelope :=
  (batch.rawContexts.entries.insertionSort fun a b => a.1 ≤ b.1).map Prod.snd

/-- The chunks of the context updates; PostgreSQL passes all of them as one value. -/
def StateBatch.contextPieces (batch : StateBatch γ) : List (List EventEnvelope) :=
  match dialect with
  | .postgresql => if batch.contextEvents = [] then [] else [batch.contextEvents]
  | .sqlite => slices (parameterBudget .sqlite / 6) batch.contextEvents

/-- The rows of a group, in the order of the texts of their keys. -/
def sortedRows (model : UpsertModel) (group : Dict (List (Option γ)) (Values γ)) :
    List (Values γ) :=
  group.values.insertionSort fun a b =>
    (model.identity a).map text ≤ (model.identity b).map text

/-- The groups, parents first. -/
def StateBatch.sortedGroups (batch : StateBatch γ) :
    List (UpsertModel × Dict (List (Option γ)) (Values γ)) :=
  batch.upsertGroups.entries.insertionSort fun a b => order.index a.1 ≤ order.index b.1

/-- The statements of `_execute_upsert_rows` for one group. -/
def groupStatements (model : UpsertModel) (group : Dict (List (Option γ)) (Values γ)) :
    List (Statement γ) :=
  (slices (max 1 (parameterBudget dialect / model.columns.length))
    (sortedRows text model group)).map (.upsertRows model)

/-- The marks that `processed_claims` holds. -/
def StateBatch.marks (batch : StateBatch γ) : List ProcessedMark :=
  batch.processedClaims.entries.map fun claim => ⟨claim.1, claim.2.1, claim.2.2⟩

/-- The statements of `_flush_event_state_batch`, in order. -/
def StateBatch.flushStatements (batch : StateBatch γ) : List (Statement γ) :=
  (batch.contextPieces dialect).map .rawContexts ++
    ((batch.sortedGroups order).flatMap fun group =>
      groupStatements text dialect group.1 group.2) ++
    markStatements dialect batch.marks

/-- `event_state_batch_transaction` around the calls: the committed tables, and the error that
ended the transaction, if any. -/
def eventStateBatchTransaction (schema : Schema γ) (held : Dict String Nat)
    (fault : Nat → Bool) (calls : List (StateCall γ)) (db : StateDb γ) :
    StateDb γ × Option StateError :=
  match (calls.foldlM (StateBatch.stage held) {}).bind fun batch =>
      executeAll schema dialect fault 0 (batch.flushStatements order text dialect) db with
  | .ok written => (written, none)
  | .error error => (db, some error)

end Batches

end SniperBot.Events
