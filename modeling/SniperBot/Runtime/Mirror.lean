import SniperBot.Basis.Json
import SniperBot.Runtime.Calls
import SniperBot.Ledger.Accounting
import Mathlib.Data.Rat.Encodable

/-!
# The local mirror of the ledger

After every change the ledger writes its state to a JSON file (`to_dict` and `_persist` of
`ledger.py`), and a new process starts from it (`from_dict` and `_load_or_init`). Positions and
fills are written by their pydantic models.

How decimals, datetimes and the fields of a model are written is not part of the program:
`ValueCodecs` stands for it, and `ValueCodecs.Lawful` says that such values can be read back. The
positions are written as a list and stored again under their own ids, so the state must hold every
position under its id (`Keyed`).
-/

namespace SniperBot.Runtime

open Basis Basis.Json Ledger

/-- `LedgerState` with the two fields that no accounting operation reads. -/
structure StampedState extends LedgerState where
  strategyVersion : String
  configHash : String

/-! ## Writing and reading -/

structure ValueCodecs where
  /-- `str(value)` and `Decimal(text)` -/
  decimal : Codec ℚ
  /-- `isoformat` and `datetime.fromisoformat` -/
  isoformat : Codec Time
  /-- fields of a pydantic model: `model_dump(mode="json")` and the constructor -/
  modelDecimal : Codec ℚ
  modelDatetime : Codec Time
  modelText : Codec String
  modelFlag : Codec Bool
  modelInteger : Codec Int

structure ValueCodecs.Lawful (c : ValueCodecs) : Prop where
  decimal : c.decimal.Lawful
  isoformat : c.isoformat.Lawful
  modelDecimal : c.modelDecimal.Lawful
  modelDatetime : c.modelDatetime.Lawful
  modelText : c.modelText.Lawful
  modelFlag : c.modelFlag.Lawful
  modelInteger : c.modelInteger.Lawful
  /-- the text of a datetime is not empty -/
  isoformat_ne_empty : ∀ t, c.isoformat.dump t ≠ .text ""

/-- `PositionStatus` -/
def positionStatus : Codec PositionStatus :=
  ofText (fun status => match status with
      | .opened => "open"
      | .closed => "closed")
    (fun text => if text = "open" then some .opened
      else if text = "closed" then some .closed
      else none)

theorem positionStatus_lawful : positionStatus.Lawful :=
  ofText_lawful fun status => by cases status <;> rfl

/-- `FillType` -/
def fillType : Codec FillType :=
  ofText (fun fillType => match fillType with
      | .entry => "entry"
      | .exit => "exit")
    (fun text => if text = "entry" then some .entry
      else if text = "exit" then some .exit
      else none)

theorem fillType_lawful : fillType.Lawful :=
  ofText_lawful fun fillType => by cases fillType <;> rfl

section Models

variable (c : ValueCodecs)

/-- The fields of a dumped `PositionRecord`. -/
def positionFields (p : PositionRecord) : List (String × Json) :=
  [("position_id", c.modelText.dump p.positionId),
    ("token_mint", c.modelText.dump p.tokenMint),
    ("open_fill_id", c.modelText.dump p.openFillId),
    ("entry_token_amount", c.modelDecimal.dump p.entryTokenAmount),
    ("entry_cost_usd", c.modelDecimal.dump p.entryCostUsd),
    ("open_ratio", c.modelDecimal.dump p.openRatio),
    ("opened_at", c.modelDatetime.dump p.openedAt),
    ("closed_at", (nullable c.modelDatetime).dump p.closedAt),
    ("locked_usd", c.modelDecimal.dump p.lockedUsd),
    ("status", positionStatus.dump p.status),
    ("remaining_token_amount", c.modelDecimal.dump p.remainingTokenAmount),
    ("remaining_cost_usd", c.modelDecimal.dump p.remainingCostUsd),
    ("realized_pnl_usd", c.modelDecimal.dump p.realizedPnlUsd),
    ("peak_unrealized_usd", c.modelDecimal.dump p.peakUnrealizedUsd),
    ("mfe_pct", c.modelDecimal.dump p.mfePct),
    ("mae_pct", c.modelDecimal.dump p.maePct),
    ("highest_executable_value_usd", c.modelDecimal.dump p.highestExecutableValueUsd),
    ("lowest_executable_value_usd",
      (nullable c.modelDecimal).dump p.lowestExecutableValueUsd),
    ("last_executable_value_usd", c.modelDecimal.dump p.lastExecutableValueUsd),
    ("tp1_taken", c.modelFlag.dump p.tp1Taken),
    ("tp2_taken", c.modelFlag.dump p.tp2Taken),
    ("last_new_high_at", (nullable c.modelDatetime).dump p.lastNewHighAt),
    ("final_exit_reason", (nullable c.modelText).dump p.finalExitReason),
    ("candidate_id", (nullable c.modelText).dump p.context.candidateId),
    ("pool_address", (nullable c.modelText).dump p.context.poolAddress),
    ("entry_score", (nullable c.modelDecimal).dump p.context.entryScore),
    ("entry_liquidity_usd", (nullable c.modelDecimal).dump p.context.entryLiquidityUsd),
    ("entry_pool_age_seconds", (nullable c.modelDecimal).dump p.context.entryPoolAgeSeconds),
    ("strategy_version", (nullable c.modelText).dump p.context.strategyVersion)]

/-- `PositionRecord(**data)` -/
def readPosition (data : List (String × Json)) : Option PositionRecord := do
  let positionId ← field c.modelText data "position_id"
  let tokenMint ← field c.modelText data "token_mint"
  let openFillId ← field c.modelText data "open_fill_id"
  let entryTokenAmount ← field c.modelDecimal data "entry_token_amount"
  let entryCostUsd ← field c.modelDecimal data "entry_cost_usd"
  let openRatio ← field c.modelDecimal data "open_ratio"
  let openedAt ← field c.modelDatetime data "opened_at"
  let closedAt ← fieldOr (nullable c.modelDatetime) none data "closed_at"
  let lockedUsd ← field c.modelDecimal data "locked_usd"
  let status ← fieldOr positionStatus .opened data "status"
  let remainingTokenAmount ← field c.modelDecimal data "remaining_token_amount"
  let remainingCostUsd ← field c.modelDecimal data "remaining_cost_usd"
  let realizedPnlUsd ← fieldOr c.modelDecimal 0 data "realized_pnl_usd"
  let peakUnrealizedUsd ← fieldOr c.modelDecimal 0 data "peak_unrealized_usd"
  let mfePct ← fieldOr c.modelDecimal 0 data "mfe_pct"
  let maePct ← fieldOr c.modelDecimal 0 data "mae_pct"
  let highestExecutableValueUsd ←
    fieldOr c.modelDecimal 0 data "highest_executable_value_usd"
  let lowestExecutableValueUsd ←
    fieldOr (nullable c.modelDecimal) none data "lowest_executable_value_usd"
  let lastExecutableValueUsd ← fieldOr c.modelDecimal 0 data "last_executable_value_usd"
  let tp1Taken ← fieldOr c.modelFlag false data "tp1_taken"
  let tp2Taken ← fieldOr c.modelFlag false data "tp2_taken"
  let lastNewHighAt ← fieldOr (nullable c.modelDatetime) none data "last_new_high_at"
  let finalExitReason ← fieldOr (nullable c.modelText) none data "final_exit_reason"
  let candidateId ← fieldOr (nullable c.modelText) none data "candidate_id"
  let poolAddress ← fieldOr (nullable c.modelText) none data "pool_address"
  let entryScore ← fieldOr (nullable c.modelDecimal) none data "entry_score"
  let entryLiquidityUsd ← fieldOr (nullable c.modelDecimal) none data "entry_liquidity_usd"
  let entryPoolAgeSeconds ←
    fieldOr (nullable c.modelDecimal) none data "entry_pool_age_seconds"
  let strategyVersion ← fieldOr (nullable c.modelText) none data "strategy_version"
  return {
    positionId, tokenMint, openFillId, entryTokenAmount, entryCostUsd, openRatio, openedAt
    closedAt, lockedUsd, status, remainingTokenAmount, remainingCostUsd, realizedPnlUsd
    peakUnrealizedUsd, mfePct, maePct, highestExecutableValueUsd, lowestExecutableValueUsd
    lastExecutableValueUsd, tp1Taken, tp2Taken, lastNewHighAt, finalExitReason
    context := {
      candidateId, poolAddress, entryScore, entryLiquidityUsd, entryPoolAgeSeconds
      strategyVersion } }

/-- The fields of a dumped `FillRecord`. -/
def fillFields (fill : FillRecord) : List (String × Json) :=
  [("fill_id", c.modelText.dump fill.fillId),
    ("position_id", c.modelText.dump fill.positionId),
    ("token_mint", c.modelText.dump fill.tokenMint),
    ("order_id", c.modelText.dump fill.orderId),
    ("quote_id", c.modelText.dump fill.quoteId),
    ("fill_type", fillType.dump fill.fillType),
    ("token_amount", c.modelDecimal.dump fill.tokenAmount),
    ("usd_notional", c.modelDecimal.dump fill.usdNotional),
    ("cost_basis_usd", c.modelDecimal.dump fill.costBasisUsd),
    ("created_at", c.modelDatetime.dump fill.createdAt),
    ("exit_reason", (nullable c.modelText).dump fill.exitReason),
    ("price_impact_pct", c.modelDecimal.dump fill.costs.priceImpactPct),
    ("platform_fee_usd", c.modelDecimal.dump fill.costs.platformFeeUsd),
    ("network_fee_usd", c.modelDecimal.dump fill.costs.networkFeeUsd),
    ("other_cost_usd", c.modelDecimal.dump fill.costs.otherCostUsd),
    ("adverse_fill_bps", c.modelInteger.dump fill.costs.adverseFillBps),
    ("quote_latency_ms", c.modelInteger.dump fill.costs.quoteLatencyMs),
    ("round_trip_cost_pct", (nullable c.modelDecimal).dump fill.roundTripCostPct)]

/-- `FillRecord(**data)`, with the bounds of its fields. -/
def readFill (data : List (String × Json)) : Option FillRecord := do
  let fillId ← field c.modelText data "fill_id"
  let positionId ← field c.modelText data "position_id"
  let tokenMint ← field c.modelText data "token_mint"
  let orderId ← field c.modelText data "order_id"
  let quoteId ← field c.modelText data "quote_id"
  let fillType ← field fillType data "fill_type"
  let tokenAmount ← field c.modelDecimal data "token_amount"
  let usdNotional ← field c.modelDecimal data "usd_notional"
  let costBasisUsd ← field c.modelDecimal data "cost_basis_usd"
  let createdAt ← field c.modelDatetime data "created_at"
  let exitReason ← fieldOr (nullable c.modelText) none data "exit_reason"
  let priceImpactPct ← fieldOr c.modelDecimal 0 data "price_impact_pct"
  let platformFeeUsd ← fieldOr c.modelDecimal 0 data "platform_fee_usd"
  let networkFeeUsd ← fieldOr c.modelDecimal 0 data "network_fee_usd"
  let otherCostUsd ← fieldOr c.modelDecimal 0 data "other_cost_usd"
  let adverseFillBps ← fieldOr c.modelInteger 0 data "adverse_fill_bps"
  let quoteLatencyMs ← fieldOr c.modelInteger 0 data "quote_latency_ms"
  let roundTripCostPct ← fieldOr (nullable c.modelDecimal) none data "round_trip_cost_pct"
  let costs : FillCosts := {
    priceImpactPct, platformFeeUsd, networkFeeUsd, otherCostUsd, adverseFillBps
    quoteLatencyMs }
  if valid : costs.Valid then
    return {
      fillId, positionId, tokenMint, orderId, quoteId, fillType, tokenAmount, usdNotional
      costBasisUsd, createdAt, exitReason, costs, roundTripCostPct, valid }
  else none

/-- A pydantic model in the JSON document. -/
def model {α : Type} (fields : α → List (String × Json)) (read : List (String × Json) → Option α) :
    Codec α where
  dump a := .object (fields a)
  load
    | .object data => read data
    | _ => none

def position : Codec PositionRecord := model (positionFields c) (readPosition c)

def fill : Codec FillRecord := model (fillFields c) (readFill c)

/-- `LedgerState.to_dict` -/
def toDict (s : StampedState) : List (String × Json) :=
  [("equity_usd", c.decimal.dump s.equityUsd),
    ("peak_equity_usd", c.decimal.dump s.peakEquityUsd),
    ("realized_pnl_usd", c.decimal.dump s.realizedPnlUsd),
    ("unrealized_pnl_usd", c.decimal.dump s.unrealizedPnlUsd),
    ("locked_capital_usd", c.decimal.dump s.lockedCapitalUsd),
    ("strategy_version", string.dump s.strategyVersion),
    ("config_hash", string.dump s.configHash),
    ("positions", .list (s.positions.values.map (position c).dump)),
    ("fills", .list (s.fills.map (fill c).dump)),
    ("daily_pnl", (dictOf c.decimal).dump s.dailyPnl),
    ("daily_equity_baseline", (dictOf c.decimal).dump s.dailyEquityBaseline),
    ("halt_reason", (nullable string).dump s.haltReason),
    ("pause_until", (nullable c.isoformat).dump s.pauseUntil),
    ("daily_halt_date", (nullable string).dump s.dailyHaltDate),
    ("order_id_index", (dictOf string).dump s.orderIdIndex),
    ("close_order_id_index", (dictOf string).dump s.closeOrderIdIndex),
    ("close_fill_id_index", (dictOf string).dump s.closeFillIdIndex),
    ("token_index", (dictOf string).dump s.tokenIndex)]

/-- `data.get(key) or {}` -/
def dictOrEmpty (data : List (String × Json)) (key : String) : Option (Dict String ℚ) :=
  match Dict.find data key with
  | none | some .null => some Dict.empty
  | some value => (dictOf c.decimal).load value

/-- `datetime.fromisoformat(text) if text else None` -/
def pauseField (data : List (String × Json)) (key : String) : Option (Option Time) :=
  match Dict.find data key with
  | none | some .null | some (.text "") => some none
  | some value => (c.isoformat.load value).map some

/-- `data.get(key, [])` -/
def listField (data : List (String × Json)) (key : String) : Option (List Json) :=
  match Dict.find data key with
  | none => some []
  | some (.list items) => some items
  | some _ => none

/-- `LedgerState.from_dict` -/
def fromDict (data : List (String × Json)) : Option StampedState := do
  let equityUsd ← field c.decimal data "equity_usd"
  let strategyVersion ← fieldOr string "" data "strategy_version"
  let configHash ← fieldOr string "" data "config_hash"
  let state := LedgerState.init equityUsd
  let peakEquityUsd ← fieldOr c.decimal 0 data "peak_equity_usd"
  let realizedPnlUsd ← fieldOr c.decimal 0 data "realized_pnl_usd"
  let unrealizedPnlUsd ← fieldOr c.decimal 0 data "unrealized_pnl_usd"
  let lockedCapitalUsd ← fieldOr c.decimal 0 data "locked_capital_usd"
  let haltReason ← fieldOr (nullable string) none data "halt_reason"
  let pauseUntil ← pauseField c data "pause_until"
  let dailyHaltDate ← fieldOr (nullable string) none data "daily_halt_date"
  let dailyPnl ← dictOrEmpty c data "daily_pnl"
  let dailyEquityBaseline ← dictOrEmpty c data "daily_equity_baseline"
  let orderIdIndex ← fieldOr (dictOf string) Dict.empty data "order_id_index"
  let closeOrderIdIndex ← fieldOr (dictOf string) Dict.empty data "close_order_id_index"
  let closeFillIdIndex ← fieldOr (dictOf string) Dict.empty data "close_fill_id_index"
  let tokenIndex ← fieldOr (dictOf string) Dict.empty data "token_index"
  let positions ← (← listField data "positions").foldlM
    (fun stored item => ((position c).load item).map fun p => stored.set p.positionId p)
    state.positions
  let fills ← (← listField data "fills").foldlM
    (fun stored item => ((fill c).load item).map fun f => stored ++ [f]) state.fills
  return {
    state with
    peakEquityUsd, realizedPnlUsd, unrealizedPnlUsd, lockedCapitalUsd, haltReason, pauseUntil
    dailyHaltDate, dailyPnl, dailyEquityBaseline, orderIdIndex, closeOrderIdIndex
    closeFillIdIndex, tokenIndex, positions, fills, strategyVersion, configHash }

/-- `_load_or_init`: the state of the mirror under the configured version and hash; a new one when
there is no mirror or it cannot be read. -/
def loadOrInit (mirror : Option (List (String × Json))) (starting : ℚ)
    (strategyVersion configHash : String) : StampedState :=
  match mirror.bind (fromDict c) with
  | some s => { s with strategyVersion := strategyVersion, configHash := configHash }
  | none => ⟨LedgerState.init starting, strategyVersion, configHash⟩

end Models

/-! ## The models round trip -/

theorem position_lawful {c : ValueCodecs} (h : c.Lawful) : (position c).Lawful := by
  refine ⟨fun p => ?_, fun _ => nofun⟩
  have hkeys : ((positionFields c p).map Prod.fst).Nodup := by
    simp only [positionFields, List.map_cons, List.map_nil]
    decide
  show readPosition c (positionFields c p) = some p
  simp only [readPosition, Option.bind_eq_bind, Option.bind_some, Option.pure_def,
    field_at hkeys 0 rfl (h.modelText.load_dump _),
    field_at hkeys 1 rfl (h.modelText.load_dump _),
    field_at hkeys 2 rfl (h.modelText.load_dump _),
    field_at hkeys 3 rfl (h.modelDecimal.load_dump _),
    field_at hkeys 4 rfl (h.modelDecimal.load_dump _),
    field_at hkeys 5 rfl (h.modelDecimal.load_dump _),
    field_at hkeys 6 rfl (h.modelDatetime.load_dump _),
    fieldOr_at hkeys 7 rfl (nullable_load_dump h.modelDatetime _),
    field_at hkeys 8 rfl (h.modelDecimal.load_dump _),
    fieldOr_at hkeys 9 rfl (positionStatus_lawful.load_dump _),
    field_at hkeys 10 rfl (h.modelDecimal.load_dump _),
    field_at hkeys 11 rfl (h.modelDecimal.load_dump _),
    fieldOr_at hkeys 12 rfl (h.modelDecimal.load_dump _),
    fieldOr_at hkeys 13 rfl (h.modelDecimal.load_dump _),
    fieldOr_at hkeys 14 rfl (h.modelDecimal.load_dump _),
    fieldOr_at hkeys 15 rfl (h.modelDecimal.load_dump _),
    fieldOr_at hkeys 16 rfl (h.modelDecimal.load_dump _),
    fieldOr_at hkeys 17 rfl (nullable_load_dump h.modelDecimal _),
    fieldOr_at hkeys 18 rfl (h.modelDecimal.load_dump _),
    fieldOr_at hkeys 19 rfl (h.modelFlag.load_dump _),
    fieldOr_at hkeys 20 rfl (h.modelFlag.load_dump _),
    fieldOr_at hkeys 21 rfl (nullable_load_dump h.modelDatetime _),
    fieldOr_at hkeys 22 rfl (nullable_load_dump h.modelText _),
    fieldOr_at hkeys 23 rfl (nullable_load_dump h.modelText _),
    fieldOr_at hkeys 24 rfl (nullable_load_dump h.modelText _),
    fieldOr_at hkeys 25 rfl (nullable_load_dump h.modelDecimal _),
    fieldOr_at hkeys 26 rfl (nullable_load_dump h.modelDecimal _),
    fieldOr_at hkeys 27 rfl (nullable_load_dump h.modelDecimal _),
    fieldOr_at hkeys 28 rfl (nullable_load_dump h.modelText _)]

theorem fill_lawful {c : ValueCodecs} (h : c.Lawful) : (fill c).Lawful := by
  refine ⟨fun f => ?_, fun _ => nofun⟩
  have hkeys : ((fillFields c f).map Prod.fst).Nodup := by
    simp only [fillFields, List.map_cons, List.map_nil]
    decide
  show readFill c (fillFields c f) = some f
  simp only [readFill, Option.bind_eq_bind, Option.bind_some, Option.pure_def,
    field_at hkeys 0 rfl (h.modelText.load_dump _),
    field_at hkeys 1 rfl (h.modelText.load_dump _),
    field_at hkeys 2 rfl (h.modelText.load_dump _),
    field_at hkeys 3 rfl (h.modelText.load_dump _),
    field_at hkeys 4 rfl (h.modelText.load_dump _),
    field_at hkeys 5 rfl (fillType_lawful.load_dump _),
    field_at hkeys 6 rfl (h.modelDecimal.load_dump _),
    field_at hkeys 7 rfl (h.modelDecimal.load_dump _),
    field_at hkeys 8 rfl (h.modelDecimal.load_dump _),
    field_at hkeys 9 rfl (h.modelDatetime.load_dump _),
    fieldOr_at hkeys 10 rfl (nullable_load_dump h.modelText _),
    fieldOr_at hkeys 11 rfl (h.modelDecimal.load_dump _),
    fieldOr_at hkeys 12 rfl (h.modelDecimal.load_dump _),
    fieldOr_at hkeys 13 rfl (h.modelDecimal.load_dump _),
    fieldOr_at hkeys 14 rfl (h.modelDecimal.load_dump _),
    fieldOr_at hkeys 15 rfl (h.modelInteger.load_dump _),
    fieldOr_at hkeys 16 rfl (h.modelInteger.load_dump _),
    fieldOr_at hkeys 17 rfl (nullable_load_dump h.modelDecimal _)]
  exact dif_pos f.valid

/-! ## The state round trips -/

/-- Every position is stored under its id. -/
def Keyed (s : LedgerState) : Prop := ∀ id p, s.positions.get? id = some p → p.positionId = id

/-- Storing keyed positions again, one after the other, gives them back. -/
theorem Keyed.restored {s : LedgerState} (h : Keyed s) :
    s.positions.values.foldl (fun stored p => stored.set p.positionId p) Dict.empty =
      s.positions := by
  have hentries : s.positions.values.map (fun p => (p.positionId, p)) = s.positions.entries := by
    rw [Dict.values, List.map_map]
    refine (List.map_congr_left fun e he => ?_).trans (List.map_id _)
    exact Prod.ext (h e.1 e.2 (Dict.mem_entries.mp he)) rfl
  calc s.positions.values.foldl (fun stored p => stored.set p.positionId p) Dict.empty
      = (s.positions.values.map fun p => (p.positionId, p)).foldl
          (fun stored e => stored.set e.1 e.2) Dict.empty := by rw [List.foldl_map]
    _ = s.positions.entries.foldl (fun stored e => stored.set e.1 e.2) Dict.empty := by
        rw [hentries]
    _ = s.positions := Dict.foldl_set_entries s.positions

theorem foldl_append_singleton {α : Type} (items start : List α) :
    items.foldl (fun stored item => stored ++ [item]) start = start ++ items := by
  induction items generalizing start with
  | nil => exact (List.append_nil start).symm
  | cons item rest ih => rw [List.foldl_cons, ih, List.append_assoc, List.singleton_append]

theorem dictOrEmpty_at {c : ValueCodecs} (h : c.Lawful) {data : List (String × Json)}
    (hkeys : (data.map Prod.fst).Nodup) (i : Nat) {key : String} {d : Dict String ℚ}
    (hget : data[i]? = some (key, (dictOf c.decimal).dump d)) : dictOrEmpty c data key = some d := by
  rw [dictOrEmpty, Dict.find_of_mem hkeys (List.mem_of_getElem? hget)]
  exact (dictOf_lawful h.decimal).load_dump d

theorem pauseField_at {c : ValueCodecs} (h : c.Lawful) {data : List (String × Json)}
    (hkeys : (data.map Prod.fst).Nodup) (i : Nat) {key : String} {t : Option Time}
    (hget : data[i]? = some (key, (nullable c.isoformat).dump t)) :
    pauseField c data key = some t := by
  rw [pauseField, Dict.find_of_mem hkeys (List.mem_of_getElem? hget)]
  cases t with
  | none => rfl
  | some t =>
      have hnull := h.isoformat.dump_ne_null t
      have hempty := h.isoformat_ne_empty t
      have hload := h.isoformat.load_dump t
      -- the written datetime is neither of the two texts that mean no pause
      simp only [nullable]
      rw [hload]
      rfl

theorem listField_at {data : List (String × Json)} (hkeys : (data.map Prod.fst).Nodup) (i : Nat)
    {key : String} {items : List Json} (hget : data[i]? = some (key, .list items)) :
    listField data key = some items := by
  rw [listField, Dict.find_of_mem hkeys (List.mem_of_getElem? hget)]

/-- A state whose positions are stored under their ids is read back from its mirror. -/
theorem fromDict_toDict {c : ValueCodecs} (h : c.Lawful) {s : StampedState}
    (hs : Keyed s.toLedgerState) : fromDict c (toDict c s) = some s := by
  have hkeys : ((toDict c s).map Prod.fst).Nodup := by
    simp only [toDict, List.map_cons, List.map_nil]
    decide
  have hpositions := foldlM_load_dump (position_lawful h)
    (fun (stored : Dict String PositionRecord) p => stored.set p.positionId p)
    s.positions.values Dict.empty
  have hfills := foldlM_load_dump (fill_lawful h)
    (fun (stored : List FillRecord) f => stored ++ [f]) s.fills []
  rw [hs.restored] at hpositions
  rw [foldl_append_singleton, List.nil_append] at hfills
  simp only [fromDict, Option.bind_eq_bind, Option.bind_some, Option.pure_def, LedgerState.init,
    field_at hkeys 0 rfl (h.decimal.load_dump _),
    fieldOr_at hkeys 1 rfl (h.decimal.load_dump _),
    fieldOr_at hkeys 2 rfl (h.decimal.load_dump _),
    fieldOr_at hkeys 3 rfl (h.decimal.load_dump _),
    fieldOr_at hkeys 4 rfl (h.decimal.load_dump _),
    fieldOr_at hkeys 5 rfl (string_lawful.load_dump _),
    fieldOr_at hkeys 6 rfl (string_lawful.load_dump _),
    listField_at hkeys 7 rfl, listField_at hkeys 8 rfl, dictOrEmpty_at h hkeys 9 rfl,
    dictOrEmpty_at h hkeys 10 rfl, fieldOr_at hkeys 11 rfl (nullable_load_dump string_lawful _),
    pauseField_at h hkeys 12 rfl, fieldOr_at hkeys 13 rfl (nullable_load_dump string_lawful _),
    fieldOr_at hkeys 14 rfl ((dictOf_lawful string_lawful).load_dump _),
    fieldOr_at hkeys 15 rfl ((dictOf_lawful string_lawful).load_dump _),
    fieldOr_at hkeys 16 rfl ((dictOf_lawful string_lawful).load_dump _),
    fieldOr_at hkeys 17 rfl ((dictOf_lawful string_lawful).load_dump _), hpositions, hfills]

/-! ## Runs -/

section Runs

variable {dateKey : Time → String} {s : LedgerState}

theorem Keyed.apply (h : Keyed s) (op : LedgerOp) : Keyed (s.apply dateKey op) := by
  cases op with
  | openPosition args =>
      simp only [LedgerState.apply]
      split
      · rename_i next result hok
        rcases openPosition_cases hok with rfl | ⟨valid, rfl, -⟩
        · exact h
        · intro id p hget
          simp only [LedgerState.booked, Dict.get?_set] at hget
          split at hget
          · rename_i heq
            cases hget
            exact heq
          · exact h id p hget
      · exact h
  | closePosition args =>
      simp only [LedgerState.apply]
      split
      · rename_i next result hok
        rcases closePosition_cases hok with rfl | ⟨id, position, valid, rfl, -, hstored, -⟩
        · exact h
        · intro j p hget
          simp only [LedgerState.exited, Dict.get?_set] at hget
          split at hget
          · rename_i heq
            cases hget
            rw [closedPosition_positionId, h id position hstored]
            exact heq
          · exact h j p hget
      · exact h
  | markToMarket prices at' =>
      intro id p hget
      obtain ⟨old, hold, rfl⟩ := get?_markToMarket hget
      rw [markPosition_positionId]
      exact h id old hold

theorem Keyed.call (h : Keyed s) (call : LedgerCall) : Keyed (ledgerCall dateKey s call) :=
  call_rule call (fun op _ => h.apply op) fun _ _ _ _ => h

/-- After every run of ledger calls the mirror is read back as the state that wrote it, field by
field, and a restart under the same strategy version and configuration hash starts from it. -/
theorem run_mirror {c : ValueCodecs} (h : c.Lawful) (dateKey : Time → String)
    (starting : ℚ) (strategyVersion configHash : String) (calls : List LedgerCall) :
    let s : StampedState := ⟨exec (ledgerCall dateKey) (LedgerState.init starting) calls,
      strategyVersion, configHash⟩
    fromDict c (toDict c s) = some s ∧
      ∀ starting', loadOrInit c (some (toDict c s)) starting' strategyVersion configHash = s := by
  intro s
  have hkeyed : Keyed s.toLedgerState :=
    exec_invariant (I := Keyed) (fun _ call h => h.call call)
      (by intro id p hget; cases hget) calls
  have hread := fromDict_toDict h hkeyed
  refine ⟨hread, fun starting' => ?_⟩
  rw [loadOrInit, Option.bind_some, hread]

end Runs

/-! ### A sample -/

section Tagged

variable {α : Type} [Encodable α]

/-- The text of a value where it is known, and else a mark and a number. -/
def taggedText (known : α → Option String) (a : α) : String :=
  (known a).getD (String.ofList ('#' :: Nat.toDigits 10 (Encodable.encode a)))

def readTagged (read : List Char → Option α) (text : String) : Option α :=
  match text.toList with
  | '#' :: digits => Encodable.decode (Nat.ofDigitChars 10 digits 0)
  | other => read other

theorem readTagged_taggedText {known : α → Option String} {read : List Char → Option α}
    (h : ∀ a text, known a = some text →
      (∀ rest, text.toList ≠ '#' :: rest) ∧ read text.toList = some a) (a : α) :
    readTagged read (taggedText known a) = some a := by
  cases hknown : known a with
  | none =>
      rw [taggedText, hknown, Option.getD_none, readTagged, String.toList_ofList]
      show Encodable.decode (Nat.ofDigitChars 10 (Nat.toDigits 10 (Encodable.encode a)) 0) = some a
      rw [Nat.ofDigitChars_ten_toDigits, Encodable.encodek]
  | some text =>
      obtain ⟨hmark, hread⟩ := h a text hknown
      rw [taggedText, hknown, Option.getD_some, readTagged]
      split
      · rename_i rest htext
        exact absurd htext (hmark rest)
      · exact hread

end Tagged

/-- Whole numbers are written with their digits. -/
def wholeText (q : ℚ) : Option String :=
  if (q.num.toNat : ℚ) = q then some (Nat.repr q.num.toNat) else none

theorem wholeText_read (q : ℚ) (text : String) (h : wholeText q = some text) :
    (∀ rest, text.toList ≠ '#' :: rest) ∧
      some (Nat.ofDigitChars 10 text.toList 0 : ℚ) = some q := by
  unfold wholeText at h
  split at h
  · rename_i hwhole
    cases h
    rw [Nat.toList_repr]
    constructor
    · intro rest hrest
      have hdigit := Nat.isDigit_of_mem_toDigits (b := 10) (by decide) (by decide)
        (hrest ▸ List.mem_cons_self : '#' ∈ Nat.toDigits 10 q.num.toNat)
      exact absurd hdigit (by decide)
    · rw [Nat.ofDigitChars_ten_toDigits, hwhole]
  · cases h

/-- The text of the epoch. -/
def epochText (text : String) (t : Time) : Option String := if t = 0 then some text else none

theorem epochText_read {epoch : String} (hmark : ∀ rest, epoch.toList ≠ '#' :: rest) (t : Time)
    (text : String) (h : epochText epoch t = some text) :
    (∀ rest, text.toList ≠ '#' :: rest) ∧
      (if text.toList = epoch.toList then some (0 : Time) else none) = some t := by
  unfold epochText at h
  split at h
  · rename_i hzero
    cases h
    exact ⟨hmark, by rw [if_pos rfl, hzero]⟩
  · cases h

/-- Decimals and datetimes as far as the sample below needs them. -/
def sampleCodecs : ValueCodecs where
  decimal := ofText (taggedText wholeText)
    (readTagged fun digits => some (Nat.ofDigitChars 10 digits 0 : ℚ))
  isoformat := ofText (taggedText (epochText "1970-01-01T00:00:00+00:00"))
    (readTagged fun text => if text = "1970-01-01T00:00:00+00:00".toList then some 0 else none)
  modelDecimal := ofText (taggedText wholeText)
    (readTagged fun digits => some (Nat.ofDigitChars 10 digits 0 : ℚ))
  modelDatetime := ofText (taggedText (epochText "1970-01-01T00:00:00Z"))
    (readTagged fun text => if text = "1970-01-01T00:00:00Z".toList then some 0 else none)
  modelText := string
  modelFlag := boolean
  modelInteger := integer

theorem sampleCodecs_lawful : sampleCodecs.Lawful where
  decimal := ofText_lawful (readTagged_taggedText wholeText_read)
  isoformat := ofText_lawful (readTagged_taggedText (epochText_read (by simp)))
  modelDecimal := ofText_lawful (readTagged_taggedText wholeText_read)
  modelDatetime := ofText_lawful (readTagged_taggedText (epochText_read (by simp)))
  modelText := string_lawful
  modelFlag := boolean_lawful
  modelInteger := integer_lawful
  isoformat_ne_empty t h := by
    have htext : taggedText (epochText "1970-01-01T00:00:00+00:00") t = "" := Json.text.inj h
    unfold taggedText epochText at htext
    split at htext
    · exact absurd htext (by simp)
    · exact absurd (congrArg String.toList htext) (by simp)

/-- A position that is marked and partly sold, with a halt, a pause and a baseline. -/
def mirroredCalls : List LedgerCall :=
  [.setDailyEquityBaseline "1970-01-01" 500,
    .book (.openPosition
      { tokenMint := "TOKEN", usdAmount := 20, tokenAmount := 10, orderId := "entry"
        quoteId := "quote-entry", positionId := "position", fillId := "fill", createdAt := 0 }),
    .book (.markToMarket (Dict.empty.set "TOKEN" 4) 0),
    .book (.closePosition
      { tokenMint := "TOKEN", usdReceived := 15, tokenClosed := 5, orderId := "exit"
        quoteId := "quote-exit", closeFillId := "fill-exit", createdAt := 0 }),
    .setHalt "operator" false,
    .setPauseUntil (some 0)]

theorem run_mirror_mirroredCalls :
    let s : StampedState :=
      ⟨exec (ledgerCall fun _ => "1970-01-01") (LedgerState.init 500) mirroredCalls, "v1", "hash"⟩
    (s.fills.length = 2 ∧ s.equityUsd = 515) ∧
      fromDict sampleCodecs (toDict sampleCodecs s) = some s ∧
        ∀ starting', loadOrInit sampleCodecs (some (toDict sampleCodecs s)) starting' "v1" "hash" =
          s :=
  ⟨by decide +kernel,
    run_mirror sampleCodecs_lawful (fun _ => "1970-01-01") 500 "v1" "hash" mirroredCalls⟩

end SniperBot.Runtime
