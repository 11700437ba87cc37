import SniperBot.Archive.Recorder
import SniperBot.Basis.Calendar
import SniperBot.Protocols.Anchor

/-!
# From transactions to events

`PumpDecoder.decode_transaction` and `PumpSwapDecoder.decode_transaction` (`protocols/pump/decoder.py`,
`protocols/pumpswap/decoder.py`). The two differ in the types they give to Anchor events and in
where they find the mint and the pool. Signature and block time are read before the logs, so a
transaction whose logs cannot be decoded has both.
-/

namespace SniperBot.Archive

open Basis Features Protocols

/-! ## Transactions -/

/-- What is read of a transaction, and the transaction itself. -/
structure ChainTransaction where
  /-- `transaction.get("signature")` -/
  signature : Option String := none
  /-- `transaction.get("transaction", {}).get("signatures") or []` -/
  signatures : List String := []
  /-- `int(transaction.get("slot", 0))` -/
  slot : Int := 0
  blockTime : Option Int := none
  /-- `meta.logMessages`, or `logs` -/
  logs : List String := []
  whole : Json

inductive PipelineError
  | poisoned
  | anchor (error : AnchorDecodeError)
  | missingSignature
  | missingBlockTime
  | blockTimeRange
  /-- `ValidationError` of an event -/
  | validation
  | recursion
  | batchLimit
  | archive (error : ArchiveError)
  deriving DecidableEq

/-- `datetime.fromtimestamp(seconds, tz=timezone.utc)`; `none` when it raises. -/
def fromTimestamp (seconds : Int) : Option DateTime :=
  let date := Date.ofOrdinal (719163 + seconds / 86400)
  let second := (seconds % 86400).toNat
  if date.year < 1 ∨ 9999 < date.year then none
  else some
    { year := date.year.toNat
      month := date.month
      day := date.day
      hour := second / 3600
      minute := second % 3600 / 60
      second := second % 60 }

/-- `_signature` -/
def ChainTransaction.readSignature (transaction : ChainTransaction) : Except PipelineError String :=
  match transaction.signature.filter (· ≠ "") with
  | some signature => .ok signature
  | none =>
      match transaction.signatures with
      | signature :: _ => .ok signature
      | [] => .error .missingSignature

/-- `_block_time` -/
def ChainTransaction.readBlockTime (transaction : ChainTransaction) :
    Except PipelineError DateTime :=
  match transaction.blockTime with
  | none => .error .missingBlockTime
  | some seconds =>
      match fromTimestamp seconds with
      | some blockTime => .ok blockTime
      | none => .error .blockTimeRange

/-! ## Events -/

def eventTypeValue : ChainEventType → String
  | .tokenCreated => "token_created"
  | .swapBuy => "swap_buy"
  | .swapSell => "swap_sell"
  | .bondingCurveCompleted => "bonding_curve_completed"
  | .migration => "migration"
  | .poolCreated => "pool_created"
  | .liquidityAdded => "liquidity_added"
  | .liquidityRemoved => "liquidity_removed"
  | .poolStateChanged => "pool_state_changed"
  | .unknown => "unknown"

/-- `make_event_id` -/
def Codec.makeEventId (codec : Codec) (signature : String) (instructionIndex : Nat)
    (innerInstructionIndex : Int) (eventType : ChainEventType) : String :=
  codec.sha256 (signature ++ ":" ++ toString instructionIndex ++ ":" ++
    toString innerInstructionIndex ++ ":" ++ eventTypeValue eventType).toUTF8

/-- The arguments of an event, before its validation. -/
structure EventDraft where
  source : EventSource
  protocol : Protocol
  eventType : ChainEventType
  slot : Int
  signature : String
  instructionIndex : Nat
  blockTime : DateTime
  observedAt : DateTime
  mint : Option String := none
  poolAddress : Option String := none
  payload : List (String × Json)

/-- `EventEnvelope(...)` -/
def Codec.envelope (codec : Codec) (draft : EventDraft) : Except PipelineError EventEnvelope :=
  if draft.slot < 0 ∨ draft.signature = "" then .error .validation
  else .ok
    { eventId := codec.makeEventId draft.signature draft.instructionIndex (-1) draft.eventType
      ingestSequence := none
      source := draft.source
      protocol := draft.protocol
      eventType := draft.eventType
      slot := draft.slot.toNat
      signature := draft.signature
      instructionIndex := draft.instructionIndex
      blockTime := draft.blockTime
      observedAt := draft.observedAt
      mint := draft.mint
      poolAddress := draft.poolAddress
      payload := draft.payload }

mutual

/-- A decoded value as it is archived. -/
def valueJson : Value → Json
  | .none => .null
  | .int n => .number (toString n)
  | .bool b => .bool b
  | .text s => .string s
  | .list items => .array (itemsJson items)
  | .record fields => .object (fieldsJson fields)

def itemsJson : List Value → List Json
  | [] => []
  | item :: items => valueJson item :: itemsJson items

def fieldsJson : List (String × Value) → List (String × Json)
  | [] => []
  | (name, value) :: fields => (name, valueJson value) :: fieldsJson fields

end

/-- `fields.get(name)` as an optional string. -/
def textField (fields : List (String × Value)) (name : String) :
    Except PipelineError (Option String) :=
  match Dict.find fields name with
  | none | some .none => .ok none
  | some (.text s) => .ok (some s)
  | some _ => .error .validation

/-! ## The two decoders -/

/-- What the two decoders do not share. -/
structure ProtocolDecoder where
  anchor : AnchorIdlDecoder
  protocol : Protocol
  adapterVersion : String
  eventType : AnchorEvent → Option ChainEventType
  mint : List (String × Value) → Except PipelineError (Option String)
  poolAddress : List (String × Value) → Except PipelineError (Option String)

/-- `PumpDecoder` -/
def pumpDecoder (anchor : AnchorIdlDecoder) : ProtocolDecoder where
  anchor := anchor
  protocol := .pump
  adapterVersion := "pump-idl-9c82f61"
  eventType event :=
    match event.name with
    | "CreateEvent" => some .tokenCreated
    | "TradeEvent" =>
        match Dict.find event.fields "is_buy" with
        | some (.bool true) => some .swapBuy
        | _ => some .swapSell
    | "CompleteEvent" => some .bondingCurveCompleted
    | "CompletePumpAmmMigrationEvent" => some .migration
    | _ => none
  mint fields := textField fields "mint"
  poolAddress fields := do
    match (← textField fields "pool").filter (· ≠ "") with
    | some pool => return some pool
    | none => textField fields "bonding_curve"

/-- `target_mint_for_pool` -/
def targetMintForPool (baseMint quoteMint : Option String) : Option String :=
  match baseMint.filter (· ≠ ""), quoteMint.filter (· ≠ "") with
  | some base, some quote =>
      if decide (base ∈ supportedQuoteMints) = decide (quote ∈ supportedQuoteMints) then none
      else if base ∈ supportedQuoteMints then some quote
      else some base
  | _, _ => none

/-- `PumpSwapDecoder` -/
def pumpswapDecoder (anchor : AnchorIdlDecoder) : ProtocolDecoder where
  anchor := anchor
  protocol := .pumpswap
  adapterVersion := "pumpswap-idl-9c82f61"
  eventType event :=
    match event.name with
    | "CreatePoolEvent" => some .poolCreated
    | "BuyEvent" => some .swapBuy
    | "SellEvent" => some .swapSell
    | "DepositEvent" => some .liquidityAdded
    | "WithdrawEvent" => some .liquidityRemoved
    | _ => none
  mint fields := do
    return targetMintForPool (← textField fields "base_mint") (← textField fields "quote_mint")
  poolAddress fields := textField fields "pool"

/-- The event of a decoded Anchor event; `none` for a type that is not kept. -/
def Codec.adapt (codec : Codec) (decoder : ProtocolDecoder) (transaction : ChainTransaction)
    (source : EventSource) (signature : String) (blockTime observedAt : DateTime)
    (event : AnchorEvent) : Except PipelineError (Option EventEnvelope) :=
  match decoder.eventType event with
  | none => .ok none
  | some eventType => do
      let fields := Dict.put (Dict.put event.fields "anchor_event" (.text event.name))
        "adapter_version" (.text decoder.adapterVersion)
      let mint ← decoder.mint fields
      let poolAddress ← decoder.poolAddress fields
      return some (← codec.envelope
        { source := source
          protocol := decoder.protocol
          eventType := eventType
          slot := transaction.slot
          signature := signature
          instructionIndex := event.logIndex
          blockTime := blockTime
          observedAt := observedAt
          mint := mint
          poolAddress := poolAddress
          payload := fieldsJson fields })

/-- `decode_transaction` -/
def Codec.decodeTransaction (codec : Codec) (decoder : ProtocolDecoder)
    (transaction : ChainTransaction) (source : EventSource) (observedAt : DateTime) :
    Except PipelineError (List EventEnvelope) := do
  let signature ← transaction.readSignature
  let blockTime ← transaction.readBlockTime
  match decoder.anchor.decodeLogs transaction.logs with
  | .error .recursion => throw .recursion
  | .error error => throw (.anchor error)
  | .ok events =>
      let adapted ← events.mapM
        (codec.adapt decoder transaction source signature blockTime observedAt)
      return adapted.reduceOption

end SniperBot.Archive
