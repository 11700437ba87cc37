import SniperBot.Basis.Tapes
import Mathlib.Data.Rat.Floor

/-!
# Quotes and their journal

`JupiterQuoteProvider.get_quote` (`jupiter.py`) and `QuoteJournal` (`quote_journal.py`). A call is
answered by the cache, else by the next record of its request in the journal, else by the provider,
whose answer is recorded. `requestQuote` is the part of `get_quote` past the cache.

The type `Q` holds the JSON objects that the provider answers with, and `L` the lines of the
journal's file. What the JSON, hash and time libraries do, and how `_build_quote` reads a response,
are fields of `QuoteFormats`.
-/

namespace SniperBot.Journals

open Basis

/-- A time, in microseconds. -/
abbrev Time := Int

/-! ## The journal -/

/-- A record of the quote journal. -/
structure QuoteRecord (Q : Type) where
  requestKey : String
  response : Q
  requestedAt : Option String := none
  receivedAt : Option String := none
  latencyMs : Option Int := none

/-- What a line of a file of JSON lines holds. -/
inductive Line (α : Type)
  | blank
  | undecodable
  | notObject
  | object (fields : α)

/-- The fields that `_load` looks at: `response` is there if it is an object. -/
structure QuoteLine (Q : Type) where
  requestKey : Option String
  response : Option Q
  requestedAt : Option String
  receivedAt : Option String
  latencyMs : Option Int

/-- What `_build_quote` reads from a response. -/
structure QuoteFields (Q : Type) where
  requestId : String
  inAmount : ℚ
  outAmount : ℚ
  inAmountUsd : ℚ
  outAmountUsd : ℚ
  route : Q
  priceImpactPct : ℚ
  platformFeeUsd : ℚ
  networkFeeLamports : ℚ
  expireAt : Option Time

/-- A quote expires after a second and a half, or when the response says so, if that is earlier. -/
def QuoteFields.expiresAt {Q : Type} (fields : QuoteFields Q) (receivedAt : Time) : Time :=
  match fields.expireAt with
  | some expireAt => min (receivedAt + 1500000) expireAt
  | none => receivedAt + 1500000

inductive QuoteError
  | unavailable (message : String)
  | stale (message : String)
  | rateLimit (message : String)
  | value (message : String)
  | other (message : String)
  deriving DecidableEq, Repr

/-- The query of a quote. -/
structure QuotePayload where
  inputMint : String
  outputMint : String
  amount : String
  slippageBps : Int
  swapMode : String := "ExactIn"
  onlyDirectRoutes : Bool := false
  deriving DecidableEq, Repr

/-- What the libraries do, and how a response is read. -/
structure QuoteFormats (Q L : Type) where
  /-- `hashlib.sha256(text.encode("utf-8")).hexdigest()` -/
  sha256 : String → String
  sha256_ne_empty : ∀ text, sha256 text ≠ ""
  /-- `json.dumps(payload, sort_keys=True)` -/
  dumps : QuotePayload → String
  /-- The line that `record` writes. -/
  print : QuoteRecord Q → L
  /-- A line as `_load` sees it. -/
  parse : L → Line (QuoteLine Q)
  parse_print : ∀ record, parse (print record) = .object
    { requestKey := some record.requestKey
      response := some record.response
      requestedAt := record.requestedAt
      receivedAt := record.receivedAt
      latencyMs := record.latencyMs }
  /-- `t.isoformat()` -/
  isoformat : Time → String
  /-- `datetime.fromisoformat`, in UTC; `none` when it raises. -/
  fromisoformat : String → Option Time
  /-- How `_build_quote` reads a response, or what it raises over it. -/
  readResponse : Q → Except QuoteError (QuoteFields Q)

variable {Q L : Type}

/-- What `_load` does with a line. -/
def QuoteFormats.readLine (formats : QuoteFormats Q L) (line : L) :
    Option (Option (String × QuoteRecord Q)) :=
  match formats.parse line with
  | .blank => some none
  | .undecodable => none
  | .notObject => none
  | .object payload =>
      match payload.requestKey, payload.response with
      | some key, some response =>
          if key = "" then some none
          else some (some (key,
            { requestKey := key
              response := response
              requestedAt := payload.requestedAt
              receivedAt := payload.receivedAt
              latencyMs := payload.latencyMs }))
      | _, _ => some none

/-- `QuoteJournal` -/
abbrev QuoteJournal (formats : QuoteFormats Q L) := Journal formats.readLine

theorem QuoteFormats.readLine_print (formats : QuoteFormats Q L) {record : QuoteRecord Q}
    (h : record.requestKey ≠ "") :
    formats.readLine (formats.print record) = some (some (record.requestKey, record)) := by
  simp only [readLine, formats.parse_print, if_neg h]

/-- `get_record` -/
def QuoteJournal.getRecord {formats : QuoteFormats Q L} (journal : QuoteJournal formats)
    (requestKey : String) : Option (QuoteRecord Q) × QuoteJournal formats :=
  journal.get requestKey

/-- `record` -/
def QuoteJournal.record {formats : QuoteFormats Q L} (journal : QuoteJournal formats)
    (record : QuoteRecord Q) (h : record.requestKey ≠ "") : QuoteJournal formats :=
  Journal.record journal record.requestKey record (formats.print record) (formats.readLine_print h)

/-! ## Quotes -/

structure QuoteResponse (Q : Type) where
  requestId : String
  requestedAt : Time
  receivedAt : Time
  latencyMs : Int
  tokenIn : String
  tokenOut : String
  inAmount : ℚ
  outAmount : ℚ
  inAmountUsd : ℚ
  outAmountUsd : ℚ
  route : Q
  priceImpactPct : ℚ
  platformFeeUsd : ℚ
  estimatedNetworkFeeUsd : ℚ
  expiresAt : Time
  raw : Q

def QuoteResponse.isStale (quote : QuoteResponse Q) (now : Time) : Bool := quote.expiresAt ≤ now

/-- The arguments of `get_quote`. -/
structure QuoteCall where
  tokenIn : String
  tokenOut : String
  amountUsd : ℚ
  slippageBps : Int := 120
  cache : Bool := false
  cacheTtlSeconds : Option ℚ := none

/-- What `_request_with_retry` returns. -/
structure QuoteAnswer (Q : Type) where
  result : Q
  receivedAt : Time
  latencyMs : Int

/-- What a call meets: the readings of the clock, one for each place that reads it, the price of
SOL that is known by then, and the answer of the provider, should it be asked. -/
structure QuoteCircumstances (Q : Type) where
  lookupClock : Time
  journalClock : Time
  storedStaleClock : Time
  requestClock : Time
  staleClock : Time
  fillClock : Time
  lastSolUsdPrice : ℚ
  answer : Except QuoteError (QuoteAnswer Q)

structure QuoteSettings where
  quoteMint : Option String
  quoteMintDecimals : Int := 6
  cacheSeconds : ℚ := 1
  cacheFloorUsd : ℚ := 100
  replayMode : Bool := false
  recordQuotes : Bool := false

/-- `JupiterQuoteProvider` -/
structure JupiterQuoteProvider (formats : QuoteFormats Q L) where
  settings : QuoteSettings
  quoteCache : Dict String (Time × QuoteResponse Q)
  quoteJournal : Option (QuoteJournal formats)

/-- `_to_amount_int`, of a positive amount. -/
def QuoteSettings.toAmountInt (settings : QuoteSettings) (amount : ℚ) (isQuoteMint : Bool) :
    String :=
  let multiplier : ℚ := if isQuoteMint then 10 ^ settings.quoteMintDecimals.toNat else 1
  toString ⌊amount * multiplier⌋

def QuoteSettings.payload (settings : QuoteSettings) (call : QuoteCall) : QuotePayload where
  inputMint := call.tokenIn
  outputMint := call.tokenOut
  amount := settings.toAmountInt call.amountUsd (call.tokenIn = settings.quoteMint.getD "")
  slippageBps := call.slippageBps

/-- `_quote_request_key` -/
def QuoteFormats.quoteRequestKey (formats : QuoteFormats Q L) (payload : QuotePayload) : String :=
  formats.sha256 (formats.dumps payload)

/-- `_cache_key` -/
def QuotePayload.cacheKey (payload : QuotePayload) : String :=
  "|".intercalate [payload.inputMint, payload.outputMint, payload.amount,
    toString payload.slippageBps]

/-- `_is_cacheable` -/
def QuoteSettings.isCacheable (settings : QuoteSettings) (tokenIn : String) (amountUsd : ℚ) :
    Bool :=
  0 < settings.cacheSeconds && settings.cacheFloorUsd ≤ amountUsd &&
    settings.quoteMint = some tokenIn

section Provider

variable {formats : QuoteFormats Q L}

/-- `_get_cached_quote` -/
def JupiterQuoteProvider.getCachedQuote (provider : JupiterQuoteProvider formats)
    (payload : QuotePayload) (cacheTtlSeconds : Option ℚ) (now : Time) :
    Option (QuoteResponse Q) × JupiterQuoteProvider formats :=
  match provider.quoteCache.get? payload.cacheKey with
  | none => (none, provider)
  | some (cachedAt, quote) =>
      if cacheTtlSeconds.getD provider.settings.cacheSeconds < (now - cachedAt : ℚ) / 1000000 then
        (none, { provider with quoteCache := provider.quoteCache.erase payload.cacheKey })
      else (some quote, provider)

/-- `_set_cached_quote` -/
def JupiterQuoteProvider.setCachedQuote (provider : JupiterQuoteProvider formats)
    (payload : QuotePayload) (cacheTtlSeconds : Option ℚ) (quote : QuoteResponse Q) (now : Time) :
    JupiterQuoteProvider formats :=
  let cached := provider.quoteCache.set payload.cacheKey (now, quote)
  { provider with
    quoteCache :=
      match cacheTtlSeconds with
      | some ttl => if ttl < 0 then cached.erase payload.cacheKey else cached
      | none => cached }

/-- A quote is cached if the call asks for it. -/
def JupiterQuoteProvider.fillCache (provider : JupiterQuoteProvider formats) (call : QuoteCall)
    (quote : QuoteResponse Q) (now : Time) : JupiterQuoteProvider formats :=
  if call.cache && provider.settings.isCacheable call.tokenIn call.amountUsd then
    provider.setCachedQuote (provider.settings.payload call) call.cacheTtlSeconds quote now
  else provider

@[simp] theorem JupiterQuoteProvider.fillCache_settings (provider : JupiterQuoteProvider formats)
    (call : QuoteCall) (quote : QuoteResponse Q) (now : Time) :
    (provider.fillCache call quote now).settings = provider.settings := by
  unfold fillCache
  split <;> rfl

@[simp] theorem JupiterQuoteProvider.fillCache_quoteJournal
    (provider : JupiterQuoteProvider formats) (call : QuoteCall) (quote : QuoteResponse Q)
    (now : Time) : (provider.fillCache call quote now).quoteJournal = provider.quoteJournal := by
  unfold fillCache
  split <;> rfl

/-- `_journal_time` -/
def QuoteFormats.journalTime (formats : QuoteFormats Q L) (raw : Option String) (fallback : Time) :
    Time :=
  match raw with
  | none => fallback
  | some text => if text = "" then fallback else (formats.fromisoformat text).getD fallback

/-- `_build_quote` -/
def QuoteFormats.buildQuote (formats : QuoteFormats Q L) (tokenIn tokenOut : String) (response : Q)
    (requestedAt receivedAt : Time) (latencyMs : Int) (lastSolUsdPrice : ℚ) (now : Time) :
    Except QuoteError (QuoteResponse Q) :=
  match formats.readResponse response with
  | .error error => .error error
  | .ok fields =>
      let quote : QuoteResponse Q :=
        { requestId := fields.requestId
          requestedAt := requestedAt
          receivedAt := receivedAt
          latencyMs := latencyMs
          tokenIn := tokenIn
          tokenOut := tokenOut
          inAmount := fields.inAmount
          outAmount := fields.outAmount
          inAmountUsd := fields.inAmountUsd
          outAmountUsd := fields.outAmountUsd
          route := fields.route
          priceImpactPct := fields.priceImpactPct
          platformFeeUsd := fields.platformFeeUsd
          estimatedNetworkFeeUsd := fields.networkFeeLamports / 1000000000 * lastSolUsdPrice
          expiresAt := fields.expiresAt receivedAt
          raw := response }
      if quote.isStale now then .error (.stale "quote is stale") else .ok quote

/-- A quote is built exactly of a readable response that has not expired. -/
theorem QuoteFormats.buildQuote_eq_ok (formats : QuoteFormats Q L) (tokenIn tokenOut : String)
    (response : Q) (requestedAt receivedAt : Time) (latencyMs : Int) (lastSolUsdPrice : ℚ)
    (now : Time) :
    (∃ quote, formats.buildQuote tokenIn tokenOut response requestedAt receivedAt latencyMs
        lastSolUsdPrice now = .ok quote ∧ quote.raw = response) ↔
      ∃ fields, formats.readResponse response = .ok fields ∧ now < fields.expiresAt receivedAt := by
  unfold buildQuote
  cases formats.readResponse response with
  | error error => simp
  | ok fields =>
      simp only [QuoteResponse.isStale, decide_eq_true_eq, Except.ok.injEq, exists_eq_left']
      split
      · next h => simpa using h
      · next h => simpa using h

/-- When a record was received, by `_journal_time`. -/
def QuoteFormats.receivedTime (formats : QuoteFormats Q L) (record : QuoteRecord Q)
    (now : Time) : Time :=
  formats.journalTime record.receivedAt (formats.journalTime record.requestedAt now)

/-- The quote of a record. -/
def QuoteFormats.storedQuote (formats : QuoteFormats Q L) (call : QuoteCall)
    (circumstances : QuoteCircumstances Q) (record : QuoteRecord Q) :
    Except QuoteError (QuoteResponse Q) :=
  formats.buildQuote call.tokenIn call.tokenOut record.response
    (formats.journalTime record.requestedAt circumstances.journalClock)
    (formats.receivedTime record circumstances.journalClock)
    (record.latencyMs.getD 0) circumstances.lastSolUsdPrice circumstances.storedStaleClock

/-- The quote of an answer of the provider. -/
def QuoteFormats.answerQuote (formats : QuoteFormats Q L) (call : QuoteCall)
    (circumstances : QuoteCircumstances Q) (answer : QuoteAnswer Q) :
    Except QuoteError (QuoteResponse Q) :=
  formats.buildQuote call.tokenIn call.tokenOut answer.result circumstances.requestClock
    answer.receivedAt answer.latencyMs circumstances.lastSolUsdPrice circumstances.staleClock

/-- What the provider gives for a call that reaches it. -/
def QuoteFormats.providerQuote (formats : QuoteFormats Q L) (call : QuoteCall)
    (circumstances : QuoteCircumstances Q) : Except QuoteError (QuoteResponse Q) :=
  match circumstances.answer with
  | .error error => .error error
  | .ok answer => formats.answerQuote call circumstances answer

/-- The record of the provider's answer. -/
def QuoteFormats.quoteRecord (formats : QuoteFormats Q L) (requestKey : String)
    (circumstances : QuoteCircumstances Q) (answer : QuoteAnswer Q) : QuoteRecord Q where
  requestKey := requestKey
  response := answer.result
  requestedAt := some (formats.isoformat circumstances.requestClock)
  receivedAt := some (formats.isoformat answer.receivedAt)
  latencyMs := some answer.latencyMs

/-- An answer of the provider is recorded if recording is on. -/
def JupiterQuoteProvider.recordAnswer (provider : JupiterQuoteProvider formats)
    (requestKey : String) (h : requestKey ≠ "") (circumstances : QuoteCircumstances Q)
    (answer : QuoteAnswer Q) : JupiterQuoteProvider formats :=
  match provider.quoteJournal with
  | some journal =>
      if provider.settings.recordQuotes && !provider.settings.replayMode then
        { provider with
          quoteJournal := some
            (journal.record (formats.quoteRecord requestKey circumstances answer) h) }
      else provider
  | none => provider

/-- `get_quote` where the journal has no record. -/
def JupiterQuoteProvider.askProvider (provider : JupiterQuoteProvider formats) (call : QuoteCall)
    (circumstances : QuoteCircumstances Q) :
    Except QuoteError (QuoteResponse Q) × JupiterQuoteProvider formats :=
  match circumstances.answer with
  | .error error => (.error error, provider)
  | .ok answer =>
      match formats.answerQuote call circumstances answer with
      | .error error => (.error error, provider)
      | .ok quote =>
          (.ok quote, (provider.fillCache call quote circumstances.fillClock).recordAnswer
            (formats.quoteRequestKey (provider.settings.payload call)) (formats.sha256_ne_empty _)
            circumstances answer)

/-- `get_quote` past the cache. -/
def JupiterQuoteProvider.requestQuote (provider : JupiterQuoteProvider formats) (call : QuoteCall)
    (circumstances : QuoteCircumstances Q) :
    Except QuoteError (QuoteResponse Q) × JupiterQuoteProvider formats :=
  let payload := provider.settings.payload call
  match provider.quoteJournal with
  | some journal =>
      match journal.getRecord (formats.quoteRequestKey payload) with
      | (some record, journal) =>
          let provider := { provider with quoteJournal := some journal }
          match formats.storedQuote call circumstances record with
          | .ok quote => (.ok quote, provider.fillCache call quote circumstances.fillClock)
          | .error error => (.error error, provider)
      | (none, _) =>
          if provider.settings.replayMode then
            (.error (.unavailable "replay data missing for quote request"), provider)
          else provider.askProvider call circumstances
  | none => provider.askProvider call circumstances

/-- `get_quote` -/
def JupiterQuoteProvider.getQuote (provider : JupiterQuoteProvider formats) (call : QuoteCall)
    (circumstances : QuoteCircumstances Q) :
    Except QuoteError (QuoteResponse Q) × JupiterQuoteProvider formats :=
  if call.tokenIn = call.tokenOut then
    (.error (.unavailable "token_in and token_out must differ"), provider)
  else if call.amountUsd ≤ 0 then (.error (.value "amount_usd must be positive"), provider)
  else if call.cache && provider.settings.isCacheable call.tokenIn call.amountUsd then
    match provider.getCachedQuote (provider.settings.payload call) call.cacheTtlSeconds
        circumstances.lookupClock with
    | (some quote, provider) => (.ok quote, provider)
    | (none, provider) => provider.requestQuote call circumstances
  else provider.requestQuote call circumstances

end Provider

end SniperBot.Journals
