import SniperBot.Paper.Simulation

/-!
# Ledger and database agree

While the two copies of the account agree (`Simulates`), an operation of the broker does one of
four things to both at once: it changes at most the controls of the ledger, it books an entry, it
books an exit, or it writes a mark (`Simulates.both_step`).

Without a sell quote the database gives up a position, whatever amount is sold, and the ledger
keeps the rest open (`partial_unquoted_close_disagrees`). Runs whose closes without a quote sell
the whole position agree after every operation (`run_agree`).
-/

namespace SniperBot.Paper

open Basis Ledger Risk

variable {config : BrokerConfig} {s : BrokerState}

/-! ## The broker's calls -/

theorem adverseFactor_pos (config : BrokerConfig) : 0 < config.adverseFactor := by
  have hlt : (config.adverseFillBps : ℚ) < 10000 := by exact_mod_cast config.bps_lt
  unfold BrokerConfig.adverseFactor
  linarith

theorem quotedUsd_pos {quote : QuoteResponse} (h : quote.Executable) : 0 < quote.quotedUsd := by
  unfold QuoteResponse.quotedUsd
  cases quote.outAmountUsd with
  | none => exact h.1
  | some usd =>
      dsimp only
      split
      · assumption
      · exact h.1

/-- The order id of a call is drawn and unused, or given and used by fills of one side only. -/
def OneSided (ledger : LedgerState) (given : Option String) (drawn : String)
    (side : FillType) : Prop :=
  match given.filter (· ≠ "") with
  | none => Unused ledger drawn
  | some orderId => ∀ fill ∈ ledger.fills, fill.orderId = orderId → fill.fillType = side

instance (ledger : LedgerState) (given : Option String) (drawn : String) (side : FillType) :
    Decidable (OneSided ledger given drawn side) := by
  unfold OneSided Unused
  split <;> infer_instance

/-- A call that is not a repetition has an order id that no fill has. -/
theorem OneSided.unused {ledger : LedgerState} {given : Option String} {drawn : String}
    {side : FillType} (h : OneSided ledger given drawn side)
    (hnew : repeatedFill ledger given side = none) : Unused ledger (chosenOrder given drawn) := by
  unfold OneSided at h
  unfold chosenOrder
  cases hgiven : given.filter (· ≠ "") with
  | none =>
      rw [hgiven] at h
      exact h
  | some orderId =>
      rw [hgiven] at h
      have hsome : given = some orderId := (Option.filter_eq_some_iff.mp hgiven).1
      intro fill hfill heq
      rw [Option.getD_some] at heq
      cases hfound : fillByOrder ledger orderId with
      | none =>
          have hnone := List.find?_eq_none.mp hfound fill (List.mem_reverse.mpr hfill)
          exact hnone (decide_eq_true heq)
      | some last =>
          have hlast : last ∈ ledger.fills := List.mem_reverse.mp (List.mem_of_find?_eq_some hfound)
          have horder : last.orderId = orderId := by
            have hprop := List.find?_some hfound
            exact of_decide_eq_true hprop
          have hside := h last hlast horder
          rw [repeatedFill, hsome, Option.bind_some, hfound] at hnew
          simp [Option.filter, hside] at hnew

theorem OpenRequest.openArgs_valid (config : BrokerConfig) (req : OpenRequest)
    (quote : ExecutableQuote) (committed : Committed) (husd : 0 < req.usdcAmount) :
    (req.openArgs config quote.1 committed).costs.Valid := by
  have hother : 0 ≤ req.usdcAmount * config.adverseFillBps / 10000 := by
    have hbps : (0 : ℚ) ≤ config.adverseFillBps := by exact_mod_cast config.bps_nonneg
    exact div_nonneg (mul_nonneg husd.le hbps) (by norm_num)
  exact ⟨quote.1.platformFee_nonneg, quote.1.networkFee_nonneg, hother, config.bps_nonneg,
    config.bps_lt, quote.2.2.2⟩

theorem CloseRequest.closeArgs_valid (config : BrokerConfig) (req : CloseRequest)
    (committed : Committed) : (req.closeArgs config committed).costs.Valid := by
  have hother : 0 ≤ max 0 (req.quotedUsd - req.sellPriceUsd config) := le_max_left _ _
  unfold CloseRequest.closeArgs
  cases hquote : req.quote with
  | none => exact ⟨le_rfl, le_rfl, hother, config.bps_nonneg, config.bps_lt, le_rfl⟩
  | some quote =>
      exact ⟨quote.1.platformFee_nonneg, quote.1.networkFee_nonneg, hother, config.bps_nonneg,
        config.bps_lt, quote.2.2.2⟩

theorem CloseRequest.sellPriceUsd_nonneg (config : BrokerConfig) (req : CloseRequest) :
    0 ≤ req.sellPriceUsd config := by
  refine mul_nonneg ?_ (adverseFactor_pos config).le
  unfold CloseRequest.quotedUsd
  cases req.quote with
  | none => exact le_rfl
  | some quote => exact (quotedUsd_pos quote.2).le

/-- A close without a quote sells all that is left of the position. -/
def SellsAll (ledger : LedgerState) (req : CloseRequest) : Prop :=
  req.quote = none → ∀ p ∈ ledger.openPositions, p.tokenMint = req.tokenMint →
    p.remainingTokenAmount ≤ req.tokenAmount

/-! ## What an operation does -/

/-- What the commit of an entry answers. -/
def OpenRequest.committed (req : OpenRequest) : Committed :=
  ⟨req.positionId, req.fillId, req.quoteId, req.filledAt⟩

/-- An entry that both copies book; `ledger` is the ledger after the risk check. -/
structure OpenedBoth (config : BrokerConfig) (s : BrokerState) (req : OpenRequest)
    (ledger : LedgerState) (oargs : OpenArgs) (eargs : EntryArgs) (account : AccountRow) :
    Prop where
  checked : SameBooks s.ledger ledger
  quoted : ∃ quote candidateId poolAddress, oargs = req.openArgs config quote req.committed ∧
    eargs = req.entryArgs config quote candidateId poolAddress
  book : BookCase ledger oargs
  valid : oargs.costs.Valid
  commit : EntryCase s.db eargs account

theorem OpenedBoth.same {req : OpenRequest} {ledger : LedgerState} {oargs : OpenArgs}
    {eargs : EntryArgs} {account : AccountRow}
    (h : OpenedBoth config s req ledger oargs eargs account) : SameEntry oargs eargs := by
  obtain ⟨quote, candidateId, poolAddress, rfl, rfl⟩ := h.quoted
  exact ⟨rfl, rfl, rfl, rfl, rfl⟩

/-- An exit that both copies book. -/
structure ClosedBoth (config : BrokerConfig) (s : BrokerState) (req : CloseRequest)
    (cargs : CloseArgs) (account : AccountRow) (id : String) (p : PositionRecord)
    (row : PositionRow) : Prop where
  args : ∃ committed, cargs = req.closeArgs config committed ∧
    committed.filledAt = req.filledAt ∧ committed.fillId = req.fillId
  exit : Ledger.ExitCase s.ledger cargs id p
  valid : cargs.costs.Valid
  commit : ExitCase s.db (req.exitArgs config) account id row
  linked : Linked p row
  whole : req.quote = none → row.tokenAmountRaw ≤ req.tokenAmount

theorem ClosedBoth.same {req : CloseRequest} {cargs : CloseArgs} {account : AccountRow}
    {id : String} {p : PositionRecord} {row : PositionRow}
    (h : ClosedBoth config s req cargs account id p row) :
    SameExit cargs (req.exitArgs config) := by
  obtain ⟨committed, rfl, -, -⟩ := h.args
  refine ⟨rfl, rfl, rfl, rfl, ?_⟩
  show (req.quote.map fun quote => quote.1.estimatedNetworkFeeUsd).getD 0 =
    ((req.quote.map Subtype.val).map (·.estimatedNetworkFeeUsd)).getD 0
  rw [Option.map_map]
  rfl

/-- What a mark writes: every open position has a positive value. -/
structure MarkedBoth (s : BrokerState) (values : Dict String ℚ) (account : AccountRow) :
    Prop where
  account : s.db.account = some account
  valued : ∀ p ∈ s.ledger.openPositions, ∃ value, values.get? p.positionId = some value ∧ 0 < value

/-- The state after a mark of both copies. -/
def BrokerState.markedWith (config : BrokerConfig) (s : BrokerState) (values : Dict String ℚ)
    (account : AccountRow) (now : Time) : BrokerState :=
  let ledger := markToMarket config.zone.dateKey s.ledger
    (quotedPrices values s.ledger.openPositions) now
  ⟨ledger, s.db.marked account values ledger now⟩

/-- The state after a step of both copies: the controls of the ledger at most, an entry, an exit
or a mark. -/
inductive BothSteps (config : BrokerConfig) (s : BrokerState) : BrokerState → Prop
  | same (ledger : LedgerState) (hsame : SameBooks s.ledger ledger) :
      BothSteps config s { s with ledger := ledger }
  | opened (req : OpenRequest) (ledger : LedgerState) (oargs : OpenArgs) (eargs : EntryArgs)
      (account : AccountRow) (hboth : OpenedBoth config s req ledger oargs eargs account) :
      BothSteps config s ⟨ledger.booked oargs hboth.valid, s.db.entered account eargs⟩
  | closed (req : CloseRequest) (cargs : CloseArgs) (account : AccountRow) (id : String)
      (p : PositionRecord) (row : PositionRow)
      (hboth : ClosedBoth config s req cargs account id p row) :
      BothSteps config s ⟨s.ledger.exited config.zone.dateKey cargs id p hboth.valid,
        s.db.exited account (req.exitArgs config) id row⟩
  | marked (values : Dict String ℚ) (account : AccountRow) (now : Time)
      (hboth : MarkedBoth s values account) :
      BothSteps config s (s.markedWith config values account now)

theorem BothSteps.unchanged : BothSteps config s s := .same s.ledger ⟨_, _, _, _, rfl⟩

/-! ## Entries -/

theorem fillEntry_both (h : Simulates config s) {req : OpenRequest} {quote : QuoteResponse}
    {ledger : LedgerState} (hsame : SameBooks s.ledger ledger) (hquote : quote.Executable)
    (hunused : Unused s.ledger req.order) (husd : 0 < req.usdcAmount) (hid : req.positionId ≠ "") :
    BothSteps config s (fillEntry config { s with ledger := ledger } req quote).2 := by
  have hchecked := h.sameBooks hsame
  have hunusedChecked : Unused ledger req.order := by
    obtain ⟨halt, pause, date, baseline, rfl⟩ := hsame
    exact hunused
  unfold fillEntry
  split
  · rename_i candidateId poolAddress _ _
    split
    · exact .same ledger hsame
    · rw [commitPaperEntry_new (h.newOrderRow hunused)]
      rcases lockedEntry_cases (req.entryArgs config quote candidateId poolAddress) s.db with
        ⟨e, he⟩ | ⟨account, hcase, heq⟩
      · rw [transaction_of_error he]
        exact .same ledger hsame
      · rw [transaction_of_ok heq]
        have hmint : ledger.tokenPosition req.tokenMint = none := by
          cases hindex : ledger.tokenPosition req.tokenMint with
          | none => rfl
          | some id =>
              obtain ⟨-, p, hp, hpmint, hopen⟩ :=
                hchecked.wellFormed.indexOpen _ _ (tokenPosition_some hindex)
              obtain ⟨row, hrow, hlinked⟩ := hchecked.linked id p hp
              have hne := livePosition_none hcase.noDuplicate hrow (hlinked.status.mp hopen)
              exact absurd (hlinked.mint.trans hpmint) hne
        have hbook : BookCase ledger (req.openArgs config quote req.committed) :=
          ⟨husd, mul_pos hquote.1 (adverseFactor_pos config), hchecked.newEntry hunusedChecked,
            hmint, hid, hchecked.unstored hcase.freshPosition⟩
        have hvalid := req.openArgs_valid config ⟨quote, hquote⟩ req.committed husd
        have hopened := hbook.openPosition_eq hvalid
        simp only [OpenRequest.entryArgs, OpenRequest.committed] at hopened ⊢
        rw [hopened]
        exact .opened req ledger _ _ account
          ⟨hsame, ⟨quote, candidateId, poolAddress, rfl, rfl⟩, hbook, hvalid, hcase⟩
  · exact .same ledger hsame

theorem brokerOpen_both (h : Simulates config s) (req : OpenRequest)
    (horder : OneSided s.ledger req.orderId req.drawnOrderId .entry) (hid : req.positionId ≠ "") :
    BothSteps config s (brokerOpen config s req).2 := by
  unfold brokerOpen
  split
  · exact .unchanged
  · rename_i hnew
    have hframe := evaluateEntry_frame config.risk config.zone req.now s.ledger req.usdcAmount
      req.tokenMint
    split
    · rename_i heq
      rw [heq] at hframe
      exact .same _ hframe
    · rename_i heq
      rw [heq] at hframe
      exact .same _ hframe
    · rename_i ledger heq
      rw [heq] at hframe
      split
      · exact .same _ hframe
      · rename_i quote _
        exact fillEntry_both h hframe quote.2 (horder.unused hnew)
          (evaluateEntry_allow (congrArg Prod.fst heq)) hid

/-! ## Exits -/

theorem fillExit_both (h : Simulates config s) {req : CloseRequest}
    (hunused : Unused s.ledger req.order) (hall : SellsAll s.ledger req) :
    BothSteps config s (fillExit config s req).2 := by
  unfold fillExit
  rw [commitPaperExit_new (h.newOrderRow hunused)]
  rcases lockedExit_cases (req.exitArgs config) s.db with ⟨e, he⟩ | ⟨account, id, row, hcase, heq⟩
  · rw [transaction_of_error he]
    exact .unchanged
  · rw [transaction_of_ok heq]
    -- the open row of the mint is the ledger's open position
    obtain ⟨hrow, hmint, hlive⟩ := livePosition_some hcase.found
    obtain ⟨p, hp⟩ := h.mirrored id row hrow
    have hlinked := h.link hp hrow
    have hopen : p.status = .opened := hlinked.status.mpr hlive
    have hpmint : p.tokenMint = req.tokenMint := hlinked.mint.symm.trans hmint
    have hindexed : s.ledger.tokenIndex.get? req.tokenMint = some id := by
      rw [← hpmint]
      exact h.wellFormed.openIndexed id p hp hopen
    have hsell : req.quote = none → row.tokenAmountRaw ≤ req.tokenAmount := fun hquote => by
      rw [hlinked.tokens]
      exact hall hquote p (mem_openPositions.mpr ⟨id, hp, hopen⟩) hpmint
    have hexit : ∀ committed, Ledger.ExitCase s.ledger (req.closeArgs config committed) id p :=
      fun committed => ⟨hindexed, hp, hopen, req.sellPriceUsd_nonneg config, hcase.amount,
        hlinked.tokens ▸ hcase.available, h.newExit hunused⟩
    have hvalid := req.closeArgs_valid config
    have hclosed := fun committed => (hexit committed).closePosition_eq config.zone.dateKey
      h.wellFormed (hvalid committed)
    simp only [hclosed]
    exact .closed req _ account id p row
      ⟨⟨_, rfl, rfl, rfl⟩, hexit _, hvalid _, hcase, hlinked, hsell⟩

theorem brokerClose_both (h : Simulates config s) (req : CloseRequest)
    (horder : OneSided s.ledger req.orderId req.drawnOrderId .exit)
    (hall : SellsAll s.ledger req) : BothSteps config s (brokerClose config s req).2 := by
  unfold brokerClose
  split
  · exact .unchanged
  · split
    · exact .unchanged
    · rename_i hnew
      split
      · exact .unchanged
      · split
        · exact .unchanged
        · exact fillExit_both h (horder.unused hnew) hall

/-! ## Marks -/

theorem markUpdate_both (h : Simulates config s) (quotes : Dict String ExecutableQuote)
    (now : Time) : BothSteps config s (markUpdate config s quotes now) := by
  unfold markUpdate
  dsimp only
  split
  · rename_i hguard
    obtain ⟨account, haccount, -⟩ := h.totals
    have hboth : MarkedBoth s (quotes.mapValues fun _ quote => quote.1.executableUsd) account := by
      refine ⟨haccount, fun p hp => ?_⟩
      obtain ⟨value, hvalue⟩ := quoted_of_length hguard.2 p hp
      refine ⟨value, hvalue, ?_⟩
      rw [Dict.get?_mapValues, Option.map_eq_some_iff] at hvalue
      obtain ⟨quote, -, rfl⟩ := hvalue
      exact executableUsd_pos quote.2
    simp only [updatePaperMarks, transaction, haccount, runtimeOwnerError_none h.owner]
    exact .marked _ account now hboth
  · exact .unchanged

theorem Simulates.step (h : Simulates config s) {next : BrokerState}
    (hstep : BothSteps config s next) : Simulates config next := by
  cases hstep with
  | same ledger hsame => exact h.sameBooks hsame
  | opened req ledger oargs eargs account hboth =>
      exact (h.sameBooks hboth.checked).opened hboth.valid hboth.book hboth.commit hboth.same
  | closed req cargs account id p row hboth =>
      exact h.closed hboth.valid hboth.exit hboth.commit hboth.same fun hnone =>
        hboth.whole (Option.map_eq_none_iff.mp hnone)
  | marked values account now hboth => exact h.marked hboth.account hboth.valued

theorem Simulates.brokerOpen (h : Simulates config s) (req : OpenRequest)
    (horder : OneSided s.ledger req.orderId req.drawnOrderId .entry) (hid : req.positionId ≠ "") :
    Simulates config (brokerOpen config s req).2 :=
  h.step (brokerOpen_both h req horder hid)

theorem Simulates.brokerClose (h : Simulates config s) (req : CloseRequest)
    (horder : OneSided s.ledger req.orderId req.drawnOrderId .exit)
    (hall : SellsAll s.ledger req) : Simulates config (brokerClose config s req).2 :=
  h.step (brokerClose_both h req horder hall)

theorem Simulates.markUpdate (h : Simulates config s) (quotes : Dict String ExecutableQuote)
    (now : Time) : Simulates config (markUpdate config s quotes now) :=
  h.step (markUpdate_both h quotes now)

/-! ## Runs -/

/-- What the callers of the broker provide: position ids are not empty, and no order id is used
for an entry and for an exit. -/
def Ordinary (s : BrokerState) : BrokerOp → Prop
  | .openPosition req =>
      OneSided s.ledger req.orderId req.drawnOrderId .entry ∧ req.positionId ≠ ""
  | .closePosition req => OneSided s.ledger req.orderId req.drawnOrderId .exit
  | .mark _ _ => True

/-- A close without a quote sells the whole position. -/
def NoPartGivenUp (s : BrokerState) : BrokerOp → Prop
  | .closePosition req => SellsAll s.ledger req
  | _ => True

instance (s : BrokerState) : (op : BrokerOp) → Decidable (Ordinary s op)
  | .openPosition _ => inferInstanceAs (Decidable (_ ∧ _))
  | .closePosition req =>
      inferInstanceAs (Decidable (OneSided s.ledger req.orderId req.drawnOrderId .exit))
  | .mark _ _ => inferInstanceAs (Decidable True)

instance (s : BrokerState) : (op : BrokerOp) → Decidable (NoPartGivenUp s op)
  | .closePosition req => inferInstanceAs (Decidable (req.quote = none →
      ∀ p ∈ s.ledger.openPositions, p.tokenMint = req.tokenMint →
        p.remainingTokenAmount ≤ req.tokenAmount))
  | .openPosition _ | .mark _ _ => inferInstanceAs (Decidable True)

/-- While ledger and rows agree, an operation is a step of both copies. -/
theorem Simulates.both_step (h : Simulates config s) (op : BrokerOp)
    (hop : Ordinary s op ∧ NoPartGivenUp s op) : BothSteps config s (s.apply config op) := by
  cases op with
  | openPosition req => exact brokerOpen_both h req hop.1.1 hop.1.2
  | closePosition req => exact brokerClose_both h req hop.1 hop.2
  | mark quotes now => exact markUpdate_both h quotes now

theorem Simulates.apply (h : Simulates config s) (op : BrokerOp)
    (hop : Ordinary s op ∧ NoPartGivenUp s op) : Simulates config (s.apply config op) :=
  h.step (h.both_step op hop)

/-- After every run of the broker in which each close without a quote sells the whole position,
the in-memory ledger and the database agree. -/
theorem run_agree (config : BrokerConfig) (startingEquity : ℚ) (now : Time) (ops : List BrokerOp)
    (hrun : Along (fun s op => Ordinary s op ∧ NoPartGivenUp s op) (BrokerState.apply config)
      (BrokerState.init config startingEquity now) ops) :
    Agree (exec (BrokerState.apply config) (BrokerState.init config startingEquity now) ops) :=
  (hrun.invariant (I := Simulates config) (fun _ op h hop => h.apply op hop)
    (Simulates.init config startingEquity now)).agree

/-! ## Two runs -/

/-- A broker with a one percent adverse fill and the default limits. -/
def sampleBroker : BrokerConfig where
  adverseFillBps := 100
  bps_nonneg := by decide
  bps_lt := by decide
  strategyVersion := "v1"
  configHash := "hash"
  risk :=
    { maxPositionUsdc := 20, maxExposureUsdc := 50, maxOpenPositions := 3, dailyLossLimitUsdc := 10
      allTimeDrawdownLimitPct := 10, maxTradesPerDay := 12, maxConsecutiveLosses := 3
      dailyHaltAfterConsecutiveLosses := 4, pauseMinutes := 60 }
  zone := { dateKey := fun _ => "1970-01-01", dayBounds := fun _ => (0, seconds 86400) }
  ownedRun := some "run"

/-- A quote with the given output and dollar value. -/
def quoteOf (outAmount usd : ℚ) (hout : 0 < outAmount) (husd : 0 ≤ usd) : ExecutableQuote :=
  ⟨{ inAmount := 20, outAmount := outAmount, outAmountUsd := some usd }, hout,
    fun _ h => Option.some.inj h ▸ husd, le_rfl⟩

theorem usd_nonneg {usd : ℚ} (hpos : 0 < usd) : 0 ≤ usd := hpos.le

/-- A quote of as many dollars as tokens. -/
def dollarsOf (usd : ℚ) (hpos : 0 < usd) : ExecutableQuote := quoteOf usd usd hpos (usd_nonneg hpos)

theorem ten_pos : (0 : ℚ) < 10 := by decide +kernel

theorem fifteen_pos : (0 : ℚ) < 15 := by decide +kernel

theorem twenty_pos : (0 : ℚ) < 20 := by decide +kernel

theorem twenty_nonneg : (0 : ℚ) ≤ 20 := twenty_pos.le

theorem thirty_pos : (0 : ℚ) < 30 := by decide +kernel

theorem hundred_pos : (0 : ℚ) < 100 := by decide +kernel

/-- A hundred tokens for twenty dollars. -/
def entryQuote : ExecutableQuote := quoteOf 100 20 hundred_pos twenty_nonneg

def sampleOpen : OpenRequest where
  tokenMint := "TOKEN"
  usdcAmount := 20
  orderId := some "entry:candidate"
  candidateId := some "candidate"
  poolAddress := some "pool"
  drawnOrderId := "unused"
  positionId := "position"
  fillId := "fill-entry"
  quoteId := "quote-entry"
  now := seconds 1
  filledAt := seconds 1
  quote := some entryQuote

/-- A close of the sample position. -/
def sampleClose (reason : String) (tokenAmount : ℚ) (quote : Option ExecutableQuote) :
    CloseRequest where
  tokenMint := "TOKEN"
  tokenAmount := tokenAmount
  orderId := some ("exit:position:" ++ reason)
  exitReason := some reason
  drawnOrderId := "unused"
  fillId := "fill-" ++ reason
  quoteId := "quote-" ++ reason
  filledAt := seconds 3
  quote := quote

/-- An entry, a mark, a quoted partial close, and the rest without a quote. -/
def unquotedEnd : List BrokerOp :=
  [.openPosition sampleOpen,
    .mark (Dict.empty.set "position" (dollarsOf 30 thirty_pos))
      (seconds 2),
    .closePosition (sampleClose "TP1" 49 (some (dollarsOf 15 fifteen_pos))),
    .closePosition (sampleClose "UNRECOVERABLE" 50 none)]

theorem run_agree_unquotedEnd :
    Agree (exec (BrokerState.apply sampleBroker) (BrokerState.init sampleBroker 500 0)
      unquotedEnd) :=
  run_agree sampleBroker 500 0 unquotedEnd (by decide +kernel)

/-- A take-profit close of half the position that finds no sell route. -/
def unquotedHalf : List BrokerOp :=
  [.openPosition sampleOpen, .closePosition (sampleClose "TP1" 49 none)]

/-- The row is given up while the ledger holds the rest as an open position. -/
theorem partial_unquoted_close_disagrees :
    Along Ordinary (BrokerState.apply sampleBroker) (BrokerState.init sampleBroker 500 0)
      unquotedHalf ∧
    ((exec (BrokerState.apply sampleBroker) (BrokerState.init sampleBroker 500 0)
      unquotedHalf).ledger.positions.get? "position").map
        (fun p => (p.status, p.remainingTokenAmount)) = some (.opened, 50) ∧
    ((exec (BrokerState.apply sampleBroker) (BrokerState.init sampleBroker 500 0)
      unquotedHalf).db.positions.get? "position").map
        (fun row => (row.status, row.tokenAmountRaw)) = some (.unrecoverable, 50) ∧
    ¬ Agree (exec (BrokerState.apply sampleBroker) (BrokerState.init sampleBroker 500 0)
      unquotedHalf) := by
  have hledger : ((exec (BrokerState.apply sampleBroker) (BrokerState.init sampleBroker 500 0)
      unquotedHalf).ledger.positions.get? "position").map
        (fun p => (p.status, p.remainingTokenAmount)) = some (.opened, 50) := by decide +kernel
  have hdb : ((exec (BrokerState.apply sampleBroker) (BrokerState.init sampleBroker 500 0)
      unquotedHalf).db.positions.get? "position").map
        (fun row => (row.status, row.tokenAmountRaw)) = some (.unrecoverable, 50) := by
    decide +kernel
  refine ⟨by decide +kernel, hledger, hdb, fun hagree => ?_⟩
  obtain ⟨p, hp, hfields⟩ := Option.map_eq_some_iff.mp hledger
  obtain ⟨row, hrow, hrowFields⟩ := Option.map_eq_some_iff.mp hdb
  obtain ⟨row', hrow', hagrees⟩ := hagree.stored "position" p hp
  rw [hrow] at hrow'
  cases hrow'
  have hlive := hagrees.status.mp (congrArg Prod.fst hfields)
  rw [show row.status = .unrecoverable from congrArg Prod.fst hrowFields] at hlive
  exact absurd hlive (by decide)

end SniperBot.Paper
