import SniperBot.Paper.Traces

/-!
# Retries

A call that is retried with its order id after its commit gets the ids of the committed fill back
and books the ledger with them, but with the amounts of its own request and its own quote. The
order is applied once in each store; the two fills show the same amounts exactly when both calls
had the same terms (`run_retry`).
-/

namespace SniperBot.Paper

open Basis Ledger Risk

variable {config : BrokerConfig} {s : BrokerState}

/-! ## The amounts of a retry -/

/-- The ledger's fill has the tokens, the cost or the proceeds, and the fees of the fill row. -/
structure SameAmounts (fill : FillRecord) (row : FillRow) : Prop where
  tokens : fill.tokenAmount =
    match row.side with | .buy => row.outputRawAmount | .sell => row.inputRawAmount
  cost : row.inputUsd =
    match row.side with | .buy => fill.usdNotional | .sell => fill.costBasisUsd * fill.tokenAmount
  proceeds : row.side = .sell → fill.usdNotional = row.outputUsd
  networkFee : fill.costs.networkFeeUsd = row.networkFeeUsd
  platformFee : fill.costs.platformFeeUsd = row.platformFeeUsd

/-- Two entries ask for the same dollars and get quotes with the same output and fees. -/
def SamePurchase (first second : OpenRequest) : Prop :=
  first.usdcAmount = second.usdcAmount ∧ ∀ quote ∈ first.quote, ∀ quote' ∈ second.quote,
    quote.1.outAmount = quote'.1.outAmount ∧
      quote.1.estimatedNetworkFeeUsd = quote'.1.estimatedNetworkFeeUsd ∧
      quote.1.platformFeeUsd = quote'.1.platformFeeUsd

namespace CloseRequest

variable (req : CloseRequest)

def networkFee : ℚ := (req.quote.map fun quote => quote.1.estimatedNetworkFeeUsd).getD 0

def platformFee : ℚ := (req.quote.map fun quote => quote.1.platformFeeUsd).getD 0

end CloseRequest

/-- The stored cost of a token when the first exit was committed is the cost in the ledger when
the second one is booked. -/
def SameBasis (before after : BrokerState) (first second : CloseRequest) : Prop :=
  ∀ row ∈ before.db.livePosition first.tokenMint, ∀ p ∈ after.ledger.openPositions,
    p.tokenMint = second.tokenMint →
      row.2.costPerToken = p.remainingCostUsd / p.remainingTokenAmount

/-- Two exits sell the same tokens at the same fees, their quotes have the same dollar value, or
neither covers its network fee, and a token costs the same in both stores. -/
def SameSale (config : BrokerConfig) (before after : BrokerState) (first second : CloseRequest) :
    Prop :=
  first.tokenAmount = second.tokenAmount ∧ first.networkFee = second.networkFee ∧
    first.platformFee = second.platformFee ∧
    (first.quotedUsd = second.quotedUsd ∨
      first.sellPriceUsd config ≤ first.networkFee ∧
        second.sellPriceUsd config ≤ second.networkFee) ∧
    SameBasis before after first second

/-- The terms of the committed call, made in `before`, and of its retry, made in `after`. -/
def SameTerms (config : BrokerConfig) (before after : BrokerState) : BrokerCall → BrokerCall → Prop
  | .openPosition first, .openPosition second => SamePurchase first second
  | .closePosition first, .closePosition second => SameSale config before after first second
  | _, _ => False

/-! ### The committed call -/

theorem Recorded.not_new {db : PaperDb} {orderId : String} {committed : Committed}
    (h : Recorded db orderId committed) (hnew : db.orders.get? orderId = none) : False := by
  obtain ⟨order, horder, -⟩ := h.order
  rw [hnew] at horder
  cases horder

/-- An opening call that adds its order row has written an entry. -/
theorem cutShort_open_entered {req : OpenRequest}
    (hnew : s.db.orders.get? req.order = none)
    (hadded : ((BrokerCall.openPosition req).cutShort config s).db.orders.get? req.order ≠ none) :
    ∃ quote account candidateId poolAddress, req.quote = some quote ∧
      EntryCase s.db (req.entryArgs config quote.1 candidateId poolAddress) account ∧
      ((BrokerCall.openPosition req).cutShort config s).db =
        s.db.entered account (req.entryArgs config quote.1 candidateId poolAddress) := by
  rw [cutShort_db] at hadded ⊢
  change (brokerOpen config s req).2.db.orders.get? req.order ≠ none at hadded
  change ∃ quote account candidateId poolAddress, req.quote = some quote ∧
    EntryCase s.db (req.entryArgs config quote.1 candidateId poolAddress) account ∧
    (brokerOpen config s req).2.db = _
  rcases brokerOpen_cases config s req with hstopped | ⟨quote, committed, db, hreached, hbooked⟩
  · rw [hstopped.state] at hadded
    exact absurd hnew hadded
  · have hdb : (brokerOpen config s req).2.db = db := by
      cases hbooked with
      | raised e outcome => rw [outcome]
      | booked ledger position result opened outcome => rw [outcome]
    obtain ⟨candidateId, poolAddress, hcommit⟩ := hreached.commit
    rcases commitPaperEntry_ok hcommit with ⟨rfl, hrecorded⟩ | ⟨account, hcase, rfl, -⟩
    · exact (hrecorded.not_new hnew).elim
    · exact ⟨quote, account, candidateId, poolAddress, hreached.quoted, hcase, hdb⟩

theorem cutShort_close_exited {req : CloseRequest}
    (hnew : s.db.orders.get? req.order = none)
    (hadded : ((BrokerCall.closePosition req).cutShort config s).db.orders.get? req.order ≠ none) :
    ∃ account id row, ExitCase s.db (req.exitArgs config) account id row ∧
      ((BrokerCall.closePosition req).cutShort config s).db =
        s.db.exited account (req.exitArgs config) id row := by
  rw [cutShort_db] at hadded ⊢
  change (brokerClose config s req).2.db.orders.get? req.order ≠ none at hadded
  change ∃ account id row, ExitCase s.db (req.exitArgs config) account id row ∧
    (brokerClose config s req).2.db = _
  rcases brokerClose_cases config s req with hstopped | ⟨committed, db, hreached, hbooked⟩
  · rw [hstopped.state] at hadded
    exact absurd hnew hadded
  · have hdb : (brokerClose config s req).2.db = db := by
      cases hbooked with
      | raised e outcome => rw [outcome]
      | booked ledger position result closed outcome => rw [outcome]
    rcases commitPaperExit_ok hreached.commit with ⟨rfl, hrecorded⟩ | ⟨account, id, row, hcase, rfl, -⟩
    · exact (hrecorded.not_new hnew).elim
    · exact ⟨account, id, row, hcase, hdb⟩

/-! ### The retry -/

theorem repeatedFill_of_unused {ledger : LedgerState} {given : Option String} {drawn : String}
    {fillType : FillType} (hgiven : given.filter (· ≠ "") ≠ none)
    (hunused : Unused ledger (chosenOrder given drawn)) :
    repeatedFill ledger given fillType = none := by
  obtain ⟨orderId, hsome⟩ := Option.ne_none_iff_exists'.mp hgiven
  have heq : given = some orderId := (Option.filter_eq_some_iff.mp hsome).1
  rw [chosenOrder, hsome, Option.getD_some] at hunused
  have hnone : fillByOrder ledger orderId = none := by
    refine List.find?_eq_none.mpr fun fill hfill => ?_
    simpa using hunused fill (List.mem_reverse.mp hfill)
  rw [repeatedFill, heq, Option.bind_some, hnone]
  rfl

/-- A retry of a stored entry books the ledger and writes no row. -/
theorem Traced.retried_open (h : Traced s) {req : OpenRequest} {result : ExecutionResult}
    (hproper : (BrokerCall.openPosition req).Proper s.db)
    (hstored : s.db.orders.get? req.order ≠ none) (hunused : Unused s.ledger req.order)
    (hok : (brokerOpen config s req).1 = .ok result) :
    ∃ quote committed valid, req.quote = some quote ∧ (brokerOpen config s req).2 =
      ⟨(checkedLedger config s.ledger req).booked (req.openArgs config quote.1 committed) valid,
        s.db⟩ := by
  rcases brokerOpen_cases config s req with hstopped | ⟨quote, committed, db, hreached, hbooked⟩
  · have hgiven : req.orderId.filter (· ≠ "") ≠ none := fun hnone =>
      hstored (hproper.2.drawn hnone)
    exact absurd (repeatedFill_of_unused hgiven hunused) (hstopped.answer result hok)
  · obtain ⟨hbook, hvalid⟩ := h.bookCase hproper hreached
    obtain ⟨candidateId, poolAddress, hcommit⟩ := hreached.commit
    have hsame : db = s.db := by
      rcases commitPaperEntry_ok hcommit with ⟨rfl, -⟩ | ⟨account, hcase, -⟩
      · rfl
      · exact absurd hcase.freshOrder hstored
    cases hbooked with
    | raised e outcome =>
        rw [outcome] at hok
        cases hok
    | booked ledger position result opened outcome =>
        rw [hbook.openPosition_eq hvalid] at opened
        cases opened
        rw [outcome, hsame]
        exact ⟨quote, committed, hvalid, hreached.quoted, rfl⟩

theorem Traced.retried_close (h : Traced s) {req : CloseRequest} {result : ExecutionResult}
    (hproper : (BrokerCall.closePosition req).Proper s.db)
    (hstored : s.db.orders.get? req.order ≠ none) (hunused : Unused s.ledger req.order)
    (hok : (brokerClose config s req).1 = .ok result) :
    ∃ committed id p valid, p.tokenMint = req.tokenMint ∧
      Ledger.ExitCase s.ledger (req.closeArgs config committed) id p ∧
      (brokerClose config s req).2 = ⟨s.ledger.exited config.zone.dateKey
        (req.closeArgs config committed) id p valid, s.db⟩ := by
  rcases brokerClose_cases config s req with hstopped | ⟨committed, db, hreached, hbooked⟩
  · have hgiven : req.orderId.filter (· ≠ "") ≠ none := fun hnone => hstored (hproper.drawn hnone)
    exact absurd (repeatedFill_of_unused hgiven hunused) (hstopped.answer result hok)
  · obtain ⟨id, p, hmint, hexit⟩ := h.exitCase hproper hreached
    have hvalid := req.closeArgs_valid config committed
    have hsame : db = s.db := by
      rcases commitPaperExit_ok hreached.commit with ⟨rfl, -⟩ | ⟨account, id, row, hcase, -⟩
      · rfl
      · exact absurd hcase.freshOrder hstored
    cases hbooked with
    | raised e outcome =>
        rw [outcome] at hok
        cases hok
    | booked ledger position result closed outcome =>
        rw [hexit.closePosition_eq config.zone.dateKey h.wellFormed hvalid] at closed
        cases closed
        rw [outcome, hsame]
        exact ⟨committed, id, p, hvalid, hmint, hexit, rfl⟩

/-! ### The two fills -/

/-- The entry of the retry against the committed one. -/
theorem sameAmounts_entry {first second : OpenRequest} {quote quote' : QuoteResponse}
    {candidateId poolAddress : String} {committed : Committed}
    (valid : (second.openArgs config quote' committed).costs.Valid) :
    SameAmounts ((second.openArgs config quote' committed).entryFill valid)
        (first.entryArgs config quote candidateId poolAddress).fill ↔
      first.usdcAmount = second.usdcAmount ∧ quote.outAmount = quote'.outAmount ∧
        quote.estimatedNetworkFeeUsd = quote'.estimatedNetworkFeeUsd ∧
        quote.platformFeeUsd = quote'.platformFeeUsd := by
  have hfactor := (adverseFactor_pos config).ne'
  constructor
  · intro h
    have htokens : quote'.outAmount * config.adverseFactor =
        quote.outAmount * config.adverseFactor := h.tokens
    have hcost : first.usdcAmount + quote.estimatedNetworkFeeUsd =
        second.usdcAmount + quote'.estimatedNetworkFeeUsd := h.cost
    have hfee : quote'.estimatedNetworkFeeUsd = quote.estimatedNetworkFeeUsd := h.networkFee
    refine ⟨?_, (mul_right_cancel₀ hfactor htokens).symm, hfee.symm, h.platformFee.symm⟩
    rw [hfee] at hcost
    exact add_right_cancel hcost
  · rintro ⟨husd, hout, hfee, hplatform⟩
    refine ⟨?_, ?_, by rintro ⟨⟩, hfee.symm, hplatform.symm⟩
    · show quote'.outAmount * config.adverseFactor = quote.outAmount * config.adverseFactor
      rw [hout]
    · show first.usdcAmount + quote.estimatedNetworkFeeUsd =
        second.usdcAmount + quote'.estimatedNetworkFeeUsd
      rw [husd, hfee]

theorem max_zero_sub_eq_iff {x y fee : ℚ} :
    max 0 (x - fee) = max 0 (y - fee) ↔ x = y ∨ x ≤ fee ∧ y ≤ fee := by
  by_cases hx : x ≤ fee <;> by_cases hy : y ≤ fee
  · rw [max_eq_left (sub_nonpos.mpr hx), max_eq_left (sub_nonpos.mpr hy)]
    exact iff_of_true rfl (Or.inr ⟨hx, hy⟩)
  · rw [max_eq_left (sub_nonpos.mpr hx), max_eq_right (sub_nonneg.mpr (not_le.mp hy).le)]
    refine iff_of_false (fun h => hy (by linarith)) ?_
    rintro (rfl | h)
    · exact hy hx
    · exact hy h.2
  · rw [max_eq_right (sub_nonneg.mpr (not_le.mp hx).le), max_eq_left (sub_nonpos.mpr hy)]
    refine iff_of_false (fun h => hx (by linarith)) ?_
    rintro (rfl | h)
    · exact hx hy
    · exact hx h.1
  · rw [max_eq_right (sub_nonneg.mpr (not_le.mp hx).le),
      max_eq_right (sub_nonneg.mpr (not_le.mp hy).le), sub_left_inj]
    exact ⟨Or.inl, fun h => h.resolve_right fun hle => hx hle.1⟩

/-- The exit of the retry against the committed one. -/
theorem sameAmounts_exit {first second : CloseRequest} {committed : Committed} {id : String}
    {p : PositionRecord} {row : PositionRow}
    (valid : (second.closeArgs config committed).costs.Valid)
    (hremaining : 0 < p.remainingTokenAmount) (hamount : 0 < second.tokenAmount) :
    SameAmounts ((second.closeArgs config committed).closeFill p id valid)
        ((first.exitArgs config).fill row) ↔
      first.tokenAmount = second.tokenAmount ∧ first.networkFee = second.networkFee ∧
        first.platformFee = second.platformFee ∧
        (first.quotedUsd = second.quotedUsd ∨ first.sellPriceUsd config ≤ first.networkFee ∧
          second.sellPriceUsd config ≤ second.networkFee) ∧
        row.costPerToken = p.remainingCostUsd / p.remainingTokenAmount := by
  have hfactor := (adverseFactor_pos config).ne'
  have hfeeRow : ((first.exitArgs config).fill row).networkFeeUsd = first.networkFee := by
    show ((first.quote.map Subtype.val).map (·.estimatedNetworkFeeUsd)).getD 0 = _
    rw [Option.map_map]
    rfl
  have hplatformRow : ((first.exitArgs config).fill row).platformFeeUsd = first.platformFee := by
    show ((first.quote.map Subtype.val).map (·.platformFeeUsd)).getD 0 = _
    rw [Option.map_map]
    rfl
  have hproceedsRow : ((first.exitArgs config).fill row).outputUsd =
      max 0 (first.sellPriceUsd config - first.networkFee) :=
    congrArg (fun fee => max 0 (first.sellPriceUsd config - fee)) hfeeRow
  have hbasis : ((second.closeArgs config committed).closeFill p id valid).costBasisUsd =
      p.remainingCostUsd / p.remainingTokenAmount := if_pos hremaining.ne'
  have hquoted : first.sellPriceUsd config = second.sellPriceUsd config ↔
      first.quotedUsd = second.quotedUsd := mul_left_inj' hfactor
  constructor
  · intro h
    have htokens : second.tokenAmount = first.tokenAmount := h.tokens
    have hfee : second.networkFee = first.networkFee := h.networkFee.trans hfeeRow
    have hcost : row.costPerToken * first.tokenAmount =
        p.remainingCostUsd / p.remainingTokenAmount * second.tokenAmount := by
      rw [← hbasis]
      exact h.cost
    have hproceeds : max 0 (second.sellPriceUsd config - second.networkFee) =
        max 0 (first.sellPriceUsd config - first.networkFee) := (h.proceeds rfl).trans hproceedsRow
    rw [hfee, eq_comm, max_zero_sub_eq_iff, hquoted] at hproceeds
    refine ⟨htokens.symm, hfee.symm, (h.platformFee.trans hplatformRow).symm, ?_, ?_⟩
    · rw [hfee]
      exact hproceeds
    · rw [← htokens] at hcost
      exact mul_right_cancel₀ hamount.ne' hcost
  · rintro ⟨htokens, hfee, hplatform, hvalue, hcost⟩
    refine ⟨htokens.symm, ?_, fun _ => ?_, hfee.symm.trans hfeeRow.symm,
      hplatform.symm.trans hplatformRow.symm⟩
    · show row.costPerToken * first.tokenAmount = _ * second.tokenAmount
      rw [hbasis, htokens, hcost]
    · rw [hproceedsRow]
      show max 0 (second.sellPriceUsd config - second.networkFee) = _
      rw [← hfee, eq_comm, max_zero_sub_eq_iff, hquoted]
      rw [← hfee] at hvalue
      exact hvalue

theorem filter_booked {fills : List FillRecord} {fill : FillRecord} {orderId : String}
    (hunused : ∀ old ∈ fills, old.orderId ≠ orderId) (hfill : fill.orderId = orderId) :
    (fills ++ [fill]).filter (fun fill => fill.orderId = orderId) = [fill] := by
  rw [List.filter_append, List.filter_eq_nil_iff.mpr, List.nil_append, List.filter_cons,
    if_pos (decide_eq_true hfill), List.filter_nil]
  intro old hold
  simpa using hunused old hold

/-! ### Runs -/

/-- A run in which the call `first` is cut short after its commit and `second`, the first call
with its order id that books the ledger, returns normally in `after`. -/
structure RetryCase (config : BrokerConfig) (startingEquity : ℚ) (now : Time)
    (earlier between : List RetryOp) (first second : BrokerCall) (before after : BrokerState)
    (result : ExecutionResult) : Prop where
  before_eq : before = exec (BrokerState.attempt config)
    (BrokerState.init config startingEquity now) earlier
  after_eq : after = exec (BrokerState.attempt config) (first.cutShort config before) between
  proper : Along ProperCalls (BrokerState.attempt config)
    (BrokerState.init config startingEquity now)
    (earlier ++ .cut first :: between ++ [.call second])
  new : before.db.orders.get? first.order = none
  committed : (first.cutShort config before).db.orders.get? first.order ≠ none
  sameOrder : second.order = first.order
  unbooked : Unused after.ledger first.order
  returns : (second.perform config after).1 = .ok result

section Run

variable {startingEquity : ℚ} {now : Time} {earlier between : List RetryOp}
  {first second : BrokerCall} {before after : BrokerState} {result : ExecutionResult}

/-- The states of the run are traced, and what was committed is still stored at its end. -/
theorem RetryCase.traced
    (h : RetryCase config startingEquity now earlier between first second before after result) :
    Traced after ∧ RowsKept (first.cutShort config before).db after.db ∧ second.Proper after.db := by
  obtain ⟨hleading, hlast⟩ := Along.append_iff.mp h.proper
  obtain ⟨hearlier, hcut⟩ := Along.append_iff.mp hleading
  rw [exec_append, exec_cons] at hlast
  rw [← h.before_eq] at hcut hlast
  have hlast' : Along ProperCalls (BrokerState.attempt config) after [.call second] := by
    rw [h.after_eq]
    exact hlast
  have hbefore : Traced before := by
    rw [h.before_eq]
    exact hearlier.invariant (fun _ op htraced hop => htraced.attempt op hop)
      (Traced.init config startingEquity now)
  have hstart : Traced (first.cutShort config before) := hbefore.cutShort hcut.1
  refine ⟨?_, ?_, hlast'.1⟩
  · rw [h.after_eq]
    exact hcut.2.invariant (fun _ op htraced hop => htraced.attempt op hop) hstart
  · rw [h.after_eq]
    exact hcut.2.relates (I := Traced) (R := fun s t => RowsKept s.db t.db)
      (fun _ => RowsKept.refl _) (fun _ _ _ => RowsKept.trans)
      (fun _ op htraced hop => htraced.attempt op hop)
      (fun _ op htraced hop => htraced.rowsKept op hop) hstart

/-- The only fill row of the committed order is still the only one. -/
theorem FilledOnce.filter_eq {db : PaperDb} (h : FilledOnce db) {fillId : String} {row : FillRow}
    (hget : db.fills.get? fillId = some row) :
    db.fills.values.filter (fun other => other.orderId = row.orderId) = [row] := by
  refine Dict.filter_values_eq_singleton hget (decide_eq_true rfl) fun id other hother heq => ?_
  exact h.once id other fillId row hother hget (of_decide_eq_true heq)

/-- Both fills of the order after the call. -/
structure AppliedOnce (s : BrokerState) (orderId : String) (fill : FillRecord) (row : FillRow) :
    Prop where
  ledger : s.ledger.fills.filter (fun fill => fill.orderId = orderId) = [fill]
  db : s.db.fills.values.filter (fun row => row.orderId = orderId) = [row]

theorem RetryCase.applied_open {first second : OpenRequest}
    (h : RetryCase config startingEquity now earlier between (.openPosition first)
      (.openPosition second) before after result) :
    ∃ fill row, AppliedOnce (brokerOpen config after second).2 first.order fill row ∧
      (SameAmounts fill row ↔ SamePurchase first second) := by
  obtain ⟨htraced, hkept, hproper⟩ := h.traced
  have hsame : second.order = first.order := h.sameOrder
  have hunused : Unused after.ledger second.order := hsame ▸ h.unbooked
  obtain ⟨quote, account, candidateId, poolAddress, hquote, hcase, hdb⟩ :=
    cutShort_open_entered h.new h.committed
  rw [hdb] at hkept
  have hrow := hkept.fills _ _ (Dict.get?_set_self _ _ _)
  have horder := hkept.orders _ _ (Dict.get?_set_self _ _ _)
  have hstored : after.db.orders.get? second.order ≠ none :=
    hsame ▸ Option.ne_none_iff_exists'.mpr ⟨_, horder⟩
  obtain ⟨quote', committed, valid, hquote', heq⟩ :=
    htraced.retried_open hproper hstored hunused h.returns
  rw [heq]
  refine ⟨(second.openArgs config quote'.1 committed).entryFill valid,
    (first.entryArgs config quote.1 candidateId poolAddress).fill, ⟨?_, ?_⟩, ?_⟩
  · rw [← hsame]
    exact filter_booked (unused_of_sameBooks (checkedLedger_sameBooks config after.ledger second)
      hunused) rfl
  · exact htraced.filled.filter_eq hrow
  · rw [sameAmounts_entry]
    simp [SamePurchase, hquote, hquote']

/-- The open position of a mint is unique in the ledger. -/
theorem Traced.position_unique (h : Traced s) {p q : PositionRecord}
    (hp : p ∈ s.ledger.openPositions) (hq : q ∈ s.ledger.openPositions)
    (hmint : q.tokenMint = p.tokenMint) : q = p := by
  obtain ⟨i, hi, hopeni⟩ := mem_openPositions.mp hp
  obtain ⟨j, hj, hopenj⟩ := mem_openPositions.mp hq
  have hindexi := h.wellFormed.openIndexed i p hi hopeni
  have hindexj := h.wellFormed.openIndexed j q hj hopenj
  rw [hmint, hindexi] at hindexj
  cases hindexj
  rw [hi] at hj
  exact (Option.some.inj hj).symm

theorem RetryCase.applied_close {first second : CloseRequest}
    (h : RetryCase config startingEquity now earlier between (.closePosition first)
      (.closePosition second) before after result) :
    ∃ fill row, AppliedOnce (brokerClose config after second).2 first.order fill row ∧
      (SameAmounts fill row ↔ SameSale config before after first second) := by
  obtain ⟨htraced, hkept, hproper⟩ := h.traced
  have hsame : second.order = first.order := h.sameOrder
  have hunused : Unused after.ledger second.order := hsame ▸ h.unbooked
  obtain ⟨account, id, row, hcase, hdb⟩ := cutShort_close_exited h.new h.committed
  rw [hdb] at hkept
  have hrow := hkept.fills _ _ (Dict.get?_set_self _ _ _)
  have horder := hkept.orders _ _ (Dict.get?_set_self _ _ _)
  have hstored : after.db.orders.get? second.order ≠ none :=
    hsame ▸ Option.ne_none_iff_exists'.mpr ⟨_, horder⟩
  obtain ⟨committed, id', p, valid, hmint, hexit, heq⟩ :=
    htraced.retried_close hproper hstored hunused h.returns
  have hp : p ∈ after.ledger.openPositions :=
    mem_openPositions.mpr ⟨id', hexit.stored, hexit.opened⟩
  have hbasis : SameBasis before after first second ↔
      row.costPerToken = p.remainingCostUsd / p.remainingTokenAmount := by
    constructor
    · intro hsame
      exact hsame (id, row) hcase.found p hp hmint
    · intro hcost found hfound q hq hqmint
      rw [Option.mem_def, show before.db.livePosition first.tokenMint = some (id, row) from
        hcase.found] at hfound
      cases hfound
      rw [htraced.position_unique hp hq (hqmint.trans hmint.symm)]
      exact hcost
  rw [heq]
  refine ⟨(second.closeArgs config committed).closeFill p id' valid,
    (first.exitArgs config).fill row, ⟨?_, ?_⟩, ?_⟩
  · rw [← hsame]
    exact filter_booked hunused rfl
  · exact htraced.filled.filter_eq hrow
  · rw [sameAmounts_exit valid hexit.remaining_pos hexit.sold, SameSale, hbasis]

/-- A call that is retried with its order id after its commit applies the order once in each
store. The amounts in the ledger are those of the committed fill exactly when the two calls have
the same terms. -/
theorem run_retry
    (h : RetryCase config startingEquity now earlier between first second before after result) :
    ∃ fill row, AppliedOnce (second.perform config after).2 first.order fill row ∧
      (SameAmounts fill row ↔ SameTerms config before after first second) := by
  obtain ⟨-, hkept, hproper⟩ := h.traced
  cases first with
  | openPosition first =>
      cases second with
      | openPosition second => exact h.applied_open
      | closePosition second =>
          -- the stored order is a purchase
          obtain ⟨quote, account, candidateId, poolAddress, -, -, hdb⟩ :=
            cutShort_open_entered h.new h.committed
          rw [hdb] at hkept
          have horder := hkept.orders _ _ (Dict.get?_set_self _ _ _)
          have hsame : second.order = first.order := h.sameOrder
          have hsided := hproper.sided _ ((congrArg after.db.orders.get? hsame).trans horder)
          cases hsided
  | closePosition first =>
      cases second with
      | closePosition second => exact h.applied_close
      | openPosition second =>
          obtain ⟨account, id, row, -, hdb⟩ := cutShort_close_exited h.new h.committed
          rw [hdb] at hkept
          have horder := hkept.orders _ _ (Dict.get?_set_self _ _ _)
          have hsame : second.order = first.order := h.sameOrder
          have hsided := hproper.2.sided _ ((congrArg after.db.orders.get? hsame).trans horder)
          cases hsided

end Run

/-! ## A take-profit exit that is retried -/

/-- The position is open and marked. -/
def openedAndMarked : List RetryOp :=
  [.call (.openPosition sampleOpen),
    .mark (Dict.empty.set "position" (dollarsOf 30 thirty_pos))
      (seconds 2)]

/-- Half of the position is sold for fifteen dollars. -/
def halfSold : BrokerCall :=
  .closePosition (sampleClose "TP1" 49 (some (dollarsOf 15 fifteen_pos)))

/-- The retry of that exit, with the ids and the quote that it gets. -/
def halfSoldAgain (usd : ℚ) (hpos : 0 < usd) : BrokerCall :=
  .closePosition
    { sampleClose "TP1" 49 (some (dollarsOf usd hpos)) with
      fillId := "fill-again", quoteId := "quote-again", filledAt := seconds 4 }

def beforeHalfSold : BrokerState :=
  exec (BrokerState.attempt sampleBroker) (BrokerState.init sampleBroker 500 0) openedAndMarked

def afterHalfSold : BrokerState := halfSold.cutShort sampleBroker beforeHalfSold

/-- What a retry answers. -/
def halfSoldResult (usd : ℚ) : ExecutionResult where
  positionId := "position"
  orderId := "exit:position:TP1"
  tokenMint := "TOKEN"
  fillId := "fill-TP1"
  usdNotional := usd * sampleBroker.adverseFactor
  tokenAmount := 49
  direction := .exit

theorem run_retry_sameQuote :
    ∃ fill row, AppliedOnce
        ((halfSoldAgain 15 (by decide +kernel)).perform sampleBroker afterHalfSold).2
        "exit:position:TP1" fill row ∧ SameAmounts fill row := by
  have hcase : RetryCase sampleBroker 500 0 openedAndMarked [] halfSold
      (halfSoldAgain 15 (by decide +kernel)) beforeHalfSold afterHalfSold (halfSoldResult 15) :=
    ⟨rfl, rfl, by decide +kernel, by decide +kernel, by decide +kernel, rfl,
      by unfold Unused; decide +kernel, by decide +kernel⟩
  obtain ⟨fill, row, happlied, hiff⟩ := run_retry hcase
  refine ⟨fill, row, happlied, hiff.mpr ⟨rfl, rfl, rfl, Or.inl rfl, ?_⟩⟩
  unfold SameBasis
  decide +kernel

/-- The retry gets a quote of twelve dollars: the ledger books these, the database keeps the
fifteen of the committed fill. -/
theorem retry_with_new_quote_disagrees :
    RetryCase sampleBroker 500 0 openedAndMarked [] halfSold
      (halfSoldAgain 12 (by decide +kernel)) beforeHalfSold afterHalfSold (halfSoldResult 12) ∧
    ∀ fill row, AppliedOnce
        ((halfSoldAgain 12 (by decide +kernel)).perform sampleBroker afterHalfSold).2
        "exit:position:TP1" fill row →
      fill.usdNotional = 297 / 25 ∧ row.outputUsd = 297 / 20 ∧ ¬ SameAmounts fill row := by
  constructor
  · exact ⟨rfl, rfl, by decide +kernel, by decide +kernel, by decide +kernel, rfl,
      by unfold Unused; decide +kernel, by decide +kernel⟩
  · intro fill row happlied
    have hfill : (((halfSoldAgain 12 (by decide +kernel)).perform sampleBroker
        afterHalfSold).2.ledger.fills.filter fun fill => fill.orderId = "exit:position:TP1").map
        (·.usdNotional) = [297 / 25] := by decide +kernel
    have hrow : (((halfSoldAgain 12 (by decide +kernel)).perform sampleBroker
        afterHalfSold).2.db.fills.values.filter fun row => row.orderId = "exit:position:TP1").map
        (fun row => (row.side, row.outputUsd)) = [(.sell, 297 / 20)] := by decide +kernel
    rw [happlied.ledger] at hfill
    rw [happlied.db] at hrow
    simp only [List.map_cons, List.map_nil, List.cons.injEq, Prod.mk.injEq, and_true] at hfill hrow
    refine ⟨hfill, hrow.2, fun hsame => ?_⟩
    have heq := hsame.proceeds hrow.1
    rw [hfill, hrow.2] at heq
    norm_num at heq

end SniperBot.Paper
