import SniperBot.Paper.Agreement

/-!
# The dollar value of a sell quote

A quote may come without a dollar value, which is then absent or zero. Four places read the value
of a sell quote: the close of the broker, the mark of the exit loop, the round trip of the security
check (`jupiter.py`) and the stored exit. Without one all four take the output of the quote, which
counts raw units of the base quote token, for dollars (`dollarsUsed_unvalued`). So they use the
value of the tokens only where a raw unit is a whole token (`token_value_used_iff`), which the
configuration does not allow.
-/

namespace SniperBot.Paper

open Basis Ledger Risk

/-! ## The round trip -/

structure RoundTripQuote where
  buy : QuoteResponse
  sell : QuoteResponse
  startingUsd : ℚ
  endingUsd : ℚ
  lossPct : ℚ

/-- `get_round_trip_quote`, once both quotes are there. -/
def roundTripQuote (buy sell : QuoteResponse) (usdcAmount : ℚ) : RoundTripQuote :=
  let starting := match buy.inAmountUsd with
    | none => usdcAmount
    | some usd => if usd > 0 then usd else usdcAmount
  let ending := sell.quotedUsd
  { buy := buy
    sell := sell
    startingUsd := starting
    endingUsd := ending
    lossPct := if starting > 0 then max 0 (1 - ending / starting) else 1 }

/-! ## The four places -/

/-- The quote has no dollar value that can be used. -/
def QuoteResponse.Unvalued (quote : QuoteResponse) : Prop := ∀ usd ∈ quote.outAmountUsd, usd ≤ 0

/-- The value of the output, at one dollar for a token with so many decimals. -/
def QuoteResponse.tokenValue (quote : QuoteResponse) (decimals : Nat) : ℚ :=
  quote.outAmount / 10 ^ decimals

/-- The quote with that value as its dollar value. -/
def valued (quote : ExecutableQuote) (decimals : Nat) : ExecutableQuote :=
  ⟨{ quote.1 with outAmountUsd := some (quote.1.tokenValue decimals) }, quote.2.1,
    fun usd h => Option.some.inj h ▸ (div_pos quote.2.1 (by positivity)).le, quote.2.2.2⟩

/-- The four places take the same amount for the dollars of the quote. -/
structure DollarsUsed (quote : ExecutableQuote) (usd : ℚ) : Prop where
  brokerClose : ∀ req : CloseRequest, req.quote = some quote → req.quotedUsd = usd
  exitMark : quote.1.executableUsd = usd
  roundTrip : ∀ buy usdcAmount, (roundTripQuote buy quote.1 usdcAmount).endingUsd = usd
  commitExit : ∀ args : ExitArgs, args.quote = some quote.1 → args.quotedOutput = usd

theorem DollarsUsed.of_quoted {quote : ExecutableQuote}
    (h : quote.1.executableUsd = quote.1.quotedUsd) : DollarsUsed quote quote.1.quotedUsd where
  brokerClose req hreq := by rw [CloseRequest.quotedUsd, hreq, Option.map_some, Option.getD_some]
  exitMark := h
  roundTrip _ _ := rfl
  commitExit args hargs := by rw [ExitArgs.quotedOutput, hargs, Option.map_some, Option.getD_some]

theorem DollarsUsed.unique {quote : ExecutableQuote} {usd usd' : ℚ} (h : DollarsUsed quote usd)
    (h' : DollarsUsed quote usd') : usd = usd' := h.exitMark.symm.trans h'.exitMark

/-- Without a dollar value the raw output is taken. -/
theorem dollarsUsed_unvalued {quote : ExecutableQuote} (h : quote.1.Unvalued) :
    DollarsUsed quote quote.1.outAmount := by
  have hboth : quote.1.quotedUsd = quote.1.outAmount ∧
      quote.1.executableUsd = quote.1.outAmount := by
    unfold QuoteResponse.quotedUsd QuoteResponse.executableUsd
    cases husd : quote.1.outAmountUsd with
    | none => exact ⟨rfl, rfl⟩
    | some usd =>
        have hle : usd ≤ 0 := h usd husd
        have hzero : usd = 0 := le_antisymm hle (quote.2.2.1 usd husd)
        exact ⟨if_neg (not_lt.mpr hle), if_neg fun hne => hne hzero⟩
  exact hboth.1 ▸ DollarsUsed.of_quoted (hboth.2.trans hboth.1.symm)

/-- A dollar value that is positive is used everywhere. -/
theorem dollarsUsed_valued {quote : ExecutableQuote} {usd : ℚ} (husd : 0 < usd)
    (h : quote.1.outAmountUsd = some usd) : DollarsUsed quote usd := by
  have hquoted : quote.1.quotedUsd = usd := by
    rw [QuoteResponse.quotedUsd, h]
    exact if_pos husd
  have hmark : quote.1.executableUsd = usd := by
    rw [QuoteResponse.executableUsd, h]
    exact if_pos husd.ne'
  exact hquoted ▸ DollarsUsed.of_quoted (hmark.trans hquoted.symm)

theorem tokenValue_eq_outAmount_iff {quote : QuoteResponse} (h : 0 < quote.outAmount)
    (decimals : Nat) : quote.outAmount = quote.tokenValue decimals ↔ decimals = 0 := by
  have hpow : (0 : ℚ) < 10 ^ decimals := by positivity
  rw [QuoteResponse.tokenValue, eq_div_iff hpow.ne', mul_eq_left₀ h.ne']
  constructor
  · intro hone
    by_contra hne
    exact absurd hone (one_lt_pow₀ (by norm_num) hne).ne'
  · rintro rfl
    exact pow_zero 10

/-- A sell quote without a dollar value is worth its tokens if and only if these have no decimals;
and only then the quote with that value is treated like the one without. -/
theorem token_value_used_iff (quote : ExecutableQuote) (h : quote.1.Unvalued) (decimals : Nat) :
    (DollarsUsed quote (quote.1.tokenValue decimals) ↔ decimals = 0) ∧
      ((∀ usd, DollarsUsed quote usd ↔ DollarsUsed (valued quote decimals) usd) ↔
        decimals = 0) := by
  have hraw := dollarsUsed_unvalued h
  have hvalued : DollarsUsed (valued quote decimals) (quote.1.tokenValue decimals) :=
    dollarsUsed_valued (div_pos quote.2.1 (by positivity)) rfl
  have hiff : DollarsUsed quote (quote.1.tokenValue decimals) ↔ decimals = 0 := by
    rw [← tokenValue_eq_outAmount_iff quote.2.1]
    constructor
    · exact hraw.unique
    · intro heq
      exact heq ▸ hraw
  refine ⟨hiff, ?_⟩
  rw [← hiff]
  constructor
  · intro hsame
    exact (hsame _).mpr hvalued
  · intro hused usd
    constructor
    · intro husd
      exact hused.unique husd ▸ hvalued
    · intro husd
      exact hvalued.unique husd ▸ hused

/-- One million raw units of a token with six decimals, without a dollar value. -/
def oneToken : ExecutableQuote := quoteOf 1000000 0 (by norm_num) no_fee

theorem token_value_used_iff_oneToken :
    ¬ DollarsUsed oneToken (oneToken.1.tokenValue 6) ∧ oneToken.1.tokenValue 6 = 1 := by
  have hunvalued : oneToken.1.Unvalued := fun usd husd => (Option.some.inj husd).ge
  refine ⟨fun hused => ?_, by norm_num [QuoteResponse.tokenValue, oneToken, quoteOf]⟩
  exact absurd ((token_value_used_iff oneToken hunvalued 6).1.mp hused) (by decide)

/-- The one dollar of the quote is sold for a million, less the adverse fill. -/
theorem raw_units_are_dollars :
    oneToken.1.executableUsd = 1000000 ∧ oneToken.1.tokenValue 6 = 1 ∧
    (sampleClose "TP1" 5 (some oneToken)).sellPriceUsd sampleBroker =
      1000000 * sampleBroker.adverseFactor ∧
    ¬ ∀ (quote : ExecutableQuote) (decimals : Nat), quote.1.Unvalued →
      1 ≤ decimals → decimals ≤ 18 → DollarsUsed quote (quote.1.tokenValue decimals) := by
  refine ⟨by decide +kernel, by norm_num [QuoteResponse.tokenValue, oneToken, quoteOf],
    by decide +kernel, fun h => ?_⟩
  have hused := h oneToken 6 (fun usd husd => (Option.some.inj husd).ge) (by decide) (by decide)
  have hmark : (1000000 : ℚ) = oneToken.1.tokenValue 6 := hused.exitMark
  norm_num [QuoteResponse.tokenValue, oneToken, quoteOf] at hmark

end SniperBot.Paper
