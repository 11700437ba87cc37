import SniperBot.Paper.Agreement
import Mathlib.Algebra.Order.Field.Basic

/-!
# Entries without a database

Without a database `PaperBroker.open` asks the risk manager once, then waits for the execution
delay and for the quote, and books the fill at the price and with the fee of the quote. The check
is not repeated, so what other tasks do at the awaits, and the fee, are not covered by it;
`commit_paper_entry`, the path with a database, checks again when it fills.

* `fills_safe_iff`: the fills of a run keep the limits exactly when each of them finds room for the
  notional and the fee, and no halt, in the ledger it is booked in.
* `Undisturbed.hasRoom`: a call finds that room when the check saw room for the fee as well, and
  no other entry was booked and no halt set since.
-/

namespace SniperBot.Paper

open Basis Ledger Risk

variable {config : BrokerConfig}

/-! ## Calls of `open` -/

/-- The ledger, and the calls that wait between the risk check and the fill. -/
structure OpenCalls where
  ledger : LedgerState
  waiting : List OpenRequest := []

/-- The ids and the time that a call without a commit books its fill with. -/
def OpenRequest.uncommitted (req : OpenRequest) : Committed where
  positionId := req.positionId
  fillId := req.fillId
  quoteId := "quote-" ++ req.order
  filledAt := req.filledAt

/-- The end of `open`: the quote comes and the position is booked, or something raises. -/
def bookFill (config : BrokerConfig) (ledger : LedgerState) (req : OpenRequest) : LedgerState :=
  match req.quote with
  | none => ledger
  | some quote => match openPosition ledger (req.openArgs config quote.1 req.uncommitted) with
    | .ok (next, _) => next
    | .error _ => ledger

inductive OpenAction
  /-- a call of `open` up to its sleep -/
  | check (req : OpenRequest)
  /-- a waiting call continues -/
  | fill (index : Nat)
  /-- the ledger part of `close` -/
  | close (args : CloseArgs)
  | mark (prices : Dict String ℚ) (observedAt : Time)
  /-- halts and pauses are set and cleared -/
  | control (haltReason : Option String) (pauseUntil : Option Time) (dailyHaltDate : Option String)

namespace OpenCalls

def step (config : BrokerConfig) (s : OpenCalls) : OpenAction → OpenCalls
  | .check req => match repeatedFill s.ledger req.orderId .entry with
    | some _ => s
    | none =>
        match evaluateEntry config.risk config.zone req.now s.ledger req.usdcAmount
          req.tokenMint with
        | (.ok .allow, ledger) => ⟨ledger, s.waiting ++ [req]⟩
        | (_, ledger) => { s with ledger := ledger }
  | .fill index => match s.waiting[index]? with
    | none => s
    | some req => ⟨bookFill config s.ledger req, s.waiting.eraseIdx index⟩
  | .close args => { s with ledger := s.ledger.apply config.zone.dateKey (.closePosition args) }
  | .mark prices observedAt =>
      { s with ledger := markToMarket config.zone.dateKey s.ledger prices observedAt }
  | .control haltReason pauseUntil dailyHaltDate =>
      { s with
        ledger := { s.ledger with
          haltReason := haltReason, pauseUntil := pauseUntil, dailyHaltDate := dailyHaltDate } }

end OpenCalls

/-- A position is booked by a waiting call. -/
def Books (config : BrokerConfig) (s : OpenCalls) : OpenAction → Prop
  | .fill index => s.ledger.fills.length < (s.step config (.fill index)).ledger.fills.length
  | _ => False

instance (s : OpenCalls) : (action : OpenAction) → Decidable (Books config s action)
  | .fill _ => inferInstanceAs (Decidable (_ < _))
  | .check _ | .close _ | .mark _ _ | .control _ _ _ => inferInstanceAs (Decidable False)

/-! ## Limits -/

/-- The exposure, the cash and the number of positions are within the limits. -/
structure WithinRisk (risk : RiskConfig) (s : LedgerState) : Prop where
  exposure : s.lockedCapitalUsd ≤ risk.maxExposureUsdc
  cash : 0 ≤ cashAvailableUsd s
  openCount : (s.openPositions.length : Int) ≤ risk.maxOpenPositions

instance (risk : RiskConfig) (s : LedgerState) : Decidable (WithinRisk risk s) :=
  decidable_of_iff (s.lockedCapitalUsd ≤ risk.maxExposureUsdc ∧ 0 ≤ cashAvailableUsd s ∧
      (s.openPositions.length : Int) ≤ risk.maxOpenPositions)
    ⟨fun ⟨h1, h2, h3⟩ => ⟨h1, h2, h3⟩, fun h => ⟨h.exposure, h.cash, h.openCount⟩⟩

/-- A fill happens while the ledger is not halted and leaves it within the limits. -/
def SafeFill (config : BrokerConfig) (s : OpenCalls) (action : OpenAction) : Prop :=
  Books config s action →
    s.ledger.haltReason = none ∧ WithinRisk config.risk (s.step config action).ledger

instance (s : OpenCalls) (action : OpenAction) : Decidable (SafeFill config s action) :=
  inferInstanceAs (Decidable (_ → _))

/-- The rules of `evaluate_entry` on the amounts, for the notional with the fee. -/
structure HasRoom (risk : RiskConfig) (s : LedgerState) (cost : ℚ) : Prop where
  unhalted : s.haltReason = none
  exposure : s.lockedCapitalUsd + cost ≤ risk.maxExposureUsdc
  cash : cost ≤ cashAvailableUsd s
  openCount : (s.openPositions.length : Int) < risk.maxOpenPositions

/-- What the fill of a call locks: the notional and the fee of the quote. -/
def OpenRequest.cost (req : OpenRequest) (quote : ExecutableQuote) : ℚ :=
  req.usdcAmount + quote.1.estimatedNetworkFeeUsd

/-- A call that books its position finds room for it. -/
def RoomAtFill (config : BrokerConfig) (s : OpenCalls) (action : OpenAction) : Prop :=
  Books config s action → ∀ index, action = .fill index → ∀ req ∈ s.waiting[index]?,
    ∀ quote ∈ req.quote, HasRoom config.risk s.ledger (req.cost quote)

/-- The id factory draws new position ids. -/
def DrawsNewIds (s : OpenCalls) : OpenAction → Prop
  | .fill index => ∀ req ∈ s.waiting[index]?, s.ledger.positions.get? req.positionId = none
  | _ => True

instance (s : OpenCalls) : (action : OpenAction) → Decidable (DrawsNewIds s action)
  | .fill index => inferInstanceAs (Decidable
      (∀ req ∈ s.waiting[index]?, s.ledger.positions.get? req.positionId = none))
  | .check _ | .close _ | .mark _ _ | .control _ _ _ => inferInstanceAs (Decidable True)

/-! ## A fill -/

/-- A waiting call changes nothing, or books its position. -/
theorem bookFill_cases (config : BrokerConfig) (ledger : LedgerState) (req : OpenRequest) :
    bookFill config ledger req = ledger ∨
    ∃ quote valid, req.quote = some quote ∧ bookFill config ledger req =
      ledger.booked (req.openArgs config quote.1 req.uncommitted) valid ∧ 0 < req.usdcAmount := by
  unfold bookFill
  cases hquote : req.quote with
  | none => exact Or.inl rfl
  | some quote =>
      dsimp only
      split
      · rename_i next position hopen
        rcases openPosition_cases hopen with rfl | ⟨valid, rfl, -, husd, -⟩
        · exact Or.inl rfl
        · exact Or.inr ⟨quote, valid, rfl, rfl, husd⟩
      · exact Or.inl rfl

section Booked

variable {s : LedgerState} {req : OpenRequest} {quote : ExecutableQuote}

theorem openCount_booked {args : OpenArgs} (valid : args.costs.Valid)
    (hfresh : s.positions.get? args.positionId = none) :
    (s.booked args valid).openPositions.length = s.openPositions.length + 1 := by
  rw [length_openPositions, length_openPositions, LedgerState.booked,
    Dict.length_filter_set_new _ hfresh]
  rfl

/-- A fill leaves the ledger within the limits exactly when there was room for its cost. -/
theorem withinRisk_booked_iff {risk : RiskConfig}
    {valid : (req.openArgs config quote.1 req.uncommitted).costs.Valid}
    (hfresh : s.positions.get? req.positionId = none) :
    s.haltReason = none ∧
      WithinRisk risk (s.booked (req.openArgs config quote.1 req.uncommitted) valid) ↔
    HasRoom risk s (req.cost quote) := by
  have hcount := openCount_booked valid hfresh
  have hcash : cashAvailableUsd (s.booked (req.openArgs config quote.1 req.uncommitted) valid) =
      cashAvailableUsd s - req.cost quote := sub_add_eq_sub_sub _ _ _
  constructor
  · rintro ⟨hhalt, hexposure, hnonneg, hopen⟩
    rw [hcash] at hnonneg
    rw [hcount] at hopen
    exact ⟨hhalt, hexposure, sub_nonneg.mp hnonneg, by omega⟩
  · rintro ⟨hhalt, hexposure, hnonneg, hopen⟩
    refine ⟨hhalt, hexposure, ?_, ?_⟩
    · rw [hcash]
      exact sub_nonneg.mpr hnonneg
    · rw [hcount]
      omega

end Booked

theorem safeFill_iff {s : OpenCalls} {action : OpenAction} (hnew : DrawsNewIds s action) :
    SafeFill config s action ↔ RoomAtFill config s action := by
  unfold SafeFill RoomAtFill
  refine forall_congr' fun hbooks => ?_
  cases action with
  | fill index =>
      simp only [Books, OpenCalls.step] at hbooks ⊢
      cases hcall : s.waiting[index]? with
      | none =>
          rw [hcall] at hbooks
          exact absurd hbooks (lt_irrefl _)
      | some req =>
          rw [hcall] at hbooks
          dsimp only at hbooks ⊢
          rcases bookFill_cases config s.ledger req with hsame | ⟨quote, valid, hquote, hbooked, -⟩
          · rw [hsame] at hbooks
            exact absurd hbooks (lt_irrefl _)
          · rw [hbooked, withinRisk_booked_iff (hnew req hcall)]
            constructor
            · rintro hroom _ ⟨⟩ _ hreq other hother
              rw [hcall] at hreq
              cases hreq
              rw [hquote] at hother
              cases hother
              exact hroom
            · intro hroom
              exact hroom index rfl req hcall quote hquote
  | check _ | close _ | mark _ _ | control _ _ _ => exact hbooks.elim

/-! ## Between the check and the fill -/

/-- `t` has at least the room of `s`. -/
structure Frees (s t : LedgerState) : Prop where
  exposure : t.lockedCapitalUsd ≤ s.lockedCapitalUsd
  cash : cashAvailableUsd s ≤ cashAvailableUsd t
  openCount : t.openPositions.length ≤ s.openPositions.length

theorem Frees.refl (s : LedgerState) : Frees s s := ⟨le_rfl, le_rfl, le_rfl⟩

theorem Frees.trans {s t u : LedgerState} (h : Frees s t) (h' : Frees t u) : Frees s u :=
  ⟨h'.exposure.trans h.exposure, h.cash.trans h'.cash, h'.openCount.trans h.openCount⟩

/-- No position has a negative cost. -/
def CostsNonneg (s : LedgerState) : Prop :=
  ∀ id p, s.positions.get? id = some p → 0 ≤ p.remainingCostUsd

section Ledger

variable {dateKey : Time → String} {s t : LedgerState}

theorem frees_of_sameBooks (h : SameBooks s t) : Frees s t := by
  obtain ⟨halt, pause, date, baseline, rfl⟩ := h
  exact ⟨le_rfl, le_rfl, le_rfl⟩

theorem CostsNonneg.sameBooks (h : CostsNonneg s) (hsame : SameBooks s t) : CostsNonneg t := by
  obtain ⟨halt, pause, date, baseline, rfl⟩ := hsame
  exact h

section Exit

variable {args : CloseArgs} {id : String} {p : PositionRecord}

/-- The share of the cost that an exit takes out. -/
theorem proportionalCost_bounds (hcase : Ledger.ExitCase s args id p)
    (hcost : 0 ≤ p.remainingCostUsd) :
    0 ≤ args.proportionalCost p ∧ args.proportionalCost p ≤ p.remainingCostUsd := by
  have hfraction : args.closedFraction p ≤ 1 :=
    (div_le_one hcase.remaining_pos).mpr hcase.available
  exact ⟨mul_nonneg hcost (div_nonneg hcase.sold.le hcase.remaining_pos.le),
    mul_le_of_le_one_right hcost hfraction⟩

theorem frees_exited (hcosts : CostsNonneg s) (hcase : Ledger.ExitCase s args id p)
    (valid : args.costs.Valid) : Frees s (s.exited dateKey args id p valid) := by
  obtain ⟨hshare, -⟩ := proportionalCost_bounds hcase (hcosts id p hcase.stored)
  refine ⟨sub_le_self _ hshare, ?_, ?_⟩
  · -- the cash grows by the net proceeds
    have hreceived : 0 ≤ args.netReceived := le_max_left _ _
    simp only [cashAvailableUsd, LedgerState.exited, CloseArgs.realizedDelta]
    linarith
  · rw [length_openPositions, length_openPositions]
    have hcount := Dict.length_filter_set_old (fun e => decide (e.2.status = .opened))
      hcase.stored (args.closedPosition p)
    rw [if_pos (decide_eq_true hcase.opened)] at hcount
    simp only [LedgerState.exited]
    split at hcount <;> omega

theorem CostsNonneg.exited (hcosts : CostsNonneg s) (hcase : Ledger.ExitCase s args id p)
    (valid : args.costs.Valid) : CostsNonneg (s.exited dateKey args id p valid) := by
  obtain ⟨-, hrest⟩ := proportionalCost_bounds hcase (hcosts id p hcase.stored)
  intro j q hget
  simp only [LedgerState.exited, Dict.get?_set] at hget
  split at hget
  · cases hget
    rw [closedPosition_remainingCostUsd]
    exact sub_nonneg.mpr hrest
  · exact hcosts j q hget

end Exit

theorem frees_marked (s : LedgerState) (prices : Dict String ℚ) (observedAt : Time) :
    Frees s (markToMarket dateKey s prices observedAt) := by
  refine ⟨le_rfl, ?_, ?_⟩
  · simp only [cashAvailableUsd, markToMarket]
    linarith
  · rw [length_openPositions, length_openPositions, Dict.length_filter_entries,
      Dict.length_filter_entries, markToMarket, Dict.total_mapValues]
    simp only [markPosition_status, le_refl]

theorem CostsNonneg.marked (h : CostsNonneg s) (prices : Dict String ℚ) (observedAt : Time) :
    CostsNonneg (markToMarket dateKey s prices observedAt) := by
  intro id p hget
  obtain ⟨old, hold, rfl⟩ := get?_markToMarket hget
  rw [markPosition_remainingCostUsd]
  exact h id old hold

theorem CostsNonneg.bookFill (h : CostsNonneg s) (req : OpenRequest) :
    CostsNonneg (bookFill config s req) := by
  rcases bookFill_cases config s req with hsame | ⟨quote, valid, -, hbooked, husd⟩
  · rw [hsame]
    exact h
  · rw [hbooked]
    intro id p hget
    simp only [LedgerState.booked, Dict.get?_set] at hget
    split at hget
    · cases hget
      exact add_nonneg husd.le quote.1.networkFee_nonneg
    · exact h id p hget

end Ledger

theorem check_sameBooks (config : BrokerConfig) (s : OpenCalls) (req : OpenRequest) :
    SameBooks s.ledger (s.step config (.check req)).ledger := by
  have hframe := evaluateEntry_frame config.risk config.zone req.now s.ledger req.usdcAmount
    req.tokenMint
  simp only [OpenCalls.step]
  split
  · exact ⟨_, _, _, _, rfl⟩
  · split
    · rename_i heq
      rw [heq] at hframe
      exact hframe
    · rename_i heq
      rw [heq] at hframe
      exact hframe

theorem CostsNonneg.step {s : OpenCalls} (h : CostsNonneg s.ledger) (action : OpenAction) :
    CostsNonneg (s.step config action).ledger := by
  cases action with
  | check req => exact h.sameBooks (check_sameBooks config s req)
  | fill index =>
      simp only [OpenCalls.step]
      split
      · exact h
      · exact h.bookFill _
  | close args =>
      simp only [OpenCalls.step]
      rcases apply_close_cases config.zone.dateKey s.ledger args with
        hsame | ⟨id, p, valid, hexited, hcase⟩
      · rw [hsame]
        exact h
      · rw [hexited]
        exact h.exited hcase valid
  | mark prices observedAt => exact h.marked prices observedAt
  | control halt pause date => exact h

/-- No entry is booked, and no halt is there afterwards. -/
def Quiet (config : BrokerConfig) (s : OpenCalls) (action : OpenAction) : Prop :=
  ¬ Books config s action ∧ (s.step config action).ledger.haltReason = none

instance (s : OpenCalls) (action : OpenAction) : Decidable (Quiet config s action) :=
  inferInstanceAs (Decidable (_ ∧ _))

/-- Without a new entry no step takes room. -/
theorem frees_step {s : OpenCalls} (h : CostsNonneg s.ledger) {action : OpenAction}
    (hquiet : ¬ Books config s action) : Frees s.ledger (s.step config action).ledger := by
  cases action with
  | check req => exact frees_of_sameBooks (check_sameBooks config s req)
  | fill index =>
      simp only [Books, OpenCalls.step] at hquiet ⊢
      cases hcall : s.waiting[index]? with
      | none => exact Frees.refl _
      | some req =>
          rw [hcall] at hquiet
          dsimp only at hquiet ⊢
          rcases bookFill_cases config s.ledger req with hsame | ⟨quote, valid, -, hbooked, -⟩
          · rw [hsame]
            exact Frees.refl _
          · rw [hbooked] at hquiet
            exact absurd (by simp [LedgerState.booked]) hquiet
  | close args =>
      simp only [OpenCalls.step]
      rcases apply_close_cases config.zone.dateKey s.ledger args with
        hsame | ⟨id, p, valid, hexited, hcase⟩
      · rw [hsame]
        exact Frees.refl _
      · rw [hexited]
        exact frees_exited h hcase valid
  | mark prices observedAt => exact frees_marked s.ledger prices observedAt
  | control halt pause date => exact ⟨le_rfl, le_rfl, le_rfl⟩

/-- A call of `open` whose check saw room for the fee as well, and the steps until its fill. -/
structure Undisturbed (config : BrokerConfig) (s : OpenCalls) (req : OpenRequest)
    (between : List OpenAction) (index : Nat) : Prop where
  first : repeatedFill s.ledger req.orderId .entry = none
  allowed : (evaluateEntry config.risk config.zone req.now s.ledger req.usdcAmount
    req.tokenMint).1 = .ok .allow
  exposure : ∀ quote ∈ req.quote,
    s.ledger.lockedCapitalUsd + req.cost quote ≤ config.risk.maxExposureUsdc
  cash : ∀ quote ∈ req.quote, req.cost quote ≤ cashAvailableUsd s.ledger
  quiet : Along (Quiet config) (OpenCalls.step config) (s.step config (.check req)) between
  waiting : (exec (OpenCalls.step config) (s.step config (.check req)) between).waiting[index]? =
    some req

/-- What the check saw is still there at the fill. -/
theorem Undisturbed.hasRoom {s : OpenCalls} {req : OpenRequest} {between : List OpenAction}
    {index : Nat} (h : Undisturbed config s req between index) (hcosts : CostsNonneg s.ledger) :
    ∀ quote ∈ req.quote, HasRoom config.risk
      (exec (OpenCalls.step config) (s.step config (.check req)) between).ledger
      (req.cost quote) := by
  obtain ⟨-, -, hrules⟩ := evaluateEntry_allow_iff.mp h.allowed
  obtain ⟨-, hopen, -, -⟩ := entryRules_allow hrules
  have hchecked := frees_of_sameBooks (check_sameBooks config s req)
  have hunhalted : (s.step config (.check req)).ledger.haltReason = none := by
    have hnone := evaluateEntry_allow_unhalted h.allowed
    have hallowed := h.allowed
    rcases hcheck : evaluateEntry config.risk config.zone req.now s.ledger req.usdcAmount
      req.tokenMint with ⟨answer, ledger⟩
    rw [hcheck] at hnone hallowed
    cases hallowed
    simp only [OpenCalls.step, h.first, hcheck]
    exact hnone
  have hend : (exec (OpenCalls.step config) (s.step config (.check req))
      between).ledger.haltReason = none :=
    h.quiet.invariant (I := fun s => s.ledger.haltReason = none) (fun _ _ _ hquiet => hquiet.2)
      hunhalted
  have hfrees := hchecked.trans (h.quiet.relates (I := fun s => CostsNonneg s.ledger)
    (R := fun s t => Frees s.ledger t.ledger) (fun s => Frees.refl s.ledger)
    (fun _ _ _ => Frees.trans) (fun _ action hs _ => hs.step action)
    (fun _ _ hs hquiet => frees_step hs hquiet.1) (hcosts.step (.check req)))
  intro quote hquote
  have hexposure := h.exposure quote hquote
  have hcash := h.cash quote hquote
  have hcount := hfrees.openCount
  exact ⟨hend, by linarith [hfrees.exposure], hcash.trans hfrees.cash, by omega⟩

/-! ## Runs -/

/-- The broker and a fresh ledger. -/
def OpenCalls.init (startingEquity : ℚ) : OpenCalls := ⟨LedgerState.init startingEquity, []⟩

/-- In every run that draws new position ids, all fills are safe exactly when each of them finds
room for the notional and the fee, and no halt, in the ledger it is booked in. An undisturbed call
finds it. -/
theorem fills_safe_iff (config : BrokerConfig) (startingEquity : ℚ) (run : List OpenAction)
    (hnew : Along DrawsNewIds (OpenCalls.step config) (OpenCalls.init startingEquity) run) :
    (Along (SafeFill config) (OpenCalls.step config) (OpenCalls.init startingEquity) run ↔
      Along (RoomAtFill config) (OpenCalls.step config) (OpenCalls.init startingEquity) run) ∧
    ∀ req between index,
      Undisturbed config (exec (OpenCalls.step config) (OpenCalls.init startingEquity) run) req
        between index →
      ∀ quote ∈ req.quote, HasRoom config.risk
        (exec (OpenCalls.step config) (OpenCalls.init startingEquity)
          (run ++ .check req :: between)).ledger (req.cost quote) := by
  refine ⟨Along.congr_within (fun _ _ hnew => safeFill_iff hnew) hnew, ?_⟩
  intro req between index hcall
  have hcosts : CostsNonneg
      (exec (OpenCalls.step config) (OpenCalls.init startingEquity) run).ledger :=
    exec_invariant (I := fun s : OpenCalls => CostsNonneg s.ledger)
      (fun _ action hs => hs.step action) (by rintro _ _ ⟨⟩) run
  rw [exec_append, exec_cons]
  exact hcall.hasRoom hcosts

/-- A call for twenty dollars of a mint, with a fee in its quote. -/
def twentyOf (mint : String) (fee : ℚ) (fee_nonneg : 0 ≤ fee) : OpenRequest :=
  { sampleOpen with
    tokenMint := mint, orderId := some ("entry:" ++ mint), positionId := mint
    fillId := "fill:" ++ mint
    quote := some
      ⟨{ inAmount := 20, outAmount := 100, outAmountUsd := some 20, estimatedNetworkFeeUsd := fee
         networkFee_nonneg := fee_nonneg }, hundred_pos,
        fun _ h => Option.some.inj h ▸ twenty_nonneg, le_rfl⟩ }

/-- Two entries, one after the other. -/
def oneByOne : List OpenAction :=
  [.check (twentyOf "A" (1 / 10) (by decide +kernel)), .fill 0,
    .check (twentyOf "B" (1 / 10) (by decide +kernel)), .fill 0]

theorem fills_safe_iff_oneByOne :
    (Along (SafeFill sampleBroker) (OpenCalls.step sampleBroker) (OpenCalls.init 500) oneByOne ↔
      Along (RoomAtFill sampleBroker) (OpenCalls.step sampleBroker) (OpenCalls.init 500)
        oneByOne) ∧
    ∀ req between index,
      Undisturbed sampleBroker (exec (OpenCalls.step sampleBroker) (OpenCalls.init 500) oneByOne)
        req between index →
      ∀ quote ∈ req.quote, HasRoom sampleBroker.risk
        (exec (OpenCalls.step sampleBroker) (OpenCalls.init 500)
          (oneByOne ++ .check req :: between)).ledger (req.cost quote) :=
  fills_safe_iff sampleBroker 500 oneByOne (by decide +kernel)

/-- Three checks before the first of their fills: sixty dollars where fifty are allowed. -/
def threeChecked : List OpenAction :=
  [.check (twentyOf "A" 0 no_fee), .check (twentyOf "B" 0 no_fee), .check (twentyOf "C" 0 no_fee),
    .fill 0, .fill 0, .fill 0]

/-- A halt between the check and the fill. -/
def haltedBetween : List OpenAction :=
  [.check (twentyOf "A" 0 no_fee), .control (some "manual:stop") none none, .fill 0]

/-- The unsafe fills: a fee on top of the last dollar, entries checked together, and a halt in
between. -/
theorem unsafe_fills :
    (Along DrawsNewIds (OpenCalls.step sampleBroker) (OpenCalls.init 20)
        [.check (twentyOf "A" 1 zero_le_one), .fill 0] ∧
      cashAvailableUsd (exec (OpenCalls.step sampleBroker) (OpenCalls.init 20)
        [.check (twentyOf "A" 1 zero_le_one), .fill 0]).ledger = -1 ∧
      ¬ Along (SafeFill sampleBroker) (OpenCalls.step sampleBroker) (OpenCalls.init 20)
        [.check (twentyOf "A" 1 zero_le_one), .fill 0]) ∧
    (Along DrawsNewIds (OpenCalls.step sampleBroker) (OpenCalls.init 500) threeChecked ∧
      (exec (OpenCalls.step sampleBroker) (OpenCalls.init 500)
        threeChecked).ledger.lockedCapitalUsd = 60 ∧
      ¬ Along (SafeFill sampleBroker) (OpenCalls.step sampleBroker) (OpenCalls.init 500)
        threeChecked) ∧
    Along DrawsNewIds (OpenCalls.step sampleBroker) (OpenCalls.init 500) haltedBetween ∧
      ¬ Along (SafeFill sampleBroker) (OpenCalls.step sampleBroker) (OpenCalls.init 500)
        haltedBetween := by
  refine ⟨⟨?_, ?_, ?_⟩, ⟨?_, ?_, ?_⟩, ?_, ?_⟩
  all_goals decide +kernel

end SniperBot.Paper
