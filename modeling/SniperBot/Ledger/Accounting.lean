import SniperBot.Ledger.Positions
import SniperBot.Basis.Run

/-!
# The ledger's accounts reconcile

The ledger keeps its totals incrementally: opening adds to the locked capital, an exit moves a
share of the cost out of it and books the difference to the proceeds, a mark replaces the
unrealized result. `Accounts` states the identities between the totals, the positions and the
fills. They hold after every run of operations whose new positions get fresh ids
(`run_accounts`); no condition on the prices of a mark is needed.
-/

namespace SniperBot.Ledger

open Basis

variable {dateKey : Time → String} {s : LedgerState}

/-! ## The accounts -/

/-- The cost that an open position locks. -/
def openCost (position : PositionRecord) : ℚ :=
  if position.status = .opened then position.remainingCostUsd else 0

/-- Proceeds minus cost basis of the tokens sold, for an exit fill. -/
def exitGain (fill : FillRecord) : ℚ :=
  if fill.fillType = .exit then fill.usdNotional - fill.costBasisUsd * fill.tokenAmount else 0

/-- The tokens that a fill sold of one position. -/
def soldOf (positionId : String) (fill : FillRecord) : ℚ :=
  if fill.fillType = .exit ∧ fill.positionId = positionId then fill.tokenAmount else 0

/-- The identities between the totals of a ledger that started with `starting`. -/
structure Accounts (starting : ℚ) (s : LedgerState) : Prop where
  locked : s.lockedCapitalUsd = Dict.total (fun _ p => openCost p) s.positions
  realizedPositions : s.realizedPnlUsd = Dict.total (fun _ p => p.realizedPnlUsd) s.positions
  realizedFills : s.realizedPnlUsd = (s.fills.map exitGain).sum
  equity : s.equityUsd = starting + s.realizedPnlUsd + s.unrealizedPnlUsd
  tokens : ∀ id p, s.positions.get? id = some p →
    (s.fills.map (soldOf id)).sum + p.remainingTokenAmount = p.entryTokenAmount
  peak : s.equityUsd ≤ s.peakEquityUsd

theorem Accounts.init (starting : ℚ) : Accounts starting (LedgerState.init starting) := by
  refine ⟨rfl, rfl, rfl, ?_, ?_, le_rfl⟩
  · simp [LedgerState.init]
  · simp [LedgerState.init]

/-- A position is closed exactly when nothing is left of it. -/
theorem WellFormed.closed_iff (h : WellFormed s) {id : String} {p : PositionRecord}
    (hget : s.positions.get? id = some p) :
    p.status = .closed ↔ p.remainingTokenAmount = 0 := by
  constructor
  · intro hclosed
    exact (h.closedTokens id p hget hclosed).1
  · intro hzero
    cases hstatus : p.status with
    | closed => rfl
    | opened => exact absurd hzero (h.openTokens id p hget hstatus).ne'

/-! ## Opening -/

/-- No fill belongs to an id that is not stored. -/
theorem WellFormed.sold_fresh (h : WellFormed s) {id : String}
    (hfresh : s.positions.get? id = none) : (s.fills.map (soldOf id)).sum = 0 := by
  apply List.sum_eq_zero
  intro x hx
  obtain ⟨fill, hfill, rfl⟩ := List.mem_map.mp hx
  obtain ⟨p, hp⟩ := h.fillPosition fill hfill
  have hne : fill.positionId ≠ id := by
    rintro rfl
    rw [hfresh] at hp
    cases hp
  simp [soldOf, hne]

theorem Accounts.booked {starting : ℚ} (h : Accounts starting s) (hs : WellFormed s)
    {args : OpenArgs} (valid : args.costs.Valid) (hbook : BookCase s args) :
    Accounts starting (s.booked args valid) := by
  have hfresh := hbook.freshId
  refine ⟨?_, ?_, ?_, h.equity, ?_, h.peak⟩
  · simp only [LedgerState.booked]
    rw [Dict.total_set_new _ hfresh, ← h.locked]
    rfl
  · simp only [LedgerState.booked]
    rw [Dict.total_set_new _ hfresh, ← h.realizedPositions]
    simp [OpenArgs.newPosition]
  · simp only [LedgerState.booked]
    rw [List.map_append, List.sum_append, ← h.realizedFills]
    simp [exitGain, OpenArgs.entryFill]
  · intro id p hget
    -- an entry fill sells nothing
    have hentry : ∀ j, soldOf j (args.entryFill valid) = 0 := by
      intro j
      simp [soldOf, OpenArgs.entryFill]
    simp only [LedgerState.booked] at hget ⊢
    rw [List.map_append, List.sum_append, List.map_singleton, List.sum_singleton, hentry, add_zero]
    rw [Dict.get?_set] at hget
    split at hget
    · rename_i heq
      cases hget
      rw [← heq, hs.sold_fresh hfresh, zero_add]
      rfl
    · exact h.tokens id p hget

/-! ## Closing -/

theorem Accounts.exited {starting : ℚ} (h : Accounts starting s) {args : CloseArgs} {id : String}
    {position : PositionRecord} (valid : args.costs.Valid) (hexit : ExitCase s args id position) :
    Accounts starting (s.exited dateKey args id position valid) := by
  have hremaining := hexit.remaining_pos
  refine ⟨?_, ?_, ?_, ?_, ?_, le_max_right _ _⟩
  · -- the open cost falls by the proportional cost, also when the position closes
    have hcost : openCost (args.closedPosition position) =
        openCost position - args.proportionalCost position := by
      unfold openCost
      rw [closedPosition_status hexit.opened, closedPosition_remainingCostUsd,
        if_pos hexit.opened]
      by_cases hfinal : args.Final position
      · rw [if_pos hfinal, if_neg (by decide),
          proportionalCost_of_final hremaining hexit.available hfinal, sub_self]
      · rw [if_neg hfinal, if_pos rfl]
    have htotal := Dict.total_set_old (fun _ p => openCost p) hexit.stored
      (args.closedPosition position)
    simp only [LedgerState.exited]
    rw [h.locked]
    linarith
  · have htotal := Dict.total_set_old (fun _ p => p.realizedPnlUsd) hexit.stored
      (args.closedPosition position)
    rw [closedPosition_realizedPnlUsd] at htotal
    simp only [LedgerState.exited]
    rw [h.realizedPositions]
    linarith
  · have hgain : exitGain (args.closeFill position id valid) = args.realizedDelta position := by
      have htype : (args.closeFill position id valid).fillType = .exit := rfl
      have hamount : (args.closeFill position id valid).tokenAmount = args.tokenClosed := rfl
      have hnotional : (args.closeFill position id valid).usdNotional = args.netReceived := rfl
      rw [exitGain, if_pos htype, hamount, costBasis_mul_tokenClosed hremaining, hnotional]
      rfl
    simp only [LedgerState.exited]
    rw [List.map_append, List.sum_append, List.map_singleton, List.sum_singleton, hgain,
      h.realizedFills]
  · have hequity := h.equity
    simp only [LedgerState.exited]
    linarith
  · intro j p hget
    simp only [LedgerState.exited] at hget ⊢
    rw [List.map_append, List.sum_append, List.map_singleton, List.sum_singleton]
    rcases hexit.stored_cases hget with ⟨rfl, rfl⟩ | ⟨hne, hold⟩
    · have hsold : soldOf j (args.closeFill position j valid) = args.tokenClosed := by
        simp [soldOf, CloseArgs.closeFill]
      have htokens := h.tokens j position hexit.stored
      rw [hsold, closedPosition_remainingTokenAmount, closedPosition_entryTokenAmount]
      linarith
    · have hsold : soldOf j (args.closeFill position id valid) = 0 := by
        simp [soldOf, CloseArgs.closeFill, hne]
      rw [hsold, add_zero]
      exact h.tokens j p hold

/-! ## Marking -/

theorem Accounts.marked {starting : ℚ} (h : Accounts starting s) (prices : Dict String ℚ)
    (at' : Time) : Accounts starting (markToMarket dateKey s prices at') := by
  refine ⟨?_, ?_, h.realizedFills, ?_, ?_, le_max_right _ _⟩
  · simp only [markToMarket, Dict.total_mapValues]
    rw [h.locked]
    refine Dict.total_congr fun id p _ => ?_
    simp only [openCost, markPosition_status, markPosition_remainingCostUsd]
  · simp only [markToMarket, Dict.total_mapValues, markPosition_realizedPnlUsd]
    exact h.realizedPositions
  · have hequity := h.equity
    simp only [markToMarket]
    linarith
  · intro id p hget
    obtain ⟨old, hold, rfl⟩ := get?_markToMarket hget
    rw [markPosition_remainingTokenAmount, markPosition_entryTokenAmount]
    exact h.tokens id old hold

/-! ## Runs -/

theorem Accounts.apply {starting : ℚ} (h : Accounts starting s) (hs : WellFormed s)
    (op : LedgerOp) (hfresh : FreshId s op) : Accounts starting (s.apply dateKey op) :=
  apply_rule hfresh h (fun _ valid hcase => h.booked hs valid hcase)
    (fun _ _ _ valid hcase => h.exited valid hcase) h.marked

/-- The peak never falls. -/
theorem peak_le_apply {op : LedgerOp} (hfresh : FreshId s op) :
    s.peakEquityUsd ≤ (s.apply dateKey op).peakEquityUsd :=
  apply_rule (P := fun t => s.peakEquityUsd ≤ t.peakEquityUsd) hfresh le_rfl
    (fun _ _ _ => le_rfl) (fun _ _ _ _ _ => le_max_left _ _) (fun _ _ => le_max_left _ _)

/-- After every run of openings, exits and marks that started with an empty ledger and gave new
positions fresh ids: the accounts reconcile, a position is closed exactly when nothing is left
of it, and the peak is at least that of every earlier state of the run. -/
theorem run_accounts (dateKey : Time → String) (starting : ℚ) (ops : List LedgerOp)
    (hrun : Along FreshId (LedgerState.apply dateKey) (LedgerState.init starting) ops) :
    Accounts starting (exec (LedgerState.apply dateKey) (LedgerState.init starting) ops) ∧
      (∀ id p, (exec (LedgerState.apply dateKey) (LedgerState.init starting) ops).positions.get? id
          = some p → (p.status = .closed ↔ p.remainingTokenAmount = 0)) ∧
      ∀ first later, ops = first ++ later →
        (exec (LedgerState.apply dateKey) (LedgerState.init starting) first).peakEquityUsd ≤
          (exec (LedgerState.apply dateKey) (LedgerState.init starting) ops).peakEquityUsd := by
  obtain ⟨hs, haccounts⟩ := hrun.invariant (I := fun s => WellFormed s ∧ Accounts starting s)
    (fun _ op h hfresh => ⟨h.1.apply op hfresh, h.2.apply h.1 op hfresh⟩)
    ⟨WellFormed.init starting, Accounts.init starting⟩
  refine ⟨haccounts, fun id p hget => hs.closed_iff hget, ?_⟩
  rintro first later rfl
  rw [exec_append]
  exact (Along.append_iff.mp hrun).2.relates
    (R := fun s t : LedgerState => s.peakEquityUsd ≤ t.peakEquityUsd) (I := fun _ => True)
    (fun _ => le_rfl) (fun _ _ _ => le_trans) (fun _ _ _ _ => trivial)
    (fun _ _ _ hfresh => peak_le_apply hfresh) trivial

/-- An entry with a network fee, a mark, a partial exit at a loss, and the final exit. -/
def twoExits : List LedgerOp :=
  [.openPosition
      { tokenMint := "TOKEN", usdAmount := 20, tokenAmount := 10, orderId := "entry"
        quoteId := "quote-entry", positionId := "position", fillId := "fill", createdAt := 0
        costs := { networkFeeUsd := 1 } },
    .markToMarket (Dict.empty.set "TOKEN" 3) (seconds 1),
    .closePosition
      { tokenMint := "TOKEN", usdReceived := 5, tokenClosed := 4, orderId := "exit-1"
        quoteId := "quote-1", closeFillId := "fill-1", createdAt := seconds 2 },
    .closePosition
      { tokenMint := "TOKEN", usdReceived := 30, tokenClosed := 6, orderId := "exit-2"
        quoteId := "quote-2", closeFillId := "fill-2", createdAt := seconds 3 }]

theorem run_accounts_twoExits :
    Accounts 500 (exec (LedgerState.apply fun _ => "day") (LedgerState.init 500) twoExits) :=
  (run_accounts (fun _ => "day") 500 twoExits (by decide +kernel)).1

end SniperBot.Ledger
