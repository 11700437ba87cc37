import SniperBot.Exits.Engine
import SniperBot.Ledger.Accounting

/-!
# Partial closes and the exit rules

A partial close multiplies the remaining tokens, the remaining cost and the marks of a position by
the fraction that is left (`scaled_closedPosition`). The exit rules compare values that all scale by
it, so a position decides the same before and after, but for the share of a second take-profit,
which is one of the entry (`evaluateExit_scaled`).

A position keeps its best mark twice, as a value and as a gain over the remaining cost. The two
agree over every run of the ledger (`PeaksAgree`, `partial_close_keeps_exits`).
-/

namespace SniperBot.Exits

open Basis Ledger

/-! ## Scaled positions -/

/-- `after` is what is left of `before` when the share `r` remains. -/
structure Scaled (r : ℚ) (before after : PositionRecord) : Prop where
  tokens : after.remainingTokenAmount = r * before.remainingTokenAmount
  cost : after.remainingCostUsd = r * before.remainingCostUsd
  highest : after.highestExecutableValueUsd = r * before.highestExecutableValueUsd
  peak : after.peakUnrealizedUsd = r * before.peakUnrealizedUsd
  status : after.status = before.status
  tp1 : after.tp1Taken = before.tp1Taken
  tp2 : after.tp2Taken = before.tp2Taken
  openedAt : after.openedAt = before.openedAt
  lastNewHighAt : after.lastNewHighAt = before.lastNewHighAt

/-- The same exit for the remaining share: the return is the same, the gain is that of the share. -/
structure ExitOfShare (r : ℚ) (before after : ExitDecision) : Prop where
  shouldExit : after.shouldExit = before.shouldExit
  reason : after.reason = before.reason
  executableReturnPct : after.executableReturnPct = before.executableReturnPct
  executablePnlUsd : after.executablePnlUsd = r * before.executablePnlUsd
  closeFraction : before.reason ≠ .tp2 → after.closeFraction = before.closeFraction

namespace Scaled

variable {r : ℚ} {before after : PositionRecord} (h : Scaled r before after) (hr : 0 < r)
  (policy : ExitPolicy) (price : ℚ)

include h

theorem executableMark_eq : executableMark after price = r * executableMark before price := by
  rw [executableMark, executableMark, h.tokens, mul_assoc]

theorem executablePnl_eq : executablePnl after price = r * executablePnl before price := by
  rw [executablePnl, executablePnl, h.executableMark_eq, h.cost, mul_sub]

theorem timeStopHit_iff (now : Time) :
    TimeStopHit policy after now ↔ TimeStopHit policy before now := by
  rw [TimeStopHit, TimeStopHit, h.openedAt, h.lastNewHighAt]

include hr

theorem executableReturn_eq : executableReturn after price = executableReturn before price := by
  rw [executableReturn, executableReturn, h.executablePnl_eq, h.cost,
    mul_div_mul_left _ _ hr.ne']

theorem trailingFloor_eq : trailingFloor policy after = r * trailingFloor policy before := by
  rw [trailingFloor, trailingFloor, h.highest, h.cost, h.peak, ← mul_add,
    ← mul_max_of_nonneg _ _ hr.le, mul_assoc, ← mul_max_of_nonneg _ _ hr.le]

theorem trailingStopHit_iff :
    TrailingStopHit policy after price ↔ TrailingStopHit policy before price := by
  rw [TrailingStopHit, TrailingStopHit, h.tp1, h.highest, h.peak, h.executableMark_eq,
    h.trailingFloor_eq hr, gt_iff_lt, gt_iff_lt, mul_pos_iff_of_pos_left hr,
    mul_pos_iff_of_pos_left hr, mul_le_mul_iff_right₀ hr]

theorem exitWith_same (reason : ExitReason) (fraction fraction' : ℚ)
    (hfraction : reason ≠ .tp2 → fraction' = fraction) :
    ExitOfShare r (exitWith before price reason fraction) (exitWith after price reason fraction') where
  shouldExit := rfl
  reason := rfl
  executableReturnPct := h.executableReturn_eq hr price
  executablePnlUsd := h.executablePnl_eq price
  closeFraction := hfraction

end Scaled

/-- The exit rules do not tell a position from its remaining share. -/
theorem evaluateExit_scaled {r : ℚ} {before after : PositionRecord} (h : Scaled r before after)
    (hr : 0 < r) (policy : ExitPolicy) (price : ℚ) (now : Time) (momentumExit emergencyExit : Bool) :
    ExitOfShare r (evaluateExit policy before price now momentumExit emergencyExit)
      (evaluateExit policy after price now momentumExit emergencyExit) := by
  have hcost : after.remainingCostUsd ≤ 0 ↔ before.remainingCostUsd ≤ 0 := by
    rw [h.cost, ← not_lt, ← not_lt, mul_pos_iff_of_pos_left hr]
  have hsame (reason : ExitReason) (fraction : ℚ) := h.exitWith_same hr price reason fraction
  unfold evaluateExit
  simp only [h.status, hcost, h.tp1, h.tp2, h.executableReturn_eq hr, h.trailingStopHit_iff hr,
    h.timeStopHit_iff]
  split
  · exact ⟨rfl, rfl, rfl, (mul_zero r).symm, fun _ => rfl⟩
  split
  · exact hsame .emergency 1 1 fun _ => rfl
  split
  · exact hsame .stopLoss 1 1 fun _ => rfl
  split
  · exact hsame .tp1 _ _ fun _ => rfl
  split
  · exact hsame .tp2 _ _ fun hne => absurd rfl hne
  split
  · exact hsame .trailingStop 1 1 fun _ => rfl
  split
  · exact hsame .momentumExit 1 1 fun _ => rfl
  split
  · exact hsame .timeStop 1 1 fun _ => rfl
  · exact ⟨rfl, rfl, rfl, h.executablePnl_eq price, fun _ => rfl⟩

/-! ## Partial closes -/

section Close

variable {dateKey : Time → String} {s : LedgerState} {args : CloseArgs} {position : PositionRecord}
  {id : String}

/-- A close of a part leaves a scaled position, unless it takes a take-profit. -/
theorem scaled_closedPosition {f : ℚ} (hremaining : 0 < position.remainingTokenAmount)
    (hsold : args.tokenClosed = f * position.remainingTokenAmount) (hf : f < 1)
    (h1 : args.exitReason ≠ some "TP1") (h2 : args.exitReason ≠ some "TP2") :
    Scaled (1 - f) position (args.closedPosition position) := by
  have hfraction : args.closedFraction position = f := by
    rw [CloseArgs.closedFraction, hsold, mul_div_cancel_right₀ _ hremaining.ne']
  have htokens : (args.reduced position).remainingTokenAmount =
      (1 - f) * position.remainingTokenAmount := by
    simp only [CloseArgs.reduced]
    rw [hsold, sub_mul, one_mul]
  have hopen : ¬ args.Final position := by
    rw [CloseArgs.Final, htokens, not_le]
    exact mul_pos (sub_pos.mpr hf) hremaining
  have hshare : args.remainingFraction position = 1 - f := by
    rw [CloseArgs.remainingFraction, hfraction]
  rw [CloseArgs.closedPosition, if_neg hopen]
  refine ⟨htokens, ?_, ?_, ?_, rfl, ?_, ?_, rfl, rfl⟩
  · simp only [CloseArgs.reduced, CloseArgs.proportionalCost, hfraction]
    ring
  · simp only [CloseArgs.reduced, hshare, mul_comm]
  · simp only [CloseArgs.reduced, hshare, mul_comm]
  · simp [CloseArgs.reduced, h1]
  · simp [CloseArgs.reduced, h2]

/-- A close under a new order id that returns has booked an exit of the open position. -/
theorem closed_of_opened (hindexed : s.tokenPosition args.tokenMint = some id)
    (hstored : s.positions.get? id = some position) (hopened : position.status = .opened)
    (hnew : s.closeOrderIdIndex.get? args.orderId = none) {next : LedgerState}
    {result : PositionRecord} (h : closePosition dateKey s args = .ok (next, result)) :
    0 < args.tokenClosed ∧ args.tokenClosed ≤ position.remainingTokenAmount ∧
      next.positions.get? id = some (args.closedPosition position) := by
  have hposition : s.position id = .ok position := by rw [LedgerState.position, hstored]
  unfold closePosition at h
  rw [hnew, hindexed] at h
  simp only [hposition, bind, Except.bind, hopened, ne_eq, not_true_eq_false, if_false] at h
  split at h
  · cases h
  next hneg =>
    split at h
    · cases h
    next hzero =>
      split at h
      · cases h
      next hexceeds =>
        split at h
        · next valid =>
            cases h
            refine ⟨?_, not_lt.mp hexceeds, Dict.get?_set_self _ _ _⟩
            exact lt_of_le_of_ne (not_lt.mp (not_or.mp hneg).2) (Ne.symm hzero)
        · cases h

end Close

/-! ## The two peaks -/

/-- The best gain over the remaining cost and the best value say the same. -/
def PeakAgrees (position : PositionRecord) : Prop :=
  position.remainingCostUsd + position.peakUnrealizedUsd =
    max position.remainingCostUsd position.highestExecutableValueUsd

instance (position : PositionRecord) : Decidable (PeakAgrees position) :=
  inferInstanceAs (Decidable (_ = _))

theorem peakAgrees_newPosition {args : OpenArgs} (husd : 0 < args.usdAmount)
    (valid : args.costs.Valid) : PeakAgrees args.newPosition := by
  have hcost : 0 ≤ args.entryCost := add_nonneg husd.le valid.2.1
  show args.entryCost + 0 = max args.entryCost 0
  rw [add_zero, max_eq_left hcost]

theorem peakAgrees_marked {position : PositionRecord} (h : PeakAgrees position)
    (prices : Dict String ℚ) (at' : Time) : PeakAgrees (markPosition prices at' position) := by
  unfold markPosition
  split
  · exact h
  · split
    · exact h
    · next price _ =>
        unfold PeakAgrees at h ⊢
        dsimp only
        have hhigh : (if position.remainingTokenAmount * price > position.highestExecutableValueUsd
            then position.remainingTokenAmount * price else position.highestExecutableValueUsd) =
              max position.highestExecutableValueUsd (position.remainingTokenAmount * price) := by
          split
          · next hnew => exact (max_eq_right hnew.le).symm
          · next hold => exact (max_eq_left (not_lt.mp hold)).symm
        rw [hhigh, ← max_add_add_left, h, add_sub_cancel, max_assoc]

theorem peakAgrees_closed {position : PositionRecord} (h : PeakAgrees position) {args : CloseArgs}
    (hsold : 0 < args.tokenClosed) (havailable : args.tokenClosed ≤ position.remainingTokenAmount) :
    PeakAgrees (args.closedPosition position) := by
  have hshare : 0 ≤ args.remainingFraction position := by
    rw [CloseArgs.remainingFraction, CloseArgs.closedFraction, sub_nonneg]
    exact div_le_one_of_le₀ havailable (hsold.trans_le havailable).le
  have hreduced : PeakAgrees (args.reduced position) := by
    have hcost : (args.reduced position).remainingCostUsd =
        position.remainingCostUsd * args.remainingFraction position := by
      simp only [CloseArgs.reduced, CloseArgs.proportionalCost, CloseArgs.remainingFraction]
      ring
    unfold PeakAgrees at h ⊢
    rw [hcost]
    simp only [CloseArgs.reduced]
    rw [← add_mul, h, max_mul_of_nonneg _ _ hshare]
  unfold CloseArgs.closedPosition
  split
  · exact hreduced
  · exact hreduced

def PeaksAgree (s : LedgerState) : Prop :=
  ∀ id position, s.positions.get? id = some position → PeakAgrees position

theorem PeaksAgree.apply {dateKey : Time → String} {s : LedgerState} (h : PeaksAgree s)
    (op : LedgerOp) (hfresh : FreshId s op) : PeaksAgree (s.apply dateKey op) := by
  refine apply_rule hfresh h (fun args valid hcase id p hget => ?_)
    (fun args id position valid hcase j p hget => ?_) fun prices at' id p hget => ?_
  · change (s.positions.set args.positionId args.newPosition).get? id = some p at hget
    rw [Dict.get?_set] at hget
    split at hget
    · exact Option.some.inj hget ▸ peakAgrees_newPosition hcase.usd valid
    · exact h id p hget
  · obtain ⟨-, rfl⟩ | ⟨-, hold⟩ := hcase.stored_cases hget
    · exact peakAgrees_closed (h id position hcase.stored) hcase.sold hcase.available
    · exact h j p hold
  · obtain ⟨old, hold, rfl⟩ := get?_markToMarket hget
    exact peakAgrees_marked (h id old hold) prices at'

/-! ## The result -/

/-- A close of a part that returns, and that takes no take-profit, leaves every exit rule with the
outcome that it had. Over a run of openings, marks and closes the two peaks of every position
agree. -/
theorem partial_close_keeps_exits (dateKey : Time → String) :
    (∀ (s : LedgerState) (args : CloseArgs) (id : String) (position : PositionRecord) (f : ℚ),
      s.tokenPosition args.tokenMint = some id → s.positions.get? id = some position →
      position.status = .opened → s.closeOrderIdIndex.get? args.orderId = none →
      0 < f → f < 1 → args.tokenClosed = f * position.remainingTokenAmount →
      args.exitReason ≠ some "TP1" → args.exitReason ≠ some "TP2" →
      ∀ next result, closePosition dateKey s args = .ok (next, result) →
        ∃ after, next.positions.get? id = some after ∧ Scaled (1 - f) position after ∧
          ∀ (policy : ExitPolicy) (price : ℚ) (now : Time) (momentumExit emergencyExit : Bool),
            executableReturn after price = executableReturn position price ∧
            (TrailingStopHit policy after price ↔ TrailingStopHit policy position price) ∧
            (TimeStopHit policy after now ↔ TimeStopHit policy position now) ∧
            ExitOfShare (1 - f) (evaluateExit policy position price now momentumExit emergencyExit)
              (evaluateExit policy after price now momentumExit emergencyExit)) ∧
    ∀ (starting : ℚ) (ops : List LedgerOp),
      Along FreshId (LedgerState.apply dateKey) (LedgerState.init starting) ops →
      PeaksAgree (exec (LedgerState.apply dateKey) (LedgerState.init starting) ops) := by
  constructor
  · intro s args id position f hindexed hstored hopened hnew _ hf hsold h1 h2 next result hclose
    obtain ⟨hpos, havailable, hget⟩ := closed_of_opened hindexed hstored hopened hnew hclose
    have hscaled := scaled_closedPosition (hpos.trans_le havailable) hsold hf h1 h2
    have hr : 0 < 1 - f := sub_pos.mpr hf
    refine ⟨_, hget, hscaled, fun policy price now momentumExit emergencyExit => ⟨?_, ?_, ?_, ?_⟩⟩
    · exact hscaled.executableReturn_eq hr price
    · exact hscaled.trailingStopHit_iff hr policy price
    · exact hscaled.timeStopHit_iff policy now
    · exact evaluateExit_scaled hscaled hr policy price now momentumExit emergencyExit
  · intro starting ops hrun
    refine hrun.invariant (fun s op h hfresh => PeaksAgree.apply h op hfresh) ?_
    intro id position hget
    cases hget

/-- The bought position of the sample run, marked once, and a sale of four of its ten tokens. -/
def markedOnce : LedgerState :=
  exec (LedgerState.apply fun _ => "day") (LedgerState.init 500) (twoExits.take 2)

def partialSale : CloseArgs :=
  { tokenMint := "TOKEN", usdReceived := 5, tokenClosed := 4, orderId := "exit-1"
    quoteId := "quote-1", closeFillId := "fill-1", createdAt := seconds 2 }

theorem partial_close_keeps_exits_markedOnce :
    ∃ position after, markedOnce.positions.get? "position" = some position ∧
      Scaled (3 / 5) position after ∧ executableReturn after 3 = executableReturn position 3 := by
  have hstored : (markedOnce.positions.get? "position").isSome = true := by decide +kernel
  obtain ⟨position, hposition⟩ := Option.isSome_iff_exists.mp hstored
  have hfields : (markedOnce.positions.get? "position").map
      (fun p => (p.status, p.remainingTokenAmount)) = some (.opened, 10) := by decide +kernel
  rw [hposition] at hfields
  obtain ⟨hopened, htokens⟩ := Prod.mk.inj (Option.some.inj hfields)
  have hreturns : (closePosition (fun _ => "day") markedOnce partialSale).toOption.isSome = true := by
    decide +kernel
  cases hclose : closePosition (fun _ => "day") markedOnce partialSale with
  | error e => rw [hclose] at hreturns; cases hreturns
  | ok result =>
      have hsold : partialSale.tokenClosed = 2 / 5 * position.remainingTokenAmount := by
        rw [htokens]
        norm_num [partialSale]
      obtain ⟨after, -, hscaled, hexits⟩ := (partial_close_keeps_exits fun _ => "day").1 markedOnce
        partialSale "position" position (2 / 5) (by decide +kernel) hposition hopened
        (by decide +kernel) (by norm_num) (by norm_num) hsold (by decide) (by decide) result.1
        result.2 hclose
      refine ⟨position, after, hposition, ?_, (hexits {} 3 0 false false).1⟩
      norm_num at hscaled
      exact hscaled

end SniperBot.Exits
