import SniperBot.Paper.Agreement
import SniperBot.Paper.Restore
import SniperBot.Risk.Streak

/-!
# What the rows keep of the ledger

A restart rebuilds the ledger from the rows (`Paper.Restore`). `Simulates` is about amounts;
`Kept` says what else the rows keep of a run of the broker.

* `MarkKept`: once a mark was written to the row of a position, the row has the values that the
  exit rules read. The peak gain is not stored; it is bounded by the highest value.
* `FillKept`: the fill rows are those of the ledger's fills, in the order of the commits, and each
  can be restored.
* `restoreLedger_permuted`: restoring succeeds for every order in which the fill rows are read, and
  the order decides only the order of the restored fills.
-/

namespace SniperBot.Paper

open Basis Ledger Risk

variable {config : BrokerConfig} {s : BrokerState}

/-! ## Positions -/

/-- A row with the values that a mark wrote, up to the exits since. -/
structure MarkKept (p : PositionRecord) (row : PositionRow) : Prop where
  highest : row.highestExecutableValue = p.highestExecutableValueUsd
  newHigh : row.lastNewHighAt = p.lastNewHighAt
  peak_nonneg : 0 ≤ p.peakUnrealizedUsd
  peak_le : p.remainingCostUsd + p.peakUnrealizedUsd ≤
    max p.remainingCostUsd p.highestExecutableValueUsd

/-- A position that no mark has reached, and the row as the entry wrote it. -/
structure NeverMarked (p : PositionRecord) (row : PositionRow) : Prop where
  highest : p.highestExecutableValueUsd = 0
  peak : p.peakUnrealizedUsd = 0
  newHigh : p.lastNewHighAt = none
  rowNewHigh : row.lastNewHighAt = some p.openedAt

structure PositionKept (p : PositionRecord) (row : PositionRow) : Prop where
  entryTime : row.entryTime = p.openedAt
  entryTokens : row.initialTokenAmountRaw = p.entryTokenAmount
  tp1 : row.tp1Taken = p.tp1Taken
  tp2 : row.tp2Taken = p.tp2Taken
  cost : p.status = .opened → 0 < p.remainingCostUsd
  marked : p.lowestExecutableValueUsd ≠ none → MarkKept p row
  unmarked : p.lowestExecutableValueUsd = none → NeverMarked p row

/-- The entry of a position and its row. -/
theorem OpenedBoth.positionKept {req : OpenRequest} {ledger : LedgerState} {oargs : OpenArgs}
    {eargs : EntryArgs} {account : AccountRow}
    (h : OpenedBoth config s req ledger oargs eargs account) :
    PositionKept oargs.newPosition eargs.position := by
  have hcost : 0 < oargs.entryCost := by
    have hfee := h.valid.2.1
    have husd := h.book.usd
    unfold OpenArgs.entryCost
    linarith
  obtain ⟨quote, candidateId, poolAddress, rfl, rfl⟩ := h.quoted
  exact ⟨rfl, rfl, rfl, rfl, fun _ => hcost, fun hmarked => absurd rfl hmarked,
    fun _ => ⟨rfl, rfl, rfl, rfl⟩⟩

section Exit

variable {cargs : CloseArgs} {eargs : ExitArgs} {id : String} {p : PositionRecord}
  {row : PositionRow}

/-- The fields of a closed position that an exit scales, and those it leaves. -/
theorem closedPosition_marks (args : CloseArgs) (position : PositionRecord) :
    (args.closedPosition position).openedAt = position.openedAt ∧
    (args.closedPosition position).lastNewHighAt = position.lastNewHighAt ∧
    (args.closedPosition position).highestExecutableValueUsd =
      position.highestExecutableValueUsd * args.remainingFraction position ∧
    (args.closedPosition position).peakUnrealizedUsd =
      position.peakUnrealizedUsd * args.remainingFraction position ∧
    (args.closedPosition position).lowestExecutableValueUsd =
      position.lowestExecutableValueUsd.map (· * args.remainingFraction position) ∧
    (args.closedPosition position).tp1Taken =
      (position.tp1Taken || args.exitReason == some "TP1") ∧
    (args.closedPosition position).tp2Taken =
      (position.tp2Taken || args.exitReason == some "TP2") := by
  unfold CloseArgs.closedPosition
  split <;> exact ⟨rfl, rfl, rfl, rfl, rfl, rfl, rfl⟩

/-- The cost that an exit leaves is the remaining share of the cost. -/
theorem closedPosition_cost (args : CloseArgs) (position : PositionRecord) :
    (args.closedPosition position).remainingCostUsd =
      position.remainingCostUsd * args.remainingFraction position := by
  rw [closedPosition_remainingCostUsd, CloseArgs.proportionalCost, CloseArgs.remainingFraction]
  ring

theorem remainingFraction_nonneg (hexit : Ledger.ExitCase s.ledger cargs id p) :
    0 ≤ cargs.remainingFraction p := by
  have hle : cargs.closedFraction p ≤ 1 := (div_le_one hexit.remaining_pos).mpr hexit.available
  unfold CloseArgs.remainingFraction
  linarith

theorem remainingFraction_pos (hexit : Ledger.ExitCase s.ledger cargs id p)
    (hopen : (cargs.closedPosition p).status = .opened) : 0 < cargs.remainingFraction p := by
  have hleft : ¬ cargs.Final p := by
    intro hfinal
    rw [closedPosition_status hexit.opened, if_pos hfinal] at hopen
    cases hopen
  have hlt : cargs.tokenClosed < p.remainingTokenAmount :=
    lt_of_le_of_ne hexit.available fun hall => hleft ((final_iff hexit.available).mpr hall)
  have hlt' : cargs.closedFraction p < 1 := (div_lt_one hexit.remaining_pos).mpr hlt
  unfold CloseArgs.remainingFraction
  linarith

/-- An exit scales the values of position and row alike. -/
theorem MarkKept.exited (h : MarkKept p row) {f : ℚ} (hf : 0 ≤ f) {q : PositionRecord}
    {row' : PositionRow} (hhigh : q.highestExecutableValueUsd = p.highestExecutableValueUsd * f)
    (hrow : row'.highestExecutableValue = row.highestExecutableValue * f)
    (hpeak : q.peakUnrealizedUsd = p.peakUnrealizedUsd * f)
    (hcost : q.remainingCostUsd = p.remainingCostUsd * f) (hnew : q.lastNewHighAt = p.lastNewHighAt)
    (hrowNew : row'.lastNewHighAt = row.lastNewHighAt) : MarkKept q row' where
  highest := by rw [hrow, hhigh, h.highest]
  newHigh := by rw [hrowNew, hnew, h.newHigh]
  peak_nonneg := by
    rw [hpeak]
    exact mul_nonneg h.peak_nonneg hf
  peak_le := by
    rw [hcost, hpeak, hhigh, ← add_mul, ← max_mul_of_nonneg _ _ hf]
    exact mul_le_mul_of_nonneg_right h.peak_le hf

theorem PositionKept.exited {req : CloseRequest} {account : AccountRow}
    (h : PositionKept p row) (hboth : ClosedBoth config s req cargs account id p row) :
    PositionKept (cargs.closedPosition p) ((req.exitArgs config).exitedRow row) := by
  have hfraction : (req.exitArgs config).remainingFraction row = cargs.remainingFraction p := by
    rw [ExitArgs.remainingFraction, CloseArgs.remainingFraction,
      fraction_eq hboth.same hboth.linked]
  have hreason : cargs.exitReason = some (req.exitArgs config).exitReason := by
    obtain ⟨committed, rfl, -, -⟩ := hboth.args
    rfl
  have hnonneg := remainingFraction_nonneg hboth.exit
  obtain ⟨hopened, hnew, hhigh, hpeak, hlow, htp1, htp2⟩ := closedPosition_marks cargs p
  refine ⟨h.entryTime.trans hopened.symm, ?_, ?_, ?_, ?_, ?_, ?_⟩
  · rw [closedPosition_entryTokenAmount]
    exact h.entryTokens
  · rw [htp1, hreason, ← h.tp1]
    simp [ExitArgs.exitedRow, beq_eq_decide]
  · rw [htp2, hreason, ← h.tp2]
    simp [ExitArgs.exitedRow, beq_eq_decide]
  · intro hopen
    rw [closedPosition_cost]
    exact mul_pos (h.cost hboth.exit.opened) (remainingFraction_pos hboth.exit hopen)
  · intro hmarked
    have hold : p.lowestExecutableValueUsd ≠ none := by
      intro hnone
      rw [hlow, hnone] at hmarked
      exact hmarked rfl
    exact (h.marked hold).exited hnonneg hhigh
      (by simp only [ExitArgs.exitedRow, hfraction]) hpeak (closedPosition_cost cargs p) hnew rfl
  · intro hnone
    rw [hlow, Option.map_eq_none_iff] at hnone
    have hold := h.unmarked hnone
    refine ⟨?_, ?_, hnew.trans hold.newHigh, ?_⟩
    · rw [hhigh, hold.highest, zero_mul]
    · rw [hpeak, hold.peak, zero_mul]
    · rw [hopened]
      exact hold.rowNewHigh

end Exit

/-! ### Marks -/

section Mark

variable {prices : Dict String ℚ} {now : Time} {p : PositionRecord}

/-- What a mark leaves alone besides the amounts. -/
theorem markPosition_kept (prices : Dict String ℚ) (now : Time) (p : PositionRecord) :
    (markPosition prices now p).openedAt = p.openedAt ∧
    (markPosition prices now p).tp1Taken = p.tp1Taken ∧
    (markPosition prices now p).tp2Taken = p.tp2Taken := by
  unfold markPosition
  split
  · exact ⟨rfl, rfl, rfl⟩
  · split <;> exact ⟨rfl, rfl, rfl⟩

/-- The values of a marked position: the mark enters the highest value and the peak gain. -/
theorem markPosition_values (now : Time) (hopen : p.status = .opened) {price : ℚ}
    (hprice : prices.get? p.tokenMint = some price) :
    (markPosition prices now p).lowestExecutableValueUsd ≠ none ∧
    (markPosition prices now p).highestExecutableValueUsd =
      max p.highestExecutableValueUsd (p.remainingTokenAmount * price) ∧
    (markPosition prices now p).peakUnrealizedUsd =
      max p.peakUnrealizedUsd (p.remainingTokenAmount * price - p.remainingCostUsd) := by
  simp only [markPosition, hopen, ne_eq, not_true_eq_false, if_false, hprice]
  refine ⟨Option.some_ne_none _, ?_, trivial⟩
  split
  · rename_i hhigh
    exact (max_eq_right hhigh.le).symm
  · rename_i hlow
    exact (max_eq_left (not_lt.mp hlow)).symm

/-- The bound on the peak gain survives a mark. -/
theorem peak_marked {cost peak highest mark : ℚ} (hpeak : cost + peak ≤ max cost highest) :
    cost + max peak (mark - cost) ≤ max cost (max highest mark) := by
  rcases le_total peak (mark - cost) with hle | hle
  · rw [max_eq_right hle, add_sub_cancel]
    exact (le_max_right _ _).trans (le_max_right _ _)
  · rw [max_eq_left hle]
    exact hpeak.trans (max_le_max_left _ (le_max_left _ _))

theorem PositionKept.marked' {row : PositionRow} (h : PositionKept p row)
    (values : Dict String ℚ) (hopen : p.status = .opened) {price : ℚ}
    (hprice : prices.get? p.tokenMint = some price) :
    PositionKept (markPosition prices now p)
      (markedRow values (markPosition prices now p) row) := by
  obtain ⟨hopened, -, -⟩ := markPosition_kept prices now p
  obtain ⟨hlowest, hhigh, hpeak⟩ := markPosition_values now hopen hprice
  -- the bound before the mark, also for a position that no mark has reached
  have hbefore : 0 ≤ p.peakUnrealizedUsd ∧ p.remainingCostUsd + p.peakUnrealizedUsd ≤
      max p.remainingCostUsd p.highestExecutableValueUsd := by
    by_cases hmarked : p.lowestExecutableValueUsd = none
    · rw [(h.unmarked hmarked).peak, add_zero]
      exact ⟨le_rfl, le_max_left _ _⟩
    · exact ⟨(h.marked hmarked).peak_nonneg, (h.marked hmarked).peak_le⟩
  refine ⟨h.entryTime.trans hopened.symm, ?_, rfl, rfl, ?_, fun _ => ⟨rfl, rfl, ?_, ?_⟩,
    fun hnone => absurd hnone hlowest⟩
  · rw [markPosition_entryTokenAmount]
    exact h.entryTokens
  · intro _
    rw [markPosition_remainingCostUsd]
    exact h.cost hopen
  · rw [hpeak]
    exact hbefore.1.trans (le_max_left _ _)
  · rw [hpeak, hhigh, markPosition_remainingCostUsd]
    exact peak_marked hbefore.2

end Mark

/-! ## Fills -/

/-- A row of a losing exit. -/
def LosingRow (row : FillRow) : Prop :=
  row.side = .sell ∧ row.outputUsd - row.costBasisUsd * row.inputRawAmount < 0

instance (row : FillRow) : Decidable (LosingRow row) := inferInstanceAs (Decidable (_ ∧ _))

/-- The row of a fill can be restored, as a fill of the same side, time and result. -/
structure FillKept (orders : Dict String OrderRow) (fill : FillRecord) (e : String × FillRow) :
    Prop where
  ordered : ∃ order, orders.get? e.2.orderId = some order
  valid : (restoredCosts e.2).Valid
  entry : fill.fillType = .entry ↔ e.2.side = .buy
  at' : fill.createdAt = e.2.filledAt
  losing : Losing fill ↔ LosingRow e.2

theorem FillKept.mono {orders next : Dict String OrderRow} {fill : FillRecord}
    {e : String × FillRow} (h : FillKept orders fill e)
    (hkept : ∀ id order, orders.get? id = some order → ∃ order, next.get? id = some order) :
    FillKept next fill e := by
  obtain ⟨order, horder⟩ := h.ordered
  exact ⟨hkept _ order horder, h.valid, h.entry, h.at', h.losing⟩

/-- A new order row keeps the others. -/
theorem exists_order_set {orders : Dict String OrderRow} (orderId : String) (new : OrderRow) :
    ∀ id order, orders.get? id = some order →
      ∃ order, (orders.set orderId new).get? id = some order := by
  intro id order hget
  rw [Dict.get?_set]
  split
  · exact ⟨new, rfl⟩
  · exact ⟨order, hget⟩

theorem OpenedBoth.fillKept {req : OpenRequest} {ledger : LedgerState} {oargs : OpenArgs}
    {eargs : EntryArgs} {account : AccountRow}
    (h : OpenedBoth config s req ledger oargs eargs account) :
    FillKept (s.db.orders.set eargs.orderId eargs.order) (oargs.entryFill h.valid)
      (eargs.fillId, eargs.fill) := by
  have hvalid := h.valid
  have hat : oargs.createdAt = eargs.filledAt ∧
      (oargs.costs.Valid → (restoredCosts eargs.fill).Valid) := by
    obtain ⟨quote, candidateId, poolAddress, rfl, rfl⟩ := h.quoted
    exact ⟨rfl, fun hcosts => ⟨hcosts.1, hcosts.2.1, hcosts.2.2.1, hcosts.2.2.2.1,
      hcosts.2.2.2.2.1, le_rfl⟩⟩
  refine ⟨⟨_, Dict.get?_set_self _ _ _⟩, hat.2 hvalid, iff_of_true rfl rfl, hat.1, ?_⟩
  exact iff_of_false (by rintro ⟨⟨⟩, -⟩) (by rintro ⟨⟨⟩, -⟩)

/-- The costs of an exit are valid. -/
theorem exitFill_valid (config : BrokerConfig) (req : CloseRequest) (row : PositionRow) :
    (restoredCosts ((req.exitArgs config).fill row)).Valid := by
  refine ⟨?_, ?_, le_max_left _ _, config.bps_nonneg, config.bps_lt, le_rfl⟩
  · show 0 ≤ ((req.quote.map Subtype.val).map (·.platformFeeUsd)).getD 0
    cases req.quote with
    | none => exact le_rfl
    | some quote => exact quote.1.platformFee_nonneg
  · show 0 ≤ ((req.quote.map Subtype.val).map (·.estimatedNetworkFeeUsd)).getD 0
    cases req.quote with
    | none => exact le_rfl
    | some quote => exact quote.1.networkFee_nonneg

theorem ClosedBoth.fillKept {req : CloseRequest} {cargs : CloseArgs} {account : AccountRow}
    {id : String} {p : PositionRecord} {row : PositionRow}
    (h : ClosedBoth config s req cargs account id p row) :
    FillKept (s.db.orders.set (req.exitArgs config).orderId ((req.exitArgs config).order id))
      (cargs.closeFill p id h.valid) ((req.exitArgs config).fillId, (req.exitArgs config).fill row) := by
  have hsame := h.same
  have hlinked := h.linked
  have hat : cargs.createdAt = (req.exitArgs config).filledAt := by
    obtain ⟨committed, rfl, hat, -⟩ := h.args
    exact hat
  refine ⟨⟨_, Dict.get?_set_self _ _ _⟩, exitFill_valid config req row,
    iff_of_false (by rintro ⟨⟩) (by rintro ⟨⟩), hat, ?_⟩
  -- both gains are the net proceeds minus the cost of the tokens sold
  have hremaining := h.exit.remaining_pos
  have hnet : cargs.netReceived = (req.exitArgs config).netReceived := by
    rw [CloseArgs.netReceived, ExitArgs.netReceived, hsame.received, hsame.fee]
  have hgain : (cargs.closeFill p id h.valid).usdNotional -
      (cargs.closeFill p id h.valid).costBasisUsd * (cargs.closeFill p id h.valid).tokenAmount =
      ((req.exitArgs config).fill row).outputUsd -
        ((req.exitArgs config).fill row).costBasisUsd *
          ((req.exitArgs config).fill row).inputRawAmount := by
    simp only [CloseArgs.closeFill, ExitArgs.fill, if_pos hremaining.ne', hnet,
      PositionRow.costPerToken, hlinked.cost, hlinked.tokens, hsame.tokens]
  exact ⟨fun hloss => ⟨rfl, hgain ▸ hloss.2⟩, fun hloss => ⟨rfl, hgain ▸ hloss.2⟩⟩

/-! ## The invariant -/

/-- What the rows keep of a run of the broker, besides the amounts. -/
structure Kept (config : BrokerConfig) (s : BrokerState) : Prop where
  simulates : Simulates config s
  peak : ∀ account, s.db.account = some account → account.peakEquity = s.ledger.peakEquityUsd
  positions : ∀ id p row, s.ledger.positions.get? id = some p →
    s.db.positions.get? id = some row → PositionKept p row
  fills : List.Forall₂ (FillKept s.db.orders) s.ledger.fills s.db.fills.entries

theorem Kept.init (config : BrokerConfig) (startingEquity : ℚ) (now : Time) :
    Kept config (BrokerState.init config startingEquity now) where
  simulates := Simulates.init config startingEquity now
  peak := by
    intro account haccount
    cases haccount
    rfl
  positions := by rintro _ _ _ ⟨⟩
  fills := .nil

theorem Kept.opened (h : Kept config s) {req : OpenRequest} {ledger : LedgerState}
    {oargs : OpenArgs} {eargs : EntryArgs} {account : AccountRow}
    (hboth : OpenedBoth config s req ledger oargs eargs account) :
    Kept config ⟨ledger.booked oargs hboth.valid, s.db.entered account eargs⟩ := by
  have hsim := h.simulates.step (.opened req ledger oargs eargs account hboth)
  have hposition := hboth.same.position
  obtain ⟨halt, pause, date, baseline, hframe⟩ := hboth.checked
  refine ⟨hsim, ?_, ?_, ?_⟩
  · intro found hfound
    cases hfound
    obtain ⟨stored, hstored, hcleared⟩ := hboth.commit.stored
    obtain ⟨halt', pause', date', haccount⟩ :=
      cleared_frame stored eargs.filledAt eargs.limits.dayKey
    have hold := h.peak stored hstored
    simp only [AccountRow.entered, LedgerState.booked, hcleared, haccount, hframe]
    exact hold
  · intro id p row hp hrow
    simp only [LedgerState.booked, Dict.get?_set, hframe] at hp
    simp only [PaperDb.entered, Dict.get?_set, ← hposition] at hrow
    split at hp
    · rename_i hid
      rw [if_pos hid] at hrow
      cases hp
      cases hrow
      exact hboth.positionKept
    · rename_i hid
      rw [if_neg hid] at hrow
      exact h.positions id p row hp hrow
  · have hold := h.fills.imp fun _ _ hfill => hfill.mono (exists_order_set eargs.orderId eargs.order)
    simp only [LedgerState.booked, PaperDb.entered, hframe,
      Dict.entries_set_new hboth.commit.freshFill]
    exact List.rel_append hold (.cons hboth.fillKept .nil)

theorem Kept.closed (h : Kept config s) {req : CloseRequest} {cargs : CloseArgs}
    {account : AccountRow} {id : String} {p : PositionRecord} {row : PositionRow}
    (hboth : ClosedBoth config s req cargs account id p row) :
    Kept config ⟨s.ledger.exited config.zone.dateKey cargs id p hboth.valid,
      s.db.exited account (req.exitArgs config) id row⟩ := by
  have hsim := h.simulates.step (.closed req cargs account id p row hboth)
  have hrow := (livePosition_some hboth.commit.found).1
  refine ⟨hsim, ?_, ?_, ?_⟩
  · intro found hfound
    cases hfound
    obtain ⟨stored, hstored, htotals⟩ := h.simulates.totals
    rw [hboth.commit.account] at hstored
    cases hstored
    have hequity : account.equity + ((req.exitArgs config).realizedDelta row -
        (req.exitArgs config).closedUnrealized row) =
        s.ledger.equityUsd + (cargs.realizedDelta p - cargs.closedUnrealized p) := by
      rw [htotals.equity, delta_eq hboth.same hboth.linked,
        closedUnrealized_eq hboth.same hboth.linked hboth.exit.opened]
    simp only [AccountRow.exited, LedgerState.exited, hequity, h.peak account hboth.commit.account]
  · intro j q r hq hr
    simp only [LedgerState.exited, Dict.get?_set] at hq
    simp only [PaperDb.exited, Dict.get?_set] at hr
    split at hq
    · rename_i hid
      rw [if_pos hid] at hr
      cases hq
      cases hr
      exact (h.positions id p row hboth.exit.stored hrow).exited hboth
    · rename_i hid
      rw [if_neg hid] at hr
      exact h.positions j q r hq hr
  · have hold := h.fills.imp fun _ _ hfill => hfill.mono
      (exists_order_set (req.exitArgs config).orderId ((req.exitArgs config).order id))
    simp only [LedgerState.exited, PaperDb.exited, Dict.entries_set_new hboth.commit.freshFill]
    exact List.rel_append hold (.cons hboth.fillKept .nil)

theorem Kept.marked (h : Kept config s) {values : Dict String ℚ} {account : AccountRow}
    (now : Time) (hboth : MarkedBoth s values account) :
    Kept config (s.markedWith config values account now) := by
  have hsim := h.simulates.step (.marked values account now hboth)
  refine ⟨hsim, ?_, ?_, h.fills⟩
  · intro found hfound
    cases hfound
    rfl
  · intro id q r hq hr
    obtain ⟨p, hp, rfl⟩ := get?_markToMarket hq
    obtain ⟨row, hrow, -⟩ := h.simulates.linked id p hp
    have hkept := h.positions id p row hp hrow
    rw [BrokerState.markedWith, get?_markedRows h.simulates account _ hp hrow] at hr
    cases hr
    by_cases hopen : p.status = .opened
    · obtain ⟨value, hvalue, -⟩ := hboth.valued p (mem_openPositions.mpr ⟨id, hp, hopen⟩)
      rw [if_pos hopen]
      exact hkept.marked' values hopen (get?_quotedPrices h.simulates hp hopen hvalue)
    · have hsame : markPosition (quotedPrices values s.ledger.openPositions) now p = p :=
        if_pos hopen
      rw [if_neg hopen, hsame]
      exact hkept

theorem Kept.sameBooks (h : Kept config s) {ledger : LedgerState}
    (hsame : SameBooks s.ledger ledger) : Kept config { s with ledger := ledger } := by
  have hsim := h.simulates.sameBooks hsame
  obtain ⟨halt, pause, date, baseline, rfl⟩ := hsame
  exact ⟨hsim, h.peak, h.positions, h.fills⟩

theorem Kept.step (h : Kept config s) {next : BrokerState} (hstep : BothSteps config s next) :
    Kept config next := by
  cases hstep with
  | same ledger hsame => exact h.sameBooks hsame
  | opened req ledger oargs eargs account hboth => exact h.opened hboth
  | closed req cargs account id p row hboth => exact h.closed hboth
  | marked values account now hboth => exact h.marked now hboth

/-- Every run of the broker whose closes without a quote sell the whole position. -/
theorem run_kept (config : BrokerConfig) (startingEquity : ℚ) (opened : Time)
    (ops : List BrokerOp)
    (hrun : Along (fun s op => Ordinary s op ∧ NoPartGivenUp s op) (BrokerState.apply config)
      (BrokerState.init config startingEquity opened) ops) :
    Kept config (exec (BrokerState.apply config)
      (BrokerState.init config startingEquity opened) ops) :=
  hrun.invariant (I := Kept config)
    (fun _ op h hop => h.step (h.simulates.both_step op hop))
    (Kept.init config startingEquity opened)

/-! ## Restoring -/

section Restoring

variable {db : PaperDb} {signals : List SignalRow} {zone : TimeZone}

/-- A restored fill has the side, the time and the result of its row. -/
theorem restoredFill_kept {id : String} {row : FillRow} {fill : FillRecord}
    (h : restoredFill db id row = some fill) :
    (fill.fillType = .entry ↔ row.side = .buy) ∧ fill.createdAt = row.filledAt ∧
      (Losing fill ↔ LosingRow row) := by
  obtain ⟨order, -, hfill⟩ := Option.bind_eq_some_iff.mp h
  dsimp only at hfill
  split at hfill
  · cases hfill
    cases hside : row.side with
    | buy => simp [Losing, LosingRow, hside]
    | sell => simp [Losing, LosingRow, hside]
  · cases hfill

/-- The ledgers differ in the fills, which are longer, and in what is computed from them. -/
def FillsAdded (s next : LedgerState) (fills : List FillRecord) : Prop :=
  ∃ entryIndex exitIndex exitFills daily, next =
    { s with
      fills := s.fills ++ fills, orderIdIndex := entryIndex, closeOrderIdIndex := exitIndex
      closeFillIdIndex := exitFills, dailyPnl := daily }

theorem FillsAdded.trans {s mid next : LedgerState} {fills more : List FillRecord}
    (h : FillsAdded s mid fills) (h' : FillsAdded mid next more) :
    FillsAdded s next (fills ++ more) := by
  obtain ⟨_, _, _, _, rfl⟩ := h
  obtain ⟨_, _, _, _, rfl⟩ := h'
  exact ⟨_, _, _, _, by rw [List.append_assoc]⟩

/-- A row with an order and valid costs can be restored. -/
theorem restoreFill_ok (zone : TimeZone) {e : String × FillRow} (s : LedgerState)
    (hordered : ∃ order, db.orders.get? e.2.orderId = some order)
    (hvalid : (restoredCosts e.2).Valid) :
    ∃ fill next, restoredFill db e.1 e.2 = some fill ∧
      restoreFill db zone s e.1 e.2 = some next ∧ FillsAdded s next [fill] := by
  obtain ⟨order, horder⟩ := hordered
  obtain ⟨fill, hfill⟩ : ∃ fill, restoredFill db e.1 e.2 = some fill := by
    simp only [restoredFill, horder, Option.bind_some, dif_pos hvalid]
    exact ⟨_, rfl⟩
  simp only [restoreFill, hfill, Option.map_some]
  refine ⟨fill, _, rfl, rfl, ?_⟩
  cases e.2.side with
  | buy => exact ⟨_, _, _, _, rfl⟩
  | sell => exact ⟨_, _, _, _, rfl⟩

/-- Rows with an order and valid costs can all be restored, one after the other. -/
theorem restoreFills_ok (db : PaperDb) (zone : TimeZone) {entries : List (String × FillRow)}
    (hall : ∀ e ∈ entries,
      (∃ order, db.orders.get? e.2.orderId = some order) ∧ (restoredCosts e.2).Valid)
    (s : LedgerState) :
    ∃ fills next, entries.foldlM (fun s e => restoreFill db zone s e.1 e.2) s = some next ∧
      FillsAdded s next fills ∧
      List.Forall₂ (fun e fill => restoredFill db e.1 e.2 = some fill) entries fills := by
  induction entries generalizing s with
  | nil => exact ⟨[], s, rfl, ⟨_, _, _, _, by rw [List.append_nil]⟩, .nil⟩
  | cons e entries ih =>
      obtain ⟨hordered, hvalid⟩ := hall e List.mem_cons_self
      obtain ⟨fill, mid, hfill, hmid, hadded⟩ := restoreFill_ok zone s hordered hvalid
      obtain ⟨fills, next, hnext, hrest, hfills⟩ :=
        ih (fun e he => hall e (List.mem_cons_of_mem _ he)) mid
      refine ⟨fill :: fills, next, ?_, hadded.trans hrest, .cons hfill hfills⟩
      rw [List.foldlM_cons, hmid]
      exact hnext

/-- The database whose fill rows are read in the order of `fills`. -/
def PaperDb.readingFills (db : PaperDb) (fills : Dict String FillRow) : PaperDb :=
  { db with fills := fills }

/-- The ledger that a new process starts with, when it reads the fill rows in the order of
`entries`. -/
structure Rebuilt (db : PaperDb) (signals : List SignalRow) (zone : TimeZone) (now : Time)
    (account : AccountRow) (entries : List (String × FillRow)) (s : LedgerState) : Prop where
  halt : s.haltReason = account.haltReason
  pause : s.pauseUntil = account.pauseUntil
  date : s.dailyHaltDate = account.dailyHaltDate
  equity : s.equityUsd = account.equity
  peak : s.peakEquityUsd = account.peakEquity
  unrealized : s.unrealizedPnlUsd = account.unrealizedPnl
  locked : s.lockedCapitalUsd = account.lockedCapital
  positions : s.positions = db.positions.mapValues (restoredPosition db signals)
  tokenIndex : s.tokenIndex = (restoredBase db signals account).tokenIndex
  baseline : s.dailyEquityBaseline.get? (zone.dateKey now) =
    db.baselineEquity (zone.dayBounds now).1 (zone.dayBounds now).2
  fills : List.Forall₂ (fun e fill => restoredFill db e.1 e.2 = some fill) entries s.fills

theorem exists_left_of_forall₂ {α β : Type} {R : α → β → Prop} {as : List α} {bs : List β}
    (h : List.Forall₂ R as bs) {b : β} (hb : b ∈ bs) : ∃ a ∈ as, R a b := by
  induction h with
  | nil => cases hb
  | cons hab _ ih =>
      rcases List.mem_cons.mp hb with rfl | hmem
      · exact ⟨_, List.mem_cons_self, hab⟩
      · obtain ⟨a, ha, hR⟩ := ih hmem
        exact ⟨a, List.mem_cons_of_mem _ ha, hR⟩

/-- Restoring succeeds for every order in which the fill rows are read. -/
theorem Kept.rebuilt (h : Kept config s) (signals : List SignalRow) (zone : TimeZone) (now : Time)
    {fills : Dict String FillRow} (hperm : fills.entries.Perm s.db.fills.entries) :
    ∃ account restored, s.db.account = some account ∧
      startLedger (s.db.readingFills fills) signals zone now = some restored ∧
      Rebuilt (s.db.readingFills fills) signals zone now account fills.entries restored := by
  obtain ⟨account, haccount, -⟩ := h.simulates.totals
  have hall : ∀ e ∈ fills.entries,
      (∃ order, s.db.orders.get? e.2.orderId = some order) ∧ (restoredCosts e.2).Valid := by
    intro e he
    obtain ⟨fill, -, hkept⟩ := exists_left_of_forall₂ h.fills (hperm.mem_iff.mp he)
    exact ⟨hkept.ordered, hkept.valid⟩
  obtain ⟨added, restored, hfold, hadded, hfills⟩ :=
    restoreFills_ok (s.db.readingFills fills) zone hall
      (restoredBase (s.db.readingFills fills) signals account)
  have hrestored : restoreLedger (s.db.readingFills fills) signals zone = some restored := by
    rw [restoreLedger, PaperDb.readingFills, haccount, Option.bind_some]
    exact hfold
  refine ⟨account, _, haccount, by rw [startLedger, hrestored, Option.map_some], ?_⟩
  obtain ⟨_, _, _, _, rfl⟩ := hadded
  cases hbaseline : (s.db.readingFills fills).baselineEquity (zone.dayBounds now).1
      (zone.dayBounds now).2 with
  | none => exact ⟨rfl, rfl, rfl, rfl, rfl, rfl, rfl, rfl, rfl, hbaseline.symm, hfills⟩
  | some baseline =>
      refine ⟨rfl, rfl, rfl, rfl, rfl, rfl, rfl, rfl, rfl, ?_, hfills⟩
      exact (Dict.get?_set_self _ _ _).trans hbaseline.symm

end Restoring

end SniperBot.Paper
