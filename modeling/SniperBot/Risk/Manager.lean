import SniperBot.Ledger.State

/-!
# Entry risk checks

`RiskManager.evaluate_entry` (`risk.py`) with the ledger controls it reads and sets
(`ledger.py`). A refusal can leave a halt, a pause or the day's equity baseline behind; nothing
else of the ledger changes (`evaluateEntry_frame`).

The wall clock is read once per call: `now` stands for every `datetime.now` of the check.
-/

namespace SniperBot.Risk

open Basis Ledger

structure RiskConfig where
  maxPositionUsdc : ℚ
  maxExposureUsdc : ℚ
  maxOpenPositions : Int
  dailyLossLimitUsdc : ℚ
  allTimeDrawdownLimitPct : ℚ
  maxTradesPerDay : Int
  maxConsecutiveLosses : Int
  dailyHaltAfterConsecutiveLosses : Int
  pauseMinutes : Int

/-- The configured time zone: `current_date_key` and `day_bounds_utc`. -/
structure TimeZone where
  dateKey : Time → String
  dayBounds : Time → Time × Time

/-! ## Ledger controls -/

/-- `clear_expired_daily_controls` -/
def clearExpiredDailyControls (s : LedgerState) (dateKey : String) (now : Time) : LedgerState :=
  let unpaused := { s with pauseUntil := s.pauseUntil.filter (now < ·) }
  if s.dailyHaltDate.any fun date => date ≠ "" ∧ date ≠ dateKey then
    { unpaused with
      haltReason := s.haltReason.filter fun reason => !textStartsWith "daily:" reason
      dailyHaltDate := none }
  else unpaused

/-- `set_daily_halt` -/
def setDailyHalt (s : LedgerState) (dateKey reason : String) : LedgerState :=
  { s with dailyHaltDate := some dateKey, haltReason := some ("daily:" ++ dateKey ++ ":" ++ reason) }

/-- `set_halt(reason, hard=True)` -/
def setHardHalt (s : LedgerState) (reason : String) : LedgerState :=
  { s with haltReason := some ("hard:" ++ reason) }

/-- `cash_available_usd` -/
def cashAvailableUsd (s : LedgerState) : ℚ := s.equityUsd - s.unrealizedPnlUsd - s.lockedCapitalUsd

/-- `can_open` -/
def canOpen (s : LedgerState) (tokenMint : String) : Prop := s.tokenIndex.get? tokenMint = none

instance (s : LedgerState) (tokenMint : String) : Decidable (canOpen s tokenMint) :=
  inferInstanceAs (Decidable (_ = none))

/-- `daily_loss_exceeded` after the baseline of the day is set. -/
def dailyLossExceeded (s : LedgerState) (today : String) (limit : ℚ) : Prop :=
  ∃ baseline ∈ s.dailyEquityBaseline.get? today, s.equityUsd - baseline ≤ -|limit|

instance (s : LedgerState) (today : String) (limit : ℚ) :
    Decidable (dailyLossExceeded s today limit) := by
  unfold dailyLossExceeded
  infer_instance

/-- `drawdown_exceeded` -/
def drawdownExceeded (s : LedgerState) (limitPct : ℚ) : Prop :=
  0 < s.peakEquityUsd ∧ s.equityUsd < s.peakEquityUsd ∧
    |limitPct| ≤ (s.peakEquityUsd - s.equityUsd) / s.peakEquityUsd * 100

instance (s : LedgerState) (limitPct : ℚ) : Decidable (drawdownExceeded s limitPct) :=
  inferInstanceAs (Decidable (_ ∧ _))

/-- `trades_today` -/
def tradesToday (zone : TimeZone) (s : LedgerState) (today : String) : Nat :=
  (s.fills.filter fun fill => fill.fillType = .entry ∧ zone.dateKey fill.createdAt = today).length

/-- The loop of `consecutive_losses` over the fills from the newest on. -/
def countLosses : List FillRecord → Nat
  | [] => 0
  | fill :: older =>
      if fill.fillType ≠ .exit then countLosses older
      else if fill.usdNotional - fill.costBasisUsd * fill.tokenAmount < 0 then
        countLosses older + 1
      else 0

/-- `consecutive_losses` -/
def consecutiveLosses (s : LedgerState) : Nat := countLosses s.fills.reverse

/-! ## The decision -/

inductive RiskDecision
  | allow
  | block (reason : String)
  deriving DecidableEq, Repr

/-- `evaluate_entry`: the decision, or the message it raises with, and the ledger after it. -/
def evaluateEntry (risk : RiskConfig) (zone : TimeZone) (now : Time) (s : LedgerState)
    (notionalUsdc : ℚ) (tokenMint : String) : Except String RiskDecision × LedgerState :=
  if notionalUsdc ≤ 0 then (.error "notional must be positive", s)
  else
    let today := zone.dateKey now
    let cleared := clearExpiredDailyControls s today now
    if cleared.haltReason ≠ none then (.ok (.block "HALTED_BY_RISK_MANAGER"), cleared)
    else if cleared.pauseUntil.any (now < ·) then (.ok (.block "CONSECUTIVE_LOSS_PAUSE"), cleared)
    else if notionalUsdc > risk.maxPositionUsdc then (.ok (.block "MAX_POSITION_LIMIT"), cleared)
    else if cleared.lockedCapitalUsd + notionalUsdc > risk.maxExposureUsdc then
      (.ok (.block "MAX_EXPOSURE_LIMIT"), cleared)
    else if (cleared.openPositions.length : Int) ≥ risk.maxOpenPositions then
      (.ok (.block "MAX_OPEN_POSITIONS_LIMIT"), cleared)
    else if cashAvailableUsd cleared < notionalUsdc then
      (.ok (.block "INSUFFICIENT_CASH"), cleared)
    else
      let based := { cleared with
        dailyEquityBaseline := cleared.dailyEquityBaseline.setDefault today cleared.equityUsd }
      if dailyLossExceeded based today risk.dailyLossLimitUsdc then
        (.ok (.block "DAILY_LOSS_LIMIT"), setDailyHalt based today "DAILY_LOSS_LIMIT")
      else if (tradesToday zone based today : Int) ≥ risk.maxTradesPerDay then
        (.ok (.block "MAX_TRADES_PER_DAY"), based)
      else if drawdownExceeded based risk.allTimeDrawdownLimitPct then
        (.ok (.block "ALL_TIME_DRAWDOWN_LIMIT"), setHardHalt based "ALL_TIME_DRAWDOWN_LIMIT")
      else if (consecutiveLosses based : Int) ≥ risk.dailyHaltAfterConsecutiveLosses then
        (.ok (.block "CONSECUTIVE_LOSS_DAILY_HALT"), setDailyHalt based today "CONSECUTIVE_LOSSES")
      else if (consecutiveLosses based : Int) ≥ risk.maxConsecutiveLosses then
        (.ok (.block "CONSECUTIVE_LOSSES"),
          { based with pauseUntil := some (now + seconds (60 * risk.pauseMinutes)) })
      else if ¬ canOpen based tokenMint then (.ok (.block "DUPLICATE_TOKEN"), based)
      else (.ok .allow, based)

/-! ## What a check leaves alone -/

/-- The ledgers differ in their controls and day baselines only. -/
def SameBooks (s t : LedgerState) : Prop :=
  ∃ halt pause date baseline, t =
    { s with
      haltReason := halt, pauseUntil := pause, dailyHaltDate := date
      dailyEquityBaseline := baseline }

theorem clearExpired_sameBooks (s : LedgerState) (dateKey : String) (now : Time) :
    SameBooks s (clearExpiredDailyControls s dateKey now) := by
  unfold clearExpiredDailyControls
  dsimp only
  split <;> exact ⟨_, _, _, _, rfl⟩

theorem ite_sameBooks {c : Prop} [Decidable c] {s : LedgerState}
    {a b : Except String RiskDecision × LedgerState} (ha : SameBooks s a.2) (hb : SameBooks s b.2) :
    SameBooks s (if c then a else b).2 := by
  split
  · exact ha
  · exact hb

theorem evaluateEntry_frame (risk : RiskConfig) (zone : TimeZone) (now : Time) (s : LedgerState)
    (notionalUsdc : ℚ) (tokenMint : String) :
    SameBooks s (evaluateEntry risk zone now s notionalUsdc tokenMint).2 := by
  obtain ⟨halt, pause, date, baseline, hcleared⟩ := clearExpired_sameBooks s (zone.dateKey now) now
  have hsame : SameBooks s (clearExpiredDailyControls s (zone.dateKey now) now) :=
    ⟨halt, pause, date, baseline, hcleared⟩
  unfold evaluateEntry
  refine ite_sameBooks ⟨_, _, _, _, rfl⟩ ?_
  -- the six refusals before the day baseline is set
  refine ite_sameBooks hsame (ite_sameBooks hsame (ite_sameBooks hsame ?_))
  refine ite_sameBooks hsame (ite_sameBooks hsame (ite_sameBooks hsame ?_))
  rw [hcleared]
  refine ite_sameBooks ⟨_, _, _, _, rfl⟩ (ite_sameBooks ⟨_, _, _, _, rfl⟩ ?_)
  refine ite_sameBooks ⟨_, _, _, _, rfl⟩ (ite_sameBooks ⟨_, _, _, _, rfl⟩ ?_)
  refine ite_sameBooks ⟨_, _, _, _, rfl⟩ (ite_sameBooks ⟨_, _, _, _, rfl⟩ ?_)
  exact ⟨_, _, _, _, rfl⟩

theorem evaluateEntry_allow {risk : RiskConfig} {zone : TimeZone} {now : Time} {s : LedgerState}
    {notionalUsdc : ℚ} {tokenMint : String}
    (h : (evaluateEntry risk zone now s notionalUsdc tokenMint).1 = .ok .allow) :
    0 < notionalUsdc := by
  by_contra hnot
  rw [evaluateEntry, if_pos (not_lt.mp hnot)] at h
  cases h

/-! ## What a check reads -/

/-- The refusal of the controls: a halt, or a pause that has not passed. -/
def entryStop (zone : TimeZone) (now : Time) (s : LedgerState) : Option String :=
  let cleared := clearExpiredDailyControls s (zone.dateKey now) now
  if cleared.haltReason ≠ none then some "HALTED_BY_RISK_MANAGER"
  else if cleared.pauseUntil.any (now < ·) then some "CONSECUTIVE_LOSS_PAUSE"
  else none

/-- The equity that the day is compared with. -/
def dayBaseline (zone : TimeZone) (now : Time) (s : LedgerState) : ℚ :=
  (s.dailyEquityBaseline.get? (zone.dateKey now)).getD s.equityUsd

/-- The rules behind the controls, in their order. -/
def entryRules (risk : RiskConfig) (zone : TimeZone) (now : Time) (s : LedgerState)
    (notionalUsdc : ℚ) (tokenMint : String) : RiskDecision :=
  if notionalUsdc > risk.maxPositionUsdc then .block "MAX_POSITION_LIMIT"
  else if s.lockedCapitalUsd + notionalUsdc > risk.maxExposureUsdc then .block "MAX_EXPOSURE_LIMIT"
  else if (s.openPositions.length : Int) ≥ risk.maxOpenPositions then
    .block "MAX_OPEN_POSITIONS_LIMIT"
  else if cashAvailableUsd s < notionalUsdc then .block "INSUFFICIENT_CASH"
  else if s.equityUsd - dayBaseline zone now s ≤ -|risk.dailyLossLimitUsdc| then
    .block "DAILY_LOSS_LIMIT"
  else if (tradesToday zone s (zone.dateKey now) : Int) ≥ risk.maxTradesPerDay then
    .block "MAX_TRADES_PER_DAY"
  else if drawdownExceeded s risk.allTimeDrawdownLimitPct then .block "ALL_TIME_DRAWDOWN_LIMIT"
  else if (consecutiveLosses s : Int) ≥ risk.dailyHaltAfterConsecutiveLosses then
    .block "CONSECUTIVE_LOSS_DAILY_HALT"
  else if (consecutiveLosses s : Int) ≥ risk.maxConsecutiveLosses then .block "CONSECUTIVE_LOSSES"
  else if ¬ canOpen s tokenMint then .block "DUPLICATE_TOKEN"
  else .allow

section Check

variable {risk : RiskConfig} {zone : TimeZone} {now : Time} {s : LedgerState}
  {notionalUsdc : ℚ} {tokenMint : String}

/-- A check of a positive notional: the controls first, then the rules. -/
theorem evaluateEntry_fst (hpos : 0 < notionalUsdc) :
    (evaluateEntry risk zone now s notionalUsdc tokenMint).1 =
      .ok (match entryStop zone now s with
        | some reason => .block reason
        | none => entryRules risk zone now s notionalUsdc tokenMint) := by
  obtain ⟨halt, pause, date, hcleared⟩ : ∃ halt pause date,
      clearExpiredDailyControls s (zone.dateKey now) now =
        { s with haltReason := halt, pauseUntil := pause, dailyHaltDate := date } := by
    unfold clearExpiredDailyControls
    dsimp only
    split <;> exact ⟨_, _, _, rfl⟩
  unfold evaluateEntry entryStop
  rw [if_neg (not_le.mpr hpos)]
  dsimp only
  rw [hcleared]
  by_cases hhalt : halt ≠ none
  · rw [if_pos hhalt, if_pos hhalt]
  rw [if_neg hhalt, if_neg hhalt]
  by_cases hpause : pause.any (now < ·) = true
  · rw [if_pos hpause, if_pos hpause]
  rw [if_neg hpause, if_neg hpause]
  -- the controls and the baselines are all that the rules do not read
  simp only [entryRules, dailyLossExceeded, Dict.get?_setDefault, Option.mem_some_iff,
    exists_eq_left', apply_ite Prod.fst, apply_ite Except.ok]
  rfl

theorem entryStop_reason {reason : String} (h : entryStop zone now s = some reason) :
    reason = "HALTED_BY_RISK_MANAGER" ∨ reason = "CONSECUTIVE_LOSS_PAUSE" := by
  unfold entryStop at h
  dsimp only at h
  split at h
  · exact Or.inl (Option.some.inj h).symm
  · split at h
    · exact Or.inr (Option.some.inj h).symm
    · cases h

theorem evaluateEntry_allow_iff :
    (evaluateEntry risk zone now s notionalUsdc tokenMint).1 = .ok .allow ↔
      0 < notionalUsdc ∧ entryStop zone now s = none ∧
        entryRules risk zone now s notionalUsdc tokenMint = .allow := by
  by_cases hpos : 0 < notionalUsdc
  · rw [evaluateEntry_fst hpos, Except.ok.injEq]
    cases entryStop zone now s with
    | none => simp [hpos]
    | some reason => simp
  · rw [evaluateEntry, if_pos (not_lt.mp hpos)]
    simp [hpos]

/-- The limits of an entry that the rules let through. -/
theorem entryRules_allow (h : entryRules risk zone now s notionalUsdc tokenMint = .allow) :
    s.lockedCapitalUsd + notionalUsdc ≤ risk.maxExposureUsdc ∧
      (s.openPositions.length : Int) < risk.maxOpenPositions ∧
      notionalUsdc ≤ cashAvailableUsd s ∧ canOpen s tokenMint := by
  have hite : ∀ {c : Prop} [Decidable c] {reason : String} {rest : RiskDecision},
      (if c then .block reason else rest) = RiskDecision.allow → ¬ c ∧ rest = .allow := by
    intro c _ reason rest heq
    split at heq
    · cases heq
    · exact ⟨‹_›, heq⟩
  unfold entryRules at h
  obtain ⟨hexposure, h⟩ := hite (hite h).2
  obtain ⟨hopen, h⟩ := hite h
  obtain ⟨hcash, h⟩ := hite h
  obtain ⟨hfree, -⟩ := hite (hite (hite (hite (hite (hite h).2).2).2).2).2
  exact ⟨not_lt.mp hexposure, not_le.mp hopen, not_lt.mp hcash, not_not.mp hfree⟩

theorem evaluateEntry_allow_canOpen
    (h : (evaluateEntry risk zone now s notionalUsdc tokenMint).1 = .ok .allow) :
    canOpen s tokenMint :=
  (entryRules_allow (evaluateEntry_allow_iff.mp h).2.2).2.2.2

theorem unhalted_ite {c : Prop} [Decidable c] {a b : Except String RiskDecision × LedgerState}
    (ha : a.1 ≠ .ok .allow) (hb : b.1 = .ok .allow → b.2.haltReason = none)
    (h : (if c then a else b).1 = .ok .allow) : (if c then a else b).2.haltReason = none := by
  by_cases hc : c
  · rw [if_pos hc] at h
    exact absurd h ha
  · rw [if_neg hc] at h ⊢
    exact hb h

/-- A check that allows the entry leaves no halt behind. -/
theorem evaluateEntry_allow_unhalted
    (h : (evaluateEntry risk zone now s notionalUsdc tokenMint).1 = .ok .allow) :
    (evaluateEntry risk zone now s notionalUsdc tokenMint).2.haltReason = none := by
  have hblock : ∀ reason, (.ok (.block reason) : Except String RiskDecision) ≠ .ok .allow := by
    rintro _ ⟨⟩
  obtain ⟨hpos, hstop, -⟩ := evaluateEntry_allow_iff.mp h
  have hclear : (clearExpiredDailyControls s (zone.dateKey now) now).haltReason = none := by
    unfold entryStop at hstop
    dsimp only at hstop
    split at hstop
    · cases hstop
    · rename_i hhalt
      exact not_not.mp hhalt
  revert h
  unfold evaluateEntry
  rw [if_neg (not_le.mpr hpos)]
  dsimp only
  refine unhalted_ite (hblock _) (unhalted_ite (hblock _) (unhalted_ite (hblock _) ?_))
  refine unhalted_ite (hblock _) (unhalted_ite (hblock _) (unhalted_ite (hblock _) ?_))
  refine unhalted_ite (hblock _) (unhalted_ite (hblock _) (unhalted_ite (hblock _) ?_))
  refine unhalted_ite (hblock _) (unhalted_ite (hblock _) (unhalted_ite (hblock _) ?_))
  exact fun _ => hclear

end Check

end SniperBot.Risk
