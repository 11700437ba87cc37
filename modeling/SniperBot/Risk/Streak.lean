import SniperBot.Basis.Run
import SniperBot.Risk.Manager

/-!
# Losing streaks

A losing streak pauses the entries for some minutes, a longer one halts them for the day. Both
controls run out by the clock, but the streak that set them is counted again from the fills at
every check. `OnlyStreak` says that every other rule lets an entry through; what is then left of
`evaluate_entry` are the two tests of the streak (`OnlyStreak.evaluateEntry_eq`).

So a check after the pause allows the entry exactly when an exit without a loss has been booked
since (`evaluateEntry_after_streak`); otherwise it sets the next pause (`pause_renewed`).
-/

namespace SniperBot.Risk

open Basis Ledger

/-! ## Counting -/

/-- A fill that `consecutive_losses` counts. -/
def Losing (fill : FillRecord) : Prop :=
  fill.fillType = .exit ∧ fill.usdNotional - fill.costBasisUsd * fill.tokenAmount < 0

instance (fill : FillRecord) : Decidable (Losing fill) := inferInstanceAs (Decidable (_ ∧ _))

/-- Newer fills without a loss leave the streak alone, unless one of them is an exit. -/
theorem countLosses_append {newer : List FillRecord} (older : List FillRecord)
    (h : ∀ fill ∈ newer, ¬ Losing fill) :
    countLosses (newer ++ older) =
      if ∃ fill ∈ newer, fill.fillType = .exit then 0 else countLosses older := by
  induction newer with
  | nil => simp
  | cons fill newer ih =>
      have hnewer := ih fun f hf => h f (List.mem_cons_of_mem _ hf)
      have hfill := h fill List.mem_cons_self
      rw [List.cons_append, countLosses]
      by_cases htype : fill.fillType = .exit
      · have hgain : ¬ fill.usdNotional - fill.costBasisUsd * fill.tokenAmount < 0 :=
          fun hloss => hfill ⟨htype, hloss⟩
        rw [if_neg (not_not.mpr htype), if_neg hgain, if_pos ⟨fill, List.mem_cons_self, htype⟩]
      · rw [if_pos htype, hnewer]
        simp [htype]

theorem consecutiveLosses_append {before after : LedgerState} {later : List FillRecord}
    (hfills : after.fills = before.fills ++ later) (h : ∀ fill ∈ later, ¬ Losing fill) :
    consecutiveLosses after =
      if ∃ fill ∈ later, fill.fillType = .exit then 0 else consecutiveLosses before := by
  rw [consecutiveLosses, hfills, List.reverse_append, countLosses_append]
  · simp [consecutiveLosses]
  · intro fill hfill
    exact h fill (List.mem_reverse.mp hfill)

/-! ## The other rules -/

/-- The ledger once the equity baseline of the day of `now` is set. -/
def withBaseline (zone : TimeZone) (now : Time) (s : LedgerState) : LedgerState :=
  { s with dailyEquityBaseline := s.dailyEquityBaseline.setDefault (zone.dateKey now) s.equityUsd }

/-- Every rule but the losing streak lets the entry through at `now`: its size is admissible, a
pause has passed, a halt is a daily one of another day, and no limit is reached. -/
structure OnlyStreak (risk : RiskConfig) (zone : TimeZone) (now : Time) (s : LedgerState)
    (notionalUsdc : ℚ) (tokenMint : String) : Prop where
  positive : 0 < notionalUsdc
  size : notionalUsdc ≤ risk.maxPositionUsdc
  unpaused : ∀ until' ∈ s.pauseUntil, until' ≤ now
  unhalted : s.haltReason = none ∨
    (∃ date ∈ s.dailyHaltDate, date ≠ "" ∧ date ≠ zone.dateKey now) ∧
      ∀ reason ∈ s.haltReason, textStartsWith "daily:" reason
  exposure : s.lockedCapitalUsd + notionalUsdc ≤ risk.maxExposureUsdc
  openCount : (s.openPositions.length : Int) < risk.maxOpenPositions
  cash : notionalUsdc ≤ cashAvailableUsd s
  dailyLoss : ¬ dailyLossExceeded (withBaseline zone now s) (zone.dateKey now)
    risk.dailyLossLimitUsdc
  trades : (tradesToday zone s (zone.dateKey now) : Int) < risk.maxTradesPerDay
  drawdown : ¬ drawdownExceeded s risk.allTimeDrawdownLimitPct
  free : canOpen s tokenMint

instance (risk : RiskConfig) (zone : TimeZone) (now : Time) (s : LedgerState)
    (notionalUsdc : ℚ) (tokenMint : String) :
    Decidable (OnlyStreak risk zone now s notionalUsdc tokenMint) :=
  decidable_of_iff
    (0 < notionalUsdc ∧ notionalUsdc ≤ risk.maxPositionUsdc ∧
      (∀ until' ∈ s.pauseUntil, until' ≤ now) ∧
      (s.haltReason = none ∨
        (∃ date ∈ s.dailyHaltDate, date ≠ "" ∧ date ≠ zone.dateKey now) ∧
          ∀ reason ∈ s.haltReason, textStartsWith "daily:" reason) ∧
      s.lockedCapitalUsd + notionalUsdc ≤ risk.maxExposureUsdc ∧
      (s.openPositions.length : Int) < risk.maxOpenPositions ∧
      notionalUsdc ≤ cashAvailableUsd s ∧
      ¬ dailyLossExceeded (withBaseline zone now s) (zone.dateKey now) risk.dailyLossLimitUsdc ∧
      (tradesToday zone s (zone.dateKey now) : Int) < risk.maxTradesPerDay ∧
      ¬ drawdownExceeded s risk.allTimeDrawdownLimitPct ∧ canOpen s tokenMint)
    ⟨fun ⟨h1, h2, h3, h4, h5, h6, h7, h8, h9, h10, h11⟩ =>
        ⟨h1, h2, h3, h4, h5, h6, h7, h8, h9, h10, h11⟩,
      fun h => ⟨h.positive, h.size, h.unpaused, h.unhalted, h.exposure, h.openCount, h.cash,
        h.dailyLoss, h.trades, h.drawdown, h.free⟩⟩

section Check

variable {risk : RiskConfig} {zone : TimeZone} {now : Time} {s : LedgerState}
  {notionalUsdc : ℚ} {tokenMint : String}

/-- With the expired controls cleared there is no halt and no pause. -/
theorem OnlyStreak.cleared_eq (h : OnlyStreak risk zone now s notionalUsdc tokenMint) :
    ∃ date, clearExpiredDailyControls s (zone.dateKey now) now =
      { s with haltReason := none, pauseUntil := none, dailyHaltDate := date } := by
  have hpause : s.pauseUntil.filter (now < ·) = none := by
    refine Option.filter_eq_none_iff.mpr fun until' huntil => ?_
    simpa using h.unpaused until' huntil
  unfold clearExpiredDailyControls
  dsimp only
  rw [hpause]
  rcases h.unhalted with hnone | ⟨⟨date, hdate, hold⟩, hdaily⟩
  · split
    · exact ⟨none, by rw [hnone]; rfl⟩
    · exact ⟨s.dailyHaltDate, by rw [hnone]⟩
  · have hended : (s.dailyHaltDate.any fun date => date ≠ "" ∧ date ≠ zone.dateKey now) = true := by
      rw [Option.mem_def.mp hdate]
      exact decide_eq_true hold
    have hhalt : (s.haltReason.filter fun reason => !textStartsWith "daily:" reason) = none := by
      refine Option.filter_eq_none_iff.mpr fun reason hreason => ?_
      simp [hdaily reason hreason]
    rw [if_pos hended, hhalt]
    exact ⟨none, rfl⟩

/-- What is left of the check: the two tests of the streak. -/
theorem OnlyStreak.evaluateEntry_eq (h : OnlyStreak risk zone now s notionalUsdc tokenMint) :
    (evaluateEntry risk zone now s notionalUsdc tokenMint).1 =
      if (consecutiveLosses s : Int) ≥ risk.dailyHaltAfterConsecutiveLosses then
        .ok (.block "CONSECUTIVE_LOSS_DAILY_HALT")
      else if (consecutiveLosses s : Int) ≥ risk.maxConsecutiveLosses then
        .ok (.block "CONSECUTIVE_LOSSES")
      else .ok .allow := by
  have hstop : entryStop zone now s = none := by
    obtain ⟨date, hcleared⟩ := h.cleared_eq
    simp [entryStop, hcleared]
  have hloss : ¬ s.equityUsd - dayBaseline zone now s ≤ -|risk.dailyLossLimitUsdc| :=
    fun hle => h.dailyLoss ⟨_, Dict.get?_setDefault _ _ _, hle⟩
  rw [evaluateEntry_fst h.positive, hstop]
  dsimp only
  rw [entryRules, if_neg (not_lt.mpr h.size), if_neg (not_lt.mpr h.exposure),
    if_neg (not_le.mpr h.openCount), if_neg (not_lt.mpr h.cash), if_neg hloss,
    if_neg (not_le.mpr h.trades), if_neg h.drawdown, if_neg (not_not.mpr h.free), apply_ite Except.ok,
    apply_ite Except.ok]

/-- The check has refused an entry because of the losing streak. -/
def StreakRefusal (risk : RiskConfig) (zone : TimeZone) (now : Time) (s : LedgerState)
    (notionalUsdc : ℚ) (tokenMint : String) : Prop :=
  (evaluateEntry risk zone now s notionalUsdc tokenMint).1 = .ok (.block "CONSECUTIVE_LOSSES") ∨
    (evaluateEntry risk zone now s notionalUsdc tokenMint).1 =
      .ok (.block "CONSECUTIVE_LOSS_DAILY_HALT")

/-- Below both thresholds no check refuses for the streak. -/
theorem not_streakRefusal
    (hhalt : (consecutiveLosses s : Int) < risk.dailyHaltAfterConsecutiveLosses)
    (hpause : (consecutiveLosses s : Int) < risk.maxConsecutiveLosses) :
    ¬ StreakRefusal risk zone now s notionalUsdc tokenMint := by
  have hother : ∀ answer, answer = "CONSECUTIVE_LOSSES" ∨ answer = "CONSECUTIVE_LOSS_DAILY_HALT" →
      (evaluateEntry risk zone now s notionalUsdc tokenMint).1 ≠ .ok (.block answer) := by
    intro answer hanswer
    by_cases hpos : 0 < notionalUsdc
    · rw [evaluateEntry_fst hpos, ne_eq, Except.ok.injEq]
      cases hstop : entryStop zone now s with
      | some reason =>
          rintro ⟨⟩
          rcases entryStop_reason hstop with rfl | rfl <;> simp at hanswer
      | none =>
          dsimp only
          unfold entryRules
          rw [if_neg (not_le.mpr hhalt), if_neg (not_le.mpr hpause)]
          rcases hanswer with rfl | rfl <;> (repeat' split) <;> decide
    · rw [evaluateEntry, if_pos (not_lt.mp hpos)]
      rintro ⟨⟩
  rintro (h | h)
  · exact hother _ (Or.inl rfl) h
  · exact hother _ (Or.inr rfl) h

end Check

/-! ## After the pause -/

variable {risk : RiskConfig} {zone : TimeZone}

/-- The ledger `after` has the fills of `before` and later ones, none of them a losing exit. -/
structure NoLossSince (before after : LedgerState) (later : List FillRecord) : Prop where
  fills : after.fills = before.fills ++ later
  noLoss : ∀ fill ∈ later, ¬ Losing fill

/-- Once an entry was refused for the losing streak, and no losing exit was booked since, an entry
that no other rule blocks is allowed exactly when an exit was booked since and the thresholds are
positive. -/
theorem evaluateEntry_after_streak {refusedAt now : Time} {before after : LedgerState}
    {later : List FillRecord} {refusedUsdc notionalUsdc : ℚ} {refusedMint tokenMint : String}
    (hrefused : StreakRefusal risk zone refusedAt before refusedUsdc refusedMint)
    (hsince : NoLossSince before after later)
    (honly : OnlyStreak risk zone now after notionalUsdc tokenMint) :
    (evaluateEntry risk zone now after notionalUsdc tokenMint).1 = .ok .allow ↔
      (∃ fill ∈ later, fill.fillType = .exit) ∧ 0 < risk.maxConsecutiveLosses ∧
        0 < risk.dailyHaltAfterConsecutiveLosses := by
  rw [honly.evaluateEntry_eq, consecutiveLosses_append hsince.fills hsince.noLoss]
  by_cases hexit : ∃ fill ∈ later, fill.fillType = .exit
  · -- the streak is over
    rw [if_pos hexit]
    by_cases hhalt : 0 < risk.dailyHaltAfterConsecutiveLosses
    · rw [if_neg (not_le.mpr (by simpa using hhalt))]
      by_cases hpause : 0 < risk.maxConsecutiveLosses
      · rw [if_neg (not_le.mpr (by simpa using hpause))]
        exact iff_of_true rfl ⟨hexit, hpause, hhalt⟩
      · rw [if_pos (by simpa using hpause)]
        exact iff_of_false (by rintro ⟨⟩) fun h => hpause h.2.1
    · rw [if_pos (by simpa using hhalt)]
      exact iff_of_false (by rintro ⟨⟩) fun h => hhalt h.2.2
  · -- the streak is the one that was refused before
    rw [if_neg hexit]
    refine iff_of_false ?_ fun h => hexit h.1
    split
    · rintro ⟨⟩
    · rename_i hhalt
      split
      · rintro ⟨⟩
      · rename_i hpause
        exact absurd hrefused (not_streakRefusal (not_le.mp hhalt) (not_le.mp hpause))

/-! ## Three losses -/

deriving instance DecidableEq for FillRecord

/-- The default limits. -/
def defaultRisk : RiskConfig where
  maxPositionUsdc := 20
  maxExposureUsdc := 50
  maxOpenPositions := 3
  dailyLossLimitUsdc := 10
  allTimeDrawdownLimitPct := 10
  maxTradesPerDay := 12
  maxConsecutiveLosses := 3
  dailyHaltAfterConsecutiveLosses := 4
  pauseMinutes := 60

/-- The first two days of the UTC calendar. -/
def twoDays : TimeZone where
  dateKey t := if t < seconds 86400 then "1970-01-01" else "1970-01-02"
  dayBounds t :=
    if t < seconds 86400 then (0, seconds 86400) else (seconds 86400, seconds 172800)

/-- A position of ten dollars for ten tokens. -/
def tenDollars (mint : String) (at' : Int) : LedgerOp :=
  .openPosition
    { tokenMint := mint, usdAmount := 10, tokenAmount := 10, orderId := "entry:" ++ mint
      quoteId := "", positionId := mint, fillId := "fill:" ++ mint, createdAt := seconds at' }

/-- The end of such a position. -/
def soldFor (usd : ℚ) (mint : String) (at' : Int) : LedgerOp :=
  .closePosition
    { tokenMint := mint, usdReceived := usd, tokenClosed := 10, orderId := "exit:" ++ mint
      quoteId := "", closeFillId := "sold:" ++ mint, createdAt := seconds at' }

/-- Three positions end with a loss of a dollar each; a fourth one stays open. -/
def threeLosses : LedgerState :=
  exec (LedgerState.apply twoDays.dateKey) (LedgerState.init 500)
    [tenDollars "A" 1, tenDollars "B" 2, tenDollars "D" 3, soldFor 9 "A" 4, soldFor 9 "B" 5,
      tenDollars "C" 6, soldFor 9 "C" 7]

/-- The ledger after the refusal that set the pause. -/
def paused : LedgerState := (evaluateEntry defaultRisk twoDays (seconds 20) threeLosses 10 "E").2

/-- The ledger after the fourth position has ended with a gain. -/
def recovered : LedgerState := paused.apply twoDays.dateKey (soldFor 12 "D" 30)

/-- With the gain the entries are allowed again after the hour. -/
theorem evaluateEntry_after_streak_recovered :
    (evaluateEntry defaultRisk twoDays (seconds 3620) recovered 10 "E").1 = .ok .allow := by
  have hrefused : StreakRefusal defaultRisk twoDays (seconds 20) threeLosses 10 "E" :=
    Or.inl (by decide +kernel)
  have hsince : NoLossSince threeLosses recovered (recovered.fills.drop 7) :=
    ⟨by decide +kernel, by decide +kernel⟩
  exact (evaluateEntry_after_streak hrefused hsince (by decide +kernel)).mpr (by decide +kernel)

/-- Without it the check at the end of the hour sets the next pause, although nothing was booked
in between and no other rule blocks the entry. -/
theorem pause_renewed :
    StreakRefusal defaultRisk twoDays (seconds 20) threeLosses 10 "E" ∧
    paused.pauseUntil = some (seconds 3620) ∧ NoLossSince threeLosses paused [] ∧
    OnlyStreak defaultRisk twoDays (seconds 3620) paused 10 "E" ∧
    (evaluateEntry defaultRisk twoDays (seconds 3620) paused 10 "E").1 =
      .ok (.block "CONSECUTIVE_LOSSES") ∧
    (evaluateEntry defaultRisk twoDays (seconds 3620) paused 10 "E").2.pauseUntil =
      some (seconds 7220) := by
  refine ⟨Or.inl (by decide +kernel), by decide +kernel, ⟨by decide +kernel, by simp⟩, ?_, ?_, ?_⟩
  · decide +kernel
  · decide +kernel
  · decide +kernel

end SniperBot.Risk
