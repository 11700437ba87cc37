import SniperBot.Basis.Rounding
import Mathlib.Tactic.GCongr

/-!
# The size of a position

`calculate_position_size` (`sizing.py`) in exact arithmetic: the least of four caps, scaled by a
step function of the score and cut to cents. An input that is refused before the caps are taken has
size zero, and one whose size is below the minimum keeps it, so that better inputs never have a
smaller size, allowed or not.
-/

namespace SniperBot.Risk

open Basis

inductive SizingRejectReason
  | positionTooSmallAfterCosts | noDailyRiskBudget | invalidEffectiveLoss
  deriving DecidableEq, Repr

structure PositionSizingInput where
  currentEquityUsd : ℚ
  dailyPnlUsd : ℚ
  quoteLiquidityUsd : ℚ
  estimatedRoundTripCostPct : ℚ
  score : ℚ
  hardStopPct : ℚ := 15 / 100
  adverseExecutionBufferPct : ℚ := 1 / 100
  dailyLossLimitUsd : ℚ := 10
  maximumPositionUsd : ℚ := 20
  minimumPositionUsd : ℚ := 8
  equity_pos : 0 < currentEquityUsd
  liquidity_pos : 0 < quoteLiquidityUsd
  cost_nonneg : 0 ≤ estimatedRoundTripCostPct
  score_nonneg : 0 ≤ score
  score_le : score ≤ 100

structure PositionSizingResult where
  allowed : Bool
  positionSizeUsd : ℚ
  riskBudgetUsd : ℚ
  effectiveLossPct : ℚ
  scoreMultiplier : ℚ
  rejectReason : Option SizingRejectReason := none
  deriving DecidableEq, Repr

/-- `_score_multiplier` -/
def scoreMultiplier (score : ℚ) : ℚ :=
  if score ≥ 92 then 1
  else if score ≥ 85 then 90 / 100
  else if score ≥ 80 then 75 / 100
  else 0

namespace PositionSizingInput

variable (value : PositionSizingInput)

def remainingDaily : ℚ := max 0 (value.dailyLossLimitUsd + min value.dailyPnlUsd 0)

def riskBudget : ℚ := min (value.currentEquityUsd * (5 / 1000)) value.remainingDaily

def effectiveLoss : ℚ :=
  value.hardStopPct + value.estimatedRoundTripCostPct + value.adverseExecutionBufferPct

/-- The least of the four caps. -/
def cap : ℚ :=
  min (min (min (value.riskBudget / value.effectiveLoss) (value.currentEquityUsd * (4 / 100)))
    (value.quoteLiquidityUsd * (25 / 10000))) value.maximumPositionUsd

/-- The scaled cap, cut to cents. -/
def size : ℚ := towardZero (1 / 100) (value.cap * scoreMultiplier value.score)

end PositionSizingInput

/-- `calculate_position_size` -/
def calculatePositionSize (value : PositionSizingInput) : PositionSizingResult :=
  let result : PositionSizingResult :=
    { allowed := false
      positionSizeUsd := 0
      riskBudgetUsd := value.riskBudget
      effectiveLossPct := value.effectiveLoss
      scoreMultiplier := scoreMultiplier value.score }
  if value.riskBudget ≤ 0 then { result with rejectReason := some .noDailyRiskBudget }
  else if value.effectiveLoss ≤ 0 then { result with rejectReason := some .invalidEffectiveLoss }
  else if value.size < value.minimumPositionUsd then
    { result with
      positionSizeUsd := value.size, rejectReason := some .positionTooSmallAfterCosts }
  else { result with allowed := true, positionSizeUsd := value.size }

/-! ## The parts of the size -/

theorem scoreMultiplier_nonneg (score : ℚ) : 0 ≤ scoreMultiplier score := by
  unfold scoreMultiplier
  split_ifs <;> norm_num

theorem scoreMultiplier_le_one (score : ℚ) : scoreMultiplier score ≤ 1 := by
  unfold scoreMultiplier
  split_ifs <;> norm_num

theorem scoreMultiplier_mono {score other : ℚ} (h : score ≤ other) :
    scoreMultiplier score ≤ scoreMultiplier other := by
  unfold scoreMultiplier
  split_ifs <;> first
    | (exfalso; linarith)
    | norm_num

namespace PositionSizingInput

/-- The settings under which a position has a positive cap and a positive loss. -/
structure Admissible (value : PositionSizingInput) : Prop where
  maximum_pos : 0 < value.maximumPositionUsd
  stop_pos : 0 < value.hardStopPct
  buffer_nonneg : 0 ≤ value.adverseExecutionBufferPct

/-- The other input has no less equity, daily result, liquidity and score, no greater cost, stop and
buffer, and the same limits. -/
structure Worse (value other : PositionSizingInput) : Prop where
  equity : value.currentEquityUsd ≤ other.currentEquityUsd
  dailyPnl : value.dailyPnlUsd ≤ other.dailyPnlUsd
  liquidity : value.quoteLiquidityUsd ≤ other.quoteLiquidityUsd
  score : value.score ≤ other.score
  cost : other.estimatedRoundTripCostPct ≤ value.estimatedRoundTripCostPct
  stop : other.hardStopPct ≤ value.hardStopPct
  buffer : other.adverseExecutionBufferPct ≤ value.adverseExecutionBufferPct
  dailyLossLimit : value.dailyLossLimitUsd = other.dailyLossLimitUsd
  maximum : value.maximumPositionUsd = other.maximumPositionUsd
  minimum : value.minimumPositionUsd = other.minimumPositionUsd

variable {value other : PositionSizingInput}

theorem Admissible.effectiveLoss_pos (h : value.Admissible) : 0 < value.effectiveLoss :=
  add_pos_of_pos_of_nonneg (add_pos_of_pos_of_nonneg h.stop_pos value.cost_nonneg) h.buffer_nonneg

theorem Admissible.cap_nonneg (h : value.Admissible) (hbudget : 0 ≤ value.riskBudget) :
    0 ≤ value.cap := by
  refine le_min (le_min (le_min ?_ ?_) ?_) h.maximum_pos.le
  · exact div_nonneg hbudget h.effectiveLoss_pos.le
  · exact mul_nonneg value.equity_pos.le (by norm_num)
  · exact mul_nonneg value.liquidity_pos.le (by norm_num)

theorem Admissible.scaled_nonneg (h : value.Admissible) (hbudget : 0 ≤ value.riskBudget) :
    0 ≤ value.cap * scoreMultiplier value.score :=
  mul_nonneg (h.cap_nonneg hbudget) (scoreMultiplier_nonneg _)

theorem Admissible.size_nonneg (h : value.Admissible) (hbudget : 0 ≤ value.riskBudget) :
    0 ≤ value.size :=
  towardZero_nonneg (by norm_num) (h.scaled_nonneg hbudget)

theorem Admissible.size_le_cap (h : value.Admissible) (hbudget : 0 ≤ value.riskBudget) :
    value.size ≤ value.cap := by
  calc value.size
      ≤ value.cap * scoreMultiplier value.score :=
        towardZero_le (by norm_num) (h.scaled_nonneg hbudget)
    _ ≤ value.cap * 1 :=
        mul_le_mul_of_nonneg_left (scoreMultiplier_le_one _) (h.cap_nonneg hbudget)
    _ = value.cap := mul_one _

theorem Worse.remainingDaily_le (h : value.Worse other) :
    value.remainingDaily ≤ other.remainingDaily := by
  unfold remainingDaily
  rw [h.dailyLossLimit]
  have hpnl := h.dailyPnl
  gcongr

theorem Worse.riskBudget_le (h : value.Worse other) : value.riskBudget ≤ other.riskBudget := by
  have hequity := h.equity
  exact min_le_min (by gcongr) h.remainingDaily_le

theorem Worse.effectiveLoss_le (h : value.Worse other) :
    other.effectiveLoss ≤ value.effectiveLoss :=
  add_le_add (add_le_add h.stop h.cost) h.buffer

theorem Worse.cap_le (h : value.Worse other) (hother : other.Admissible)
    (hbudget : 0 ≤ value.riskBudget) : value.cap ≤ other.cap := by
  have hequity := h.equity
  have hliquidity := h.liquidity
  refine min_le_min (min_le_min (min_le_min ?_ (by gcongr)) (by gcongr)) h.maximum.le
  exact div_le_div₀ (hbudget.trans h.riskBudget_le) h.riskBudget_le hother.effectiveLoss_pos
    h.effectiveLoss_le

theorem Worse.size_le (h : value.Worse other) (hvalue : value.Admissible)
    (hother : other.Admissible) (hbudget : 0 ≤ value.riskBudget) : value.size ≤ other.size :=
  towardZero_mono (by norm_num) (hvalue.scaled_nonneg hbudget)
    (mul_le_mul (h.cap_le hother hbudget) (scoreMultiplier_mono h.score)
      (scoreMultiplier_nonneg _) (hother.cap_nonneg (hbudget.trans h.riskBudget_le)))

/-! ## The returned size -/

/-- Without a budget the size is zero; otherwise it is the cut one, whether it is allowed or not. -/
theorem Admissible.positionSizeUsd_eq (h : value.Admissible) :
    (calculatePositionSize value).positionSizeUsd =
      if value.riskBudget ≤ 0 then 0 else value.size := by
  unfold calculatePositionSize
  dsimp only
  rw [if_neg h.effectiveLoss_pos.not_ge]
  split_ifs <;> rfl

theorem Admissible.allowed_iff (h : value.Admissible) :
    (calculatePositionSize value).allowed = true ↔
      0 < value.riskBudget ∧ value.minimumPositionUsd ≤ value.size := by
  unfold calculatePositionSize
  dsimp only
  rw [if_neg h.effectiveLoss_pos.not_ge]
  split_ifs with hbudget hsize
  · simp [hbudget.not_gt]
  · simp [hsize.not_ge]
  · simp [not_le.mp hbudget, not_lt.mp hsize]

end PositionSizingInput

open PositionSizingInput

/-- An allowed size keeps the minimum, the caps and both loss limits, and the size never falls when
the input gets better. -/
theorem calculatePositionSize_capped_and_monotone :
    (∀ value : PositionSizingInput, value.Admissible →
      (calculatePositionSize value).allowed = true →
        let size := (calculatePositionSize value).positionSizeUsd
        value.minimumPositionUsd ≤ size ∧
          size ≤ value.riskBudget / value.effectiveLoss ∧
          size ≤ value.currentEquityUsd * (4 / 100) ∧
          size ≤ value.quoteLiquidityUsd * (25 / 10000) ∧
          size ≤ value.maximumPositionUsd ∧
          size * value.effectiveLoss ≤ value.currentEquityUsd * (5 / 1000) ∧
          size * value.effectiveLoss ≤ value.remainingDaily) ∧
    ∀ value other : PositionSizingInput, value.Admissible → other.Admissible →
      value.Worse other →
        (calculatePositionSize value).positionSizeUsd ≤
          (calculatePositionSize other).positionSizeUsd := by
  constructor
  · intro value h hallowed
    obtain ⟨hbudget, hminimum⟩ := h.allowed_iff.mp hallowed
    dsimp only
    rw [h.positionSizeUsd_eq, if_neg hbudget.not_ge]
    have hcap := h.size_le_cap hbudget.le
    have hrisk : value.size ≤ value.riskBudget / value.effectiveLoss :=
      hcap.trans ((min_le_left _ _).trans ((min_le_left _ _).trans (min_le_left _ _)))
    have hloss : value.size * value.effectiveLoss ≤ value.riskBudget :=
      (le_div_iff₀ h.effectiveLoss_pos).mp hrisk
    refine ⟨hminimum, hrisk, ?_, ?_, ?_, ?_, ?_⟩
    · exact hcap.trans ((min_le_left _ _).trans ((min_le_left _ _).trans (min_le_right _ _)))
    · exact hcap.trans ((min_le_left _ _).trans (min_le_right _ _))
    · exact hcap.trans (min_le_right _ _)
    · exact hloss.trans (min_le_left _ _)
    · exact hloss.trans (min_le_right _ _)
  · intro value other hvalue hother h
    rw [hvalue.positionSizeUsd_eq, hother.positionSizeUsd_eq]
    split_ifs with hbudget hbudget' hbudget'
    · exact le_rfl
    · exact hother.size_nonneg (not_le.mp hbudget').le
    · exact absurd (h.riskBudget_le.trans hbudget') hbudget
    · exact h.size_le hvalue hother (not_le.mp hbudget).le

/-- The account of the tests, after a loss of the day. -/
def sampleSizing (score : ℚ) (hscore : 0 ≤ score) (hle : score ≤ 100) : PositionSizingInput where
  currentEquityUsd := 500
  dailyPnlUsd := -8
  quoteLiquidityUsd := 50000
  estimatedRoundTripCostPct := 4 / 100
  score := score
  equity_pos := by norm_num
  liquidity_pos := by norm_num
  cost_nonneg := by norm_num
  score_nonneg := hscore
  score_le := hle

theorem sampleSizing_admissible (score : ℚ) (hscore : 0 ≤ score) (hle : score ≤ 100) :
    (sampleSizing score hscore hle).Admissible :=
  ⟨by norm_num [sampleSizing], by norm_num [sampleSizing], by norm_num [sampleSizing]⟩

/-- An account whose candidate has a score from 0 to 100. -/
def scoredSizing (score : Fin 101) : PositionSizingInput :=
  sampleSizing score.val (Nat.cast_nonneg _) (by exact_mod_cast score.is_le)

theorem calculatePositionSize_sample :
    ((calculatePositionSize (scoredSizing 95)).allowed = true ∧
      8 ≤ (calculatePositionSize (scoredSizing 95)).positionSizeUsd) ∧
    (calculatePositionSize (scoredSizing 84)).positionSizeUsd ≤
      (calculatePositionSize (scoredSizing 95)).positionSizeUsd := by
  have hallowed : (calculatePositionSize (scoredSizing 95)).allowed = true := by decide +kernel
  refine ⟨⟨hallowed, ?_⟩, ?_⟩
  · exact (calculatePositionSize_capped_and_monotone.1 _ (sampleSizing_admissible _ _ _)
      hallowed).1
  · exact calculatePositionSize_capped_and_monotone.2 _ _ (sampleSizing_admissible _ _ _)
      (sampleSizing_admissible _ _ _)
      ⟨le_rfl, le_rfl, le_rfl, by norm_num [scoredSizing, sampleSizing], le_rfl, le_rfl, le_rfl, rfl, rfl, rfl⟩

end SniperBot.Risk
