import SniperBot.Basis.Rounding
import SniperBot.Features.Engine

/-!
# Scores

`ScoringEngine.score` (`scoring.py`) in exact arithmetic: clamped terms, summed up to a cap for each
category and rounded to cents. Every result passes the checks of `ScoreBreakdown`, and a context
that is better in the features, the execution and the developer's history never has a smaller total
(`score_bounded_and_monotone`).
-/

namespace SniperBot.Features

open Basis

structure DeveloperHistory where
  known : Bool := false
  previousRugs : Int := 0
  previousDevDumps5m : Int := 0
  tokensCreated7d : Int := 0
  successfulTokens : Int := 0
  deriving DecidableEq, Repr

structure ScoreContext where
  features : FeatureSnapshot
  roundTripLossPct : ℚ
  buyPriceImpactPct : ℚ
  sellPriceImpactPct : ℚ
  sellRouteReliability : ℚ
  developerHistory : DeveloperHistory := {}
  vwapReclaimed : Bool := false
  loss_nonneg : 0 ≤ roundTripLossPct
  buyImpact_nonneg : 0 ≤ buyPriceImpactPct
  sellImpact_nonneg : 0 ≤ sellPriceImpactPct
  reliability_nonneg : 0 ≤ sellRouteReliability
  reliability_le : sellRouteReliability ≤ 1

/-- The terms of a category by name. -/
abbrev Parts := List (String × ℚ)

structure ScoreBreakdown where
  totalScore : ℚ
  organicScore : ℚ
  distributionScore : ℚ
  executionScore : ℚ
  liquidityScore : ℚ
  developerScore : ℚ
  priceStructureScore : ℚ
  /-- the rounded terms, whose texts the explanation shows -/
  explanations : List (String × Parts)
  deriving DecidableEq, Repr

/-- The field checks of a breakdown. -/
structure ScoreBreakdown.Valid (s : ScoreBreakdown) : Prop where
  total : 0 ≤ s.totalScore ∧ s.totalScore ≤ 100
  organic : 0 ≤ s.organicScore ∧ s.organicScore ≤ 25
  distribution : 0 ≤ s.distributionScore ∧ s.distributionScore ≤ 20
  execution : 0 ≤ s.executionScore ∧ s.executionScore ≤ 20
  liquidity : 0 ≤ s.liquidityScore ∧ s.liquidityScore ≤ 15
  developer : 0 ≤ s.developerScore ∧ s.developerScore ≤ 10
  priceStructure : 0 ≤ s.priceStructureScore ∧ s.priceStructureScore ≤ 10

theorem ScoreBreakdown.valid_iff (s : ScoreBreakdown) :
    s.Valid ↔ (0 ≤ s.totalScore ∧ s.totalScore ≤ 100) ∧ (0 ≤ s.organicScore ∧ s.organicScore ≤ 25) ∧
      (0 ≤ s.distributionScore ∧ s.distributionScore ≤ 20) ∧
      (0 ≤ s.executionScore ∧ s.executionScore ≤ 20) ∧
      (0 ≤ s.liquidityScore ∧ s.liquidityScore ≤ 15) ∧
      (0 ≤ s.developerScore ∧ s.developerScore ≤ 10) ∧
      0 ≤ s.priceStructureScore ∧ s.priceStructureScore ≤ 10 :=
  ⟨fun ⟨h1, h2, h3, h4, h5, h6, h7⟩ => ⟨h1, h2, h3, h4, h5, h6, h7⟩,
    fun ⟨h1, h2, h3, h4, h5, h6, h7⟩ => ⟨h1, h2, h3, h4, h5, h6, h7⟩⟩

instance (s : ScoreBreakdown) : Decidable s.Valid := decidable_of_iff' _ s.valid_iff

inductive ScoringError
  | valueError (message : String)
  | validationError
  deriving DecidableEq, Repr

/-! ## Terms -/

/-- `_clamp` -/
def clamp (value low high : ℚ) : ℚ := max low (min value high)

/-- `_linear` -/
def linear (value low high maximum : ℚ) : Except ScoringError ℚ :=
  if high ≤ low then .error (.valueError "linear score high must exceed low")
  else .ok (clamp ((value - low) / (high - low) * maximum) 0 maximum)

/-- `_inverse` -/
def inverse (value good bad maximum : ℚ) : Except ScoringError ℚ :=
  if bad ≤ good then .error (.valueError "inverse score bad must exceed good")
  else .ok (clamp ((bad - value) / (bad - good) * maximum) 0 maximum)

/-- `_developer_score` -/
def developerScore (history : DeveloperHistory) : ℚ :=
  if history.known = false then 5
  else if history.previousRugs ≥ 2 then 0
  else
    let score : ℚ := 5 + min (history.successfulTokens : ℚ) 3
    let score := score - min ((history.previousDevDumps5m * 2 : Int) : ℚ) 4
    let score := if history.tokensCreated7d ≥ 10 then score - 3 else score
    clamp score 0 10

/-- `_sum_cap` -/
def sumCap (parts : Parts) (maximum : ℚ) : ℚ := min (parts.map (·.2)).sum maximum

/-- `_q` -/
def toCents (value : ℚ) : ℚ := nearest (1 / 100) value

/-- `_explain` -/
def explain (parts : Parts) : Parts := parts.map fun part => (part.1, toCents part.2)

/-! ## Categories -/

section Categories

variable (context : ScoreContext)

def organicParts : Except ScoringError Parts := do
  let f := context.features
  return [
    ("unique_buyers_60s", ← linear f.uniqueBuyers60s 5 25 8),
    ("buyer_acceleration", ← linear f.buyerAcceleration (8 / 10) (15 / 10) 6),
    ("unique_buyer_ratio", ← linear f.uniqueBuyerRatio (2 / 10) (75 / 100) 4),
    ("buy_sell_volume_ratio", ← linear f.buySellVolumeRatio 1 3 4),
    ("transactions_per_trader", ← inverse f.transactionsPerTrader 2 6 3)]

def distributionParts : Except ScoringError Parts := do
  let f := context.features
  return [
    ("top_10_holders", ← inverse f.top10HoldersPct (15 / 100) (30 / 100) 6),
    ("largest_related_cluster", ← inverse f.largestRelatedClusterPct (5 / 100) (15 / 100) 6),
    ("dev_cluster", ← inverse f.devClusterHoldingPct (2 / 100) (5 / 100) 4),
    ("top_5_buyers_share", ← inverse f.top5BuyerVolumeShare (35 / 100) (70 / 100) 4)]

def executionParts : Except ScoringError Parts := do
  return [
    ("round_trip_loss", ← inverse context.roundTripLossPct (3 / 100) (8 / 100) 8),
    ("price_impact", ← inverse (max context.buyPriceImpactPct context.sellPriceImpactPct)
      (1 / 100) (35 / 1000) 6),
    ("sell_route_reliability", context.sellRouteReliability * 6)]

def liquidityParts : Except ScoringError Parts := do
  let f := context.features
  return [
    ("quote_liquidity", ← linear f.quoteLiquidityUsd 40000 100000 5),
    ("liquidity_stability", ← linear f.quoteLiquidityChange30s (-3 / 100) 0 6),
    ("market_cap_to_liquidity", ← inverse f.marketCapToQuoteLiquidity 5 15 4)]

def developerParts : Parts := [("history", developerScore context.developerHistory)]

def priceParts : Parts :=
  let f := context.features
  [("controlled_pullback",
      if 10 / 100 ≤ f.drawdownFromLocalHigh ∧ f.drawdownFromLocalHigh ≤ 25 / 100 then 4 else 0),
    ("vwap_reclaim", if context.vwapReclaimed then 4 else 0),
    ("not_overextended", if f.returnSincePoolCreation ≤ 25 / 10 then 2 else 0)]

/-- `score` -/
def score : Except ScoringError ScoreBreakdown := do
  let organicParts ← organicParts context
  let distributionParts ← distributionParts context
  let executionParts ← executionParts context
  let liquidityParts ← liquidityParts context
  let developerParts := developerParts context
  let priceParts := priceParts context
  let organic := sumCap organicParts 25
  let distribution := sumCap distributionParts 20
  let execution := sumCap executionParts 20
  let liquidity := sumCap liquidityParts 15
  let developer := sumCap developerParts 10
  let price := sumCap priceParts 10
  let total := organic + distribution + execution + liquidity + developer + price
  let breakdown : ScoreBreakdown :=
    { totalScore := toCents total
      organicScore := toCents organic
      distributionScore := toCents distribution
      executionScore := toCents execution
      liquidityScore := toCents liquidity
      developerScore := toCents developer
      priceStructureScore := toCents price
      explanations := [("organic", explain organicParts),
        ("distribution", explain distributionParts), ("execution", explain executionParts),
        ("liquidity", explain liquidityParts), ("developer", explain developerParts),
        ("price_structure", explain priceParts)] }
  if breakdown.Valid then return breakdown else throw .validationError

end Categories

/-! ## Terms in range -/

section Terms

variable {value other low high good bad maximum : ℚ}

theorem clamp_nonneg : 0 ≤ clamp value 0 maximum := le_max_left _ _

theorem clamp_le (hmaximum : 0 ≤ maximum) : clamp value 0 maximum ≤ maximum :=
  max_le hmaximum (min_le_right _ _)

theorem clamp_mono (h : value ≤ other) : clamp value low high ≤ clamp other low high :=
  max_le_max le_rfl (min_le_min h le_rfl)

/-- The term that rises from the low end to the high one. -/
def rising (value low high maximum : ℚ) : ℚ :=
  clamp ((value - low) / (high - low) * maximum) 0 maximum

theorem linear_eq (h : low < high) :
    linear value low high maximum = .ok (rising value low high maximum) :=
  if_neg h.not_ge

/-- A falling term is a rising one of the opposite value. -/
theorem inverse_eq (h : good < bad) :
    inverse value good bad maximum = .ok (rising (-value) (-bad) (-good) maximum) := by
  have hquotient : (-value - -bad) / (-good - -bad) = (bad - value) / (bad - good) := by
    congr 1 <;> ring
  rw [inverse, if_neg h.not_ge, rising, hquotient]

theorem rising_mono (hrange : low < high) (hmaximum : 0 ≤ maximum) (h : value ≤ other) :
    rising value low high maximum ≤ rising other low high maximum := by
  have hpos : 0 < high - low := sub_pos.mpr hrange
  exact clamp_mono (by gcongr)

theorem rising_nonneg : 0 ≤ rising value low high maximum := clamp_nonneg

theorem rising_le (hmaximum : 0 ≤ maximum) : rising value low high maximum ≤ maximum :=
  clamp_le hmaximum

end Terms

/-! ## Cents -/

theorem toCents_mono {x y : ℚ} (h : x ≤ y) : toCents x ≤ toCents y :=
  nearest_mono (by norm_num) h

theorem toCents_intCast (n : ℤ) : toCents n = n := by
  have hcents : (n : ℚ) = ((n * 100 : ℤ) : ℚ) * (1 / 100) := by
    push_cast
    ring
  rw [hcents]
  exact nearest_mul (by norm_num) (n * 100)

/-- Rounding keeps whole bounds. -/
theorem toCents_bounds (cap : ℤ) {x maximum : ℚ} (hcap : (cap : ℚ) = maximum)
    (h : 0 ≤ x ∧ x ≤ maximum) : 0 ≤ toCents x ∧ toCents x ≤ maximum := by
  constructor
  · have hlow := toCents_mono h.1
    rwa [← Int.cast_zero, toCents_intCast] at hlow
  · have hhigh := toCents_mono h.2
    rwa [← hcap, toCents_intCast, hcap] at hhigh

/-! ## The developer's history -/

theorem developerScore_bounds (history : DeveloperHistory) :
    0 ≤ developerScore history ∧ developerScore history ≤ 10 := by
  unfold developerScore
  split
  · norm_num
  split
  · norm_num
  · exact ⟨clamp_nonneg, clamp_le (by norm_num)⟩

/-- What a history keeps against a better one. -/
structure DeveloperHistory.Worse (history other : DeveloperHistory) : Prop where
  known : history.known = other.known
  rugs : other.previousRugs ≤ history.previousRugs
  dumps : other.previousDevDumps5m ≤ history.previousDevDumps5m
  created : other.tokensCreated7d ≤ history.tokensCreated7d
  successful : history.successfulTokens ≤ other.successfulTokens

theorem DeveloperHistory.Worse.score_le {history other : DeveloperHistory}
    (h : history.Worse other) : developerScore history ≤ developerScore other := by
  have hsuccessful : (history.successfulTokens : ℚ) ≤ other.successfulTokens :=
    Int.cast_le.mpr h.successful
  have hdumps : ((other.previousDevDumps5m * 2 : Int) : ℚ) ≤
      ((history.previousDevDumps5m * 2 : Int) : ℚ) :=
    Int.cast_le.mpr (by have := h.dumps; omega)
  have hgained := min_le_min hsuccessful (le_refl (3 : ℚ))
  have hlost := min_le_min hdumps (le_refl (4 : ℚ))
  have hrugs := h.rugs
  have hcreated := h.created
  have hbounds := (developerScore_bounds other).1
  unfold developerScore at hbounds ⊢
  rw [h.known]
  split
  · rfl
  rename_i hknown
  rw [if_neg hknown] at hbounds
  by_cases hrug : history.previousRugs ≥ 2
  · rw [if_pos hrug]
    exact hbounds
  rw [if_neg hrug, if_neg (by omega)]
  refine clamp_mono ?_
  by_cases hmany : other.tokensCreated7d ≥ 10
  · rw [if_pos hmany, if_pos (by omega)]
    linarith
  · rw [if_neg hmany]
    split_ifs <;> linarith

/-! ## Points -/

/-- The sum of the terms of a category. -/
def sumOf (parts : Parts) : ℚ := (parts.map (·.2)).sum

/-- A category whose terms do not exceed its cap together is their sum. -/
theorem sumCap_eq {parts : Parts} {maximum : ℚ} (h : sumOf parts ≤ maximum) :
    sumCap parts maximum = sumOf parts :=
  min_eq_left h

section Points

variable (context : ScoreContext)

def organicPoints : ℚ :=
  let f := context.features
  rising f.uniqueBuyers60s 5 25 8 + (rising f.buyerAcceleration (8 / 10) (15 / 10) 6 +
    (rising f.uniqueBuyerRatio (2 / 10) (75 / 100) 4 + (rising f.buySellVolumeRatio 1 3 4 +
      rising (-f.transactionsPerTrader) (-6) (-2) 3)))

def distributionPoints : ℚ :=
  let f := context.features
  rising (-f.top10HoldersPct) (-(30 / 100)) (-(15 / 100)) 6 +
    (rising (-f.largestRelatedClusterPct) (-(15 / 100)) (-(5 / 100)) 6 +
      (rising (-f.devClusterHoldingPct) (-(5 / 100)) (-(2 / 100)) 4 +
        rising (-f.top5BuyerVolumeShare) (-(70 / 100)) (-(35 / 100)) 4))

def executionPoints : ℚ :=
  rising (-context.roundTripLossPct) (-(8 / 100)) (-(3 / 100)) 8 +
    (rising (-max context.buyPriceImpactPct context.sellPriceImpactPct) (-(35 / 1000))
      (-(1 / 100)) 6 + context.sellRouteReliability * 6)

def liquidityPoints : ℚ :=
  let f := context.features
  rising f.quoteLiquidityUsd 40000 100000 5 + (rising f.quoteLiquidityChange30s (-3 / 100) 0 6 +
    rising (-f.marketCapToQuoteLiquidity) (-15) (-5) 4)

def pricePoints : ℚ := sumOf (priceParts context)

theorem organicParts_ok :
    ∃ parts, organicParts context = .ok parts ∧ sumOf parts = organicPoints context := by
  unfold organicParts
  dsimp only
  rw [linear_eq (by norm_num), linear_eq (by norm_num), linear_eq (by norm_num),
    linear_eq (by norm_num), inverse_eq (by norm_num)]
  exact ⟨_, rfl, by simp [sumOf, organicPoints]⟩

theorem distributionParts_ok :
    ∃ parts, distributionParts context = .ok parts ∧
      sumOf parts = distributionPoints context := by
  unfold distributionParts
  dsimp only
  rw [inverse_eq (by norm_num), inverse_eq (by norm_num), inverse_eq (by norm_num),
    inverse_eq (by norm_num)]
  exact ⟨_, rfl, by simp [sumOf, distributionPoints]⟩

theorem executionParts_ok :
    ∃ parts, executionParts context = .ok parts ∧ sumOf parts = executionPoints context := by
  unfold executionParts
  rw [inverse_eq (by norm_num), inverse_eq (by norm_num)]
  exact ⟨_, rfl, by simp [sumOf, executionPoints]⟩

theorem liquidityParts_ok :
    ∃ parts, liquidityParts context = .ok parts ∧ sumOf parts = liquidityPoints context := by
  unfold liquidityParts
  dsimp only
  rw [linear_eq (by norm_num), linear_eq (by norm_num), inverse_eq (by norm_num)]
  exact ⟨_, rfl, by simp [sumOf, liquidityPoints]⟩

theorem organicPoints_bounds : 0 ≤ organicPoints context ∧ organicPoints context ≤ 25 := by
  constructor
  · unfold organicPoints
    exact add_nonneg rising_nonneg (add_nonneg rising_nonneg (add_nonneg rising_nonneg
      (add_nonneg rising_nonneg rising_nonneg)))
  · calc organicPoints context ≤ 8 + (6 + (4 + (4 + 3))) := by
          dsimp only [organicPoints]
          gcongr <;> exact rising_le (by norm_num)
      _ = 25 := by norm_num

theorem distributionPoints_bounds :
    0 ≤ distributionPoints context ∧ distributionPoints context ≤ 20 := by
  constructor
  · unfold distributionPoints
    exact add_nonneg rising_nonneg (add_nonneg rising_nonneg
      (add_nonneg rising_nonneg rising_nonneg))
  · calc distributionPoints context ≤ 6 + (6 + (4 + 4)) := by
          dsimp only [distributionPoints]
          gcongr <;> exact rising_le (by norm_num)
      _ = 20 := by norm_num

theorem executionPoints_bounds : 0 ≤ executionPoints context ∧ executionPoints context ≤ 20 := by
  have hreliability := context.reliability_nonneg
  have hreliability_le := context.reliability_le
  constructor
  · unfold executionPoints
    exact add_nonneg rising_nonneg (add_nonneg rising_nonneg (by positivity))
  · calc executionPoints context ≤ 8 + (6 + 1 * 6) := by
          unfold executionPoints
          gcongr <;> exact rising_le (by norm_num)
      _ = 20 := by norm_num

theorem liquidityPoints_bounds : 0 ≤ liquidityPoints context ∧ liquidityPoints context ≤ 15 := by
  constructor
  · unfold liquidityPoints
    exact add_nonneg rising_nonneg (add_nonneg rising_nonneg rising_nonneg)
  · calc liquidityPoints context ≤ 5 + (6 + 4) := by
          dsimp only [liquidityPoints]
          gcongr <;> exact rising_le (by norm_num)
      _ = 15 := by norm_num

theorem pricePoints_bounds : 0 ≤ pricePoints context ∧ pricePoints context ≤ 10 := by
  unfold pricePoints sumOf priceParts
  simp only [List.map_cons, List.map_nil, List.sum_cons, List.sum_nil]
  split_ifs <;> norm_num

/-- The points of all categories. -/
def points : ℚ :=
  organicPoints context + distributionPoints context + executionPoints context +
    liquidityPoints context + developerScore context.developerHistory + pricePoints context

theorem points_bounds : 0 ≤ points context ∧ points context ≤ 100 := by
  obtain ⟨organicLow, organicHigh⟩ := organicPoints_bounds context
  obtain ⟨distributionLow, distributionHigh⟩ := distributionPoints_bounds context
  obtain ⟨executionLow, executionHigh⟩ := executionPoints_bounds context
  obtain ⟨liquidityLow, liquidityHigh⟩ := liquidityPoints_bounds context
  obtain ⟨developerLow, developerHigh⟩ := developerScore_bounds context.developerHistory
  obtain ⟨priceLow, priceHigh⟩ := pricePoints_bounds context
  unfold points
  constructor <;> linarith

/-- The breakdown of the points. -/
def pointsBreakdown (explanations : List (String × Parts)) : ScoreBreakdown where
  totalScore := toCents (points context)
  organicScore := toCents (organicPoints context)
  distributionScore := toCents (distributionPoints context)
  executionScore := toCents (executionPoints context)
  liquidityScore := toCents (liquidityPoints context)
  developerScore := toCents (developerScore context.developerHistory)
  priceStructureScore := toCents (pricePoints context)
  explanations := explanations

theorem pointsBreakdown_valid (explanations : List (String × Parts)) :
    (pointsBreakdown context explanations).Valid where
  total := toCents_bounds 100 (by norm_num) (points_bounds context)
  organic := toCents_bounds 25 (by norm_num) (organicPoints_bounds context)
  distribution := toCents_bounds 20 (by norm_num) (distributionPoints_bounds context)
  execution := toCents_bounds 20 (by norm_num) (executionPoints_bounds context)
  liquidity := toCents_bounds 15 (by norm_num) (liquidityPoints_bounds context)
  developer := toCents_bounds 10 (by norm_num) (developerScore_bounds context.developerHistory)
  priceStructure := toCents_bounds 10 (by norm_num) (pricePoints_bounds context)

/-- A score is the rounded sum of the points, and passes its field checks. -/
theorem score_ok :
    ∃ breakdown, score context = .ok breakdown ∧ breakdown.Valid ∧
      breakdown.totalScore = toCents (points context) := by
  obtain ⟨organicTerms, horganic, horganicSum⟩ := organicParts_ok context
  obtain ⟨distributionTerms, hdistribution, hdistributionSum⟩ := distributionParts_ok context
  obtain ⟨executionTerms, hexecution, hexecutionSum⟩ := executionParts_ok context
  obtain ⟨liquidityTerms, hliquidity, hliquiditySum⟩ := liquidityParts_ok context
  have hdeveloperSum : sumOf (developerParts context) =
      developerScore context.developerHistory := by
    simp [sumOf, developerParts]
  have hpriceSum : sumOf (priceParts context) = pricePoints context := rfl
  have borganic := organicPoints_bounds context
  have bdistribution := distributionPoints_bounds context
  have bexecution := executionPoints_bounds context
  have bliquidity := liquidityPoints_bounds context
  have bdeveloper := developerScore_bounds context.developerHistory
  have bprice := pricePoints_bounds context
  unfold score
  rw [horganic, hdistribution, hexecution, hliquidity]
  dsimp only [bind, Except.bind]
  rw [sumCap_eq (horganicSum.trans_le borganic.2), horganicSum,
    sumCap_eq (hdistributionSum.trans_le bdistribution.2), hdistributionSum,
    sumCap_eq (hexecutionSum.trans_le bexecution.2), hexecutionSum,
    sumCap_eq (hliquiditySum.trans_le bliquidity.2), hliquiditySum,
    sumCap_eq (hdeveloperSum.trans_le bdeveloper.2), hdeveloperSum,
    sumCap_eq (hpriceSum.trans_le bprice.2), hpriceSum]
  exact ⟨_, if_pos (pointsBreakdown_valid context _), pointsBreakdown_valid context _, rfl⟩

end Points

/-! ## Better contexts -/

/-- What a context keeps against a better one. -/
structure ScoreContext.Worse (context other : ScoreContext) : Prop where
  uniqueBuyers : context.features.uniqueBuyers60s ≤ other.features.uniqueBuyers60s
  acceleration : context.features.buyerAcceleration ≤ other.features.buyerAcceleration
  buyerRatio : context.features.uniqueBuyerRatio ≤ other.features.uniqueBuyerRatio
  volumeRatio : context.features.buySellVolumeRatio ≤ other.features.buySellVolumeRatio
  liquidity : context.features.quoteLiquidityUsd ≤ other.features.quoteLiquidityUsd
  liquidityChange :
    context.features.quoteLiquidityChange30s ≤ other.features.quoteLiquidityChange30s
  transactions : other.features.transactionsPerTrader ≤ context.features.transactionsPerTrader
  holders : other.features.top10HoldersPct ≤ context.features.top10HoldersPct
  relatedCluster :
    other.features.largestRelatedClusterPct ≤ context.features.largestRelatedClusterPct
  devCluster : other.features.devClusterHoldingPct ≤ context.features.devClusterHoldingPct
  topBuyers : other.features.top5BuyerVolumeShare ≤ context.features.top5BuyerVolumeShare
  marketCap :
    other.features.marketCapToQuoteLiquidity ≤ context.features.marketCapToQuoteLiquidity
  loss : other.roundTripLossPct ≤ context.roundTripLossPct
  buyImpact : other.buyPriceImpactPct ≤ context.buyPriceImpactPct
  sellImpact : other.sellPriceImpactPct ≤ context.sellPriceImpactPct
  history : context.developerHistory.Worse other.developerHistory
  drawdown : context.features.drawdownFromLocalHigh = other.features.drawdownFromLocalHigh
  growth : context.features.returnSincePoolCreation = other.features.returnSincePoolCreation
  reclaimed : context.vwapReclaimed = other.vwapReclaimed
  reliability : context.sellRouteReliability = other.sellRouteReliability

namespace ScoreContext.Worse

variable {context other : ScoreContext} (h : context.Worse other)

include h

theorem organicPoints_le : organicPoints context ≤ organicPoints other := by
  have hbuyers : (context.features.uniqueBuyers60s : ℚ) ≤ other.features.uniqueBuyers60s :=
    Nat.cast_le.mpr h.uniqueBuyers
  exact add_le_add (rising_mono (by norm_num) (by norm_num) hbuyers)
    (add_le_add (rising_mono (by norm_num) (by norm_num) h.acceleration)
      (add_le_add (rising_mono (by norm_num) (by norm_num) h.buyerRatio)
        (add_le_add (rising_mono (by norm_num) (by norm_num) h.volumeRatio)
          (rising_mono (by norm_num) (by norm_num) (neg_le_neg h.transactions)))))

theorem distributionPoints_le : distributionPoints context ≤ distributionPoints other :=
  add_le_add (rising_mono (by norm_num) (by norm_num) (neg_le_neg h.holders))
    (add_le_add (rising_mono (by norm_num) (by norm_num) (neg_le_neg h.relatedCluster))
      (add_le_add (rising_mono (by norm_num) (by norm_num) (neg_le_neg h.devCluster))
        (rising_mono (by norm_num) (by norm_num) (neg_le_neg h.topBuyers))))

theorem executionPoints_le : executionPoints context ≤ executionPoints other := by
  have himpact := neg_le_neg (max_le_max h.buyImpact h.sellImpact)
  unfold executionPoints
  rw [h.reliability]
  exact add_le_add (rising_mono (by norm_num) (by norm_num) (neg_le_neg h.loss))
    (add_le_add (rising_mono (by norm_num) (by norm_num) himpact) le_rfl)

theorem liquidityPoints_le : liquidityPoints context ≤ liquidityPoints other :=
  add_le_add (rising_mono (by norm_num) (by norm_num) h.liquidity)
    (add_le_add (rising_mono (by norm_num) (by norm_num) h.liquidityChange)
      (rising_mono (by norm_num) (by norm_num) (neg_le_neg h.marketCap)))

theorem pricePoints_eq : pricePoints context = pricePoints other := by
  unfold pricePoints priceParts
  dsimp only
  rw [h.drawdown, h.growth, h.reclaimed]

theorem points_le : points context ≤ points other := by
  unfold points
  rw [h.pricePoints_eq]
  have horganic := h.organicPoints_le
  have hdistribution := h.distributionPoints_le
  have hexecution := h.executionPoints_le
  have hliquidity := h.liquidityPoints_le
  have hdeveloper := h.history.score_le
  linarith

end ScoreContext.Worse

/-- Scoring never fails its checks, and a better context has no smaller total. -/
theorem score_bounded_and_monotone :
    (∀ context, ∃ breakdown, score context = .ok breakdown ∧ breakdown.Valid) ∧
    ∀ context other low high, context.Worse other → score context = .ok low →
      score other = .ok high → low.totalScore ≤ high.totalScore := by
  constructor
  · intro context
    obtain ⟨breakdown, hok, hvalid, -⟩ := score_ok context
    exact ⟨breakdown, hok, hvalid⟩
  · intro context other low high h hlow hhigh
    obtain ⟨first, hfirst, -, htotal⟩ := score_ok context
    obtain ⟨second, hsecond, -, htotal'⟩ := score_ok other
    obtain rfl : first = low := Except.ok.inj (hfirst.symm.trans hlow)
    obtain rfl : second = high := Except.ok.inj (hsecond.symm.trans hhigh)
    rw [htotal, htotal']
    exact toCents_mono h.points_le

/-- A pool without observations, a sell route that always answered. -/
def sampleContext (loss : ℚ) (hloss : 0 ≤ loss) : ScoreContext where
  features := ({} : EventTimeFeatureEngine).snapshot "P" 0
  roundTripLossPct := loss
  buyPriceImpactPct := 1 / 100
  sellPriceImpactPct := 2 / 100
  sellRouteReliability := 1
  developerHistory := { known := true, tokensCreated7d := 12, successfulTokens := 2 }
  loss_nonneg := hloss
  buyImpact_nonneg := by norm_num
  sellImpact_nonneg := by norm_num
  reliability_nonneg := by norm_num
  reliability_le := by norm_num

/-- A round trip that loses less. -/
theorem score_sample :
    ∃ low high, score (sampleContext (6 / 100) (by norm_num)) = .ok low ∧
      score (sampleContext (4 / 100) (by norm_num)) = .ok high ∧
      low.totalScore ≤ high.totalScore := by
  obtain ⟨low, hlow, -⟩ := score_bounded_and_monotone.1 (sampleContext (6 / 100) (by norm_num))
  obtain ⟨high, hhigh, -⟩ := score_bounded_and_monotone.1 (sampleContext (4 / 100) (by norm_num))
  refine ⟨low, high, hlow, hhigh, score_bounded_and_monotone.2 _ _ low high ?_ hlow hhigh⟩
  constructor
  case loss => norm_num [sampleContext]
  case history => exact ⟨rfl, le_rfl, le_rfl, le_rfl, le_rfl⟩
  all_goals rfl

end SniperBot.Features
