import SniperBot.Acceptance.Statistics
import SniperBot.Basis.Drawdowns
import SniperBot.Reports.Daily

/-!
# Three drawdown loops

The daily report, the all-time report and the acceptance stage each walk a path of equities with a
running peak. The first two give shares, the third one percent, and it takes the loss for complete
while its peak is not positive; in exact arithmetic they agree on every path that starts with a
positive equity (`drawdowns_agree`). A path without a mark after its first one is not walked at all
by the acceptance stage, which then reports a complete loss (`single_mark_not_walked`).
-/

namespace SniperBot.Reports

open Basis Paper Acceptance

/-- `_equity_path_drawdown_pct` -/
def equityPathDrawdownPct (equityPath : List ℚ) : ℚ :=
  (equityPath.foldl
    (fun (peak, maximum) equity =>
      let peak := max peak equity
      (peak, if peak > 0 then max maximum ((peak - equity) / peak) else maximum))
    (0, 0)).2

/-- The marks of the account by time and id. -/
def accountMarks (rows : List (String × MarkRow)) (accountId : String) : List MarkRow :=
  sortedBy markKey ((rows.filter (·.1 = accountId)).map (·.2))

/-- `load_all_time_max_drawdown_pct`; each row comes with its account. -/
def loadAllTimeMaxDrawdownPct (rows : List (String × MarkRow)) (accountId : String) : ℚ :=
  ((accountMarks rows accountId).foldl
    (fun (peak, maximum) mark =>
      let equity := mark.2.equity
      let peak := max peak equity
      (peak, if peak > 0 then max maximum ((peak - equity) / peak) else maximum))
    (0, 0)).2

/-- One mark in the loop of `_equity_drawdown`, in exact arithmetic. -/
def exactDrawdownStep (state : ℚ × ℚ) (point : Time × EquityPoint) : ℚ × ℚ :=
  let equity := point.2.equityUsd.value
  let peak := max state.1 equity
  let drawdown := if peak ≤ 0 then 100 else max 0 ((peak - equity) / peak * 100)
  (peak, max state.2 drawdown)

/-- `_equity_drawdown` in exact arithmetic. -/
def exactEquityDrawdown (points : List EquityPoint) (protocol : StatisticalProtocol) :
    Except Failure (Bool × ℚ × ℕ) := do
  let ordered ← sortedPoints points
  if ¬ (ordered.map pointKey).Nodup then return (false, 100, 0)
  let baseline := ordered.filter fun point => point.1 ≤ protocol.oosStartedAt
  let observed := ordered.filter fun point =>
    protocol.oosStartedAt < point.1 ∧ point.1 ≤ protocol.collectionEndedAt
  match baseline.getLast?, observed.getLast? with
  | some first, some last =>
      let maxGap := seconds protocol.maximumEquityMarkGapSeconds
      let coverage := decide (protocol.oosStartedAt - first.1 ≤ maxGap) &&
        decide (last.1 ≥ protocol.collectionEndedAt - maxGap) && noGap maxGap first.1 observed
      return (coverage, (observed.foldl exactDrawdownStep (first.2.equityUsd.value, 0)).2,
        observed.length)
  | _, _ => return (false, 100, observed.length)

/-- The path that the acceptance stage walks: the last mark before the out-of-sample period and the
marks of the period. -/
structure Walks (points : List EquityPoint) (protocol : StatisticalProtocol) (path : List ℚ) where
  ordered : List (Time × EquityPoint)
  sorted : sortedPoints points = .ok ordered
  distinct : (ordered.map pointKey).Nodup
  first : Time × EquityPoint
  baseline : (ordered.filter fun point => point.1 ≤ protocol.oosStartedAt).getLast? = some first
  observed : List (Time × EquityPoint)
  collected : (ordered.filter fun point =>
    protocol.oosStartedAt < point.1 ∧ point.1 ≤ protocol.collectionEndedAt) = observed
  nonempty : observed ≠ []
  equities : path = first.2.equityUsd.value :: observed.map (·.2.equityUsd.value)

/-! ## The loops -/

theorem equityPathDrawdownPct_eq (path : List ℚ) : equityPathDrawdownPct path = deepest path := rfl

theorem loadAllTimeMaxDrawdownPct_eq (rows : List (String × MarkRow)) (accountId : String) :
    loadAllTimeMaxDrawdownPct rows accountId =
      deepest ((accountMarks rows accountId).map (·.2.equity)) := by
  rw [deepest, List.foldl_map]
  rfl

/-- Once the peak is positive, the loop of the acceptance stage counts a hundred times as much. -/
theorem exactDrawdownStep_eq {peak : ℚ} (hpeak : 0 < peak) (maximum : ℚ)
    (point : Time × EquityPoint) :
    exactDrawdownStep (peak, 100 * maximum) point =
      ((peakStep (peak, maximum) point.2.equityUsd.value).1,
        100 * (peakStep (peak, maximum) point.2.equityUsd.value).2) := by
  have hpos : 0 < max peak point.2.equityUsd.value := hpeak.trans_le (le_max_left _ _)
  have hloss : 0 ≤ (max peak point.2.equityUsd.value - point.2.equityUsd.value) /
      max peak point.2.equityUsd.value * 100 :=
    mul_nonneg (div_nonneg (sub_nonneg.mpr (le_max_right _ _)) hpos.le) (by norm_num)
  unfold exactDrawdownStep peakStep
  dsimp only
  rw [if_neg hpos.not_ge, if_pos hpos, max_eq_right hloss, mul_max_of_nonneg _ _ (by norm_num),
    mul_comm (100 : ℚ) (_ / _)]

theorem foldl_exactDrawdownStep {peak : ℚ} (hpeak : 0 < peak) (maximum : ℚ)
    (observed : List (Time × EquityPoint)) :
    (observed.foldl exactDrawdownStep (peak, 100 * maximum)).2 =
      100 * ((observed.map (·.2.equityUsd.value)).foldl peakStep (peak, maximum)).2 := by
  induction observed generalizing peak maximum with
  | nil => rfl
  | cons point observed ih =>
      rw [List.foldl_cons, exactDrawdownStep_eq hpeak, List.map_cons, List.foldl_cons]
      exact ih (hpeak.trans_le (le_max_left _ _)) _

theorem Walks.exactEquityDrawdown {points : List EquityPoint} {protocol : StatisticalProtocol}
    {path : List ℚ} (h : Walks points protocol path) (hpos : ∀ first ∈ path.head?, 0 < first) :
    ∃ coverage count, exactEquityDrawdown points protocol =
      .ok (coverage, 100 * deepest path, count) := by
  have hfirst : 0 < h.first.2.equityUsd.value := hpos _ ((congrArg List.head? h.equities).trans rfl)
  obtain ⟨last, hlast⟩ := List.getLast?_isSome.mpr h.nonempty |> Option.isSome_iff_exists.mp
  have hstart : peakStep ((0, 0) : ℚ × ℚ) h.first.2.equityUsd.value =
      (h.first.2.equityUsd.value, 0) := by
    unfold peakStep
    dsimp only
    rw [max_eq_right hfirst.le, if_pos hfirst, sub_self, zero_div, max_self]
  have hdeepest : deepest path = ((h.observed.map (·.2.equityUsd.value)).foldl peakStep
      (h.first.2.equityUsd.value, 0)).2 := by
    refine (congrArg deepest h.equities).trans ?_
    rw [deepest, List.foldl_cons, hstart]
  have hloop : (h.observed.foldl exactDrawdownStep (h.first.2.equityUsd.value, 0)).2 =
      100 * deepest path := by
    have hfold := foldl_exactDrawdownStep hfirst 0 h.observed
    rw [mul_zero] at hfold
    rw [hfold, hdeepest]
  unfold Reports.exactEquityDrawdown
  rw [h.sorted]
  dsimp only [bind, Except.bind]
  rw [if_neg (not_not.mpr h.distinct), h.baseline, h.collected, hlast]
  exact ⟨_, _, congrArg (fun d => Except.ok (_, d, _)) hloop⟩

/-- The loops find the deepest drop of a path of equities, as a share or in percent. -/
theorem drawdowns_agree {path : List ℚ} (hne : path ≠ []) (hpath : ∀ equity ∈ path, 0 ≤ equity) :
    (IsGreatest (drops path) (equityPathDrawdownPct path) ∨
        drops path = ∅ ∧ equityPathDrawdownPct path = 0) ∧
      (∀ rows accountId, (accountMarks rows accountId).map (·.2.equity) = path →
        loadAllTimeMaxDrawdownPct rows accountId = equityPathDrawdownPct path) ∧
      0 ≤ equityPathDrawdownPct path ∧ equityPathDrawdownPct path ≤ 1 ∧
      (∀ rest, equityPathDrawdownPct path ≤ equityPathDrawdownPct (path ++ rest)) ∧
      (0 < path.head hne → ∀ points protocol, Walks points protocol path →
        ∃ coverage count drawdown,
          exactEquityDrawdown points protocol = .ok (coverage, drawdown, count) ∧
            equityPathDrawdownPct path = drawdown / 100) := by
  rw [equityPathDrawdownPct_eq]
  refine ⟨deepest_isGreatest hpath, ?_, deepest_nonneg hpath, deepest_le_one hpath,
    deepest_le_append path, ?_⟩
  · rintro rows accountId rfl
    exact loadAllTimeMaxDrawdownPct_eq rows accountId
  · intro hpos points protocol hwalks
    obtain ⟨coverage, count, h⟩ := hwalks.exactEquityDrawdown (by
      rw [List.head?_eq_some_head hne]
      simpa using hpos)
    exact ⟨coverage, count, _, h, (mul_div_cancel_left₀ _ (by norm_num)).symm⟩

/-- The marks of a loss of a fifth and a loss of a quarter. -/
def fallingPoints : List EquityPoint :=
  [⟨.aware (seconds 172800), Decimal.ofNat 500, "first"⟩,
    ⟨.aware (seconds 173000), Decimal.ofNat 400, "second"⟩,
    ⟨.aware (seconds 174000), Decimal.ofNat 600, "third"⟩,
    ⟨.aware (seconds 175000), Decimal.ofNat 450, "fourth"⟩]

def fallingOrdered : List (Time × EquityPoint) :=
  [seconds 172800, seconds 173000, seconds 174000, seconds 175000].zip fallingPoints

def walksFalling : Walks fallingPoints sampleProtocol [500, 400, 600, 450] where
  ordered := fallingOrdered
  sorted := by decide
  distinct := by decide
  first := (seconds 172800, ⟨.aware (seconds 172800), Decimal.ofNat 500, "first"⟩)
  baseline := by decide
  observed := fallingOrdered.tail
  collected := by decide
  nonempty := by decide
  equities := by decide +kernel

theorem drawdowns_agree_quarter :
    equityPathDrawdownPct [500, 400, 600, 450] = 1 / 4 ∧
      IsGreatest (drops [500, 400, 600, 450]) (1 / 4 : ℚ) ∧
      ∃ coverage count drawdown, exactEquityDrawdown fallingPoints sampleProtocol =
        .ok (coverage, drawdown, count) ∧ 1 / 4 = drawdown / 100 := by
  have hquarter : equityPathDrawdownPct [500, 400, 600, 450] = 1 / 4 := by decide +kernel
  have hne : [500, 400, 600, 450] ≠ ([] : List ℚ) := List.cons_ne_nil _ _
  obtain ⟨hdeepest, -, -, -, -, hacceptance⟩ := drawdowns_agree hne (by decide)
  rw [hquarter] at hdeepest hacceptance
  exact ⟨hquarter, hdeepest.resolve_right fun h => absurd h.2 (by norm_num),
    hacceptance (by norm_num) _ _ walksFalling⟩

/-- A path of one mark: the account at the start of the out-of-sample period. -/
def singlePoint : List EquityPoint :=
  [⟨.aware (seconds 172800), Decimal.ofNat 500, "first"⟩]

def singleRow : String × MarkRow :=
  ("account", "first", ⟨500, 0, 0, 0, seconds 172800⟩)

theorem single_mark_not_walked :
    (sortedPoints singlePoint).map (·.map (·.2.equityUsd.value)) = .ok [500] ∧
      equityPathDrawdownPct [500] = 0 ∧
      (accountMarks [singleRow] "account").map (·.2.equity) = [500] ∧
      loadAllTimeMaxDrawdownPct [singleRow] "account" = 0 ∧
      exactEquityDrawdown singlePoint sampleProtocol = .ok (false, 100, 0) ∧
      equityDrawdown singlePoint sampleProtocol = .ok (false, Decimal.ofNat 100, 0) ∧
      equityPathDrawdownPct [500] ≠ 100 / 100 := by
  refine ⟨?_, ?_, ?_, ?_, ?_, ?_, ?_⟩
  all_goals decide +kernel

end SniperBot.Reports
