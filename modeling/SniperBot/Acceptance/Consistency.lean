import SniperBot.Acceptance.Statistics

/-!
# The consistency checks of a statistical report

`verify_acceptance_evidence` (`acceptance.py`) computes the numbers of a report again: the total
of the receipts, the economic cost, the net PnL from the gross profit and the gross loss, the
expectancy, the profit factor, the size of the cohort, and every criterion.

The net PnL of a report is one sum over all trades. The verifier subtracts two other sums. Each
addition rounds, and a report of `evaluate_statistical_stage` passes exactly when the errors of
both ways are the same (`RoundingsCancel`), apart from a period of no day without any cost
(`verifyReport_iff`).
-/

namespace SniperBot.Acceptance

open Basis

/-! ## The checks -/

def ProfitFactor.same : ProfitFactor → ProfitFactor → Bool
  | .infinite, .infinite => true
  | .finite a, .finite b => a.value = b.value
  | _, _ => false

/-- The profit factor of a gross profit and a gross loss. -/
def expectedProfitFactor (profit loss : Decimal) : ProfitFactor :=
  if loss.value = 0 ∧ 0 < profit.value then .infinite
  else .finite (if loss.value = 0 then zero else divided profit loss)

/-- The checks on one criterion. -/
def verifyCriterion (criteria : List CriterionResult) (details : List (String × Actual × String))
    (name : String) (expectedPass : Bool) : Except Failure Unit := do
  let criterion ← (criteria.find? (·.name = name)).elim (.error .keyError) .ok
  let (actual, expected) ← (Dict.find details name).elim (.error .keyError) .ok
  require (criterion.passed = expectedPass) ("statistical criterion is inconsistent: " ++ name)
  require (criterion.actual = actual ∧ criterion.expected = expected)
    ("statistical criterion display values are inconsistent: " ++ name)

/-- The checks of `verify_acceptance_evidence` on the numbers of a report. -/
def verifyReport (env : Environment) (report : StatisticalReport)
    (protocol : StatisticalProtocol) : Except Failure Unit := do
  let m := report.metrics
  let total ← (receiptTotal report.operationalCosts).elim (.error .invalidOperation) .ok
  require (total.value = m.recordedOperationalCostUsd.value)
    "operational-cost receipt total does not match statistical metrics"
  let frozenCostFloor := plannedOperationalCost env protocol
  require (m.operationalCostsReconciled = decide (total.value ≥ frozenCostFloor.value))
    "operational-cost reconciliation does not match the frozen cost floor"
  let expectedEconomicCost := larger frozenCostFloor total
  require (m.oosOperationalCostUsd.value = expectedEconomicCost.value)
    "reported OOS operational cost does not match the frozen protocol"
  let expectedNetPnl := minus m.oosGrossProfitAfterAllCostsUsd m.oosGrossLossAfterAllCostsUsd
  require (m.oosNetPnlAfterAllCostsUsd.value = expectedNetPnl.value)
    "OOS net PnL does not equal gross profit minus gross loss"
  let expectedExpectancy :=
    if m.oosTradeCount = 0 then zero else divided expectedNetPnl (Decimal.ofInt m.oosTradeCount)
  require (m.oosExpectancyAfterAllCostsUsd.value = expectedExpectancy.value)
    "OOS expectancy does not equal net PnL per trade"
  let factor ← profitFactorValue m.oosProfitFactor
  require (factor.same (expectedProfitFactor m.oosGrossProfitAfterAllCostsUsd
    m.oosGrossLossAfterAllCostsUsd))
    "OOS profit factor is inconsistent with gross profit and loss"
  require (m.closedTradeCount = m.inSampleTradeCount + m.oosTradeCount)
    "closed trade count does not equal the IS and OOS cohort counts"
  let passMap ← statisticalPassMap m protocol
  let details := criterionDetails m protocol
  require (criteriaComplete report.criteria) "statistical criteria are missing or duplicated"
  passMap.forM fun (name, expectedPass) => verifyCriterion report.criteria details name expectedPass

/-! ## Criteria -/

section Criteria

variable {α β : Type} {m : StatisticalMetrics} {protocol : StatisticalProtocol}
  {passMap : List (String × Bool)} {criteria : List CriterionResult}

@[simp] theorem require_eq_ok {condition : Bool} {message : String} :
    require condition message = .ok () ↔ condition = true := by
  rw [require]
  cases condition <;> simp

theorem bind_eq_ok_iff {x : Except Failure α} {f : α → Except Failure β} {b : β} :
    (x >>= f) = .ok b ↔ ∃ a, x = .ok a ∧ f a = .ok b := by
  refine ⟨exists_of_bind_eq_ok, ?_⟩
  rintro ⟨a, rfl, h⟩
  exact h

theorem bind_require_iff {condition : Bool} {message : String} {x : Except Failure α} {a : α} :
    (require condition message >>= fun _ => x) = .ok a ↔ condition = true ∧ x = .ok a := by
  rw [bind_eq_ok_iff]
  constructor
  · rintro ⟨_, hcondition, h⟩
    exact ⟨require_eq_ok.mp hcondition, h⟩
  · rintro ⟨hcondition, h⟩
    exact ⟨(), require_eq_ok.mpr hcondition, h⟩

theorem forM_eq_ok {items : List α} {f : α → Except Failure Unit}
    (h : ∀ item ∈ items, f item = .ok ()) : items.forM f = .ok () := by
  induction items with
  | nil => rfl
  | cons item items ih =>
      have hitems := ih fun other hother => h other (List.mem_cons_of_mem _ hother)
      change (f item >>= fun _ => items.forM f) = .ok ()
      rw [h item List.mem_cons_self]
      exact hitems

/-- The names of the criteria are those of the pass map, and of the displayed values. -/
theorem passMap_names (h : statisticalPassMap m protocol = .ok passMap) :
    passMap.map Prod.fst = requiredStatisticalCriteria := by
  obtain ⟨factor, -, hpass⟩ := exists_of_bind_eq_ok h
  cases hpass
  rfl

theorem required_nodup : requiredStatisticalCriteria.Nodup := by decide +kernel

/-- The results of an evaluation come from its pass map and its displayed values. -/
theorem mem_of_mapM_eq_ok {items : List α} {f : α → Except Failure β} {results : List β}
    (h : items.mapM f = .ok results) : (∀ item ∈ items, ∃ result ∈ results, f item = .ok result) ∧
      ∀ result ∈ results, ∃ item ∈ items, f item = .ok result := by
  induction items generalizing results with
  | nil =>
      cases h
      simp
  | cons item items ih =>
      rw [List.mapM_cons] at h
      obtain ⟨result, hitem, hbind⟩ := exists_of_bind_eq_ok h
      obtain ⟨rest, hrest, hresults⟩ := exists_of_bind_eq_ok hbind
      cases hresults
      obtain ⟨hforward, hbackward⟩ := ih hrest
      refine ⟨fun other hother => ?_, fun other hother => ?_⟩
      · rcases List.mem_cons.mp hother with rfl | hother
        · exact ⟨result, List.mem_cons_self, hitem⟩
        · obtain ⟨found, hfound, hf⟩ := hforward other hother
          exact ⟨found, List.mem_cons_of_mem _ hfound, hf⟩
      · rcases List.mem_cons.mp hother with rfl | hother
        · exact ⟨item, List.mem_cons_self, hitem⟩
        · obtain ⟨found, hfound, hf⟩ := hbackward other hother
          exact ⟨found, List.mem_cons_of_mem _ hfound, hf⟩

theorem criterionResult_eq_ok {details : List (String × Actual × String)} {name : String}
    {result : CriterionResult} (h : criterionResult passMap details name = .ok result) :
    result.name = name ∧ Dict.find passMap name = some result.passed ∧
      Dict.find details name = some (result.actual, result.expected) := by
  rw [criterionResult] at h
  split at h
  · next hpass hdetails =>
    cases h
    exact ⟨rfl, hpass, hdetails⟩
  · cases h

/-- Every criterion of an evaluation passes the checks on it. -/
theorem verifyCriterion_eq_ok (hpass : statisticalPassMap m protocol = .ok passMap)
    (hcriteria : (sortedBy id requiredStatisticalCriteria).mapM
      (criterionResult passMap (criterionDetails m protocol)) = .ok criteria)
    {name : String} {passed : Bool} (hmem : (name, passed) ∈ passMap) :
    verifyCriterion criteria (criterionDetails m protocol) name passed = .ok () := by
  have hnames := passMap_names hpass
  have hnodup : (passMap.map Prod.fst).Nodup := hnames ▸ required_nodup
  have hname : name ∈ sortedBy id requiredStatisticalCriteria :=
    mem_sortedBy.mpr (hnames ▸ List.mem_map_of_mem hmem)
  obtain ⟨hforward, hbackward⟩ := mem_of_mapM_eq_ok hcriteria
  obtain ⟨result, hresult, hmade⟩ := hforward name hname
  cases hfind : criteria.find? (·.name = name) with
  | none =>
      have hnone := List.find?_eq_none.mp hfind result hresult
      exact absurd (decide_eq_true (criterionResult_eq_ok hmade).1) hnone
  | some found =>
      obtain ⟨other, -, hother⟩ := hbackward found (List.mem_of_find?_eq_some hfind)
      have hsame : other = name := by
        have hfound := List.find?_some hfind
        rw [← (criterionResult_eq_ok hother).1]
        exact of_decide_eq_true hfound
      rw [hsame] at hother
      obtain ⟨-, hpassed, hdisplayed⟩ := criterionResult_eq_ok hother
      rw [Dict.find_of_mem hnodup hmem] at hpassed
      rw [verifyCriterion, hfind, hdisplayed]
      simp only [Option.elim_some, Option.some.inj hpassed]
      simp [bind, Except.bind, require]

end Criteria

/-! ## Sums and their errors -/

section Sums

variable {cost : Decimal}

theorem precision_pos : 0 < precision := by decide

/-- The errors of adding the profits, of adding the losses and of the difference cancel those of
adding everything. -/
def RoundingsCancel (pnls : List Decimal) : Prop :=
  let profits := pnls.filter fun pnl => 0 < pnl.value
  let losses := pnls.filter fun pnl => pnl.value < 0
  let loss := Decimal.neg precision (Decimal.sum precision zero losses)
  Decimal.sumError precision zero pnls =
    Decimal.sumError precision zero profits + Decimal.sumError precision zero losses +
      Decimal.roundingError precision
        (Decimal.exactSum (Decimal.sum precision zero profits) loss.negated)

instance (pnls : List Decimal) : Decidable (RoundingsCancel pnls) :=
  inferInstanceAs (Decidable (_ = _))

@[simp] theorem value_zero : zero.value = 0 := by
  rw [zero, Decimal.value_ofNat, Nat.cast_zero]

theorem sum_filter_value (pnls : List Decimal) : (pnls.map Decimal.value).sum =
    ((pnls.filter fun pnl => 0 < pnl.value).map Decimal.value).sum +
      ((pnls.filter fun pnl => pnl.value < 0).map Decimal.value).sum := by
  induction pnls with
  | nil => simp
  | cons pnl pnls ih =>
      rw [List.map_cons, List.sum_cons, ih]
      rcases lt_trichotomy pnl.value 0 with hneg | hzero | hpos
      · rw [List.filter_cons_of_neg (by simpa using hneg.le),
          List.filter_cons_of_pos (by simpa using hneg), List.map_cons, List.sum_cons]
        ring
      · rw [List.filter_cons_of_neg (by simp [hzero]), List.filter_cons_of_neg (by simp [hzero]),
          hzero, zero_add]
      · rw [List.filter_cons_of_pos (by simpa using hpos),
          List.filter_cons_of_neg (by simpa using hpos.le), List.map_cons, List.sum_cons]
        ring

/-- Errors that do not occur cancel. -/
theorem roundingsCancel_of_fits {pnls : List Decimal} (h : Decimal.SumFits precision zero pnls)
    (hprofits : Decimal.SumFits precision zero (pnls.filter fun pnl => 0 < pnl.value))
    (hlosses : Decimal.SumFits precision zero (pnls.filter fun pnl => pnl.value < 0))
    (hdifference : (Decimal.exactSum (grossProfit pnls) (Decimal.negated (Decimal.neg precision
      (Decimal.sum precision zero (pnls.filter fun pnl => pnl.value < 0))))).coefficient <
        10 ^ precision) : RoundingsCancel pnls := by
  have hzero := Decimal.roundingError_eq_zero precision_pos hdifference
  rw [grossProfit] at hzero
  simp only [RoundingsCancel, Decimal.sumError_eq_zero precision_pos h,
    Decimal.sumError_eq_zero precision_pos hprofits,
    Decimal.sumError_eq_zero precision_pos hlosses, hzero, add_zero]

/-- Without trades the net PnL and the difference are both the cost. -/
theorem netPnl_value_nil (hcost : 0 ≤ cost.value) :
    (netPnl [] cost []).value = (minus (grossProfit []) (grossLoss [] cost [])).value := by
  have hnet : netPnl [] cost [] = Decimal.neg precision cost := rfl
  have hprofit : grossProfit [] = zero := rfl
  rw [hnet, hprofit]
  rcases hcost.lt_or_eq with hpos | hzero
  · have hloss : grossLoss [] cost [] = cost := if_pos ⟨rfl, hpos⟩
    have hcoefficient : cost.coefficient ≠ 0 := (Decimal.value_pos_iff.mp hpos).2
    have hexact : cost.negated.value = (Decimal.exactSum zero cost.negated).value := by
      rw [Decimal.value_exactSum, value_zero, zero_add]
    rw [hloss, Decimal.neg, if_neg hcoefficient]
    exact Decimal.value_fix_congr precision_pos hexact
  · have hcoefficient : cost.coefficient = 0 := Decimal.value_eq_zero_iff.mp hzero.symm
    have hloss : grossLoss [] cost [] = Decimal.neg precision zero :=
      if_neg fun h => h.2.ne hzero
    have hdifference : (minus zero (Decimal.neg precision zero)).value = 0 := by decide +kernel
    rw [hloss, hdifference, Decimal.value_neg precision_pos (by rw [hcoefficient]; decide), ← hzero,
      neg_zero]

/-- The net PnL is the gross profit less the gross loss if the errors cancel. -/
theorem netPnl_value_iff (hcost : 0 ≤ cost.value) (oos : List DatedTrade) :
    (netPnl oos cost (economicPnls oos cost)).value =
        (minus (grossProfit (economicPnls oos cost))
          (grossLoss oos cost (economicPnls oos cost))).value ↔
      oos = [] ∨ RoundingsCancel (economicPnls oos cost) := by
  cases oos with
  | nil =>
      rw [eq_self_iff_true, true_or, iff_true]
      exact netPnl_value_nil hcost
  | cons trade oos =>
      have hne : (trade :: oos) ≠ [] := List.cons_ne_nil _ _
      have hempty : (trade :: oos).isEmpty = false := rfl
      rw [or_iff_right hne]
      generalize economicPnls (trade :: oos) cost = pnls
      have hlosses := Decimal.sum_lt precision_pos (show zero.coefficient < _ by decide)
        (pnls.filter fun pnl => pnl.value < 0)
      rw [netPnl, grossProfit, grossLoss, hempty, if_neg Bool.false_ne_true,
        if_neg (fun h => Bool.false_ne_true h.1), minus, Decimal.value_sub, Decimal.value_sum,
        Decimal.value_sum, Decimal.value_neg precision_pos hlosses, Decimal.value_sum,
        sum_filter_value, value_zero, RoundingsCancel]
      constructor
      · intro h
        linarith
      · intro h
        linarith

end Sums

/-! ## The other numbers -/

section Numbers

variable {env : Environment} {inputs : StatisticalInputs} {protocol : StatisticalProtocol}
  {costs : List OperationalCostEvidence} {a b total recorded : Decimal}

theorem value_larger (a b : Decimal) : (larger a b).value = max a.value b.value := by
  rw [larger]
  split
  · next h => exact (max_eq_right h.le).symm
  · next h => exact (max_eq_left (not_lt.mp h)).symm

/-- The planned cost is positive if the period has a day. -/
theorem planned_pos_iff (env : Environment) : 0 < (plannedOperationalCost env protocol).value ↔
    0 < oosDays env protocol := by
  obtain ⟨hnegative, hcoefficient⟩ := Decimal.value_pos_iff.mp protocol.positive
  rw [plannedOperationalCost, times, Decimal.mul, Decimal.value_fix_pos_iff precision_pos,
    Decimal.value_pos_iff, Decimal.ofInt, hnegative]
  simp only [Bool.false_xor, decide_eq_false_iff_not, ne_eq, mul_eq_zero, hcoefficient, false_or,
    Int.natAbs_eq_zero]
  omega

theorem receiptTotal_nil (h : receiptTotal [] = some total) : total.value = 0 := by
  have hzero : (receiptTotal []).all fun total => decide (total.value = 0) := by decide +kernel
  rw [h] at hzero
  exact of_decide_eq_true hzero

/-- The reconciliation flags agree unless a period without a day has no costs. -/
theorem reconciled_iff (env : Environment) (htotal : receiptTotal (sortedCosts costs) = some total)
    (hrecorded : total.value = recorded.value)
    (hnodup : ((sortedCosts costs).map (·.sourceReferenceSha256)).Nodup)
    (hperiod : (sortedCosts costs).all (inPeriod protocol) = true) :
    costsReconciled protocol (sortedCosts costs) total recorded
        (plannedOperationalCost env protocol) =
      decide (total.value ≥ (plannedOperationalCost env protocol).value) ↔
    costs ≠ [] ∨ 0 < oosDays env protocol := by
  rw [costsReconciled, decide_eq_true hnodup, hperiod, decide_eq_true hrecorded, Bool.and_true,
    Bool.and_true, Bool.and_true, hrecorded]
  cases costs with
  | nil =>
      have hzero := receiptTotal_nil htotal
      rw [← hrecorded, hzero, ← planned_pos_iff env]
      simp [sortedCosts, sortedBy]
  | cons cost costs =>
      have hempty : (sortedCosts (cost :: costs)).isEmpty = false := by
        rw [List.isEmpty_eq_false_iff]
        exact List.ne_nil_of_mem (mem_sortedBy.mpr List.mem_cons_self)
      rw [hempty]
      simp

theorem profitFactorValue_text (profit loss : Decimal) : ∃ factor,
    profitFactorValue (profitFactorText profit loss) = .ok factor ∧
      factor.same (expectedProfitFactor profit loss) = true := by
  have htext (d : Decimal) : profitFactorValue d.text = .ok (.finite d) := by
    have hread := Decimal.read_text d
    have hne : d.text ≠ "Infinity" := by
      intro h
      rw [h] at hread
      exact absurd hread (by rw [show Decimal.read "Infinity" = none by decide +kernel]; nofun)
    rw [profitFactorValue, if_neg hne, hread]
  rw [profitFactorText, expectedProfitFactor]
  split
  · exact ⟨.infinite, rfl, rfl⟩
  · exact ⟨_, htext _, decide_eq_true rfl⟩

theorem length_filter_entry (trades : List DatedTrade) (start : Time) : trades.length =
    (trades.filter fun trade => trade.entryTime < start).length +
      (trades.filter fun trade => trade.entryTime ≥ start).length := by
  have hnot : (fun trade : DatedTrade => decide (trade.entryTime ≥ start)) =
      fun trade => !decide (trade.entryTime < start) := by
    funext trade
    rw [← decide_not]
    exact decide_eq_decide.mpr not_lt.symm
  rw [hnot]
  exact List.length_eq_length_filter_add _

end Numbers

/-! ## Passing the checks -/

section Passing

variable {env : Environment} {inputs : StatisticalInputs} {protocol : StatisticalProtocol}
  {protocolSha256 : String} {generatedAt : Time} {report : StatisticalReport}

/-- The out-of-sample trades of the inputs. -/
def cohort (inputs : StatisticalInputs) (protocol : StatisticalProtocol) : List DatedTrade :=
  match checkedTrades inputs.closedTrades protocol with
  | .ok trades => trades.filter fun trade => trade.entryTime ≥ protocol.oosStartedAt
  | .error _ => []

/-- The larger of the planned and the recorded cost. -/
def economicCost (env : Environment) (inputs : StatisticalInputs)
    (protocol : StatisticalProtocol) : Decimal :=
  larger (plannedOperationalCost env protocol) inputs.recordedOperationalCostUsd

/-- The period has a day or a cost, and the errors of the sums cancel. -/
def Consistent (env : Environment) (inputs : StatisticalInputs)
    (protocol : StatisticalProtocol) : Prop :=
  (inputs.operationalCosts ≠ [] ∨ 0 < oosDays env protocol) ∧
    (cohort inputs protocol = [] ∨
      RoundingsCancel (economicPnls (cohort inputs protocol) (economicCost env inputs protocol)))

/-- The expectancy of equal net PnLs. -/
theorem expectancy_value {oos : List DatedTrade} {net expectedNet : Decimal}
    (h : net.value = expectedNet.value) : (expectancy oos net).value =
      (if (oos.length : Int) = 0 then zero
        else divided expectedNet (Decimal.ofInt oos.length)).value := by
  cases oos with
  | nil => rfl
  | cons trade oos =>
      have hlength : ((trade :: oos).length : Int) ≠ 0 := by
        rw [List.length_cons]
        omega
      have hcount : Decimal.ofInt (trade :: oos).length = Decimal.ofNat (trade :: oos).length := rfl
      rw [expectancy, if_neg (by nofun), if_neg hlength, hcount]
      exact Decimal.value_div_congr precision_pos h _

theorem StatisticalMetrics.cost_nonneg {m : StatisticalMetrics} (h : m.valid = true) :
    0 ≤ m.oosOperationalCostUsd.value := by
  rw [StatisticalMetrics.valid, Bool.and_eq_true, List.all_eq_true, List.all_eq_true] at h
  exact of_decide_eq_true (h.2 _ List.mem_cons_self)

/-- What the validators of a report say about its costs and criteria. -/
theorem StatisticalReport.valid_costs (h : report.valid = true)
    (hstarted : report.oosStartedAt = protocol.oosStartedAt)
    (hended : report.collectionEndedAt = protocol.collectionEndedAt) :
    criteriaComplete report.criteria = true ∧
      (report.operationalCosts.map (·.sourceReferenceSha256)).Nodup ∧
      report.operationalCosts.all (inPeriod protocol) = true := by
  rw [StatisticalReport.valid, Bool.and_eq_true, Bool.and_eq_true, Bool.and_eq_true,
    decide_eq_true_eq, decide_eq_true_eq, List.all_eq_true] at h
  obtain ⟨⟨⟨hcomplete, -⟩, hnodup⟩, hperiod⟩ := h
  refine ⟨hcomplete, hnodup, List.all_eq_true.mpr fun cost hcost => ?_⟩
  have hinside := of_decide_eq_true (hperiod cost hcost)
  rw [hstarted, hended] at hinside
  rw [inPeriod, Bool.and_eq_true, decide_eq_true_eq, decide_eq_true_eq]
  exact hinside

/-- A report passes the checks exactly if the inputs are consistent. -/
theorem verifyReport_iff
    (hreport : evaluateStatisticalStage env inputs protocol protocolSha256 generatedAt =
      .ok report)
    (hrecorded : ∀ total ∈ receiptTotal (sortedCosts inputs.operationalCosts),
      total.value = inputs.recordedOperationalCostUsd.value) :
    verifyReport env report protocol = .ok () ↔ Consistent env inputs protocol := by
  obtain ⟨trades, total, equity, passMap, criteria, htrades, htotal, -, hmetrics, hvalid, hpass,
    hcriteria, hcriteria', -, hcosts, hstarted, hended, hreportValid⟩ := evaluate_eq_ok hreport
  have hequal := hrecorded total htotal
  have hcohort : cohort inputs protocol =
      trades.filter fun trade => trade.entryTime ≥ protocol.oosStartedAt := by
    rw [cohort, htrades]
  obtain ⟨factor, hfactor, hsame⟩ := profitFactorValue_text
    report.metrics.oosGrossProfitAfterAllCostsUsd report.metrics.oosGrossLossAfterAllCostsUsd
  have hfactor' : profitFactorValue report.metrics.oosProfitFactor = .ok factor := by
    rw [← hfactor, hmetrics]
    rfl
  obtain ⟨hcomplete, hnodup, hperiod⟩ := StatisticalReport.valid_costs hreportValid hstarted hended
  rw [hcosts] at hnodup hperiod
  have hreconciled := reconciled_iff env htotal hequal hnodup hperiod
  have hcost := StatisticalMetrics.cost_nonneg hvalid
  have hok {α β : Type} (a : α) (f : α → Except Failure β) : (Except.ok a >>= f) = f a := rfl
  have hforM : (passMap.forM fun entry => verifyCriterion report.criteria
      (criterionDetails report.metrics protocol) entry.1 entry.2) = .ok () :=
    forM_eq_ok fun entry hentry => hcriteria' ▸ verifyCriterion_eq_ok hpass hcriteria hentry
  rw [verifyReport, hcosts, htotal]
  simp only [Option.elim_some, hok, bind_require_iff, hfactor', hpass, hcomplete, hsame]
  rw [hforM]
  simp only [decide_eq_true_eq, true_and, and_true]
  have hcost' : report.metrics.oosOperationalCostUsd = economicCost env inputs protocol := by
    rw [hmetrics]
    rfl
  have hnet : report.metrics.oosNetPnlAfterAllCostsUsd =
      netPnl (cohort inputs protocol) (economicCost env inputs protocol)
        (economicPnls (cohort inputs protocol) (economicCost env inputs protocol)) := by
    rw [hmetrics, hcohort]
    rfl
  have hprofit : report.metrics.oosGrossProfitAfterAllCostsUsd =
      grossProfit (economicPnls (cohort inputs protocol) (economicCost env inputs protocol)) := by
    rw [hmetrics, hcohort]
    rfl
  have hloss : report.metrics.oosGrossLossAfterAllCostsUsd =
      grossLoss (cohort inputs protocol) (economicCost env inputs protocol)
        (economicPnls (cohort inputs protocol) (economicCost env inputs protocol)) := by
    rw [hmetrics, hcohort]
    rfl
  have hcount : report.metrics.oosTradeCount = (cohort inputs protocol).length := by
    rw [hmetrics, hcohort]
    rfl
  have hexpectancy : report.metrics.oosExpectancyAfterAllCostsUsd =
      expectancy (cohort inputs protocol) report.metrics.oosNetPnlAfterAllCostsUsd := by
    rw [hmetrics, hcohort]
    rfl
  have hclosed : report.metrics.closedTradeCount =
      report.metrics.inSampleTradeCount + report.metrics.oosTradeCount := by
    have hlength := length_filter_entry trades protocol.oosStartedAt
    rw [hmetrics]
    exact (congrArg (Nat.cast : Nat → Int) hlength).trans (Nat.cast_add _ _)
  have hrecorded' : total.value = report.metrics.recordedOperationalCostUsd.value := by
    rw [hmetrics]
    exact hequal
  have hflag : report.metrics.operationalCostsReconciled =
      costsReconciled protocol (sortedCosts inputs.operationalCosts) total
        inputs.recordedOperationalCostUsd (plannedOperationalCost env protocol) := by
    rw [hmetrics]
    rfl
  have heconomic : report.metrics.oosOperationalCostUsd.value =
      (larger (plannedOperationalCost env protocol) total).value := by
    rw [hcost', economicCost, value_larger, value_larger, hequal]
  have hnetIff := netPnl_value_iff (hcost' ▸ hcost) (cohort inputs protocol)
  rw [← hnet, ← hprofit, ← hloss] at hnetIff
  rw [hflag, hreconciled, hnetIff, hexpectancy, hcount, Consistent]
  constructor
  · rintro ⟨-, hperiodDay, -, hcancel, -⟩
    exact ⟨hperiodDay, hcancel⟩
  · rintro ⟨hperiodDay, hcancel⟩
    exact ⟨hrecorded', hperiodDay, heconomic, hcancel, expectancy_value (hnetIff.mpr hcancel),
      hcount ▸ hclosed⟩

end Passing

/-! ## Three trades -/

instance (env : Environment) (inputs : StatisticalInputs) (protocol : StatisticalProtocol) :
    Decidable (Consistent env inputs protocol) :=
  inferInstanceAs (Decidable (_ ∧ _))

/-- Trades with these results and a cost of ten cents. -/
def withResults (pnls : List Int) : StatisticalInputs :=
  sampleInputs
    ((List.range pnls.length).zip pnls |>.map fun (i, pnl) =>
      sampleTrade (toString i) (172800 + 60 * i) (Decimal.ofInt pnl))
    [sampleCost ⟨false, 10, -2⟩ tenCents_pos] ⟨false, 10, -2⟩

def evaluateResults (pnls : List Int) : Except Failure StatisticalReport :=
  evaluateStatisticalStage sampleEnvironment (withResults pnls) sampleProtocol sampleSha256
    (seconds 259200)

theorem verifyReport_iff_two_wins : ∃ report, evaluateResults [2, -1, 2] = .ok report ∧
    Consistent sampleEnvironment (withResults [2, -1, 2]) sampleProtocol ∧
    (verifyReport sampleEnvironment report sampleProtocol = .ok () ↔
      Consistent sampleEnvironment (withResults [2, -1, 2]) sampleProtocol) := by
  have hok : (evaluateResults [2, -1, 2]).isOk = true := by decide +kernel
  cases hreport : evaluateResults [2, -1, 2] with
  | error e =>
      rw [hreport] at hok
      cases hok
  | ok report =>
      exact ⟨report, rfl, by decide +kernel, verifyReport_iff hreport (by decide +kernel)⟩

/-- The receipt covers the recorded cost, and the report of the code does not pass. -/
theorem one_loss_between_wins :
    (receiptTotal (sortedCosts (withResults [1, -1, 1]).operationalCosts)).all (fun total =>
      decide (total.value = (withResults [1, -1, 1]).recordedOperationalCostUsd.value)) = true ∧
    (evaluateResults [1, -1, 1]).toOption.map
        (fun report => verifyReport sampleEnvironment report sampleProtocol) =
      some (.error (.valueError "OOS net PnL does not equal gross profit minus gross loss")) := by
  decide +kernel

end SniperBot.Acceptance
