import SniperBot.Acceptance.Statistics

/-!
# The order of the inputs of the statistical stage

The trades, the marks and the costs come from unordered queries. Each of the three is sorted by a
key before it is used, and the keys are different, so the whole evaluation is the same for every
order (`evaluate_permuted`). The digest is taken of the sorted lists; a text that has the same
digest has the same fields, and from these the collections are read back (`sameCollections`).
-/

namespace SniperBot.Acceptance

open Basis

/-- The items of the three collections can be told apart by their keys. -/
structure StatisticalInputs.Distinct (inputs : StatisticalInputs) : Prop where
  trades : (inputs.closedTrades.map (·.positionId)).Nodup
  points : (inputs.equityPoints.map fun point => (point.observedAt, point.sequenceId)).Nodup
  costs : (inputs.operationalCosts.map (·.sourceReferenceSha256)).Nodup

/-- The same inputs with the three collections in another order. -/
inductive StatisticalInputs.Permuted (inputs : StatisticalInputs) : StatisticalInputs → Prop
  | intro {trades : List ClosedTrade} {points : List EquityPoint}
      {costs : List OperationalCostEvidence} :
      inputs.closedTrades.Perm trades → inputs.equityPoints.Perm points →
      inputs.operationalCosts.Perm costs →
      Permuted inputs
        { inputs with
          closedTrades := trades
          equityPoints := points
          operationalCosts := costs }

/-- The collections are equal as sets. -/
structure SameCollections (inputs inputs' : StatisticalInputs) : Prop where
  trades : ∀ trade, trade ∈ inputs.closedTrades ↔ trade ∈ inputs'.closedTrades
  points : ∀ point, point ∈ inputs.equityPoints ↔ point ∈ inputs'.equityPoints
  costs : ∀ cost, cost ∈ inputs.operationalCosts ↔ cost ∈ inputs'.operationalCosts

/-! ## Times in UTC -/

/-- The instant of a time with a zone. -/
def Datetime.instant : Datetime → Time
  | .aware instant => instant
  | .naive clock => clock

def Datetime.isAware : Datetime → Bool
  | .aware _ => true
  | .naive _ => false

theorem asUtc_of_isAware {t : Datetime} (h : t.isAware = true) : asUtc t = .ok t.instant := by
  cases t with
  | aware instant => rfl
  | naive clock => cases h

/-- The failure at a time without a zone. -/
def naiveFailure : Failure := .valueError "database timestamp must be timezone-aware"

theorem asUtc_of_naive {t : Datetime} (h : ¬ t.isAware = true) : asUtc t = .error naiveFailure := by
  cases t with
  | aware instant => exact absurd rfl h
  | naive clock => rfl

theorem aware_injective {t t' : Datetime} (h : t.isAware = true) (h' : t'.isAware = true)
    (heq : t.instant = t'.instant) : t = t' := by
  cases t with
  | naive clock => cases h
  | aware instant =>
      cases t' with
      | naive clock => cases h'
      | aware instant' => rw [show instant = instant' from heq]

section Dated

variable {α : Type} {time : α → Datetime} {items items' : List α}

/-- The item with its instant. -/
def withInstant (time : α → Datetime) (item : α) : Time × α := ((time item).instant, item)

/-- If all times have a zone the items get their instants, otherwise one of them raises. -/
theorem dated_eq (items : List α) : dated time items =
    if ∀ item ∈ items, (time item).isAware = true then .ok (items.map (withInstant time))
    else .error naiveFailure := by
  induction items with
  | nil => rfl
  | cons item items ih =>
      have hcons : dated time (item :: items) =
          (asUtc (time item)).bind fun t => (dated time items).bind fun rest =>
            .ok ((t, item) :: rest) := by
        rw [dated, List.mapM_cons]
        cases asUtc (time item) <;> rfl
      rw [hcons, ih]
      by_cases hitem : (time item).isAware = true
      · by_cases hitems : ∀ item ∈ items, (time item).isAware = true
        · have hall : ∀ x ∈ item :: items, (time x).isAware = true :=
            List.forall_mem_cons.mpr ⟨hitem, hitems⟩
          rw [asUtc_of_isAware hitem, if_pos hitems, if_pos hall]
          rfl
        · have hall : ¬ ∀ x ∈ item :: items, (time x).isAware = true :=
            fun h => hitems (List.forall_mem_cons.mp h).2
          rw [asUtc_of_isAware hitem, if_neg hitems, if_neg hall]
          rfl
      · have hall : ¬ ∀ x ∈ item :: items, (time x).isAware = true :=
          fun h => hitem (h item List.mem_cons_self)
        rw [asUtc_of_naive hitem, if_neg hall]
        rfl

theorem dated_eq_ok {r : List (Time × α)} (h : dated time items = .ok r) :
    (∀ item ∈ items, (time item).isAware = true) ∧ r = items.map (withInstant time) := by
  rw [dated_eq] at h
  split at h
  · next hall => exact ⟨hall, (Except.ok.inj h).symm⟩
  · cases h

/-- Items with different keys are dated and sorted alike from every order. -/
theorem sorted_dated_eq_of_perm {κ : Type} [LinearOrder κ] {key : Time × α → κ}
    (h : items.Perm items')
    (hkeys : (∀ item ∈ items, (time item).isAware = true) →
      ((items.map (withInstant time)).map key).Nodup) :
    (sortedBy key <$> dated time items) = (sortedBy key <$> dated time items') := by
  rw [dated_eq, dated_eq]
  by_cases hall : ∀ item ∈ items, (time item).isAware = true
  · rw [if_pos hall, if_pos fun item hitem => hall item (h.mem_iff.mpr hitem)]
    exact congrArg Except.ok (sortedBy_eq_of_perm (h.map _) (hkeys hall))
  · rw [if_neg hall, if_neg fun hall' => hall fun item hitem => hall' item (h.mem_iff.mp hitem)]

end Dated

/-! ## Every order -/

section Permuted

variable {env : Environment} {inputs inputs' : StatisticalInputs} {protocol : StatisticalProtocol}
  {points points' : List EquityPoint} {trades trades' : List ClosedTrade}

theorem sortedCosts_eq {costs costs' : List OperationalCostEvidence} (h : costs.Perm costs')
    (hdistinct : (costs.map (·.sourceReferenceSha256)).Nodup) :
    sortedCosts costs = sortedCosts costs' :=
  sortedBy_eq_of_perm h hdistinct

theorem sortedTrades_eq (h : trades.Perm trades') (hdistinct : (trades.map (·.positionId)).Nodup) :
    sortedTrades trades = sortedTrades trades' := by
  refine sorted_dated_eq_of_perm h fun _ => ?_
  have hids : trades.map (·.positionId) =
      ((trades.map (withInstant (·.entryTime))).map tradeKey).map fun key => (ofLex key).2 := by
    rw [List.map_map, List.map_map]
    rfl
  rw [hids] at hdistinct
  exact hdistinct.of_map _

theorem sortedPoints_eq (h : points.Perm points')
    (hdistinct : (points.map fun point => (point.observedAt, point.sequenceId)).Nodup) :
    sortedPoints points = sortedPoints points' := by
  refine sorted_dated_eq_of_perm h fun haware => ?_
  rw [List.map_map]
  refine List.Nodup.map_on (fun a ha b hb hab => ?_) (hdistinct.of_map _)
  obtain ⟨htime, hsequence⟩ := Prod.mk.inj (toLex.injective hab)
  have hobserved := aware_injective (haware a ha) (haware b hb) htime
  exact List.inj_on_of_nodup_map hdistinct ha hb (Prod.ext hobserved hsequence)

/-- The evaluation is the same for every order of the three collections. -/
theorem evaluate_permuted (h : inputs.Permuted inputs') (hdistinct : inputs.Distinct)
    (protocolSha256 : String) (generatedAt : Time) :
    evaluateStatisticalStage env inputs protocol protocolSha256 generatedAt =
      evaluateStatisticalStage env inputs' protocol protocolSha256 generatedAt := by
  obtain ⟨htrades, hpoints, hcosts⟩ := h
  have htrades' := sortedTrades_eq htrades hdistinct.trades
  have hpoints' := sortedPoints_eq hpoints hdistinct.points
  have hcosts' := sortedCosts_eq hcosts hdistinct.costs
  have hpositions := sortedBy_eq_of_perm htrades hdistinct.trades
  simp only [evaluateStatisticalStage, checkedTrades, equityDrawdown, statisticalInputDigest,
    digestPayload, htrades', hpoints', hcosts', hpositions, metricsOf]

end Permuted

/-! ## Reading the collections back -/

section Digest

variable {env : Environment} {inputs inputs' : StatisticalInputs}

/-- A step that can be undone from its result can be undone on a whole list. -/
theorem mapM_injective {α β γ ε : Type} {f : α → Except ε β} {g : β → γ}
    (hf : ∀ a a' b b', f a = .ok b → f a' = .ok b' → g b = g b' → a = a')
    {items items' : List α} {results results' : List β} (h : items.mapM f = .ok results)
    (h' : items'.mapM f = .ok results') (heq : results.map g = results'.map g) :
    items = items' := by
  have hcons : ∀ {item items results}, (item :: items).mapM f = .ok results →
      ∃ result rest, f item = .ok result ∧ items.mapM f = .ok rest ∧
        results = result :: rest := by
    intro item items results h
    rw [List.mapM_cons] at h
    cases hitem : f item with
    | error e =>
        rw [hitem] at h
        cases h
    | ok result =>
        cases hrest : items.mapM f with
        | error e =>
            rw [hitem, hrest] at h
            cases h
        | ok rest =>
            rw [hitem, hrest] at h
            cases h
            exact ⟨result, rest, rfl, rfl, rfl⟩
  induction items generalizing items' results results' with
  | nil =>
      cases h
      cases items' with
      | nil => rfl
      | cons item' items' =>
          obtain ⟨result, rest, -, -, rfl⟩ := hcons h'
          cases heq
  | cons item items ih =>
      obtain ⟨result, rest, hitem, hrest, rfl⟩ := hcons h
      cases items' with
      | nil =>
          cases h'
          cases heq
      | cons item' items' =>
          obtain ⟨result', rest', hitem', hrest', rfl⟩ := hcons h'
          obtain ⟨hfirst, hothers⟩ := List.cons.inj heq
          rw [hf _ _ _ _ hitem hitem' hfirst, ih hrest hrest' hothers]

theorem costJson_injective (hmodel : Function.Injective env.modelDatetime) :
    Function.Injective fun cost => (costJson env cost).sortKeys := by
  intro cost cost' h
  have hkeys : ["account_id", "category", "amount_usd", "incurred_at",
      "source_reference_sha256"].Nodup := by decide
  apply OperationalCostEvidence.ext
  · exact Json.text.inj (Json.sortKeys_field_at h hkeys 0 rfl rfl)
  · exact Json.text.inj (Json.sortKeys_field_at h hkeys 1 rfl rfl)
  · exact Decimal.text_injective (Json.text.inj (Json.sortKeys_field_at h hkeys 2 rfl rfl))
  · exact hmodel (Json.text.inj (Json.sortKeys_field_at h hkeys 3 rfl rfl))
  · exact Json.text.inj (Json.sortKeys_field_at h hkeys 4 rfl rfl)

theorem tradeJson_eq_ok {trade : ClosedTrade} {json : Json} (h : tradeJson env trade = .ok json) :
    trade.entryTime.isAware = true ∧ trade.closedAt.isAware = true ∧
      json = tradeObject env trade.entryTime.instant trade.closedAt.instant trade := by
  rw [tradeJson] at h
  cases hentry : trade.entryTime with
  | naive clock =>
      rw [hentry] at h
      cases h
  | aware entryTime =>
      cases hclosed : trade.closedAt with
      | naive clock =>
          rw [hentry, hclosed] at h
          cases h
      | aware closedAt =>
          rw [hentry, hclosed] at h
          cases h
          exact ⟨rfl, rfl, rfl⟩

theorem tradeJson_injective (hiso : Function.Injective env.isoformat) {trade trade' : ClosedTrade}
    {json json' : Json} (hjson : tradeJson env trade = .ok json)
    (hjson' : tradeJson env trade' = .ok json') (h : json.sortKeys = json'.sortKeys) :
    trade = trade' := by
  obtain ⟨hentry, hclosed, rfl⟩ := tradeJson_eq_ok hjson
  obtain ⟨hentry', hclosed', rfl⟩ := tradeJson_eq_ok hjson'
  have hkeys : ["position_id", "entry_time", "closed_at", "pnl_usd", "developer_cluster",
      "cluster_evaluated"].Nodup := by decide
  have hcluster := Json.sortKeys_field_at h hkeys 4 rfl rfl
  apply ClosedTrade.ext
  · exact Json.text.inj (Json.sortKeys_field_at h hkeys 0 rfl rfl)
  · exact aware_injective hentry hentry'
      (hiso (Json.text.inj (Json.sortKeys_field_at h hkeys 1 rfl rfl)))
  · exact aware_injective hclosed hclosed'
      (hiso (Json.text.inj (Json.sortKeys_field_at h hkeys 2 rfl rfl)))
  · exact Decimal.text_injective (Json.text.inj (Json.sortKeys_field_at h hkeys 3 rfl rfl))
  · cases hname : trade.developerCluster <;> cases hname' : trade'.developerCluster <;>
      rw [hname, hname'] at hcluster
    · cases hcluster
    · cases hcluster
    · exact congrArg some (Json.text.inj hcluster)
  · exact Json.bool.inj (Json.sortKeys_field_at h hkeys 5 rfl rfl)

theorem pointJson_injective (hiso : Function.Injective env.isoformat) {point point' : EquityPoint}
    (haware : point.observedAt.isAware = true) (haware' : point'.observedAt.isAware = true)
    (h : (pointJson env (withInstant (·.observedAt) point)).sortKeys =
      (pointJson env (withInstant (·.observedAt) point')).sortKeys) : point = point' := by
  have hkeys : ["observed_at", "equity_usd", "sequence_id"].Nodup := by decide
  apply EquityPoint.ext
  · exact aware_injective haware haware'
      (hiso (Json.text.inj (Json.sortKeys_field_at h hkeys 0 rfl rfl)))
  · exact Decimal.text_injective (Json.text.inj (Json.sortKeys_field_at h hkeys 1 rfl rfl))
  · exact Json.text.inj (Json.sortKeys_field_at h hkeys 2 rfl rfl)

/-- The sorted points are the points with their instants. -/
theorem sortedPoints_eq_ok {points : List EquityPoint} {sorted : List (Time × EquityPoint)}
    (h : sortedPoints points = .ok sorted) :
    (∀ point ∈ points, point.observedAt.isAware = true) ∧
      sorted.Perm (points.map (withInstant (·.observedAt))) := by
  rw [sortedPoints] at h
  cases hdated : dated (·.observedAt) points with
  | error e =>
      rw [hdated] at h
      cases h
  | ok r =>
      obtain ⟨haware, rfl⟩ := dated_eq_ok hdated
      rw [hdated] at h
      cases h
      exact ⟨haware, sortedBy_perm _ _⟩

/-- Points that are written alike are the same. -/
theorem points_eq (hiso : Function.Injective env.isoformat) {points points' : List EquityPoint}
    {sorted sorted' : List (Time × EquityPoint)} (h : sortedPoints points = .ok sorted)
    (h' : sortedPoints points' = .ok sorted')
    (heq : (sorted.map (pointJson env)).map Json.sortKeys =
      (sorted'.map (pointJson env)).map Json.sortKeys) (point : EquityPoint)
    (hpoint : point ∈ points) : point ∈ points' := by
  obtain ⟨haware, hperm⟩ := sortedPoints_eq_ok h
  obtain ⟨haware', hperm'⟩ := sortedPoints_eq_ok h'
  rw [List.map_map, List.map_map] at heq
  have hsorted : withInstant (·.observedAt) point ∈ sorted :=
    hperm.mem_iff.mpr (List.mem_map_of_mem hpoint)
  have hwritten := List.mem_map_of_mem (f := Json.sortKeys ∘ pointJson env) hsorted
  rw [heq] at hwritten
  obtain ⟨other, hother, hsame⟩ := List.mem_map.mp hwritten
  obtain ⟨point', hpoint', rfl⟩ := List.mem_map.mp (hperm'.mem_iff.mp hother)
  rw [pointJson_injective hiso (haware point hpoint) (haware' point' hpoint') hsame.symm]
  exact hpoint'

/-- What the digest is taken of. -/
theorem digestPayload_eq_ok {payload : Json} (h : digestPayload env inputs = .ok payload) :
    ∃ trades points fields, payload = .object fields ∧
      (sortedBy (·.positionId) inputs.closedTrades).mapM (tradeJson env) = .ok trades ∧
      sortedPoints inputs.equityPoints = .ok points ∧
      fields.map Prod.fst = ["fixed_revision_strategy_cohort", "discovered_pool_count",
        "materialized_pool_count", "missing_materialized_pool_count",
        "missing_final_pool_outcome_count", "negative_launch_count", "censored_position_count",
        "recorded_operational_cost_usd", "operational_costs", "starting_equities",
        "closed_trades", "equity_points"] ∧
      fields[8]? = some ("operational_costs",
        .list ((sortedCosts inputs.operationalCosts).map (costJson env))) ∧
      fields[10]? = some ("closed_trades", .list trades) ∧
      fields[11]? = some ("equity_points", .list (points.map (pointJson env))) := by
  rw [digestPayload] at h
  cases htrades : (sortedBy (·.positionId) inputs.closedTrades).mapM (tradeJson env) with
  | error e =>
      rw [htrades] at h
      cases h
  | ok trades =>
      cases hpoints : sortedPoints inputs.equityPoints with
      | error e =>
          rw [htrades, hpoints] at h
          cases h
      | ok points =>
          rw [htrades, hpoints] at h
          cases h
          exact ⟨trades, points, _, rfl, rfl, rfl, rfl, rfl, rfl, rfl⟩

/-- Lists at the same place of two objects that are written alike are written alike. -/
theorem list_field_at {fields fields' : List (String × Json)}
    (h : (Json.object fields).sortKeys = (Json.object fields').sortKeys)
    (hkeys : (fields'.map Prod.fst).Nodup) (i : Nat) {key : String} {items items' : List Json}
    (hget : fields[i]? = some (key, .list items)) (hget' : fields'[i]? = some (key, .list items')) :
    items.map Json.sortKeys = items'.map Json.sortKeys := by
  have hlist := Json.sortKeys_field_at h hkeys i hget hget'
  rw [Json.sortKeys_list, Json.sortKeys_list] at hlist
  exact Json.list.inj hlist

/-- Inputs with the same digest have the same collections. -/
theorem sameCollections (hsha : Function.Injective env.sha256)
    (hiso : Function.Injective env.isoformat) (hmodel : Function.Injective env.modelDatetime)
    {digest : String} (h : statisticalInputDigest env inputs = .ok digest)
    (h' : statisticalInputDigest env inputs' = .ok digest) : SameCollections inputs inputs' := by
  have hpayload : ∀ {inputs}, statisticalInputDigest env inputs = .ok digest →
      ∃ payload, digestPayload env inputs = .ok payload ∧
        env.sha256 payload.sortKeys.dumps.toUTF8 = digest := by
    intro inputs h
    rw [statisticalInputDigest] at h
    cases hpayload : digestPayload env inputs with
    | error e =>
        rw [hpayload] at h
        cases h
    | ok payload =>
        rw [hpayload] at h
        exact ⟨payload, rfl, Except.ok.inj h⟩
  obtain ⟨_, hjson, hdigest⟩ := hpayload h
  obtain ⟨_, hjson', hdigest'⟩ := hpayload h'
  obtain ⟨trades, points, fields, rfl, htrades, hpoints, -, hcosts8, htrades10, hpoints11⟩ :=
    digestPayload_eq_ok hjson
  obtain ⟨trades', points', fields', rfl, htrades', hpoints', hnames', hcosts8', htrades10',
    hpoints11'⟩ := digestPayload_eq_ok hjson'
  have hwritten := Json.dumps_injective
    (String.toByteArray_inj.mp (hsha (hdigest.trans hdigest'.symm)))
  have hkeys : (fields'.map Prod.fst).Nodup := by
    rw [hnames']
    decide
  have hcosts := list_field_at hwritten hkeys 8 hcosts8 hcosts8'
  have hclosed := list_field_at hwritten hkeys 10 htrades10 htrades10'
  have hequity := list_field_at hwritten hkeys 11 hpoints11 hpoints11'
  rw [List.map_map, List.map_map] at hcosts
  have hsame := List.map_injective_iff.mpr (costJson_injective hmodel) hcosts
  have htrade := mapM_injective (fun _ _ _ _ => tradeJson_injective hiso) htrades htrades' hclosed
  refine ⟨fun trade => ?_, fun point => ⟨?_, ?_⟩, fun cost => ?_⟩
  · rw [← mem_sortedBy (κ := String), htrade, mem_sortedBy]
  · exact points_eq hiso hpoints hpoints' hequity point
  · exact points_eq hiso hpoints' hpoints hequity.symm point
  · rw [← mem_sortedBy (κ := String), show sortedBy _ _ = _ from hsame, sortedCosts, mem_sortedBy]

end Digest

/-- An evaluation gives the same result for every order of inputs with different keys, and reports
on different collections have different digests. -/
theorem evaluate_order_and_digest (env : Environment) (hsha : Function.Injective env.sha256)
    (hiso : Function.Injective env.isoformat) (hmodel : Function.Injective env.modelDatetime) :
    (∀ inputs inputs' protocol protocolSha256 generatedAt,
      StatisticalInputs.Distinct inputs → inputs.Permuted inputs' →
      evaluateStatisticalStage env inputs protocol protocolSha256 generatedAt =
        evaluateStatisticalStage env inputs' protocol protocolSha256 generatedAt) ∧
    ∀ inputs inputs' protocol protocol' protocolSha256 protocolSha256' generatedAt generatedAt'
      report report',
      evaluateStatisticalStage env inputs protocol protocolSha256 generatedAt = .ok report →
      evaluateStatisticalStage env inputs' protocol' protocolSha256' generatedAt' = .ok report' →
      ¬ SameCollections inputs inputs' →
      report.inputSnapshotSha256 ≠ report'.inputSnapshotSha256 := by
  refine ⟨fun _ _ _ protocolSha256 generatedAt hdistinct h =>
    evaluate_permuted h hdistinct protocolSha256 generatedAt, ?_⟩
  intro inputs inputs' protocol protocol' protocolSha256 protocolSha256' generatedAt generatedAt'
    report report' hreport hreport' hdifferent heq
  obtain ⟨_, _, _, _, _, -, -, -, -, -, -, -, -, hdigest, -⟩ := evaluate_eq_ok hreport
  obtain ⟨_, _, _, _, _, -, -, -, -, -, -, -, -, hdigest', -⟩ := evaluate_eq_ok hreport'
  exact hdifferent (sameCollections hsha hiso hmodel hdigest (heq ▸ hdigest'))

/-! ## Two trades -/

def firstTrade : ClosedTrade := sampleTrade "first" 172800 (Decimal.ofNat 2)

def secondTrade : ClosedTrade := sampleTrade "second" 176400 (Decimal.ofInt (-1))

/-- The evaluation of some trades without costs. -/
def sampleEvaluation (trades : List ClosedTrade) : Except Failure StatisticalReport :=
  evaluateStatisticalStage sampleEnvironment (sampleInputs trades [] zero) sampleProtocol
    sampleSha256 (seconds 259200)

theorem sampleEnvironment_injective : Function.Injective sampleEnvironment.sha256 ∧
    Function.Injective sampleEnvironment.isoformat ∧
    Function.Injective sampleEnvironment.modelDatetime := by
  refine ⟨fun a b h => ?_, fun _ _ h => ?_, fun _ _ h => ?_⟩
  · have hbytes := Json.list.inj (Json.dumps_injective h)
    have hinj : Function.Injective fun b : UInt8 => Json.int b.toNat := by
      intro b b' hb
      exact UInt8.toNat_inj.mp (Int.ofNat_inj.mp (Json.int.inj hb))
    exact ByteArray.ext (Array.toList_inj.mp (List.map_injective_iff.mpr hinj hbytes))
  · exact Json.int.inj (Json.dumps_injective h)
  · exact Json.int.inj (Json.dumps_injective h)

theorem evaluate_order_and_digest_two_trades :
    sampleEvaluation [firstTrade, secondTrade] = sampleEvaluation [secondTrade, firstTrade] ∧
    ∃ report report', sampleEvaluation [firstTrade, secondTrade] = .ok report ∧
      sampleEvaluation [firstTrade] = .ok report' ∧
      report.inputSnapshotSha256 ≠ report'.inputSnapshotSha256 := by
  obtain ⟨hsha, hiso, hmodel⟩ := sampleEnvironment_injective
  obtain ⟨horder, hdigest⟩ := evaluate_order_and_digest sampleEnvironment hsha hiso hmodel
  have hok : ∀ trades, (sampleEvaluation trades).isOk = true →
      ∃ report, sampleEvaluation trades = .ok report := by
    intro trades h
    cases hreport : sampleEvaluation trades with
    | error e =>
        rw [hreport] at h
        cases h
    | ok report => exact ⟨report, rfl⟩
  obtain ⟨report, hreport⟩ := hok [firstTrade, secondTrade] (by decide +kernel)
  obtain ⟨report', hreport'⟩ := hok [firstTrade] (by decide +kernel)
  have hdistinct : (sampleInputs [firstTrade, secondTrade] [] zero).Distinct :=
    ⟨by decide +kernel, by decide +kernel, by decide +kernel⟩
  refine ⟨horder _ _ _ _ _ hdistinct (.intro (.swap _ _ _) (.refl _) (.refl _)), report, report',
    hreport, hreport', hdigest _ _ _ _ _ _ _ _ _ _ hreport hreport' fun h => ?_⟩
  have hmem := (h.trades secondTrade).mp (by decide +kernel)
  exact absurd hmem (by decide +kernel)

end SniperBot.Acceptance
