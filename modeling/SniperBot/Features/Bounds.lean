import SniperBot.Basis.Shares
import SniperBot.Features.Lookahead
import Mathlib.Tactic.Positivity

/-!
# Bounds of a snapshot

The values of a snapshot come from separate loops over the same trades: counts and sums over nested
windows, the volumes of the buyers and their ranking, the first buys, the highest price. The bounds
between them hold for every history of observations that pass their field checks
(`snapshot_bounds`).
-/

namespace SniperBot.Features

open Basis

/-- The field checks of an observation. -/
def Ingestion.Checked : Ingestion → Prop
  | .pool _ _ => True
  | .trade event => 0 ≤ event.volumeUsd ∧ 0 < event.priceUsd
  | .liquidity event => 0 ≤ event.quoteLiquidityUsd ∧ ∀ cap ∈ event.marketCapUsd, 0 ≤ cap
  | .holders event =>
      (0 ≤ event.top10HoldersPct ∧ event.top10HoldersPct ≤ 1) ∧
        (0 ≤ event.devClusterHoldingPct ∧ event.devClusterHoldingPct ≤ 1) ∧
          0 ≤ event.largestRelatedClusterPct ∧ event.largestRelatedClusterPct ≤ 1

/-- The trades of a pool that a snapshot of the moment reads. -/
def visibleTrades (engine : EventTimeFeatureEngine) (poolAddress : String) (at' : Time) :
    List TradeObservation :=
  (engine.tradesOf poolAddress).filter (·.eventTime ≤ at')

/-- A price level lies between two prices of the trades. -/
def BetweenPrices (level : ℚ) (trades : List TradeObservation) : Prop :=
  (∃ low ∈ trades, low.priceUsd ≤ level) ∧ ∃ high ∈ trades, level ≤ high.priceUsd

/-- What ties the values of a snapshot together. -/
structure SnapshotBounds (trades : List TradeObservation) (s : FeatureSnapshot) : Prop where
  buyTransactions : s.buyTransactions15s ≤ s.buyTransactions30s ∧
    s.buyTransactions30s ≤ s.buyTransactions60s
  sellTransactions : s.sellTransactions15s ≤ s.sellTransactions30s ∧
    s.sellTransactions30s ≤ s.sellTransactions60s
  uniqueBuyers : s.uniqueBuyers15s ≤ s.uniqueBuyers30s ∧ s.uniqueBuyers30s ≤ s.uniqueBuyers60s
  uniqueSellers : s.uniqueSellers15s ≤ s.uniqueSellers30s ∧
    s.uniqueSellers30s ≤ s.uniqueSellers60s
  buyVolumes : s.buyVolumeUsd15s ≤ s.buyVolumeUsd30s ∧ s.buyVolumeUsd30s ≤ s.buyVolumeUsd60s
  sellVolumes : s.sellVolumeUsd15s ≤ s.sellVolumeUsd30s ∧ s.sellVolumeUsd30s ≤ s.sellVolumeUsd60s
  newBuyerWindows : s.newBuyers15s ≤ s.newBuyers30s
  newBuyers : s.newBuyers15s ≤ s.uniqueBuyers15s ∧ s.newBuyers30s ≤ s.uniqueBuyers30s
  shares : 0 ≤ s.top1BuyerVolumeShare ∧ s.top1BuyerVolumeShare ≤ s.top5BuyerVolumeShare ∧
    s.top5BuyerVolumeShare ≤ 1
  hhi : s.top1BuyerVolumeShare ^ 2 ≤ s.buyerVolumeHhi ∧ s.buyerVolumeHhi ≤ s.top1BuyerVolumeShare
  sameFunder : 0 ≤ s.sameFunderBuyShare ∧ s.sameFunderBuyShare ≤ 1
  uniqueBuyerRatio : 0 ≤ s.uniqueBuyerRatio ∧ s.uniqueBuyerRatio ≤ 1
  drawdown : trades ≠ [] → 0 ≤ s.drawdownFromLocalHigh ∧ s.drawdownFromLocalHigh < 1
  vwap30 : 0 < volume (window s.snapshotTime trades 30) →
    BetweenPrices s.rollingVwap30s (window s.snapshotTime trades 30)
  vwap60 : 0 < volume (window s.snapshotTime trades 60) →
    BetweenPrices s.rollingVwap60s (window s.snapshotTime trades 60)

/-! ## Histories -/

theorem mem_tradesOf_ingest {engine : EventTimeFeatureEngine} {item : Ingestion} {address : String}
    {trade : TradeObservation} (h : trade ∈ (engine.ingest item).tradesOf address) :
    trade ∈ engine.tradesOf address ∨ item = .trade trade := by
  cases item with
  | pool poolAddress createdAt =>
      unfold EventTimeFeatureEngine.tradesOf EventTimeFeatureEngine.ingest at h
      rw [(registerPool_lists engine poolAddress createdAt).1] at h
      exact Or.inl h
  | trade event =>
      by_cases hseen : event.eventId ∈ engine.seen
      · rw [EventTimeFeatureEngine.ingest, EventTimeFeatureEngine.ingestTrade, if_pos hseen] at h
        exact Or.inl h
      · rw [EventTimeFeatureEngine.ingest, ingestTrade_new hseen] at h
        have hget := getD_set engine.trades event.poolAddress address
          (insertOrdered (fun item => (item.eventTime, item.eventId))
            (engine.tradesOf event.poolAddress) event)
        unfold EventTimeFeatureEngine.tradesOf at h hget ⊢
        rw [hget] at h
        split_ifs at h with haddress
        · rcases List.mem_cons.mp ((insertOrdered_perm _ event).mem_iff.mp h) with rfl | hold
          · exact Or.inr rfl
          · exact Or.inl (haddress ▸ hold)
        · exact Or.inl h
  | liquidity event =>
      unfold EventTimeFeatureEngine.ingest EventTimeFeatureEngine.ingestLiquidity at h
      dsimp only at h
      split_ifs at h <;> exact Or.inl h
  | holders event =>
      unfold EventTimeFeatureEngine.ingest EventTimeFeatureEngine.ingestHolders at h
      dsimp only at h
      split_ifs at h <;> exact Or.inl h

/-- The trades of a history pass their checks. -/
theorem checked_tradesOf {items : List Ingestion} (hchecked : ∀ item ∈ items, item.Checked)
    (address : String) :
    ∀ trade ∈ (ingested items).tradesOf address, 0 ≤ trade.volumeUsd ∧ 0 < trade.priceUsd := by
  have hrun : ∀ engine : EventTimeFeatureEngine,
      (∀ trade ∈ engine.tradesOf address, 0 ≤ trade.volumeUsd ∧ 0 < trade.priceUsd) →
        ∀ trade ∈ (exec EventTimeFeatureEngine.ingest engine items).tradesOf address,
          0 ≤ trade.volumeUsd ∧ 0 < trade.priceUsd := by
    induction items with
    | nil => exact fun _ h => h
    | cons item items ih =>
        obtain ⟨hitem, hrest⟩ := List.forall_mem_cons.mp hchecked
        intro engine h
        refine ih hrest _ fun trade htrade => ?_
        rcases mem_tradesOf_ingest htrade with hold | rfl
        · exact h trade hold
        · exact hitem
  exact hrun {} fun trade htrade => absurd htrade List.not_mem_nil

/-! ## Windows -/

section Windows

variable {at' : Time} {trades : List TradeObservation}

theorem mem_window {secs : Int} {trade : TradeObservation} :
    trade ∈ window at' trades secs ↔
      trade ∈ trades ∧ at' - seconds secs < trade.eventTime ∧ trade.eventTime ≤ at' := by
  rw [window, List.mem_filter, decide_eq_true_eq]

theorem windowStart_le {secs longer : Int} (h : secs ≤ longer) (at' : Time) :
    at' - seconds longer ≤ at' - seconds secs := by
  have hle : secs * 1000000 ≤ longer * 1000000 := by omega
  exact sub_le_sub_left hle at'

theorem window_sublist {secs longer : Int} (h : secs ≤ longer) :
    (window at' trades secs).Sublist (window at' trades longer) := by
  refine List.monotone_filter_right _ fun trade htrade => ?_
  rw [decide_eq_true_eq] at htrade ⊢
  exact ⟨lt_of_le_of_lt (windowStart_le h at') htrade.1, htrade.2⟩

theorem distinctWallets_le {first second : List TradeObservation} (h : first ⊆ second) :
    distinctWallets first ≤ distinctWallets second := by
  unfold distinctWallets
  rw [← List.card_toFinset, ← List.card_toFinset]
  refine Finset.card_le_card fun wallet hwallet => ?_
  rw [List.mem_toFinset] at hwallet ⊢
  exact List.map_subset _ h hwallet

theorem distinctWallets_le_length (trades : List TradeObservation) :
    distinctWallets trades ≤ trades.length :=
  (List.dedup_sublist _).length_le.trans (List.length_map _).le

theorem volume_nonneg (h : ∀ trade ∈ trades, 0 ≤ trade.volumeUsd) : 0 ≤ volume trades :=
  List.sum_nonneg fun v hv => by
    obtain ⟨trade, htrade, rfl⟩ := List.mem_map.mp hv
    exact h trade htrade

theorem volume_le {first second : List TradeObservation} (hsub : first.Sublist second)
    (h : ∀ trade ∈ second, 0 ≤ trade.volumeUsd) : volume first ≤ volume second :=
  (hsub.map _).sum_le_sum fun v hv => by
    obtain ⟨trade, htrade, rfl⟩ := List.mem_map.mp hv
    exact h trade htrade

/-- The first buy of a wallet is one of its buys. -/
theorem mem_of_firstBuys {buys : List TradeObservation} {wallet : String} {first : Time}
    (h : (firstBuys buys).get? wallet = some first) :
    ∃ trade ∈ buys, trade.wallet = wallet ∧ trade.eventTime = first := by
  have hfold : ∀ known : Dict String Time,
      (buys.foldl (fun first event => first.setDefault event.wallet event.eventTime) known).get?
        wallet = some first →
      known.get? wallet = some first ∨
        ∃ trade ∈ buys, trade.wallet = wallet ∧ trade.eventTime = first := by
    clear h
    induction buys with
    | nil => exact fun _ h => Or.inl h
    | cons event buys ih =>
        intro known h
        rcases ih _ h with hknown | ⟨trade, htrade, heq⟩
        · unfold Dict.setDefault at hknown
          dsimp only at hknown
          split_ifs at hknown
          · exact Or.inl hknown
          · rw [Dict.get?_set] at hknown
            split_ifs at hknown with hwallet
            · exact Or.inr ⟨event, List.mem_cons_self, hwallet, Option.some.inj hknown⟩
            · exact Or.inl hknown
        · exact Or.inr ⟨trade, List.mem_cons_of_mem _ htrade, heq⟩
  exact (hfold Dict.empty h).resolve_left fun hnone => by cases hnone

/-- Each new buyer has a buy in the window, its first one. -/
theorem newBuyers_le (at' : Time) (buys : List TradeObservation) (secs : Int) :
    newBuyers at' buys secs ≤ distinctWallets (window at' buys secs) := by
  have hkeys : ((firstBuys buys).values.filter
      fun first => at' - seconds secs < first ∧ first ≤ at').length =
      (((firstBuys buys).entries.filter
        fun entry => at' - seconds secs < entry.2 ∧ entry.2 ≤ at').map Prod.fst).length := by
    rw [Dict.values, List.filter_map, List.length_map, List.length_map]
    rfl
  unfold newBuyers
  rw [hkeys, distinctWallets, ← List.card_toFinset,
    ← List.toFinset_card_of_nodup ((List.filter_sublist.map _).nodup (firstBuys buys).nodup)]
  refine Finset.card_le_card fun wallet hwallet => ?_
  rw [List.mem_toFinset] at hwallet ⊢
  obtain ⟨⟨owner, first⟩, hentry, rfl⟩ := List.mem_map.mp hwallet
  obtain ⟨hentry, htime⟩ := List.mem_filter.mp hentry
  obtain ⟨trade, htrade, rfl, rfl⟩ := mem_of_firstBuys (Dict.mem_entries.mp hentry)
  exact List.mem_map_of_mem (mem_window.mpr ⟨htrade, of_decide_eq_true htime⟩)

theorem newBuyers_mono (at' : Time) (buys : List TradeObservation) {secs longer : Int}
    (h : secs ≤ longer) : newBuyers at' buys secs ≤ newBuyers at' buys longer := by
  refine (List.monotone_filter_right _ fun first hfirst => ?_).length_le
  rw [decide_eq_true_eq] at hfirst ⊢
  exact ⟨lt_of_le_of_lt (windowStart_le h at') hfirst.1, hfirst.2⟩

end Windows

/-! ## Shares -/

/-- The shares of the buyers in the volume, the greatest first. -/
def buyerShares (buys : List TradeObservation) : List ℚ :=
  if volume buys > 0 then
    ((buyerVolumes buys).values.mergeSort (· ≥ ·)).map (· / volume buys)
  else []

theorem sum_values (volumes : Dict String ℚ) :
    volumes.values.sum = Dict.total (fun _ amount => amount) volumes := rfl

/-- The volumes of the buyers make up the volume. -/
theorem sum_buyerVolumes (buys : List TradeObservation) :
    (buyerVolumes buys).values.sum = volume buys := by
  have hfold : ∀ volumes : Dict String ℚ,
      Dict.total (fun _ amount => amount) (buys.foldl (fun volumes event =>
        volumes.set event.wallet ((volumes.get? event.wallet).getD 0 + event.volumeUsd)) volumes) =
        Dict.total (fun _ amount => amount) volumes + volume buys := by
    induction buys with
    | nil => exact fun _ => (add_zero _).symm
    | cons event buys ih =>
        intro volumes
        have hset : Dict.total (fun _ amount => amount) (volumes.set event.wallet
            ((volumes.get? event.wallet).getD 0 + event.volumeUsd)) =
            Dict.total (fun _ amount => amount) volumes + event.volumeUsd := by
          cases hget : volumes.get? event.wallet with
          | none => rw [Dict.total_set_new _ hget, Option.getD_none, zero_add]
          | some old =>
              have hold := Dict.total_set_old (fun _ amount => amount) hget (old + event.volumeUsd)
              rw [Option.getD_some]
              linarith
        have hcons : volume (event :: buys) = event.volumeUsd + volume buys := List.sum_cons
        rw [List.foldl_cons, ih, hset, hcons, add_assoc]
  rw [sum_values]
  exact (hfold Dict.empty).trans (zero_add _)

theorem buyerVolumes_nonneg {buys : List TradeObservation}
    (h : ∀ trade ∈ buys, 0 ≤ trade.volumeUsd) : ∀ amount ∈ (buyerVolumes buys).values, 0 ≤ amount := by
  have hfold : ∀ volumes : Dict String ℚ,
      (∀ wallet, 0 ≤ (volumes.get? wallet).getD 0) →
        ∀ wallet, 0 ≤ ((buys.foldl (fun volumes event => volumes.set event.wallet
          ((volumes.get? event.wallet).getD 0 + event.volumeUsd)) volumes).get? wallet).getD 0 := by
    induction buys with
    | nil => exact fun _ h => h
    | cons event buys ih =>
        obtain ⟨hevent, hrest⟩ := List.forall_mem_cons.mp h
        refine fun volumes hvolumes => ih hrest _ fun wallet => ?_
        rw [Dict.get?_set]
        split_ifs
        · exact add_nonneg (hvolumes _) hevent
        · exact hvolumes wallet
  intro amount hamount
  obtain ⟨wallet, hget⟩ := Dict.mem_values.mp hamount
  have hnonneg := hfold Dict.empty (fun _ => le_rfl) wallet
  change 0 ≤ ((buyerVolumes buys).get? wallet).getD 0 at hnonneg
  rwa [hget] at hnonneg

theorem ranked_buyerShares {buys : List TradeObservation}
    (h : ∀ trade ∈ buys, 0 ≤ trade.volumeUsd) : Ranked (buyerShares buys) := by
  unfold buyerShares
  split_ifs with hvolume
  · have hperm := List.mergeSort_perm (buyerVolumes buys).values (· ≥ ·)
    have hsum : ((buyerVolumes buys).values.mergeSort (· ≥ ·)).sum = volume buys :=
      hperm.sum_eq.trans (sum_buyerVolumes buys)
    have hsorted : ((buyerVolumes buys).values.mergeSort (· ≥ ·)).Pairwise (· ≥ ·) := by
      refine (List.pairwise_mergeSort (fun a b c hab hbc => ?_) (fun a b => ?_) _).imp ?_
      · simp only [decide_eq_true_eq] at hab hbc ⊢
        exact le_trans hbc hab
      · simpa using le_total b a
      · exact fun hab => of_decide_eq_true hab
    have hranked := ranked_div
      (fun amount hamount => buyerVolumes_nonneg h amount (hperm.mem_iff.mp hamount)) hsorted
      (hsum ▸ hvolume)
    rwa [hsum] at hranked
  · exact ranked_nil

/-- A part of a volume, as a share of it. -/
theorem part_between {trades : List TradeObservation} (h : ∀ trade ∈ trades, 0 ≤ trade.volumeUsd)
    (p : TradeObservation → Bool) :
    0 ≤ (if volume trades > 0 then volume (trades.filter p) / volume trades else 0) ∧
      (if volume trades > 0 then volume (trades.filter p) / volume trades else 0) ≤ 1 := by
  have hpart : 0 ≤ volume (trades.filter p) :=
    volume_nonneg fun trade htrade => h trade (List.mem_of_mem_filter htrade)
  split_ifs with hvolume
  · exact ⟨div_nonneg hpart hvolume.le,
      (div_le_one hvolume).mpr (volume_le List.filter_sublist h)⟩
  · exact ⟨le_rfl, zero_le_one⟩

/-! ## Prices -/

theorem vwap_between {trades : List TradeObservation} (h : ∀ trade ∈ trades, 0 ≤ trade.volumeUsd)
    (hvolume : 0 < volume trades) : BetweenPrices (vwap trades) trades := by
  rw [vwap, if_neg hvolume.not_ge]
  exact exists_mean_between h hvolume

/-- The last price against the highest one. -/
theorem drawdown_between {trades : List TradeObservation} (hne : trades ≠ [])
    (h : ∀ trade ∈ trades, 0 < trade.priceUsd) :
    let high := ((trades.map (·.priceUsd)).max?).getD 0
    let drawdown :=
      if high > 0 then 1 - (trades.getLast?.map (·.priceUsd)).getD 0 / high else 0
    0 ≤ drawdown ∧ drawdown < 1 := by
  obtain ⟨last, hlast⟩ := Option.isSome_iff_exists.mp (List.getLast?_isSome.mpr hne)
  have hmem := List.mem_of_getLast? hlast
  obtain ⟨high, hhigh⟩ := Option.isSome_iff_exists.mp
    (List.isSome_max?_of_mem (List.mem_map_of_mem (f := (·.priceUsd)) hmem))
  have hle : last.priceUsd ≤ high :=
    (List.max?_eq_some_iff.mp hhigh).2 _ (List.mem_map_of_mem hmem)
  have hpos : 0 < high := (h last hmem).trans_le hle
  dsimp only
  rw [hhigh, hlast, Option.getD_some, Option.map_some, Option.getD_some, if_pos hpos]
  have hshare := div_pos (h last hmem) hpos
  have hone := (div_le_one hpos).mpr hle
  constructor <;> linarith

/-! ## Snapshots -/

theorem snapshot_bounds_of_trades {engine : EventTimeFeatureEngine} {address : String}
    (at' : Time)
    (h : ∀ trade ∈ engine.tradesOf address, 0 ≤ trade.volumeUsd ∧ 0 < trade.priceUsd) :
    SnapshotBounds (visibleTrades engine address at') (engine.snapshot address at') := by
  have hvisible : ∀ trade ∈ visibleTrades engine address at',
      0 ≤ trade.volumeUsd ∧ 0 < trade.priceUsd :=
    fun trade htrade => h trade (List.mem_of_mem_filter htrade)
  have hwindow : ∀ (p : TradeObservation → Bool) secs,
      ∀ trade ∈ window at' ((visibleTrades engine address at').filter p) secs,
        0 ≤ trade.volumeUsd := fun p secs trade htrade =>
    (hvisible trade (List.mem_of_mem_filter (mem_window.mp htrade).1)).1
  have hlevel : ∀ secs, ∀ trade ∈ window at' (visibleTrades engine address at') secs,
      0 ≤ trade.volumeUsd := fun secs trade htrade => (hvisible trade (mem_window.mp htrade).1).1
  have hshort : (15 : Int) ≤ 30 := by norm_num
  have hlong : (30 : Int) ≤ 60 := by norm_num
  have hranked := ranked_buyerShares (hwindow (·.side = .buy) 60)
  exact
    { buyTransactions := ⟨(window_sublist hshort).length_le, (window_sublist hlong).length_le⟩
      sellTransactions := ⟨(window_sublist hshort).length_le, (window_sublist hlong).length_le⟩
      uniqueBuyers := ⟨distinctWallets_le (window_sublist hshort).subset,
        distinctWallets_le (window_sublist hlong).subset⟩
      uniqueSellers := ⟨distinctWallets_le (window_sublist hshort).subset,
        distinctWallets_le (window_sublist hlong).subset⟩
      buyVolumes := ⟨volume_le (window_sublist hshort) (hwindow (·.side = .buy) 30),
        volume_le (window_sublist hlong) (hwindow (·.side = .buy) 60)⟩
      sellVolumes := ⟨volume_le (window_sublist hshort) (hwindow (·.side = .sell) 30),
        volume_le (window_sublist hlong) (hwindow (·.side = .sell) 60)⟩
      newBuyerWindows := newBuyers_mono at' _ hshort
      newBuyers := ⟨newBuyers_le at' _ 15, newBuyers_le at' _ 30⟩
      shares := ⟨hranked.top_nonneg, hranked.top_le_take (by norm_num), hranked.take_le 5⟩
      hhi := ⟨(sq _).trans_le hranked.sum_sq_between.1, hranked.sum_sq_between.2⟩
      sameFunder := part_between (hwindow (·.side = .buy) 60) (·.sameFunderCluster)
      uniqueBuyerRatio := by
        have hle := distinctWallets_le_length
          (window at' ((visibleTrades engine address at').filter (·.side = .buy)) 60)
        refine ⟨div_nonneg (Nat.cast_nonneg _) (le_max_of_le_right zero_le_one), ?_⟩
        exact (div_le_one (lt_max_of_lt_right one_pos)).mpr
          (le_max_of_le_left (by exact_mod_cast hle))
      drawdown := fun hne => drawdown_between hne fun trade htrade => (hvisible trade htrade).2
      vwap30 := vwap_between (hlevel 30)
      vwap60 := vwap_between (hlevel 60) }

/-- Every snapshot of a history of checked observations keeps the bounds. -/
theorem snapshot_bounds (items : List Ingestion) (hchecked : ∀ item ∈ items, item.Checked)
    (address : String) (at' : Time) :
    SnapshotBounds (visibleTrades (ingested items) address at')
      ((ingested items).snapshot address at') :=
  snapshot_bounds_of_trades at' (checked_tradesOf hchecked address)

theorem snapshot_bounds_three_trades :
    SnapshotBounds (visibleTrades (ingested [buyAt5, sellAt5, sellAt6]) "P" 6)
      ((ingested [buyAt5, sellAt5, sellAt6]).snapshot "P" 6) := by
  refine snapshot_bounds [buyAt5, sellAt5, sellAt6] ?_ "P" 6
  simp only [List.forall_mem_cons, buyAt5, sellAt5, sellAt6, Ingestion.Checked]
  norm_num

end SniperBot.Features
