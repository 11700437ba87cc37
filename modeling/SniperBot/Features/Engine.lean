import SniperBot.Domain
import SniperBot.Basis.Dict
import Mathlib.Data.List.Dedup
import Mathlib.Data.List.TakeWhile
import Mathlib.Data.String.Basic
import Mathlib.Algebra.Order.Ring.Rat

/-!
# Event-time features

`features.py`: the observations of a pool, ordered by event time and id, and the snapshot that the
windows of a moment give. Observations come with an id, and an id is accepted once.
-/

namespace SniperBot.Features

open Basis

/-! ## Observations -/

inductive TradeSide
  | buy | sell
  deriving DecidableEq, Repr

structure TradeObservation where
  eventId : String
  poolAddress : String
  eventTime : Time
  side : TradeSide
  wallet : String
  volumeUsd : ℚ
  priceUsd : ℚ
  external : Bool := true
  sameFunderCluster : Bool := false
  deriving DecidableEq, Repr

structure LiquidityObservation where
  eventId : String
  poolAddress : String
  eventTime : Time
  quoteLiquidityUsd : ℚ
  marketCapUsd : Option ℚ
  deriving DecidableEq, Repr

structure HolderObservation where
  eventId : String
  poolAddress : String
  eventTime : Time
  holderCount : Nat
  top10HoldersPct : ℚ
  devClusterHoldingPct : ℚ
  largestRelatedClusterPct : ℚ
  deriving DecidableEq, Repr

/-- The keys by which a list of observations is ordered: `event_key < other`. -/
def keyLt (a b : Time × String) : Prop := a.1 < b.1 ∨ a.1 = b.1 ∧ a.2 < b.2

instance (a b : Time × String) : Decidable (keyLt a b) := inferInstanceAs (Decidable (_ ∨ _))

section Ordered

variable {α : Type} (key : α → Time × String)

/-- `_insert_ordered`: the list is ordered, and `bisect_right` ends where a greater key begins. -/
def insertOrdered (events : List α) (event : α) : List α :=
  events.takeWhile (fun item => ¬ keyLt (key event) (key item)) ++
    event :: events.dropWhile (fun item => ¬ keyLt (key event) (key item))

/-- No observation comes before one with a smaller key. -/
def Ordered (events : List α) : Prop := events.Pairwise fun a b => ¬ keyLt (key b) (key a)

theorem keyLt_asymm {a b : Time × String} (h : keyLt a b) : ¬ keyLt b a := by
  rintro (hlt | ⟨heq, hid⟩)
  · rcases h with h | ⟨h, -⟩
    · exact lt_asymm h hlt
    · exact hlt.ne h.symm
  · rcases h with h | ⟨-, h⟩
    · exact h.ne heq.symm
    · exact lt_asymm h hid

theorem keyLt_of_lt_of_le {a b c : Time × String} (h : keyLt a b) (hle : ¬ keyLt c b) :
    keyLt a c := by
  obtain ⟨htime, hid⟩ := not_or.mp hle
  rcases h with h | ⟨h, hlt⟩
  · exact Or.inl (h.trans_le (not_lt.mp htime))
  · by_cases hbc : b.1 = c.1
    · exact Or.inr ⟨h.trans hbc, hlt.trans_le (not_lt.mp fun hcb => hid ⟨hbc.symm, hcb⟩)⟩
    · exact Or.inl (h ▸ lt_of_le_of_ne (not_lt.mp htime) hbc)

/-- An insertion keeps the order. -/
theorem Ordered.insert {events : List α} (h : Ordered key events) (event : α) :
    Ordered key (insertOrdered key events event) := by
  have hsplit := List.takeWhile_append_dropWhile
    (p := fun item => decide (¬ keyLt (key event) (key item))) (l := events)
  have hpair : Ordered key (events.takeWhile (fun item => ¬ keyLt (key event) (key item)) ++
      events.dropWhile fun item => ¬ keyLt (key event) (key item)) := by
    rw [hsplit]
    exact h
  obtain ⟨hbefore, hafter, hcross⟩ := List.pairwise_append.mp hpair
  -- every observation of the rest has a greater key, as its first one has
  have hgreater : ∀ item ∈ events.dropWhile fun item => ¬ keyLt (key event) (key item),
      keyLt (key event) (key item) := by
    cases hrest : events.dropWhile fun item => ¬ keyLt (key event) (key item) with
    | nil => exact fun _ hitem => absurd hitem List.not_mem_nil
    | cons first rest =>
        have hfirst : keyLt (key event) (key first) := by
          have hnot := List.head?_dropWhile_not
            (fun item => decide (¬ keyLt (key event) (key item))) events
          rw [hrest] at hnot
          exact not_not.mp (of_decide_eq_false hnot)
        rw [hrest] at hafter
        intro item hitem
        rcases List.mem_cons.mp hitem with rfl | hlater
        · exact hfirst
        · exact keyLt_of_lt_of_le hfirst ((List.pairwise_cons.mp hafter).1 item hlater)
  refine List.pairwise_append.mpr ⟨hbefore, List.pairwise_cons.mpr ⟨?_, hafter⟩, ?_⟩
  · exact fun item hitem => keyLt_asymm (hgreater item hitem)
  · intro item hitem other hother
    rcases List.mem_cons.mp hother with rfl | hlater
    · have hle := List.mem_takeWhile_imp hitem
      exact of_decide_eq_true hle
    · exact hcross item hitem other hlater

end Ordered

/-! ## The engine -/

structure EventTimeFeatureEngine where
  poolCreated : Dict String Time := Dict.empty
  trades : Dict String (List TradeObservation) := Dict.empty
  liquidity : Dict String (List LiquidityObservation) := Dict.empty
  holders : Dict String (List HolderObservation) := Dict.empty
  seen : List String := []

namespace EventTimeFeatureEngine

variable (engine : EventTimeFeatureEngine)

/-- `register_pool` -/
def registerPool (poolAddress : String) (createdAt : Time) : EventTimeFeatureEngine :=
  match engine.poolCreated.get? poolAddress with
  | some current =>
      if createdAt < current then
        { engine with poolCreated := engine.poolCreated.set poolAddress createdAt }
      else engine
  | none => { engine with poolCreated := engine.poolCreated.set poolAddress createdAt }

/-- `self._trades.get(pool_address, [])` -/
def tradesOf (poolAddress : String) : List TradeObservation :=
  (engine.trades.get? poolAddress).getD []

def liquidityOf (poolAddress : String) : List LiquidityObservation :=
  (engine.liquidity.get? poolAddress).getD []

def holdersOf (poolAddress : String) : List HolderObservation :=
  (engine.holders.get? poolAddress).getD []

/-- `ingest_trade` -/
def ingestTrade (event : TradeObservation) : EventTimeFeatureEngine :=
  if event.eventId ∈ engine.seen then engine
  else
    { engine with
      seen := engine.seen ++ [event.eventId]
      trades := engine.trades.set event.poolAddress
        (insertOrdered (fun item => (item.eventTime, item.eventId))
          (engine.tradesOf event.poolAddress) event) }

/-- `ingest_liquidity` -/
def ingestLiquidity (event : LiquidityObservation) : EventTimeFeatureEngine :=
  if event.eventId ∈ engine.seen then engine
  else
    { engine with
      seen := engine.seen ++ [event.eventId]
      liquidity := engine.liquidity.set event.poolAddress
        (insertOrdered (fun item => (item.eventTime, item.eventId))
          (engine.liquidityOf event.poolAddress) event) }

/-- `ingest_holders` -/
def ingestHolders (event : HolderObservation) : EventTimeFeatureEngine :=
  if event.eventId ∈ engine.seen then engine
  else
    { engine with
      seen := engine.seen ++ [event.eventId]
      holders := engine.holders.set event.poolAddress
        (insertOrdered (fun item => (item.eventTime, item.eventId))
          (engine.holdersOf event.poolAddress) event) }

end EventTimeFeatureEngine

/-! ## Snapshots -/

/-- `_volume` -/
def volume (events : List TradeObservation) : ℚ := (events.map (·.volumeUsd)).sum

/-- `_vwap` -/
def vwap (events : List TradeObservation) : ℚ :=
  if volume events ≤ 0 then 0
  else (events.map fun event => event.priceUsd * event.volumeUsd).sum / volume events

/-- `_change` -/
def change (current previous : ℚ) : ℚ := if previous > 0 then current / previous - 1 else 0

/-- `_ratio` -/
def ratio (numerator denominator : ℚ) : ℚ :=
  if denominator > 0 then numerator / denominator else 0

/-- `next((event for event in reversed(events) if event.event_time <= cutoff), events[0])` -/
def lastBefore {α : Type} (time : α → Time) (events : List α) (cutoff : Time) : Option α :=
  (events.reverse.find? fun event => time event ≤ cutoff).orElse fun _ => events.head?

/-- `_liquidity_change` -/
def liquidityChange (events : List LiquidityObservation) (at' : Time) (secs : Int) : ℚ :=
  match events.getLast?, lastBefore (·.eventTime) events (at' - seconds secs) with
  | some last, some previous => change last.quoteLiquidityUsd previous.quoteLiquidityUsd
  | _, _ => 0

/-- `_price_return` -/
def priceReturn (events : List TradeObservation) (at' : Time) (secs : Int) : ℚ :=
  match events.getLast?, lastBefore (·.eventTime) events (at' - seconds secs) with
  | some last, some previous => change last.priceUsd previous.priceUsd
  | _, _ => 0

/-- `_holder_growth` -/
def holderGrowth (events : List HolderObservation) (at' : Time) (secs : Int) : Int :=
  match events.getLast?, lastBefore (·.eventTime) events (at' - seconds secs) with
  | some last, some previous => (last.holderCount : Int) - previous.holderCount
  | _, _ => 0

/-- `len({event.wallet for event in events})` -/
def distinctWallets (events : List TradeObservation) : Nat :=
  (events.map (·.wallet)).dedup.length

/-- The last `seconds` before `at`. -/
def window (at' : Time) (events : List TradeObservation) (secs : Int) : List TradeObservation :=
  events.filter fun event => at' - seconds secs < event.eventTime ∧ event.eventTime ≤ at'

/-- `buyer_volumes` -/
def buyerVolumes (events : List TradeObservation) : Dict String ℚ :=
  events.foldl
    (fun volumes event => volumes.set event.wallet
      ((volumes.get? event.wallet).getD 0 + event.volumeUsd)) Dict.empty

/-- `first_buy_by_wallet` -/
def firstBuys (events : List TradeObservation) : Dict String Time :=
  events.foldl (fun first event => first.setDefault event.wallet event.eventTime) Dict.empty

/-- `new15` and `new30` -/
def newBuyers (at' : Time) (buys : List TradeObservation) (secs : Int) : Nat :=
  ((firstBuys buys).values.filter fun first => at' - seconds secs < first ∧ first ≤ at').length

structure FeatureSnapshot where
  poolAddress : String
  snapshotTime : Time
  poolAgeSeconds : ℚ
  buyTransactions15s : Nat
  buyTransactions30s : Nat
  buyTransactions60s : Nat
  uniqueBuyers15s : Nat
  uniqueBuyers30s : Nat
  uniqueBuyers60s : Nat
  newBuyers15s : Nat
  newBuyers30s : Nat
  sellTransactions15s : Nat
  sellTransactions30s : Nat
  sellTransactions60s : Nat
  uniqueSellers15s : Nat
  uniqueSellers30s : Nat
  uniqueSellers60s : Nat
  externalSuccessfulSellers : Nat
  buyVolumeUsd15s : ℚ
  buyVolumeUsd30s : ℚ
  buyVolumeUsd60s : ℚ
  sellVolumeUsd15s : ℚ
  sellVolumeUsd30s : ℚ
  sellVolumeUsd60s : ℚ
  netBuyVolumeUsd30s : ℚ
  netBuyVolumeUsd60s : ℚ
  top1BuyerVolumeShare : ℚ
  top5BuyerVolumeShare : ℚ
  buyerVolumeHhi : ℚ
  sameFunderBuyShare : ℚ
  transactionsPerTrader : ℚ
  uniqueBuyerRatio : ℚ
  buyerAcceleration : ℚ
  buySellVolumeRatio : ℚ
  quoteLiquidityUsd : ℚ
  quoteLiquidityChange10s : ℚ
  quoteLiquidityChange30s : ℚ
  quoteLiquidityChangeSincePoolCreation : ℚ
  volumeToQuoteLiquidity30s : ℚ
  volumeToQuoteLiquidity60s : ℚ
  marketCapToQuoteLiquidity : ℚ
  currentPriceUsd : ℚ
  returnSincePoolCreation : ℚ
  return15s : ℚ
  return30s : ℚ
  return60s : ℚ
  rollingVwap30s : ℚ
  rollingVwap60s : ℚ
  localHigh : ℚ
  drawdownFromLocalHigh : ℚ
  distanceFromVwap30s : ℚ
  holderCount : Nat
  holderGrowth30s : Int
  holderGrowth60s : Int
  top10HoldersPct : ℚ
  devClusterHoldingPct : ℚ
  largestRelatedClusterPct : ℚ
  deriving DecidableEq, Repr

/-- `snapshot` -/
def EventTimeFeatureEngine.snapshot (engine : EventTimeFeatureEngine) (poolAddress : String)
    (at' : Time) : FeatureSnapshot :=
  let created := (engine.poolCreated.get? poolAddress).getD at'
  let allTrades := (engine.tradesOf poolAddress).filter (·.eventTime ≤ at')
  let buys := allTrades.filter (·.side = .buy)
  let sells := allTrades.filter (·.side = .sell)
  let buy15 := window at' buys 15
  let buy30 := window at' buys 30
  let buy60 := window at' buys 60
  let sell15 := window at' sells 15
  let sell30 := window at' sells 30
  let sell60 := window at' sells 60
  let all60 := window at' allTrades 60
  let previousBuyers := distinctWallets (buys.filter fun event =>
    at' - seconds 60 < event.eventTime ∧ event.eventTime ≤ at' - seconds 30)
  let rankedBuyVolume := (buyerVolumes buy60).values.mergeSort (· ≥ ·)
  let buyTotal60 := volume buy60
  let shares := if buyTotal60 > 0 then rankedBuyVolume.map (· / buyTotal60) else []
  let liquidityEvents := (engine.liquidityOf poolAddress).filter (·.eventTime ≤ at')
  let quoteLiquidity := (liquidityEvents.getLast?.map (·.quoteLiquidityUsd)).getD 0
  let initialLiquidity := (liquidityEvents.head?.map (·.quoteLiquidityUsd)).getD 0
  let marketCap := liquidityEvents.getLast?.bind (·.marketCapUsd)
  let priceCurrent := (allTrades.getLast?.map (·.priceUsd)).getD 0
  let priceInitial := (allTrades.head?.map (·.priceUsd)).getD 0
  let localHigh := ((allTrades.map (·.priceUsd)).max?).getD 0
  let vwap30 := vwap (window at' allTrades 30)
  let holderEvents := (engine.holdersOf poolAddress).filter (·.eventTime ≤ at')
  let currentHolders := holderEvents.getLast?
  let totalVolume30 := volume buy30 + volume sell30
  let totalVolume60 := buyTotal60 + volume sell60
  { poolAddress := poolAddress
    snapshotTime := at'
    poolAgeSeconds := max 0 (totalSeconds (at' - created))
    buyTransactions15s := buy15.length
    buyTransactions30s := buy30.length
    buyTransactions60s := buy60.length
    uniqueBuyers15s := distinctWallets buy15
    uniqueBuyers30s := distinctWallets buy30
    uniqueBuyers60s := distinctWallets buy60
    newBuyers15s := newBuyers at' buys 15
    newBuyers30s := newBuyers at' buys 30
    sellTransactions15s := sell15.length
    sellTransactions30s := sell30.length
    sellTransactions60s := sell60.length
    uniqueSellers15s := distinctWallets sell15
    uniqueSellers30s := distinctWallets sell30
    uniqueSellers60s := distinctWallets sell60
    externalSuccessfulSellers := distinctWallets (sells.filter (·.external))
    buyVolumeUsd15s := volume buy15
    buyVolumeUsd30s := volume buy30
    buyVolumeUsd60s := buyTotal60
    sellVolumeUsd15s := volume sell15
    sellVolumeUsd30s := volume sell30
    sellVolumeUsd60s := volume sell60
    netBuyVolumeUsd30s := volume buy30 - volume sell30
    netBuyVolumeUsd60s := buyTotal60 - volume sell60
    top1BuyerVolumeShare := shares.head?.getD 0
    top5BuyerVolumeShare := (shares.take 5).sum
    buyerVolumeHhi := (shares.map fun share => share * share).sum
    sameFunderBuyShare :=
      if buyTotal60 > 0 then volume (buy60.filter (·.sameFunderCluster)) / buyTotal60 else 0
    transactionsPerTrader := all60.length / max (distinctWallets all60 : ℚ) 1
    uniqueBuyerRatio := distinctWallets buy60 / max (buy60.length : ℚ) 1
    buyerAcceleration := distinctWallets buy30 / max (previousBuyers : ℚ) 1
    buySellVolumeRatio := buyTotal60 / max (volume sell60) (1 / 100)
    quoteLiquidityUsd := quoteLiquidity
    quoteLiquidityChange10s := liquidityChange liquidityEvents at' 10
    quoteLiquidityChange30s := liquidityChange liquidityEvents at' 30
    quoteLiquidityChangeSincePoolCreation := change quoteLiquidity initialLiquidity
    volumeToQuoteLiquidity30s := ratio totalVolume30 quoteLiquidity
    volumeToQuoteLiquidity60s := ratio totalVolume60 quoteLiquidity
    marketCapToQuoteLiquidity := ratio (marketCap.getD 0) quoteLiquidity
    currentPriceUsd := priceCurrent
    returnSincePoolCreation := change priceCurrent priceInitial
    return15s := priceReturn allTrades at' 15
    return30s := priceReturn allTrades at' 30
    return60s := priceReturn allTrades at' 60
    rollingVwap30s := vwap30
    rollingVwap60s := vwap all60
    localHigh := localHigh
    drawdownFromLocalHigh := if localHigh > 0 then 1 - priceCurrent / localHigh else 0
    distanceFromVwap30s := if vwap30 > 0 then priceCurrent / vwap30 - 1 else 0
    holderCount := (currentHolders.map (·.holderCount)).getD 0
    holderGrowth30s := holderGrowth holderEvents at' 30
    holderGrowth60s := holderGrowth holderEvents at' 60
    top10HoldersPct := (currentHolders.map (·.top10HoldersPct)).getD 0
    devClusterHoldingPct := (currentHolders.map (·.devClusterHoldingPct)).getD 0
    largestRelatedClusterPct := (currentHolders.map (·.largestRelatedClusterPct)).getD 0 }

end SniperBot.Features
