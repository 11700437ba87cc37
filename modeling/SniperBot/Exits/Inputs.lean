import SniperBot.Exits.Engine
import SniperBot.Features.Lockstep
import SniperBot.Features.Orientation
import SniperBot.Basis.Projection

/-!
# What an exit decision reads

The turn of the loop in `evaluate_and_close_exits` (`runtime.py`) for one position with a quote:
the momentum window, the sale of the developer and the emergency are read from the pool of the
first candidate of the mint, in the order of the dictionary. Of a pool they read the liquidity
and, of each trade, what `bareTrade` keeps.
-/

namespace SniperBot.Exits

open Basis Ledger Features Candidates

/-- What the loop reads of the configuration. -/
structure ExitSettings where
  policy : ExitPolicy := {}
  momentumExitWindows : Int := 2
  emergencyLiquidityDropPct : ℚ := 8 / 100

/-- The live process with `_momentum_windows`. -/
structure ExitProcess where
  live : LiveProcess := {}
  momentumWindows : Dict String Int := Dict.empty

/-- A position with its executable price; the limit is that of the daily loss or that of the
drawdown. -/
structure Evaluation where
  position : PositionRecord
  executablePrice : ℚ
  now : Time
  limitExceeded : Bool

/-- `next((item for item in candidates.values() if item.mint == mint), None)` -/
def firstCandidate (candidates : Dict String Candidate) (mint : String) : Option Candidate :=
  candidates.values.find? (·.mint = mint)

/-- `momentum_now` -/
def momentumNow (feature : Option Features.FeatureSnapshot) : Bool :=
  feature.any fun feature =>
    feature.buySellVolumeRatio < 8 / 10 ∧ feature.uniqueBuyers30s < feature.uniqueSellers30s

def liquidityDropped (settings : ExitSettings) (feature : Option Features.FeatureSnapshot) : Bool :=
  feature.any fun feature =>
    feature.quoteLiquidityChange30s ≤ -settings.emergencyLiquidityDropPct

/-- A trade in which the wallet sells after the position was opened. -/
def soldBy (wallet : String) (e : Evaluation) (trades : List TradeObservation) : Bool :=
  (trades.filter (·.eventTime ≤ e.now)).any fun trade =>
    trade.wallet = wallet ∧ trade.side = .sell ∧ e.position.openedAt ≤ trade.eventTime

/-- `dev_sold` -/
def devSold (memory : Memory) (candidate : Option Candidate) (e : Evaluation) : Bool :=
  match (creatorOf memory.tokens e.position.tokenMint).filter (· ≠ ""), candidate with
  | some wallet, some candidate =>
      soldBy wallet e (memory.features.tradesOf candidate.poolAddress)
  | _, _ => false

/-- The entry of `_momentum_windows` after a turn. -/
def countedWindows (momentum : Bool) (windows : Option Int) : Int :=
  if momentum then windows.getD 0 + 1 else 0

namespace ExitProcess

variable (s : ExitProcess) (e : Evaluation)

def candidate : Option Candidate := firstCandidate s.live.memory.candidates e.position.tokenMint

def feature : Option Features.FeatureSnapshot :=
  (s.candidate e).map fun candidate => s.live.memory.features.snapshot candidate.poolAddress e.now

/-- The momentum windows of the position, with this one. -/
def windows : Int :=
  countedWindows (momentumNow (s.feature e)) (s.momentumWindows.get? e.position.positionId)

/-- `evaluate_exit` with the momentum and the emergency of the turn. -/
def evaluated (settings : ExitSettings) : ExitDecision :=
  evaluateExit settings.policy e.position e.executablePrice e.now
    (settings.momentumExitWindows ≤ s.windows e)
    (e.limitExceeded || devSold s.live.memory (s.candidate e) e ||
      liquidityDropped settings (s.feature e))

end ExitProcess

inductive ExitStep
  | live (step : LiveStep)
  | evaluate (e : Evaluation)

def ExitProcess.step (config : PipelineConfig) (s : ExitProcess) : ExitStep → ExitProcess
  | .live step => { s with live := s.live.step config step }
  | .evaluate e =>
      { s with momentumWindows := s.momentumWindows.set e.position.positionId (s.windows e) }

/-- The decision of a step, if it is about the position. -/
def ExitProcess.decision (settings : ExitSettings) (positionId : String) (s : ExitProcess) :
    ExitStep → Option ExitDecision
  | .evaluate e => if e.position.positionId = positionId then some (s.evaluated e settings) else none
  | .live _ => none

/-! ## What is read of a trade -/

/-- A trade less its flags, which depend on the creator of the token and on the other buyers. -/
def bareTrade (trade : TradeObservation) : TradeObservation :=
  { trade with external := true, sameFunderCluster := false }

theorem filter_map_bare (p : TradeObservation → Bool) (hp : ∀ trade, p (bareTrade trade) = p trade)
    (trades : List TradeObservation) :
    (trades.map bareTrade).filter p = (trades.filter p).map bareTrade := by
  rw [List.filter_map]
  exact congrArg (List.map bareTrade) (List.filter_congr fun trade _ => hp trade)

theorem volume_map_bare (trades : List TradeObservation) :
    volume (trades.map bareTrade) = volume trades := by
  unfold volume
  rw [List.map_map]
  rfl

theorem distinctWallets_map_bare (trades : List TradeObservation) :
    distinctWallets (trades.map bareTrade) = distinctWallets trades := by
  unfold distinctWallets
  rw [List.map_map]
  rfl

theorem window_map_bare (at' : Time) (trades : List TradeObservation) (secs : Int) :
    window at' (trades.map bareTrade) secs = (window at' trades secs).map bareTrade :=
  filter_map_bare _ (fun _ => rfl) trades

theorem soldBy_map_bare (wallet : String) (e : Evaluation) (trades : List TradeObservation) :
    soldBy wallet e (trades.map bareTrade) = soldBy wallet e trades := by
  unfold soldBy
  rw [filter_map_bare _ fun _ => rfl, List.any_map]
  rfl

/-- The four figures of a snapshot that a decision reads depend on the bare trades and the
liquidity of the pool. -/
theorem snapshot_exit_congr {engine other : EventTimeFeatureEngine} {address : String}
    (htrades : (engine.tradesOf address).map bareTrade = (other.tradesOf address).map bareTrade)
    (hliquidity : engine.liquidityOf address = other.liquidityOf address) (at' : Time) :
    (engine.snapshot address at').buySellVolumeRatio =
        (other.snapshot address at').buySellVolumeRatio ∧
      (engine.snapshot address at').uniqueBuyers30s = (other.snapshot address at').uniqueBuyers30s ∧
      (engine.snapshot address at').uniqueSellers30s =
        (other.snapshot address at').uniqueSellers30s ∧
      (engine.snapshot address at').quoteLiquidityChange30s =
        (other.snapshot address at').quoteLiquidityChange30s := by
  have hside : ∀ side : TradeSide,
      (((engine.tradesOf address).filter (·.eventTime ≤ at')).filter (·.side = side)).map bareTrade =
        (((other.tradesOf address).filter (·.eventTime ≤ at')).filter (·.side = side)).map
          bareTrade := by
    intro side
    rw [← filter_map_bare (fun trade => decide (trade.side = side)) fun _ => rfl,
      ← filter_map_bare (fun trade => decide (trade.eventTime ≤ at')) fun _ => rfl, htrades,
      filter_map_bare _ fun _ => rfl, filter_map_bare _ fun _ => rfl]
  have hvolume : ∀ side : TradeSide,
      volume (window at' (((engine.tradesOf address).filter (·.eventTime ≤ at')).filter
          (·.side = side)) 60) =
        volume (window at' (((other.tradesOf address).filter (·.eventTime ≤ at')).filter
          (·.side = side)) 60) := by
    intro side
    rw [← volume_map_bare, ← window_map_bare, hside, window_map_bare, volume_map_bare]
  have hwallets : ∀ side : TradeSide,
      distinctWallets (window at' (((engine.tradesOf address).filter (·.eventTime ≤ at')).filter
          (·.side = side)) 30) =
        distinctWallets (window at' (((other.tradesOf address).filter (·.eventTime ≤ at')).filter
          (·.side = side)) 30) := by
    intro side
    rw [← distinctWallets_map_bare, ← window_map_bare, hside, window_map_bare,
      distinctWallets_map_bare]
  refine ⟨?_, hwallets .buy, hwallets .sell, ?_⟩
  · show volume _ / max (volume _) (1 / 100) = volume _ / max (volume _) (1 / 100)
    rw [hvolume .buy, hvolume .sell]
  · show liquidityChange ((engine.liquidityOf address).filter _) at' 30 =
      liquidityChange ((other.liquidityOf address).filter _) at' 30
    rw [hliquidity]

end SniperBot.Exits
