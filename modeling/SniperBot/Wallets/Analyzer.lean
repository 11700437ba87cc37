import SniperBot.Features.Registry
import SniperBot.Wallets.Buyers
import SniperBot.Wallets.Relations

/-!
# The wallet analyzer

`WalletAnalyzer` (`wallet_analysis.py`): `observe` keeps the profiles of wallets, the outcomes of
the tokens that they created, the buyers of each mint and the relations between wallets. A profile
counts the outcomes of its wallet on top of a baseline, which `restore` takes from the database.

A relation belongs to a pair of wallets, not to a mint: each buy scores the pairs of its wallet with
the evidence of its own mint and stores every result that has some evidence.
-/

namespace SniperBot.Wallets

open Basis Features

/-! ## Events -/

/-- The payload entries that the analyzer reads. -/
structure WalletPayload where
  user : Option String := none
  creator : Option String := none
  initialFunder : Option String := none
  funder : Option String := none
  fundingSignature : Option String := none
  bundleId : Option String := none
  quoteAmountIn : Option ℚ := none
  baseAmountOut : Option ℚ := none
  tokenAmount : Option ℚ := none
  returnSincePoolCreation : Option ℚ := none
  liquidityChange30s : Option ℚ := none
  deriving DecidableEq, Repr

structure WalletEvent where
  eventId : String
  eventType : ChainEventType
  slot : Int
  mint : Option String
  blockTime : Time
  observedAt : Time
  payload : WalletPayload
  deriving DecidableEq, Repr

/-- `a or b` on two amounts -/
def orAmount (a b : Option ℚ) : Option ℚ := (a.filter (· ≠ 0)).orElse fun _ => b

namespace WalletEvent

variable (event : WalletEvent)

/-- `_text(payload.get("user") or payload.get("creator"))` -/
def wallet : Option String := text (orText event.payload.user event.payload.creator)

def creator : Option String := text event.payload.creator

def funder : Option String := text (orText event.payload.initialFunder event.payload.funder)

/-- `event.mint`, where an empty one counts as missing. -/
def mint? : Option String := event.mint.filter (· ≠ "")

def amount : ℚ :=
  (orAmount (orAmount event.payload.quoteAmountIn event.payload.baseAmountOut)
    event.payload.tokenAmount).getD 0

end WalletEvent

/-! ## Profiles -/

structure WalletProfile where
  walletAddress : String
  firstSeenAt : Time
  initialFunder : Option String := none
  fundingSignature : Option String := none
  knownCreator : Bool := false
  tokensCreatedTotal : Nat := 0
  tokensCreated7d : Nat := 0
  tokensCreated30d : Nat := 0
  tokensReachingPumpswap : Nat := 0
  tokensReaching2xExecutable : Nat := 0
  tokensWithLiquidityRug : Nat := 0
  tokensWithDevDump5m : Nat := 0
  medianPeakReturn : ℚ := 0
  medianTokenLifetimeSeconds : ℚ := 0
  medianDevSellDelaySeconds : ℚ := 0
  lastTokenCreatedAt : Option Time := none
  knownFundingCluster : Option String := none
  tokensTraded : Nat := 0
  profileUpdatedAt : Time
  deriving DecidableEq, Repr

structure TokenOutcome where
  mint : String
  creator : String
  createdAt : Time
  reachedPumpswap : Bool := false
  peakReturn : ℚ := 0
  liquidityRug : Bool := false
  devSellDelaySeconds : Option ℚ := none
  lifetimeSeconds : Option ℚ := none
  deriving DecidableEq, Repr

structure Analyzer where
  profiles : Dict String WalletProfile := Dict.empty
  baselines : Dict String WalletProfile := Dict.empty
  outcomes : Dict String TokenOutcome := Dict.empty
  relations : Dict (String × String) WalletRelation := Dict.empty
  books : Dict String BuyerState := Dict.empty
  seenEventIds : Finset String := ∅

/-- `restore` -/
def Analyzer.restore (a : Analyzer) (profiles : List WalletProfile)
    (relations : List WalletRelation) : Analyzer :=
  { a with
    profiles := profiles.foldl (fun d p => d.set p.walletAddress p) a.profiles
    baselines := profiles.foldl (fun d p => d.set p.walletAddress p) a.baselines
    relations := relations.foldl (fun d r => d.set (r.walletA, r.walletB) r) a.relations }

/-- The arguments of `_touch_profile` besides the wallet. -/
structure Touch where
  observedAt : Time
  initialFunder : Option String
  fundingSignature : Option String
  knownCreator : Bool

/-- The profile that `_touch_profile` leaves. -/
def touched (current : Option WalletProfile) (wallet : String) (touch : Touch) : WalletProfile :=
  match current with
  | none =>
      { walletAddress := wallet
        firstSeenAt := touch.observedAt
        initialFunder := touch.initialFunder
        fundingSignature := touch.fundingSignature
        knownCreator := touch.knownCreator
        profileUpdatedAt := touch.observedAt }
  | some current =>
      let newFunder := current.initialFunder = none ∧ touch.initialFunder ≠ none
      let newSignature := current.fundingSignature = none ∧ touch.fundingSignature ≠ none
      let newCreator := touch.knownCreator = true ∧ current.knownCreator = false
      if newFunder ∨ newSignature ∨ newCreator then
        { current with
          initialFunder := if newFunder then touch.initialFunder else current.initialFunder
          fundingSignature :=
            if newSignature then touch.fundingSignature else current.fundingSignature
          knownCreator := current.knownCreator || touch.knownCreator
          profileUpdatedAt := max current.profileUpdatedAt touch.observedAt }
      else current

/-- `_touch_profile` -/
def Analyzer.touchProfile (a : Analyzer) (wallet : String) (touch : Touch) : Analyzer :=
  { a with
    profiles := a.profiles.set wallet (touched (a.profiles.get? wallet) wallet touch) }

/-- `_median` -/
def median (values : List ℚ) : ℚ :=
  let sorted := sortedBy id values
  let half := sorted.length / 2
  if sorted.length = 0 then 0
  else if sorted.length % 2 = 1 then sorted.getD half 0
  else (sorted.getD (half - 1) 0 + sorted.getD half 0) / 2

def days (n : Int) : Int := seconds (n * 86400)

/-- The outcomes that a profile counts at an instant: those of its wallet, created by then and
after the last update of the baseline. -/
def countedOutcomes (baseline : Option WalletProfile) (outcomes : Dict String TokenOutcome)
    (wallet : String) (at' : Time) : List TokenOutcome :=
  outcomes.values.filter fun item =>
    item.creator = wallet ∧ item.createdAt ≤ at' ∧
      ∀ base ∈ baseline, item.createdAt > base.profileUpdatedAt

/-- A median of the baseline, if it has counted tokens, with the values of the outcomes. -/
def medianOver (baseline : Option WalletProfile) (field : WalletProfile → ℚ)
    (values : List ℚ) : ℚ :=
  median (((baseline.filter fun base => base.tokensCreatedTotal ≠ 0).map field).toList ++ values)

/-- The profile that `_rebuild_developer_profile` leaves. -/
def rebuiltProfile (profile : WalletProfile) (baseline : Option WalletProfile)
    (outcomes : List TokenOutcome) (at' : Time) : WalletProfile :=
  let base (field : WalletProfile → Nat) := (baseline.map field).getD 0
  { profile with
    knownCreator := !outcomes.isEmpty || profile.knownCreator
    tokensCreatedTotal := base (·.tokensCreatedTotal) + outcomes.length
    tokensCreated7d :=
      base (·.tokensCreated7d) + outcomes.countP fun item => item.createdAt ≥ at' - days 7
    tokensCreated30d :=
      base (·.tokensCreated30d) + outcomes.countP fun item => item.createdAt ≥ at' - days 30
    tokensReachingPumpswap :=
      base (·.tokensReachingPumpswap) + outcomes.countP fun item => item.reachedPumpswap
    tokensReaching2xExecutable :=
      base (·.tokensReaching2xExecutable) + outcomes.countP fun item => item.peakReturn ≥ 1
    tokensWithLiquidityRug :=
      base (·.tokensWithLiquidityRug) + outcomes.countP fun item => item.liquidityRug
    tokensWithDevDump5m := base (·.tokensWithDevDump5m) +
      outcomes.countP fun item => ∃ delay ∈ item.devSellDelaySeconds, delay ≤ 300
    medianPeakReturn := medianOver baseline (·.medianPeakReturn) (outcomes.map (·.peakReturn))
    medianTokenLifetimeSeconds := medianOver baseline (·.medianTokenLifetimeSeconds)
      (outcomes.filterMap (·.lifetimeSeconds))
    medianDevSellDelaySeconds := medianOver baseline (·.medianDevSellDelaySeconds)
      (outcomes.filterMap (·.devSellDelaySeconds))
    lastTokenCreatedAt :=
      (outcomes.map (·.createdAt) ++ (baseline.bind (·.lastTokenCreatedAt)).toList).max?
    profileUpdatedAt := at' }

/-- `_rebuild_developer_profile`: the profile, and the analyzer that holds it. -/
def Analyzer.rebuildDeveloperProfile (a : Analyzer) (wallet : String) (at' : Time) :
    WalletProfile × Analyzer :=
  let profile := (a.profiles.get? wallet).getD (touched none wallet ⟨at', none, none, true⟩)
  let baseline := a.baselines.get? wallet
  let rebuilt := rebuiltProfile profile baseline (countedOutcomes baseline a.outcomes wallet at') at'
  (rebuilt, { a with profiles := a.profiles.set wallet rebuilt })

/-- `profile` -/
def Analyzer.profile (a : Analyzer) (wallet : Option String) (at' : Time) :
    Option WalletProfile × Analyzer :=
  match wallet.filter (· ≠ "") with
  | none => (none, a)
  | some wallet =>
      if a.profiles.contains wallet then
        let (profile, next) := a.rebuildDeveloperProfile wallet at'
        (some profile, next)
      else (none, a)

/-! ## Outcomes -/

/-- What an event changes in the outcome of its mint, if anything. -/
def TokenOutcome.updated (outcome : TokenOutcome) (event : WalletEvent) : Option TokenOutcome :=
  let migrated := event.eventType = .migration ∨ event.eventType = .poolCreated
  let devSold := event.eventType = .swapSell ∧ event.wallet = some outcome.creator
  let peak := event.payload.returnSincePoolCreation.filter fun peak => peak > outcome.peakReturn
  let drained := ∃ change ∈ event.payload.liquidityChange30s, change ≤ -8 / 10
  if migrated ∨ devSold ∨ peak.isSome ∨ drained then
    some
      { outcome with
        reachedPumpswap := if migrated then true else outcome.reachedPumpswap
        devSellDelaySeconds :=
          if devSold then some (max 0 (totalSeconds (event.blockTime - outcome.createdAt)))
          else outcome.devSellDelaySeconds
        peakReturn := peak.getD outcome.peakReturn
        liquidityRug := if drained then true else outcome.liquidityRug }
  else none

/-! ## Relations -/

def sharedFunder (profiles : Dict String WalletProfile) (left right : String) : Bool :=
  match profiles.get? left, profiles.get? right with
  | some leftProfile, some rightProfile =>
      leftProfile.initialFunder.any fun funder =>
        funder ≠ "" ∧ rightProfile.initialFunder = some funder
  | _, _ => false

/-- The key of a pair: `sorted((wallet, other))` -/
def pairKey (wallet other : String) : String × String :=
  if wallet ≤ other then (wallet, other) else (other, wallet)

/-- Whether two wallets share a slot, a bundle, an amount. -/
def sharedItems (evidence : Dict String BuyerEvidence) (left right : String) :
    Bool × Bool × Bool :=
  let leftEvidence := (evidence.get? left).getD {}
  let rightEvidence := (evidence.get? right).getD {}
  (decide (leftEvidence.slots ∩ rightEvidence.slots ≠ ∅),
    decide (leftEvidence.bundles ∩ rightEvidence.bundles ≠ ∅),
    decide (leftEvidence.amounts ∩ rightEvidence.amounts ≠ ∅))

def pairEvidence (profiles : Dict String WalletProfile) (evidence : Dict String BuyerEvidence)
    (key : String × String) : RelationEvidence :=
  let (slot, bundle, amount) := sharedItems evidence key.1 key.2
  observedEvidence (sharedFunder profiles key.1 key.2) slot bundle amount

/-- The pairs that a buy of `wallet` evaluates, in the order of the loop. -/
def evaluatedPairs (wallet : String) (scope : List String) : List (String × String) :=
  if wallet ∈ scope then
    (sortedBy id (scope.filter (· ≠ wallet))).map (pairKey wallet)
  else []

/-- The body of the loop of `_recompute_relations`. -/
def storeRelation (profiles : Dict String WalletProfile) (evidence : Dict String BuyerEvidence)
    (state : Dict (String × String) WalletRelation × List WalletRelation)
    (key : String × String) : Dict (String × String) WalletRelation × List WalletRelation :=
  let relation := scoreRelation key.1 key.2 (pairEvidence profiles evidence key)
  if relation.evidence = [] then state
  else if state.1.get? key = some relation then state
  else (state.1.set key relation, state.2 ++ [relation])

/-- `_recompute_relations` for one affected wallet. -/
def recomputeRelations (profiles : Dict String WalletProfile)
    (relations : Dict (String × String) WalletRelation) (wallet : String) (state : RelationState) :
    Dict (String × String) WalletRelation × List WalletRelation :=
  if state.evidence.entries = [] then (relations, [])
  else (evaluatedPairs wallet state.scope).foldl (storeRelation profiles state.evidence)
    (relations, [])

/-! ## Observing an event -/

/-- The buy of an event: a swap with a mint and a wallet. -/
def WalletEvent.buy? (event : WalletEvent) : Option (String × Buy) :=
  if event.eventType = .swapBuy then
    event.mint?.bind fun mint => event.wallet.map fun wallet =>
      (mint,
        { at' := event.blockTime, wallet := wallet, amount := event.amount, slot := event.slot
          bundle := text event.payload.bundleId })
  else none

/-- The profile of the event's wallet: the analyzer, and the profile if it changed. -/
def Analyzer.observeWallet (a : Analyzer) (event : WalletEvent) : Analyzer × List WalletProfile :=
  match event.wallet with
  | none => (a, [])
  | some wallet =>
      let touch : Touch := ⟨event.observedAt, event.funder, text event.payload.fundingSignature,
        event.eventType = .tokenCreated⟩
      let profile := touched (a.profiles.get? wallet) wallet touch
      (a.touchProfile wallet touch,
        if a.profiles.get? wallet = some profile then [] else [profile])

/-- A created token gets an outcome, and its creator a new profile. -/
def Analyzer.observeCreation (a : Analyzer) (event : WalletEvent) :
    Analyzer × List WalletProfile :=
  match event.eventType, event.mint?, event.creator with
  | .tokenCreated, some mint, some creator =>
      let outcome : TokenOutcome := { mint := mint, creator := creator, createdAt := event.blockTime }
      let (profile, next) := { a with outcomes := a.outcomes.set mint outcome }
        |>.rebuildDeveloperProfile creator event.blockTime
      (next, [profile])
  | _, _, _ => (a, [])

/-- An event of a created token may change its outcome, and with it the profile of the creator. -/
def Analyzer.observeOutcome (a : Analyzer) (event : WalletEvent) : Analyzer × List WalletProfile :=
  let mint := event.mint.getD ""
  match (a.outcomes.get? mint).bind fun outcome => outcome.updated event with
  | none => (a, [])
  | some outcome =>
      let (profile, next) := { a with outcomes := a.outcomes.set mint outcome }
        |>.rebuildDeveloperProfile outcome.creator event.blockTime
      (next, [profile])

/-- A buy joins the buyers of its mint, and the pairs of its wallet are scored again. -/
def Analyzer.observeBuy (a : Analyzer) (event : WalletEvent) : Analyzer × List WalletRelation :=
  match event.buy? with
  | none => (a, [])
  | some (mint, buy) =>
      let (book, state) := observeBuyer ((a.books.get? mint).getD {}) buy
      let (relations, changed) := recomputeRelations a.profiles a.relations buy.wallet state
      ({ a with
          books := a.books.set mint book
          relations := relations }, changed)

/-- `{item.wallet_address: item for item in changed}.values()` -/
def lastPerWallet (changed : List WalletProfile) : List WalletProfile :=
  (changed.foldl (fun d p => d.set p.walletAddress p) (Dict.empty : Dict String _)).values

/-- `observe` -/
def Analyzer.observe (a : Analyzer) (event : WalletEvent) :
    Analyzer × List WalletProfile × List WalletRelation :=
  if event.eventId ∈ a.seenEventIds then (a, [], [])
  else
    let seen := { a with seenEventIds := insert event.eventId a.seenEventIds }
    let (touched, wallet) := seen.observeWallet event
    let (created, creation) := touched.observeCreation event
    let (updated, outcome) := created.observeOutcome event
    let (next, relations) := updated.observeBuy event
    (next, lastPerWallet (wallet ++ creation ++ outcome), relations)

end SniperBot.Wallets
