import SniperBot.Domain
import SniperBot.Basis.Dict
import SniperBot.Basis.Ranking
import SniperBot.Basis.Run
import Mathlib.Data.Prod.Lex
import Mathlib.Data.String.Basic
import Mathlib.Data.Finset.Insert
import Mathlib.Algebra.Order.Ring.Rat

/-!
# Buyers of a mint

`WalletAnalyzer` (`wallet_analysis.py`) keeps for every mint its buys in the order of time and
wallet, the evidence of each buyer, the first twenty buyers and the twenty with the largest volume.
A buy that comes in order extends this state (`_observe_buyer`, `_update_top_volume`); a buy that
is earlier than the last one rebuilds it (`_rebuild_buyer_state`).

Both ways give the state that a rebuild from the sorted buys gives (`run_buyer_state`). For the
twenty largest volumes this rests on the sign of the amounts: a volume never falls, so a wallet
that was dropped can only come back with a buy of its own.
-/

namespace SniperBot.Wallets

open Basis

/-- A buy as stored in `_buyers`. -/
structure Buy where
  at' : Time
  wallet : String
  amount : ℚ
  slot : Int
  bundle : Option String
  deriving DecidableEq

/-- `(at, wallet)` -/
def Buy.orderKey (buy : Buy) : Time ×ₗ String := toLex (buy.at', buy.wallet)

/-- `_BuyerEvidence` -/
structure BuyerEvidence where
  totalAmount : ℚ := 0
  slots : Finset Int := ∅
  bundles : Finset String := ∅
  amounts : Finset ℚ := ∅
  deriving DecidableEq

/-- `_accumulate_evidence` -/
def BuyerEvidence.accumulate (evidence : BuyerEvidence) (buy : Buy) : BuyerEvidence where
  totalAmount := evidence.totalAmount + buy.amount
  slots := insert buy.slot evidence.slots
  bundles := match buy.bundle with
    | some bundle => if bundle ≠ "" then insert bundle evidence.bundles else evidence.bundles
    | none => evidence.bundles
  amounts := if buy.amount > 0 then insert buy.amount evidence.amounts else evidence.amounts

/-- What the loops over the buys collect. -/
structure BuyerScan where
  evidence : Dict String BuyerEvidence := Dict.empty
  firstOrder : List String := []
  firstMembers : Finset String := ∅

/-- The body of the loops: the evidence of the buyer, and the first twenty buyers. -/
def BuyerScan.add (scan : BuyerScan) (buy : Buy) : BuyerScan :=
  let evidence := (scan.evidence.get? buy.wallet).getD {}
  let scanned :=
    { scan with evidence := scan.evidence.set buy.wallet (evidence.accumulate buy) }
  if buy.wallet ∉ scan.firstMembers ∧ scan.firstMembers.card < 20 then
    { scanned with
      firstMembers := insert buy.wallet scan.firstMembers
      firstOrder := scan.firstOrder ++ [buy.wallet] }
  else scanned

/-- `(-total_amount, wallet)` -/
def volumeKey (evidence : Dict String BuyerEvidence) (wallet : String) : ℚ ×ₗ String :=
  toLex (-((evidence.get? wallet).getD {}).totalAmount, wallet)

/-- The first twenty of `sorted(evidence_by_wallet.items(), …)`. -/
def topVolumeOf (evidence : Dict String BuyerEvidence) : List String :=
  best 20 (volumeKey evidence) evidence.keys

/-- The state of one mint. -/
structure BuyerState where
  buyers : List Buy := []
  scan : BuyerScan := {}
  topVolume : List String := []
  lastOrderKey : Option (Time ×ₗ String) := none

/-- `_rebuild_buyer_state` -/
def rebuildBuyerState (buyers : List Buy) (lastOrderKey : Option (Time ×ₗ String)) : BuyerState :=
  let scan := buyers.foldl BuyerScan.add {}
  { buyers := buyers
    scan := scan
    topVolume := topVolumeOf scan.evidence
    lastOrderKey := match buyers.getLast? with
      | some latest => some latest.orderKey
      | none => lastOrderKey }

/-- The evidence that a buy is compared with, and the wallets in scope. -/
structure RelationState where
  evidence : Dict String BuyerEvidence
  scope : List String

/-- `_historical_buyer_state` -/
def historicalBuyerState (buyers : List Buy) (at' : Time) : RelationState :=
  let scan := (buyers.takeWhile fun buy => buy.at' ≤ at').foldl BuyerScan.add {}
  { evidence := scan.evidence
    scope := scan.firstOrder ∪ topVolumeOf scan.evidence }

/-- `_relation_scope` -/
def BuyerState.relationScope (s : BuyerState) : List String := s.scan.firstOrder ∪ s.topVolume

/-- `_update_top_volume`, once the evidence of the wallet is updated. -/
def updateTopVolume (evidence : Dict String BuyerEvidence) (topVolume : List String)
    (wallet : String) : List String :=
  let others := topVolume.erase wallet
  if others.length < 20 ∨
      ∃ last ∈ others.getLast?, volumeKey evidence wallet < volumeKey evidence last then
    (sortedBy (volumeKey evidence) (others ++ [wallet])).take 20
  else others

/-- `_observe_buyer` -/
def observeBuyer (s : BuyerState) (buy : Buy) : BuyerState × RelationState :=
  let buyers := s.buyers ++ [buy]
  if ∃ last ∈ s.lastOrderKey, buy.orderKey < last then
    let sorted := sortedBy Buy.orderKey buyers
    (rebuildBuyerState sorted s.lastOrderKey, historicalBuyerState sorted buy.at')
  else
    let scan := s.scan.add buy
    let next : BuyerState :=
      { buyers := buyers
        scan := scan
        topVolume := updateTopVolume scan.evidence s.topVolume buy.wallet
        lastOrderKey := some buy.orderKey }
    (next, ⟨scan.evidence, next.relationScope⟩)

/-! ## From scratch -/

/-- The state computed from all buys of a mint, sorted by time and wallet. -/
def fromScratch (buys : List Buy) : BuyerState :=
  rebuildBuyerState (sortedBy Buy.orderKey buys) none

section Scan

variable {scan : BuyerScan} {buy : Buy}

@[simp] theorem add_evidence : (scan.add buy).evidence =
    scan.evidence.set buy.wallet
      (((scan.evidence.get? buy.wallet).getD {}).accumulate buy) := by
  unfold BuyerScan.add
  dsimp only
  split <;> rfl

/-- The volume key names its wallet. -/
theorem volumeKey_injective (evidence : Dict String BuyerEvidence) :
    Function.Injective (volumeKey evidence) :=
  fun _ _ h => (Prod.mk.inj (toLex.injective h)).2

/-- A buy changes the volume of its wallet only, and does not lower it. -/
theorem volumeKey_add_ne {wallet : String} (h : wallet ≠ buy.wallet) :
    volumeKey (scan.add buy).evidence wallet = volumeKey scan.evidence wallet := by
  rw [volumeKey, volumeKey, add_evidence, Dict.get?_set_ne _ (Ne.symm h)]

theorem volumeKey_add_le (h : 0 ≤ buy.amount) :
    volumeKey (scan.add buy).evidence buy.wallet ≤ volumeKey scan.evidence buy.wallet := by
  rw [volumeKey, volumeKey, add_evidence, Dict.get?_set_self, Option.getD_some,
    BuyerEvidence.accumulate]
  refine Prod.Lex.toLex_mono ⟨?_, le_rfl⟩
  exact neg_le_neg (le_add_of_nonneg_right h)

theorem mem_keys_add {wallet : String} : wallet ∈ (scan.add buy).evidence.keys ↔
    wallet ∈ scan.evidence.keys ∨ wallet = buy.wallet := by
  rw [add_evidence, Dict.mem_keys, Dict.mem_keys, Dict.get?_set]
  by_cases h : buy.wallet = wallet
  · simp [h]
  · simp [h, Ne.symm h]

/-- The list of the largest volumes is kept up by `_update_top_volume`. -/
theorem updateTopVolume_eq (h : 0 ≤ buy.amount) :
    updateTopVolume (scan.add buy).evidence (topVolumeOf scan.evidence) buy.wallet =
      topVolumeOf (scan.add buy).evidence := by
  have hbest := best_isBest 20 (volumeKey_injective scan.evidence) scan.evidence.nodup
  have hnext := hbest.promote buy.wallet (fun _ hne => volumeKey_add_ne hne)
    (fun _ => volumeKey_add_le h) (volumeKey_injective (scan.add buy).evidence)
    (scan.add buy).evidence.keys (fun _ => mem_keys_add)
  exact hnext.eq_best (volumeKey_injective _) (scan.add buy).evidence.nodup

end Scan

/-! ## One buy -/

/-- Without buys the state is the initial one. -/
theorem fromScratch_nil : fromScratch [] = {} := by
  simp [fromScratch, rebuildBuyerState, sortedBy, topVolumeOf, best, Dict.keys, Dict.empty]

/-- The stored buys are sorted, and the last key is that of the last one. -/
theorem fromScratch_lastOrderKey (buys : List Buy) : (fromScratch buys).lastOrderKey =
    (sortedBy Buy.orderKey buys).getLast?.map Buy.orderKey := by
  simp only [fromScratch, rebuildBuyerState]
  cases (sortedBy Buy.orderKey buys).getLast? with
  | none => rfl
  | some => rfl

/-- A buy that is not before the last one comes after all of them. -/
theorem orderKey_le_of_in_order {buys : List Buy} {buy : Buy}
    (h : ¬ ∃ last ∈ (fromScratch buys).lastOrderKey, buy.orderKey < last) :
    ∀ b ∈ buys, b.orderKey ≤ buy.orderKey := by
  intro b hb
  have hmem : b ∈ sortedBy Buy.orderKey buys := mem_sortedBy.mpr hb
  have hsorted := sortedBy_sorted Buy.orderKey buys
  rw [fromScratch_lastOrderKey] at h
  cases hlast : (sortedBy Buy.orderKey buys).getLast? with
  | none =>
      rw [List.getLast?_eq_none_iff.mp hlast] at hmem
      cases hmem
  | some last =>
      obtain ⟨front, hfront⟩ := List.getLast?_eq_some_iff.mp hlast
      rw [hlast] at h
      have hle : last.orderKey ≤ buy.orderKey :=
        not_lt.mp fun hlt => h ⟨last.orderKey, rfl, hlt⟩
      rw [hfront] at hmem hsorted
      rcases List.mem_append.mp hmem with hearlier | hself
      · exact ((List.pairwise_append.mp hsorted).2.2 b hearlier last
          (List.mem_singleton_self _)).trans hle
      · rw [List.mem_singleton.mp hself]
        exact hle

/-- With buys in it the rebuild takes the last key from them. -/
theorem rebuildBuyerState_of_ne_nil {buyers : List Buy} (h : buyers ≠ [])
    (key : Option (Time ×ₗ String)) : rebuildBuyerState buyers key = rebuildBuyerState buyers none := by
  unfold rebuildBuyerState
  cases hlast : buyers.getLast? with
  | none => exact absurd (List.getLast?_eq_none_iff.mp hlast) h
  | some => rfl

/-- Whether a buy comes in order or not, the state is that of a rebuild from all buys. -/
theorem observeBuyer_fromScratch (buys : List Buy) {buy : Buy} (hamount : 0 ≤ buy.amount) :
    (observeBuyer (fromScratch buys) buy).1 = fromScratch (buys ++ [buy]) := by
  unfold observeBuyer
  split
  · -- out of order: the buys are sorted again
    have hsome : sortedBy Buy.orderKey (buys ++ [buy]) ≠ [] := by
      intro hnil
      have hlength := (sortedBy_perm Buy.orderKey (buys ++ [buy])).length_eq
      rw [hnil, List.length_append] at hlength
      cases hlength
    show rebuildBuyerState (sortedBy Buy.orderKey (sortedBy Buy.orderKey buys ++ [buy])) _ =
      rebuildBuyerState (sortedBy Buy.orderKey (buys ++ [buy])) none
    rw [sortedBy_append_sorted, rebuildBuyerState_of_ne_nil hsome]
  · rename_i horder
    have hsort : sortedBy Buy.orderKey (buys ++ [buy]) = sortedBy Buy.orderKey buys ++ [buy] :=
      sortedBy_concat (orderKey_le_of_in_order horder)
    have hnew : fromScratch (buys ++ [buy]) =
        { buyers := sortedBy Buy.orderKey buys ++ [buy]
          scan := (fromScratch buys).scan.add buy
          topVolume := topVolumeOf ((fromScratch buys).scan.add buy).evidence
          lastOrderKey := some buy.orderKey } := by
      simp only [fromScratch, rebuildBuyerState, hsort, List.foldl_append, List.foldl_cons,
        List.foldl_nil, List.getLast?_append, List.getLast?_singleton, Option.some_or]
    rw [hnew, ← updateTopVolume_eq hamount]
    rfl

/-! ## Runs -/

/-- A buy is observed in the state of its mint. -/
def observeBuy (books : Dict String BuyerState) (observed : String × Buy) :
    Dict String BuyerState :=
  books.set observed.1 (observeBuyer ((books.get? observed.1).getD {}) observed.2).1

/-- The buys of a mint, in the order of arrival. -/
def buysOf (mint : String) (observed : List (String × Buy)) : List Buy :=
  (observed.filter fun o => o.1 = mint).map (·.2)

/-- After every sequence of buys with non-negative amounts, of any mints and in any order of
arrival, the evidence of each wallet, the first twenty buyers and the twenty largest volumes of a
mint are those computed from scratch from its buys, sorted by time and wallet. -/
theorem run_buyer_state (observed : List (String × Buy)) (hamount : ∀ o ∈ observed, 0 ≤ o.2.amount)
    (mint : String) :
    ((exec observeBuy Dict.empty observed).get? mint).getD {} =
      fromScratch (buysOf mint observed) := by
  induction observed using List.reverseRecOn with
  | nil => exact fromScratch_nil.symm
  | append_singleton earlier o ih =>
      have hbuys : buysOf mint (earlier ++ [o]) =
          buysOf mint earlier ++ if o.1 = mint then [o.2] else [] := by
        unfold buysOf
        rw [List.filter_append, List.map_append]
        by_cases h : o.1 = mint
        · simp [h]
        · simp [h]
      have hearlier := ih fun p hp => hamount p (List.mem_append_left _ hp)
      rw [exec_append, exec_cons, exec_nil, observeBuy, Dict.get?_set, hbuys]
      by_cases h : o.1 = mint
      · rw [if_pos h, if_pos h, Option.getD_some, h, hearlier]
        exact observeBuyer_fromScratch _ (hamount o (List.mem_append_right _ List.mem_cons_self))
      · rw [if_neg h, if_neg h, List.append_nil]
        exact hearlier

/-- Buys of two mints; the third comes late and the first buyer buys again. -/
def lateBuys : List (String × Buy) :=
  [("MINT", ⟨seconds 2, "alice", 5, 10, none⟩), ("OTHER", ⟨seconds 2, "alice", 1, 10, none⟩),
    ("MINT", ⟨seconds 1, "bob", 3, 9, some "bundle"⟩), ("MINT", ⟨seconds 3, "bob", 4, 11, none⟩)]

theorem run_buyer_state_lateBuys :
    (fromScratch (buysOf "MINT" lateBuys)).topVolume = ["bob", "alice"] ∧
    ((exec observeBuy Dict.empty lateBuys).get? "MINT").getD {} =
      fromScratch (buysOf "MINT" lateBuys) :=
  ⟨by decide +kernel, run_buyer_state lateBuys (by decide +kernel) "MINT"⟩

end SniperBot.Wallets
