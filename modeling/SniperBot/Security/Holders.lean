import SniperBot.Basis.Dict
import SniperBot.Basis.Ranking
import SniperBot.Basis.Rounding
import SniperBot.Basis.Text
import SniperBot.Security.Addresses
import SniperBot.Security.Engine

/-!
# Holder concentration

`aggregate_holders` (`security.py`) adds up the balances of each owner over its token accounts,
leaves out the accounts of the pool and of programs, and compares the largest balances and those of
groups of wallets with the supply. The accounts come from `get_all_holders` (`solana_rpc.py`), which
demands that they sum to the supply.

The metrics do not depend on the order of the accounts or on how an owner spreads its balance over
accounts (`aggregateHolders_fair`), and with complete accounts every share is a part of one.

Raw amounts are whole token units of 64 bits (`u64` on the chain), whose sums are therefore exact in
the 28 digits of the decimal context; a share is a quotient and is rounded to that precision.
-/

namespace SniperBot.Security

open Basis

structure HolderBalance where
  tokenAccount : String
  owner : Option String
  amountRaw : ℚ
  isSystem : Bool := false
  nonneg : 0 ≤ amountRaw

/-- The digits of the decimal context. -/
def precision : ℕ := 28

/-! ## Accounts of the index -/

/-- An item of a page, its fields as text without blanks around; no amount where the text is not a
decimal number of at least zero. -/
structure TokenAccountItem where
  address : String
  owner : String
  amount : Option {amount : ℚ // 0 ≤ amount}

/-- An answer of `getTokenAccounts`; a field of another type is missing. -/
structure TokenAccountsPage where
  tokenAccounts : Option (List (Option TokenAccountItem))
  lastIndexedSlot : Option Int
  cursor : Option String

inductive HolderIndexError
  | unavailable | incompleteResponse | invalidItem | incompleteItem | invalidAmount | stuckCursor
  | noSlot | stale | supplyMismatch
  /-- The next page has not been answered. -/
  | waiting
  deriving DecidableEq, Repr

/-- The accounts read so far. -/
structure IndexRead where
  seenAccounts : List String := []
  holders : List HolderBalance := []

/-- The body of the loop over the items of a page. -/
def readItem (read : IndexRead) (item : Option TokenAccountItem) : Except HolderIndexError IndexRead :=
  match item with
  | none => .error .invalidItem
  | some account =>
      if account.address = "" ∨ account.owner = "" ∨ account.address ∈ read.seenAccounts then
        .error .incompleteItem
      else match account.amount with
        | none => .error .invalidAmount
        | some amount => .ok
            { seenAccounts := read.seenAccounts ++ [account.address]
              holders := read.holders ++
                [{ tokenAccount := account.address, owner := some account.owner
                   amountRaw := amount.1, nonneg := amount.2 }] }

/-- The loop over the pages, as they are answered. -/
def readPages (seenCursors : List String) (slots : List Int) (read : IndexRead) :
    List (Option TokenAccountsPage) → Except HolderIndexError (IndexRead × List Int)
  | [] => .error .waiting
  | none :: _ => .error .unavailable
  | some page :: pages => do
      let some accounts := page.tokenAccounts | .error .incompleteResponse
      let some slot := page.lastIndexedSlot | .error .incompleteResponse
      let read ← accounts.foldlM readItem read
      match page.cursor.filter (Text.strip · ≠ "") with
      | none => return (read, slots ++ [slot])
      | some cursor =>
          if cursor ∈ seenCursors then .error .stuckCursor
          else readPages (seenCursors ++ [cursor]) (slots ++ [slot]) read pages

/-- `get_all_holders`, from the answers of the index and the confirmed slot. -/
def getAllHolders (pages : List (Option TokenAccountsPage)) (currentSlot : Option Int)
    (expectedSupplyRaw : ℚ) (maximumIndexSlotLag : Int) : Except HolderIndexError (List HolderBalance) := do
  let (read, slots) ← readPages [] [] {} pages
  let some current := currentSlot | .error .noSlot
  let some oldest := slots.min? | .error .noSlot
  if current - oldest > maximumIndexSlotLag then .error .stale
  else if (read.holders.map (·.amountRaw)).sum ≠ expectedSupplyRaw then .error .supplyMismatch
  else return read.holders

/-- The holders of an answer sum to the supply. -/
theorem getAllHolders_sum {pages : List (Option TokenAccountsPage)} {currentSlot : Option Int}
    {expectedSupplyRaw : ℚ} {maximumIndexSlotLag : Int} {holders : List HolderBalance}
    (h : getAllHolders pages currentSlot expectedSupplyRaw maximumIndexSlotLag = .ok holders) :
    (holders.map (·.amountRaw)).sum = expectedSupplyRaw := by
  unfold getAllHolders at h
  cases hread : readPages [] [] {} pages with
  | error e => rw [hread] at h; cases h
  | ok result =>
      obtain ⟨read, slots⟩ := result
      rw [hread] at h
      cases currentSlot with
      | none => cases h
      | some current =>
          cases holdest : slots.min? with
          | none => simp only [holdest, bind, Except.bind] at h; cases h
          | some oldest =>
              simp only [holdest, bind, Except.bind] at h
              split at h
              · cases h
              · split at h
                · cases h
                · rename_i hsum
                  cases h
                  exact not_not.mp hsum

/-! ## Aggregation -/

/-- The accounts that the loop passes over. -/
def Skipped (excluded : Finset String) (account : HolderBalance) : Prop :=
  account.isSystem = true ∨ account.tokenAccount ∈ excluded ∨
    (∃ owner ∈ account.owner, owner ∈ excluded) ∨ isProgramOrBurnOwner account.owner = true

instance (excluded : Finset String) (account : HolderBalance) :
    Decidable (Skipped excluded account) := inferInstanceAs (Decidable (_ ∨ _))

/-- The sums of the loop: `balances` and `unknown`. -/
structure Balances where
  byOwner : Dict String ℚ
  unknown : ℚ

namespace Balances

/-- The body of the loop. -/
def add (excluded : Finset String) (b : Balances) (account : HolderBalance) : Balances :=
  if Skipped excluded account then b
  else match account.owner with
    | none => { b with unknown := b.unknown + account.amountRaw }
    | some owner =>
        { b with byOwner :=
            b.byOwner.set owner ((b.byOwner.get? owner).getD 0 + account.amountRaw) }

def ofHolders (excluded : Finset String) (holders : List HolderBalance) : Balances :=
  holders.foldl (add excluded) ⟨Dict.empty, 0⟩

/-- `balances.get(wallet, 0)` -/
def of (b : Balances) (wallet : String) : ℚ := (b.byOwner.get? wallet).getD 0

/-- `sorted(balances.values(), reverse=True)` -/
def ranked (b : Balances) : List ℚ := (sortedBy id b.byOwner.values).reverse

end Balances

/-- The groups of wallets that `aggregate_holders` is called with. -/
structure HolderGroups where
  devWallet : Option String := none
  devCluster : Option (Finset String) := none
  relatedCluster : Option (Finset String) := none
  earlyBuyers : Option (Finset String) := none
  systemAddresses : Option (Finset String) := none

/-- `share` -/
def share (totalSupplyRaw amount : ℚ) : ℚ :=
  if 0 < totalSupplyRaw then significant precision (amount / totalSupplyRaw) else 0

/-- `wallet_share` -/
def walletShare (totalSupplyRaw : ℚ) (b : Balances) (wallets : Option (Finset String)) : ℚ :=
  share totalSupplyRaw (∑ wallet ∈ wallets.getD ∅, b.of wallet)

/-- The metrics that are read off the balances. -/
def metricsOf (totalSupplyRaw : ℚ) (groups : HolderGroups) (b : Balances) : HolderMetrics where
  largestHolderPct := (b.ranked.head?.map (share totalSupplyRaw)).getD 0
  top5HoldersPct := share totalSupplyRaw (b.ranked.take 5).sum
  top10HoldersPct := share totalSupplyRaw (b.ranked.take 10).sum
  devHoldingPct :=
    ((groups.devWallet.filter (· ≠ "")).map fun wallet => share totalSupplyRaw (b.of wallet)).getD 0
  devClusterHoldingPct := walletShare totalSupplyRaw b groups.devCluster
  earlyBuyersHoldingPct := walletShare totalSupplyRaw b groups.earlyBuyers
  relatedClusterHoldingPct := walletShare totalSupplyRaw b groups.relatedCluster
  unknownOwnerSupplyPct := share totalSupplyRaw b.unknown
  holderCount := (b.byOwner.values.filter (0 < ·)).length

/-- `aggregate_holders`, which raises without a supply. -/
def aggregateHolders (holders : List HolderBalance) (totalSupplyRaw : ℚ) (groups : HolderGroups) :
    Except String HolderMetrics :=
  if totalSupplyRaw ≤ 0 then .error "total supply must be positive"
  else .ok (metricsOf totalSupplyRaw groups
    (.ofHolders (groups.systemAddresses.getD ∅) holders))

/-! ## Sums of accounts -/

section Sums

variable {excluded : Finset String} {holders : List HolderBalance}

/-- The counted accounts of an owner, or those without an owner. -/
def accountsOf (excluded : Finset String) (owner : Option String) (holders : List HolderBalance) :
    List HolderBalance :=
  holders.filter fun account => ¬ Skipped excluded account ∧ account.owner = owner

def amounts (holders : List HolderBalance) : ℚ := (holders.map (·.amountRaw)).sum

theorem amounts_nonneg (holders : List HolderBalance) : 0 ≤ amounts holders :=
  List.sum_nonneg fun amount hamount => by
    obtain ⟨account, -, rfl⟩ := List.mem_map.mp hamount
    exact account.nonneg

theorem amounts_append (first second : List HolderBalance) :
    amounts (first ++ second) = amounts first + amounts second := by
  rw [amounts, List.map_append, List.sum_append]
  rfl

theorem amounts_perm {holders holders' : List HolderBalance} (h : holders.Perm holders') :
    amounts holders = amounts holders' := (h.map _).sum_eq

theorem amounts_cons (account : HolderBalance) (holders : List HolderBalance) :
    amounts (account :: holders) = account.amountRaw + amounts holders := by
  rw [amounts, List.map_cons, List.sum_cons]
  rfl

theorem accountsOf_cons (excluded : Finset String) (owner : Option String)
    (account : HolderBalance) (holders : List HolderBalance) :
    accountsOf excluded owner (account :: holders) =
      if ¬ Skipped excluded account ∧ account.owner = owner then
        account :: accountsOf excluded owner holders
      else accountsOf excluded owner holders := by
  rw [accountsOf, List.filter_cons]
  simp only [decide_eq_true_eq]
  rfl

theorem accountsOf_append (excluded : Finset String) (owner : Option String)
    (first second : List HolderBalance) : accountsOf excluded owner (first ++ second) =
      accountsOf excluded owner first ++ accountsOf excluded owner second :=
  List.filter_append first second

theorem accountsOf_perm (excluded : Finset String) (owner : Option String)
    {holders holders' : List HolderBalance} (h : holders.Perm holders') :
    (accountsOf excluded owner holders).Perm (accountsOf excluded owner holders') := h.filter _

/-- An account adds its amount to the balance of its owner. -/
theorem get?_add (b : Balances) (account : HolderBalance) (wallet : String) :
    (b.add excluded account).byOwner.get? wallet =
      if ¬ Skipped excluded account ∧ account.owner = some wallet then
        some (b.of wallet + account.amountRaw)
      else b.byOwner.get? wallet := by
  unfold Balances.add
  by_cases hskipped : Skipped excluded account
  · rw [if_pos hskipped, if_neg fun h => h.1 hskipped]
  · rw [if_neg hskipped]
    cases howner : account.owner with
    | none => rw [if_neg (by rintro ⟨-, ⟨⟩⟩)]
    | some owner =>
        simp only [Dict.get?_set, hskipped, not_false_eq_true, true_and, Option.some.injEq]
        split
        · rename_i heq
          rw [heq]
          rfl
        · rfl

/-- The balance of an owner is the sum of its counted accounts. -/
theorem get?_foldl_add (b : Balances) (wallet : String) :
    (holders.foldl (Balances.add excluded) b).byOwner.get? wallet =
      if accountsOf excluded (some wallet) holders = [] then b.byOwner.get? wallet
      else some (b.of wallet + amounts (accountsOf excluded (some wallet) holders)) := by
  induction holders generalizing b with
  | nil => rfl
  | cons account holders ih =>
      rw [List.foldl_cons, ih, accountsOf_cons, Balances.of, get?_add]
      by_cases hcounted : ¬ Skipped excluded account ∧ account.owner = some wallet
      · rw [if_pos hcounted, if_pos hcounted, if_neg (List.cons_ne_nil _ _), amounts_cons]
        split
        · rename_i hnil
          rw [hnil]
          exact congrArg some (congrArg _ (add_zero _).symm)
        · exact congrArg some (add_assoc _ _ _)
      · rw [if_neg hcounted, if_neg hcounted]
        rfl

/-- The amounts without an owner. -/
theorem unknown_foldl_add (b : Balances) :
    (holders.foldl (Balances.add excluded) b).unknown =
      b.unknown + amounts (accountsOf excluded none holders) := by
  induction holders generalizing b with
  | nil => exact (add_zero _).symm
  | cons account holders ih =>
      rw [List.foldl_cons, ih, accountsOf_cons, Balances.add]
      by_cases hskipped : Skipped excluded account
      · rw [if_pos hskipped, if_neg fun h => h.1 hskipped]
      · rw [if_neg hskipped]
        cases howner : account.owner with
        | none => rw [if_pos ⟨hskipped, rfl⟩, amounts_cons, add_assoc]
        | some owner => rw [if_neg fun h => nomatch h.2]

/-- The balances and the unknown amounts are amounts of accounts. -/
theorem total_foldl_add (excluded : Finset String) (holders : List HolderBalance) (b : Balances) :
    Dict.total (fun _ balance => balance) (holders.foldl (Balances.add excluded) b).byOwner +
        (holders.foldl (Balances.add excluded) b).unknown ≤
      Dict.total (fun _ balance => balance) b.byOwner + b.unknown + amounts holders := by
  induction holders generalizing b with
  | nil => exact (add_zero _).ge
  | cons account holders ih =>
      refine (ih (b.add excluded account)).trans ?_
      rw [amounts_cons, ← add_assoc]
      refine add_le_add_left ?_ _
      have hamount := account.nonneg
      unfold Balances.add
      split
      · exact le_add_of_nonneg_right hamount
      · split
        · exact (add_assoc _ _ _).ge
        · rename_i owner _
          cases hget : b.byOwner.get? owner with
          | none =>
              simp only [Dict.total_set_new _ hget, Option.getD_none]
              linarith
          | some old =>
              have hset := Dict.total_set_old (fun _ balance => balance) hget (old + account.amountRaw)
              simp only [Option.getD_some]
              linarith

end Sums

/-! ## What the metrics depend on -/

section Dependence

variable {holders holders' : List HolderBalance}

/-- The metrics are a function of the balance of each owner and the unknown amount. -/
theorem metricsOf_congr (totalSupplyRaw : ℚ) (groups : HolderGroups) (b b' : Balances)
    (h : ∀ wallet, b.byOwner.get? wallet = b'.byOwner.get? wallet) (hunknown : b.unknown = b'.unknown) :
    metricsOf totalSupplyRaw groups b = metricsOf totalSupplyRaw groups b' := by
  have hvalues : b.byOwner.values.Perm b'.byOwner.values := (Dict.entries_perm h).map _
  have hranked : b.ranked = b'.ranked := by
    rw [Balances.ranked, Balances.ranked, sortedBy_id_eq_of_perm hvalues]
  have hof : b.of = b'.of := funext fun wallet => congrArg (·.getD 0) (h wallet)
  have hcount := (hvalues.filter fun amount => decide (0 < amount)).length_eq
  simp only [metricsOf, walletShare, hranked, hof, hunknown, hcount]

/-- Accounts with the same balances for each owner, and as much without an owner, have the same
metrics. -/
theorem aggregateHolders_congr (totalSupplyRaw : ℚ) (groups : HolderGroups)
    (hknown : ∀ owner, accountsOf (groups.systemAddresses.getD ∅) owner holders = [] ↔
      accountsOf (groups.systemAddresses.getD ∅) owner holders' = [])
    (hamounts : ∀ owner, amounts (accountsOf (groups.systemAddresses.getD ∅) owner holders) =
      amounts (accountsOf (groups.systemAddresses.getD ∅) owner holders')) :
    aggregateHolders holders totalSupplyRaw groups =
      aggregateHolders holders' totalSupplyRaw groups := by
  have hmetrics := metricsOf_congr totalSupplyRaw groups
    (.ofHolders (groups.systemAddresses.getD ∅) holders)
    (.ofHolders (groups.systemAddresses.getD ∅) holders')
    (fun wallet => by
      simp only [Balances.ofHolders, get?_foldl_add, hknown, hamounts])
    (by simp only [Balances.ofHolders, unknown_foldl_add, hamounts])
  rw [aggregateHolders, aggregateHolders, hmetrics]

theorem aggregateHolders_perm (h : holders.Perm holders') (totalSupplyRaw : ℚ)
    (groups : HolderGroups) : aggregateHolders holders totalSupplyRaw groups =
      aggregateHolders holders' totalSupplyRaw groups := by
  refine aggregateHolders_congr totalSupplyRaw groups (fun owner => ?_) fun owner =>
    amounts_perm (accountsOf_perm _ owner h)
  have hperm := accountsOf_perm (groups.systemAddresses.getD ∅) owner h
  exact ⟨fun hnil => (hnil ▸ hperm).nil_eq.symm, fun hnil => (hnil ▸ hperm).eq_nil⟩

/-- The balance of an owner in counted accounts. -/
structure BalanceIn (excluded : Finset String) (owner : String) (accounts : List HolderBalance) :
    Prop where
  some : accounts ≠ []
  owned : ∀ account ∈ accounts, account.owner = .some owner
  counted : ∀ account ∈ accounts, ¬ Skipped excluded account

theorem BalanceIn.accountsOf {excluded : Finset String} {owner : String}
    {accounts : List HolderBalance} (h : BalanceIn excluded owner accounts)
    (other : Option String) : accountsOf excluded other accounts =
      if other = .some owner then accounts else [] := by
  split
  · rename_i heq
    exact List.filter_eq_self.mpr fun account hmem =>
      decide_eq_true ⟨h.counted account hmem, heq ▸ h.owned account hmem⟩
  · rename_i hne
    exact List.filter_eq_nil_iff.mpr fun account hmem hcounted =>
      hne ((of_decide_eq_true hcounted).2.symm.trans (h.owned account hmem))

/-- An owner can spread its balance over accounts as it likes. -/
theorem aggregateHolders_split {owner : String} {rest whole parts : List HolderBalance}
    (totalSupplyRaw : ℚ) (groups : HolderGroups)
    (hwhole : BalanceIn (groups.systemAddresses.getD ∅) owner whole)
    (hparts : BalanceIn (groups.systemAddresses.getD ∅) owner parts)
    (hamounts : amounts whole = amounts parts) :
    aggregateHolders (rest ++ whole) totalSupplyRaw groups =
      aggregateHolders (rest ++ parts) totalSupplyRaw groups := by
  refine aggregateHolders_congr totalSupplyRaw groups (fun other => ?_) fun other => ?_
  · rw [accountsOf_append, accountsOf_append, hwhole.accountsOf, hparts.accountsOf]
    split
    · simp only [List.append_eq_nil_iff, hwhole.some, hparts.some]
    · exact Iff.rfl
  · rw [accountsOf_append, accountsOf_append, amounts_append, amounts_append, hwhole.accountsOf,
      hparts.accountsOf]
    split
    · rw [hamounts]
    · rfl

end Dependence

/-! ## Parts of the supply -/

/-- Balances of the accounts of a supply. -/
structure Backed (totalSupplyRaw : ℚ) (b : Balances) : Prop where
  nonneg : ∀ wallet, 0 ≤ b.of wallet
  unknown : 0 ≤ b.unknown
  total : b.byOwner.values.sum + b.unknown ≤ totalSupplyRaw

theorem backed_ofHolders (excluded : Finset String) (holders : List HolderBalance) :
    Backed (amounts holders) (.ofHolders excluded holders) where
  nonneg wallet := by
    rw [Balances.of, Balances.ofHolders, get?_foldl_add]
    split
    · exact le_rfl
    · exact add_nonneg le_rfl (amounts_nonneg _)
  unknown := by
    rw [Balances.ofHolders, unknown_foldl_add]
    exact add_nonneg le_rfl (amounts_nonneg _)
  total := by
    have htotal := total_foldl_add excluded holders ⟨Dict.empty, 0⟩
    rwa [Dict.total_empty, zero_add, zero_add] at htotal

namespace Backed

variable {totalSupplyRaw : ℚ} {b : Balances}

theorem values_nonneg (h : Backed totalSupplyRaw b) {amount : ℚ} (hmem : amount ∈ b.byOwner.values) :
    0 ≤ amount := by
  obtain ⟨wallet, hget⟩ := Dict.mem_values.mp hmem
  have hof := h.nonneg wallet
  rwa [Balances.of, hget] at hof

theorem ranked_perm (b : Balances) : b.ranked.Perm b.byOwner.values :=
  (List.reverse_perm _).trans (sortedBy_perm id _)

theorem ranked_nonneg (h : Backed totalSupplyRaw b) {amount : ℚ} (hmem : amount ∈ b.ranked) :
    0 ≤ amount := h.values_nonneg ((ranked_perm b).mem_iff.mp hmem)

theorem take_nonneg (h : Backed totalSupplyRaw b) (n : ℕ) : 0 ≤ (b.ranked.take n).sum :=
  List.sum_nonneg fun _ hmem => h.ranked_nonneg (List.mem_of_mem_take hmem)

theorem take_le_take (h : Backed totalSupplyRaw b) {m n : ℕ} (hmn : m ≤ n) :
    (b.ranked.take m).sum ≤ (b.ranked.take n).sum :=
  (List.take_sublist_take_left hmn).sum_le_sum fun _ hmem =>
    h.ranked_nonneg (List.mem_of_mem_take hmem)

theorem take_le (h : Backed totalSupplyRaw b) (n : ℕ) :
    (b.ranked.take n).sum + b.unknown ≤ totalSupplyRaw := by
  have hle := (List.take_sublist n b.ranked).sum_le_sum fun _ hmem => h.ranked_nonneg hmem
  rw [(ranked_perm b).sum_eq] at hle
  linarith [h.total]

/-- The balances of distinct wallets are part of the supply. -/
theorem sum_le (h : Backed totalSupplyRaw b) (wallets : Finset String) :
    ∑ wallet ∈ wallets, b.of wallet ≤ totalSupplyRaw := by
  have hkeys : ∀ wallet balance, b.byOwner.get? wallet = some balance →
      wallet ∈ wallets ∪ b.byOwner.keys.toFinset := fun wallet balance hget =>
    Finset.mem_union_right _ (List.mem_toFinset.mpr (Dict.mem_keys.mpr ⟨balance, hget⟩))
  have htotal : b.byOwner.values.sum =
      ∑ wallet ∈ wallets ∪ b.byOwner.keys.toFinset, b.of wallet := by
    have hsum := Dict.total_eq_sum (fun _ balance => balance) b.byOwner hkeys
    refine hsum.trans (Finset.sum_congr rfl fun wallet _ => ?_)
    rw [Dict.weight, Balances.of, Option.map_id']
  calc ∑ wallet ∈ wallets, b.of wallet
      ≤ ∑ wallet ∈ wallets ∪ b.byOwner.keys.toFinset, b.of wallet :=
        Finset.sum_le_sum_of_subset_of_nonneg Finset.subset_union_left fun wallet _ _ =>
          h.nonneg wallet
    _ ≤ totalSupplyRaw := by linarith [h.total, h.unknown]

end Backed

section Shares

variable {totalSupplyRaw amount amount' : ℚ}

theorem precision_pos : 0 < precision := by decide

theorem share_mono (hsupply : 0 < totalSupplyRaw) (hamount : 0 ≤ amount) (h : amount ≤ amount') :
    share totalSupplyRaw amount ≤ share totalSupplyRaw amount' := by
  rw [share, share, if_pos hsupply, if_pos hsupply]
  exact significant_mono precision_pos (div_nonneg hamount hsupply.le)
    (div_le_div_of_nonneg_right h hsupply.le)

theorem share_zero (totalSupplyRaw : ℚ) : share totalSupplyRaw 0 = 0 := by
  rw [share, zero_div, significant_zero, ite_self]

theorem share_self (hsupply : 0 < totalSupplyRaw) : share totalSupplyRaw totalSupplyRaw = 1 := by
  rw [share, if_pos hsupply, div_self hsupply.ne', significant_one precision_pos]

/-- A share of the supply. -/
def IsPart (pct : ℚ) : Prop := 0 ≤ pct ∧ pct ≤ 1

theorem isPart_share (hsupply : 0 < totalSupplyRaw) (hamount : 0 ≤ amount)
    (h : amount ≤ totalSupplyRaw) : IsPart (share totalSupplyRaw amount) :=
  ⟨share_zero totalSupplyRaw ▸ share_mono hsupply le_rfl hamount,
    share_self hsupply ▸ share_mono hsupply hamount h⟩

end Shares

/-- The percentages of the metrics. -/
def HolderMetrics.percentages (m : HolderMetrics) : List ℚ :=
  [m.largestHolderPct, m.top5HoldersPct, m.top10HoldersPct, m.devHoldingPct,
    m.devClusterHoldingPct, m.earlyBuyersHoldingPct, m.relatedClusterHoldingPct,
    m.unknownOwnerSupplyPct]

/-- The metrics are parts of one supply; the last sum is one of the decimal context. -/
structure PartsOfOne (groups : HolderGroups) (m : HolderMetrics) : Prop where
  shares : ∀ pct ∈ m.percentages, IsPart pct
  largest : m.largestHolderPct ≤ m.top5HoldersPct
  top5 : m.top5HoldersPct ≤ m.top10HoldersPct
  dev : ∀ wallet cluster, groups.devWallet = some wallet → groups.devCluster = some cluster →
    wallet ∈ cluster → m.devHoldingPct ≤ m.devClusterHoldingPct
  unknown : significant precision (m.top10HoldersPct + m.unknownOwnerSupplyPct) ≤ 1

/-- The largest holder is the first of the ranking. -/
theorem largest_eq (totalSupplyRaw : ℚ) (ranked : List ℚ) :
    (ranked.head?.map (share totalSupplyRaw)).getD 0 = share totalSupplyRaw (ranked.take 1).sum := by
  cases ranked with
  | nil => exact (share_zero totalSupplyRaw).symm
  | cons first rest =>
      rw [List.take_succ_cons, List.take_zero, List.sum_cons, List.sum_nil, add_zero]
      rfl

theorem partsOfOne_metricsOf {totalSupplyRaw : ℚ} (hsupply : 0 < totalSupplyRaw)
    (groups : HolderGroups) {b : Balances} (h : Backed totalSupplyRaw b) :
    PartsOfOne groups (metricsOf totalSupplyRaw groups b) := by
  have htake (n : ℕ) : IsPart (share totalSupplyRaw (b.ranked.take n).sum) :=
    isPart_share hsupply (h.take_nonneg n) (by linarith [h.take_le n, h.unknown])
  have hwallets (wallets : Option (Finset String)) : IsPart (walletShare totalSupplyRaw b wallets) :=
    isPart_share hsupply (Finset.sum_nonneg fun wallet _ => h.nonneg wallet) (h.sum_le _)
  have hwallet (wallet : String) : b.of wallet ≤ totalSupplyRaw := by
    have hsum := h.sum_le {wallet}
    rwa [Finset.sum_singleton] at hsum
  have hunknown : b.unknown ≤ totalSupplyRaw := by linarith [h.take_le 0, h.take_nonneg 0]
  refine ⟨?_, ?_, share_mono hsupply (h.take_nonneg 5) (h.take_le_take (by decide)), ?_, ?_⟩
  · simp only [HolderMetrics.percentages, List.forall_mem_cons, metricsOf, largest_eq]
    refine ⟨htake 1, htake 5, htake 10, ?_, hwallets _, hwallets _, hwallets _,
      isPart_share hsupply h.unknown hunknown, fun _ hmem => absurd hmem List.not_mem_nil⟩
    cases groups.devWallet.filter (· ≠ "") with
    | none => exact ⟨le_rfl, zero_le_one⟩
    | some wallet => exact isPart_share hsupply (h.nonneg wallet) (hwallet wallet)
  · simp only [metricsOf, largest_eq]
    exact share_mono hsupply (h.take_nonneg 1) (h.take_le_take (by decide))
  · intro wallet cluster hdev hcluster hmem
    have hsum : b.of wallet ≤ ∑ member ∈ cluster, b.of member :=
      Finset.single_le_sum (fun member _ => h.nonneg member) hmem
    have hle : share totalSupplyRaw (b.of wallet) ≤
        walletShare totalSupplyRaw b groups.devCluster := by
      rw [walletShare, hcluster]
      exact share_mono hsupply (h.nonneg wallet) hsum
    simp only [metricsOf, hdev]
    by_cases hempty : wallet = ""
    · rw [Option.filter_some, if_neg (by simpa using hempty)]
      exact (hwallets _).1
    · rw [Option.filter_some, if_pos (by simpa using hempty)]
      exact hle
  · simp only [metricsOf, share, if_pos hsupply]
    refine significant_add_le_one precision_pos (div_nonneg (h.take_nonneg 10) hsupply.le)
      (div_nonneg h.unknown hsupply.le) ?_
    rw [← add_div, div_le_one hsupply]
    exact h.take_le 10

/-- The metrics depend neither on the order of the accounts nor on how an owner spreads its
balance over counted accounts. When the accounts sum to the supply, as those of the index do, all
shares are parts of one. -/
theorem aggregateHolders_fair (totalSupplyRaw : ℚ) (groups : HolderGroups) :
    (∀ holders holders' : List HolderBalance, holders.Perm holders' →
      aggregateHolders holders totalSupplyRaw groups =
        aggregateHolders holders' totalSupplyRaw groups) ∧
    (∀ (owner : String) (rest whole parts : List HolderBalance),
      BalanceIn (groups.systemAddresses.getD ∅) owner whole →
      BalanceIn (groups.systemAddresses.getD ∅) owner parts → amounts whole = amounts parts →
      aggregateHolders (rest ++ whole) totalSupplyRaw groups =
        aggregateHolders (rest ++ parts) totalSupplyRaw groups) ∧
    (∀ (pages : List (Option TokenAccountsPage)) (currentSlot : Option Int) (lag : Int)
      (holders : List HolderBalance), getAllHolders pages currentSlot totalSupplyRaw lag =
        .ok holders → amounts holders = totalSupplyRaw) ∧
    ∀ (holders : List HolderBalance) (m : HolderMetrics), amounts holders = totalSupplyRaw →
      aggregateHolders holders totalSupplyRaw groups = .ok m → PartsOfOne groups m := by
  refine ⟨fun _ _ hperm => aggregateHolders_perm hperm totalSupplyRaw groups,
    fun _ _ _ _ hwhole hparts => aggregateHolders_split totalSupplyRaw groups hwhole hparts,
    fun _ _ _ _ => getAllHolders_sum, fun holders m hsum hm => ?_⟩
  unfold aggregateHolders at hm
  split at hm
  · cases hm
  · rename_i hsupply
    cases hm
    exact partsOfOne_metricsOf (not_le.mp hsupply) groups (hsum ▸ backed_ofHolders _ holders)

/-- An account with whole units. -/
def heldBy (account : String) (owner : Option String) (units : ℕ) : HolderBalance where
  tokenAccount := account
  owner := owner
  amountRaw := units
  nonneg := Nat.cast_nonneg units

/-- Twelve units in one account or in two, and one unit without an owner. -/
theorem aggregateHolders_fair_twoAccounts :
    aggregateHolders ([heldBy "lost" none 1] ++ [heldBy "first" (some "owner") 12]) 13 {} =
      aggregateHolders ([heldBy "lost" none 1] ++
        [heldBy "first" (some "owner") 5, heldBy "second" (some "owner") 7]) 13 {} ∧
    ∀ m, aggregateHolders [heldBy "lost" none 1, heldBy "first" (some "owner") 12] 13 {} = .ok m →
      PartsOfOne {} m := by
  obtain ⟨-, hsplit, -, hparts⟩ := aggregateHolders_fair 13 {}
  have hskipped (account : String) (units : ℕ) :
      ¬ Skipped ∅ (heldBy account (some "owner") units) := by
    have howner : isProgramOrBurnOwner (some "owner") = false := by decide +kernel
    rintro (h | h | ⟨_, _, h⟩ | h)
    · exact Bool.false_ne_true h
    · exact absurd h (Finset.notMem_empty _)
    · exact absurd h (Finset.notMem_empty _)
    · exact Bool.false_ne_true (howner.symm.trans h)
  have hsum : amounts [heldBy "lost" none 1, heldBy "first" (some "owner") 12] = 13 := by
    simp only [amounts, heldBy, List.map_cons, List.map_nil, List.sum_cons, List.sum_nil]
    norm_num
  refine ⟨hsplit "owner" _ _ _ ⟨by simp, by simp [heldBy], ?_⟩ ⟨by simp, by simp [heldBy], ?_⟩ ?_,
    fun m => hparts _ m hsum⟩
  · simp only [List.forall_mem_cons, Option.getD_none]
    exact ⟨hskipped _ _, fun _ h => absurd h List.not_mem_nil⟩
  · simp only [List.forall_mem_cons, Option.getD_none]
    exact ⟨hskipped _ _, hskipped _ _, fun _ h => absurd h List.not_mem_nil⟩
  · simp only [amounts, heldBy, List.map_cons, List.map_nil, List.sum_cons, List.sum_nil]
    norm_num

end SniperBot.Security
