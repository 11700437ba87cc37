import SniperBot.Paper.Broker
import SniperBot.Basis.Run
import SniperBot.Ledger.Positions
import Mathlib.Algebra.Order.Field.Basic
import Mathlib.Tactic.Ring

/-!
# The simulation between ledger and database

`Agree` compares the two copies of the account after an operation of the broker. They are kept
by two separate implementations, so that they agree is shown by a simulation: `Simulates` links
every ledger position to its row, with the mark that the next exit will take out, and the
ledger's fills to the order rows. An entry, an exit and a mark of both copies keep it.
-/

namespace SniperBot.Paper

open Basis Ledger Risk

/-! ## Agreement -/

/-- A ledger position and its row: status, tokens and cost. -/
structure RowAgrees (position : PositionRecord) (row : PositionRow) : Prop where
  status : position.status = .opened ↔ row.status.Live
  tokens : row.tokenAmountRaw = position.remainingTokenAmount
  cost : row.remainingCostUsd = position.remainingCostUsd

/-- The account row shows the totals of the ledger. -/
structure TotalsAgree (ledger : LedgerState) (account : AccountRow) : Prop where
  equity : account.equity = ledger.equityUsd
  realized : account.realizedPnl = ledger.realizedPnlUsd
  unrealized : account.unrealizedPnl = ledger.unrealizedPnlUsd
  locked : account.lockedCapital = ledger.lockedCapitalUsd

/-- The in-memory ledger and the database show the same account and the same positions. -/
structure Agree (s : BrokerState) : Prop where
  totals : ∃ account, s.db.account = some account ∧ TotalsAgree s.ledger account
  stored : ∀ id p, s.ledger.positions.get? id = some p →
    ∃ row, s.db.positions.get? id = some row ∧ RowAgrees p row
  mirrored : ∀ id row, s.db.positions.get? id = some row → ∃ p, s.ledger.positions.get? id = some p

/-! ## The simulation -/

/-- A linked row also has the mint of its position and, while it is open, the mark that the
ledger would take out. -/
structure Linked (position : PositionRecord) (row : PositionRow) : Prop extends
    RowAgrees position row where
  mint : row.mint = position.tokenMint
  mark : position.status = .opened → row.unrealizedPnl = CloseArgs.markedUnrealized position

structure Simulates (config : BrokerConfig) (s : BrokerState) : Prop where
  wellFormed : WellFormed s.ledger
  owner : s.db.activeRun = config.ownedRun
  totals : ∃ account, s.db.account = some account ∧ TotalsAgree s.ledger account
  linked : ∀ id p, s.ledger.positions.get? id = some p →
    ∃ row, s.db.positions.get? id = some row ∧ Linked p row
  mirrored : ∀ id row, s.db.positions.get? id = some row → ∃ p, s.ledger.positions.get? id = some p
  ids : ∀ id p, s.ledger.positions.get? id = some p → p.positionId = id
  entries : ∀ orderId id, s.ledger.orderIdIndex.get? orderId = some id →
    ∃ fill ∈ s.ledger.fills, fill.orderId = orderId
  exits : ∀ orderId id, s.ledger.closeOrderIdIndex.get? orderId = some id →
    ∃ fill ∈ s.ledger.fills, fill.orderId = orderId
  orders : ∀ orderId order, s.db.orders.get? orderId = some order →
    ∃ fill ∈ s.ledger.fills, fill.orderId = orderId

variable {config : BrokerConfig} {s : BrokerState}

theorem Simulates.agree (h : Simulates config s) : Agree s := by
  refine ⟨h.totals, fun id p hget => ?_, h.mirrored⟩
  obtain ⟨row, hrow, hlinked⟩ := h.linked id p hget
  exact ⟨row, hrow, hlinked.toRowAgrees⟩

theorem Simulates.init (config : BrokerConfig) (startingEquity : ℚ) (now : Time) :
    Simulates config (BrokerState.init config startingEquity now) where
  wellFormed := WellFormed.init startingEquity
  owner := rfl
  totals := ⟨_, rfl, rfl, rfl, rfl, rfl⟩
  linked := by rintro _ _ ⟨⟩
  mirrored := by rintro _ _ ⟨⟩
  ids := by rintro _ _ ⟨⟩
  entries := by rintro _ _ ⟨⟩
  exits := by rintro _ _ ⟨⟩
  orders := by rintro _ _ ⟨⟩

/-- The row and the position under one id are linked. -/
theorem Simulates.link (h : Simulates config s) {id : String} {p : PositionRecord}
    {row : PositionRow} (hp : s.ledger.positions.get? id = some p)
    (hrow : s.db.positions.get? id = some row) : Linked p row := by
  obtain ⟨row', hrow', hlinked⟩ := h.linked id p hp
  rw [hrow] at hrow'
  cases hrow'
  exact hlinked

theorem Simulates.unstored (h : Simulates config s) {id : String}
    (hnone : s.db.positions.get? id = none) : s.ledger.positions.get? id = none := by
  cases hp : s.ledger.positions.get? id with
  | none => rfl
  | some p =>
      obtain ⟨row, hrow, -⟩ := h.linked id p hp
      rw [hnone] at hrow
      cases hrow

/-- A risk check changes no part of the ledger that the simulation looks at. -/
theorem Simulates.sameBooks (h : Simulates config s) {ledger : LedgerState}
    (hsame : SameBooks s.ledger ledger) : Simulates config { s with ledger := ledger } := by
  obtain ⟨halt, pause, date, baseline, rfl⟩ := hsame
  obtain ⟨account, haccount, htotals⟩ := h.totals
  exact ⟨⟨h.wellFormed.fillPosition, h.wellFormed.indexOpen, h.wellFormed.openIndexed,
      h.wellFormed.openTokens, h.wellFormed.closedTokens⟩, h.owner,
    ⟨account, haccount, htotals.equity, htotals.realized, htotals.unrealized, htotals.locked⟩,
    h.linked, h.mirrored, h.ids, h.entries, h.exits, h.orders⟩

theorem runtimeOwnerError_none {active owned : Option String} (h : active = owned) :
    runtimeOwnerError active owned = none := by
  subst h
  cases active <;> simp [runtimeOwnerError]

/-! ## Repeated orders -/

/-- No fill of the ledger has the order id. -/
def Unused (ledger : LedgerState) (orderId : String) : Prop :=
  ∀ fill ∈ ledger.fills, fill.orderId ≠ orderId

theorem Simulates.newOrderRow (h : Simulates config s) {orderId : String}
    (hunused : Unused s.ledger orderId) : s.db.orders.get? orderId = none := by
  cases horder : s.db.orders.get? orderId with
  | none => rfl
  | some order =>
      obtain ⟨fill, hfill, heq⟩ := h.orders orderId order horder
      exact absurd heq (hunused fill hfill)

theorem Simulates.newEntry (h : Simulates config s) {orderId : String}
    (hunused : Unused s.ledger orderId) : s.ledger.orderIdIndex.get? orderId = none := by
  cases horder : s.ledger.orderIdIndex.get? orderId with
  | none => rfl
  | some id =>
      obtain ⟨fill, hfill, heq⟩ := h.entries orderId id horder
      exact absurd heq (hunused fill hfill)

theorem Simulates.newExit (h : Simulates config s) {orderId : String}
    (hunused : Unused s.ledger orderId) : s.ledger.closeOrderIdIndex.get? orderId = none := by
  cases horder : s.ledger.closeOrderIdIndex.get? orderId with
  | none => rfl
  | some id =>
      obtain ⟨fill, hfill, heq⟩ := h.exits orderId id horder
      exact absurd heq (hunused fill hfill)

/-! ## Entries -/

/-- The two calls of an entry concern the same fill. -/
structure SameEntry (oargs : OpenArgs) (eargs : EntryArgs) : Prop where
  position : oargs.positionId = eargs.positionId
  mint : oargs.tokenMint = eargs.mint
  order : oargs.orderId = eargs.orderId
  cost : oargs.entryCost = eargs.entryCost
  tokens : oargs.tokenAmount = eargs.filledTokenAmount

theorem linked_newPosition {oargs : OpenArgs} {eargs : EntryArgs} (hsame : SameEntry oargs eargs) :
    Linked oargs.newPosition eargs.position where
  status := iff_of_true rfl (Or.inl rfl)
  tokens := hsame.tokens.symm
  cost := hsame.cost.symm
  mint := hsame.mint.symm
  mark := fun _ => rfl

theorem Simulates.opened (h : Simulates config s) {oargs : OpenArgs} {eargs : EntryArgs}
    {account : AccountRow} (valid : oargs.costs.Valid) (hbook : BookCase s.ledger oargs)
    (hcase : EntryCase s.db eargs account) (hsame : SameEntry oargs eargs) :
    Simulates config ⟨s.ledger.booked oargs valid, s.db.entered account eargs⟩ := by
  -- a fill of the old ledger, or the new one
  have hkept : ∀ orderId, (∃ fill ∈ s.ledger.fills, fill.orderId = orderId) →
      ∃ fill ∈ (s.ledger.booked oargs valid).fills, fill.orderId = orderId := by
    rintro orderId ⟨fill, hfill, heq⟩
    exact ⟨fill, List.mem_append_left _ hfill, heq⟩
  have hnew : ∃ fill ∈ (s.ledger.booked oargs valid).fills, fill.orderId = oargs.orderId :=
    ⟨oargs.entryFill valid, List.mem_append_right _ (List.mem_singleton.mpr rfl), rfl⟩
  refine ⟨h.wellFormed.booked valid hbook, h.owner, ?_, ?_, ?_, ?_, ?_, ?_, ?_⟩
  · obtain ⟨stored, hstored, hcleared⟩ := hcase.stored
    obtain ⟨old, hold, htotals⟩ := h.totals
    rw [hstored] at hold
    cases hold
    obtain ⟨halt, pause, date, hframe⟩ := cleared_frame stored eargs.filledAt eargs.limits.dayKey
    refine ⟨account.entered eargs, rfl, ?_⟩
    rw [hcleared, hframe]
    refine ⟨htotals.equity, htotals.realized, htotals.unrealized, ?_⟩
    show stored.lockedCapital + eargs.entryCost = s.ledger.lockedCapitalUsd + oargs.entryCost
    rw [htotals.locked, hsame.cost]
  · intro id p hget
    simp only [LedgerState.booked, Dict.get?_set] at hget
    simp only [PaperDb.entered, Dict.get?_set, ← hsame.position]
    split at hget
    · rename_i hid
      cases hget
      exact ⟨eargs.position, if_pos hid, linked_newPosition hsame⟩
    · rename_i hid
      rw [if_neg hid]
      exact h.linked id p hget
  · intro id row hget
    simp only [PaperDb.entered, Dict.get?_set, ← hsame.position] at hget
    simp only [LedgerState.booked, Dict.get?_set]
    split at hget
    · rename_i hid
      exact ⟨oargs.newPosition, if_pos hid⟩
    · rename_i hid
      rw [if_neg hid]
      exact h.mirrored id row hget
  · intro id p hget
    simp only [LedgerState.booked, Dict.get?_set] at hget
    split at hget
    · rename_i hid
      cases hget
      exact hid
    · exact h.ids id p hget
  · intro orderId id hget
    simp only [LedgerState.booked, Dict.get?_set] at hget
    split at hget
    · rename_i hid
      exact hid ▸ hnew
    · exact hkept orderId (h.entries orderId id hget)
  · intro orderId id hget
    exact hkept orderId (h.exits orderId id hget)
  · intro orderId order hget
    simp only [PaperDb.entered, Dict.get?_set, ← hsame.order] at hget
    split at hget
    · rename_i hid
      exact hid ▸ hnew
    · exact hkept orderId (h.orders orderId order hget)

/-! ## Exits -/

/-- The two calls of an exit concern the same fill. -/
structure SameExit (cargs : CloseArgs) (eargs : ExitArgs) : Prop where
  mint : cargs.tokenMint = eargs.mint
  order : cargs.orderId = eargs.orderId
  tokens : cargs.tokenClosed = eargs.tokenAmount
  received : cargs.usdReceived = eargs.usdReceived
  fee : cargs.costs.networkFeeUsd = eargs.networkFee

section Exit

variable {cargs : CloseArgs} {eargs : ExitArgs} {id : String} {p : PositionRecord}
  {row : PositionRow}

theorem fraction_eq (hsame : SameExit cargs eargs) (hlinked : Linked p row) :
    eargs.closedFraction row = cargs.closedFraction p := by
  rw [ExitArgs.closedFraction, CloseArgs.closedFraction, hlinked.tokens, hsame.tokens]

theorem share_eq (hsame : SameExit cargs eargs) (hlinked : Linked p row) :
    eargs.proportionalCost row = cargs.proportionalCost p := by
  rw [ExitArgs.proportionalCost, PositionRow.costPerToken, CloseArgs.proportionalCost,
    CloseArgs.closedFraction, hlinked.tokens, hlinked.cost, hsame.tokens]
  ring

theorem delta_eq (hsame : SameExit cargs eargs) (hlinked : Linked p row) :
    eargs.realizedDelta row = cargs.realizedDelta p := by
  rw [ExitArgs.realizedDelta, CloseArgs.realizedDelta, share_eq hsame hlinked,
    ExitArgs.netReceived, CloseArgs.netReceived, hsame.received, hsame.fee]

theorem closedUnrealized_eq (hsame : SameExit cargs eargs) (hlinked : Linked p row)
    (hopen : p.status = .opened) : eargs.closedUnrealized row = cargs.closedUnrealized p := by
  rw [ExitArgs.closedUnrealized, CloseArgs.closedUnrealized, fraction_eq hsame hlinked,
    hlinked.mark hopen]

/-- What an exit leaves of the assumed mark. -/
theorem markedUnrealized_closedPosition (hfraction : 0 < cargs.remainingFraction p) :
    CloseArgs.markedUnrealized (cargs.closedPosition p) =
      CloseArgs.markedUnrealized p * cargs.remainingFraction p := by
  have hlast : (cargs.closedPosition p).lastExecutableValueUsd =
      p.lastExecutableValueUsd * cargs.remainingFraction p := by
    unfold CloseArgs.closedPosition
    split <;> rfl
  unfold CloseArgs.markedUnrealized
  rw [hlast, closedPosition_remainingCostUsd, CloseArgs.proportionalCost]
  by_cases hpos : p.lastExecutableValueUsd > 0
  · rw [if_pos hpos, if_pos (mul_pos hpos hfraction), CloseArgs.remainingFraction]
    ring
  · rw [if_neg hpos, if_neg, zero_mul]
    exact not_lt.mpr (mul_nonpos_of_nonpos_of_nonneg (not_lt.mp hpos) hfraction.le)

theorem linked_exitedRow (hsame : SameExit cargs eargs) (hlinked : Linked p row)
    (hexit : Ledger.ExitCase s.ledger cargs id p)
    (hall : eargs.quote = none → row.tokenAmountRaw ≤ eargs.tokenAmount) :
    Linked (cargs.closedPosition p) (eargs.exitedRow row) := by
  have hopen := hexit.opened
  have hfinal : eargs.Final row ↔ cargs.Final p := by
    rw [ExitArgs.Final, hlinked.tokens, ← hsame.tokens]
    rfl
  -- without a quote the whole position is sold
  have hstatus : (eargs.exitedRow row).status.Live ↔ ¬ cargs.Final p := by
    show (eargs.newStatus row).Live ↔ _
    rw [← hfinal, ExitArgs.newStatus]
    cases hquote : eargs.quote with
    | none =>
        have hsold : eargs.Final row := by
          have hle := hall hquote
          exact sub_nonpos.mpr hle
        simp [hsold, RowStatus.Live]
    | some quote => by_cases h : eargs.Final row <;> simp [h, RowStatus.Live]
  refine ⟨⟨?_, ?_, ?_⟩, ?_, ?_⟩
  · rw [hstatus, closedPosition_status hopen]
    by_cases h : cargs.Final p <;> simp [h]
  · rw [closedPosition_remainingTokenAmount, ← hlinked.tokens, hsame.tokens]
    rfl
  · rw [closedPosition_remainingCostUsd, ← share_eq hsame hlinked, ← hlinked.cost]
    rfl
  · rw [closedPosition_tokenMint, ← hlinked.mint]
    rfl
  · intro hstill
    rw [closedPosition_status hopen] at hstill
    have hnot : ¬ cargs.Final p := by
      intro h
      rw [if_pos h] at hstill
      cases hstill
    have hfraction : 0 < cargs.remainingFraction p := by
      have hlt : cargs.tokenClosed < p.remainingTokenAmount :=
        lt_of_le_of_ne hexit.available (fun heq => hnot ((final_iff hexit.available).mpr heq))
      have hone := (div_lt_one hexit.remaining_pos).mpr hlt
      exact sub_pos.mpr hone
    rw [markedUnrealized_closedPosition hfraction]
    show row.unrealizedPnl - eargs.closedUnrealized row = _
    rw [closedUnrealized_eq hsame hlinked hopen, hlinked.mark hopen, CloseArgs.closedUnrealized,
      CloseArgs.remainingFraction]
    ring

theorem Simulates.closed (h : Simulates config s) {account : AccountRow}
    (valid : cargs.costs.Valid) (hexit : Ledger.ExitCase s.ledger cargs id p)
    (hcase : ExitCase s.db eargs account id row) (hsame : SameExit cargs eargs)
    (hall : eargs.quote = none → row.tokenAmountRaw ≤ eargs.tokenAmount) :
    Simulates config ⟨s.ledger.exited config.zone.dateKey cargs id p valid,
      s.db.exited account eargs id row⟩ := by
  have hlinked := h.link hexit.stored (livePosition_some hcase.found).1
  have hkept : ∀ orderId, (∃ fill ∈ s.ledger.fills, fill.orderId = orderId) →
      ∃ fill ∈ (s.ledger.exited config.zone.dateKey cargs id p valid).fills,
        fill.orderId = orderId := by
    rintro orderId ⟨fill, hfill, heq⟩
    exact ⟨fill, List.mem_append_left _ hfill, heq⟩
  have hnew : ∃ fill ∈ (s.ledger.exited config.zone.dateKey cargs id p valid).fills,
      fill.orderId = cargs.orderId :=
    ⟨cargs.closeFill p id valid, List.mem_append_right _ (List.mem_singleton.mpr rfl), rfl⟩
  refine ⟨h.wellFormed.exited valid hexit, h.owner, ?_, ?_, ?_, ?_, ?_, ?_, ?_⟩
  · obtain ⟨old, hold, htotals⟩ := h.totals
    rw [hcase.account] at hold
    cases hold
    have hdelta := delta_eq hsame hlinked
    have hunrealized := closedUnrealized_eq hsame hlinked hexit.opened
    refine ⟨account.exited eargs row, rfl, ?_, ?_, ?_, ?_⟩
    · simp only [AccountRow.exited, LedgerState.exited]
      rw [htotals.equity, hdelta, hunrealized]
    · simp only [AccountRow.exited, LedgerState.exited]
      rw [htotals.realized, hdelta]
    · simp only [AccountRow.exited, LedgerState.exited]
      rw [htotals.unrealized, hunrealized]
    · simp only [AccountRow.exited, LedgerState.exited]
      rw [htotals.locked, share_eq hsame hlinked]
  · intro j q hget
    simp only [LedgerState.exited, Dict.get?_set] at hget
    simp only [PaperDb.exited, Dict.get?_set]
    split at hget
    · rename_i hid
      cases hget
      exact ⟨eargs.exitedRow row, if_pos hid, linked_exitedRow hsame hlinked hexit hall⟩
    · rename_i hid
      rw [if_neg hid]
      exact h.linked j q hget
  · intro j r hget
    simp only [PaperDb.exited, Dict.get?_set] at hget
    simp only [LedgerState.exited, Dict.get?_set]
    split at hget
    · rename_i hid
      exact ⟨cargs.closedPosition p, if_pos hid⟩
    · rename_i hid
      rw [if_neg hid]
      exact h.mirrored j r hget
  · intro j q hget
    rcases hexit.stored_cases hget with ⟨rfl, rfl⟩ | ⟨-, hold⟩
    · rw [closedPosition_positionId]
      exact h.ids j p hexit.stored
    · exact h.ids j q hold
  · intro orderId j hget
    exact hkept orderId (h.entries orderId j hget)
  · intro orderId j hget
    simp only [LedgerState.exited, Dict.get?_set] at hget
    split at hget
    · rename_i hid
      exact hid ▸ hnew
    · exact hkept orderId (h.exits orderId j hget)
  · intro orderId order hget
    simp only [PaperDb.exited, Dict.get?_set, ← hsame.order] at hget
    split at hget
    · rename_i hid
      exact hid ▸ hnew
    · exact hkept orderId (h.orders orderId order hget)

end Exit

/-! ## Marks -/

theorem executableUsd_pos {quote : QuoteResponse} (h : quote.Executable) :
    0 < quote.executableUsd := by
  obtain ⟨hout, husd, -⟩ := h
  unfold QuoteResponse.executableUsd
  cases hvalue : quote.outAmountUsd with
  | none => exact hout
  | some usd =>
      dsimp only
      split
      · rename_i hne
        exact lt_of_le_of_ne (husd usd hvalue) (Ne.symm hne)
      · exact hout

section Mark

variable {values : Dict String ℚ} {now : Time}

/-- As many prices as open positions: every open position has a value. -/
theorem quoted_of_length {positions : List PositionRecord}
    (hlength : (quotedPrices values positions).entries.length = positions.length) :
    ∀ p ∈ positions, ∃ value, values.get? p.positionId = some value := by
  have hle := Dict.length_collect_le (fun p : PositionRecord => p.tokenMint)
    (quotedPrice values) positions Dict.empty
  have hfilter : (positions.filter fun p => (quotedPrice values p).isSome).length =
      positions.length := by
    refine le_antisymm (List.length_filter_le _ _) ?_
    rw [← hlength]
    refine Nat.le_trans hle (Nat.le_of_eq ?_)
    exact Nat.zero_add _
  intro p hp
  have hsome := List.length_filter_eq_length_iff.mp hfilter p hp
  rw [quotedPrice, Option.isSome_map] at hsome
  exact Option.isSome_iff_exists.mp hsome

/-- The price of an open position in the price map of its quotes. -/
theorem get?_quotedPrices (h : Simulates config s) {id : String} {p : PositionRecord}
    (hget : s.ledger.positions.get? id = some p) (hopen : p.status = .opened) {value : ℚ}
    (hvalue : values.get? p.positionId = some value) :
    (quotedPrices values s.ledger.openPositions).get? p.tokenMint =
      some (value / p.remainingTokenAmount) := by
  refine Dict.get?_collect (fun p : PositionRecord => p.tokenMint) (quotedPrice values) _
    (h.wellFormed.openPositions_mints_nodup h.ids) (mem_openPositions.mpr ⟨id, hget, hopen⟩) ?_ _
  rw [quotedPrice, hvalue, Option.map_some, if_pos (h.wellFormed.openTokens id p hget hopen)]

/-- The mark of an open position is the value of its quote. -/
theorem lastValue_markPosition (h : Simulates config s) {id : String} {p : PositionRecord}
    (hget : s.ledger.positions.get? id = some p) (hopen : p.status = .opened) {value : ℚ}
    (hvalue : values.get? p.positionId = some value) :
    (markPosition (quotedPrices values s.ledger.openPositions) now p).lastExecutableValueUsd =
      value := by
  have htokens := h.wellFormed.openTokens id p hget hopen
  simp only [markPosition, hopen, ne_eq, not_true_eq_false, if_false,
    get?_quotedPrices h hget hopen hvalue]
  exact mul_div_cancel₀ value htokens.ne'

/-- A mark writes the rows of the open positions and no other. -/
theorem get?_markedRows (h : Simulates config s) (account : AccountRow) (prices : Dict String ℚ)
    {id : String} {p : PositionRecord} {row : PositionRow}
    (hp : s.ledger.positions.get? id = some p) (hrow : s.db.positions.get? id = some row) :
    (s.db.marked account values (markToMarket config.zone.dateKey s.ledger prices now)
      now).positions.get? id =
      some (if p.status = .opened then markedRow values (markPosition prices now p) row
        else row) := by
  have hids : ∀ j q,
      (markToMarket config.zone.dateKey s.ledger prices now).positions.get? j = some q →
      q.positionId = j := by
    intro j q hget
    obtain ⟨old, hold, rfl⟩ := get?_markToMarket hget
    rw [markPosition_positionId]
    exact h.ids j old hold
  have hget : (markToMarket config.zone.dateKey s.ledger prices now).positions.get? id =
      some (markPosition prices now p) := by
    simp only [markToMarket, Dict.get?_mapValues, hp, Option.map_some]
  obtain ⟨hupdated, huntouched⟩ := Dict.get?_foldl_update (fun p : PositionRecord => p.positionId)
    (markedRow values) (markToMarket config.zone.dateKey s.ledger prices now).openPositions
    (openPositions_ids_nodup hids) s.db.positions
  by_cases hopen : p.status = .opened
  · have hmem : markPosition prices now p ∈
        (markToMarket config.zone.dateKey s.ledger prices now).openPositions :=
      mem_openPositions.mpr ⟨id, hget, by rw [markPosition_status]; exact hopen⟩
    have hrow' := hupdated _ hmem
    rw [hids id _ hget, hrow, Option.map_some] at hrow'
    rw [if_pos hopen]
    exact hrow'
  · -- a closed position is not among the updated rows
    have hnot : id ∉ (markToMarket config.zone.dateKey s.ledger prices now).openPositions.map
        (·.positionId) := by
      intro hmem
      obtain ⟨q, hq, hqid⟩ := List.mem_map.mp hmem
      obtain ⟨j, hj, hopenq⟩ := mem_openPositions.mp hq
      have hjid : j = id := (hids j q hj).symm.trans hqid
      subst hjid
      rw [hget] at hj
      cases hj
      rw [markPosition_status] at hopenq
      exact hopen hopenq
    rw [if_neg hopen]
    exact (huntouched id hnot).trans hrow

theorem linked_markedRow {p : PositionRecord} {row : PositionRow} {prices : Dict String ℚ}
    {value : ℚ} (hlinked : Linked p row) (hpos : 0 < value)
    (hvalue : values.get? p.positionId = some value)
    (hlast : (markPosition prices now p).lastExecutableValueUsd = value) :
    Linked (markPosition prices now p) (markedRow values (markPosition prices now p) row) := by
  refine ⟨⟨?_, ?_, ?_⟩, ?_, ?_⟩
  · rw [markPosition_status]
    exact hlinked.status
  · rw [markPosition_remainingTokenAmount]
    exact hlinked.tokens
  · rw [markPosition_remainingCostUsd]
    exact hlinked.cost
  · rw [markPosition_tokenMint]
    exact hlinked.mint
  · intro _
    simp only [markedRow, CloseArgs.markedUnrealized]
    rw [hlast, if_pos hpos, markPosition_positionId, hvalue]
    rfl

theorem Simulates.marked (h : Simulates config s) {account : AccountRow}
    (haccount : s.db.account = some account)
    (hvalues : ∀ p ∈ s.ledger.openPositions, ∃ value, values.get? p.positionId = some value ∧
      0 < value) :
    Simulates config ⟨markToMarket config.zone.dateKey s.ledger
        (quotedPrices values s.ledger.openPositions) now,
      s.db.marked account values (markToMarket config.zone.dateKey s.ledger
        (quotedPrices values s.ledger.openPositions) now) now⟩ := by
  generalize hprices : quotedPrices values s.ledger.openPositions = prices
  refine ⟨h.wellFormed.marked prices now, h.owner, ?_, ?_, ?_, ?_, h.entries, h.exits, h.orders⟩
  · obtain ⟨old, hold, htotals⟩ := h.totals
    rw [haccount] at hold
    cases hold
    exact ⟨_, rfl, rfl, htotals.realized, rfl, rfl⟩
  · intro id p hget
    obtain ⟨old, hold, rfl⟩ := get?_markToMarket hget
    obtain ⟨row, hrow, hlinked⟩ := h.linked id old hold
    refine ⟨_, get?_markedRows h account prices hold hrow, ?_⟩
    by_cases hopen : old.status = .opened
    · obtain ⟨value, hvalue, hpos⟩ := hvalues old (mem_openPositions.mpr ⟨id, hold, hopen⟩)
      rw [if_pos hopen]
      refine linked_markedRow hlinked hpos hvalue ?_
      rw [← hprices]
      exact lastValue_markPosition h hold hopen hvalue
    · have hsame : markPosition prices now old = old := if_pos hopen
      rw [if_neg hopen, hsame]
      exact hlinked
  · intro id row hget
    -- the rows of the old state are the only ones
    have hstored : ∃ old, s.db.positions.get? id = some old := by
      cases hold : s.db.positions.get? id with
      | some old => exact ⟨old, rfl⟩
      | none =>
          have hkeys := Dict.map_get?_foldl_update (fun p : PositionRecord => p.positionId)
            (markedRow values) (fun _ => ()) (fun _ _ => rfl)
            (markToMarket config.zone.dateKey s.ledger prices now).openPositions s.db.positions id
          simp only [PaperDb.marked] at hget
          rw [hget, hold] at hkeys
          cases hkeys
    obtain ⟨old, hold⟩ := hstored
    obtain ⟨p, hp⟩ := h.mirrored id old hold
    refine ⟨markPosition prices now p, ?_⟩
    simp only [markToMarket, Dict.get?_mapValues, hp, Option.map_some]
  · intro id p hget
    obtain ⟨old, hold, rfl⟩ := get?_markToMarket hget
    rw [markPosition_positionId]
    exact h.ids id old hold

end Mark

end SniperBot.Paper
