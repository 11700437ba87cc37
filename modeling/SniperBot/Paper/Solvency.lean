import SniperBot.Paper.Accounting
import SniperBot.Paper.Broker

/-!
# The account row balances

The account row holds the same money twice: as assets (cash, locked capital, unrealized gain) and
as sources (starting equity, realized and unrealized gain, less the operational costs).
`Balanced` says that both sums are the equity.

Entries, exits and costs change the columns by increments; a mark update overwrites equity,
unrealized gain and locked capital with the snapshot of the in-memory ledger. It keeps the balance
when the snapshot shows the account's own realized equity and locked capital (`Mirrored`).
-/

namespace SniperBot.Paper

open Basis Ledger

/-- Assets and sources both add up to the equity. -/
structure Balanced (account : AccountRow) : Prop where
  assets : account.cashBalance + account.lockedCapital + account.unrealizedPnl = account.equity
  sources : account.equity = account.startingEquity + account.realizedPnl +
    account.unrealizedPnl - account.operationalCosts

/-! ## Operations -/

inductive AccountOp
  | book (op : PaperOp)
  | marks (ownedRun : Option String) (values : Dict String ℚ) (snapshot : LedgerState)
      (observedAt : Time)
  /-- a system run starts or stops -/
  | activeRun (run : Option String)

/-- Perform an operation; a call that raises changes nothing. -/
def PaperDb.advance (db : PaperDb) : AccountOp → PaperDb
  | .book op => db.apply op
  | .marks ownedRun values snapshot observedAt =>
      (updatePaperMarks ownedRun values snapshot observedAt db).2
  | .activeRun run => { db with activeRun := run }

/-- The snapshot of a mark update has the account's equity without unrealized gain, and its
locked capital. -/
def Mirrored (db : PaperDb) : AccountOp → Prop
  | .marks _ _ snapshot _ => ∀ account ∈ db.account,
      snapshot.equityUsd - snapshot.unrealizedPnlUsd = account.equity - account.unrealizedPnl ∧
        snapshot.lockedCapitalUsd = account.lockedCapital
  | _ => True

instance (db : PaperDb) : (op : AccountOp) → Decidable (Mirrored db op)
  | .marks _ _ snapshot _ => inferInstanceAs (Decidable (∀ account ∈ db.account,
      snapshot.equityUsd - snapshot.unrealizedPnlUsd = account.equity - account.unrealizedPnl ∧
        snapshot.lockedCapitalUsd = account.lockedCapital))
  | .book _ | .activeRun _ => inferInstanceAs (Decidable True)

/-! ## What each operation keeps -/

section Account

variable {account : AccountRow}

/-- Clearing expired controls changes no amount. -/
theorem Balanced.cleared (h : Balanced account) (filledAt : Time) (dayKey : String) :
    Balanced (account.cleared filledAt dayKey) := by
  obtain ⟨halt, pause, date, heq⟩ := cleared_frame account filledAt dayKey
  rw [heq]
  exact ⟨h.assets, h.sources⟩

/-- An entry moves its cost from the cash to the locked capital. -/
theorem Balanced.entered (h : Balanced account) (args : EntryArgs) :
    Balanced (account.entered args) := by
  refine ⟨?_, h.sources⟩
  have hassets := h.assets
  simp only [AccountRow.entered]
  linarith

/-- An exit turns its share of the locked capital and of the mark into the proceeds. -/
theorem Balanced.exited (h : Balanced account) (args : ExitArgs) (row : PositionRow) :
    Balanced (account.exited args row) := by
  have hassets := h.assets
  have hsources := h.sources
  constructor
  · simp only [AccountRow.exited, ExitArgs.realizedDelta]
    linarith
  · simp only [AccountRow.exited]
    linarith

theorem Balanced.charged (h : Balanced account) (args : CostArgs) :
    Balanced (account.charged args) := by
  have hassets := h.assets
  have hsources := h.sources
  constructor
  · simp only [AccountRow.charged]
    linarith
  · simp only [AccountRow.charged]
    linarith

/-- A mark changes the unrealized gain and the equity by the same amount. -/
theorem Balanced.marked (h : Balanced account) {snapshot : LedgerState}
    (hequity : snapshot.equityUsd - snapshot.unrealizedPnlUsd =
      account.equity - account.unrealizedPnl)
    (hlocked : snapshot.lockedCapitalUsd = account.lockedCapital) (observedAt : Time) :
    Balanced (account.marked snapshot observedAt) := by
  have hassets := h.assets
  have hsources := h.sources
  constructor
  · simp only [AccountRow.marked]
    linarith
  · simp only [AccountRow.marked]
    linarith

end Account

/-! ## Runs -/

/-- The stored account, if there is one, is balanced. -/
def BalancedDb (db : PaperDb) : Prop := ∀ account, db.account = some account → Balanced account

variable {db : PaperDb}

theorem BalancedDb.initialized (h : BalancedDb db) (startingEquity : ℚ) (now : Time) :
    BalancedDb (initializePaperAccount startingEquity now db) := by
  unfold initializePaperAccount
  split
  · exact h
  · rintro _ ⟨⟩
    constructor <;> simp

theorem BalancedDb.apply (h : BalancedDb db) (op : PaperOp) : BalancedDb (db.apply op) := by
  cases op with
  | initializeAccount startingEquity now => exact h.initialized startingEquity now
  | entry args =>
      refine commitPaperEntry_rule args h fun account hcase => ?_
      obtain ⟨stored, hstored, rfl⟩ := hcase.stored
      rintro _ ⟨⟩
      exact ((h stored hstored).cleared _ _).entered args
  | exit args =>
      refine commitPaperExit_rule args h fun account id row hcase => ?_
      rintro _ ⟨⟩
      exact (h account hcase.account).exited args row
  | operationalCost args =>
      refine recordOperationalCost_rule args h fun account haccount => ?_
      rintro _ ⟨⟩
      exact (h account haccount).charged args

theorem BalancedDb.marked (h : BalancedDb db) {ownedRun : Option String}
    {values : Dict String ℚ} {snapshot : LedgerState} {observedAt : Time}
    (hmirror : Mirrored db (.marks ownedRun values snapshot observedAt)) :
    BalancedDb (updatePaperMarks ownedRun values snapshot observedAt db).2 := by
  refine transaction_of_cases h ?_
  split
  · exact Or.inl ⟨_, rfl⟩
  · rename_i account haccount
    split
    · exact Or.inl ⟨_, rfl⟩
    · refine Or.inr ?_
      rintro _ ⟨⟩
      obtain ⟨hequity, hlocked⟩ := hmirror account haccount
      exact (h account haccount).marked hequity hlocked observedAt

theorem BalancedDb.advance (h : BalancedDb db) (op : AccountOp) (hop : Mirrored db op) :
    BalancedDb (db.advance op) := by
  cases op with
  | book op => exact h.apply op
  | marks ownedRun values snapshot observedAt => exact h.marked hop
  | activeRun run => exact h

/-- After every run of initialisations, entries, exits, operational costs and mark updates from
a mirroring ledger, cash, locked capital and unrealized gain add up to the equity, and the equity
is the starting equity with the realized and unrealized gain less the operational costs. -/
theorem run_balanced (ops : List AccountOp) (hrun : Along Mirrored PaperDb.advance {} ops) :
    ∀ account, (exec PaperDb.advance {} ops).account = some account → Balanced account :=
  hrun.invariant (I := BalancedDb) (fun _ op h hop => h.advance op hop) (by rintro _ ⟨⟩)

/-- The ledger after the sample position is marked at three dollars a token. -/
def markedLedger : LedgerState where
  equityUsd := 502
  peakEquityUsd := 502
  unrealizedPnlUsd := 9
  lockedCapitalUsd := 21
  positions := Dict.empty.set "position"
    { positionId := "position", tokenMint := "TOKEN", openFillId := "fill-entry"
      entryTokenAmount := 10, entryCostUsd := 21, openRatio := 21 / 10, openedAt := seconds 1
      lockedUsd := 21, remainingTokenAmount := 10, remainingCostUsd := 21
      highestExecutableValueUsd := 30, lowestExecutableValueUsd := some 30
      lastExecutableValueUsd := 30 }

/-- A cost before the bot starts, then an entry, a mark of the whole position and two exits, the
second without a quote. -/
def markedRun : List AccountOp :=
  [.book (.initializeAccount 500 0),
    .book (.operationalCost
      { costId := "cost", category := "rpc", amountUsd := 7, incurredAt := 0
        source := "aaaaaaaaaaaaaaaaaaaaaaaaaaaaaaaaaaaaaaaaaaaaaaaaaaaaaaaaaaaaaaaa"
        recordedAt := 0 }),
    .activeRun (some "run"),
    .book (.entry { sampleEntry with ownedRun := some "run" }),
    .marks (some "run") (Dict.empty.set "position" 30) markedLedger (seconds 2),
    .book (.exit { sampleExit "TP1" 4 10 (some sampleQuote) with ownedRun := some "run" }),
    .book (.exit { sampleExit "UNRECOVERABLE" 6 0 none with ownedRun := some "run" })]

theorem run_balanced_markedRun :
    (exec PaperDb.advance {} markedRun).account.map (fun account =>
        (account.cashBalance, account.equity, account.operationalCosts)) =
      some (481, 481, 7) ∧
    ∀ account, (exec PaperDb.advance {} markedRun).account = some account → Balanced account :=
  ⟨by decide +kernel, run_balanced markedRun (by decide +kernel)⟩

end SniperBot.Paper
