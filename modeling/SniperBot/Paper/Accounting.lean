import SniperBot.Paper.Database
import SniperBot.Basis.Run
import Mathlib.Tactic.Linarith
import Mathlib.Tactic.FieldSimp

/-!
# Locked capital and position rows

`BooksMatch` says what the account row owes to the position rows: the locked capital is the
remaining cost of the rows that are still open, and every other row is empty.

An exit without a sell quote sets the status `UNRECOVERABLE` whatever amount it sells. When it
sells only a part, the rest stays in the row and in the locked capital although the row is no
longer open (`partial_unquoted_exit_strands`). Runs in which every exit without a quote sells
all that is left keep the books matched (`run_booksMatch`).
-/

namespace SniperBot.Paper

open Basis

/-! ## The books -/

/-- The cost that an open row locks. -/
def liveCost (row : PositionRow) : ℚ := if row.status.Live then row.remainingCostUsd else 0

/-- The locked capital is the open cost, and rows that are not open are empty. -/
structure BooksMatch (db : PaperDb) : Prop where
  locked : ∀ account, db.account = some account →
    account.lockedCapital = Dict.total (fun _ row => liveCost row) db.positions
  settled : ∀ id row, db.positions.get? id = some row → ¬ row.status.Live →
    row.tokenAmountRaw = 0 ∧ row.remainingCostUsd = 0

/-- No row is written before the account. -/
structure Booked (db : PaperDb) : Prop extends BooksMatch db where
  unopened : db.account = none → Dict.total (fun _ row => liveCost row) db.positions = 0

/-! ## Runs -/

inductive PaperOp
  | initializeAccount (startingEquity : ℚ) (now : Time)
  | entry (args : EntryArgs)
  | exit (args : ExitArgs)
  | operationalCost (args : CostArgs)

/-- Perform an operation; a call that raises changes nothing. -/
def PaperDb.apply (db : PaperDb) : PaperOp → PaperDb
  | .initializeAccount startingEquity now => initializePaperAccount startingEquity now db
  | .entry args => (commitPaperEntry args db).2
  | .exit args => (commitPaperExit args db).2
  | .operationalCost args => (recordOperationalCost args db).2

/-- An exit without a quote sells all that is left of the position. -/
def SellsAllUnquoted (db : PaperDb) : PaperOp → Prop
  | .exit args => args.quote = none →
      ∀ e ∈ db.livePosition args.mint, e.2.tokenAmountRaw ≤ args.tokenAmount
  | _ => True

instance (db : PaperDb) : (op : PaperOp) → Decidable (SellsAllUnquoted db op)
  | .exit args => inferInstanceAs (Decidable (args.quote = none →
      ∀ e ∈ db.livePosition args.mint, e.2.tokenAmountRaw ≤ args.tokenAmount))
  | .initializeAccount _ _ | .entry _ | .operationalCost _ => inferInstanceAs (Decidable True)

variable {db : PaperDb}

/-! ## Entries -/

theorem Booked.entered (h : Booked db) {args : EntryArgs} {account : AccountRow}
    (hcase : EntryCase db args account) : Booked (db.entered account args) := by
  obtain ⟨stored, hstored, hcleared⟩ := hcase.stored
  have hlocked : account.lockedCapital = stored.lockedCapital := by
    obtain ⟨halt, pause, date, hframe⟩ := cleared_frame stored args.filledAt args.limits.dayKey
    rw [hcleared, hframe]
  refine ⟨⟨?_, ?_⟩, ?_⟩
  · rintro _ ⟨⟩
    simp only [PaperDb.entered]
    rw [Dict.total_set_new _ hcase.freshPosition, ← h.locked stored hstored, ← hlocked]
    rfl
  · intro id row hget hlive
    simp only [PaperDb.entered] at hget
    rw [Dict.get?_set] at hget
    split at hget
    · cases hget
      exact absurd (Or.inl rfl) hlive
    · exact h.settled id row hget hlive
  · rintro ⟨⟩

/-! ## Exits -/

section Exit

variable {args : ExitArgs} {account : AccountRow} {id : String} {row : PositionRow}

theorem ExitCase.tokens_pos (h : ExitCase db args account id row) : 0 < row.tokenAmountRaw :=
  lt_of_lt_of_le h.amount h.available

theorem proportionalCost_of_all (htokens : 0 < row.tokenAmountRaw)
    (hall : args.tokenAmount = row.tokenAmountRaw) :
    args.proportionalCost row = row.remainingCostUsd := by
  rw [ExitArgs.proportionalCost, PositionRow.costPerToken, hall]
  field_simp

theorem ExitCase.final_iff (h : ExitCase db args account id row) :
    args.Final row ↔ args.tokenAmount = row.tokenAmountRaw := by
  unfold ExitArgs.Final
  constructor
  · intro hle
    exact le_antisymm h.available (by linarith)
  · intro heq
    linarith

/-- A row that leaves the open statuses in an exit that sells everything is empty. -/
theorem exitedRow_settled (h : ExitCase db args account id row)
    (hall : args.quote = none → row.tokenAmountRaw ≤ args.tokenAmount)
    (hlive : ¬ (args.exitedRow row).status.Live) :
    (args.exitedRow row).tokenAmountRaw = 0 ∧ (args.exitedRow row).remainingCostUsd = 0 := by
  have hsold : args.tokenAmount = row.tokenAmountRaw := by
    by_cases hquote : args.quote = none
    · exact le_antisymm h.available (hall hquote)
    · refine h.final_iff.mp ?_
      by_contra hfinal
      apply hlive
      have hnone : args.quote.isNone = false := by
        cases hq : args.quote with
        | none => exact absurd hq hquote
        | some quote => rfl
      show (args.newStatus row).Live
      rw [ExitArgs.newStatus, hnone, if_neg (by decide), if_neg hfinal]
      exact Or.inr rfl
  constructor
  · show row.tokenAmountRaw - args.tokenAmount = 0
    rw [hsold, sub_self]
  · show row.remainingCostUsd - args.proportionalCost row = 0
    rw [proportionalCost_of_all h.tokens_pos hsold, sub_self]

theorem liveCost_exitedRow (h : ExitCase db args account id row)
    (hall : args.quote = none → row.tokenAmountRaw ≤ args.tokenAmount) :
    liveCost (args.exitedRow row) = liveCost row - args.proportionalCost row := by
  have hold : liveCost row = row.remainingCostUsd := if_pos (livePosition_some h.found).2.2
  rw [hold, liveCost]
  by_cases hlive : (args.exitedRow row).status.Live
  · rw [if_pos hlive]
    rfl
  · rw [if_neg hlive]
    exact (exitedRow_settled h hall hlive).2.symm

theorem Booked.exited (h : Booked db) (hcase : ExitCase db args account id row)
    (hall : args.quote = none → row.tokenAmountRaw ≤ args.tokenAmount) :
    Booked (db.exited account args id row) := by
  have hget := (livePosition_some hcase.found).1
  refine ⟨⟨?_, ?_⟩, ?_⟩
  · rintro _ ⟨⟩
    have htotal := Dict.total_set_old (fun _ row => liveCost row) hget (args.exitedRow row)
    rw [liveCost_exitedRow hcase hall] at htotal
    have hlocked := h.locked account hcase.account
    simp only [PaperDb.exited, AccountRow.exited]
    linarith
  · intro j stored hstored hlive
    simp only [PaperDb.exited] at hstored
    rw [Dict.get?_set] at hstored
    split at hstored
    · cases hstored
      exact exitedRow_settled hcase hall hlive
    · exact h.settled j stored hstored hlive
  · rintro ⟨⟩

end Exit

/-! ## Initialisation and operational costs -/

theorem Booked.initialized (h : Booked db) (startingEquity : ℚ) (now : Time) :
    Booked (initializePaperAccount startingEquity now db) := by
  unfold initializePaperAccount
  split
  · exact h
  · rename_i hnone
    refine ⟨⟨?_, h.settled⟩, ?_⟩
    · rintro _ ⟨⟩
      exact (h.unopened hnone).symm
    · rintro ⟨⟩

/-- A cost leaves the locked capital and the positions alone. -/
theorem Booked.charged (h : Booked db) (args : CostArgs) :
    Booked (recordOperationalCost args db).2 := by
  refine recordOperationalCost_rule args h fun account haccount => ⟨⟨?_, h.settled⟩, ?_⟩
  · rintro _ ⟨⟩
    exact h.locked account haccount
  · rintro ⟨⟩

/-! ## Every run -/

theorem Booked.init : Booked {} := by
  refine ⟨⟨?_, ?_⟩, fun _ => rfl⟩
  · rintro _ ⟨⟩
  · rintro _ _ ⟨⟩

theorem Booked.apply (h : Booked db) (op : PaperOp) (hop : SellsAllUnquoted db op) :
    Booked (db.apply op) := by
  cases op with
  | initializeAccount startingEquity now => exact h.initialized startingEquity now
  | entry args => exact commitPaperEntry_rule args h fun account hcase => h.entered hcase
  | exit args =>
      refine commitPaperExit_rule args h fun account id row hcase => h.exited hcase ?_
      intro hquote
      exact hop hquote (id, row) hcase.found
  | operationalCost args => exact h.charged args

/-- After every run of initialisations, entries, exits and operational costs on empty tables
in which each exit without a quote sells all that is left, the locked capital is the remaining
cost of the open rows and every other row is empty. -/
theorem run_booksMatch (ops : List PaperOp) (hrun : Along SellsAllUnquoted PaperDb.apply {} ops) :
    BooksMatch (exec PaperDb.apply {} ops) :=
  (hrun.invariant (I := Booked) (fun _ op h hop => h.apply op hop) Booked.init).toBooksMatch

/-! ## Two runs -/

/-- A quote for ten tokens at two dollars each. -/
def sampleQuote : QuoteResponse := { inAmount := 20, outAmount := 10, estimatedNetworkFeeUsd := 1 }

def sampleEntry : EntryArgs where
  candidateId := "candidate"
  poolAddress := "pool"
  mint := "TOKEN"
  orderId := "entry:candidate"
  positionId := "position"
  fillId := "fill-entry"
  quoteId := "quote-entry"
  quote := sampleQuote
  requestedUsd := 20
  filledTokenAmount := 10
  adverseFillBps := 0
  filledAt := seconds 1
  limits := { dayKey := "1970-01-01", dayStart := 0, dayEnd := seconds 86400 }

/-- An exit of the sample position. -/
def sampleExit (reason : String) (tokenAmount usdReceived : ℚ) (quote : Option QuoteResponse) :
    ExitArgs where
  mint := "TOKEN"
  orderId := "exit:position:" ++ reason
  fillId := "fill-" ++ reason
  quoteId := "quote-" ++ reason
  tokenAmount := tokenAmount
  usdReceived := usdReceived
  quote := quote
  adverseFillBps := 0
  exitReason := reason
  filledAt := seconds 2

/-- A quoted partial exit, then an exit of the rest without a quote. -/
def unquotedRest : List PaperOp :=
  [.initializeAccount 500 0, .entry sampleEntry, .exit (sampleExit "TP1" 4 10 (some sampleQuote)),
    .exit (sampleExit "UNRECOVERABLE" 6 0 none)]

theorem run_booksMatch_unquotedRest : BooksMatch (exec PaperDb.apply {} unquotedRest) :=
  run_booksMatch unquotedRest (by decide +kernel)

/-- A partial exit without a quote. -/
def unquotedPart : List PaperOp :=
  [.initializeAccount 500 0, .entry sampleEntry, .exit (sampleExit "UNRECOVERABLE" 5 0 none)]

/-- The row is `UNRECOVERABLE` with half of its tokens and cost left, and the locked capital
still holds that cost. -/
theorem partial_unquoted_exit_strands :
    ((exec PaperDb.apply {} unquotedPart).positions.get? "position").map
        (fun row => (row.status, row.tokenAmountRaw, row.remainingCostUsd)) =
      some (.unrecoverable, 5, 21 / 2) ∧
    (exec PaperDb.apply {} unquotedPart).account.map (·.lockedCapital) = some (21 / 2) ∧
    ¬ BooksMatch (exec PaperDb.apply {} unquotedPart) := by
  have hrow : ((exec PaperDb.apply {} unquotedPart).positions.get? "position").map
      (fun row => (row.status, row.tokenAmountRaw, row.remainingCostUsd)) =
      some (.unrecoverable, 5, 21 / 2) := by decide +kernel
  refine ⟨hrow, by decide +kernel, fun hmatch => ?_⟩
  obtain ⟨row, hget, hfields⟩ := Option.map_eq_some_iff.mp hrow
  simp only [Prod.mk.injEq] at hfields
  have hempty := hmatch.settled "position" row hget (by rw [hfields.1]; decide)
  rw [hfields.2.1] at hempty
  exact absurd hempty.1 (by decide +kernel)

end SniperBot.Paper
