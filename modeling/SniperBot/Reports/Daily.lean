import SniperBot.Basis.Ranking
import SniperBot.Paper.Days
import SniperBot.Paper.Agreement
import SniperBot.Paper.Restore
import Mathlib.Data.Prod.Lex
import Mathlib.Data.String.Basic

/-!
# The daily report

`load_daily_equity_bounds` (`database.py`) chooses the marks that bound a day, and
`ReportBuilder.daily` (`reports.py`) compares them with the gain of the day's fills. The mark of the
start may be as old as the start itself, while a fill at that instant belongs to the day; among
marks of one instant the greatest id wins, and ids are random; and the comparison leaves the
operational costs out.

Where the ids of the two boundaries come in the order of the commits, the first of these decides
about the identity, and the costs of the day about the flag (`reportRight_iff`).
-/

namespace SniperBot.Reports

open Basis Ledger Paper

/-! ## The bounds of a day -/

/-- A row of `paper_equity_marks` with its id. -/
abbrev MarkRow := String × EquityMarkRow

def markKey (row : MarkRow) : Time ×ₗ String := toLex (row.2.observedAt, row.1)

structure DailyBounds where
  startingEquityUsd : ℚ
  startingUnrealizedPnlUsd : ℚ
  endingEquityUsd : ℚ
  endingUnrealizedPnlUsd : ℚ
  equityPathUsd : List ℚ
  endingObservedAt : Time
  deriving DecidableEq, Repr

/-- `ORDER BY observed_at DESC, id DESC LIMIT 1` -/
def newest (rows : List MarkRow) : Option MarkRow := (sortedBy markKey rows).getLast?

/-- `load_daily_equity_bounds` -/
def loadDailyEquityBounds (rows : List MarkRow) (startUtc endUtc : Time) : Option DailyBounds :=
  let startMark := newest (rows.filter fun row => row.2.observedAt ≤ startUtc)
  let endMark := newest (rows.filter fun row => row.2.observedAt < endUtc)
  let marks := sortedBy markKey
    (rows.filter fun row => startUtc ≤ row.2.observedAt ∧ row.2.observedAt < endUtc)
  endMark.map fun endMark =>
    let firstMark := marks.head?.getD endMark
    let baselineMark := startMark.getD firstMark
    { startingEquityUsd := baselineMark.2.equity
      startingUnrealizedPnlUsd := baselineMark.2.unrealizedPnl
      endingEquityUsd := endMark.2.equity
      endingUnrealizedPnlUsd := endMark.2.unrealizedPnl
      equityPathUsd := baselineMark.2.equity :: marks.map (·.2.equity)
      endingObservedAt := endMark.2.observedAt }

/-! ## The report -/

/-- The capital figures of a daily report and its reconciliation. -/
structure DailyReport where
  startingEquityUsd : ℚ
  endingEquityUsd : ℚ
  realizedPnlUsd : ℚ
  unrealizedPnlUsd : ℚ
  expectedEquityUsd : ℚ
  totalExitNotionalUsd : ℚ
  equityPathUsd : List ℚ
  isReconciled : Bool
  deriving DecidableEq, Repr

def exitPnl (fill : FillRecord) : ℚ := fill.usdNotional - fill.costBasisUsd * fill.tokenAmount

def pnlOf (exits : List FillRecord) : ℚ := (exits.map exitPnl).sum

/-- `daily`, as far as the capital is concerned; `configured` is the starting equity of the
configuration and `currentDay` says that the report is about the current day. -/
def daily (configured : ℚ) (ledger : LedgerState) (currentDay : Bool) (startUtc endUtc : Time)
    (capitalBounds : Option DailyBounds) : DailyReport :=
  let fills := ledger.fills.filter fun item => startUtc ≤ item.createdAt ∧ item.createdAt < endUtc
  let exits := fills.filter fun item => item.fillType = .exit
  let realized := pnlOf exits
  let priorRealized := pnlOf (ledger.fills.filter fun item =>
    item.fillType = .exit ∧ item.createdAt < startUtc)
  let startingEquity := configured + priorRealized
  match capitalBounds with
  | none =>
      let endingEquity := if currentDay then ledger.equityUsd else startingEquity + realized
      let unrealized := if currentDay then ledger.unrealizedPnlUsd else 0
      { startingEquityUsd := startingEquity
        endingEquityUsd := endingEquity
        realizedPnlUsd := realized
        unrealizedPnlUsd := unrealized
        expectedEquityUsd := startingEquity + realized + unrealized - 0
        totalExitNotionalUsd := (exits.map (·.usdNotional)).sum
        equityPathUsd := []
        isReconciled := realized = pnlOf exits }
  | some bounds =>
      let expected := bounds.startingEquityUsd + realized + bounds.endingUnrealizedPnlUsd -
        bounds.startingUnrealizedPnlUsd
      { startingEquityUsd := bounds.startingEquityUsd
        endingEquityUsd := bounds.endingEquityUsd
        realizedPnlUsd := realized
        unrealizedPnlUsd := bounds.endingUnrealizedPnlUsd
        expectedEquityUsd := expected
        totalExitNotionalUsd := (exits.map (·.usdNotional)).sum
        equityPathUsd := bounds.equityPathUsd
        isReconciled := |bounds.endingEquityUsd - expected| ≤ 1 / 100 }

/-! ## Fills and rows -/

/-- What a report reads of a fill. -/
structure ShownFill where
  fillType : FillType
  createdAt : Time
  usdNotional : ℚ
  costBasisUsd : ℚ
  tokenAmount : ℚ
  deriving DecidableEq, Repr

def shown (fill : FillRecord) : ShownFill :=
  ⟨fill.fillType, fill.createdAt, fill.usdNotional, fill.costBasisUsd, fill.tokenAmount⟩

/-- The fill that a row is restored to. -/
def shownRow (row : FillRow) : ShownFill :=
  match row.side with
  | .buy => ⟨.entry, row.filledAt, row.inputUsd, row.costBasisUsd, row.outputRawAmount⟩
  | .sell => ⟨.exit, row.filledAt, row.outputUsd, row.costBasisUsd, row.inputRawAmount⟩

/-- The ledger has the fills of the database. -/
def ShowsFills (ledger : LedgerState) (db : PaperDb) : Prop :=
  (ledger.fills.map shown).Perm (db.fills.values.map shownRow)

theorem restoredFill_shown {db : PaperDb} {id : String} {row : FillRow} {fill : FillRecord}
    (h : restoredFill db id row = some fill) : shown fill = shownRow row := by
  obtain ⟨order, -, hfill⟩ := Option.bind_eq_some_iff.mp h
  dsimp only at hfill
  split at hfill
  · cases hfill
    unfold shown shownRow
    cases row.side <;> rfl
  · cases hfill

/-- A ledger that is restored from the database has its fills. -/
theorem restoreLedger_showsFills {db : PaperDb} {signals : List SignalRow} {zone : Risk.TimeZone}
    {ledger : LedgerState} (h : restoreLedger db signals zone = some ledger) :
    ShowsFills ledger db := by
  obtain ⟨account, -, hfills⟩ := Option.bind_eq_some_iff.mp h
  have hfold : ∀ (entries : List (String × FillRow)) (s next : LedgerState),
      entries.foldlM (fun s e => restoreFill db zone s e.1 e.2) s = some next →
        next.fills.map shown = s.fills.map shown ++ (entries.map Prod.snd).map shownRow := by
    intro entries
    induction entries with
    | nil =>
        intro s next hnext
        cases hnext
        simp
    | cons e entries ih =>
        intro s next hnext
        rw [List.foldlM_cons] at hnext
        obtain ⟨mid, hmid, hrest⟩ := Option.bind_eq_some_iff.mp hnext
        obtain ⟨fill, hfill, rfl⟩ := Option.map_eq_some_iff.mp hmid
        have hshown := restoredFill_shown hfill
        rw [ih _ _ hrest]
        cases e.2.side <;> simp [hshown]
  have hall := hfold _ _ _ hfills
  exact .of_eq hall

/-- The gain of the exits of a period is the gain of its rows. -/
theorem pnlOf_exits {ledger : LedgerState} {db : PaperDb} (h : ShowsFills ledger db)
    (startUtc endUtc : Time) :
    pnlOf ((ledger.fills.filter fun item => startUtc ≤ item.createdAt ∧
        item.createdAt < endUtc).filter fun item => item.fillType = .exit) =
      db.realizedWhen fun t => startUtc ≤ t ∧ t < endUtc := by
  -- both sums run over the shown fills
  let amount (fill : ShownFill) : ℚ :=
    if startUtc ≤ fill.createdAt ∧ fill.createdAt < endUtc then
      if fill.fillType = .exit then fill.usdNotional - fill.costBasisUsd * fill.tokenAmount else 0
    else 0
  have hledger : ∀ fills : List FillRecord,
      pnlOf ((fills.filter fun item => startUtc ≤ item.createdAt ∧
        item.createdAt < endUtc).filter fun item => item.fillType = .exit) =
          ((fills.map shown).map amount).sum := by
    intro fills
    induction fills with
    | nil => rfl
    | cons fill rest ih =>
        rw [List.map_cons, List.map_cons, List.sum_cons, ← ih, List.filter_cons]
        by_cases htime : startUtc ≤ fill.createdAt ∧ fill.createdAt < endUtc
        · rw [if_pos (decide_eq_true htime), List.filter_cons]
          by_cases hexit : fill.fillType = .exit
          · rw [if_pos (decide_eq_true hexit)]
            simp [pnlOf, exitPnl, amount, shown, htime, hexit]
          · rw [if_neg (by simpa using hexit)]
            simp [amount, shown, hexit]
        · rw [if_neg (by simpa using htime)]
          simp only [amount, shown, if_neg htime, zero_add]
  have hrows : ((db.fills.values.map shownRow).map amount).sum =
      db.realizedWhen fun t => startUtc ≤ t ∧ t < endUtc := by
    rw [PaperDb.realizedWhen, Dict.total, Dict.values, List.map_map, List.map_map]
    congr 1
    apply List.map_congr_left
    intro e _
    have htime : (shownRow e.2).createdAt = e.2.filledAt := by
      unfold shownRow
      split <;> rfl
    have hpnl : (if (shownRow e.2).fillType = .exit then (shownRow e.2).usdNotional -
        (shownRow e.2).costBasisUsd * (shownRow e.2).tokenAmount else 0) = e.2.pnl := by
      unfold shownRow FillRow.pnl
      cases hside : e.2.side <;> simp
    simp only [Function.comp_apply, amount, htime, hpnl, decide_eq_true_eq]
  rw [hledger, (h.map amount).sum_eq, hrows]

/-! ## The chosen marks -/

/-- Among the rows of its instant the last row at an instant of `q` has the greatest id. -/
def TiesInOrder (rows : List MarkRow) (q : Time → Bool) : Prop :=
  ∀ last ∈ (rows.filter fun row => q row.2.observedAt).getLast?, ∀ row ∈ rows,
    row.2.observedAt = last.2.observedAt → row.1 ≤ last.1

instance (rows : List MarkRow) (q : Time → Bool) : Decidable (TiesInOrder rows q) :=
  inferInstanceAs (Decidable (∀ last ∈ (rows.filter fun row => q row.2.observedAt).getLast?,
    ∀ row ∈ rows, row.2.observedAt = last.2.observedAt → row.1 ≤ last.1))

theorem le_getLast {α κ : Type} [LinearOrder κ] (key : α → κ) {items : List α} {last item : α}
    (hsorted : items.Pairwise fun a b => key a ≤ key b) (hlast : items.getLast? = some last)
    (hitem : item ∈ items) : key item ≤ key last := by
  obtain ⟨front, rfl⟩ := List.getLast?_eq_some_iff.mp hlast
  obtain hfront | hone := List.mem_append.mp hitem
  · exact (List.pairwise_append.mp hsorted).2.2 item hfront last (List.mem_singleton_self _)
  · rw [List.mem_singleton.mp hone]

/-- The chosen row is the last one. -/
theorem newest_eq_getLast {rows : List MarkRow} {q : Time → Bool}
    (horder : InOrder (rows.map Prod.snd)) (hids : (rows.map Prod.fst).Nodup)
    (hties : TiesInOrder rows q) : newest (rows.filter fun row => q row.2.observedAt) =
      (rows.filter fun row => q row.2.observedAt).getLast? := by
  set picked := rows.filter fun row => q row.2.observedAt with hpicked
  have hperm := sortedBy_perm markKey picked
  cases hlast : picked.getLast? with
  | none =>
      rw [List.getLast?_eq_none_iff] at hlast
      rw [hlast]
      rfl
  | some last =>
      have hmem : last ∈ picked := List.mem_of_getLast? hlast
      cases hnewest : newest picked with
      | none =>
          rw [newest, List.getLast?_eq_none_iff] at hnewest
          rw [hnewest] at hperm
          rw [List.perm_nil.mp hperm.symm] at hmem
          cases hmem
      | some row =>
          have hrow : row ∈ picked := hperm.mem_iff.mp (List.mem_of_getLast? hnewest)
          have htimes : picked.Pairwise fun a b => a.2.observedAt ≤ b.2.observedAt :=
            (List.pairwise_map.mp horder).filter _
          have htime : row.2.observedAt ≤ last.2.observedAt :=
            le_getLast (fun row : MarkRow => row.2.observedAt) htimes hlast hrow
          have hbelow : markKey last ≤ markKey row :=
            le_getLast markKey (sortedBy_sorted markKey picked) hnewest (hperm.mem_iff.mpr hmem)
          have habove : markKey row ≤ markKey last := by
            rw [markKey, markKey, Prod.Lex.toLex_le_toLex]
            obtain hlt | heq := lt_or_eq_of_le htime
            · exact .inl hlt
            · exact .inr ⟨heq, hties last hlast row (List.mem_filter.mp hrow).1 heq⟩
          have hkey : row.1 = last.1 :=
            congrArg (fun k => (ofLex k).2) (le_antisymm habove hbelow)
          exact congrArg some (List.inj_on_of_nodup_map hids (List.mem_filter.mp hrow).1
            (List.mem_filter.mp hmem).1 hkey)

/-- The mark of the last operation, found among the rows. -/
theorem lastMark_of_rows {rows : List MarkRow} {db : PaperDb}
    (hrows : rows.map Prod.snd = db.equityMarks) (q : Time → Bool) :
    db.lastMark q = ((rows.filter fun row => q row.2.observedAt).getLast?).map Prod.snd := by
  rw [PaperDb.lastMark, ← hrows, List.filter_map, List.getLast?_map]
  rfl

/-! ## The reconciliation -/

/-- The report starts and ends with the equity of the last operations before its boundaries, its
figures add up, and it says so. -/
structure ReportRight (db : PaperDb) (bounds : DailyBounds) (report : DailyReport)
    (startUtc endUtc : Time) : Prop where
  starting : (db.lastMark fun t => t ≤ startUtc).map (·.equity) = some report.startingEquityUsd
  ending : (db.lastMark fun t => t < endUtc).map (·.equity) = some report.endingEquityUsd
  identity : |report.endingEquityUsd - (report.startingEquityUsd + report.realizedPnlUsd +
    report.unrealizedPnlUsd - bounds.startingUnrealizedPnlUsd -
      db.costsWhen fun t => startUtc ≤ t ∧ t < endUtc)| ≤ 1 / 100
  flag : report.isReconciled = true

section Day

variable {db : PaperDb} {rows : List MarkRow} {startUtc endUtc : Time}

/-- Where no tie is broken against the order of the commits, the bounds of a day are the last marks
before its two boundaries. -/
theorem loadDailyEquityBounds_eq (horder : InOrder db.equityMarks)
    (hrows : rows.map Prod.snd = db.equityMarks) (hids : (rows.map Prod.fst).Nodup)
    (hday : startUtc < endUtc) (hinit : ∃ mark ∈ db.equityMarks, mark.observedAt ≤ startUtc)
    (hstart : TiesInOrder rows fun t => t ≤ startUtc)
    (hend : TiesInOrder rows fun t => t < endUtc) :
    ∃ first last path observedAt, loadDailyEquityBounds rows startUtc endUtc =
        some ⟨first.equity, first.unrealizedPnl, last.equity, last.unrealizedPnl, path,
          observedAt⟩ ∧
      db.lastMark (fun t => t ≤ startUtc) = some first ∧
      db.lastMark (fun t => t < endUtc) = some last := by
  have hsorted : InOrder (rows.map Prod.snd) := hrows ▸ horder
  obtain ⟨mark, hmark, htime⟩ := hinit
  rw [← hrows] at hmark
  obtain ⟨row, hrow, rfl⟩ := List.mem_map.mp hmark
  have hpicked {q : Time → Bool} (hq : q row.2.observedAt = true) :
      ∃ last, (rows.filter fun row => q row.2.observedAt).getLast? = some last := by
    cases hlast : (rows.filter fun row => q row.2.observedAt).getLast? with
    | none =>
        rw [List.getLast?_eq_none_iff, List.filter_eq_nil_iff] at hlast
        exact absurd hq (hlast row hrow)
    | some last => exact ⟨last, rfl⟩
  obtain ⟨first, hfirst⟩ := hpicked (q := fun t => t ≤ startUtc) (decide_eq_true htime)
  obtain ⟨last, hlast⟩ := hpicked (q := fun t => t < endUtc)
    (decide_eq_true (htime.trans_lt hday))
  have hnewestFirst := (newest_eq_getLast hsorted hids hstart).trans hfirst
  have hnewestLast := (newest_eq_getLast hsorted hids hend).trans hlast
  refine ⟨first.2, last.2, first.2.equity :: (sortedBy markKey (rows.filter fun row =>
    startUtc ≤ row.2.observedAt ∧ row.2.observedAt < endUtc)).map (·.2.equity),
    last.2.observedAt, ?_, ?_, ?_⟩
  · rw [loadDailyEquityBounds, hnewestFirst, hnewestLast]
    rfl
  · rw [lastMark_of_rows hrows, hfirst, Option.map_some]
  · rw [lastMark_of_rows hrows, hlast, Option.map_some]

end Day

/-- Where no tie is broken against the order of the commits, the report is right exactly when the
gain and the costs at the instant of the start are the same, and the day's costs after that instant
are nothing but what that gain hides, up to a cent each. -/
theorem reportRight_iff {ops : List AccountOp} (hrun : Along Timed PaperDb.advance {} ops)
    {rows : List MarkRow} (hrows : rows.map Prod.snd = (exec PaperDb.advance {} ops).equityMarks)
    (hids : (rows.map Prod.fst).Nodup) {startUtc endUtc : Time} (hday : startUtc < endUtc)
    (hinit : ∃ mark ∈ (exec PaperDb.advance {} ops).equityMarks, mark.observedAt ≤ startUtc)
    (hstart : TiesInOrder rows fun t => t ≤ startUtc)
    (hend : TiesInOrder rows fun t => t < endUtc) {ledger : LedgerState}
    (hfills : ShowsFills ledger (exec PaperDb.advance {} ops)) (configured : ℚ)
    (currentDay : Bool) :
    let db := exec PaperDb.advance {} ops
    ∃ bounds, loadDailyEquityBounds rows startUtc endUtc = some bounds ∧
      (ReportRight db bounds (daily configured ledger currentDay startUtc endUtc (some bounds))
          startUtc endUtc ↔
        |db.realizedWhen (fun t => t = startUtc) - db.costsWhen fun t => t = startUtc| ≤ 1 / 100 ∧
        |(db.realizedWhen fun t => t = startUtc) +
          db.costsWhen fun t => startUtc < t ∧ t < endUtc| ≤ 1 / 100) := by
  intro db
  have hbooks : DayBooks db := run_dayBooks hrun
  have horder : InOrder db.equityMarks :=
    hrun.invariant (I := fun db : PaperDb => InOrder db.equityMarks) (fun _ _ _ hop => hop.2)
      (show InOrder [] from .nil)
  obtain ⟨first, last, path, observedAt, hload, hfirst, hlast⟩ :=
    loadDailyEquityBounds_eq horder hrows hids hday hinit hstart hend
  obtain ⟨account, haccount⟩ : ∃ account, db.account = some account := by
    obtain ⟨mark, hmark, -⟩ := hinit
    cases hnone : db.account with
    | none =>
        rw [(hbooks.unopened hnone).1] at hmark
        cases hmark
    | some account => exact ⟨account, rfl⟩
  have hfirstNet := hbooks.cut (fun t => t ≤ startUtc)
    (fun a b hab hb => decide_eq_true (hab.trans (of_decide_eq_true hb))) account first haccount
      hfirst
  have hlastNet := hbooks.cut (fun t => t < endUtc)
    (fun a b hab hb => decide_eq_true (hab.trans_lt (of_decide_eq_true hb))) account last haccount
      hlast
  -- the instants before the end: those up to the start, and those of the day after the start
  have hend' (t : Time) : decide (t < endUtc) =
      (decide (t ≤ startUtc) || decide (startUtc < t ∧ t < endUtc)) := by
    grind
  have hday' (t : Time) : decide (startUtc ≤ t ∧ t < endUtc) =
      (decide (t = startUtc) || decide (startUtc < t ∧ t < endUtc)) := by
    grind
  have hrealizedEnd := realizedWhen_split db hend' (by grind)
  have hcostsEnd := costsWhen_split db hend' (by grind)
  have hrealizedDay := realizedWhen_split db hday' (by grind)
  have hcostsDay := costsWhen_split db hday' (by grind)
  have hpnl := pnlOf_exits hfills startUtc endUtc
  simp only [EquityMarkRow.net] at hfirstNet hlastNet
  set realized := pnlOf ((ledger.fills.filter fun item => startUtc ≤ item.createdAt ∧
    item.createdAt < endUtc).filter fun item => item.fillType = .exit)
  have hidentity : last.equity - (first.equity + realized + last.unrealizedPnl -
      first.unrealizedPnl - db.costsWhen fun t => startUtc ≤ t ∧ t < endUtc) =
        -((db.realizedWhen fun t => t = startUtc) - db.costsWhen fun t => t = startUtc) := by
    linarith
  have hflag : last.equity - (first.equity + realized + last.unrealizedPnl -
      first.unrealizedPnl) = -((db.realizedWhen fun t => t = startUtc) +
        db.costsWhen fun t => startUtc < t ∧ t < endUtc) := by
    linarith
  refine ⟨_, hload, ⟨fun h => ⟨?_, ?_⟩, fun h => ⟨?_, ?_, ?_, ?_⟩⟩⟩
  · rw [← abs_neg, ← hidentity]
    exact h.identity
  · rw [← abs_neg, ← hflag]
    exact of_decide_eq_true h.flag
  · rw [hfirst]
    rfl
  · rw [hlast]
    rfl
  · rw [← abs_neg, ← hidentity] at h
    exact h.1
  · have hsmall := h.2
    rw [← abs_neg, ← hflag] at hsmall
    exact decide_eq_true hsmall

/-! ## A day with a trade, a day with a cost, and a tie -/

/-- A position is opened and closed on the second day. -/
def tradedDay : List AccountOp :=
  [.book (.initializeAccount 500 0),
    .book (.entry { sampleEntry with filledAt := seconds 86401 }),
    .book (.exit { sampleExit "TP1" 4 10 (some sampleQuote) with filledAt := seconds 86402 }),
    .book (.exit { sampleExit "TP2" 6 9 (some sampleQuote) with filledAt := seconds 86402 })]

/-- The marks with ids that come in the order of the commits. -/
def tradedRows : List MarkRow :=
  ["a", "b", "c", "d"].zip (exec PaperDb.advance {} tradedDay).equityMarks

theorem reportRight_iff_tradedDay : ∃ ledger bounds,
    loadDailyEquityBounds tradedRows (seconds 86400) (seconds 172800) = some bounds ∧
      ReportRight (exec PaperDb.advance {} tradedDay) bounds
        (daily 500 ledger false (seconds 86400) (seconds 172800) (some bounds))
        (seconds 86400) (seconds 172800) := by
  have hsome : (restoreLedger (exec PaperDb.advance {} tradedDay) []
      sampleBroker.zone).isSome = true := by decide +kernel
  obtain ⟨ledger, hledger⟩ := Option.isSome_iff_exists.mp hsome
  have hrun : Along Timed PaperDb.advance {} tradedDay := by decide +kernel
  have hrows : tradedRows.map Prod.snd = (exec PaperDb.advance {} tradedDay).equityMarks := by
    decide +kernel
  have hday : seconds 86400 < seconds 172800 := by decide
  obtain ⟨bounds, hload, hiff⟩ := reportRight_iff hrun hrows (by decide +kernel) hday
    (by decide +kernel) (by decide +kernel) (by decide +kernel)
    (restoreLedger_showsFills hledger) 500 false
  exact ⟨ledger, bounds, hload, hiff.mpr ⟨by decide +kernel, by decide +kernel⟩⟩

/-- A cost of seven dollars, recorded at some time. -/
def sevenAt (recordedAt : Time) : List AccountOp :=
  [.book (.initializeAccount 500 0),
    .book (.operationalCost
      { costId := "cost", category := "rpc", amountUsd := 7, incurredAt := 0
        source := "aaaaaaaaaaaaaaaaaaaaaaaaaaaaaaaaaaaaaaaaaaaaaaaaaaaaaaaaaaaaaaaa"
        recordedAt := recordedAt })]

/-- The two marks with their ids. -/
def sevenRows (first second : String) (recordedAt : Time) : List MarkRow :=
  [first, second].zip (exec PaperDb.advance {} (sevenAt recordedAt)).equityMarks

def sevenLedger : LedgerState where
  equityUsd := 493
  peakEquityUsd := 500

/-- A cost of the day makes the report unreconciled. A cost at the instant of the initialisation
whose mark has the smaller id is missing in the equity that the next day starts with. -/
theorem recorded_cost_not_reconciled :
    ((loadDailyEquityBounds (sevenRows "a" "b" (seconds 90000)) (seconds 86400)
      (seconds 172800)).map fun bounds => (daily 500 sevenLedger false (seconds 86400)
        (seconds 172800) (some bounds)).isReconciled) = some false ∧
    ((loadDailyEquityBounds (sevenRows "b" "a" 0) (seconds 86400) (seconds 172800)).map
      (·.startingEquityUsd)) = some 500 ∧
    ((exec PaperDb.advance {} (sevenAt 0)).lastMark fun t => t ≤ seconds 86400).map (·.equity) =
      some 493 ∧
    ¬ ∀ (ops : List AccountOp) (rows : List MarkRow) (startUtc endUtc : Time)
        (ledger : LedgerState), Along Timed PaperDb.advance {} ops →
      rows.map Prod.snd = (exec PaperDb.advance {} ops).equityMarks →
      (rows.map Prod.fst).Nodup → startUtc < endUtc →
      (∃ mark ∈ (exec PaperDb.advance {} ops).equityMarks, mark.observedAt ≤ startUtc) →
      ShowsFills ledger (exec PaperDb.advance {} ops) →
      ∃ bounds, loadDailyEquityBounds rows startUtc endUtc = some bounds ∧
        ReportRight (exec PaperDb.advance {} ops) bounds
          (daily 500 ledger false startUtc endUtc (some bounds)) startUtc endUtc := by
  have hflag : ((loadDailyEquityBounds (sevenRows "a" "b" (seconds 90000)) (seconds 86400)
      (seconds 172800)).map fun bounds => (daily 500 sevenLedger false (seconds 86400)
        (seconds 172800) (some bounds)).isReconciled) = some false := by decide +kernel
  refine ⟨hflag, by decide +kernel, by decide +kernel, fun h => ?_⟩
  obtain ⟨bounds, hload, hright⟩ := h (sevenAt (seconds 90000))
    (sevenRows "a" "b" (seconds 90000)) (seconds 86400) (seconds 172800) sevenLedger
    (by decide +kernel) (by decide +kernel) (by decide +kernel) (by decide) (by decide +kernel)
    (.of_eq (by decide +kernel))
  rw [hload, Option.map_some, hright.flag] at hflag
  cases hflag

end SniperBot.Reports
