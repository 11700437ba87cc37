import SniperBot.Ledger.Indices
import SniperBot.Paper.Rehydration

/-!
# Risk checks after a restart

`load_paper_ledger` reads the fill rows without an order, and `consecutive_losses` reads the
losing streak off the end of the restored list. The other inputs of `evaluate_entry` do not depend
on the order of the rows.

* `consecutiveLosses_of_oneKind`: a streak is the number of losing exits, in every order, when the
  exits are all losses or none is.
* `evaluateEntry_alike_iff`: ledgers that agree in their amounts answer alike exactly when the
  controls stop both alike and they compare the day with the same equity.
* `run_restored_risk`: the restored ledger answers as the live one, for every order of the fill
  rows, exactly when the exits are of one kind and the rows have the controls and the day baseline
  of the live ledger.
-/

namespace SniperBot.Risk

open Basis Ledger Paper

/-! ## Streaks and orders -/

/-- The exits are all losses, or none is. -/
def OneKind (fills : List FillRecord) : Prop :=
  (∀ fill ∈ fills, fill.fillType = .exit → Losing fill) ∨ ∀ fill ∈ fills, ¬ Losing fill

theorem countLosses_of_losing {fills : List FillRecord}
    (h : ∀ fill ∈ fills, fill.fillType = .exit → Losing fill) :
    countLosses fills = (fills.filter fun fill => Losing fill).length := by
  induction fills with
  | nil => rfl
  | cons fill older ih =>
      have holder := ih fun f hf => h f (List.mem_cons_of_mem _ hf)
      by_cases htype : fill.fillType = .exit
      · have hloss := h fill List.mem_cons_self htype
        rw [countLosses, if_neg (not_not.mpr htype), if_pos hloss.2, holder,
          List.filter_cons_of_pos (by simpa using hloss), List.length_cons]
      · have hnot : ¬ Losing fill := fun hloss => htype hloss.1
        rw [countLosses, if_pos htype, holder, List.filter_cons_of_neg (by simpa using hnot)]

theorem countLosses_of_not_losing {fills : List FillRecord} (h : ∀ fill ∈ fills, ¬ Losing fill) :
    countLosses fills = 0 := by
  have happend := countLosses_append [] h
  rw [List.append_nil] at happend
  rw [happend]
  split <;> rfl

/-- Exits of one kind: the streak is the number of losing exits. -/
theorem consecutiveLosses_of_oneKind {s : LedgerState} (h : OneKind s.fills) :
    consecutiveLosses s = (s.fills.filter fun fill => Losing fill).length := by
  have hlength : (s.fills.reverse.filter fun fill => Losing fill).length =
      (s.fills.filter fun fill => Losing fill).length :=
    (s.fills.reverse_perm.filter _).length_eq
  rcases h with hlosing | hnone
  · rw [consecutiveLosses, countLosses_of_losing fun f hf => hlosing f (List.mem_reverse.mp hf),
      hlength]
  · rw [consecutiveLosses, countLosses_of_not_losing fun f hf => hnone f (List.mem_reverse.mp hf)]
    symm
    rw [List.length_eq_zero_iff, List.filter_eq_nil_iff]
    intro f hf
    simpa using hnone f hf

/-- A newest exit decides whether there is a streak. -/
theorem consecutiveLosses_pos_iff {s : LedgerState} {older : List FillRecord} {last : FillRecord}
    (hfills : s.fills = older ++ [last]) (hexit : last.fillType = .exit) :
    0 < consecutiveLosses s ↔ Losing last := by
  rw [consecutiveLosses, hfills, List.reverse_append, List.reverse_singleton,
    List.singleton_append, countLosses, if_neg (not_not.mpr hexit)]
  constructor
  · intro hpos
    split at hpos
    · rename_i hloss
      exact ⟨hexit, hloss⟩
    · exact absurd hpos (lt_irrefl 0)
  · intro hloss
    rw [if_pos hloss.2]
    exact Nat.succ_pos _

/-! ## Ledgers that answer alike -/

section Check

variable {risk : RiskConfig} {zone : TimeZone} {now : Time} {s t : LedgerState}
  {notionalUsdc : ℚ} {tokenMint : String}

theorem entryRules_ne_stop {reason : String} (h : entryStop zone now s = some reason) :
    entryRules risk zone now t notionalUsdc tokenMint ≠ .block reason := by
  unfold entryRules
  rcases entryStop_reason h with rfl | rfl <;> (repeat' split) <;> decide

/-- What the rules read, but for the baseline of the day. -/
structure SameAmounts (zone : TimeZone) (now : Time) (s t : LedgerState) : Prop where
  equity : t.equityUsd = s.equityUsd
  peak : t.peakEquityUsd = s.peakEquityUsd
  unrealized : t.unrealizedPnlUsd = s.unrealizedPnlUsd
  locked : t.lockedCapitalUsd = s.lockedCapitalUsd
  openCount : t.openPositions.length = s.openPositions.length
  trades : tradesToday zone t (zone.dateKey now) = tradesToday zone s (zone.dateKey now)
  streak : consecutiveLosses t = consecutiveLosses s
  index : ∀ mint, canOpen t mint ↔ canOpen s mint

/-- No limit tells the losses of the day apart: the baselines are equal, or neither shows one. -/
def SameDayLoss (equity baseline other : ℚ) : Prop :=
  other = baseline ∨ baseline < equity ∧ other < equity

instance (equity baseline other : ℚ) : Decidable (SameDayLoss equity baseline other) :=
  inferInstanceAs (Decidable (_ ∨ _))

theorem sameDayLoss_iff (equity baseline other : ℚ) :
    SameDayLoss equity baseline other ↔
      ∀ limit : ℚ, equity - other ≤ -|limit| ↔ equity - baseline ≤ -|limit| := by
  constructor
  · rintro (rfl | ⟨hgain, hgain'⟩) limit
    · exact Iff.rfl
    · have hlimit := abs_nonneg limit
      constructor <;> intro hloss <;> linarith
  · intro hall
    -- a limit of the loss itself
    have hle : ∀ b c : ℚ, (∀ limit : ℚ, equity - b ≤ -|limit| → equity - c ≤ -|limit|) →
        equity ≤ b → b ≤ c := by
      intro b c himp hloss
      have hlimit := himp (b - equity)
      rw [abs_of_nonneg (sub_nonneg.mpr hloss)] at hlimit
      linarith [hlimit (by linarith)]
    have hforth := hle other baseline fun limit => (hall limit).mp
    have hback := hle baseline other fun limit => (hall limit).mpr
    by_cases hloss : equity ≤ baseline
    · have hother := hloss.trans (hback hloss)
      exact Or.inl (le_antisymm (hforth hother) (hback hloss))
    · refine Or.inr ⟨not_le.mp hloss, lt_of_not_ge fun hother => hloss ?_⟩
      exact hother.trans (hforth hother)

/-- Where the amounts leave room, the loss of the day decides. -/
theorem entryRules_dailyLoss_iff (hsize : notionalUsdc ≤ risk.maxPositionUsdc)
    (hexposure : s.lockedCapitalUsd + notionalUsdc ≤ risk.maxExposureUsdc)
    (hopen : (s.openPositions.length : Int) < risk.maxOpenPositions)
    (hcash : notionalUsdc ≤ cashAvailableUsd s) :
    entryRules risk zone now s notionalUsdc tokenMint = .block "DAILY_LOSS_LIMIT" ↔
      s.equityUsd - dayBaseline zone now s ≤ -|risk.dailyLossLimitUsdc| := by
  unfold entryRules
  rw [if_neg (not_lt.mpr hsize), if_neg (not_lt.mpr hexposure), if_neg (not_le.mpr hopen),
    if_neg (not_lt.mpr hcash)]
  split
  · rename_i hloss
    exact iff_of_true rfl hloss
  · rename_i hkept
    refine iff_of_false ?_ hkept
    (repeat' split) <;> decide

theorem SameAmounts.cash (h : SameAmounts zone now s t) :
    cashAvailableUsd t = cashAvailableUsd s := by
  rw [cashAvailableUsd, cashAvailableUsd, h.equity, h.unrealized, h.locked]

theorem SameAmounts.entryRules_eq (h : SameAmounts zone now s t) (hpos : 0 < notionalUsdc)
    (hday : 0 < cashAvailableUsd s →
      SameDayLoss s.equityUsd (dayBaseline zone now s) (dayBaseline zone now t)) :
    entryRules risk zone now t notionalUsdc tokenMint =
      entryRules risk zone now s notionalUsdc tokenMint := by
  have hdrawdown : drawdownExceeded t risk.allTimeDrawdownLimitPct ↔
      drawdownExceeded s risk.allTimeDrawdownLimitPct := by
    rw [drawdownExceeded, drawdownExceeded, h.equity, h.peak]
  unfold entryRules
  simp only [h.locked, h.openCount, h.cash, h.trades, h.streak, h.index, h.equity, hdrawdown]
  by_cases hcash : cashAvailableUsd s < notionalUsdc
  · simp only [if_pos hcash]
  · have hloss := (sameDayLoss_iff _ _ _).mp (hday (hpos.trans_le (not_lt.mp hcash)))
    simp only [hloss]

/-- Ledgers that agree in their amounts answer alike exactly when the controls stop both alike
and, where an entry could be paid, no limit tells the losses of the day apart. -/
theorem evaluateEntry_alike_iff (h : SameAmounts zone now s t) :
    (∀ risk notionalUsdc tokenMint, (evaluateEntry risk zone now t notionalUsdc tokenMint).1 =
      (evaluateEntry risk zone now s notionalUsdc tokenMint).1) ↔
    entryStop zone now t = entryStop zone now s ∧
      (entryStop zone now s = none → 0 < cashAvailableUsd s →
        SameDayLoss s.equityUsd (dayBaseline zone now s) (dayBaseline zone now t)) := by
  constructor
  · intro halike
    -- a stop is not the answer of a rule
    have hstop : entryStop zone now t = entryStop zone now s := by
      have hone := halike ⟨0, 0, 0, 0, 0, 0, 0, 0, 0⟩ 1 ""
      rw [evaluateEntry_fst one_pos, evaluateEntry_fst one_pos, Except.ok.injEq] at hone
      cases ht : entryStop zone now t with
      | none =>
          cases hs : entryStop zone now s with
          | none => rfl
          | some reason =>
              simp only [ht, hs] at hone
              exact absurd hone (entryRules_ne_stop hs)
      | some reason =>
          cases hs : entryStop zone now s with
          | none =>
              simp only [ht, hs] at hone
              exact absurd hone.symm (entryRules_ne_stop ht)
          | some reason' =>
              simp only [ht, hs, RiskDecision.block.injEq] at hone
              rw [hone]
    refine ⟨hstop, fun hnone hcash => ?_⟩
    rw [sameDayLoss_iff]
    intro limit
    -- all the cash, with room for it and the limit on the loss
    obtain ⟨risk, hrisk⟩ : ∃ risk : RiskConfig, risk = ⟨cashAvailableUsd s,
        s.lockedCapitalUsd + cashAvailableUsd s, s.openPositions.length + 1, limit, 0, 0, 0, 0, 0⟩ :=
      ⟨_, rfl⟩
    have hone := halike risk (cashAvailableUsd s) ""
    rw [evaluateEntry_fst hcash, evaluateEntry_fst hcash, hstop, hnone, Except.ok.injEq] at hone
    dsimp only at hone
    have hlive : entryRules risk zone now s (cashAvailableUsd s) "" = .block "DAILY_LOSS_LIMIT" ↔
        s.equityUsd - dayBaseline zone now s ≤ -|risk.dailyLossLimitUsdc| := by
      subst hrisk
      exact entryRules_dailyLoss_iff le_rfl le_rfl (Int.lt_succ _) le_rfl
    have hother : entryRules risk zone now t (cashAvailableUsd s) "" = .block "DAILY_LOSS_LIMIT" ↔
        t.equityUsd - dayBaseline zone now t ≤ -|risk.dailyLossLimitUsdc| := by
      subst hrisk
      refine entryRules_dailyLoss_iff le_rfl ?_ ?_ h.cash.ge
      · rw [h.locked]
      · rw [h.openCount]
        exact Int.lt_succ _
    rw [hone, hlive, h.equity, hrisk] at hother
    exact hother.symm
  · rintro ⟨hstop, hday⟩ risk notionalUsdc tokenMint
    by_cases hpos : 0 < notionalUsdc
    · rw [evaluateEntry_fst hpos, evaluateEntry_fst hpos, hstop]
      cases hs : entryStop zone now s with
      | some reason => rfl
      | none => exact congrArg Except.ok (h.entryRules_eq hpos (hday hs))
    · rw [evaluateEntry, evaluateEntry, if_pos (not_lt.mp hpos), if_pos (not_lt.mp hpos)]

end Check

/-! ## The restored ledger -/

/-- The answers of the risk manager before and after a restart at `now`. -/
structure SameRisk (zone : TimeZone) (now : Time) (live restored : LedgerState) : Prop where
  streak : consecutiveLosses restored = consecutiveLosses live
  trades : ∀ day, tradesToday zone restored day = tradesToday zone live day
  decision : ∀ risk notionalUsdc tokenMint,
    (evaluateEntry risk zone now restored notionalUsdc tokenMint).1 =
      (evaluateEntry risk zone now live notionalUsdc tokenMint).1

/-- The ledger with the controls of the account row. -/
def withControls (s : LedgerState) (account : AccountRow) : LedgerState :=
  { s with
    haltReason := account.haltReason, pauseUntil := account.pauseUntil
    dailyHaltDate := account.dailyHaltDate }

/-- The equity that a process started at `now` compares the day with. -/
def storedBaseline (db : PaperDb) (zone : TimeZone) (now : Time) (equityUsd : ℚ) : ℚ :=
  (db.baselineEquity (zone.dayBounds now).1 (zone.dayBounds now).2).getD equityUsd

/-- The exits are of one kind, the controls of the account row stop an entry as those of the
ledger do, and the equity marks give a baseline that no limit tells from that of the ledger. -/
structure RestartSafe (zone : TimeZone) (now : Time) (s : BrokerState) : Prop where
  oneKind : OneKind s.ledger.fills
  stop : ∀ account ∈ s.db.account,
    entryStop zone now (withControls s.ledger account) = entryStop zone now s.ledger
  day : entryStop zone now s.ledger = none → 0 < cashAvailableUsd s.ledger →
    SameDayLoss s.ledger.equityUsd (dayBaseline zone now s.ledger)
      (storedBaseline s.db zone now s.ledger.equityUsd)

section Restored

variable {config : BrokerConfig} {s : BrokerState} {signals : List SignalRow} {zone : TimeZone}
  {now : Time} {account : AccountRow} {fills : Dict String FillRow} {restored : LedgerState}

/-- Rows and fills that correspond are equally many. -/
theorem length_filter_of_forall₂ {α β : Type} {R : α → β → Prop} {p : α → Bool} {q : β → Bool}
    {as : List α} {bs : List β} (h : List.Forall₂ R as bs) (hpq : ∀ a b, R a b → p a = q b) :
    (as.filter p).length = (bs.filter q).length := by
  induction h with
  | nil => rfl
  | cons hab _ ih =>
      rw [List.filter_cons, List.filter_cons, hpq _ _ hab]
      split
      · rw [List.length_cons, List.length_cons, ih]
      · exact ih

/-- A count of fills is a count of rows, in whatever order they are read. -/
theorem countFills_eq (hkept : Kept config s) (hperm : fills.entries.Perm s.db.fills.entries)
    (hrebuilt : Rebuilt (s.db.readingFills fills) signals zone now account fills.entries restored)
    {p : FillRecord → Bool} {q : String × FillRow → Bool}
    (hlive : ∀ fill e, FillKept s.db.orders fill e → p fill = q e)
    (hrow : ∀ e fill, restoredFill (s.db.readingFills fills) e.1 e.2 = some fill → q e = p fill) :
    (restored.fills.filter p).length = (s.ledger.fills.filter p).length := by
  rw [length_filter_of_forall₂ hkept.fills hlive, ← length_filter_of_forall₂ hrebuilt.fills hrow]
  exact (hperm.filter q).length_eq

/-- The row of a restored fill, and the live fill of that row. -/
theorem live_of_restored (hkept : Kept config s)
    (hperm : fills.entries.Perm s.db.fills.entries)
    (hrebuilt : Rebuilt (s.db.readingFills fills) signals zone now account fills.entries restored)
    {fill : FillRecord} (hfill : fill ∈ restored.fills) :
    ∃ live ∈ s.ledger.fills, (fill.fillType = .entry ↔ live.fillType = .entry) ∧
      (Losing fill ↔ Losing live) := by
  obtain ⟨e, he, hrow⟩ := exists_left_of_forall₂ hrebuilt.fills hfill
  obtain ⟨live, hlive, hfillKept⟩ := exists_left_of_forall₂ hkept.fills (hperm.mem_iff.mp he)
  obtain ⟨hside, -, hlosing⟩ := restoredFill_kept hrow
  exact ⟨live, hlive, hside.trans hfillKept.entry.symm, hlosing.trans hfillKept.losing.symm⟩

theorem exit_of_not_entry {fill : FillRecord} : fill.fillType = .exit ↔ ¬ fill.fillType = .entry := by
  cases fill.fillType <;> decide

theorem oneKind_restored (h : OneKind s.ledger.fills) (hkept : Kept config s)
    (hperm : fills.entries.Perm s.db.fills.entries)
    (hrebuilt : Rebuilt (s.db.readingFills fills) signals zone now account fills.entries restored) :
    OneKind restored.fills := by
  refine h.imp (fun hall fill hfill hexit => ?_) fun hnone fill hfill hloss => ?_
  · obtain ⟨live, hlive, hside, hlosing⟩ := live_of_restored hkept hperm hrebuilt hfill
    rw [exit_of_not_entry, hside, ← exit_of_not_entry] at hexit
    exact hlosing.mpr (hall live hlive hexit)
  · obtain ⟨live, hlive, -, hlosing⟩ := live_of_restored hkept hperm hrebuilt hfill
    exact hnone live hlive (hlosing.mp hloss)

theorem streak_restored (h : OneKind s.ledger.fills) (hkept : Kept config s)
    (hperm : fills.entries.Perm s.db.fills.entries)
    (hrebuilt : Rebuilt (s.db.readingFills fills) signals zone now account fills.entries restored) :
    consecutiveLosses restored = consecutiveLosses s.ledger := by
  rw [consecutiveLosses_of_oneKind h,
    consecutiveLosses_of_oneKind (oneKind_restored h hkept hperm hrebuilt)]
  refine countFills_eq hkept hperm hrebuilt (q := fun e => LosingRow e.2) ?_ ?_
  · intro fill e hfill
    exact decide_eq_decide.mpr hfill.losing
  · intro e fill hrow
    exact decide_eq_decide.mpr (restoredFill_kept hrow).2.2.symm

theorem trades_restored (hkept : Kept config s)
    (hperm : fills.entries.Perm s.db.fills.entries)
    (hrebuilt : Rebuilt (s.db.readingFills fills) signals zone now account fills.entries restored)
    (day : String) : tradesToday zone restored day = tradesToday zone s.ledger day := by
  refine countFills_eq hkept hperm hrebuilt
    (q := fun e => e.2.side = .buy ∧ zone.dateKey e.2.filledAt = day) ?_ ?_
  · intro fill e hfill
    rw [decide_eq_decide, hfill.entry, hfill.at']
  · intro e fill hrow
    obtain ⟨hside, hat, -⟩ := restoredFill_kept hrow
    rw [decide_eq_decide, hside, hat]

/-! ### Amounts -/

theorem openCount_restored (hkept : Kept config s)
    (hrebuilt : Rebuilt (s.db.readingFills fills) signals zone now account fills.entries restored) :
    restored.openPositions.length = s.ledger.openPositions.length := by
  have hcount : ∀ t : LedgerState, t.openPositions.length =
      Dict.total (fun _ p => if p.status = .opened then 1 else 0) t.positions := by
    intro t
    rw [length_openPositions, Dict.length_filter_entries]
    simp
  rw [hcount, hcount, hrebuilt.positions]
  refine Dict.total_eq_total fun id => ?_
  rw [Dict.weight, Dict.weight, Dict.get?_mapValues]
  show ((((s.db.positions.get? id).map _).map _).getD 0 : Nat) = _
  cases hp : s.ledger.positions.get? id with
  | none =>
      cases hrow : s.db.positions.get? id with
      | none => rfl
      | some row =>
          obtain ⟨p, hstored⟩ := hkept.simulates.mirrored id row hrow
          rw [hp] at hstored
          cases hstored
  | some p =>
      obtain ⟨row, hrow, hlinked⟩ := hkept.simulates.linked id p hp
      rw [hrow]
      by_cases hopen : p.status = .opened
      · simp [restoredPosition, hopen, hlinked.status.mp hopen]
      · have hdead : ¬ row.status.Live := fun hlive => hopen (hlinked.status.mpr hlive)
        simp [restoredPosition, hopen, hdead]

/-- The rebuilt token index holds the mints of the live rows. -/
theorem canOpen_restored (hkept : Kept config s)
    (hrebuilt : Rebuilt (s.db.readingFills fills) signals zone now account fills.entries restored)
    (mint : String) : canOpen restored mint ↔ canOpen s.ledger mint := by
  have hopen : ∀ id row, (id, row) ∈ s.db.positions.entries → row.status.Live →
      ∃ p, s.ledger.positions.get? id = some p ∧ p.tokenMint = row.mint ∧ p.status = .opened := by
    intro id row hmem hlive
    have hrow := Dict.mem_entries.mp hmem
    obtain ⟨p, hp⟩ := hkept.simulates.mirrored id row hrow
    have hlinked := hkept.simulates.link hp hrow
    exact ⟨p, hp, hlinked.mint.symm, hlinked.status.mpr hlive⟩
  have hwell := hkept.simulates.wellFormed
  rw [canOpen, canOpen, hrebuilt.tokenIndex]
  show (Dict.collect (fun e : String × PositionRow => e.2.mint) _ s.db.positions.entries
    Dict.empty).get? mint = none ↔ _
  cases hindex : s.ledger.tokenIndex.get? mint with
  | none =>
      refine iff_of_true ?_ rfl
      refine Dict.get?_collect_of_none _ _ _ ?_ Dict.empty
      rintro ⟨id, row⟩ hmem rfl
      refine if_neg fun hlive => ?_
      obtain ⟨p, hp, hmint, hstatus⟩ := hopen id row hmem hlive
      have hindexed := hwell.openIndexed id p hp hstatus
      rw [hmint, hindex] at hindexed
      cases hindexed
  | some id =>
      refine iff_of_false ?_ (by simp)
      obtain ⟨p, hp, hmint, hstatus⟩ := (hwell.tokenIndex_iff mint id).mp hindex
      obtain ⟨row, hrow, hlinked⟩ := hkept.simulates.linked id p hp
      rw [Dict.get?_collect_of_agree (v := id)]
      · simp
      · rintro ⟨other, otherRow⟩ hmem w hvalue rfl
        split at hvalue
        · cases hvalue
          rename_i hlive
          obtain ⟨q, hq, hqmint, hqstatus⟩ := hopen other otherRow hmem hlive
          exact hwell.open_unique hq hp hqstatus hstatus (hqmint.trans hmint.symm)
        · cases hvalue
      · exact Or.inl ⟨(id, row), Dict.mem_entries.mpr hrow, hlinked.mint.trans hmint,
          if_pos (hlinked.status.mp hstatus)⟩

/-- With the same streak the restored ledger has the amounts of the live one. -/
theorem sameAmounts_restored (hkept : Kept config s)
    (hperm : fills.entries.Perm s.db.fills.entries) (haccount : s.db.account = some account)
    (hrebuilt : Rebuilt (s.db.readingFills fills) signals zone now account fills.entries restored)
    (hstreak : consecutiveLosses restored = consecutiveLosses s.ledger) :
    SameAmounts zone now s.ledger restored := by
  obtain ⟨found, hfound, htotals⟩ := hkept.simulates.totals
  rw [haccount] at hfound
  cases hfound
  exact
    { equity := hrebuilt.equity.trans htotals.equity
      peak := hrebuilt.peak.trans (hkept.peak account haccount)
      unrealized := hrebuilt.unrealized.trans htotals.unrealized
      locked := hrebuilt.locked.trans htotals.locked
      openCount := openCount_restored hkept hrebuilt
      trades := trades_restored hkept hperm hrebuilt _
      streak := hstreak
      index := canOpen_restored hkept hrebuilt }

theorem entryStop_restored
    (hrebuilt : Rebuilt (s.db.readingFills fills) signals zone now account fills.entries restored) :
    entryStop zone now restored = entryStop zone now (withControls s.ledger account) := by
  have hcongr : ∀ t u : LedgerState, t.haltReason = u.haltReason → t.pauseUntil = u.pauseUntil →
      t.dailyHaltDate = u.dailyHaltDate → entryStop zone now t = entryStop zone now u := by
    intro t u hhalt hpause hdate
    unfold entryStop clearExpiredDailyControls
    dsimp only
    rw [hhalt, hpause, hdate]
    split <;> rfl
  exact hcongr _ _ hrebuilt.halt hrebuilt.pause hrebuilt.date

/-! ### Orders of the rows -/

/-- The fill rows with one of them read last. -/
theorem exists_last {e : String × FillRow} (d : Dict String FillRow) (he : e ∈ d.entries) :
    ∃ (fills : Dict String FillRow) (older : List (String × FillRow)),
      fills.entries = older ++ [e] ∧ fills.entries.Perm d.entries := by
  obtain ⟨before, after, hsplit⟩ := List.append_of_mem he
  have hperm : ((before ++ after) ++ [e]).Perm d.entries := by
    rw [hsplit, List.append_assoc]
    exact (List.perm_append_singleton e after).append_left before
  exact ⟨⟨before ++ after ++ [e], (hperm.map Prod.fst).nodup_iff.mpr d.nodup⟩, before ++ after, rfl,
    hperm⟩

/-- The row read last is the fill restored last. -/
theorem exists_lastFill {e : String × FillRow} {older : List (String × FillRow)}
    {db : PaperDb} {added : List FillRecord}
    (h : List.Forall₂ (fun e fill => restoredFill db e.1 e.2 = some fill) (older ++ [e]) added) :
    ∃ first last, added = first ++ [last] ∧ restoredFill db e.1 e.2 = some last := by
  have hreverse := List.rel_reverse h
  rw [List.reverse_append, List.reverse_singleton, List.singleton_append] at hreverse
  cases hadded : added.reverse with
  | nil =>
      rw [hadded] at hreverse
      cases hreverse
  | cons last first =>
      rw [hadded, List.forall₂_cons] at hreverse
      refine ⟨first.reverse, last, ?_, hreverse.1⟩
      rw [← List.reverse_cons, ← hadded, List.reverse_reverse]

/-- With the row of an exit read last, the streak tells whether the exit lost. -/
theorem streak_last (hkept : Kept config s) {fill : FillRecord} (hfill : fill ∈ s.ledger.fills)
    (hexit : fill.fillType = .exit)
    (hall : ∀ fills : Dict String FillRow, fills.entries.Perm s.db.fills.entries →
      ∃ restored, startLedger (s.db.readingFills fills) signals zone now = some restored ∧
        SameRisk zone now s.ledger restored) :
    0 < consecutiveLosses s.ledger ↔ Losing fill := by
  have hflipped := (List.Forall₂.flip hkept.fills :
    List.Forall₂ (fun e fill => FillKept s.db.orders fill e) _ _)
  obtain ⟨e, he, hfillKept⟩ := exists_left_of_forall₂ hflipped hfill
  obtain ⟨fills, older, hlast, hperm⟩ := exists_last s.db.fills he
  obtain ⟨restored, hstart, hsame⟩ := hall fills hperm
  obtain ⟨account, found, -, hfound, hrebuilt⟩ := hkept.rebuilt signals zone now hperm
  rw [hstart] at hfound
  cases hfound
  obtain ⟨first, last, hfills, hrow⟩ := exists_lastFill (hlast ▸ hrebuilt.fills)
  obtain ⟨hside, -, hlosing⟩ := restoredFill_kept hrow
  have hlastExit : last.fillType = .exit := by
    rw [exit_of_not_entry, hside, ← hfillKept.entry, ← exit_of_not_entry]
    exact hexit
  rw [← hsame.streak, consecutiveLosses_pos_iff hfills hlastExit, hlosing, hfillKept.losing]

/-- The restored ledger answers as the live one, for every order of the fill rows, exactly when
the restart is safe. -/
theorem restored_risk_iff (hkept : Kept config s) (signals : List SignalRow) (zone : TimeZone)
    (now : Time) :
    (∀ fills : Dict String FillRow, fills.entries.Perm s.db.fills.entries →
      ∃ restored, startLedger (s.db.readingFills fills) signals zone now = some restored ∧
        SameRisk zone now s.ledger restored) ↔ RestartSafe zone now s := by
  have hbaseline : ∀ {fills : Dict String FillRow} {account : AccountRow} {restored : LedgerState},
      s.db.account = some account →
      Rebuilt (s.db.readingFills fills) signals zone now account fills.entries restored →
      dayBaseline zone now restored = storedBaseline s.db zone now s.ledger.equityUsd := by
    intro fills account restored haccount hrebuilt
    obtain ⟨found, hfound, htotals⟩ := hkept.simulates.totals
    rw [haccount] at hfound
    cases hfound
    rw [dayBaseline, hrebuilt.baseline, hrebuilt.equity, htotals.equity]
    rfl
  constructor
  · intro hall
    have hperm := List.Perm.refl s.db.fills.entries
    obtain ⟨restored, hstart, hsame⟩ := hall s.db.fills hperm
    obtain ⟨account, found, haccount, hfound, hrebuilt⟩ := hkept.rebuilt signals zone now hperm
    rw [hstart] at hfound
    cases hfound
    obtain ⟨hstop, hday⟩ := (evaluateEntry_alike_iff
      (sameAmounts_restored hkept hperm haccount hrebuilt hsame.streak)).mp hsame.decision
    refine ⟨?_, ?_, ?_⟩
    · -- the exits that lost and the others give different streaks
      by_cases hloss : 0 < consecutiveLosses s.ledger
      · exact Or.inl fun fill hfill hexit => (streak_last hkept hfill hexit hall).mp hloss
      · exact Or.inr fun fill hfill hlosing =>
          hloss ((streak_last hkept hfill hlosing.1 hall).mpr hlosing)
    · intro account' haccount'
      rw [haccount] at haccount'
      cases haccount'
      rw [← entryStop_restored hrebuilt]
      exact hstop
    · rw [← hbaseline haccount hrebuilt]
      exact hday
  · intro hsafe fills hperm
    obtain ⟨account, restored, haccount, hstart, hrebuilt⟩ := hkept.rebuilt signals zone now hperm
    have hstreak := streak_restored hsafe.oneKind hkept hperm hrebuilt
    have hamounts := sameAmounts_restored hkept hperm haccount hrebuilt hstreak
    refine ⟨restored, hstart, hstreak, trades_restored hkept hperm hrebuilt, ?_⟩
    rw [evaluateEntry_alike_iff hamounts, entryStop_restored hrebuilt, hbaseline haccount hrebuilt]
    exact ⟨hsafe.stop account haccount, hsafe.day⟩

end Restored

/-! ## Runs -/

/-- After every run of the broker whose closes without a quote sell the whole position, the
restored ledger answers as the live one, for every order of the fill rows, exactly when the
restart is safe. -/
theorem run_restored_risk (config : BrokerConfig) (startingEquity : ℚ) (opened : Time)
    (ops : List BrokerOp)
    (hrun : Along (fun s op => Ordinary s op ∧ NoPartGivenUp s op) (BrokerState.apply config)
      (BrokerState.init config startingEquity opened) ops)
    (signals : List SignalRow) (now : Time) :
    (∀ fills : Dict String FillRow,
      fills.entries.Perm (exec (BrokerState.apply config)
        (BrokerState.init config startingEquity opened) ops).db.fills.entries →
      ∃ restored, startLedger ((exec (BrokerState.apply config)
          (BrokerState.init config startingEquity opened) ops).db.readingFills fills) signals
          config.zone now = some restored ∧
        SameRisk config.zone now (exec (BrokerState.apply config)
          (BrokerState.init config startingEquity opened) ops).ledger restored) ↔
    RestartSafe config.zone now
      (exec (BrokerState.apply config) (BrokerState.init config startingEquity opened) ops) :=
  restored_risk_iff (run_kept config startingEquity opened ops hrun) signals config.zone now

/-- A position sold with a gain, then another sold with a loss. -/
def gainThenLoss : List BrokerOp :=
  [.openPosition sampleOpen,
    .closePosition (sampleClose "TP1" 99
      (some (dollarsOf 30 thirty_pos))),
    .openPosition
      { sampleOpen with
        tokenMint := "OTHER", orderId := some "entry:other", positionId := "other"
        fillId := "fill-other", quoteId := "quote-other" },
    .closePosition
      { sampleClose "STOP_LOSS" 99
          (some (dollarsOf 10 ten_pos)) with
        tokenMint := "OTHER" }]

theorem run_restored_risk_gainThenLoss :
    (∀ fills : Dict String FillRow,
      fills.entries.Perm (exec (BrokerState.apply sampleBroker)
        (BrokerState.init sampleBroker 500 0) gainThenLoss).db.fills.entries →
      ∃ restored, startLedger ((exec (BrokerState.apply sampleBroker)
          (BrokerState.init sampleBroker 500 0) gainThenLoss).db.readingFills fills) []
          sampleBroker.zone (seconds 4) = some restored ∧
        SameRisk sampleBroker.zone (seconds 4) (exec (BrokerState.apply sampleBroker)
          (BrokerState.init sampleBroker 500 0) gainThenLoss).ledger restored) ↔
    RestartSafe sampleBroker.zone (seconds 4)
      (exec (BrokerState.apply sampleBroker) (BrokerState.init sampleBroker 500 0) gainThenLoss) :=
  run_restored_risk sampleBroker 500 0 gainThenLoss (by decide +kernel) [] (seconds 4)

/-- The fill rows read from the last to the first. -/
def readBackwards (fills : Dict String FillRow) : Dict String FillRow :=
  ⟨fills.entries.reverse, by
    rw [List.map_reverse]
    exact List.nodup_reverse.mpr fills.nodup⟩

/-- Read backwards, the rows end with the gain: the streak of the loss is gone, and an entry that
the live ledger refuses is allowed. -/
theorem streak_lost_by_order :
    Along (fun s op => Ordinary s op ∧ NoPartGivenUp s op) (BrokerState.apply sampleBroker)
      (BrokerState.init sampleBroker 500 0) gainThenLoss ∧
    (evaluateEntry { sampleBroker.risk with maxConsecutiveLosses := 1 } sampleBroker.zone (seconds 4)
      (exec (BrokerState.apply sampleBroker) (BrokerState.init sampleBroker 500 0)
        gainThenLoss).ledger 20 "THIRD").1 = .ok (.block "CONSECUTIVE_LOSSES") ∧
    (startLedger ((exec (BrokerState.apply sampleBroker) (BrokerState.init sampleBroker 500 0)
      gainThenLoss).db.readingFills (readBackwards (exec (BrokerState.apply sampleBroker)
        (BrokerState.init sampleBroker 500 0) gainThenLoss).db.fills)) [] sampleBroker.zone
      (seconds 4)).map (fun restored =>
        (evaluateEntry { sampleBroker.risk with maxConsecutiveLosses := 1 } sampleBroker.zone
          (seconds 4) restored 20 "THIRD").1) = some (.ok .allow) ∧
    ¬ ∀ fills : Dict String FillRow,
      fills.entries.Perm (exec (BrokerState.apply sampleBroker)
        (BrokerState.init sampleBroker 500 0) gainThenLoss).db.fills.entries →
      ∃ restored, startLedger ((exec (BrokerState.apply sampleBroker)
          (BrokerState.init sampleBroker 500 0) gainThenLoss).db.readingFills fills) []
          sampleBroker.zone (seconds 4) = some restored ∧
        SameRisk sampleBroker.zone (seconds 4) (exec (BrokerState.apply sampleBroker)
          (BrokerState.init sampleBroker 500 0) gainThenLoss).ledger restored := by
  have hlive : (evaluateEntry { sampleBroker.risk with maxConsecutiveLosses := 1 }
      sampleBroker.zone (seconds 4) (exec (BrokerState.apply sampleBroker)
        (BrokerState.init sampleBroker 500 0) gainThenLoss).ledger 20 "THIRD").1 =
      .ok (.block "CONSECUTIVE_LOSSES") := by decide +kernel
  have hrestored : (startLedger ((exec (BrokerState.apply sampleBroker)
      (BrokerState.init sampleBroker 500 0) gainThenLoss).db.readingFills (readBackwards
        (exec (BrokerState.apply sampleBroker) (BrokerState.init sampleBroker 500 0)
          gainThenLoss).db.fills)) [] sampleBroker.zone (seconds 4)).map (fun restored =>
        (evaluateEntry { sampleBroker.risk with maxConsecutiveLosses := 1 } sampleBroker.zone
          (seconds 4) restored 20 "THIRD").1) = some (.ok .allow) := by decide +kernel
  refine ⟨by decide +kernel, hlive, hrestored, fun hall => ?_⟩
  obtain ⟨restored, hstart, hsame⟩ := hall (readBackwards _) (List.reverse_perm _)
  rw [hstart, Option.map_some, hsame.decision, hlive] at hrestored
  cases hrestored

end SniperBot.Risk
