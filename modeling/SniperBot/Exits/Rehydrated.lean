import SniperBot.Exits.Engine
import SniperBot.Paper.Rehydration

/-!
# Exit decisions after a restart

The exit rules read the highest value, the peak gain and the time of the last new high of a
position. A restart reads them from the row, and the two copies start differently: `open_position`
leaves the highest value at zero and the last new high unset, the row of the entry has the cost and
the time of the fill. The first mark that is written makes them agree; the peak gain is never
stored, but the highest value bounds it, so the trailing stop does not miss it.

* `run_decisions`: in every run whose marks are written and whose partial exits find a quote, the
  restored position decides as the live one exactly when the position is closed or has been marked.
* `unmarked_position_times_out`: a position that no mark has reached is sold after the restart.
-/

namespace SniperBot.Exits

open Basis Ledger Risk Paper

/-! ## What a decision reads -/

section Decisions

variable {policy : ExitPolicy} {p q : PositionRecord} {price : ℚ} {now : Time}
  {momentum emergency : Bool}

/-- The same exit of the same share. -/
def SameExit (decision other : ExitDecision) : Prop :=
  decision.reason = other.reason ∧ decision.closeFraction = other.closeFraction

/-- Positions that agree in what the rules read, up to the trailing stop. -/
structure SameRules (p q : PositionRecord) : Prop where
  status : q.status = p.status
  cost : q.remainingCostUsd = p.remainingCostUsd
  tokens : q.remainingTokenAmount = p.remainingTokenAmount
  entryTokens : q.entryTokenAmount = p.entryTokenAmount
  tp1 : q.tp1Taken = p.tp1Taken
  tp2 : q.tp2Taken = p.tp2Taken
  openedAt : q.openedAt = p.openedAt

theorem evaluateExit_congr (h : SameRules p q) (hnew : q.lastNewHighAt = p.lastNewHighAt)
    (htrail : TrailingStopHit policy q price ↔ TrailingStopHit policy p price) :
    evaluateExit policy q price now momentum emergency =
      evaluateExit policy p price now momentum emergency := by
  have hpnl : executablePnl q price = executablePnl p price := by
    rw [executablePnl, executablePnl, executableMark, executableMark, h.tokens, h.cost]
  have hret : executableReturn q price = executableReturn p price := by
    rw [executableReturn, executableReturn, hpnl, h.cost]
  have hexit : exitWith q price = exitWith p price := by
    funext reason fraction
    rw [exitWith, exitWith, hpnl, hret]
  have htime : TimeStopHit policy q now ↔ TimeStopHit policy p now := by
    rw [TimeStopHit, TimeStopHit, h.openedAt, hnew]
  have hshare : tp2Share policy q = tp2Share policy p := by
    rw [tp2Share, tp2Share, h.tokens, h.entryTokens]
  unfold evaluateExit
  simp only [hpnl, hret, hexit, hshare, h.status, h.cost, h.tp1, h.tp2, htrail, htime]

/-- The stored highest value replaces the peak gain that it bounds. -/
theorem trailingStopHit_of_bound (h : SameRules p q)
    (hhigh : q.highestExecutableValueUsd = p.highestExecutableValueUsd)
    (hpeak : q.peakUnrealizedUsd = 0) (hcost : 0 < p.remainingCostUsd)
    (hnonneg : 0 ≤ p.peakUnrealizedUsd)
    (hbound : p.remainingCostUsd + p.peakUnrealizedUsd ≤
      max p.remainingCostUsd p.highestExecutableValueUsd) :
    TrailingStopHit policy q price ↔ TrailingStopHit policy p price := by
  have hfloor : trailingFloor policy q = trailingFloor policy p := by
    have htop : max q.highestExecutableValueUsd (q.remainingCostUsd + q.peakUnrealizedUsd) =
        max p.highestExecutableValueUsd (p.remainingCostUsd + p.peakUnrealizedUsd) := by
      rw [hhigh, hpeak, h.cost, add_zero]
      refine le_antisymm (max_le_max_left _ (by linarith)) (max_le (le_max_left _ _) ?_)
      rw [max_comm]
      exact hbound
    rw [trailingFloor, trailingFloor, htop, h.cost]
  have hpositive : (q.highestExecutableValueUsd > 0 ∨ q.peakUnrealizedUsd > 0) ↔
      (p.highestExecutableValueUsd > 0 ∨ p.peakUnrealizedUsd > 0) := by
    rw [hhigh, hpeak]
    constructor
    · rintro (hpos | hzero)
      · exact Or.inl hpos
      · exact absurd hzero (lt_irrefl 0)
    · rintro (hpos | hgain)
      · exact Or.inl hpos
      · left
        by_contra hlow
        rw [max_eq_left ((not_lt.mp hlow).trans hcost.le)] at hbound
        linarith
  rw [TrailingStopHit, TrailingStopHit, hfloor, hpositive, h.tp1, executableMark, executableMark,
    h.tokens]

/-- With the default policy and no gain or loss, only the trailing stop and the time stop are
left. -/
theorem evaluateExit_flat (hopen : p.status = .opened) (hcost : 0 < p.remainingCostUsd)
    (hreturn : executableReturn p price = 0) :
    (evaluateExit {} p price now false false).reason =
      if TrailingStopHit {} p price then .trailingStop
      else if TimeStopHit {} p now then .timeStop else .noExit := by
  have hlive : ¬ (p.status ≠ .opened ∨ p.remainingCostUsd ≤ 0) :=
    not_or.mpr ⟨not_not.mpr hopen, not_le.mpr hcost⟩
  have hloss : ¬ (0 : ℚ) ≤ ExitPolicy.stopLossReturn {} := by norm_num
  have htp1 : ¬ (p.tp1Taken = false ∧ (0 : ℚ) ≥ ExitPolicy.tp1Return {}) :=
    fun h => absurd h.2 (by norm_num)
  have htp2 : ¬ (p.tp1Taken = true ∧ p.tp2Taken = false ∧ (0 : ℚ) ≥ ExitPolicy.tp2Return {}) :=
    fun h => absurd h.2.2 (by norm_num)
  unfold evaluateExit
  dsimp only
  rw [if_neg hlive, if_neg Bool.false_ne_true, hreturn, if_neg hloss, if_neg htp1, if_neg htp2]
  split
  · rfl
  · rw [if_neg Bool.false_ne_true]
    split <;> rfl

/-- Without a new high the live position is kept where the restored one is sold. -/
theorem decisions_differ (h : SameRules p q) (hopen : p.status = .opened)
    (hcost : 0 < p.remainingCostUsd) (htokens : 0 < p.remainingTokenAmount)
    (hhigh : p.highestExecutableValueUsd = 0) (hpeak : p.peakUnrealizedUsd = 0)
    (hnone : p.lastNewHighAt = none) (hnew : q.lastNewHighAt = some p.openedAt) :
    ¬ ∀ policy price now momentum emergency,
      SameExit (evaluateExit policy q price now momentum emergency)
        (evaluateExit policy p price now momentum emergency) := by
  intro hsame
  -- at the cost and two minutes after the entry, with the default policy
  obtain ⟨hreason, -⟩ := hsame {} (p.remainingCostUsd / p.remainingTokenAmount)
    (p.openedAt + seconds 120) false false
  have hwhole : wholeSeconds (p.openedAt + seconds 120 - p.openedAt) = 120 := by
    rw [add_sub_cancel_left]
    rfl
  have hreturn : executableReturn p (p.remainingCostUsd / p.remainingTokenAmount) = 0 := by
    rw [executableReturn, executablePnl, executableMark, mul_div_cancel₀ _ htokens.ne', sub_self,
      zero_div]
  have hreturn' : executableReturn q (p.remainingCostUsd / p.remainingTokenAmount) = 0 := by
    rw [executableReturn, executablePnl, executableMark, h.tokens, h.cost,
      mul_div_cancel₀ _ htokens.ne', sub_self, zero_div]
  have htrail : ¬ TrailingStopHit {} p (p.remainingCostUsd / p.remainingTokenAmount) := by
    rintro ⟨-, hpositive, -⟩
    rw [hhigh, hpeak, or_self] at hpositive
    exact lt_irrefl 0 hpositive
  have htime : ¬ TimeStopHit {} p (p.openedAt + seconds 120) := by
    rintro (⟨limit, hlimit, hle⟩ | ⟨limit, -, high, hhas, -⟩)
    · cases hlimit
      rw [hwhole] at hle
      exact absurd hle (by decide)
    · rw [hnone] at hhas
      cases hhas
  have htime' : TimeStopHit {} q (p.openedAt + seconds 120) :=
    Or.inr ⟨120, rfl, p.openedAt, hnew, hwhole.ge⟩
  rw [evaluateExit_flat (h.status.trans hopen) (h.cost ▸ hcost) hreturn',
    evaluateExit_flat hopen hcost hreturn, if_neg htrail, if_neg htime, if_pos htime'] at hreason
  split at hreason <;> cases hreason

end Decisions

/-! ## Restored positions -/

variable {config : BrokerConfig} {s : BrokerState}

/-- A position and the one rebuilt from its row agree in what the rules read. -/
theorem sameRules_restored {p : PositionRecord} {row : PositionRow} (hlinked : Linked p row)
    (hkept : PositionKept p row) (db : PaperDb) (signals : List SignalRow) (id : String) :
    SameRules p (restoredPosition db signals id row) where
  status := by
    show (if row.status.Live then PositionStatus.opened else .closed) = p.status
    by_cases hopen : p.status = .opened
    · rw [if_pos (hlinked.status.mp hopen), hopen]
    · rw [if_neg fun hlive => hopen (hlinked.status.mpr hlive)]
      cases hstatus : p.status with
      | opened => exact absurd hstatus hopen
      | closed => rfl
  cost := hlinked.cost
  tokens := hlinked.tokens
  entryTokens := hkept.entryTokens
  tp1 := hkept.tp1
  tp2 := hkept.tp2
  openedAt := hkept.entryTime

/-- The restored position decides as the live one exactly when no exit is left to decide or a
mark has been written. -/
theorem restored_decides_iff {p : PositionRecord} {row : PositionRow} (hlinked : Linked p row)
    (hkept : PositionKept p row) (htokens : p.status = .opened → 0 < p.remainingTokenAmount)
    (db : PaperDb) (signals : List SignalRow) (id : String) :
    (∀ policy price now momentum emergency,
      SameExit (evaluateExit policy (restoredPosition db signals id row) price now momentum emergency)
        (evaluateExit policy p price now momentum emergency)) ↔
      p.status = .closed ∨ p.lowestExecutableValueUsd ≠ none := by
  have hrules := sameRules_restored hlinked hkept db signals id
  constructor
  · intro hsame
    by_contra hcases
    obtain ⟨hnotClosed, hunmarked⟩ := not_or.mp hcases
    have hopen : p.status = .opened := by
      cases hstatus : p.status with
      | opened => rfl
      | closed => exact absurd hstatus hnotClosed
    have hnever := hkept.unmarked (not_not.mp hunmarked)
    exact decisions_differ hrules hopen (hkept.cost hopen) (htokens hopen) hnever.highest
      hnever.peak hnever.newHigh hnever.rowNewHigh hsame
  · intro hcases policy price now momentum emergency
    by_cases hopen : p.status = .opened
    · have hmarked := hkept.marked (hcases.resolve_left (by rw [hopen]; decide))
      rw [evaluateExit_congr hrules hmarked.newHigh
        (trailingStopHit_of_bound hrules hmarked.highest rfl (hkept.cost hopen)
          hmarked.peak_nonneg hmarked.peak_le)]
      exact ⟨rfl, rfl⟩
    · have hclosed : ∀ r : PositionRecord, r.status = p.status →
          evaluateExit policy r price now momentum emergency =
            { shouldExit := false, reason := .noExit, executablePnlUsd := 0
              executableReturnPct := 0 } :=
        fun r hr => if_pos (Or.inl (hr ▸ hopen))
      rw [hclosed _ hrules.status, hclosed p rfl]
      exact ⟨rfl, rfl⟩

/-! ## Runs -/

/-- An operation of the broker, or a mark whose write to the rows fails: the ledger has it and
the rows do not. -/
inductive LiveOp
  | broker (op : BrokerOp)
  | unwrittenMark (quotes : Dict String ExecutableQuote) (now : Time)

def stepLive (config : BrokerConfig) (s : BrokerState) : LiveOp → BrokerState
  | .broker op => s.apply config op
  | .unwrittenMark quotes now => { s with ledger := (markUpdate config s quotes now).ledger }

/-- The calls are those of the broker's callers, every partial exit finds a quote, and every mark
is written. -/
def RowsFollow (s : BrokerState) : LiveOp → Prop
  | .broker op => Ordinary s op ∧ NoPartGivenUp s op
  | .unwrittenMark _ _ => False

instance (s : BrokerState) : (op : LiveOp) → Decidable (RowsFollow s op)
  | .broker _ => inferInstanceAs (Decidable (_ ∧ _))
  | .unwrittenMark _ _ => inferInstanceAs (Decidable False)

/-- The position rebuilt from the rows decides as the live one, whatever the policy, the price,
the time and the flags. -/
def DecidesAlike (restored : LedgerState) (id : String) (p : PositionRecord) : Prop :=
  ∃ q, restored.positions.get? id = some q ∧ ∀ policy price now momentum emergency,
    SameExit (evaluateExit policy q price now momentum emergency)
      (evaluateExit policy p price now momentum emergency)

/-- After every run whose marks are written and whose partial exits find a quote, a restart
rebuilds the ledger, and a position decides as before exactly when it is closed or has been
marked. -/
theorem run_decisions (config : BrokerConfig) (startingEquity : ℚ) (opened : Time)
    (ops : List LiveOp)
    (hrun : Along RowsFollow (stepLive config) (BrokerState.init config startingEquity opened) ops)
    (signals : List SignalRow) (restartedAt : Time) :
    ∃ restored, startLedger
        (exec (stepLive config) (BrokerState.init config startingEquity opened) ops).db signals
        config.zone restartedAt = some restored ∧
      ∀ id p,
        (exec (stepLive config) (BrokerState.init config startingEquity opened) ops).ledger.positions.get?
          id = some p →
        (DecidesAlike restored id p ↔ p.status = .closed ∨ p.lowestExecutableValueUsd ≠ none) := by
  have hkept : Kept config
      (exec (stepLive config) (BrokerState.init config startingEquity opened) ops) :=
    hrun.invariant (I := Kept config)
      (fun _ op h hop => by
        cases op with
        | broker op => exact h.step (h.simulates.both_step op hop)
        | unwrittenMark quotes now => exact hop.elim)
      (Kept.init config startingEquity opened)
  generalize exec (stepLive config) (BrokerState.init config startingEquity opened) ops = s
    at hkept ⊢
  obtain ⟨account, restored, -, hstart, hrebuilt⟩ :=
    hkept.rebuilt signals config.zone restartedAt (List.Perm.refl s.db.fills.entries)
  refine ⟨restored, hstart, fun id p hp => ?_⟩
  obtain ⟨row, hrow, hlinked⟩ := hkept.simulates.linked id p hp
  have hget : restored.positions.get? id = some (restoredPosition s.db signals id row) := by
    rw [hrebuilt.positions, Dict.get?_mapValues]
    show (s.db.positions.get? id).map _ = _
    rw [hrow]
    rfl
  rw [← restored_decides_iff hlinked (hkept.positions id p row hp hrow)
    (hkept.simulates.wellFormed.openTokens id p hp) s.db signals id]
  constructor
  · rintro ⟨q, hq, hsame⟩
    rw [hget] at hq
    cases hq
    exact hsame
  · intro hsame
    exact ⟨_, hget, hsame⟩

/-- An entry, a written mark above the cost, and a take-profit of half the position. -/
def markedHalf : List LiveOp :=
  [.broker (.openPosition sampleOpen),
    .broker (.mark (Dict.empty.set "position" (dollarsOf 30 thirty_pos))
      (seconds 2)),
    .broker (.closePosition (sampleClose "TP1" 49
      (some (dollarsOf 15 fifteen_pos))))]

theorem run_decisions_markedHalf :
    ∃ restored, startLedger
        (exec (stepLive sampleBroker) (BrokerState.init sampleBroker 500 0) markedHalf).db []
        sampleBroker.zone (seconds 4) = some restored ∧
      ∀ id p,
        (exec (stepLive sampleBroker) (BrokerState.init sampleBroker 500 0)
          markedHalf).ledger.positions.get? id = some p →
        (DecidesAlike restored id p ↔ p.status = .closed ∨ p.lowestExecutableValueUsd ≠ none) :=
  run_decisions sampleBroker 500 0 markedHalf (by decide +kernel) [] (seconds 4)

/-- Two minutes after an entry that no mark has reached, at the price of the entry, the live
position is kept and the restored one is sold. -/
theorem unmarked_position_times_out :
    Along RowsFollow (stepLive sampleBroker) (BrokerState.init sampleBroker 500 0)
      [.broker (.openPosition sampleOpen)] ∧
    ((exec (stepLive sampleBroker) (BrokerState.init sampleBroker 500 0)
      [.broker (.openPosition sampleOpen)]).ledger.positions.get? "position").map
        (fun p => (evaluateExit {} p (20 / 99) (seconds 121) false false).reason) =
      some .noExit ∧
    ((startLedger (exec (stepLive sampleBroker) (BrokerState.init sampleBroker 500 0)
      [.broker (.openPosition sampleOpen)]).db [] sampleBroker.zone (seconds 121)).bind
        (·.positions.get? "position")).map
        (fun q => (evaluateExit {} q (20 / 99) (seconds 121) false false).reason) =
      some .timeStop ∧
    ¬ ∀ restored, startLedger (exec (stepLive sampleBroker) (BrokerState.init sampleBroker 500 0)
        [.broker (.openPosition sampleOpen)]).db [] sampleBroker.zone (seconds 121) =
          some restored →
      ∀ id p, (exec (stepLive sampleBroker) (BrokerState.init sampleBroker 500 0)
        [.broker (.openPosition sampleOpen)]).ledger.positions.get? id = some p →
      DecidesAlike restored id p := by
  have hlive : ((exec (stepLive sampleBroker) (BrokerState.init sampleBroker 500 0)
      [.broker (.openPosition sampleOpen)]).ledger.positions.get? "position").map
        (fun p => (evaluateExit {} p (20 / 99) (seconds 121) false false).reason) =
      some .noExit := by decide +kernel
  have hrestored : ((startLedger (exec (stepLive sampleBroker)
      (BrokerState.init sampleBroker 500 0) [.broker (.openPosition sampleOpen)]).db []
        sampleBroker.zone (seconds 121)).bind (·.positions.get? "position")).map
        (fun q => (evaluateExit {} q (20 / 99) (seconds 121) false false).reason) =
      some .timeStop := by decide +kernel
  refine ⟨by decide +kernel, hlive, hrestored, fun hall => ?_⟩
  obtain ⟨p, hp, hkeep⟩ := Option.map_eq_some_iff.mp hlive
  obtain ⟨q, hq, hsell⟩ := Option.map_eq_some_iff.mp hrestored
  obtain ⟨restored, hstart, hget⟩ := Option.bind_eq_some_iff.mp hq
  obtain ⟨found, hfound, hsame⟩ := hall restored hstart "position" p hp
  rw [hget] at hfound
  cases hfound
  obtain ⟨hreason, -⟩ := hsame {} (20 / 99) (seconds 121) false false
  rw [hkeep, hsell] at hreason
  cases hreason

end SniperBot.Exits
