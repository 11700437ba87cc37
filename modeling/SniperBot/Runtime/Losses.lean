import SniperBot.Runtime.Halts

/-!
# Entries after a daily loss

The daily loss limit refuses an entry in two places. `evaluate_entry` sets the daily halt in the
ledger, so no entry is checked for the rest of the day (`run_no_fill_after_loss`).
`commit_paper_entry` writes the halt to the account row and raises, and its transaction takes the
halt back: nothing remembers the refusal. The two compare with different baselines, the ledger with
the equity at the first check or mark of the day, the commit with the last stored mark before the
day. In `loss_in_commit_forgotten` the commit refuses where the check allows, and a later entry is
filled on the same day.
-/

namespace SniperBot.Runtime

open Basis Ledger Risk Paper Exits

/-! ## Refusals of a commit -/

/-- The stored equity has lost the daily limit against the baseline of the rows. -/
def DayLossStored (db : PaperDb) (limits : EntryLimits) : Prop :=
  ∃ account ∈ db.account, ∃ baseline ∈ db.baselineEquity limits.dayStart limits.dayEnd,
    account.equity - baseline ≤ -|limits.dailyLossLimitUsdc|

instance (db : PaperDb) (limits : EntryLimits) : Decidable (DayLossStored db limits) :=
  inferInstanceAs (Decidable (∃ account ∈ db.account, ∃ baseline ∈ _, _))

theorem later_refusal {c : Prop} [Decidable c] {e f : PaperError} {rest : Option PaperError}
    (h : (if c then some e else rest) = some f) (hne : e ≠ f) : rest = some f := by
  split at h
  · exact absurd (Option.some.inj h) hne
  · exact h

theorem entryRefusal_dailyLoss {db : PaperDb} {account : AccountRow} {args : EntryArgs}
    (h : entryRefusal db account args = some .dailyLoss) :
    ∃ baseline ∈ db.baselineEquity args.limits.dayStart args.limits.dayEnd,
      account.equity - baseline ≤ -|args.limits.dailyLossLimitUsdc| := by
  unfold entryRefusal at h
  dsimp only at h
  -- the six checks before the daily loss
  have hloss := later_refusal (later_refusal (later_refusal h (by decide)) (by decide)) (by decide)
  have hloss := later_refusal (later_refusal (later_refusal hloss (by decide)) (by decide))
    (by decide)
  split at hloss
  · rename_i hany
    obtain ⟨baseline, hbaseline, hreached⟩ := (Option.any_eq_true _ _).mp hany
    exact ⟨baseline, hbaseline, of_decide_eq_true hreached⟩
  · have hrest := later_refusal (later_refusal (later_refusal hloss (by decide)) (by decide))
      (by decide)
    cases later_refusal hrest (by decide)

theorem error_of_transaction {α : Type} {body : Body α} {db : PaperDb} {e : PaperError}
    (h : (transaction body db).1 = .error e) : (body db).1 = .error e := by
  unfold transaction at h
  split at h
  · cases h
  · rename_i heq
    rw [heq]
    exact h

theorem lockedEntry_dailyLoss {db : PaperDb} {args : EntryArgs}
    (h : (lockedEntry args db).1 = .error .dailyLoss) : DayLossStored db args.limits := by
  unfold lockedEntry at h
  split at h
  · cases h
  · rename_i account haccount
    split at h
    · rename_i e howner
      cases h
      unfold runtimeOwnerError at howner
      split at howner <;> split at howner <;> cases howner
    · dsimp only at h
      split at h
      · rename_i e hrefusal
        cases h
        obtain ⟨baseline, hbaseline, hreached⟩ := entryRefusal_dailyLoss hrefusal
        obtain ⟨halt, pause, date, hcleared⟩ :=
          cleared_frame account args.filledAt args.limits.dayKey
        rw [hcleared] at hreached
        exact ⟨account, haccount, baseline, hbaseline, hreached⟩
      · cases h

theorem commitPaperEntry_dailyLoss {db : PaperDb} {args : EntryArgs}
    (h : (commitPaperEntry args db).1 = .error .dailyLoss) : DayLossStored db args.limits := by
  have hbody := error_of_transaction h
  cases hexisting : db.existingOrder args.orderId .entryIncomplete with
  | none =>
      rw [hexisting] at hbody
      exact lockedEntry_dailyLoss hbody
  | some answer =>
      rw [hexisting] at hbody
      unfold PaperDb.existingOrder at hexisting
      obtain ⟨order, -, rfl⟩ := Option.map_eq_some_iff.mp hexisting
      dsimp only at hbody
      split at hbody <;> cases hbody

/-! ## Steps -/

/-- The commit that a step makes. -/
def commitArgs (config : BrokerConfig) (s : ControlState) (a : Time × Action) : Option EntryArgs :=
  match s.entry, a.2 with
  | .checked req, .loop .commitEntry =>
      match req.quote, req.candidateId.filter (· ≠ ""), req.poolAddress.filter (· ≠ "") with
      | some quote, some candidateId, some poolAddress =>
          if config.strategyVersion = "" then none
          else some (req.entryArgs config quote.1 candidateId poolAddress)
      | _, _, _ => none
  | _, _ => none

/-- An entry is refused for the daily loss, by its check or in its commit. -/
def RefusedForLoss (config : BrokerConfig) (s : ControlState) (a : Time × Action) : Prop :=
  checkAnswer config s a = some (.ok (.block "DAILY_LOSS_LIMIT")) ∨
    ∃ args ∈ commitArgs config s a, (commitPaperEntry args s.db).1 = .error .dailyLoss

/-- An entry is filled. -/
def FillsEntry (config : BrokerConfig) (s : ControlState) (a : Time × Action) : Prop :=
  ∃ args ∈ commitArgs config s a, (commitPaperEntry args s.db).1.isOk

instance (config : BrokerConfig) (s : ControlState) (a : Time × Action) :
    Decidable (FillsEntry config s a) :=
  inferInstanceAs (Decidable (∃ args ∈ commitArgs config s a, _))

/-- No halt is overwritten, and no commit finds the daily loss. -/
def LossChecked (config : BrokerConfig) (s : ControlState) (a : Time × Action) : Prop :=
  HaltsKept config s a ∧ ∀ args ∈ commitArgs config s a, ¬ DayLossStored s.db args.limits

instance (config : BrokerConfig) (s : ControlState) (a : Time × Action) :
    Decidable (LossChecked config s a) :=
  inferInstanceAs (Decidable (_ ∧ ∀ args ∈ commitArgs config s a, _))

section Steps

variable {config : BrokerConfig} {policy : ExitPolicy} {s : ControlState} {a : Time × Action}

theorem commitArgs_checked {args : EntryArgs} (h : args ∈ commitArgs config s a) :
    ∃ req, s.entry = .checked req := by
  unfold commitArgs at h
  split at h
  · rename_i req hentry _
    exact ⟨req, hentry⟩
  · cases h

theorem checkExit_entry (s : PassState) (req : CloseRequest) :
    (checkExit s req).entry = s.entry := by
  unfold checkExit
  split
  · rfl
  · split
    · rfl
    · split
      · rfl
      · split <;> rfl

/-- A step that leaves a checked entry has found it checked, or has checked it. -/
theorem step_entry (s : PassState) (op : PassOp) {req : OpenRequest}
    (h : (s.step config policy op).entry = .checked req) :
    s.entry = .checked req ∨ (op = .checkEntry req ∧
      (evaluateEntry config.risk config.zone req.now s.ledger req.usdcAmount req.tokenMint).1 =
        .ok .allow) := by
  cases op with
  | checkEntry req' =>
      simp only [PassState.step] at h
      split at h
      · rename_i hidle
        unfold checkEntry at h
        split at h
        · exact Or.inl h
        · split at h
          · rename_i heval
            cases h
            exact Or.inr ⟨rfl, by rw [heval]⟩
          · exact Or.inl h
          · exact Or.inl h
      · exact Or.inl h
  | commitEntry =>
      simp only [PassState.step] at h
      split at h
      · unfold commitEntry at h
        split at h
        · split at h
          · cases h
          · split at h <;> cases h
        · cases h
      · exact Or.inl h
  | bookEntry =>
      simp only [PassState.step] at h
      split at h
      · unfold bookEntry at h
        split at h <;> cases h
      · exact Or.inl h
  | listPositions =>
      simp only [PassState.step] at h
      split at h <;> exact Or.inl h
  | quotePosition quote =>
      simp only [PassState.step] at h
      split at h
      · unfold quotePosition at h
        split at h <;> exact Or.inl h
      · exact Or.inl h
  | quoteFailed giveUp =>
      simp only [PassState.step] at h
      split at h
      · unfold quoteFailed at h
        dsimp only at h
        split at h
        · exact Or.inl h
        · rw [checkExit_entry] at h
          exact Or.inl h
      · exact Or.inl h
  | mark now =>
      simp only [PassState.step] at h
      split at h
      · unfold markPass at h
        split at h <;> exact Or.inl h
      · exact Or.inl h
  | writeMarks =>
      simp only [PassState.step] at h
      split at h <;> exact Or.inl h
  | exitPosition positionId price now momentumExit emergencyExit draw =>
      simp only [PassState.step] at h
      split at h
      · split at h
        · exact Or.inl h
        · rw [checkExit_entry] at h
          exact Or.inl h
      · exact Or.inl h
  | commitExit =>
      simp only [PassState.step] at h
      split at h
      · unfold commitExit at h
        split at h <;> exact Or.inl h
      · exact Or.inl h
  | bookExit =>
      simp only [PassState.step] at h
      split at h
      · unfold bookExit at h
        split at h <;> exact Or.inl h
      · exact Or.inl h

theorem perform_entry (now : Time) (action : Action) {req : OpenRequest}
    (h : (s.perform config policy now action).entry = .checked req) :
    s.entry = .checked req ∨ (action = .loop (.checkEntry req) ∧
      (evaluateEntry config.risk config.zone req.now s.ledger req.usdcAmount req.tokenMint).1 =
        .ok .allow) := by
  cases action with
  | loop op =>
      rcases step_entry s.toPassState op h with hchecked | ⟨rfl, hallow⟩
      · exact Or.inl hchecked
      · exact Or.inr ⟨rfl, hallow⟩
  | evaluate notionalUsdc tokenMint =>
      simp only [ControlState.perform, ControlState.evaluate] at h
      split at h <;> exact Or.inl h
  | exitHalts passNow =>
      simp only [ControlState.perform] at h
      split at h <;> exact Or.inl h
  | pause reason => exact Or.inl h
  | resume =>
      simp only [ControlState.perform] at h
      split at h <;> exact Or.inl h
  | forceClear => exact Or.inl h
  | persisted n =>
      simp only [ControlState.perform] at h
      split at h <;> exact Or.inl h
  | restart signals =>
      simp only [ControlState.perform] at h
      split at h
      · exact Or.inl h
      · cases h

/-- As long as the day of a time lasts, its halt is in force and no entry is checked. -/
def ClosedSince (config : BrokerConfig) (at' : Time) (s : ControlState) : Prop :=
  HaltedSince config at' s ∧
    (config.zone.dateKey s.clock = config.zone.dateKey at' → ∀ req, s.entry ≠ .checked req)

theorem ClosedSince.step {at' : Time} (hdays : DaysInOrder config.zone)
    (h : ClosedSince config at' s) (htimed : Timed s a) (hkeeps : KeepsHalts config s a)
    (hforce : a.2 ≠ .forceClear) : ClosedSince config at' (s.step config policy a) := by
  obtain ⟨hhalted, hnone⟩ := h
  refine ⟨hhalted.step hdays htimed hkeeps hforce, fun hday req hentry => ?_⟩
  have hnow : config.zone.dateKey a.1 = config.zone.dateKey at' := hday
  have hbefore := hdays at' s.clock a.1 hhalted.1 htimed.1 hnow.symm
  rcases perform_entry a.1 a.2 hentry with hchecked | ⟨haction, hallow⟩
  · exact hnone hbefore req hchecked
  · have htime : req.now = a.1 := by
      have hclock := htimed.2
      rw [haction] at hclock
      exact hclock
    have htoday := hhalted.2 hbefore
    rw [← hnow, ← htime] at htoday
    exact (evaluateEntry_halted _ _ _ htoday).1 hallow

/-- A refusal of the check sets the halt of its day. -/
theorem RefusedForLoss.closes (h : RefusedForLoss config s a) (policy : ExitPolicy)
    (hchecked : LossChecked config s a) : ClosedSince config a.1 (s.step config policy a) := by
  obtain ⟨⟨htimed, -⟩, hstored⟩ := hchecked
  rcases h with hanswer | ⟨args, hargs, herror⟩
  · have hset : SetsDaily config s a a.1 :=
      Or.inl ⟨⟨"DAILY_LOSS_LIMIT", by decide, hanswer⟩, rfl⟩
    obtain ⟨-, -, -, -, hidle⟩ := checkAnswer_step policy htimed hanswer (by rintro ⟨⟩)
    refine ⟨⟨le_rfl, fun _ => Or.inr (hset.halts policy htimed).2⟩, fun _ req hentry => ?_⟩
    rw [hidle] at hentry
    cases hentry
  · exact absurd (commitPaperEntry_dailyLoss herror) (hstored args hargs)

end Steps

/-! ## Runs -/

/-- In every run in which no halt is overwritten and no commit finds the daily loss, an entry that
is filled after a refusal for the daily loss is filled on another day. -/
theorem run_no_fill_after_loss (config : BrokerConfig) (policy : ExitPolicy)
    (hdays : DaysInOrder config.zone) (startingEquity : ℚ) (start : Time)
    (before after : List (Time × Action)) (a b : Time × Action)
    (hrun : Along (LossChecked config) (ControlState.step config policy)
      (ControlState.init config startingEquity start) (before ++ a :: after ++ [b]))
    (hforce : ∀ c ∈ after, c.2 ≠ .forceClear)
    (hrefused : RefusedForLoss config (exec (ControlState.step config policy)
      (ControlState.init config startingEquity start) before) a)
    (hfill : FillsEntry config (exec (ControlState.step config policy)
      (ControlState.init config startingEquity start) (before ++ a :: after)) b) :
    config.zone.dateKey b.1 ≠ config.zone.dateKey a.1 := by
  intro hday
  obtain ⟨hbefore, ⟨⟨htimed, -⟩, -⟩, -⟩ := Along.append_iff.mp hrun
  obtain ⟨-, hchecked, hafter⟩ := Along.append_iff.mp hbefore
  rw [exec_append, exec_cons] at hfill htimed
  have hkept := hafter.mono fun _ _ h => h.1
  obtain ⟨⟨hclock, -⟩, hnone⟩ := HaltsKept.along (I := ClosedSince config a.1)
    (fun _ _ h => h.step hdays) hkept hforce (hrefused.closes policy hchecked)
  obtain ⟨args, hargs, -⟩ := hfill
  obtain ⟨req, hentry⟩ := commitArgs_checked hargs
  exact hnone (hdays a.1 _ b.1 hclock htimed.1 hday.symm) req hentry

/-! ## Two runs -/

/-- A broker with two risk days and a daily loss limit of two dollars. -/
def twoDayBroker : BrokerConfig :=
  { sampleBroker with
    risk := { sampleBroker.risk with dailyLossLimitUsdc := 2 }
    zone :=
      { dateKey := fun t => if t < seconds 86400 then "1970-01-01" else "1970-01-02"
        dayBounds := fun t =>
          if t < seconds 86400 then (0, seconds 86400) else (seconds 86400, seconds 172800) } }

theorem twoDayBroker_days : DaysInOrder twoDayBroker.zone := by
  intro a b c hab hbc hday
  show (if b < seconds 86400 then _ else _) = if a < seconds 86400 then _ else _
  change (if a < seconds 86400 then "1970-01-01" else "1970-01-02") =
    if c < seconds 86400 then "1970-01-01" else "1970-01-02" at hday
  by_cases hc : c < seconds 86400
  · rw [if_pos (hbc.trans_lt hc), if_pos (hab.trans_lt (hbc.trans_lt hc))]
  · by_cases ha : a < seconds 86400
    · rw [if_pos ha, if_neg hc] at hday
      exact absurd hday (by decide)
    · rw [if_neg ha, if_neg fun hb => ha (hab.trans_lt hb)]

/-- An entry of the given token. -/
def tokenOpen (name : String) (now : Time) : OpenRequest :=
  { sampleOpen with
    tokenMint := name, orderId := some ("entry:" ++ name), candidateId := some name
    poolAddress := some ("pool:" ++ name), positionId := "position:" ++ name
    fillId := "fill:" ++ name, quoteId := "quote:" ++ name, now := now, filledAt := now }

/-- The position of the first token is marked at the given value. -/
def markedAt (usd : ℚ) (hpos : 0 < usd) (now : Time) : List (Time × Action) :=
  [(now, .loop .listPositions), (now, .loop (.quotePosition (dollarsOf usd hpos))),
    (now, .loop (.mark now)), (now, .loop .writeMarks)]

/-- A position of twenty dollars. -/
def firstEntry : List (Time × Action) :=
  [(seconds 1, .loop (.checkEntry (tokenOpen "FIRST" (seconds 1)))),
    (seconds 1, .loop .commitEntry), (seconds 1, .loop .bookEntry)]

/-- A second entry is refused after a mark at seventeen and a half. After a restart a third one is
filled on the next day. -/
def refusedThenRestart : List (Time × Action) :=
  [(seconds 4, .persisted 0), (seconds 5, .restart []),
    (seconds 86410, .loop (.checkEntry (tokenOpen "THIRD" (seconds 86410))))]

theorem run_no_fill_after_loss_nextDay :
    twoDayBroker.zone.dateKey (seconds 86410) ≠ twoDayBroker.zone.dateKey (seconds 3) :=
  run_no_fill_after_loss twoDayBroker {} twoDayBroker_days 500 0
    (firstEntry ++ markedAt (35 / 2) (by decide +kernel) (seconds 2)) refusedThenRestart
    (seconds 3, .evaluate 10 "SECOND") (seconds 86410, .loop .commitEntry) (by decide +kernel)
    (by simp [refusedThenRestart]) (Or.inl (by decide +kernel)) (by decide +kernel)

/-- On the second day the position is marked at seventeen and a half, and a second entry is
checked. -/
def markedOnSecondDay : List (Time × Action) :=
  firstEntry ++ markedAt (35 / 2) markedDown_pos (seconds 86401) ++
    [(seconds 86401, .exitHalts (seconds 86401)),
      (seconds 86402, .loop (.checkEntry (tokenOpen "SECOND" (seconds 86402))))]

/-- The position is marked at nineteen, and a third entry is checked. -/
def markedUp : List (Time × Action) :=
  markedAt 19 (by decide +kernel) (seconds 86403) ++
    [(seconds 86403, .exitHalts (seconds 86403)),
      (seconds 86404, .loop (.checkEntry (tokenOpen "THIRD" (seconds 86404))))]

/-- The commit refuses the second entry for the daily loss, and the third is filled on that day
though no halt was overwritten. -/
theorem loss_in_commit_forgotten :
    Along (HaltsKept twoDayBroker) (ControlState.step twoDayBroker {})
      (ControlState.init twoDayBroker 500 0) (markedOnSecondDay ++
        (seconds 86402, .loop .commitEntry) :: markedUp ++ [(seconds 86404, .loop .commitEntry)]) ∧
    (∀ c ∈ markedUp, c.2 ≠ .forceClear) ∧
    RefusedForLoss twoDayBroker (exec (ControlState.step twoDayBroker {})
      (ControlState.init twoDayBroker 500 0) markedOnSecondDay)
      (seconds 86402, .loop .commitEntry) ∧
    FillsEntry twoDayBroker (exec (ControlState.step twoDayBroker {})
      (ControlState.init twoDayBroker 500 0) (markedOnSecondDay ++
        (seconds 86402, .loop .commitEntry) :: markedUp)) (seconds 86404, .loop .commitEntry) ∧
    twoDayBroker.zone.dateKey (seconds 86404) = twoDayBroker.zone.dateKey (seconds 86402) := by
  refine ⟨by decide +kernel, by simp [markedUp, markedAt], Or.inr ?_, by decide +kernel, rfl⟩
  decide +kernel

end SniperBot.Runtime
