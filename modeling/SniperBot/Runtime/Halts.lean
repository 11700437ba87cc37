import SniperBot.Runtime.Controls

/-!
# How long a halt holds

A hard halt, or a daily halt of the present day, keeps `evaluate_entry` from allowing an entry
(`evaluateEntry_halted`). The halts share one string, so each write can replace a stronger halt:
`/pause` over a hard or daily halt, the daily halt of the exit loop over a hard one or over that of
a later day, and the account row of a restart. `KeepsHalts` is the condition that none of these
happens. Along such steps a hard halt holds until it is cleared by force and a daily halt for the
rest of its day (`run_halts_hold`); `paused_hard_halt_resumed` is a run in which `/pause` and
`/resume` clear a hard halt.
-/

namespace SniperBot.Runtime

open Basis Ledger Risk Paper Exits

/-! ## Kinds of halts -/

/-- `is_hard_halted` -/
def HardHalt (halt : Option String) : Prop := ∃ reason ∈ halt, textStartsWith "hard:" reason

/-- A daily halt of the day. -/
def DailyHalt (halt date : Option String) (day : String) : Prop :=
  date = some day ∧ ∃ reason ∈ halt, textStartsWith "daily:" reason

/-- A halt that `/resume` should not clear. -/
def Halted (halt date : Option String) (day : String) : Prop :=
  HardHalt halt ∨ DailyHalt halt date day

instance (halt : Option String) : Decidable (HardHalt halt) :=
  inferInstanceAs (Decidable (∃ reason ∈ halt, _))

instance (halt date : Option String) (day : String) : Decidable (DailyHalt halt date day) :=
  inferInstanceAs (Decidable (_ ∧ ∃ reason ∈ halt, _))

instance (halt date : Option String) (day : String) : Decidable (Halted halt date day) :=
  inferInstanceAs (Decidable (_ ∨ _))

theorem textStartsWith_append (start rest : String) : textStartsWith start (start ++ rest) := by
  unfold textStartsWith
  rw [String.toList_append, List.isPrefixOf_iff_prefix]
  exact List.prefix_append _ _

theorem not_daily_of_hard {reason : String} (h : textStartsWith "hard:" reason) :
    textStartsWith "daily:" reason = false := by
  unfold textStartsWith at h ⊢
  cases htext : reason.toList with
  | nil =>
      rw [htext] at h
      cases h
  | cons c rest =>
      rw [htext] at h
      have hfirst : 'h' = c := by
        have hleading := List.isPrefixOf_iff_prefix.mp h
        exact (List.cons_prefix_cons.mp hleading).1
      subst hfirst
      rfl

theorem hardHalt_set (reason : String) : HardHalt (some ("hard:" ++ reason)) :=
  ⟨_, rfl, textStartsWith_append _ _⟩

theorem dailyHalt_set (day reason : String) :
    DailyHalt (some ("daily:" ++ day ++ ":" ++ reason)) (some day) day := by
  refine ⟨rfl, _, rfl, ?_⟩
  rw [String.append_assoc, String.append_assoc]
  exact textStartsWith_append _ _

/-! ## The risk check under a halt -/

section Check

variable {risk : RiskConfig} {zone : TimeZone} {now : Time} {s : LedgerState} {notionalUsdc : ℚ}
  {tokenMint : String}

theorem clearExpired_hard (day : String) (now : Time) (h : HardHalt s.haltReason) :
    HardHalt (clearExpiredDailyControls s day now).haltReason := by
  unfold clearExpiredDailyControls
  dsimp only
  split
  · obtain ⟨reason, hreason, hstarts⟩ := h
    refine ⟨reason, ?_, hstarts⟩
    rw [Option.mem_def] at hreason ⊢
    rw [hreason]
    simp [Option.filter, not_daily_of_hard hstarts]
  · exact h

/-- The halt of the present day is not expired. -/
theorem clearExpired_daily {day : String} (now : Time)
    (h : DailyHalt s.haltReason s.dailyHaltDate day) :
    DailyHalt (clearExpiredDailyControls s day now).haltReason
      (clearExpiredDailyControls s day now).dailyHaltDate day := by
  have hpresent : ¬ (s.dailyHaltDate.any fun date => date ≠ "" ∧ date ≠ day) = true := by
    rw [h.1]
    simp
  unfold clearExpiredDailyControls
  dsimp only
  rw [if_neg hpresent]
  exact h

theorem Halted.reason_ne_none {halt date : Option String} {day : String}
    (h : Halted halt date day) : halt ≠ none := by
  rintro rfl
  rcases h with ⟨reason, ⟨⟩, -⟩ | ⟨-, reason, ⟨⟩, -⟩

theorem clearExpired_halted {day : String} (now : Time)
    (h : Halted s.haltReason s.dailyHaltDate day) :
    Halted (clearExpiredDailyControls s day now).haltReason
      (clearExpiredDailyControls s day now).dailyHaltDate day :=
  h.imp (clearExpired_hard day now) (clearExpired_daily now)

/-- A check that finds a halt refuses and leaves it. -/
theorem evaluateEntry_of_halt (risk : RiskConfig) (notionalUsdc : ℚ) (tokenMint : String)
    (h : (clearExpiredDailyControls s (zone.dateKey now) now).haltReason ≠ none) :
    evaluateEntry risk zone now s notionalUsdc tokenMint =
        (.error "notional must be positive", s) ∨
      evaluateEntry risk zone now s notionalUsdc tokenMint =
        (.ok (.block "HALTED_BY_RISK_MANAGER"),
          clearExpiredDailyControls s (zone.dateKey now) now) := by
  by_cases hnotional : notionalUsdc ≤ 0
  · left
    rw [evaluateEntry, if_pos hnotional]
  · right
    rw [evaluateEntry, if_neg hnotional]
    exact if_pos h

variable (risk) (notionalUsdc) (tokenMint)

theorem evaluateEntry_hard (now : Time) (h : HardHalt s.haltReason) :
    HardHalt (evaluateEntry risk zone now s notionalUsdc tokenMint).2.haltReason := by
  have hcleared := clearExpired_hard (zone.dateKey now) now h
  have hhalted : Halted _ none "" := Or.inl hcleared
  rcases evaluateEntry_of_halt risk notionalUsdc tokenMint hhalted.reason_ne_none with heq | heq
  · rw [heq]
    exact h
  · rw [heq]
    exact hcleared

/-- Under a hard halt or a halt of the day no entry is allowed, and the halt stays. -/
theorem evaluateEntry_halted (h : Halted s.haltReason s.dailyHaltDate (zone.dateKey now)) :
    (evaluateEntry risk zone now s notionalUsdc tokenMint).1 ≠ .ok .allow ∧
      Halted (evaluateEntry risk zone now s notionalUsdc tokenMint).2.haltReason
        (evaluateEntry risk zone now s notionalUsdc tokenMint).2.dailyHaltDate
        (zone.dateKey now) := by
  have hcleared := clearExpired_halted now h
  rcases evaluateEntry_of_halt risk notionalUsdc tokenMint hcleared.reason_ne_none with heq | heq
  · rw [heq]
    exact ⟨by rintro ⟨⟩, h⟩
  · rw [heq]
    exact ⟨by rintro ⟨⟩, hcleared⟩

end Check

/-! ## The halts that a check sets -/

/-- The refusals that set a daily halt. -/
def dailyReasons : List String := ["DAILY_LOSS_LIMIT", "CONSECUTIVE_LOSS_DAILY_HALT"]

/-- What a refusal leaves: a hard halt, or a daily halt of the day. -/
structure Halting (today : String) (answer : Except String RiskDecision × LedgerState) : Prop where
  hard : answer.1 = .ok (.block "ALL_TIME_DRAWDOWN_LIMIT") → HardHalt answer.2.haltReason
  daily : ∀ reason ∈ dailyReasons, answer.1 = .ok (.block reason) →
    DailyHalt answer.2.haltReason answer.2.dailyHaltDate today

theorem Halting.ite {today : String} {c : Prop} [Decidable c]
    {a b : Except String RiskDecision × LedgerState} (ha : Halting today a) (hb : Halting today b) :
    Halting today (if c then a else b) := by
  split
  · exact ha
  · exact hb

/-- A refusal for another reason. -/
theorem Halting.other {today : String} {reason : String} {s : LedgerState}
    (hhard : reason ≠ "ALL_TIME_DRAWDOWN_LIMIT") (hdaily : reason ∉ dailyReasons) :
    Halting today (.ok (.block reason), s) := by
  constructor
  · rintro ⟨⟩
    exact absurd rfl hhard
  · rintro _ hmem ⟨⟩
    exact absurd hmem hdaily

theorem evaluateEntry_halting (risk : RiskConfig) (zone : TimeZone) (now : Time) (s : LedgerState)
    (notionalUsdc : ℚ) (tokenMint : String) :
    Halting (zone.dateKey now) (evaluateEntry risk zone now s notionalUsdc tokenMint) := by
  have hother : ∀ {reason : String} {t : LedgerState}, reason ≠ "ALL_TIME_DRAWDOWN_LIMIT" →
      reason ∉ dailyReasons → Halting (zone.dateKey now) (.ok (.block reason), t) :=
    Halting.other
  unfold evaluateEntry
  refine Halting.ite ⟨by rintro ⟨⟩, by rintro _ _ ⟨⟩⟩ ?_
  -- the six refusals before the day baseline is set
  refine Halting.ite (hother (by decide) (by decide)) (Halting.ite (hother (by decide) (by decide))
    (Halting.ite (hother (by decide) (by decide)) ?_))
  refine Halting.ite (hother (by decide) (by decide)) (Halting.ite (hother (by decide) (by decide))
    (Halting.ite (hother (by decide) (by decide)) ?_))
  refine Halting.ite ⟨by simp, fun _ _ _ => dailyHalt_set _ _⟩ ?_
  refine Halting.ite (hother (by decide) (by decide)) ?_
  refine Halting.ite ⟨fun _ => hardHalt_set _, ?_⟩ ?_
  · rintro _ hmem ⟨⟩
    exact absurd hmem (by decide)
  refine Halting.ite ⟨by simp, fun _ _ _ => dailyHalt_set _ _⟩ ?_
  refine Halting.ite (hother (by decide) (by decide)) (Halting.ite (hother (by decide) (by decide))
    ⟨by rintro ⟨⟩, by rintro _ _ ⟨⟩⟩)

/-! ## Steps that keep a halt -/

/-- The exit loop sets a daily halt. -/
def ExitSetsDaily (config : BrokerConfig) (s : LedgerState) (now : Time) : Prop :=
  let based := withBaseline s (config.zone.dateKey now)
  ¬ drawdownReached based config.risk.allTimeDrawdownLimitPct ∧
    dailyLossExceeded based (config.zone.dateKey now) config.risk.dailyLossLimitUsdc

instance (config : BrokerConfig) (s : LedgerState) (now : Time) :
    Decidable (ExitSetsDaily config s now) :=
  inferInstanceAs (Decidable (_ ∧ _))

/-- No weaker halt is written over a hard halt or over the daily halt of the present day, and a
restart finds them in the account row. -/
def KeepsHalts (config : BrokerConfig) (s : ControlState) (a : Time × Action) : Prop :=
  let today := config.zone.dateKey a.1
  match a.2 with
  | .pause _ => ¬ Halted s.ledger.haltReason s.ledger.dailyHaltDate today
  | .exitHalts passNow => ExitSetsDaily config s.ledger a.1 →
      ¬ HardHalt s.ledger.haltReason ∧
        (DailyHalt s.ledger.haltReason s.ledger.dailyHaltDate today →
          config.zone.dateKey passNow = today)
  | .restart _ => ∀ account ∈ s.db.account,
      (HardHalt s.ledger.haltReason → HardHalt account.haltReason) ∧
        (Halted s.ledger.haltReason s.ledger.dailyHaltDate today →
          Halted account.haltReason account.dailyHaltDate today)
  | _ => True

instance (config : BrokerConfig) (s : ControlState) :
    (a : Time × Action) → Decidable (KeepsHalts config s a)
  | (_, .pause _) => inferInstanceAs (Decidable (¬ _))
  | (_, .exitHalts _) => inferInstanceAs (Decidable (_ → _ ∧ _))
  | (now, .restart _) => inferInstanceAs (Decidable (∀ account ∈ s.db.account,
      (HardHalt s.ledger.haltReason → HardHalt account.haltReason) ∧
        (Halted s.ledger.haltReason s.ledger.dailyHaltDate (config.zone.dateKey now) →
          Halted account.haltReason account.dailyHaltDate (config.zone.dateKey now))))
  | (_, .loop _) | (_, .evaluate ..) | (_, .resume) | (_, .forceClear) | (_, .persisted _) =>
      inferInstanceAs (Decidable True)

/-- The answer of the risk check that a step makes. -/
def checkAnswer (config : BrokerConfig) (s : ControlState) (a : Time × Action) :
    Option (Except String RiskDecision) :=
  match s.entry, a.2 with
  | .idle, .evaluate notionalUsdc tokenMint =>
      some (evaluateEntry config.risk config.zone a.1 s.ledger notionalUsdc tokenMint).1
  | .idle, .loop (.checkEntry req) => match repeatedFill s.ledger req.orderId .entry with
    | some _ => none
    | none => some (evaluateEntry config.risk config.zone req.now s.ledger req.usdcAmount
        req.tokenMint).1
  | _, _ => none

/-- A step sets a hard halt. -/
def SetsHard (config : BrokerConfig) (s : ControlState) (a : Time × Action) : Prop :=
  checkAnswer config s a = some (.ok (.block "ALL_TIME_DRAWDOWN_LIMIT")) ∨
    ((∃ passNow, a.2 = .exitHalts passNow) ∧
      drawdownReached (withBaseline s.ledger (config.zone.dateKey a.1))
        config.risk.allTimeDrawdownLimitPct)

/-- A step sets a daily halt for the day of a time: its own, or that of the pass of the exit loop. -/
def SetsDaily (config : BrokerConfig) (s : ControlState) (a : Time × Action) (at' : Time) : Prop :=
  ((∃ reason ∈ dailyReasons, checkAnswer config s a = some (.ok (.block reason))) ∧ at' = a.1) ∨
    (a.2 = .exitHalts at' ∧ ExitSetsDaily config s.ledger a.1)

/-- The days of the calendar follow each other. -/
def DaysInOrder (zone : TimeZone) : Prop :=
  ∀ a b c : Time, a ≤ b → b ≤ c → zone.dateKey a = zone.dateKey c → zone.dateKey b = zone.dateKey a

section Steps

variable {config : BrokerConfig} {policy : ExitPolicy} {s : ControlState} {a : Time × Action}

/-- The ledger after the exit loop. -/
theorem exitHalts_cases (s : LedgerState) (passNow now : Time) :
    (drawdownReached (withBaseline s (config.zone.dateKey now))
        config.risk.allTimeDrawdownLimitPct ∧
      HardHalt (exitHalts config s passNow now).haltReason) ∨
    (ExitSetsDaily config s now ∧ DailyHalt (exitHalts config s passNow now).haltReason
      (exitHalts config s passNow now).dailyHaltDate (config.zone.dateKey passNow)) ∨
    (¬ drawdownReached (withBaseline s (config.zone.dateKey now))
        config.risk.allTimeDrawdownLimitPct ∧ ¬ ExitSetsDaily config s now ∧
      SameHalt s (exitHalts config s passNow now)) := by
  unfold exitHalts
  dsimp only
  split
  · rename_i hdrawdown
    exact Or.inl ⟨hdrawdown, hardHalt_set _⟩
  · rename_i hdrawdown
    split
    · rename_i hloss
      exact Or.inr (Or.inl ⟨⟨hdrawdown, hloss⟩, dailyHalt_set _ _⟩)
    · rename_i hloss
      exact Or.inr (Or.inr ⟨hdrawdown, fun h => hloss h.2, rfl, rfl⟩)

/-- What a step does to the halt of the ledger. -/
inductive HaltChange (config : BrokerConfig) (s : ControlState) (a : Time × Action)
    (next : LedgerState) : Prop
  | same (h : SameHalt s.ledger next)
  | checked (notionalUsdc : ℚ) (tokenMint : String) (now : Time) (hnow : now = a.1)
      (h : next = (evaluateEntry config.risk config.zone now s.ledger notionalUsdc tokenMint).2)
  | exited (passNow : Time) (haction : a.2 = .exitHalts passNow)
      (h : next = exitHalts config s.ledger passNow a.1)
  | paused (reason : String) (haction : a.2 = .pause reason)
  | cleared (h : ¬ ∃ reason ∈ s.ledger.haltReason,
      textStartsWith "hard:" reason ∨ textStartsWith "daily:" reason)
  | forced (haction : a.2 = .forceClear)
  | restarted (signals : List SignalRow) (haction : a.2 = .restart signals)
      (h : ∃ account ∈ s.db.account, next.haltReason = account.haltReason ∧
        next.dailyHaltDate = account.dailyHaltDate)

theorem checkEntry_ledger (config : BrokerConfig) (s : PassState) (req : OpenRequest) :
    (checkEntry config s req).ledger = s.ledger ∨ (checkEntry config s req).ledger =
      (evaluateEntry config.risk config.zone req.now s.ledger req.usdcAmount req.tokenMint).2 := by
  unfold checkEntry
  split
  · exact Or.inl rfl
  · right
    split
    · rename_i heval
      rw [heval]
    · rename_i heval
      rw [heval]
    · rename_i heval
      rw [heval]

theorem exitHalts_ledger (s : ControlState) (now passNow : Time) :
    (s.perform config policy now (.exitHalts passNow)).ledger =
      exitHalts config s.ledger passNow now := by
  simp only [ControlState.perform]
  split <;> rfl

theorem step_change (config : BrokerConfig) (policy : ExitPolicy) (htimed : Timed s a) :
    HaltChange config s a (s.step config policy a).ledger := by
  obtain ⟨now, action⟩ := a
  cases action with
  | loop op =>
      by_cases hcheck : ∃ req, op = .checkEntry req
      · obtain ⟨req, rfl⟩ := hcheck
        have hnow : req.now = now := htimed.2
        show HaltChange config s _ (s.toPassState.step config policy (.checkEntry req)).ledger
        simp only [PassState.step]
        split
        · rcases checkEntry_ledger config s.toPassState req with heq | heq
          · exact .same (by rw [heq]; exact SameHalt.refl _)
          · exact .checked _ _ req.now hnow heq
        · exact .same (SameHalt.refl _)
      · exact .same (step_sameHalt s.toPassState fun req heq => hcheck ⟨req, heq⟩)
  | evaluate notionalUsdc tokenMint =>
      show HaltChange config s _ (s.evaluate config now notionalUsdc tokenMint).ledger
      unfold ControlState.evaluate
      split
      · rename_i heval
        exact .checked notionalUsdc tokenMint now rfl (congrArg Prod.snd heval).symm
      · rename_i heval
        exact .checked notionalUsdc tokenMint now rfl (congrArg Prod.snd heval).symm
      · exact .same (SameHalt.refl _)
  | exitHalts passNow => exact .exited passNow rfl (exitHalts_ledger s now passNow)
  | pause reason => exact .paused reason rfl
  | resume =>
      show HaltChange config s _ (ControlState.perform config policy s now .resume).ledger
      simp only [ControlState.perform, clearHalt, and_true]
      split
      · rename_i hclear
        split at hclear
        · cases hclear
        · rename_i hnot
          exact .cleared hnot
      · exact .same (SameHalt.refl _)
  | forceClear => exact .forced rfl
  | persisted n =>
      show HaltChange config s _ (ControlState.perform config policy s now (.persisted n)).ledger
      simp only [ControlState.perform]
      split <;> exact .same (SameHalt.refl _)
  | restart signals =>
      show HaltChange config s _ (ControlState.perform config policy s now (.restart signals)).ledger
      simp only [ControlState.perform]
      split
      · exact .same (SameHalt.refl _)
      · rename_i ledger hstart
        obtain ⟨account, haccount, -, -, hhalt, hdate⟩ := startLedger_frame hstart
        exact .restarted signals rfl ⟨account, haccount, hhalt, hdate⟩

theorem HardHalt.step (h : HardHalt s.ledger.haltReason) (htimed : Timed s a)
    (hkeeps : KeepsHalts config s a) (hforce : a.2 ≠ .forceClear) :
    HardHalt (s.step config policy a).ledger.haltReason := by
  obtain ⟨reason, hreason, hstarts⟩ := h
  have hhard : HardHalt s.ledger.haltReason := ⟨reason, hreason, hstarts⟩
  cases step_change config policy htimed with
  | same heq =>
      rw [heq.1]
      exact hhard
  | checked notionalUsdc tokenMint now _ heq =>
      rw [heq]
      exact evaluateEntry_hard _ _ _ now hhard
  | exited passNow haction heq =>
      unfold KeepsHalts at hkeeps
      rw [haction] at hkeeps
      rw [heq]
      rcases exitHalts_cases s.ledger passNow a.1 with ⟨-, hset⟩ | ⟨hdaily, -⟩ | ⟨-, -, hsame⟩
      · exact hset
      · exact absurd hhard (hkeeps hdaily).1
      · rw [hsame.1]
        exact hhard
  | paused reason' haction =>
      unfold KeepsHalts at hkeeps
      rw [haction] at hkeeps
      exact absurd (Or.inl hhard) hkeeps
  | cleared hnot => exact absurd ⟨reason, hreason, Or.inl hstarts⟩ hnot
  | forced haction => exact absurd haction hforce
  | restarted signals haction hrestored =>
      obtain ⟨account, haccount, hhalt, -⟩ := hrestored
      unfold KeepsHalts at hkeeps
      rw [haction] at hkeeps
      rw [hhalt]
      exact (hkeeps account haccount).1 hhard

/-- A halt of the present day is still in force after a step. -/
theorem Halted.step (h : Halted s.ledger.haltReason s.ledger.dailyHaltDate
      (config.zone.dateKey a.1)) (htimed : Timed s a) (hkeeps : KeepsHalts config s a)
    (hforce : a.2 ≠ .forceClear) :
    Halted (s.step config policy a).ledger.haltReason (s.step config policy a).ledger.dailyHaltDate
      (config.zone.dateKey a.1) := by
  cases step_change config policy htimed with
  | same heq =>
      rw [heq.1, heq.2]
      exact h
  | checked notionalUsdc tokenMint now hnow heq =>
      subst hnow
      rw [heq]
      exact (evaluateEntry_halted _ _ _ h).2
  | exited passNow haction heq =>
      unfold KeepsHalts at hkeeps
      rw [haction] at hkeeps
      rw [heq]
      rcases exitHalts_cases s.ledger passNow a.1 with ⟨-, hset⟩ | ⟨hdaily, hset⟩ | ⟨-, -, hsame⟩
      · exact Or.inl hset
      · obtain ⟨hnot, hday⟩ := hkeeps hdaily
        rcases h with hhard | htoday
        · exact absurd hhard hnot
        · rw [hday htoday] at hset
          exact Or.inr hset
      · rw [hsame.1, hsame.2]
        exact h
  | paused reason haction =>
      unfold KeepsHalts at hkeeps
      rw [haction] at hkeeps
      exact absurd h hkeeps
  | cleared hnot =>
      exfalso
      rcases h with ⟨reason, hreason, hstarts⟩ | ⟨-, reason, hreason, hstarts⟩
      · exact hnot ⟨reason, hreason, Or.inl hstarts⟩
      · exact hnot ⟨reason, hreason, Or.inr hstarts⟩
  | forced haction => exact absurd haction hforce
  | restarted signals haction hrestored =>
      obtain ⟨account, haccount, hhalt, hdate⟩ := hrestored
      unfold KeepsHalts at hkeeps
      rw [haction] at hkeeps
      rw [hhalt, hdate]
      exact (hkeeps account haccount).2 h

/-- The check that a step makes, and the ledger it leaves. -/
theorem checkAnswer_step (policy : ExitPolicy) (htimed : Timed s a)
    {answer : Except String RiskDecision} (h : checkAnswer config s a = some answer)
    (hanswer : answer ≠ .ok .allow) :
    ∃ notionalUsdc tokenMint,
      answer = (evaluateEntry config.risk config.zone a.1 s.ledger notionalUsdc tokenMint).1 ∧
      (s.step config policy a).ledger =
        (evaluateEntry config.risk config.zone a.1 s.ledger notionalUsdc tokenMint).2 ∧
      (s.step config policy a).entry = .idle := by
  obtain ⟨now, action⟩ := a
  unfold checkAnswer at h
  split at h
  · rename_i notionalUsdc tokenMint hidle haction
    dsimp only at haction
    subst haction
    cases h
    refine ⟨notionalUsdc, tokenMint, rfl, ?_⟩
    show (s.evaluate config now notionalUsdc tokenMint).ledger = _ ∧
      (s.evaluate config now notionalUsdc tokenMint).entry = _
    unfold ControlState.evaluate
    rw [hidle]
    split
    · rename_i heval
      rw [heval]
      exact ⟨rfl, hidle⟩
    · rename_i heval
      rw [heval]
      exact ⟨rfl, rfl⟩
    · rename_i hother
      exact (hother _ _ rfl rfl).elim
  · rename_i req hidle haction
    dsimp only at haction
    subst haction
    split at h
    · cases h
    · rename_i hnew
      cases h
      have hnow : req.now = now := htimed.2
      subst hnow
      refine ⟨req.usdcAmount, req.tokenMint, rfl, ?_⟩
      have hstep : (s.step config policy (req.now, .loop (.checkEntry req))).toPassState =
          checkEntry config s.toPassState req := by
        simp only [ControlState.step, ControlState.perform, PassState.step, hidle]
      rw [hstep]
      unfold checkEntry
      rw [hnew]
      dsimp only
      split
      · rename_i heval
        rw [heval] at hanswer
        exact absurd rfl hanswer
      · rename_i heval
        rw [heval]
        exact ⟨rfl, hidle⟩
      · rename_i heval
        rw [heval]
        exact ⟨rfl, hidle⟩
  · cases h

theorem SetsHard.halts (h : SetsHard config s a) (policy : ExitPolicy) (htimed : Timed s a) :
    HardHalt (s.step config policy a).ledger.haltReason := by
  rcases h with hcheck | ⟨⟨passNow, haction⟩, hdrawdown⟩
  · obtain ⟨notionalUsdc, tokenMint, hanswer, hledger, -⟩ :=
      checkAnswer_step policy htimed hcheck (by rintro ⟨⟩)
    rw [hledger]
    exact (evaluateEntry_halting _ _ _ _ _ _).hard hanswer.symm
  · have hledger : (s.step config policy a).ledger = exitHalts config s.ledger passNow a.1 := by
      rw [ControlState.step, haction]
      exact exitHalts_ledger s a.1 passNow
    rw [hledger]
    rcases exitHalts_cases s.ledger passNow a.1 with ⟨-, hset⟩ | ⟨hdaily, -⟩ | ⟨hnot, -⟩
    · exact hset
    · exact absurd hdrawdown hdaily.1
    · exact absurd hdrawdown hnot

theorem SetsDaily.halts {at' : Time} (h : SetsDaily config s a at') (policy : ExitPolicy)
    (htimed : Timed s a) :
    at' ≤ a.1 ∧ DailyHalt (s.step config policy a).ledger.haltReason
      (s.step config policy a).ledger.dailyHaltDate (config.zone.dateKey at') := by
  rcases h with ⟨⟨reason, hreason, hcheck⟩, rfl⟩ | ⟨haction, hdaily⟩
  · refine ⟨le_rfl, ?_⟩
    obtain ⟨notionalUsdc, tokenMint, hanswer, hledger, -⟩ :=
      checkAnswer_step policy htimed hcheck (by rintro ⟨⟩)
    rw [hledger]
    exact (evaluateEntry_halting _ _ _ _ _ _).daily reason hreason hanswer.symm
  · have hledger : (s.step config policy a).ledger = exitHalts config s.ledger at' a.1 := by
      rw [ControlState.step, haction]
      exact exitHalts_ledger s a.1 at'
    refine ⟨?_, ?_⟩
    · have htime := htimed.2
      rw [haction] at htime
      exact htime
    · rw [hledger]
      rcases exitHalts_cases s.ledger at' a.1 with ⟨hdrawdown, -⟩ | ⟨-, hset⟩ | ⟨-, hnot, -⟩
      · exact absurd hdrawdown hdaily.1
      · exact hset
      · exact absurd hdaily hnot

/-- As long as the day of a time lasts, its halt is in force. -/
def HaltedSince (config : BrokerConfig) (at' : Time) (s : ControlState) : Prop :=
  at' ≤ s.clock ∧ (config.zone.dateKey s.clock = config.zone.dateKey at' →
    Halted s.ledger.haltReason s.ledger.dailyHaltDate (config.zone.dateKey at'))

theorem HaltedSince.step {at' : Time} (hdays : DaysInOrder config.zone)
    (h : HaltedSince config at' s) (htimed : Timed s a) (hkeeps : KeepsHalts config s a)
    (hforce : a.2 ≠ .forceClear) : HaltedSince config at' (s.step config policy a) := by
  refine ⟨h.1.trans htimed.1, fun hday => ?_⟩
  have hnow : config.zone.dateKey a.1 = config.zone.dateKey at' := hday
  have hbefore := hdays at' s.clock a.1 h.1 htimed.1 hnow.symm
  have hhalted := h.2 hbefore
  rw [← hnow] at hhalted ⊢
  exact hhalted.step htimed hkeeps hforce

end Steps

/-! ## Runs -/

/-- Steps in order of time that overwrite no halt. -/
def HaltsKept (config : BrokerConfig) (s : ControlState) (a : Time × Action) : Prop :=
  Timed s a ∧ KeepsHalts config s a

instance (config : BrokerConfig) (s : ControlState) (a : Time × Action) :
    Decidable (HaltsKept config s a) :=
  inferInstanceAs (Decidable (_ ∧ _))

theorem HaltsKept.along {config : BrokerConfig} {policy : ExitPolicy} {I : ControlState → Prop}
    (hstep : ∀ s a, I s → Timed s a → KeepsHalts config s a → a.2 ≠ .forceClear →
      I (s.step config policy a)) {s : ControlState} {as : List (Time × Action)}
    (hrun : Along (HaltsKept config) (ControlState.step config policy) s as)
    (hforce : ∀ a ∈ as, a.2 ≠ .forceClear) (hs : I s) :
    I (exec (ControlState.step config policy) s as) := by
  induction as generalizing s with
  | nil => exact hs
  | cons a as ih =>
      have hnot := hforce a List.mem_cons_self
      exact ih hrun.2 (fun b hb => hforce b (List.mem_cons_of_mem _ hb))
        (hstep s a hs hrun.1.1 hrun.1.2 hnot)

/-- In every run whose steps overwrite no halt, a hard halt keeps entries from being allowed until
it is cleared by force, and a daily halt for the rest of its day. -/
theorem run_halts_hold (config : BrokerConfig) (policy : ExitPolicy)
    (hdays : DaysInOrder config.zone) (startingEquity : ℚ) (start : Time)
    (before after : List (Time × Action)) (a : Time × Action)
    (hrun : Along (HaltsKept config) (ControlState.step config policy)
      (ControlState.init config startingEquity start) (before ++ a :: after))
    (hforce : ∀ b ∈ after, b.2 ≠ .forceClear) (now : Time)
    (hnow : (exec (ControlState.step config policy)
      (ControlState.init config startingEquity start) (before ++ a :: after)).clock ≤ now)
    (notionalUsdc : ℚ) (tokenMint : String) :
    (SetsHard config (exec (ControlState.step config policy)
        (ControlState.init config startingEquity start) before) a →
      (evaluateEntry config.risk config.zone now (exec (ControlState.step config policy)
        (ControlState.init config startingEquity start) (before ++ a :: after)).ledger
        notionalUsdc tokenMint).1 ≠ .ok .allow) ∧
    ∀ at', SetsDaily config (exec (ControlState.step config policy)
        (ControlState.init config startingEquity start) before) a at' →
      config.zone.dateKey now = config.zone.dateKey at' →
      (evaluateEntry config.risk config.zone now (exec (ControlState.step config policy)
        (ControlState.init config startingEquity start) (before ++ a :: after)).ledger
        notionalUsdc tokenMint).1 ≠ .ok .allow := by
  rw [exec_append, exec_cons] at hnow ⊢
  obtain ⟨-, ⟨htimed, -⟩, hafter⟩ := Along.append_iff.mp hrun
  constructor
  · intro hset
    have hhard := HaltsKept.along (I := fun s => HardHalt s.ledger.haltReason)
      (fun _ _ h => h.step) hafter hforce (hset.halts policy htimed)
    exact (evaluateEntry_halted _ _ _ (Or.inl hhard)).1
  · intro at' hset hday
    obtain ⟨hle, hdaily⟩ := hset.halts policy htimed
    obtain ⟨hclock, hhalted⟩ := HaltsKept.along (I := HaltedSince config at')
      (fun _ _ h => h.step hdays) hafter hforce ⟨hle, fun _ => Or.inr hdaily⟩
    have hbefore := hdays at' _ now hclock hnow hday.symm
    have htoday := hhalted hbefore
    rw [← hday] at htoday
    exact (evaluateEntry_halted _ _ _ htoday).1

/-! ## Two runs -/

/-- A broker whose hard halt is set at a drawdown of half a percent. -/
def carefulBroker : BrokerConfig :=
  { sampleBroker with risk := { sampleBroker.risk with allTimeDrawdownLimitPct := 1 / 2 } }

theorem markedDown_pos : (0 : ℚ) < 35 / 2 := by decide +kernel

/-- A position of twenty dollars is opened and marked at seventeen and a half. -/
def markedDown : List (Time × Action) :=
  [(seconds 1, .loop (.checkEntry sampleOpen)), (seconds 1, .loop .commitEntry),
    (seconds 1, .loop .bookEntry), (seconds 2, .loop .listPositions),
    (seconds 2, .loop (.quotePosition (dollarsOf (35 / 2) markedDown_pos))),
    (seconds 2, .loop (.mark (seconds 2))), (seconds 2, .loop .writeMarks)]

def hardHaltStep : Time × Action := (seconds 2, .exitHalts (seconds 2))

theorem setsHard_markedDown : SetsHard carefulBroker (exec (ControlState.step carefulBroker {})
    (ControlState.init carefulBroker 500 0) markedDown) hardHaltStep :=
  Or.inr ⟨⟨_, rfl⟩, by decide +kernel⟩

/-- The halt is persisted, the process restarts, and the operator resumes. -/
def persistedRestart : List (Time × Action) :=
  [(seconds 3, .persisted 0), (seconds 4, .restart []), (seconds 5, .resume)]

theorem run_halts_hold_persistedRestart :
    (evaluateEntry carefulBroker.risk carefulBroker.zone (seconds 6)
      (exec (ControlState.step carefulBroker {}) (ControlState.init carefulBroker 500 0)
        (markedDown ++ hardHaltStep :: persistedRestart)).ledger 10 "OTHER").1 ≠ .ok .allow :=
  (run_halts_hold carefulBroker {} (fun _ _ _ _ _ _ => rfl) 500 0 markedDown persistedRestart
    hardHaltStep (by decide +kernel) (by simp [persistedRestart]) (seconds 6) (by decide +kernel)
    10 "OTHER").1 setsHard_markedDown

/-- The emergency exit finds a better price than the mark; then the operator pauses and resumes. -/
def pausedResumed : List (Time × Action) :=
  [(seconds 2, .loop (.exitPosition "position" (35 / 198) (seconds 2) false true
      (sampleDraw "fill-exit" (some (dollarsOf 20 twenty_pos))))),
    (seconds 3, .loop .commitExit), (seconds 3, .loop .bookExit), (seconds 4, .pause "check"),
    (seconds 5, .resume)]

/-- `/pause` overwrites the hard halt and `/resume` clears it: the next entry is allowed. -/
theorem paused_hard_halt_resumed :
    Along Timed (ControlState.step carefulBroker {}) (ControlState.init carefulBroker 500 0)
      (markedDown ++ hardHaltStep :: pausedResumed) ∧
    SetsHard carefulBroker (exec (ControlState.step carefulBroker {})
      (ControlState.init carefulBroker 500 0) markedDown) hardHaltStep ∧
    (∀ b ∈ pausedResumed, b.2 ≠ .forceClear) ∧
    (evaluateEntry carefulBroker.risk carefulBroker.zone (seconds 6)
      (exec (ControlState.step carefulBroker {}) (ControlState.init carefulBroker 500 0)
        (markedDown ++ hardHaltStep :: pausedResumed)).ledger 10 "OTHER").1 = .ok .allow := by
  refine ⟨by decide +kernel, Or.inr ⟨⟨_, rfl⟩, by decide +kernel⟩, by simp [pausedResumed], ?_⟩
  decide +kernel

end SniperBot.Runtime
