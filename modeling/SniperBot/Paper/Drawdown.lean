import SniperBot.Paper.Solvency

/-!
# The unit of the stored drawdown

Three transactions write `drawdown_pct` together with the equity or the peak. An exit and a mark
update store the loss from the peak as a share of the peak; a recorded cost stores a hundred times
the share, and nothing below zero. `ShownIn` is the rule for one unit: after an operation that
changes equity or peak, the column is the unit times the share.

A share that is not zero tells the units apart. So a run keeps one unit exactly when only one of
the two kinds of operation leaves the equity away from the peak: either every recorded cost leaves
the equity at the peak (`CostsAtPeak`), or every exit and every mark that changes the figures does
and no cost leaves it above (`OthersAtPeak`).
-/

namespace SniperBot.Paper

open Basis Ledger

/-- The loss from the peak as a share of the peak. -/
def AccountRow.drawdown (account : AccountRow) : ℚ :=
  (account.peakEquity - account.equity) / account.peakEquity

def AccountRow.figures (account : AccountRow) : ℚ × ℚ := (account.equity, account.peakEquity)

/-- The operation changes the equity or the peak of the account row. -/
def Moves (db : PaperDb) (op : AccountOp) : Prop :=
  (db.advance op).account.map AccountRow.figures ≠ db.account.map AccountRow.figures

instance (db : PaperDb) (op : AccountOp) : Decidable (Moves db op) :=
  inferInstanceAs (Decidable (_ ≠ _))

/-- If the operation changes equity or peak, the row then shows the drawdown in this unit. -/
def ShownIn (unit : ℚ) (db : PaperDb) (op : AccountOp) : Prop :=
  Moves db op → ∀ account, (db.advance op).account = some account → 0 < account.peakEquity →
    account.drawdownPct = unit * account.drawdown

/-- A recorded cost takes the equity from above the peak down to the peak. -/
def CostsAtPeak (db : PaperDb) : AccountOp → Prop
  | .book (.operationalCost args) => Moves db (.book (.operationalCost args)) →
      ∀ account, db.account = some account → 0 < account.peakEquity →
        account.equity - args.amountUsd = account.peakEquity
  | _ => True

/-- Exits and marks that change the figures leave the equity at the peak, and a recorded cost
does not leave it above. -/
def OthersAtPeak (db : PaperDb) : AccountOp → Prop
  | .book (.operationalCost args) => Moves db (.book (.operationalCost args)) →
      ∀ account, db.account = some account → 0 < account.peakEquity →
        account.equity - args.amountUsd ≤ account.peakEquity
  | .book (.exit args) => Moves db (.book (.exit args)) →
      ∀ account id row, db.account = some account →
        db.livePosition args.mint = some (id, row) → 0 < account.peakEquity →
          account.peakEquity ≤ account.equity + (args.realizedDelta row - args.closedUnrealized row)
  | .marks ownedRun values snapshot observedAt =>
      Moves db (.marks ownedRun values snapshot observedAt) →
        0 < snapshot.peakEquityUsd → snapshot.equityUsd = snapshot.peakEquityUsd
  | _ => True

/-! ## What each operation stores -/

section Operations

variable {db : PaperDb} {unit : ℚ}

/-- An operation after which equity and peak are as before owes nothing. -/
theorem ShownIn.of_still {op : AccountOp}
    (h : (db.advance op).account.map AccountRow.figures = db.account.map AccountRow.figures) :
    ShownIn unit db op :=
  fun hmoves => absurd h hmoves

theorem shownIn_initialize (startingEquity : ℚ) (now : Time) :
    ShownIn unit db (.book (.initializeAccount startingEquity now)) := by
  cases haccount : db.account with
  | some row =>
      refine ShownIn.of_still ?_
      simp only [PaperDb.advance, PaperDb.apply, initializePaperAccount, haccount]
  | none =>
      intro _ account hstored _
      simp only [PaperDb.advance, PaperDb.apply, initializePaperAccount, haccount,
        Option.some.injEq] at hstored
      subst hstored
      simp [AccountRow.drawdown]

/-- An entry changes neither the equity nor the peak. -/
theorem shownIn_entry (args : EntryArgs) : ShownIn unit db (.book (.entry args)) := by
  refine ShownIn.of_still ?_
  refine commitPaperEntry_rule
    (P := fun db' => db'.account.map AccountRow.figures = db.account.map AccountRow.figures)
    args rfl fun account hcase => ?_
  obtain ⟨stored, hstored, rfl⟩ := hcase.stored
  obtain ⟨halt, pause, date, heq⟩ := cleared_frame stored args.filledAt args.limits.dayKey
  rw [hstored]
  simp only [PaperDb.entered, Option.map_some, heq, AccountRow.entered, AccountRow.figures]

/-- A cost is refused, or it is charged to the stored account. -/
theorem cost_cases (db : PaperDb) (args : CostArgs) :
    db.advance (.book (.operationalCost args)) = db ∨
      ∃ account, db.account = some account ∧
        db.advance (.book (.operationalCost args)) = db.charged account args := by
  refine recordOperationalCost_rule
    (P := fun db' => db' = db ∨ ∃ account, db.account = some account ∧
      db' = db.charged account args) args (Or.inl rfl) fun account haccount => ?_
  exact Or.inr ⟨account, haccount, rfl⟩

/-- An exit is refused, or it is booked on the open row of its mint. -/
theorem exit_cases (db : PaperDb) (args : ExitArgs) :
    db.advance (.book (.exit args)) = db ∨
      ∃ account id row, ExitCase db args account id row ∧
        db.advance (.book (.exit args)) = db.exited account args id row := by
  refine commitPaperExit_rule
    (P := fun db' => db' = db ∨ ∃ account id row, ExitCase db args account id row ∧
      db' = db.exited account args id row) args (Or.inl rfl) fun account id row hcase => ?_
  exact Or.inr ⟨account, id, row, hcase, rfl⟩

/-- A mark update is refused, or it stores the snapshot. -/
theorem marks_cases (db : PaperDb) (ownedRun : Option String) (values : Dict String ℚ)
    (snapshot : LedgerState) (observedAt : Time) :
    db.advance (.marks ownedRun values snapshot observedAt) = db ∨
      ∃ account, db.account = some account ∧
        db.advance (.marks ownedRun values snapshot observedAt) =
          db.marked account values snapshot observedAt := by
  refine transaction_of_cases (P := fun db' => db' = db ∨ ∃ account, db.account = some account ∧
    db' = db.marked account values snapshot observedAt) (Or.inl rfl) ?_
  cases haccount : db.account with
  | none => exact Or.inl ⟨_, rfl⟩
  | some account =>
      cases howner : runtimeOwnerError db.activeRun ownedRun with
      | some e => exact Or.inl ⟨e, rfl⟩
      | none => exact Or.inr (Or.inr ⟨account, rfl, rfl⟩)

/-- What a recorded cost owes in a unit, as a fact about the account before it. -/
theorem shownIn_cost_iff (args : CostArgs) :
    ShownIn unit db (.book (.operationalCost args)) ↔
      (Moves db (.book (.operationalCost args)) →
        ∀ account, db.account = some account → 0 < account.peakEquity →
          max 0 ((account.charged args).drawdown * 100) =
            unit * (account.charged args).drawdown) := by
  rcases cost_cases db args with hsame | ⟨account, haccount, hcharged⟩
  · have hstill : ¬ Moves db (.book (.operationalCost args)) := by
      rw [Moves, hsame]
      exact not_not.mpr rfl
    exact iff_of_true (fun hmoves => absurd hmoves hstill) (fun hmoves => absurd hmoves hstill)
  · have hpct (hpeak : 0 < account.peakEquity) :
        (account.charged args).drawdownPct = max 0 ((account.charged args).drawdown * 100) :=
      if_neg (not_le.mpr hpeak)
    constructor
    · rintro hshown hmoves _ hstored hpeak
      obtain rfl := Option.some.inj (haccount.symm.trans hstored)
      rw [← hpct hpeak]
      exact hshown hmoves (account.charged args) (by rw [hcharged]; rfl) hpeak
    · intro hcost hmoves after hafter hpeak
      rw [hcharged] at hafter
      obtain rfl : account.charged args = after := Option.some.inj hafter
      rw [hpct hpeak]
      exact hcost hmoves account haccount hpeak

/-- What a booked exit owes in a unit. -/
theorem shownIn_exit_iff (args : ExitArgs) :
    ShownIn unit db (.book (.exit args)) ↔
      (Moves db (.book (.exit args)) →
        ∀ account id row, db.account = some account →
          db.livePosition args.mint = some (id, row) →
          0 < (account.exited args row).peakEquity →
          (account.exited args row).drawdown = unit * (account.exited args row).drawdown) := by
  rcases exit_cases db args with hsame | ⟨account, id, row, hcase, hexited⟩
  · have hstill : ¬ Moves db (.book (.exit args)) := by
      rw [Moves, hsame]
      exact not_not.mpr rfl
    exact iff_of_true (fun hmoves => absurd hmoves hstill) (fun hmoves => absurd hmoves hstill)
  · have hpct (hpeak : 0 < (account.exited args row).peakEquity) :
        (account.exited args row).drawdownPct = (account.exited args row).drawdown :=
      if_pos hpeak
    constructor
    · rintro hshown hmoves _ id' row' hstored hfound hpeak
      obtain rfl := Option.some.inj (hcase.account.symm.trans hstored)
      obtain ⟨-, rfl⟩ := Prod.mk.inj (Option.some.inj (hcase.found.symm.trans hfound))
      exact (hpct hpeak).symm.trans
        (hshown hmoves (account.exited args row) (by rw [hexited]; rfl) hpeak)
    · intro hexit hmoves after hafter hpeak
      rw [hexited] at hafter
      obtain rfl : account.exited args row = after := Option.some.inj hafter
      rw [hpct hpeak]
      exact hexit hmoves account id row hcase.account hcase.found hpeak

/-- What a stored snapshot owes in a unit. -/
theorem shownIn_marks_iff (ownedRun : Option String) (values : Dict String ℚ)
    (snapshot : LedgerState) (observedAt : Time) :
    ShownIn unit db (.marks ownedRun values snapshot observedAt) ↔
      (Moves db (.marks ownedRun values snapshot observedAt) →
        ∀ account, db.account = some account → 0 < snapshot.peakEquityUsd →
          (account.marked snapshot observedAt).drawdown =
            unit * (account.marked snapshot observedAt).drawdown) := by
  rcases marks_cases db ownedRun values snapshot observedAt with
    hsame | ⟨account, haccount, hmarked⟩
  · have hstill : ¬ Moves db (.marks ownedRun values snapshot observedAt) := by
      rw [Moves, hsame]
      exact not_not.mpr rfl
    exact iff_of_true (fun hmoves => absurd hmoves hstill) (fun hmoves => absurd hmoves hstill)
  · have hpct (hpeak : 0 < snapshot.peakEquityUsd) :
        (account.marked snapshot observedAt).drawdownPct =
          (account.marked snapshot observedAt).drawdown := if_pos hpeak
    constructor
    · rintro hshown hmoves _ hstored hpeak
      obtain rfl := Option.some.inj (haccount.symm.trans hstored)
      exact (hpct hpeak).symm.trans
        (hshown hmoves (account.marked snapshot observedAt) (by rw [hmarked]; rfl) hpeak)
    · intro hmarks hmoves after hafter hpeak
      rw [hmarked] at hafter
      obtain rfl : account.marked snapshot observedAt = after := Option.some.inj hafter
      rw [hpct hpeak]
      exact hmarks hmoves account haccount hpeak

end Operations

/-! ## Which unit a step admits -/

section Units

variable {unit share : ℚ}

theorem drawdown_eq_zero (account : AccountRow) (hpeak : 0 < account.peakEquity) :
    account.drawdown = 0 ↔ account.equity = account.peakEquity := by
  rw [AccountRow.drawdown, div_eq_zero_iff, or_iff_left hpeak.ne', sub_eq_zero, eq_comm]

theorem drawdown_nonneg (account : AccountRow) (hpeak : 0 < account.peakEquity) :
    0 ≤ account.drawdown ↔ account.equity ≤ account.peakEquity := by
  rw [AccountRow.drawdown, le_div_iff₀ hpeak, zero_mul, sub_nonneg]

/-- A share that equals its multiple in another unit than one is zero. -/
theorem share_eq_mul (hunit : unit ≠ 1) (h : share = unit * share) : share = 0 := by
  have hzero : (unit - 1) * share = 0 := by linarith
  exact (mul_eq_zero.mp hzero).resolve_left (sub_ne_zero.mpr hunit)

/-- The percentage of a cost is a multiple of the share in another unit than a hundred only when
the share is zero. -/
theorem percent_eq_mul (hpositive : 0 < unit) (hunit : unit ≠ 100)
    (h : max 0 (share * 100) = unit * share) : share = 0 := by
  rcases le_or_gt share 0 with hneg | hpos
  · rw [max_eq_left (by linarith), eq_comm, mul_eq_zero] at h
    exact h.resolve_left hpositive.ne'
  · rw [max_eq_right (by linarith), mul_comm] at h
    exact absurd (mul_right_cancel₀ hpos.ne' h).symm hunit

theorem percent_nonneg (hpositive : 0 < unit) (h : max 0 (share * 100) = unit * share) :
    0 ≤ share :=
  (mul_nonneg_iff_of_pos_left hpositive).mp (h ▸ le_max_left 0 (share * 100))

end Units

section Steps

variable {db : PaperDb} {unit : ℚ} {op : AccountOp}

/-- In another unit than a hundred the recorded costs end at the peak. -/
theorem ShownIn.costsAtPeak (hpositive : 0 < unit) (hunit : unit ≠ 100)
    (h : ShownIn unit db op) : CostsAtPeak db op := by
  cases op with
  | marks | activeRun => trivial
  | book op =>
      cases op with
      | initializeAccount | entry | exit => trivial
      | operationalCost args =>
          intro hmoves account haccount hpeak
          have hshown := (shownIn_cost_iff args).mp h hmoves account haccount hpeak
          exact (drawdown_eq_zero (account.charged args) hpeak).mp
            (percent_eq_mul hpositive hunit hshown)

/-- In another unit than the share itself, exits and marks end at the peak. -/
theorem ShownIn.othersAtPeak (hpositive : 0 < unit) (hunit : unit ≠ 1)
    (h : ShownIn unit db op) : OthersAtPeak db op := by
  cases op with
  | activeRun => trivial
  | marks ownedRun values snapshot observedAt =>
      intro hmoves hpeak
      rcases marks_cases db ownedRun values snapshot observedAt with
        hsame | ⟨account, haccount, -⟩
      · exact absurd (by rw [hsame]) hmoves
      · have hshown := (shownIn_marks_iff ownedRun values snapshot observedAt).mp h hmoves
          account haccount hpeak
        exact (drawdown_eq_zero (account.marked snapshot observedAt) hpeak).mp
          (share_eq_mul hunit hshown)
  | book op =>
      cases op with
      | initializeAccount | entry => trivial
      | operationalCost args =>
          intro hmoves account haccount hpeak
          have hshown := (shownIn_cost_iff args).mp h hmoves account haccount hpeak
          exact (drawdown_nonneg (account.charged args) hpeak).mp
            (percent_nonneg hpositive hshown)
      | exit args =>
          intro hmoves account id row haccount hfound hpeak
          have hpeak' : 0 < (account.exited args row).peakEquity :=
            lt_of_lt_of_le hpeak (le_max_left _ _)
          have hshown := (shownIn_exit_iff args).mp h hmoves account id row haccount hfound hpeak'
          have hequity := (drawdown_eq_zero _ hpeak').mp (share_eq_mul hunit hshown)
          calc account.peakEquity ≤ (account.exited args row).peakEquity := le_max_left _ _
            _ = (account.exited args row).equity := hequity.symm

/-- Costs that end at the peak agree with the share itself. -/
theorem CostsAtPeak.shownIn (h : CostsAtPeak db op) : ShownIn 1 db op := by
  cases op with
  | activeRun => exact ShownIn.of_still rfl
  | marks ownedRun values snapshot observedAt =>
      exact (shownIn_marks_iff ownedRun values snapshot observedAt).mpr
        fun _ _ _ _ => (one_mul _).symm
  | book op =>
      cases op with
      | initializeAccount startingEquity now => exact shownIn_initialize startingEquity now
      | entry args => exact shownIn_entry args
      | exit args => exact (shownIn_exit_iff args).mpr fun _ _ _ _ _ _ _ => (one_mul _).symm
      | operationalCost args =>
          refine (shownIn_cost_iff args).mpr fun hmoves account haccount hpeak => ?_
          have hzero : (account.charged args).drawdown = 0 :=
            (drawdown_eq_zero (account.charged args) hpeak).mpr
              (h hmoves account haccount hpeak)
          rw [hzero, zero_mul, mul_zero, max_self]

/-- Exits and marks that end at the peak, and costs that do not end above it, agree with a
percentage. -/
theorem OthersAtPeak.shownIn (h : OthersAtPeak db op) : ShownIn 100 db op := by
  cases op with
  | activeRun => exact ShownIn.of_still rfl
  | marks ownedRun values snapshot observedAt =>
      refine (shownIn_marks_iff ownedRun values snapshot observedAt).mpr
        fun hmoves account _ hpeak => ?_
      rw [(drawdown_eq_zero (account.marked snapshot observedAt) hpeak).mpr
        (h hmoves hpeak), mul_zero]
  | book op =>
      cases op with
      | initializeAccount startingEquity now => exact shownIn_initialize startingEquity now
      | entry args => exact shownIn_entry args
      | exit args =>
          refine (shownIn_exit_iff args).mpr
            fun hmoves account id row haccount hfound hpeak' => ?_
          have hequity : account.peakEquity ≤ (account.exited args row).equity := by
            rcases le_or_gt account.peakEquity 0 with hzero | hpeak
            · exact hzero.trans (((lt_max_iff.mp hpeak').resolve_left (not_lt.mpr hzero)).le)
            · exact h hmoves account id row haccount hfound hpeak
          rw [(drawdown_eq_zero _ hpeak').mpr (max_eq_right hequity).symm, mul_zero]
      | operationalCost args =>
          refine (shownIn_cost_iff args).mpr fun hmoves account haccount hpeak => ?_
          have hshare : 0 ≤ (account.charged args).drawdown :=
            (drawdown_nonneg (account.charged args) hpeak).mpr
              (h hmoves account haccount hpeak)
          rw [max_eq_right (mul_nonneg hshare (by norm_num)), mul_comm]

end Steps

/-! ## Runs -/

/-- A run shows the drawdown in one unit, after every operation that changes equity or peak,
exactly if every recorded cost leaves the equity at the peak, or every exit and every mark that
changes the figures does and no cost leaves it above. -/
theorem run_drawdown_one_unit_iff (db : PaperDb) (ops : List AccountOp) :
    (∃ unit, 0 < unit ∧ Along (ShownIn unit) PaperDb.advance db ops) ↔
      Along CostsAtPeak PaperDb.advance db ops ∨ Along OthersAtPeak PaperDb.advance db ops := by
  constructor
  · rintro ⟨unit, hpositive, hrun⟩
    by_cases hunit : unit = 100
    · have hother : unit ≠ 1 := by
        rw [hunit]
        norm_num
      exact Or.inr (hrun.mono fun _ _ h => h.othersAtPeak hpositive hother)
    · exact Or.inl (hrun.mono fun _ _ h => h.costsAtPeak hpositive hunit)
  · rintro (hrun | hrun)
    · exact ⟨1, one_pos, hrun.mono fun _ _ h => h.shownIn⟩
    · exact ⟨100, by norm_num, hrun.mono fun _ _ h => h.shownIn⟩

/-- A hundred dollars, a cost of ten before the bot starts, and a mark at eighty. -/
def costThenMark : List AccountOp :=
  [.book (.initializeAccount 100 0),
    .book (.operationalCost
      { costId := "cost", category := "rpc", amountUsd := 10, incurredAt := 0
        source := "aaaaaaaaaaaaaaaaaaaaaaaaaaaaaaaaaaaaaaaaaaaaaaaaaaaaaaaaaaaaaaaa"
        recordedAt := 0 }),
    .activeRun (some "run"),
    .marks (some "run") Dict.empty
      { equityUsd := 80, peakEquityUsd := 100, unrealizedPnlUsd := -10, lockedCapitalUsd := 20
        positions := Dict.empty } (seconds 1)]

/-- The cost stores ten, a percentage; the mark stores one fifth, a share. No unit is kept. -/
theorem cost_then_mark_two_units :
    ¬ ∃ unit, 0 < unit ∧ Along (ShownIn unit) PaperDb.advance {} costThenMark := by
  rintro ⟨unit, -, -, hcost, -, hmark, -⟩
  have hten : unit * (1 / 10) = 10 := by
    have hshown := hcost (by decide +kernel) _ rfl (by decide +kernel)
    rw [show AccountRow.drawdown _ = 1 / 10 by decide +kernel] at hshown
    exact hshown.symm.trans (by decide +kernel)
  have hfifth : unit * (1 / 5) = 1 / 5 := by
    have hshown := hmark (by decide +kernel) _ rfl (by decide +kernel)
    rw [show AccountRow.drawdown _ = 1 / 5 by decide +kernel] at hshown
    exact hshown.symm.trans (by decide +kernel)
  linarith

end SniperBot.Paper
