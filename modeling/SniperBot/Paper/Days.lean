import SniperBot.Paper.Solvency

/-!
# What the account earned up to an instant

Every operation that changes the figures of the account writes an equity mark with its time. If no
mark is older than an earlier one, the marks cut the run at every instant: the equity without the
unrealized gain of the last mark before the cut is the starting equity, with the gain of the fills
and less the costs before the cut (`run_dayBooks`).
-/

namespace SniperBot.Paper

open Basis Ledger

/-! ## Amounts by time -/

/-- The realized gain of a fill. -/
def FillRow.pnl (row : FillRow) : ℚ :=
  match row.side with
  | .buy => 0
  | .sell => row.outputUsd - row.costBasisUsd * row.inputRawAmount

section Amounts

variable (db : PaperDb) (q : Time → Bool)

/-- The gain of the fills at the instants of `q`. -/
def PaperDb.realizedWhen : ℚ :=
  Dict.total (fun _ row => if q row.filledAt then row.pnl else 0) db.fills

/-- The costs recorded at the instants of `q`. -/
def PaperDb.costsWhen : ℚ :=
  Dict.total (fun _ row => if q row.createdAt then row.amountUsd else 0) db.operationalCosts

/-- The mark of the last operation at an instant of `q`. -/
def PaperDb.lastMark : Option EquityMarkRow :=
  (db.equityMarks.filter fun mark => q mark.observedAt).getLast?

end Amounts

/-- The equity without the unrealized gain. -/
def EquityMarkRow.net (mark : EquityMarkRow) : ℚ := mark.equity - mark.unrealizedPnl

/-- No mark is older than an earlier one. -/
def InOrder (marks : List EquityMarkRow) : Prop :=
  marks.Pairwise fun a b => a.observedAt ≤ b.observedAt

instance (marks : List EquityMarkRow) : Decidable (InOrder marks) :=
  inferInstanceAs (Decidable (List.Pairwise _ _))

/-- The marks mirror the ledger and come in the order of their times. -/
def Timed (db : PaperDb) (op : AccountOp) : Prop :=
  Mirrored db op ∧ InOrder (db.advance op).equityMarks

instance (db : PaperDb) (op : AccountOp) : Decidable (Timed db op) :=
  inferInstanceAs (Decidable (_ ∧ _))

/-- With an instant, all earlier ones. -/
def DownClosed (q : Time → Bool) : Prop := ∀ a b, a ≤ b → q b = true → q a = true

/-! ## The books -/

/-- What the fills and the costs say about the account and about its marks; the last mark shows
the account as it is. -/
structure DayBooks (db : PaperDb) : Prop where
  balanced : BalancedDb db
  realized : ∀ account, db.account = some account →
    account.realizedPnl = db.realizedWhen fun _ => true
  costs : ∀ account, db.account = some account →
    account.operationalCosts = db.costsWhen fun _ => true
  fillTimes : ∀ id row, db.fills.get? id = some row →
    ∃ mark ∈ db.equityMarks, mark.observedAt = row.filledAt
  costTimes : ∀ id row, db.operationalCosts.get? id = some row →
    ∃ mark ∈ db.equityMarks, mark.observedAt = row.createdAt
  cut : ∀ q, DownClosed q → ∀ account mark, db.account = some account →
    db.lastMark q = some mark →
      mark.net = account.startingEquity + db.realizedWhen q - db.costsWhen q
  latest : ∀ account, db.account = some account →
    ∃ mark, db.equityMarks.getLast? = some mark ∧ mark.equity = account.equity
  unopened : db.account = none →
    db.equityMarks = [] ∧ db.fills = Dict.empty ∧ db.operationalCosts = Dict.empty

/-- An operation writes a mark of the account, and books a gain and a cost at its time. -/
structure Posts (db next : PaperDb) (account : AccountRow) (at' : Time) (pnl cost : ℚ) : Prop where
  stored : next.account = some account
  marks : next.equityMarks = db.equityMarks ++ [account.equityMark at']
  realizedWhen : ∀ q, next.realizedWhen q = db.realizedWhen q + if q at' then pnl else 0
  costsWhen : ∀ q, next.costsWhen q = db.costsWhen q + if q at' then cost else 0
  fillTimes : ∀ id row, next.fills.get? id = some row →
    db.fills.get? id = some row ∨ row.filledAt = at'
  costTimes : ∀ id row, next.operationalCosts.get? id = some row →
    db.operationalCosts.get? id = some row ∨ row.createdAt = at'

/-- Fills at the instants of `q` are those of its two parts. -/
theorem realizedWhen_split (db : PaperDb) {q first second : Time → Bool}
    (hunion : ∀ t, q t = (first t || second t))
    (hdisjoint : ∀ t, first t = true → second t = false) :
    db.realizedWhen q = db.realizedWhen first + db.realizedWhen second := by
  rw [PaperDb.realizedWhen, PaperDb.realizedWhen, PaperDb.realizedWhen, ← Dict.total_add]
  apply Dict.total_congr
  intro id row _
  have hrow := hdisjoint row.filledAt
  cases hfirst : first row.filledAt <;> simp_all

theorem costsWhen_split (db : PaperDb) {q first second : Time → Bool}
    (hunion : ∀ t, q t = (first t || second t))
    (hdisjoint : ∀ t, first t = true → second t = false) :
    db.costsWhen q = db.costsWhen first + db.costsWhen second := by
  rw [PaperDb.costsWhen, PaperDb.costsWhen, PaperDb.costsWhen, ← Dict.total_add]
  apply Dict.total_congr
  intro id row _
  have hrow := hdisjoint row.createdAt
  cases hfirst : first row.createdAt <;> simp_all

section Step

variable {db next : PaperDb} {account : AccountRow} {at' : Time} {pnl cost : ℚ}

/-- Where all fills are at instants of `q`, all of them count. -/
theorem realizedWhen_all {q : Time → Bool}
    (h : ∀ id row, db.fills.get? id = some row → q row.filledAt = true) :
    db.realizedWhen q = db.realizedWhen fun _ => true := by
  apply Dict.total_congr
  intro id row hget
  rw [h id row hget]

theorem costsWhen_all {q : Time → Bool}
    (h : ∀ id row, db.operationalCosts.get? id = some row → q row.createdAt = true) :
    db.costsWhen q = db.costsWhen fun _ => true := by
  apply Dict.total_congr
  intro id row hget
  rw [h id row hget]

/-- A mark that comes last cuts behind everything, or is cut off. -/
theorem DayBooks.post (h : DayBooks db) (hpost : Posts db next account at' pnl cost)
    (hbalanced : BalancedDb next) (horder : InOrder next.equityMarks)
    (hrealized : account.realizedPnl = db.realizedWhen (fun _ => true) + pnl)
    (hcosts : account.operationalCosts = db.costsWhen (fun _ => true) + cost)
    (hstarting : ∀ stored, db.account = some stored →
      account.startingEquity = stored.startingEquity) : DayBooks next := by
  have hall : account.realizedPnl = next.realizedWhen fun _ => true := by
    rw [hrealized, hpost.realizedWhen, if_pos rfl]
  have hallCosts : account.operationalCosts = next.costsWhen fun _ => true := by
    rw [hcosts, hpost.costsWhen, if_pos rfl]
  have hmarks := hpost.marks
  have hbefore : ∀ mark ∈ db.equityMarks, mark.observedAt ≤ at' := by
    intro mark hmark
    rw [hmarks] at horder
    exact (List.pairwise_append.mp horder).2.2 mark hmark _ (List.mem_singleton_self _)
  have hfillTimes : ∀ id row, next.fills.get? id = some row →
      ∃ mark ∈ next.equityMarks, mark.observedAt = row.filledAt := by
    intro id row hget
    rw [hmarks]
    obtain hold | hnew := hpost.fillTimes id row hget
    · obtain ⟨mark, hmark, htime⟩ := h.fillTimes id row hold
      exact ⟨mark, List.mem_append_left _ hmark, htime⟩
    · exact ⟨account.equityMark at', List.mem_append_right _ (List.mem_singleton_self _), hnew.symm⟩
  have hcostTimes : ∀ id row, next.operationalCosts.get? id = some row →
      ∃ mark ∈ next.equityMarks, mark.observedAt = row.createdAt := by
    intro id row hget
    rw [hmarks]
    obtain hold | hnew := hpost.costTimes id row hget
    · obtain ⟨mark, hmark, htime⟩ := h.costTimes id row hold
      exact ⟨mark, List.mem_append_left _ hmark, htime⟩
    · exact ⟨account.equityMark at', List.mem_append_right _ (List.mem_singleton_self _), hnew.symm⟩
  have hlast : ∀ mark ∈ next.equityMarks, mark.observedAt ≤ at' := by
    intro mark hmark
    rw [hmarks] at hmark
    obtain hold | hnew := List.mem_append.mp hmark
    · exact hbefore mark hold
    · rw [List.mem_singleton.mp hnew]
      exact le_rfl
  refine ⟨hbalanced, ?_, ?_, hfillTimes, hcostTimes, ?_, ?_, ?_⟩
  · intro stored hstored
    rw [hpost.stored, Option.some_inj] at hstored
    exact hstored ▸ hall
  · intro stored hstored
    rw [hpost.stored, Option.some_inj] at hstored
    exact hstored ▸ hallCosts
  · intro q hq stored mark hstored hmark
    rw [hpost.stored, Option.some_inj] at hstored
    subst hstored
    rw [PaperDb.lastMark, hmarks, List.filter_append] at hmark
    cases hat : q at' with
    | true =>
        have hself : mark = account.equityMark at' := by
          have hone : [account.equityMark at'].filter (fun mark => q mark.observedAt) =
              [account.equityMark at'] := List.filter_eq_self.mpr fun m hm => by
            rw [List.mem_singleton.mp hm]
            exact hat
          rw [hone, List.getLast?_concat, Option.some_inj] at hmark
          exact hmark.symm
        have hsources := (hbalanced account hpost.stored).sources
        have hfills : next.realizedWhen q = next.realizedWhen fun _ => true := by
          apply realizedWhen_all
          intro id row hget
          obtain ⟨m, hm, htime⟩ := hfillTimes id row hget
          exact htime ▸ hq _ _ (hlast m hm) hat
        have hcharges : next.costsWhen q = next.costsWhen fun _ => true := by
          apply costsWhen_all
          intro id row hget
          obtain ⟨m, hm, htime⟩ := hcostTimes id row hget
          exact htime ▸ hq _ _ (hlast m hm) hat
        rw [hfills, hcharges, ← hall, ← hallCosts, hself]
        simp only [EquityMarkRow.net, AccountRow.equityMark]
        linarith
    | false =>
        have hnone : [account.equityMark at'].filter (fun mark => q mark.observedAt) = [] :=
          List.filter_eq_nil_iff.mpr fun m hm => by
            rw [List.mem_singleton.mp hm]
            simp [AccountRow.equityMark, hat]
        rw [hnone, List.append_nil] at hmark
        rw [hpost.realizedWhen, hpost.costsWhen, hat]
        cases hstored : db.account with
        | none =>
            rw [(h.unopened hstored).1] at hmark
            cases hmark
        | some stored =>
            have hcut := h.cut q hq stored mark hstored hmark
            rw [hcut, hstarting stored hstored]
            simp
  · intro stored hstored
    rw [hpost.stored, Option.some_inj] at hstored
    exact ⟨_, hmarks ▸ List.getLast?_concat, hstored ▸ rfl⟩
  · intro hnone
    rw [hpost.stored] at hnone
    cases hnone

/-! ## What each operation posts -/

/-- Fills and costs stay as they are. -/
theorem Posts.of_same (hstored : next.account = some account)
    (hmarks : next.equityMarks = db.equityMarks ++ [account.equityMark at'])
    (hfills : next.fills = db.fills) (hcosts : next.operationalCosts = db.operationalCosts) :
    Posts db next account at' 0 0 := by
  refine ⟨hstored, hmarks, fun q => ?_, fun q => ?_, fun id row hget => ?_, fun id row hget => ?_⟩
  · rw [PaperDb.realizedWhen, hfills, ite_self, add_zero]
    rfl
  · rw [PaperDb.costsWhen, hcosts, ite_self, add_zero]
    rfl
  · exact .inl (hfills ▸ hget)
  · exact .inl (hcosts ▸ hget)

/-- A new fill is added. -/
theorem Posts.of_fill {fillId : String} {fill : FillRow} (hstored : next.account = some account)
    (hmarks : next.equityMarks = db.equityMarks ++ [account.equityMark at'])
    (hfresh : db.fills.get? fillId = none) (hfills : next.fills = db.fills.set fillId fill)
    (hcosts : next.operationalCosts = db.operationalCosts) (htime : fill.filledAt = at') :
    Posts db next account at' fill.pnl 0 := by
  refine ⟨hstored, hmarks, fun q => ?_, fun q => ?_, fun id row hget => ?_, fun id row hget => ?_⟩
  · rw [PaperDb.realizedWhen, hfills, Dict.total_set_new _ hfresh, htime]
    rfl
  · rw [PaperDb.costsWhen, hcosts, ite_self, add_zero]
    rfl
  · rw [hfills, Dict.get?_set] at hget
    split at hget
    · exact .inr (Option.some.inj hget ▸ htime)
    · exact .inl hget
  · exact .inl (hcosts ▸ hget)

/-- A new cost is added. -/
theorem Posts.of_cost {costId : String} {cost : OperationalCostRow}
    (hstored : next.account = some account)
    (hmarks : next.equityMarks = db.equityMarks ++ [account.equityMark at'])
    (hfresh : db.operationalCosts.get? costId = none) (hfills : next.fills = db.fills)
    (hcosts : next.operationalCosts = db.operationalCosts.set costId cost)
    (htime : cost.createdAt = at') : Posts db next account at' 0 cost.amountUsd := by
  refine ⟨hstored, hmarks, fun q => ?_, fun q => ?_, fun id row hget => ?_, fun id row hget => ?_⟩
  · rw [PaperDb.realizedWhen, hfills, ite_self, add_zero]
    rfl
  · rw [PaperDb.costsWhen, hcosts, Dict.total_set_new _ hfresh, htime]
    rfl
  · exact .inl (hfills ▸ hget)
  · rw [hcosts, Dict.get?_set] at hget
    split at hget
    · exact .inr (Option.some.inj hget ▸ htime)
    · exact .inl hget

theorem DayBooks.initialized (h : DayBooks db) {startingEquity : ℚ} {now : Time}
    (hbalanced : BalancedDb (initializePaperAccount startingEquity now db))
    (horder : InOrder (initializePaperAccount startingEquity now db).equityMarks) :
    DayBooks (initializePaperAccount startingEquity now db) := by
  revert hbalanced horder
  unfold initializePaperAccount
  split
  · exact fun _ _ => h
  · next hnone =>
      intro hbalanced horder
      obtain ⟨-, hfills, hcosts⟩ := h.unopened hnone
      refine h.post (Posts.of_same rfl rfl rfl rfl) hbalanced horder ?_ ?_ ?_
      · rw [PaperDb.realizedWhen, hfills, Dict.total_empty, add_zero]
      · rw [PaperDb.costsWhen, hcosts, Dict.total_empty, add_zero]
      · intro stored hstored
        rw [hnone] at hstored
        cases hstored

theorem DayBooks.entered (h : DayBooks db) {args : EntryArgs} (hcase : EntryCase db args account)
    (hbalanced : BalancedDb (db.entered account args))
    (horder : InOrder (db.entered account args).equityMarks) :
    DayBooks (db.entered account args) := by
  obtain ⟨stored, hstored, rfl⟩ := hcase.stored
  obtain ⟨halt, pause, date, hframe⟩ := cleared_frame stored args.filledAt args.limits.dayKey
  have hpost : Posts db (db.entered (stored.cleared args.filledAt args.limits.dayKey) args)
      ((stored.cleared args.filledAt args.limits.dayKey).entered args) args.filledAt
      args.fill.pnl 0 := .of_fill rfl rfl hcase.freshFill rfl rfl rfl
  refine h.post hpost hbalanced horder ?_ ?_ fun row hrow => ?_
  · rw [hframe]
    exact (h.realized stored hstored).trans (add_zero _).symm
  · rw [hframe]
    exact (h.costs stored hstored).trans (add_zero _).symm
  · rw [hstored, Option.some_inj] at hrow
    rw [hframe, ← hrow]
    rfl

theorem DayBooks.exited (h : DayBooks db) {args : ExitArgs} {id : String} {row : PositionRow}
    (hcase : ExitCase db args account id row)
    (hbalanced : BalancedDb (db.exited account args id row))
    (horder : InOrder (db.exited account args id row).equityMarks) :
    DayBooks (db.exited account args id row) := by
  have hpost : Posts db (db.exited account args id row) (account.exited args row) args.filledAt
      (args.fill row).pnl 0 := .of_fill rfl rfl hcase.freshFill rfl rfl rfl
  refine h.post hpost hbalanced horder ?_ ?_ fun stored hstored => ?_
  · exact congrArg (· + args.realizedDelta row) (h.realized account hcase.account)
  · exact (h.costs account hcase.account).trans (add_zero _).symm
  · rw [hcase.account, Option.some_inj] at hstored
    exact hstored ▸ rfl

theorem DayBooks.charged (h : DayBooks db) {args : CostArgs} (hstored : db.account = some account)
    (hnew : db.operationalCosts.get? args.costId = none)
    (hbalanced : BalancedDb (db.charged account args))
    (horder : InOrder (db.charged account args).equityMarks) :
    DayBooks (db.charged account args) := by
  have hpost : Posts db (db.charged account args) (account.charged args) args.recordedAt
      0 args.row.amountUsd := .of_cost rfl rfl hnew rfl rfl rfl
  refine h.post hpost hbalanced horder ?_ ?_ fun row hrow => ?_
  · exact (h.realized account hstored).trans (add_zero _).symm
  · exact congrArg (· + args.amountUsd) (h.costs account hstored)
  · rw [hstored, Option.some_inj] at hrow
    exact hrow ▸ rfl

theorem DayBooks.marked (h : DayBooks db) {values : Dict String ℚ} {snapshot : LedgerState}
    (hstored : db.account = some account)
    (hbalanced : BalancedDb (db.marked account values snapshot at'))
    (horder : InOrder (db.marked account values snapshot at').equityMarks) :
    DayBooks (db.marked account values snapshot at') := by
  have hpost : Posts db (db.marked account values snapshot at') (account.marked snapshot at') at'
      0 0 := .of_same rfl rfl rfl rfl
  refine h.post hpost hbalanced horder ?_ ?_ fun row hrow => ?_
  · exact (h.realized account hstored).trans (add_zero _).symm
  · exact (h.costs account hstored).trans (add_zero _).symm
  · rw [hstored, Option.some_inj] at hrow
    exact hrow ▸ rfl

end Step

/-! ## Runs -/

theorem DayBooks.init : DayBooks {} where
  balanced _ h := by cases h
  realized _ h := by cases h
  costs _ h := by cases h
  fillTimes _ _ h := by cases h
  costTimes _ _ h := by cases h
  cut _ _ _ _ h := by cases h
  latest _ h := by cases h
  unopened _ := ⟨rfl, rfl, rfl⟩

/-- What holds of unchanged rows and of the rows after a granted entry, exit, cost or mark holds
after the operation. -/
theorem DayBooks.advance {db : PaperDb} (h : DayBooks db) (op : AccountOp) (hop : Timed db op) :
    DayBooks (db.advance op) := by
  have hbalanced := h.balanced.advance op hop.1
  have horder := hop.2
  revert hbalanced horder
  cases op with
  | activeRun run => exact fun _ _ => ⟨h.balanced, h.realized, h.costs, h.fillTimes, h.costTimes,
      h.cut, h.latest, h.unopened⟩
  | marks ownedRun values snapshot observedAt =>
      refine transaction_of_cases (P := fun next => BalancedDb next → InOrder next.equityMarks →
        DayBooks next) (fun _ _ => h) ?_
      split
      · exact Or.inl ⟨_, rfl⟩
      · next account hstored =>
          split
          · exact Or.inl ⟨_, rfl⟩
          · exact Or.inr fun hbalanced horder => h.marked hstored hbalanced horder
  | book op =>
      cases op with
      | initializeAccount startingEquity now => exact h.initialized
      | entry args =>
          refine commitPaperEntry_rule (P := fun next => BalancedDb next →
            InOrder next.equityMarks → DayBooks next) args (fun _ _ => h) ?_
          exact fun account hcase => h.entered hcase
      | exit args =>
          refine commitPaperExit_rule (P := fun next => BalancedDb next →
            InOrder next.equityMarks → DayBooks next) args (fun _ _ => h) ?_
          exact fun account id row hcase => h.exited hcase
      | operationalCost args =>
          refine recordOperationalCost_new_rule (P := fun next => BalancedDb next →
            InOrder next.equityMarks → DayBooks next) args (fun _ _ => h) ?_
          exact fun account hstored hnew => h.charged hstored hnew

/-- Marks that mirror the ledger and come in order cut the run at every instant. -/
theorem run_dayBooks {ops : List AccountOp} (hrun : Along Timed PaperDb.advance {} ops) :
    DayBooks (exec PaperDb.advance {} ops) :=
  hrun.invariant (I := DayBooks) (fun _ op h hop => h.advance op hop) .init

end SniperBot.Paper
