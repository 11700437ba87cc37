import SniperBot.Paper.Accounting
import Mathlib.Algebra.Order.Field.Basic
import Mathlib.Tactic.Ring

/-!
# Entry limits under concurrent commits

Both commits first look up their order id and then wait for the row locks, so another caller's
transaction can commit in between. `Server` keeps the calls that are past the lookup; the body
behind the locks runs alone.

A granted entry leaves the account within its limits whatever the other callers did
(`commits_keep_limits`). When all entries use the same limits and the risk days tile the time
line, every later state stays within them as well, so that an answer from the lookup never
reports a state that breaks them.
-/

namespace SniperBot.Paper

open Basis

/-! ## Callers -/

inductive Call
  | entry (args : EntryArgs)
  | exit (args : ExitArgs)

/-- The lookup of the order id. -/
def Call.lookup (db : PaperDb) : Call → Option (Except PaperError Committed)
  | .entry args => db.existingOrder args.orderId .entryIncomplete
  | .exit args => db.existingOrder args.orderId .exitIncomplete

/-- The rest of the transaction, behind the row locks. -/
def Call.locked (db : PaperDb) : Call → Except PaperError Committed × PaperDb
  | .entry args => transaction (lockedEntry args) db
  | .exit args => transaction (lockedExit args) db

/-- The committed rows and the calls that wait for the locks. -/
structure Server where
  db : PaperDb
  waiting : List Call := []

inductive Action
  /-- A caller begins its transaction and looks up its order id. -/
  | start (call : Call)
  /-- A waiting caller gets the locks and finishes. -/
  | proceed (index : Nat)
  /-- A runtime registers or stops. -/
  | runtime (active : Option String)

namespace Server

variable (s : Server)

def step : Action → Server
  | .start call => match call.lookup s.db with
    | some _ => s
    | none => { s with waiting := s.waiting ++ [call] }
  | .proceed index => match s.waiting[index]? with
    | none => s
    | some call => ⟨(call.locked s.db).2, s.waiting.eraseIdx index⟩
  | .runtime active => { s with db := { s.db with activeRun := active } }

/-- What a caller is told, or that its transaction raised. -/
def answer : Action → Option (Call × Except PaperError Committed)
  | .start call => (call.lookup s.db).map fun result => (call, result)
  | .proceed index => s.waiting[index]?.map fun call => (call, (call.locked s.db).1)
  | .runtime _ => none

end Server

/-- The tables after the account was initialised. -/
def Server.init (startingEquity : ℚ) (now : Time) : Server :=
  ⟨initializePaperAccount startingEquity now {}, []⟩

/-! ## The limits -/

structure WithinLimits (limits : EntryLimits) (db : PaperDb) : Prop where
  exposure : ∀ account, db.account = some account →
    account.lockedCapital ≤ limits.maxExposureUsdc
  openCount : (db.livePositions.length : Int) ≤ limits.maxOpenPositions
  trades : ((db.buyOrders limits.dayStart limits.dayEnd).length : Int) ≤ limits.maxTradesPerDay
  cash : ∀ account, db.account = some account → 0 ≤ account.cashBalance

/-- No mint has two open rows. -/
def UniqueLive (db : PaperDb) : Prop :=
  ∀ i j ri rj, db.positions.get? i = some ri → db.positions.get? j = some rj →
    ri.status.Live → rj.status.Live → ri.mint = rj.mint → i = j

variable {db : PaperDb}

/-! ## Counting rows -/

/-- A granted entry adds one open row. -/
theorem livePositions_entered {args : EntryArgs} {account : AccountRow}
    (hcase : EntryCase db args account) :
    (db.entered account args).livePositions.length = db.livePositions.length + 1 := by
  exact Dict.length_filter_set_new _ hcase.freshPosition args.position

/-- It adds one BUY order to the days that hold its fill time. -/
theorem buyOrders_entered {args : EntryArgs} {account : AccountRow}
    (hcase : EntryCase db args account) (dayStart dayEnd : Time) :
    ((db.entered account args).buyOrders dayStart dayEnd).length =
      (db.buyOrders dayStart dayEnd).length +
        if dayStart ≤ args.filledAt ∧ args.filledAt < dayEnd then 1 else 0 := by
  refine (Dict.length_filter_set_new _ hcase.freshOrder args.order).trans ?_
  simp [PaperDb.buyOrders, EntryArgs.order]

section Exit

variable {args : ExitArgs} {account : AccountRow} {id : String} {row : PositionRow}

/-- An exit adds no open row. -/
theorem livePositions_exited (hcase : ExitCase db args account id row) :
    (db.exited account args id row).livePositions.length ≤ db.livePositions.length := by
  obtain ⟨hget, -, hlive⟩ := livePosition_some hcase.found
  have hcount := Dict.length_filter_set_old (fun e => decide e.2.status.Live) hget
    (args.exitedRow row)
  rw [if_pos (decide_eq_true hlive)] at hcount
  simp only [PaperDb.livePositions, PaperDb.exited]
  split at hcount <;> omega

theorem buyOrders_exited (hcase : ExitCase db args account id row) (dayStart dayEnd : Time) :
    ((db.exited account args id row).buyOrders dayStart dayEnd).length =
      (db.buyOrders dayStart dayEnd).length := by
  refine (Dict.length_filter_set_new _ hcase.freshOrder (args.order id)).trans ?_
  simp [PaperDb.buyOrders, ExitArgs.order]

end Exit

/-! ## One mint, one open row -/

theorem UniqueLive.entered (h : UniqueLive db) {args : EntryArgs} {account : AccountRow}
    (hcase : EntryCase db args account) : UniqueLive (db.entered account args) := by
  have hother : ∀ k row, args.positionId ≠ k → db.positions.get? k = some row →
      row.status.Live → row.mint ≠ args.mint :=
    fun k row _ hget hlive => livePosition_none hcase.noDuplicate hget hlive
  intro i j ri rj hi hj hlivei hlivej hmint
  simp only [PaperDb.entered, Dict.get?_set] at hi hj
  split at hi
  · rename_i hidi
    split at hj
    · rename_i hidj
      exact hidi.symm.trans hidj
    · rename_i hidj
      cases hi
      exact absurd hmint.symm (hother j rj hidj hj hlivej)
  · rename_i hidi
    split at hj
    · cases hj
      exact absurd hmint (hother i ri hidi hi hlivei)
    · exact h i j ri rj hi hj hlivei hlivej hmint

theorem UniqueLive.exited (h : UniqueLive db) {args : ExitArgs} {account : AccountRow}
    {id : String} {row : PositionRow} (hcase : ExitCase db args account id row) :
    UniqueLive (db.exited account args id row) := by
  obtain ⟨hget, -, hlive⟩ := livePosition_some hcase.found
  -- a row that is open after the exit was an open row of the same mint before it
  have hbefore : ∀ k r, (db.exited account args id row).positions.get? k = some r →
      r.status.Live → ∃ r', db.positions.get? k = some r' ∧ r'.status.Live ∧ r'.mint = r.mint := by
    intro k r hk hliver
    simp only [PaperDb.exited, Dict.get?_set] at hk
    split at hk
    · rename_i hid
      cases hk
      exact ⟨row, hid ▸ hget, hlive, rfl⟩
    · exact ⟨r, hk, hliver, rfl⟩
  intro i j ri rj hi hj hlivei hlivej hmint
  obtain ⟨ri', hi', hlivei', hminti⟩ := hbefore i ri hi hlivei
  obtain ⟨rj', hj', hlivej', hmintj⟩ := hbefore j rj hj hlivej
  exact h i j ri' rj' hi' hj' hlivei' hlivej' (hminti.trans (hmint.trans hmintj.symm))

/-! ## A granted entry -/

theorem WithinLimits.entered {args : EntryArgs} {account : AccountRow}
    (hcase : EntryCase db args account) : WithinLimits args.limits (db.entered account args) := by
  refine ⟨?_, ?_, ?_, ?_⟩
  · rintro _ ⟨⟩
    exact hcase.exposure
  · have hcount := livePositions_entered hcase
    have hopen := hcase.openCount
    omega
  · have hcount := buyOrders_entered hcase args.limits.dayStart args.limits.dayEnd
    have htrades := hcase.trades
    split at hcount <;> omega
  · rintro _ ⟨⟩
    exact sub_nonneg.mpr hcase.cash

/-! ## Later states -/

/-- `day_bounds_utc`: the bounds of the risk day of an instant, where the days tile time. -/
structure RiskCalendar where
  day : Time → Time × Time
  tiles : ∀ t u, (day t).1 ≤ u → u < (day t).2 → day u = day t

/-- The limits of a risk day. -/
def EntryLimits.onDay (limits : EntryLimits) (day : Time × Time) : EntryLimits :=
  { limits with dayStart := day.1, dayEnd := day.2 }

/-- What the broker passes: a size that is not negative, the common limits, and the bounds of
the day of the fill. -/
def CommonLimits (calendar : RiskCalendar) (limits : EntryLimits) : Call → Prop
  | .entry args => 0 ≤ args.requestedUsd ∧
      args.limits.maxExposureUsdc = limits.maxExposureUsdc ∧
      args.limits.maxOpenPositions = limits.maxOpenPositions ∧
      args.limits.maxTradesPerDay = limits.maxTradesPerDay ∧
      (args.limits.dayStart, args.limits.dayEnd) = calendar.day args.filledAt
  | .exit _ => True

/-- Some entry was granted. -/
def Traded (db : PaperDb) : Prop := ∃ id order, db.orders.get? id = some order ∧ order.side = .buy

/-- Once an entry was granted, the limits hold on every risk day. -/
structure KeepsLimits (calendar : RiskCalendar) (limits : EntryLimits) (db : PaperDb) : Prop where
  costs : ∀ id row, db.positions.get? id = some row → row.status.Live → 0 ≤ row.remainingCostUsd
  within : Traded db → ∀ now, WithinLimits (limits.onDay (calendar.day now)) db

theorem buyOrders_of_not_traded (h : ¬ Traded db) (dayStart dayEnd : Time) :
    db.buyOrders dayStart dayEnd = [] := by
  refine List.filter_eq_nil_iff.mpr ?_
  intro e he hbuy
  rw [decide_eq_true_eq] at hbuy
  exact h ⟨e.1, e.2, Dict.mem_entries.mp he, hbuy.1⟩

theorem KeepsLimits.entered {calendar : RiskCalendar} {limits : EntryLimits}
    (h : KeepsLimits calendar limits db) {args : EntryArgs} {account : AccountRow}
    (hcommon : CommonLimits calendar limits (.entry args)) (hcase : EntryCase db args account) :
    KeepsLimits calendar limits (db.entered account args) := by
  obtain ⟨husd, hexposure, hopen, htrades, hday⟩ := hcommon
  have hwithin := WithinLimits.entered hcase
  refine ⟨?_, fun _ now => ⟨?_, ?_, ?_, hwithin.cash⟩⟩
  · intro id row hget hlive
    simp only [PaperDb.entered, Dict.get?_set] at hget
    split at hget
    · cases hget
      exact add_nonneg husd args.quote.networkFee_nonneg
    · exact h.costs id row hget hlive
  · intro account haccount
    exact (hwithin.exposure account haccount).trans_eq hexposure
  · have hcount := hwithin.openCount
    rw [hopen] at hcount
    exact hcount
  · show ((((db.entered account args).buyOrders (calendar.day now).1 (calendar.day now).2).length :
      Nat) : Int) ≤ limits.maxTradesPerDay
    by_cases hin : (calendar.day now).1 ≤ args.filledAt ∧ args.filledAt < (calendar.day now).2
    · -- the risk day of `now` is the day that the entry was checked against
      have hsame := calendar.tiles now args.filledAt hin.1 hin.2
      rw [← hsame, ← hday, ← htrades]
      exact hwithin.trades
    · rw [buyOrders_entered hcase, if_neg hin, add_zero]
      by_cases htraded : Traded db
      · exact (h.within htraded now).trades
      · have hmax := hcase.trades
        rw [buyOrders_of_not_traded htraded, List.length_nil]
        omega

theorem Traded.of_exited {args : ExitArgs} {account : AccountRow} {id : String}
    {row : PositionRow} (h : Traded (db.exited account args id row)) : Traded db := by
  obtain ⟨orderId, order, hget, hbuy⟩ := h
  simp only [PaperDb.exited, Dict.get?_set] at hget
  split at hget
  · cases hget
    cases hbuy
  · exact ⟨orderId, order, hget, hbuy⟩

theorem KeepsLimits.exited {calendar : RiskCalendar} {limits : EntryLimits}
    (h : KeepsLimits calendar limits db) {args : ExitArgs} {account : AccountRow} {id : String}
    {row : PositionRow} (hcase : ExitCase db args account id row) :
    KeepsLimits calendar limits (db.exited account args id row) := by
  obtain ⟨hget, -, hlive⟩ := livePosition_some hcase.found
  have hcost := h.costs id row hget hlive
  have hshare : 0 ≤ args.proportionalCost row :=
    mul_nonneg (div_nonneg hcost hcase.tokens_pos.le) hcase.amount.le
  have hrest : args.proportionalCost row ≤ row.remainingCostUsd := by
    have hfraction : args.tokenAmount / row.tokenAmountRaw ≤ 1 :=
      (div_le_one hcase.tokens_pos).mpr hcase.available
    calc args.proportionalCost row
        = row.remainingCostUsd * (args.tokenAmount / row.tokenAmountRaw) := by
          rw [ExitArgs.proportionalCost, PositionRow.costPerToken]
          ring
      _ ≤ row.remainingCostUsd * 1 := mul_le_mul_of_nonneg_left hfraction hcost
      _ = row.remainingCostUsd := mul_one _
  refine ⟨?_, fun htraded now => ?_⟩
  · intro j stored hstored hstillLive
    simp only [PaperDb.exited, Dict.get?_set] at hstored
    split at hstored
    · cases hstored
      exact sub_nonneg.mpr hrest
    · exact h.costs j stored hstored hstillLive
  · have hold := h.within htraded.of_exited now
    refine ⟨?_, ?_, ?_, ?_⟩
    · rintro _ ⟨⟩
      exact (sub_le_self _ hshare).trans (hold.exposure account hcase.account)
    · have hcount := livePositions_exited hcase
      have hopen := hold.openCount
      omega
    · rw [buyOrders_exited hcase]
      exact hold.trades
    · rintro _ ⟨⟩
      exact add_nonneg (hold.cash account hcase.account) (le_max_left _ _)

/-! ## Interleavings -/

theorem locked_rule {P : PaperDb → Prop} (call : Call) (hsame : P db)
    (hentered : ∀ args account, call = .entry args → EntryCase db args account →
      P (db.entered account args))
    (hexited : ∀ args account id row, call = .exit args → ExitCase db args account id row →
      P (db.exited account args id row)) :
    P (call.locked db).2 := by
  cases call with
  | entry args =>
      refine transaction_of_cases hsame ?_
      rcases lockedEntry_cases args db with herror | ⟨account, hcase, heq⟩
      · exact Or.inl herror
      · rw [heq]
        exact Or.inr (hentered args account rfl hcase)
  | exit args =>
      refine transaction_of_cases hsame ?_
      rcases lockedExit_cases args db with herror | ⟨account, id, row, hcase, heq⟩
      · exact Or.inl herror
      · rw [heq]
        exact Or.inr (hexited args account id row rfl hcase)

theorem UniqueLive.step {s : Server} (h : UniqueLive s.db) (action : Action) :
    UniqueLive (s.step action).db := by
  cases action with
  | start call =>
      simp only [Server.step]
      split <;> exact h
  | proceed index =>
      simp only [Server.step]
      split
      · exact h
      · rename_i call _
        exact locked_rule call h (fun _ _ _ hcase => h.entered hcase)
          (fun _ _ _ _ _ hcase => h.exited hcase)
  | runtime active => exact h

theorem UniqueLive.init (startingEquity : ℚ) (now : Time) :
    UniqueLive (Server.init startingEquity now).db := by
  rintro i j ri rj ⟨⟩

/-- Calls begin with the common limits. -/
def Requests (calendar : RiskCalendar) (limits : EntryLimits) (_ : Server) : Action → Prop
  | .start call => CommonLimits calendar limits call
  | _ => True

/-- The rows keep the limits and every waiting call was begun with them. -/
structure Guarded (calendar : RiskCalendar) (limits : EntryLimits) (s : Server) : Prop where
  rows : KeepsLimits calendar limits s.db
  calls : ∀ call ∈ s.waiting, CommonLimits calendar limits call

theorem Guarded.init (calendar : RiskCalendar) (limits : EntryLimits) (startingEquity : ℚ)
    (now : Time) : Guarded calendar limits (Server.init startingEquity now) := by
  refine ⟨⟨?_, ?_⟩, ?_⟩
  · rintro _ _ ⟨⟩
  · rintro ⟨_, _, ⟨⟩, _⟩
  · rintro _ ⟨⟩

theorem Guarded.step {calendar : RiskCalendar} {limits : EntryLimits} {s : Server}
    (h : Guarded calendar limits s) (action : Action)
    (hrequest : Requests calendar limits s action) : Guarded calendar limits (s.step action) := by
  cases action with
  | start call =>
      simp only [Server.step]
      split
      · exact h
      · refine ⟨h.rows, fun other hother => ?_⟩
        rcases List.mem_append.mp hother with hold | hnew
        · exact h.calls other hold
        · rw [List.mem_singleton.mp hnew]
          exact hrequest
  | proceed index =>
      simp only [Server.step]
      split
      · exact h
      · rename_i call hcall
        have hcommon := h.calls call (List.mem_of_getElem? hcall)
        refine ⟨?_, fun other hother => h.calls other (List.mem_of_mem_eraseIdx hother)⟩
        refine locked_rule call h.rows ?_ (fun _ _ _ _ _ hcase => h.rows.exited hcase)
        rintro args account rfl hcase
        exact h.rows.entered hcommon hcase
  | runtime active => exact ⟨⟨h.rows.costs, fun htraded now =>
      let hold := h.rows.within htraded now
      ⟨hold.exposure, hold.openCount, hold.trades, hold.cash⟩⟩, h.calls⟩

/-- An entry that commits behind the locks leaves its limits kept. -/
theorem granted_withinLimits {s : Server} {index : Nat} {args : EntryArgs} {committed : Committed}
    (h : s.answer (.proceed index) = some (.entry args, .ok committed)) :
    WithinLimits args.limits (s.step (.proceed index)).db := by
  obtain ⟨call, hcall, hanswer⟩ := Option.map_eq_some_iff.mp h
  rw [Prod.mk.injEq] at hanswer
  obtain ⟨rfl, hok⟩ := hanswer
  simp only [Server.step, hcall, Call.locked] at hok ⊢
  rcases lockedEntry_cases args s.db with ⟨e, he⟩ | ⟨account, hcase, heq⟩
  · rw [transaction_of_error he] at hok
    cases hok
  · rw [transaction_of_ok heq]
    exact WithinLimits.entered hcase

theorem raised_unchanged {s : Server} {action : Action} {call : Call} {e : PaperError}
    (h : s.answer action = some (call, .error e)) : (s.step action).db = s.db := by
  cases action with
  | start call =>
      simp only [Server.step]
      split <;> rfl
  | proceed index =>
      obtain ⟨call', hcall, hanswer⟩ := Option.map_eq_some_iff.mp h
      rw [Prod.mk.injEq] at hanswer
      simp only [Server.step, hcall]
      cases call' with
      | entry args => exact transaction_error hanswer.2
      | exit args => exact transaction_error hanswer.2
  | runtime active => cases h

/-- For every interleaving of entry and exit transactions from any number of callers on an
initialised account: an entry that commits leaves the exposure, the number of open positions,
the BUY orders of its risk day and the cash within its limits and no mint with two open
positions; an entry that raises leaves the rows as they were; and when all entries come with
the same limits and days that tile, each state after the first entry stays within them. -/
theorem commits_keep_limits (startingEquity : ℚ) (now : Time) (actions : List Action) :
    (∀ index args committed,
      (exec Server.step (Server.init startingEquity now) actions).answer (.proceed index) =
        some (.entry args, .ok committed) →
      WithinLimits args.limits
        ((exec Server.step (Server.init startingEquity now) actions).step (.proceed index)).db) ∧
    UniqueLive (exec Server.step (Server.init startingEquity now) actions).db ∧
    (∀ action args e,
      (exec Server.step (Server.init startingEquity now) actions).answer action =
        some (.entry args, .error e) →
      ((exec Server.step (Server.init startingEquity now) actions).step action).db =
        (exec Server.step (Server.init startingEquity now) actions).db) ∧
    (∀ calendar limits,
      Along (Requests calendar limits) Server.step (Server.init startingEquity now) actions →
      Traded (exec Server.step (Server.init startingEquity now) actions).db →
      ∀ today, WithinLimits (limits.onDay (calendar.day today))
        (exec Server.step (Server.init startingEquity now) actions).db) := by
  refine ⟨?_, ?_, ?_, ?_⟩
  · intro index args committed hanswer
    exact granted_withinLimits hanswer
  · exact exec_invariant (I := fun s : Server => UniqueLive s.db)
      (fun _ action h => h.step action)
      (UniqueLive.init startingEquity now) actions
  · intro action args e hanswer
    exact raised_unchanged hanswer
  · intro calendar limits hrun htraded today
    have hguarded := hrun.invariant (I := Guarded calendar limits)
      (fun _ action h hrequest => h.step action hrequest)
      (Guarded.init calendar limits startingEquity now)
    exact hguarded.rows.within htraded today

/-- The risk days of the UTC calendar. -/
def utcDays : RiskCalendar where
  day t := (t - t % 86400000000, t - t % 86400000000 + 86400000000)
  tiles := by
    have hday : ∀ t u : Int, t - t % 86400000000 ≤ u → u < t - t % 86400000000 + 86400000000 →
        u - u % 86400000000 = t - t % 86400000000 := by
      intro t u
      omega
    intro t u hstart hend
    rw [hday t u hstart hend]

/-- One entry from its lookup to its commit, under the default limits and UTC days. -/
theorem commits_keep_limits_sampleEntry :
    WithinLimits sampleEntry.limits
      (exec Server.step (Server.init 500 0) [.start (.entry sampleEntry), .proceed 0]).db ∧
    ∀ today, WithinLimits (sampleEntry.limits.onDay (utcDays.day today))
      (exec Server.step (Server.init 500 0) [.start (.entry sampleEntry), .proceed 0]).db := by
  constructor
  · refine (commits_keep_limits 500 0 [.start (.entry sampleEntry)]).1 0 sampleEntry
      ⟨"position", "fill-entry", "quote-entry", seconds 1⟩ ?_
    have hgranted : (transaction (lockedEntry sampleEntry) (Server.init 500 0).db).1 =
        .ok ⟨"position", "fill-entry", "quote-entry", seconds 1⟩ := by decide +kernel
    exact congrArg (fun result => some (Call.entry sampleEntry, result)) hgranted
  · refine (commits_keep_limits 500 0 [.start (.entry sampleEntry), .proceed 0]).2.2.2 utcDays
      sampleEntry.limits ⟨?_, trivial, trivial⟩ ⟨"entry:candidate", sampleEntry.order, ?_, rfl⟩
    · refine ⟨by decide +kernel, rfl, rfl, rfl, by decide +kernel⟩
    · decide +kernel

end SniperBot.Paper
