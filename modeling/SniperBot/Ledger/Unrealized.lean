import SniperBot.Ledger.Accounting

/-!
# Unrealized results and marks

What `unrealized_pnl_usd` should be is stated here without the ledger's own valuation fields:
`Marks` remembers, for every position, the executable value at its last mark, scaled by the
share of its tokens that later exits left. `UnrealizedMatches` says that the ledger's total is
the sum of marked value minus remaining cost over the open positions that were marked.

`mark_to_market` replaces the total by the gains of the positions it has a price for, and
`close_position` reads a last value of zero as "never marked". So a mark that omits a marked
position forgets its gain, and an exit after a mark at price zero leaves the loss behind
(`zero_mark_loss_kept`). Away from these two cases every run keeps the total right
(`run_unrealizedMatches`).
-/

namespace SniperBot.Ledger

open Basis

/-! ## The valuation that the accounting rules prescribe -/

/-- The value of each position at its last mark, scaled by later exits. -/
abbrev Marks := String → Option ℚ

/-- Scale each mark by the share of the tokens that is left. -/
def scale (before after : LedgerState) (marks : Marks) : Marks := fun id =>
  match before.positions.get? id, after.positions.get? id with
  | some old, some new =>
      (marks id).map (· * (new.remainingTokenAmount / old.remainingTokenAmount))
  | _, _ => marks id

/-- Replace the mark of every open position that has a price. -/
def remark (ledger : LedgerState) (prices : Dict String ℚ) (marks : Marks) : Marks := fun id =>
  match ledger.positions.get? id with
  | none => marks id
  | some position =>
      if position.status ≠ .opened then marks id
      else match prices.get? position.tokenMint with
        | none => marks id
        | some price => some (position.remainingTokenAmount * price)

/-- The marks after an operation took the ledger from `before` to `after`. -/
def track (before after : LedgerState) (marks : Marks) : LedgerOp → Marks
  | .markToMarket prices _ => remark before prices marks
  | _ => scale before after marks

/-- A ledger together with the marks of its history. -/
structure Valued where
  ledger : LedgerState
  marks : Marks

def Valued.init (starting : ℚ) : Valued := ⟨LedgerState.init starting, fun _ => none⟩

def Valued.apply (dateKey : Time → String) (v : Valued) (op : LedgerOp) : Valued :=
  ⟨v.ledger.apply dateKey op, track v.ledger (v.ledger.apply dateKey op) v.marks op⟩

/-- What an open position contributes: nothing before its first mark. -/
def markedGain (marks : Marks) (id : String) (position : PositionRecord) : ℚ :=
  if position.status = .opened then
    match marks id with
    | none => 0
    | some value => value - position.remainingCostUsd
  else 0

/-- The unrealized result is the sum of the marked gains of the open positions. -/
def UnrealizedMatches (v : Valued) : Prop :=
  v.ledger.unrealizedPnlUsd = Dict.total (markedGain v.marks) v.ledger.positions

instance (v : Valued) : Decidable (UnrealizedMatches v) := inferInstanceAs (Decidable (_ = _))

/-- The steps of a run: new positions get fresh ids and prices are not negative. -/
def Admissible (v : Valued) : LedgerOp → Prop
  | .markToMarket prices _ => ∀ e ∈ prices.entries, 0 ≤ e.2
  | op => FreshId v.ledger op

/-- The steps that keep clear of the two defects: a mark has a price for every open position
that was marked before, and no exit is taken of a position whose last mark was zero. -/
def Covered (v : Valued) : LedgerOp → Prop
  | .openPosition _ => True
  | .closePosition args => ∀ id ∈ v.ledger.tokenIndex.get? args.tokenMint, v.marks id ≠ some 0
  | .markToMarket prices _ => ∀ e ∈ v.ledger.positions.entries,
      e.2.status = .opened → v.marks e.1 ≠ none → prices.get? e.2.tokenMint ≠ none

instance (v : Valued) : (op : LedgerOp) → Decidable (Admissible v op)
  | .openPosition args => inferInstanceAs (Decidable (FreshId v.ledger (.openPosition args)))
  | .closePosition args => inferInstanceAs (Decidable (FreshId v.ledger (.closePosition args)))
  | .markToMarket prices _ => inferInstanceAs (Decidable (∀ e ∈ prices.entries, 0 ≤ e.2))

instance (v : Valued) : (op : LedgerOp) → Decidable (Covered v op)
  | .openPosition _ => inferInstanceAs (Decidable True)
  | .closePosition args => inferInstanceAs (Decidable
      (∀ id ∈ v.ledger.tokenIndex.get? args.tokenMint, v.marks id ≠ some 0))
  | .markToMarket prices _ => inferInstanceAs (Decidable (∀ e ∈ v.ledger.positions.entries,
      e.2.status = .opened → v.marks e.1 ≠ none → prices.get? e.2.tokenMint ≠ none))

/-! ## The ledger's own valuation fields -/

variable {dateKey : Time → String} {v : Valued}

/-- The last executable value of an open position is its mark, or zero before the first. -/
structure MarksAgree (v : Valued) : Prop where
  lastValue : ∀ id p, v.ledger.positions.get? id = some p → p.status = .opened →
    p.lastExecutableValueUsd = (v.marks id).getD 0
  nonneg : ∀ id value, v.marks id = some value → 0 ≤ value
  unstored : ∀ id, v.ledger.positions.get? id = none → v.marks id = none

theorem MarksAgree.init (starting : ℚ) : MarksAgree (Valued.init starting) := by
  constructor <;> simp [Valued.init, LedgerState.init]

theorem scale_of_unstored {s t : LedgerState} {marks : Marks} {id : String}
    (h : s.positions.get? id = none) : scale s t marks id = marks id := by
  simp [scale, h]

theorem scale_of_stored {s t : LedgerState} {marks : Marks} {id : String} {old new : PositionRecord}
    (hold : s.positions.get? id = some old) (hnew : t.positions.get? id = some new) :
    scale s t marks id =
      (marks id).map (· * (new.remainingTokenAmount / old.remainingTokenAmount)) := by
  simp [scale, hold, hnew]

/-- A position that keeps its tokens keeps its mark. -/
theorem scale_of_same {s t : LedgerState} (hs : WellFormed s) {marks : Marks} {id : String}
    {old : PositionRecord} (hold : s.positions.get? id = some old)
    (hnew : t.positions.get? id = some old) (hopen : old.status = .opened) :
    scale s t marks id = marks id := by
  have hpos := hs.openTokens id old hold hopen
  rw [scale_of_stored hold hnew, div_self hpos.ne']
  cases marks id with
  | none => rfl
  | some value => simp

theorem WellFormed.remaining_nonneg {s : LedgerState} (h : WellFormed s) {id : String}
    {p : PositionRecord} (hget : s.positions.get? id = some p) : 0 ≤ p.remainingTokenAmount := by
  cases hstatus : p.status with
  | opened => exact (h.openTokens id p hget hstatus).le
  | closed => exact (h.closedTokens id p hget hstatus).1.ge

/-- Scaling by what is left keeps marks non-negative. -/
theorem scale_nonneg {s t : LedgerState} (hs : WellFormed s) (ht : WellFormed t) {marks : Marks}
    (hmarks : ∀ id value, marks id = some value → 0 ≤ value) {id : String} {value : ℚ}
    (h : scale s t marks id = some value) : 0 ≤ value := by
  unfold scale at h
  split at h
  · rename_i old new hold hnew
    obtain ⟨mark, hmark, rfl⟩ := Option.map_eq_some_iff.mp h
    exact mul_nonneg (hmarks id mark hmark)
      (div_nonneg (ht.remaining_nonneg hnew) (hs.remaining_nonneg hold))
  · exact hmarks id value h

/-- A closed position contributes nothing whatever its mark; an open one only depends on its
mark and its remaining cost. -/
theorem markedGain_congr {marks marks' : Marks} {id : String} {p : PositionRecord}
    (h : p.status = .opened → marks' id = marks id) :
    markedGain marks' id p = markedGain marks id p := by
  unfold markedGain
  split
  · rename_i hopen
    rw [h hopen]
  · rfl

/-! ## Openings and exits -/

/-- Marks, fields and total agree. -/
structure Consistent (v : Valued) : Prop where
  wellFormed : WellFormed v.ledger
  marks : MarksAgree v
  total : UnrealizedMatches v

theorem Consistent.init (starting : ℚ) : Consistent (Valued.init starting) :=
  ⟨WellFormed.init starting, MarksAgree.init starting, rfl⟩

theorem Consistent.same (h : Consistent v) :
    Consistent ⟨v.ledger, scale v.ledger v.ledger v.marks⟩ := by
  have hsame : ∀ id p, v.ledger.positions.get? id = some p → p.status = .opened →
      scale v.ledger v.ledger v.marks id = v.marks id :=
    fun id p hget hopen => scale_of_same h.wellFormed hget hget hopen
  refine ⟨h.wellFormed, ⟨?_, ?_, ?_⟩, ?_⟩
  · intro id p hget hopen
    dsimp only
    rw [hsame id p hget hopen]
    exact h.marks.lastValue id p hget hopen
  · intro id value hvalue
    exact scale_nonneg h.wellFormed h.wellFormed h.marks.nonneg hvalue
  · intro id hnone
    dsimp only
    rw [scale_of_unstored hnone]
    exact h.marks.unstored id hnone
  · refine h.total.trans (Dict.total_congr fun id p hget => ?_)
    exact (markedGain_congr (hsame id p hget)).symm

theorem Consistent.booked (h : Consistent v) {args : OpenArgs} (valid : args.costs.Valid)
    (hbook : BookCase v.ledger args) :
    Consistent ⟨v.ledger.booked args valid,
      scale v.ledger (v.ledger.booked args valid) v.marks⟩ := by
  have hwf := h.wellFormed.booked valid hbook
  have hfresh := hbook.freshId
  have hnew : scale v.ledger (v.ledger.booked args valid) v.marks args.positionId = none := by
    rw [scale_of_unstored hfresh]
    exact h.marks.unstored _ hfresh
  -- an old position keeps its record and its mark
  have hold : ∀ id p, args.positionId ≠ id → v.ledger.positions.get? id = some p →
      (v.ledger.booked args valid).positions.get? id = some p := by
    intro id p hne hget
    simpa only [LedgerState.booked, Dict.get?_set_ne _ hne] using hget
  refine ⟨hwf, ⟨?_, ?_, ?_⟩, ?_⟩
  · intro id p hget hopen
    dsimp only at hget ⊢
    by_cases hid : args.positionId = id
    · subst hid
      rw [hnew]
      simp only [LedgerState.booked, Dict.get?_set_self, Option.some.injEq] at hget
      rw [← hget]
      rfl
    · have hget' : v.ledger.positions.get? id = some p := by
        simpa only [LedgerState.booked, Dict.get?_set_ne _ hid] using hget
      rw [scale_of_same h.wellFormed hget' hget hopen]
      exact h.marks.lastValue id p hget' hopen
  · intro id value hvalue
    exact scale_nonneg h.wellFormed hwf h.marks.nonneg hvalue
  · intro id hnone
    dsimp only at hnone ⊢
    have hnone' : v.ledger.positions.get? id = none := by
      simp only [LedgerState.booked] at hnone
      rw [Dict.get?_set] at hnone
      split at hnone
      · cases hnone
      · exact hnone
    rw [scale_of_unstored hnone']
    exact h.marks.unstored id hnone'
  · show v.ledger.unrealizedPnlUsd = Dict.total _ (v.ledger.positions.set _ _)
    rw [Dict.total_set_new _ hfresh]
    have hzero : markedGain (scale v.ledger (v.ledger.booked args valid) v.marks)
        args.positionId args.newPosition = 0 := by
      unfold markedGain
      rw [hnew]
      split <;> rfl
    rw [hzero, add_zero]
    refine h.total.trans (Dict.total_congr fun id p hget => ?_)
    refine (markedGain_congr fun hopen => ?_).symm
    have hne : args.positionId ≠ id := by
      rintro rfl
      rw [hfresh] at hget
      cases hget
    exact scale_of_same h.wellFormed hget (hold id p hne hget) hopen

section Exit

variable {args : CloseArgs} {id : String} {position : PositionRecord}

/-- Unless the last mark was zero, the gain that `close_position` assumes is the marked gain. -/
theorem markedUnrealized_eq (h : MarksAgree v) (hexit : ExitCase v.ledger args id position)
    (hmark : v.marks id ≠ some 0) :
    CloseArgs.markedUnrealized position = markedGain v.marks id position := by
  have hlast := h.lastValue id position hexit.stored hexit.opened
  unfold CloseArgs.markedUnrealized markedGain
  rw [if_pos hexit.opened, hlast]
  cases hvalue : v.marks id with
  | none => simp
  | some value =>
      have hpos : 0 < value := by
        refine lt_of_le_of_ne (h.nonneg id value hvalue) ?_
        rintro rfl
        exact hmark hvalue
      simp [hpos]

theorem remainingFraction_eq (hexit : ExitCase v.ledger args id position) :
    (position.remainingTokenAmount - args.tokenClosed) / position.remainingTokenAmount =
      args.remainingFraction position := by
  rw [CloseArgs.remainingFraction, CloseArgs.closedFraction, sub_div,
    div_self hexit.remaining_pos.ne']

/-- An exit leaves the remaining fraction of the gain, whether or not the position closes. -/
theorem markedGain_closedPosition (hexit : ExitCase v.ledger args id position) {marks : Marks}
    (hmarks : marks id = (v.marks id).map (· * args.remainingFraction position)) :
    markedGain marks id (args.closedPosition position) =
      markedGain v.marks id position * args.remainingFraction position := by
  unfold markedGain
  rw [closedPosition_status hexit.opened, if_pos hexit.opened, closedPosition_remainingCostUsd,
    hmarks]
  by_cases hfinal : args.Final position
  · have hall := (final_iff hexit.available).mp hfinal
    have hzero : args.remainingFraction position = 0 := by
      rw [← remainingFraction_eq hexit, hall, sub_self, zero_div]
    rw [if_pos hfinal, if_neg (by decide), hzero, mul_zero]
  · rw [if_neg hfinal, if_pos rfl]
    cases v.marks id with
    | none => simp
    | some value =>
        simp only [Option.map_some, CloseArgs.proportionalCost, CloseArgs.remainingFraction]
        ring

end Exit

theorem Consistent.exited (h : Consistent v) {args : CloseArgs} {id : String}
    {position : PositionRecord} (valid : args.costs.Valid)
    (hexit : ExitCase v.ledger args id position) (hmark : v.marks id ≠ some 0) :
    Consistent ⟨v.ledger.exited dateKey args id position valid,
      scale v.ledger (v.ledger.exited dateKey args id position valid) v.marks⟩ := by
  have hwf : WellFormed (v.ledger.exited dateKey args id position valid) :=
    h.wellFormed.exited valid hexit
  have hself : (v.ledger.exited dateKey args id position valid).positions.get? id =
      some (args.closedPosition position) := Dict.get?_set_self _ _ _
  have hscaled : scale v.ledger (v.ledger.exited dateKey args id position valid) v.marks id =
      (v.marks id).map (· * args.remainingFraction position) := by
    rw [scale_of_stored hexit.stored hself, closedPosition_remainingTokenAmount,
      remainingFraction_eq hexit]
  have hother : ∀ j p, id ≠ j → v.ledger.positions.get? j = some p → p.status = .opened →
      scale v.ledger (v.ledger.exited dateKey args id position valid) v.marks j = v.marks j := by
    intro j p hne hget hopen
    refine scale_of_same h.wellFormed hget ?_ hopen
    simpa only [LedgerState.exited, Dict.get?_set_ne _ hne] using hget
  refine ⟨hwf, ⟨?_, ?_, ?_⟩, ?_⟩
  · intro j p hget hopen
    rcases hexit.stored_cases hget with ⟨rfl, rfl⟩ | ⟨hne, hold⟩
    · have hlast := h.marks.lastValue j position hexit.stored hexit.opened
      have hfield : (args.closedPosition position).lastExecutableValueUsd =
          position.lastExecutableValueUsd * args.remainingFraction position := by
        unfold CloseArgs.closedPosition
        split <;> rfl
      dsimp only
      rw [hscaled, hfield, hlast]
      cases v.marks j <;> simp
    · dsimp only
      rw [hother j p hne hold hopen]
      exact h.marks.lastValue j p hold hopen
  · intro j value hvalue
    exact scale_nonneg h.wellFormed hwf h.marks.nonneg hvalue
  · intro j hnone
    have hnone' : v.ledger.positions.get? j = none := by
      simp only [LedgerState.exited] at hnone
      rw [Dict.get?_set] at hnone
      split at hnone
      · cases hnone
      · exact hnone
    dsimp only
    rw [scale_of_unstored hnone']
    exact h.marks.unstored j hnone'
  · -- the old total under the old marks against the new total under the new marks
    have hnew := markedGain_closedPosition hexit hscaled
    have hset := Dict.total_set_of_agree hexit.stored (args.closedPosition position)
      (f := markedGain (scale v.ledger (v.ledger.exited dateKey args id position valid) v.marks))
      (g := markedGain v.marks) fun j p hne hget =>
        markedGain_congr fun hopen => hother j p (Ne.symm hne) hget hopen
    have htotal : v.ledger.unrealizedPnlUsd = _ := h.total
    show v.ledger.unrealizedPnlUsd - args.closedUnrealized position =
      Dict.total _ (v.ledger.positions.set id (args.closedPosition position))
    rw [hnew, CloseArgs.remainingFraction] at hset
    rw [CloseArgs.closedUnrealized, markedUnrealized_eq h.marks hexit hmark]
    linarith

/-! ## Marks -/

theorem remark_of_unstored {s : LedgerState} {prices : Dict String ℚ} {marks : Marks} {id : String}
    (h : s.positions.get? id = none) : remark s prices marks id = marks id := by
  simp [remark, h]

theorem remark_of_open {s : LedgerState} {prices : Dict String ℚ} {marks : Marks} {id : String}
    {p : PositionRecord} (hget : s.positions.get? id = some p) (hopen : p.status = .opened) :
    remark s prices marks id =
      match prices.get? p.tokenMint with
      | none => marks id
      | some price => some (p.remainingTokenAmount * price) := by
  simp [remark, hget, hopen]

/-- With a price for every marked position, the gain that the mark adds is the marked gain. -/
theorem markGain_eq {s : LedgerState} {prices : Dict String ℚ} {marks : Marks} {at' : Time}
    {id : String} {p : PositionRecord} (hget : s.positions.get? id = some p)
    (hprice : p.status = .opened → marks id ≠ none → prices.get? p.tokenMint ≠ none) :
    markGain prices p = markedGain (remark s prices marks) id (markPosition prices at' p) := by
  unfold markGain markedGain
  rw [markPosition_status, markPosition_remainingCostUsd]
  by_cases hopen : p.status = .opened
  · rw [if_neg (not_not.mpr hopen), if_pos hopen, remark_of_open hget hopen]
    cases hp : prices.get? p.tokenMint with
    | some price => rfl
    | none =>
        have hnone : marks id = none := by
          by_contra hsome
          exact hprice hopen hsome hp
        rw [hnone]
  · rw [if_pos hopen, if_neg hopen]

theorem Consistent.marked (h : Consistent v) {prices : Dict String ℚ} {at' : Time}
    (hnonneg : Admissible v (.markToMarket prices at'))
    (hcovered : Covered v (.markToMarket prices at')) :
    Consistent ⟨markToMarket dateKey v.ledger prices at', remark v.ledger prices v.marks⟩ := by
  refine ⟨h.wellFormed.marked prices at', ⟨?_, ?_, ?_⟩, ?_⟩
  · intro id p hget hopen
    obtain ⟨old, hold, rfl⟩ := get?_markToMarket hget
    rw [markPosition_status] at hopen
    dsimp only
    rw [remark_of_open hold hopen, markPosition, if_neg (not_not.mpr hopen)]
    cases prices.get? old.tokenMint with
    | none => exact h.marks.lastValue id old hold hopen
    | some price => rfl
  · intro id value hvalue
    simp only [remark] at hvalue
    split at hvalue
    · exact h.marks.nonneg id value hvalue
    · rename_i old hold
      split at hvalue
      · exact h.marks.nonneg id value hvalue
      · split at hvalue
        · exact h.marks.nonneg id value hvalue
        · rename_i price hprice
          cases hvalue
          exact mul_nonneg (h.wellFormed.remaining_nonneg hold) (hnonneg _ (Dict.mem_entries.mpr hprice))
  · intro id hnone
    have hnone' : v.ledger.positions.get? id = none := by
      simpa only [markToMarket, Dict.get?_mapValues, Option.map_eq_none_iff] using hnone
    dsimp only
    rw [remark_of_unstored hnone']
    exact h.marks.unstored id hnone'
  · show Dict.total (fun _ p => markGain prices p) v.ledger.positions =
      Dict.total (markedGain (remark v.ledger prices v.marks))
        (v.ledger.positions.mapValues fun _ => markPosition prices at')
    rw [Dict.total_mapValues]
    exact Dict.total_congr fun id p hget => markGain_eq hget (hcovered _ (Dict.mem_entries.mpr hget))

/-! ## Runs -/

theorem Consistent.apply (h : Consistent v) (op : LedgerOp)
    (hop : Admissible v op ∧ Covered v op) : Consistent (v.apply dateKey op) := by
  cases op with
  | openPosition args =>
      rcases apply_open_cases dateKey hop.1 with heq | ⟨valid, heq, hbook⟩
      · simp only [Valued.apply, track, heq]
        exact h.same
      · simp only [Valued.apply, track, heq]
        exact h.booked valid hbook
  | closePosition args =>
      rcases apply_close_cases dateKey v.ledger args with heq | ⟨id, position, valid, heq, hexit⟩
      · simp only [Valued.apply, track, heq]
        exact h.same
      · simp only [Valued.apply, track, heq]
        exact h.exited valid hexit (hop.2 id hexit.indexed)
  | markToMarket prices at' => exact h.marked hop.1 hop.2

theorem UnrealizedMatches.eq_zero (h : UnrealizedMatches v)
    (hnone : v.ledger.openPositions = []) : v.ledger.unrealizedPnlUsd = 0 := by
  have hzero : ∀ id p, v.ledger.positions.get? id = some p →
      markedGain v.marks id p = (fun _ _ => (0 : ℚ)) id p := by
    intro id p hget
    have hclosed : p.status ≠ .opened := by
      intro hopen
      have hmem : p ∈ v.ledger.openPositions := mem_openPositions.mpr ⟨id, hget, hopen⟩
      rw [hnone] at hmem
      cases hmem
    simp [markedGain, hclosed]
  have htotal : v.ledger.unrealizedPnlUsd = Dict.total (markedGain v.marks) v.ledger.positions := h
  rw [htotal, Dict.total_congr hzero]
  simp [Dict.total]

/-- In every run whose marks have a price for each open position marked before, and whose exits
take no position last marked at zero, the unrealized result is the sum of the marked gains of
the open positions after every operation, and zero when no position is open. -/
theorem run_unrealizedMatches (dateKey : Time → String) (starting : ℚ) (ops : List LedgerOp)
    (hrun : Along (fun v op => Admissible v op ∧ Covered v op) (Valued.apply dateKey)
      (Valued.init starting) ops) :
    UnrealizedMatches (exec (Valued.apply dateKey) (Valued.init starting) ops) ∧
      ((exec (Valued.apply dateKey) (Valued.init starting) ops).ledger.openPositions = [] →
        (exec (Valued.apply dateKey) (Valued.init starting) ops).ledger.unrealizedPnlUsd = 0) := by
  have h : Consistent (exec (Valued.apply dateKey) (Valued.init starting) ops) :=
    hrun.invariant (I := Consistent) (fun _ op h hop => h.apply op hop) (Consistent.init starting)
  exact ⟨h.total, h.total.eq_zero⟩

theorem run_unrealizedMatches_twoExits :
    UnrealizedMatches (exec (Valued.apply fun _ => "day") (Valued.init 500) twoExits) :=
  (run_unrealizedMatches (fun _ => "day") 500 twoExits (by decide +kernel)).1

/-- A position marked at price zero and then sold for nothing. -/
def zeroMark : List LedgerOp :=
  [.openPosition
      { tokenMint := "TOKEN", usdAmount := 20, tokenAmount := 10, orderId := "entry"
        quoteId := "quote-entry", positionId := "position", fillId := "fill", createdAt := 0 },
    .markToMarket (Dict.empty.set "TOKEN" 0) (seconds 1),
    .closePosition
      { tokenMint := "TOKEN", usdReceived := 0, tokenClosed := 10, orderId := "exit"
        quoteId := "quote-exit", closeFillId := "fill-exit", createdAt := seconds 2 }]

/-- The loss of the sold position is realized and stays in the unrealized result as well. -/
theorem zero_mark_loss_kept :
    Along Admissible (Valued.apply fun _ => "day") (Valued.init 500) zeroMark ∧
    (exec (Valued.apply fun _ => "day") (Valued.init 500) zeroMark).ledger.openPositions = [] ∧
    (exec (Valued.apply fun _ => "day") (Valued.init 500) zeroMark).ledger.realizedPnlUsd = -20 ∧
    (exec (Valued.apply fun _ => "day") (Valued.init 500) zeroMark).ledger.unrealizedPnlUsd = -20 ∧
    ¬ UnrealizedMatches (exec (Valued.apply fun _ => "day") (Valued.init 500) zeroMark) := by
  refine ⟨?_, ?_, ?_, ?_, ?_⟩ <;> decide +kernel

end SniperBot.Ledger
