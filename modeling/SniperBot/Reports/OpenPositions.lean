import SniperBot.Basis.Ranking
import SniperBot.Runtime.Calls
import SniperBot.Ledger.Accounting
import Mathlib.Data.String.Basic

/-!
# Views of the open positions

The open positions are shown in four places: `open_positions` of the ledger state, the daily report
(`_open_positions_as_of` of `reports.py`, which recomputes everything from the fills), and the two
lists of the HTTP interface (`positions` of `api.py`).

`Filled` ties each stored position to its fills, so the report agrees with the ledger after every
run (`openPositionsAsOf_eq`). The interface compares the status with the text "OPEN", while the
value of `PositionStatus.OPEN` is "open": its open list is always empty.
-/

namespace SniperBot.Reports

open Basis Ledger SniperBot.Runtime

variable {dateKey : Time → String} {s : LedgerState}

/-! ## The report -/

/-- An entry of the report's list of open positions. -/
structure OpenRow where
  positionId : String
  tokenMint : String
  remainingTokenAmount : ℚ
  remainingCostUsd : ℚ
  openedAt : Time
  status : String
  deriving DecidableEq, Repr

/-- The fills of one type and position before an instant. -/
def fillsOf (fillType : FillType) (positionId : String) (endUtc : Time) (fills : List FillRecord) :
    List FillRecord :=
  fills.filter fun fill =>
    fill.fillType = fillType ∧ fill.positionId = positionId ∧ fill.createdAt < endUtc

/-- The body of the loop of `_open_positions_as_of`. -/
def openPositionAsOf (fills : List FillRecord) (endUtc : Time) (position : PositionRecord) :
    Option OpenRow :=
  let entryFills := fillsOf .entry position.positionId endUtc fills
  let exitFills := fillsOf .exit position.positionId endUtc fills
  let remaining := (entryFills.map (·.tokenAmount)).sum - (exitFills.map (·.tokenAmount)).sum
  if position.openedAt ≥ endUtc then none
  else if entryFills.isEmpty then none
  else if remaining ≤ 0 then none
  else some
    { positionId := position.positionId
      tokenMint := position.tokenMint
      remainingTokenAmount := remaining
      remainingCostUsd := (entryFills.map (·.usdNotional)).sum -
        (exitFills.map fun fill => fill.costBasisUsd * fill.tokenAmount).sum
      openedAt := position.openedAt
      status := "OPEN" }

/-- `sorted(result, key=lambda item: item["position_id"])` -/
def sortedById (rows : List OpenRow) : List OpenRow :=
  sortedBy OpenRow.positionId rows

/-- `_open_positions_as_of` -/
def openPositionsAsOf (s : LedgerState) (fills : List FillRecord) (endUtc : Time) : List OpenRow :=
  sortedById (s.positions.values.filterMap (openPositionAsOf fills endUtc))

/-! ## The HTTP interface -/

/-- `PositionStatus.value` -/
def statusValue : PositionStatus → String
  | .opened => "open"
  | .closed => "closed"

/-- `positions` of the router. -/
def apiPositions (s : LedgerState) (openOnly : Bool) : List PositionRecord :=
  s.positions.values.filter fun item => (statusValue item.status == "OPEN") = openOnly

/-- The positions that the open list shows. -/
theorem apiPositions_open (s : LedgerState) : apiPositions s true = [] := by
  refine List.filter_eq_nil_iff.mpr fun item _ => ?_
  cases item.status <;> decide

/-- The positions that the closed list shows. -/
theorem apiPositions_closed (s : LedgerState) : apiPositions s false = s.positions.values := by
  refine List.filter_eq_self.mpr fun item _ => ?_
  cases item.status <;> decide

/-! ## Agreement -/

/-- The row of an open position as the ledger holds it. -/
def openRow (position : PositionRecord) : OpenRow where
  positionId := position.positionId
  tokenMint := position.tokenMint
  remainingTokenAmount := position.remainingTokenAmount
  remainingCostUsd := position.remainingCostUsd
  openedAt := position.openedAt
  status := "OPEN"

/-- The four views show the same open positions. -/
structure OpenViewsAgree (s : LedgerState) (endUtc : Time) : Prop where
  report : openPositionsAsOf s s.fills endUtc = sortedById (s.openPositions.map openRow)
  openList : ∀ id, id ∈ (apiPositions s true).map (·.positionId) ↔
    id ∈ s.openPositions.map (·.positionId)
  closedList : ∀ id, (id ∈ s.positions.values.map (·.positionId) ∧
      id ∉ (apiPositions s false).map (·.positionId)) ↔
    id ∈ s.openPositions.map (·.positionId)

/-! ## Positions and their fills -/

/-- All fills of one type and position. -/
def allFillsOf (fillType : FillType) (positionId : String) (fills : List FillRecord) :
    List FillRecord :=
  fills.filter fun fill => fill.fillType = fillType ∧ fill.positionId = positionId

/-- After the last fill the bound of the report leaves nothing out. -/
theorem fillsOf_eq {fills : List FillRecord} {endUtc : Time}
    (hend : ∀ fill ∈ fills, fill.createdAt < endUtc) (fillType : FillType) (positionId : String) :
    fillsOf fillType positionId endUtc fills = allFillsOf fillType positionId fills := by
  refine List.filter_congr fun fill hfill => ?_
  simp [hend fill hfill]

theorem allFillsOf_append (fillType : FillType) (id : String) (fills : List FillRecord)
    (fill : FillRecord) : allFillsOf fillType id (fills ++ [fill]) =
      allFillsOf fillType id fills ++
        if fill.fillType = fillType ∧ fill.positionId = id then [fill] else [] := by
  rw [allFillsOf, List.filter_append]
  congr 1
  by_cases h : fill.fillType = fillType ∧ fill.positionId = id
  · simp [h.1, h.2]
  · rw [if_neg h]
    simp only [List.filter_cons, List.filter_nil, decide_eq_true_eq, if_neg h]

/-- No fill belongs to an id that is not stored. -/
theorem allFillsOf_fresh (h : WellFormed s) {id : String} (hfresh : s.positions.get? id = none)
    (fillType : FillType) : allFillsOf fillType id s.fills = [] := by
  refine List.filter_eq_nil_iff.mpr fun fill hfill hof => ?_
  obtain ⟨-, rfl⟩ := of_decide_eq_true hof
  obtain ⟨p, hp⟩ := h.fillPosition fill hfill
  rw [hfresh] at hp
  cases hp

/-- The tokens and the cost that a position has left are those of its fills. -/
structure FilledBy (fills : List FillRecord) (id : String) (position : PositionRecord) : Prop where
  opening : ∃ fill ∈ allFillsOf .entry id fills, fill.createdAt = position.openedAt
  tokens : ((allFillsOf .entry id fills).map (·.tokenAmount)).sum -
      ((allFillsOf .exit id fills).map (·.tokenAmount)).sum = position.remainingTokenAmount
  cost : ((allFillsOf .entry id fills).map (·.usdNotional)).sum -
      ((allFillsOf .exit id fills).map fun fill => fill.costBasisUsd * fill.tokenAmount).sum =
    position.remainingCostUsd

/-- Every stored position carries its key and is what its fills left. -/
structure Filled (s : LedgerState) : Prop where
  ids : ∀ id p, s.positions.get? id = some p → p.positionId = id
  filled : ∀ id p, s.positions.get? id = some p → FilledBy s.fills id p

theorem Filled.init (starting : ℚ) : Filled (LedgerState.init starting) := by
  constructor <;> simp [LedgerState.init]

/-- A fill of another position changes nothing. -/
theorem FilledBy.append_other {fills : List FillRecord} {id : String} {position : PositionRecord}
    (h : FilledBy fills id position) {fill : FillRecord} (hother : fill.positionId ≠ id) :
    FilledBy (fills ++ [fill]) id position := by
  have hsame (fillType : FillType) :
      allFillsOf fillType id (fills ++ [fill]) = allFillsOf fillType id fills := by
    rw [allFillsOf_append, if_neg fun hof => hother hof.2, List.append_nil]
  constructor
  · rw [hsame]
    exact h.opening
  · rw [hsame, hsame]
    exact h.tokens
  · rw [hsame, hsame]
    exact h.cost

/-- The fill that opens a position is its only one. -/
theorem FilledBy.opened (hs : WellFormed s) {args : OpenArgs} (valid : args.costs.Valid)
    (hbook : BookCase s args) :
    FilledBy (s.fills ++ [args.entryFill valid]) args.positionId args.newPosition := by
  have hentry : allFillsOf .entry args.positionId (s.fills ++ [args.entryFill valid]) =
      [args.entryFill valid] := by
    rw [allFillsOf_append, allFillsOf_fresh hs hbook.freshId, List.nil_append]
    exact if_pos ⟨rfl, rfl⟩
  have hexit : allFillsOf .exit args.positionId (s.fills ++ [args.entryFill valid]) = [] := by
    rw [allFillsOf_append, allFillsOf_fresh hs hbook.freshId, List.nil_append]
    exact if_neg (by rintro ⟨⟨⟩, -⟩)
  refine ⟨⟨args.entryFill valid, ?_, rfl⟩, ?_, ?_⟩
  · rw [hentry]
    exact List.mem_singleton_self _
  · rw [hentry, hexit]
    simp [OpenArgs.entryFill, OpenArgs.newPosition]
  · rw [hentry, hexit]
    simp [OpenArgs.entryFill, OpenArgs.newPosition]

/-- The fill of an exit takes its tokens and their share of the cost away. -/
theorem FilledBy.closed {fills : List FillRecord} {args : CloseArgs} {id : String}
    {position : PositionRecord} (h : FilledBy fills id position)
    (hopen : 0 < position.remainingTokenAmount) (valid : args.costs.Valid) :
    FilledBy (fills ++ [args.closeFill position id valid]) id (args.closedPosition position) := by
  have hentry : allFillsOf .entry id (fills ++ [args.closeFill position id valid]) =
      allFillsOf .entry id fills := by
    rw [allFillsOf_append, if_neg (by rintro ⟨⟨⟩, -⟩), List.append_nil]
  have hexit : allFillsOf .exit id (fills ++ [args.closeFill position id valid]) =
      allFillsOf .exit id fills ++ [args.closeFill position id valid] := by
    rw [allFillsOf_append, if_pos ⟨rfl, rfl⟩]
  have hcost := costBasis_mul_tokenClosed hopen id valid
  have hopenedAt : (args.closedPosition position).openedAt = position.openedAt := by
    unfold CloseArgs.closedPosition
    split <;> rfl
  refine ⟨?_, ?_, ?_⟩
  · rw [hentry, hopenedAt]
    exact h.opening
  · rw [hentry, hexit, closedPosition_remainingTokenAmount, ← h.tokens]
    simp only [List.map_append, List.map_cons, List.map_nil, List.sum_append, List.sum_cons,
      List.sum_nil, add_zero]
    exact (sub_sub _ _ _).symm
  · rw [hentry, hexit, closedPosition_remainingCostUsd, ← h.cost, ← hcost]
    simp only [List.map_append, List.map_cons, List.map_nil, List.sum_append, List.sum_cons,
      List.sum_nil, add_zero]
    exact (sub_sub _ _ _).symm

theorem Filled.booked (h : Filled s) (hs : WellFormed s) {args : OpenArgs}
    (valid : args.costs.Valid) (hbook : BookCase s args) : Filled (s.booked args valid) := by
  have hcases : ∀ id p, (s.booked args valid).positions.get? id = some p →
      (id = args.positionId ∧ p = args.newPosition) ∨
        (args.positionId ≠ id ∧ s.positions.get? id = some p) := by
    intro id p hget
    simp only [LedgerState.booked, Dict.get?_set] at hget
    split at hget
    · rename_i heq
      cases hget
      exact Or.inl ⟨heq.symm, rfl⟩
    · rename_i hne
      exact Or.inr ⟨hne, hget⟩
  constructor
  · intro id p hget
    rcases hcases id p hget with ⟨rfl, rfl⟩ | ⟨-, hold⟩
    · rfl
    · exact h.ids id p hold
  · intro id p hget
    rcases hcases id p hget with ⟨rfl, rfl⟩ | ⟨hne, hold⟩
    · exact FilledBy.opened hs valid hbook
    · exact (h.filled id p hold).append_other hne

theorem Filled.exited (h : Filled s) {args : CloseArgs} {id : String} {position : PositionRecord}
    (valid : args.costs.Valid) (hexit : ExitCase s args id position) :
    Filled (s.exited dateKey args id position valid) := by
  constructor
  · intro j p hget
    rcases hexit.stored_cases hget with ⟨rfl, rfl⟩ | ⟨-, hold⟩
    · rw [closedPosition_positionId]
      exact h.ids j position hexit.stored
    · exact h.ids j p hold
  · intro j p hget
    rcases hexit.stored_cases hget with ⟨rfl, rfl⟩ | ⟨hne, hold⟩
    · exact (h.filled j position hexit.stored).closed hexit.remaining_pos valid
    · exact (h.filled j p hold).append_other hne

theorem Filled.marked (h : Filled s) (prices : Dict String ℚ) (at' : Time) :
    Filled (markToMarket dateKey s prices at') := by
  constructor
  · intro id p hget
    obtain ⟨old, hold, rfl⟩ := get?_markToMarket hget
    rw [markPosition_positionId]
    exact h.ids id old hold
  · intro id p hget
    obtain ⟨old, hold, rfl⟩ := get?_markToMarket hget
    have hfilled := h.filled id old hold
    have hopenedAt : (markPosition prices at' old).openedAt = old.openedAt := by
      unfold markPosition
      split
      · rfl
      · split <;> rfl
    refine ⟨?_, ?_, ?_⟩
    · rw [hopenedAt]
      exact hfilled.opening
    · rw [markPosition_remainingTokenAmount]
      exact hfilled.tokens
    · rw [markPosition_remainingCostUsd]
      exact hfilled.cost

/-- Every call keeps the two invariants. -/
theorem filled_call (h : WellFormed s ∧ Filled s) (call : LedgerCall) (hfresh : FreshCall s call) :
    WellFormed (ledgerCall dateKey s call) ∧ Filled (ledgerCall dateKey s call) := by
  refine call_rule (P := fun t => WellFormed t ∧ Filled t) call ?_ ?_
  · rintro op rfl
    refine ⟨h.1.apply op hfresh, ?_⟩
    exact apply_rule hfresh h.2 (fun _ valid hcase => h.2.booked h.1 valid hcase)
      (fun _ _ _ valid hcase => h.2.exited valid hcase) h.2.marked
  · intro baseline halt pause date
    exact ⟨wellFormed_controlled h.1 baseline halt pause date, h.2.ids, h.2.filled⟩

/-! ## The report agrees -/

/-- The report shows an open position as the ledger holds it, and leaves out a closed one. -/
theorem openPositionAsOf_eq (hs : WellFormed s) (h : Filled s) {endUtc : Time}
    (hend : ∀ fill ∈ s.fills, fill.createdAt < endUtc) {id : String} {p : PositionRecord}
    (hget : s.positions.get? id = some p) :
    openPositionAsOf s.fills endUtc p = if p.status = .opened then some (openRow p) else none := by
  have hid := h.ids id p hget
  obtain ⟨⟨entry, hentry, hopenedAt⟩, htokens, hcost⟩ := h.filled id p hget
  have hbefore : ¬ p.openedAt ≥ endUtc := by
    rw [← hopenedAt]
    exact not_le.mpr (hend entry (List.mem_filter.mp hentry).1)
  have hsome : (allFillsOf .entry id s.fills).isEmpty = false := by
    cases hfills : allFillsOf .entry id s.fills with
    | nil =>
        rw [hfills] at hentry
        cases hentry
    | cons => rfl
  simp only [openPositionAsOf, fillsOf_eq hend, hid, htokens, hcost, if_neg hbefore, hsome,
    Bool.false_eq_true, if_false]
  cases hstatus : p.status with
  | opened =>
      rw [if_neg (not_le.mpr (hs.openTokens id p hget hstatus)), if_pos rfl, openRow, hid]
  | closed =>
      rw [if_pos (hs.closedTokens id p hget hstatus).1.le, if_neg nofun]

theorem filterMap_ite_some {α β : Type} (p : α → Prop) [DecidablePred p] (f : α → β)
    (items : List α) : items.filterMap (fun item => if p item then some (f item) else none) =
      (items.filter fun item => p item).map f := by
  induction items with
  | nil => rfl
  | cons item rest ih =>
      by_cases h : p item
      · simp [h, ih]
      · simp [h, ih]

/-- After the last fill the report lists the open positions of the ledger. -/
theorem openPositionsAsOf_eq (hs : WellFormed s) (h : Filled s) {endUtc : Time}
    (hend : ∀ fill ∈ s.fills, fill.createdAt < endUtc) :
    openPositionsAsOf s s.fills endUtc = sortedById (s.openPositions.map openRow) := by
  have hrow : ∀ p ∈ s.positions.values, openPositionAsOf s.fills endUtc p =
      if p.status = .opened then some (openRow p) else none := by
    intro p hp
    obtain ⟨id, hget⟩ := Dict.mem_values.mp hp
    exact openPositionAsOf_eq hs h hend hget
  rw [openPositionsAsOf, List.filterMap_congr hrow, LedgerState.openPositions,
    filterMap_ite_some]

/-! ## Runs -/

/-- After every run of ledger calls whose new positions get fresh ids, and at any time after the
last fill, the report lists exactly the open positions of the ledger, with the tokens and the cost
they have left; but all four views agree exactly if no position is open. -/
theorem run_open_views (dateKey : Time → String) (starting : ℚ) (calls : List LedgerCall)
    (hrun : Along FreshCall (ledgerCall dateKey) (LedgerState.init starting) calls) (endUtc : Time)
    (hend : ∀ fill ∈ (exec (ledgerCall dateKey) (LedgerState.init starting) calls).fills,
      fill.createdAt < endUtc) :
    let s := exec (ledgerCall dateKey) (LedgerState.init starting) calls
    openPositionsAsOf s s.fills endUtc = sortedById (s.openPositions.map openRow) ∧
      (OpenViewsAgree s endUtc ↔ ∀ p ∈ s.positions.values, p.status = .closed) := by
  intro s
  obtain ⟨hs, hfilled⟩ := hrun.invariant (I := fun s => WellFormed s ∧ Filled s)
    (fun _ call h hfresh => filled_call h call hfresh)
    ⟨WellFormed.init starting, Filled.init starting⟩
  have hreport := openPositionsAsOf_eq hs hfilled hend
  refine ⟨hreport, ?_, ?_⟩
  · intro hagree p hp
    cases hstatus : p.status with
    | closed => rfl
    | opened =>
        -- the open list of the interface shows nothing
        have hopen : p ∈ s.openPositions := List.mem_filter.mpr ⟨hp, decide_eq_true hstatus⟩
        have hlisted := (hagree.openList p.positionId).mpr (List.mem_map_of_mem hopen)
        rw [apiPositions_open] at hlisted
        cases hlisted
  · intro hclosed
    have hnone : s.openPositions = [] := by
      refine List.filter_eq_nil_iff.mpr fun p hp hopen => ?_
      rw [hclosed p hp] at hopen
      cases of_decide_eq_true hopen
    refine ⟨hreport, fun id => ?_, fun id => ?_⟩
    · rw [apiPositions_open, hnone]
    · rw [apiPositions_closed, hnone]
      exact iff_of_false (fun h => h.2 h.1) nofun

/-- A position that is opened, sold in two parts, and opened again under a new id. -/
def reentry : List LedgerCall :=
  twoExits.map .book ++
    [.setHalt "pause" false,
      .book (.openPosition
        { tokenMint := "TOKEN", usdAmount := 20, tokenAmount := 10, orderId := "entry-2"
          quoteId := "quote-3", positionId := "position-2", fillId := "fill-3"
          createdAt := seconds 4 }),
      .book (.closePosition
        { tokenMint := "TOKEN", usdReceived := 5, tokenClosed := 4, orderId := "exit-3"
          quoteId := "quote-4", closeFillId := "fill-4", createdAt := seconds 5 })]

theorem run_open_views_reentry :
    let s := exec (ledgerCall fun _ => "day") (LedgerState.init 500) reentry
    openPositionsAsOf s s.fills (seconds 6) = sortedById (s.openPositions.map openRow) ∧
      (OpenViewsAgree s (seconds 6) ↔ ∀ p ∈ s.positions.values, p.status = .closed) :=
  run_open_views (fun _ => "day") 500 reentry (by decide +kernel) (seconds 6) (by decide +kernel)

/-- With one position open, the open list of the interface is empty and the closed list has it. -/
theorem open_position_listed_closed :
    ¬ OpenViewsAgree (exec (ledgerCall fun _ => "day") (LedgerState.init 500) reentry)
      (seconds 6) := by
  intro hagree
  have hlisted := (hagree.openList "position-2").mpr (by decide +kernel)
  rw [apiPositions_open] at hlisted
  cases hlisted

end SniperBot.Reports
