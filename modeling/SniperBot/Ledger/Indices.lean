import SniperBot.Ledger.Methods
import SniperBot.Ledger.Accounting

/-!
# The four index maps of the ledger

`open_position` and `close_position` keep four dictionaries beside the positions and the fills
by hand: mint to open position, entry order to position, exit order to position and exit order
to fill. `OrdersIndexed` says that the three order indices hold exactly the fills;
`WellFormed` says the same of the token index and the open positions.

* `LedgerState.perform` runs the methods assignment by assignment (`Ledger.Methods`); it agrees
  with `LedgerState.apply`.
* `run_indices`: both invariants after every run whose new positions get fresh ids, and what
  they give for a single call there: a repeated order id and a raise change nothing.
-/

namespace SniperBot.Ledger

open Basis

variable {dateKey : Time → String} {s : LedgerState}

/-! ## Calls in sequence -/

/-- Perform an operation by the method body; a raise leaves what was assigned before it. -/
def LedgerState.perform (dateKey : Time → String) (s : LedgerState) : LedgerOp → LedgerState
  | .openPosition args => ((openPositionBody args).call s).2
  | .closePosition args => ((closePositionBody dateKey args).call s).2
  | .markToMarket prices observedAt => markToMarket dateKey s prices observedAt

theorem outcome_state (s : LedgerState)
    (result : Except LedgerError (LedgerState × PositionRecord)) :
    (outcome s result).2 =
      match result with
      | .ok (next, _) => next
      | .error _ => s := by
  cases result <;> rfl

theorem perform_eq_apply (dateKey : Time → String) (s : LedgerState) (op : LedgerOp) :
    s.perform dateKey op = s.apply dateKey op := by
  cases op with
  | openPosition args =>
      rw [LedgerState.perform, call_openPositionBody, outcome_state]
      cases h : openPosition s args <;> simp only [LedgerState.apply, h]
  | closePosition args =>
      rw [LedgerState.perform, call_closePositionBody, outcome_state]
      cases h : closePosition dateKey s args <;> simp only [LedgerState.apply, h]
  | markToMarket prices observedAt => rfl

/-- A call that raises has assigned nothing. -/
theorem state_of_raise {result : Except LedgerError (LedgerState × PositionRecord)} {e : LedgerError}
    (h : (outcome s result).1 = .error e) : (outcome s result).2 = s := by
  cases result with
  | error _ => rfl
  | ok found => cases h

/-! ## The order indices -/

/-- The three order indices hold exactly the fills of their kind. -/
structure OrdersIndexed (s : LedgerState) : Prop where
  entries : s.orderIdIndex.Indexes s.fills (·.fillType = .entry) (·.orderId) (·.positionId)
  exits : s.closeOrderIdIndex.Indexes s.fills (·.fillType = .exit) (·.orderId) (·.positionId)
  exitFills : s.closeFillIdIndex.Indexes s.fills (·.fillType = .exit) (·.orderId) (·.fillId)

theorem OrdersIndexed.init (starting : ℚ) : OrdersIndexed (LedgerState.init starting) :=
  ⟨Dict.Indexes.empty, Dict.Indexes.empty, Dict.Indexes.empty⟩

theorem OrdersIndexed.booked (h : OrdersIndexed s) {args : OpenArgs} (valid : args.costs.Valid)
    (hbook : BookCase s args) : OrdersIndexed (s.booked args valid) := by
  have hentry : (args.entryFill valid).fillType = .entry := rfl
  have hnot : ¬ (args.entryFill valid).fillType = .exit := by simp [hentry]
  exact ⟨h.entries.append hentry hbook.newOrder, h.exits.append_other hnot,
    h.exitFills.append_other hnot⟩

theorem OrdersIndexed.exited (h : OrdersIndexed s) {args : CloseArgs} {id : String}
    {position : PositionRecord} (valid : args.costs.Valid) (hexit : ExitCase s args id position) :
    OrdersIndexed (s.exited dateKey args id position valid) := by
  have htype : (args.closeFill position id valid).fillType = .exit := rfl
  have hnot : ¬ (args.closeFill position id valid).fillType = .entry := by simp [htype]
  -- both indices of exits have the same keys
  have hfillNew : s.closeFillIdIndex.get? args.orderId = none := by
    cases hget : s.closeFillIdIndex.get? args.orderId with
    | none => rfl
    | some fillId =>
        obtain ⟨fill, hfill, hkind, hkey, -⟩ := (h.exitFills _ _).mp hget
        exact absurd hkey (h.exits.notMem hexit.newOrder hfill hkind)
  exact ⟨h.entries.append_other hnot, h.exits.append htype hexit.newOrder,
    h.exitFills.append htype hfillNew⟩

theorem OrdersIndexed.apply (h : OrdersIndexed s) (op : LedgerOp) (hfresh : FreshId s op) :
    OrdersIndexed (s.apply dateKey op) :=
  apply_rule hfresh h (fun _ valid hcase => h.booked valid hcase)
    (fun _ _ _ valid hcase => h.exited valid hcase)
    (fun _ _ => ⟨h.entries, h.exits, h.exitFills⟩)

/-! ## Repeated orders -/

/-- An opening call with the order id of an entry fill changes nothing. -/
theorem open_repeated (h : OrdersIndexed s) {args : OpenArgs}
    (hused : ∃ fill ∈ s.fills, fill.fillType = .entry ∧ fill.orderId = args.orderId) :
    ((openPositionBody args).call s).2 = s := by
  obtain ⟨existing, hexisting⟩ := (h.entries.contains_iff args.orderId).mpr hused
  rw [call_openPositionBody, outcome_state]
  cases hcall : openPosition s args with
  | error e => rfl
  | ok found =>
      obtain ⟨next, position⟩ := found
      rcases openPosition_cases hcall with hsame | ⟨-, -, -, -, -, hnone, -⟩
      · exact hsame
      · rw [hexisting] at hnone
        cases hnone

/-- A closing call with the order id of an exit fill changes nothing. -/
theorem close_repeated (h : OrdersIndexed s) {args : CloseArgs}
    (hused : ∃ fill ∈ s.fills, fill.fillType = .exit ∧ fill.orderId = args.orderId) :
    ((closePositionBody dateKey args).call s).2 = s := by
  obtain ⟨existing, hexisting⟩ := (h.exits.contains_iff args.orderId).mpr hused
  rw [call_closePositionBody, outcome_state]
  cases hcall : closePosition dateKey s args with
  | error e => rfl
  | ok found =>
      obtain ⟨next, position⟩ := found
      rcases closePosition_cases hcall with hsame | ⟨_, _, _, -, -, -, -, -, -, -, hnone⟩
      · exact hsame
      · rw [hexisting] at hnone
        cases hnone

/-! ## The token index -/

/-- The token index maps exactly the mints with an open position, to that position. -/
theorem WellFormed.tokenIndex_iff (h : WellFormed s) (mint id : String) :
    s.tokenIndex.get? mint = some id ↔
      ∃ p, s.positions.get? id = some p ∧ p.tokenMint = mint ∧ p.status = .opened := by
  constructor
  · intro hget
    exact (h.indexOpen mint id hget).2
  · rintro ⟨p, hget, rfl, hopen⟩
    exact h.openIndexed id p hget hopen

/-- A mint has at most one open position. -/
theorem WellFormed.open_unique (h : WellFormed s) {i j : String} {p q : PositionRecord}
    (hp : s.positions.get? i = some p) (hq : s.positions.get? j = some q)
    (hopenp : p.status = .opened) (hopenq : q.status = .opened)
    (hmint : p.tokenMint = q.tokenMint) : i = j := by
  have hi := h.openIndexed i p hp hopenp
  have hj := h.openIndexed j q hq hopenq
  rw [hmint, hj] at hi
  exact (Option.some.inj hi).symm

/-! ## Runs -/

/-- What the indices guarantee in one state. -/
structure IndexRules (dateKey : Time → String) (s : LedgerState) : Prop where
  /-- the token index holds exactly the mints with an open position -/
  tokens : ∀ mint id, s.tokenIndex.get? mint = some id ↔
    ∃ p, s.positions.get? id = some p ∧ p.tokenMint = mint ∧ p.status = .opened
  /-- no mint has two open positions -/
  unique : ∀ i j p q, s.positions.get? i = some p → s.positions.get? j = some q →
    p.status = .opened → q.status = .opened → p.tokenMint = q.tokenMint → i = j
  /-- an indexed entry order names a position with an entry fill of that order -/
  entryOrders : ∀ orderId id, s.orderIdIndex.get? orderId = some id →
    (∃ p, s.positions.get? id = some p) ∧
    ∃ fill ∈ s.fills, fill.fillType = .entry ∧ fill.orderId = orderId ∧ fill.positionId = id
  /-- an indexed exit order names a position with an exit fill of that order, and that fill -/
  exitOrders : ∀ orderId id, s.closeOrderIdIndex.get? orderId = some id →
    (∃ p, s.positions.get? id = some p) ∧
    ∃ fill ∈ s.fills, fill.fillType = .exit ∧ fill.orderId = orderId ∧ fill.positionId = id ∧
      s.closeFillIdIndex.get? orderId = some fill.fillId
  /-- a repeated order id of the same operation changes nothing -/
  openRepeated : ∀ args : OpenArgs,
    (∃ fill ∈ s.fills, fill.fillType = .entry ∧ fill.orderId = args.orderId) →
    ((openPositionBody args).call s).2 = s
  closeRepeated : ∀ args : CloseArgs,
    (∃ fill ∈ s.fills, fill.fillType = .exit ∧ fill.orderId = args.orderId) →
    ((closePositionBody dateKey args).call s).2 = s
  /-- a call that raises changes nothing -/
  openRaises : ∀ args e, ((openPositionBody args).call s).1 = .error e →
    ((openPositionBody args).call s).2 = s
  closeRaises : ∀ args e, ((closePositionBody dateKey args).call s).1 = .error e →
    ((closePositionBody dateKey args).call s).2 = s

theorem IndexRules.of_invariants (dateKey : Time → String) (hwf : WellFormed s)
    (horders : OrdersIndexed s) : IndexRules dateKey s where
  tokens := hwf.tokenIndex_iff
  unique := fun _ _ _ _ hp hq hopenp hopenq hmint => hwf.open_unique hp hq hopenp hopenq hmint
  entryOrders := by
    intro orderId id hget
    obtain ⟨fill, hfill, hkind, horder, rfl⟩ := (horders.entries orderId id).mp hget
    exact ⟨hwf.fillPosition fill hfill, fill, hfill, hkind, horder, rfl⟩
  exitOrders := by
    intro orderId id hget
    obtain ⟨fill, hfill, hkind, horder, rfl⟩ := (horders.exits orderId id).mp hget
    have hindexed := (horders.exitFills orderId fill.fillId).mpr ⟨fill, hfill, hkind, horder, rfl⟩
    exact ⟨hwf.fillPosition fill hfill, fill, hfill, hkind, horder, rfl, hindexed⟩
  openRepeated := fun _ hused => open_repeated horders hused
  closeRepeated := fun _ hused => close_repeated horders hused
  openRaises := by
    intro args e herror
    rw [call_openPositionBody] at herror ⊢
    exact state_of_raise herror
  closeRaises := by
    intro args e herror
    rw [call_closePositionBody] at herror ⊢
    exact state_of_raise herror

/-- After every run of opening and closing calls and marks that started with an empty ledger and
gave new positions fresh ids, the indices keep their rules. -/
theorem run_indices (dateKey : Time → String) (starting : ℚ) (ops : List LedgerOp)
    (hrun : Along FreshId (LedgerState.perform dateKey) (LedgerState.init starting) ops) :
    IndexRules dateKey (exec (LedgerState.perform dateKey) (LedgerState.init starting) ops) := by
  have h := hrun.invariant (I := fun s => WellFormed s ∧ OrdersIndexed s)
    (fun s op h hfresh => by
      rw [perform_eq_apply]
      exact ⟨h.1.apply op hfresh, h.2.apply op hfresh⟩)
    ⟨WellFormed.init starting, OrdersIndexed.init starting⟩
  exact IndexRules.of_invariants dateKey h.1 h.2

theorem run_indices_twoExits :
    IndexRules (fun _ => "day")
      (exec (LedgerState.perform fun _ => "day") (LedgerState.init 500) twoExits) :=
  run_indices (fun _ => "day") 500 twoExits (by decide +kernel)

end SniperBot.Ledger
