import SniperBot.Ledger.State

/-!
# The ledger's methods, assignment by assignment

`openPosition` and `closePosition` build the next state in one piece. The methods of
`PaperLedger` assign one field after another: a call that raised in between would keep what it
had assigned. `openPositionBody` and `closePositionBody` follow the source in this order, and a
raise keeps the assignments made before it. The position of a close is the object stored in
`positions`, so its fields change in place.

* `call_openPositionBody`, `call_closePositionBody`: the bodies return and leave what
  `openPosition` and `closePosition` say. In particular every raise comes before the first
  assignment.
-/

namespace SniperBot.Ledger

open Basis

variable {s : LedgerState} {α β : Type}

/-! ## Method bodies -/

/-- A method body: it may raise, and what it assigned before stays assigned. -/
abbrev LedgerM := ExceptT LedgerError (StateM LedgerState)

/-- Call a method in a state. -/
def LedgerM.call (body : LedgerM α) (s : LedgerState) : Except LedgerError α × LedgerState :=
  (body.run.run s).run

@[simp] theorem call_pure (a : α) : LedgerM.call (pure a) s = (.ok a, s) := rfl

@[simp] theorem call_get_bind (f : LedgerState → LedgerM β) :
    LedgerM.call (get >>= f) s = (f s).call s := rfl

@[simp] theorem call_modify (g : LedgerState → LedgerState) :
    LedgerM.call (modify g) s = (.ok (), g s) := rfl

@[simp] theorem call_modify_bind (g : LedgerState → LedgerState) (f : Unit → LedgerM β) :
    LedgerM.call (modify g >>= f) s = (f ()).call (g s) := rfl

theorem call_bind (x : LedgerM α) (f : α → LedgerM β) :
    LedgerM.call (x >>= f) s =
      match x.call s with
      | (.ok a, next) => (f a).call next
      | (.error e, next) => (.error e, next) := by
  show (match x s with | (r, next) => ExceptT.bindCont f r next) = _
  have hcall : x.call s = x s := rfl
  rw [hcall]
  rcases x s with ⟨_ | _, next⟩ <;> rfl

theorem call_bind_ok {x : LedgerM α} {a : α} {next : LedgerState} (h : x.call s = (.ok a, next))
    (f : α → LedgerM β) : LedgerM.call (x >>= f) s = (f a).call next := by
  rw [call_bind, h]

theorem call_bind_error {x : LedgerM α} {e : LedgerError} {next : LedgerState}
    (h : x.call s = (.error e, next)) (f : α → LedgerM β) :
    LedgerM.call (x >>= f) s = (.error e, next) := by
  rw [call_bind, h]

/-- `if condition: raise` -/
def raiseIf (condition : Prop) [Decidable condition] (e : LedgerError) : LedgerM Unit :=
  if condition then throw e else pure ()

theorem call_raiseIf_bind (condition : Prop) [Decidable condition] (e : LedgerError)
    (f : Unit → LedgerM β) :
    (raiseIf condition e >>= f).call s = if condition then (.error e, s) else (f ()).call s := by
  unfold raiseIf
  split
  · exact call_bind_error rfl f
  · exact call_bind_ok rfl f

/-- `state.positions[position_id]` -/
def storedPosition (positionId : String) : LedgerM PositionRecord := do
  match (← get).positions.get? positionId with
  | some position => return position
  | none => throw .missingKey

theorem call_storedPosition (positionId : String) :
    (storedPosition positionId).call s =
      match s.positions.get? positionId with
      | some position => (.ok position, s)
      | none => (.error .missingKey, s) := by
  unfold storedPosition
  rw [call_get_bind]
  cases s.positions.get? positionId <;> rfl

theorem call_stored {positionId : String} {position : PositionRecord}
    (h : s.positions.get? positionId = some position) :
    (storedPosition positionId).call s = (.ok position, s) := by
  rw [call_storedPosition, h]

/-- Build a `FillRecord`; the model validates its cost columns. -/
def fillRecord {costs : FillCosts} (build : costs.Valid → FillRecord) : LedgerM FillRecord :=
  if valid : costs.Valid then return build valid else throw .invalidFill

/-- Assign to fields of the stored position object. -/
def assignPosition (positionId : String) (f : PositionRecord → PositionRecord) : LedgerM Unit :=
  modify fun s => { s with positions := s.positions.update positionId f }

/-! ## `open_position` -/

def openPositionBody (args : OpenArgs) : LedgerM PositionRecord := do
  raiseIf (args.usdAmount ≤ 0) .usdAmountNotPositive
  raiseIf (args.tokenAmount ≤ 0) .tokenAmountNotPositive
  match (← get).orderIdIndex.get? args.orderId with
  | some existing => storedPosition existing
  | none =>
      match (← get).tokenPosition args.tokenMint with
      | some existing => storedPosition existing
      | none =>
          let entryFill ← fillRecord args.entryFill
          let position := args.newPosition
          modify fun s => { s with fills := s.fills ++ [entryFill] }
          modify fun s => { s with positions := s.positions.set args.positionId position }
          modify fun s => { s with orderIdIndex := s.orderIdIndex.set args.orderId args.positionId }
          modify fun s => { s with tokenIndex := s.tokenIndex.set args.tokenMint args.positionId }
          modify fun s => { s with lockedCapitalUsd := s.lockedCapitalUsd + args.entryCost }
          return position

/-! ## `close_position` -/

/-- The assignments to the position before the test for a full close; `position` holds the
fields as they were before. -/
def reducePosition (args : CloseArgs) (positionId : String) (position : PositionRecord) :
    LedgerM Unit := do
  assignPosition positionId fun p =>
    { p with remainingCostUsd := p.remainingCostUsd - args.proportionalCost position }
  assignPosition positionId fun p =>
    { p with remainingTokenAmount := p.remainingTokenAmount - args.tokenClosed }
  assignPosition positionId fun p =>
    { p with realizedPnlUsd := p.realizedPnlUsd + args.realizedDelta position }
  assignPosition positionId fun p =>
    { p with lastExecutableValueUsd := p.lastExecutableValueUsd * args.remainingFraction position }
  assignPosition positionId fun p =>
    { p with
      highestExecutableValueUsd := p.highestExecutableValueUsd * args.remainingFraction position }
  assignPosition positionId fun p =>
    { p with
      lowestExecutableValueUsd :=
        p.lowestExecutableValueUsd.map (· * args.remainingFraction position) }
  assignPosition positionId fun p =>
    { p with peakUnrealizedUsd := p.peakUnrealizedUsd * args.remainingFraction position }
  if args.exitReason = some "TP1" then assignPosition positionId fun p => { p with tp1Taken := true }
  else if args.exitReason = some "TP2" then
    assignPosition positionId fun p => { p with tp2Taken := true }
  else return ()

/-- The test for a full close and its assignments. -/
def finishPosition (args : CloseArgs) (positionId : String) : LedgerM Unit := do
  let position ← storedPosition positionId
  if position.remainingTokenAmount ≤ 0 then
    assignPosition positionId fun p => { p with status := .closed }
    assignPosition positionId fun p => { p with closedAt := some args.createdAt }
    modify fun s => { s with tokenIndex := s.tokenIndex.erase args.tokenMint }
    assignPosition positionId fun p =>
      { p with finalExitReason := some ((args.exitReason.filter (· ≠ "")).getD "UNKNOWN_EXIT") }
  else return ()

/-- The part of `close_position` that books the exit. -/
def bookClosingFill (dateKey : Time → String) (args : CloseArgs) (positionId : String)
    (position : PositionRecord) : LedgerM PositionRecord := do
  let closeFill ← fillRecord (args.closeFill position positionId)
  modify fun s => { s with fills := s.fills ++ [closeFill] }
  reducePosition args positionId position
  modify fun s => { s with realizedPnlUsd := s.realizedPnlUsd + args.realizedDelta position }
  modify fun s => { s with unrealizedPnlUsd := s.unrealizedPnlUsd - args.closedUnrealized position }
  modify fun s => { s with lockedCapitalUsd := s.lockedCapitalUsd - args.proportionalCost position }
  finishPosition args positionId
  modify fun s =>
    { s with
      equityUsd := s.equityUsd + (args.realizedDelta position - args.closedUnrealized position) }
  let today := dateKey args.createdAt
  modify fun s =>
    { s with
      dailyPnl :=
        s.dailyPnl.set today ((s.dailyPnl.get? today).getD 0 + args.realizedDelta position) }
  modify fun s => { s with peakEquityUsd := max s.peakEquityUsd s.equityUsd }
  let stored ← storedPosition positionId
  modify fun s => { s with positions := s.positions.set positionId stored }
  modify fun s => { s with closeOrderIdIndex := s.closeOrderIdIndex.set args.orderId positionId }
  modify fun s =>
    { s with closeFillIdIndex := s.closeFillIdIndex.set args.orderId args.closeFillId }
  return stored

def closePositionBody (dateKey : Time → String) (args : CloseArgs) : LedgerM PositionRecord := do
  raiseIf (args.usdReceived < 0 ∨ args.tokenClosed < 0) .negativeAmount
  raiseIf (args.tokenClosed = 0) .tokenClosedNotPositive
  match (← get).closeOrderIdIndex.get? args.orderId with
  | some existing => storedPosition existing
  | none =>
      match (← get).tokenPosition args.tokenMint with
      | none => throw .positionNotFound
      | some positionId =>
          let position ← storedPosition positionId
          if position.status ≠ .opened then return position
          else
            raiseIf (args.tokenClosed > position.remainingTokenAmount) .tokenClosedExceedsRemaining
            bookClosingFill dateKey args positionId position

/-! ## The bodies compute the operations -/

/-- What a caller sees of an operation: an operation that raises leaves the state. -/
def outcome (s : LedgerState) :
    Except LedgerError (LedgerState × PositionRecord) → Except LedgerError PositionRecord × LedgerState
  | .ok (next, position) => (.ok position, next)
  | .error e => (.error e, s)

/-- Looking up a position that an index names. -/
theorem call_existing (existing : String) :
    (storedPosition existing).call s = outcome s (do return (s, ← s.position existing)) := by
  rw [call_storedPosition]
  unfold LedgerState.position
  cases s.positions.get? existing <;> rfl

theorem call_openPositionBody (s : LedgerState) (args : OpenArgs) :
    (openPositionBody args).call s = outcome s (openPosition s args) := by
  unfold openPositionBody openPosition
  rw [call_raiseIf_bind]
  split
  · rfl
  · rw [call_raiseIf_bind]
    split
    · rfl
    · rw [call_get_bind]
      cases s.orderIdIndex.get? args.orderId with
      | some existing => exact call_existing existing
      | none =>
          simp only [call_get_bind]
          cases s.tokenPosition args.tokenMint with
          | some existing => exact call_existing existing
          | none =>
              by_cases valid : args.costs.Valid
              · simp only [fillRecord, dif_pos valid]
                rfl
              · simp only [fillRecord, dif_neg valid]
                rfl

section Exit

variable {id : String} {position : PositionRecord}

/-- The assignments to a stored position add up to `reduced`. -/
theorem call_reducePosition (args : CloseArgs) (hstored : s.positions.get? id = some position) :
    (reducePosition args id position).call s =
      (.ok (), { s with positions := s.positions.set id (args.reduced position) }) := by
  unfold reducePosition assignPosition CloseArgs.reduced
  simp only [call_modify_bind, Dict.update_eq_set hstored, Dict.update_set]
  by_cases h1 : args.exitReason = some "TP1"
  · simp [h1, call_modify]
  · have hno1 : (args.exitReason == some "TP1") = false := beq_eq_false_iff_ne.mpr h1
    by_cases h2 : args.exitReason = some "TP2"
    · simp [h2, call_modify]
    · have hno2 : (args.exitReason == some "TP2") = false := beq_eq_false_iff_ne.mpr h2
      simp [h1, h2, hno1, hno2]

theorem call_finishPosition {args : CloseArgs}
    (hstored : s.positions.get? id = some (args.reduced position)) :
    (finishPosition args id).call s =
      (.ok (),
        { s with
          positions := s.positions.set id (args.closedPosition position)
          tokenIndex :=
            if args.Final position then s.tokenIndex.erase args.tokenMint else s.tokenIndex }) := by
  unfold finishPosition CloseArgs.closedPosition assignPosition
  rw [call_bind_ok (call_stored hstored)]
  by_cases hfinal : args.Final position
  · have hspent : (args.reduced position).remainingTokenAmount ≤ 0 := hfinal
    rw [if_pos hspent, if_pos hfinal, if_pos hfinal]
    simp only [call_modify_bind, call_modify, Dict.update_eq_set hstored, Dict.update_set]
  · have hleft : ¬ (args.reduced position).remainingTokenAmount ≤ 0 := hfinal
    rw [if_neg hleft, if_neg hfinal, if_neg hfinal, Dict.set_get? hstored]
    rfl

theorem call_bookClosingFill (dateKey : Time → String) {args : CloseArgs}
    (hstored : s.positions.get? id = some position) (valid : args.costs.Valid) :
    (bookClosingFill dateKey args id position).call s =
      (.ok (args.closedPosition position), s.exited dateKey args id position valid) := by
  -- the position object during the call: as found, reduced, and as it is returned
  have hreduce := call_reducePosition
    (s := { s with fills := s.fills ++ [args.closeFill position id valid] }) args hstored
  have hreduced : ∀ t : LedgerState, t.positions = s.positions.set id (args.reduced position) →
      t.positions.get? id = some (args.reduced position) := by
    intro t ht
    rw [ht, Dict.get?_set_self]
  have hclosed : ∀ t : LedgerState,
      t.positions = (s.positions.set id (args.reduced position)).set id
        (args.closedPosition position) →
      t.positions.get? id = some (args.closedPosition position) := by
    intro t ht
    rw [ht, Dict.get?_set_self]
  unfold bookClosingFill fillRecord
  rw [dif_pos valid, pure_bind, call_modify_bind, call_bind_ok hreduce]
  simp only [call_modify_bind]
  rw [call_bind_ok (call_finishPosition (hreduced _ rfl))]
  simp only [call_modify_bind]
  rw [call_bind_ok (call_stored (hclosed _ rfl))]
  simp only [call_modify_bind, call_pure, Dict.set_set]
  rfl

end Exit

theorem call_closePositionBody (dateKey : Time → String) (s : LedgerState) (args : CloseArgs) :
    (closePositionBody dateKey args).call s = outcome s (closePosition dateKey s args) := by
  unfold closePositionBody closePosition
  rw [call_raiseIf_bind]
  split
  · rfl
  · rw [call_raiseIf_bind]
    split
    · rfl
    · rw [call_get_bind]
      cases s.closeOrderIdIndex.get? args.orderId with
      | some existing => exact call_existing existing
      | none =>
          simp only [call_get_bind]
          cases s.tokenPosition args.tokenMint with
          | none => rfl
          | some id =>
              cases hstored : s.positions.get? id with
              | none =>
                  have hmissing : (storedPosition id).call s = (.error .missingKey, s) := by
                    rw [call_storedPosition, hstored]
                  simp only [call_bind_error hmissing, LedgerState.position, hstored]
                  rfl
              | some position =>
                  simp only [call_bind_ok (call_stored hstored), LedgerState.position, hstored]
                  by_cases hopen : position.status = .opened
                  · rw [if_neg (not_not.mpr hopen), call_raiseIf_bind]
                    simp only [bind, Except.bind, if_neg (not_not.mpr hopen)]
                    split
                    · rfl
                    · by_cases valid : args.costs.Valid
                      · rw [call_bookClosingFill dateKey hstored valid, dif_pos valid]
                        rfl
                      · rw [dif_neg valid, bookClosingFill, fillRecord, dif_neg valid]
                        rfl
                  · rw [if_pos hopen]
                    simp only [bind, Except.bind, if_pos hopen]
                    rfl

end SniperBot.Ledger
