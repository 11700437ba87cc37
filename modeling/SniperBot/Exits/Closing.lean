import SniperBot.Exits.Engine
import SniperBot.Paper.Traces

/-!
# Closes of the exit loop

The calls of `PaperBroker.close` in `evaluate_and_close_exits` (`runtime.py`): one for a position
whose quote has failed for too long, and one for every decision to exit. Both derive the order id
from the position and the reason, so that a repeated call is answered with the first fill.

The reason that the broker records is not always the one that was decided: without a sell quote it
is `UNRECOVERABLE`, and the flags of the take-profits stay as they are. A take-profit that sells a
part without a quote is decided again and then answered with the old fill
(`unquoted_tp1_swallowed`). As long as every partial close finds a quote, a close that returns has
sold exactly the decided fraction (`run_closes`): `Labelled` says what a used order id means for its
position.
-/

namespace SniperBot.Exits

open Basis Ledger Risk Paper

/-! ## Order ids -/

/-- `f"exit:{position_id}:{reason}"` -/
def exitOrder (positionId reason : String) : String := "exit:" ++ positionId ++ ":" ++ reason

/-- `f"entry:{candidate_id}"` -/
def entryOrder (candidateId : String) : String := "entry:" ++ candidateId

/-- The reasons in the order ids of the exit loop. -/
def exitCodes : List String :=
  ["TP1", "TP2", "STOP_LOSS", "TRAILING_STOP", "MOMENTUM_EXIT", "TIME_STOP", "EMERGENCY",
    "UNRECOVERABLE"]

/-- The text after the last colon of a list of characters. -/
theorem append_colon_inj {a b r r' : List Char} (hr : ':' ∉ r) (hr' : ':' ∉ r')
    (h : a ++ ':' :: r = b ++ ':' :: r') : a = b ∧ r = r' := by
  induction a generalizing b with
  | nil =>
      cases b with
      | nil => exact ⟨rfl, List.tail_eq_of_cons_eq h⟩
      | cons c b =>
          -- the colon of the right side would be in `r`
          have hmem : ':' ∈ r := by
            rw [List.tail_eq_of_cons_eq h]
            simp
          exact absurd hmem hr
  | cons c a ih =>
      cases b with
      | nil =>
          have hmem : ':' ∈ r' := by
            rw [← List.tail_eq_of_cons_eq h]
            simp
          exact absurd hmem hr'
      | cons d b =>
          obtain ⟨rfl, htail⟩ := List.cons_eq_cons.mp h
          obtain ⟨rfl, rfl⟩ := ih htail
          exact ⟨rfl, rfl⟩

theorem exitCodes_no_colon {code : String} (h : code ∈ exitCodes) : ':' ∉ code.toList := by
  revert code
  decide +kernel

/-- Position and reason of an exit order are determined by its id. -/
theorem exitOrder_inj {id id' code code' : String} (hcode : code ∈ exitCodes)
    (hcode' : code' ∈ exitCodes) (h : exitOrder id code = exitOrder id' code') :
    id = id' ∧ code = code' := by
  have hlist := congrArg String.toList h
  simp only [exitOrder, String.toList_append] at hlist
  rw [List.append_assoc, List.append_assoc, List.append_assoc, List.append_assoc] at hlist
  have hrest := List.append_cancel_left hlist
  obtain ⟨hid, hreason⟩ := append_colon_inj (exitCodes_no_colon hcode) (exitCodes_no_colon hcode')
    hrest
  exact ⟨String.toList_injective hid, String.toList_injective hreason⟩

theorem entryOrder_ne_exitOrder (candidateId id code : String) :
    entryOrder candidateId ≠ exitOrder id code := by
  intro h
  have hlist := congrArg (fun text => text.toList[1]?) h
  simp [entryOrder, exitOrder, String.toList_append] at hlist

theorem exitOrder_ne_empty (id code : String) : exitOrder id code ≠ "" := by
  intro h
  have hlist := congrArg String.toList h
  simp [exitOrder, String.toList_append] at hlist

theorem entryOrder_ne_empty (candidateId : String) : entryOrder candidateId ≠ "" := by
  intro h
  have hlist := congrArg String.toList h
  simp [entryOrder, String.toList_append] at hlist

/-! ## The calls -/

/-- What a close gets from its environment: ids, the clock, and the sell quote that its retry loop
ends with. -/
structure CloseDraw where
  fillId : String
  quoteId : String
  filledAt : Time
  quote : Option ExecutableQuote

/-- A close of the exit loop: the fraction of the position to sell, and the reason. -/
structure ExitClose where
  position : PositionRecord
  code : String
  fraction : ℚ
  draw : CloseDraw

def ExitClose.request (close : ExitClose) : CloseRequest where
  tokenMint := close.position.tokenMint
  tokenAmount := close.position.remainingTokenAmount * close.fraction
  orderId := some (exitOrder close.position.positionId close.code)
  exitReason := some close.code
  drawnOrderId := ""
  fillId := close.draw.fillId
  quoteId := close.draw.quoteId
  filledAt := close.draw.filledAt
  quote := close.draw.quote

inductive ExitOp
  /-- an entry of the candidate loop -/
  | openPosition (req : OpenRequest)
  | mark (quotes : Dict String ExecutableQuote) (now : Time)
  /-- the quote of the position has failed for too long -/
  | giveUp (positionId : String) (draw : CloseDraw)
  /-- the position is evaluated at the price of its quote -/
  | exit (positionId : String) (price : ℚ) (now : Time) (momentumExit emergencyExit : Bool)
      (draw : CloseDraw)

/-- The close that the exit loop makes, if any. -/
def ExitOp.close (policy : ExitPolicy) (ledger : LedgerState) : ExitOp → Option ExitClose
  | .openPosition _ | .mark _ _ => none
  | .giveUp positionId draw =>
      (ledger.positions.get? positionId).map fun position =>
        ⟨position, "UNRECOVERABLE", 1, draw⟩
  | .exit positionId price now momentumExit emergencyExit draw =>
      (ledger.positions.get? positionId).bind fun position =>
        let decision := evaluateExit policy position price now momentumExit emergencyExit
        if decision.shouldExit then
          some ⟨position, decision.reason.value, decision.closeFraction, draw⟩
        else none

/-- The state after an operation. -/
def applyExit (config : BrokerConfig) (policy : ExitPolicy) (s : BrokerState) (op : ExitOp) :
    BrokerState :=
  match op.close policy s.ledger with
  | some close => (brokerClose config s close.request).2
  | none => match op with
    | .openPosition req => (brokerOpen config s req).2
    | .mark quotes now => markUpdate config s quotes now
    | .giveUp .. | .exit .. => s

/-- Entries come with the order id of their candidate and a position id. -/
def EntryIds (_ : BrokerState) : ExitOp → Prop
  | .openPosition req =>
      (∃ candidateId ∈ req.candidateId, req.orderId = some (entryOrder candidateId)) ∧
        req.positionId ≠ ""
  | _ => True

/-- A close of a part of the position finds a sell quote. -/
def PartsQuoted (policy : ExitPolicy) (s : BrokerState) (op : ExitOp) : Prop :=
  ∀ close ∈ op.close policy s.ledger, close.fraction < 1 → close.draw.quote ≠ none

instance (s : BrokerState) : (op : ExitOp) → Decidable (EntryIds s op)
  | .openPosition _ => inferInstanceAs (Decidable (_ ∧ _))
  | .mark _ _ | .giveUp _ _ | .exit .. => inferInstanceAs (Decidable True)

instance (policy : ExitPolicy) (s : BrokerState) (op : ExitOp) :
    Decidable (PartsQuoted policy s op) := by
  unfold PartsQuoted
  have hdec : ∀ close : ExitClose, Decidable (close.fraction < 1 → close.draw.quote ≠ none) :=
    fun close => match hquote : close.draw.quote with
      | none => decidable_of_iff (¬ close.fraction < 1) (by simp)
      | some _ => isTrue (by simp)
  infer_instance

/-! ## What a used order id means -/

/-- The exit with the reason is done with: the position is closed, or the take-profit is taken. -/
def Done (code : String) (position : PositionRecord) : Prop :=
  position.status = .closed ∨ (code = "TP1" ∧ position.tp1Taken = true) ∨
    (code = "TP2" ∧ position.tp2Taken = true)

/-- The order ids of a ledger tell entries from exits. -/
structure Sides (ledger : LedgerState) : Prop where
  entries : ∀ fill ∈ ledger.fills, fill.fillType = .entry →
    ∃ candidateId, fill.orderId = entryOrder candidateId
  exits : ∀ fill ∈ ledger.fills, fill.fillType = .exit →
    ∃ id code, fill.orderId = exitOrder id code

structure Labelled (ledger : LedgerState) : Prop where
  entries : ∀ fill ∈ ledger.fills, fill.fillType = .entry →
    ∃ candidateId, fill.orderId = entryOrder candidateId
  exits : ∀ fill ∈ ledger.fills, fill.fillType = .exit → ∃ code ∈ exitCodes,
    fill.orderId = exitOrder fill.positionId code ∧
      ∀ p, ledger.positions.get? fill.positionId = some p → Done code p

theorem Labelled.sides {ledger : LedgerState} (h : Labelled ledger) : Sides ledger := by
  refine ⟨h.entries, fun fill hfill htype => ?_⟩
  obtain ⟨code, -, horder, -⟩ := h.exits fill hfill htype
  exact ⟨fill.positionId, code, horder⟩

theorem Sides.oneSided_entry {ledger : LedgerState} (h : Sides ledger)
    (candidateId drawn : String) :
    OneSided ledger (some (entryOrder candidateId)) drawn .entry := by
  have hfilter : (some (entryOrder candidateId)).filter (fun text => decide (text ≠ "")) =
      some (entryOrder candidateId) := by
    simp [Option.filter, entryOrder_ne_empty]
  unfold OneSided
  rw [hfilter]
  intro fill hfill heq
  cases htype : fill.fillType with
  | entry => rfl
  | exit =>
      obtain ⟨id, code, horder⟩ := h.exits fill hfill htype
      exact absurd (heq.symm.trans horder) (entryOrder_ne_exitOrder _ _ _)

theorem oneSided_exit {ledger : LedgerState}
    (hentries : ∀ fill ∈ ledger.fills, fill.fillType = .entry →
      ∃ candidateId, fill.orderId = entryOrder candidateId) (id code drawn : String) :
    OneSided ledger (some (exitOrder id code)) drawn .exit := by
  have hfilter : (some (exitOrder id code)).filter (fun text => decide (text ≠ "")) =
      some (exitOrder id code) := by
    simp [Option.filter, exitOrder_ne_empty]
  unfold OneSided
  rw [hfilter]
  intro fill hfill heq
  cases htype : fill.fillType with
  | exit => rfl
  | entry =>
      obtain ⟨candidateId, hentry⟩ := hentries fill hfill htype
      exact absurd (hentry.symm.trans heq) (entryOrder_ne_exitOrder _ _ _)

theorem Sides.oneSided_exit {ledger : LedgerState} (h : Sides ledger) (id code drawn : String) :
    OneSided ledger (some (exitOrder id code)) drawn .exit :=
  Exits.oneSided_exit h.entries id code drawn

/-- A close that the exit loop can make. -/
structure ProperClose (ledger : LedgerState) (close : ExitClose) : Prop where
  stored : ∃ id, ledger.positions.get? id = some close.position
  code : close.code ∈ exitCodes
  fraction : close.fraction ≤ 1
  pending : close.position.status = .opened → ¬ Done close.code close.position
  whole : close.code ≠ "TP1" → close.code ≠ "TP2" → close.fraction = 1

theorem reason_value_codes {reason : ExitReason} (h : reason ≠ .noExit) :
    reason.value ∈ exitCodes := by
  cases reason with
  | noExit => exact absurd rfl h
  | _ => decide

theorem reason_value_tp1 {reason : ExitReason} : reason.value = "TP1" ↔ reason = .tp1 := by
  cases reason <;> decide

theorem reason_value_tp2 {reason : ExitReason} : reason.value = "TP2" ↔ reason = .tp2 := by
  cases reason <;> decide

theorem properClose {policy : ExitPolicy} {ledger : LedgerState} {op : ExitOp} {close : ExitClose}
    (h : op.close policy ledger = some close) : ProperClose ledger close := by
  cases op with
  | openPosition req => cases h
  | mark quotes now => cases h
  | giveUp positionId draw =>
      obtain ⟨position, hget, rfl⟩ := Option.map_eq_some_iff.mp h
      have hcode : "UNRECOVERABLE" ∈ exitCodes := by decide
      refine ⟨⟨positionId, hget⟩, hcode, le_rfl, fun hopen => ?_, fun _ _ => rfl⟩
      rintro (hclosed | ⟨htp, -⟩ | ⟨htp, -⟩)
      · dsimp only at hopen hclosed
        rw [hopen] at hclosed
        cases hclosed
      · exact absurd (show "UNRECOVERABLE" = "TP1" from htp) (by decide)
      · exact absurd (show "UNRECOVERABLE" = "TP2" from htp) (by decide)
  | exit positionId price now momentumExit emergencyExit draw =>
      obtain ⟨position, hget, hdecide⟩ := Option.bind_eq_some_iff.mp h
      dsimp only at hdecide
      split at hdecide
      · rename_i hexit
        cases hdecide
        have hspec := evaluateExit_spec hexit
        refine ⟨⟨positionId, hget⟩, reason_value_codes hspec.exits, hspec.le_one, fun hopen => ?_,
          fun h1 h2 => hspec.whole (fun heq => h1 (reason_value_tp1.mpr heq))
            (fun heq => h2 (reason_value_tp2.mpr heq))⟩
        rintro (hclosed | ⟨htp, htaken⟩ | ⟨htp, htaken⟩)
        · dsimp only at hopen hclosed
          rw [hopen] at hclosed
          cases hclosed
        · have hnot := hspec.tp1 (reason_value_tp1.mp htp)
          dsimp only at htaken
          rw [hnot] at htaken
          cases htaken
        · have hnot := hspec.tp2 (reason_value_tp2.mp htp)
          dsimp only at htaken
          rw [hnot] at htaken
          cases htaken
      · cases hdecide

/-! ## What the exit loop keeps -/

structure ExitRun (config : BrokerConfig) (s : BrokerState) : Prop where
  simulates : Simulates config s
  labelled : Labelled s.ledger

variable {config : BrokerConfig} {policy : ExitPolicy} {s : BrokerState} {close : ExitClose}

theorem ExitRun.stored (h : ExitRun config s) (hproper : ProperClose s.ledger close) :
    s.ledger.positions.get? close.position.positionId = some close.position := by
  obtain ⟨id, hget⟩ := hproper.stored
  rw [h.simulates.ids id _ hget]
  exact hget

/-- A position that sells tokens is open. -/
theorem ExitRun.opened (h : ExitRun config s) (hproper : ProperClose s.ledger close)
    (hamount : 0 < close.request.tokenAmount) : close.position.status = .opened := by
  cases hstatus : close.position.status with
  | opened => rfl
  | closed =>
      have hzero := (h.simulates.wellFormed.closedTokens _ _ (h.stored hproper) hstatus).1
      have hamount' : 0 < close.position.remainingTokenAmount * close.fraction := hamount
      rw [hzero, zero_mul] at hamount'
      exact absurd hamount' (lt_irrefl 0)

/-- The order id of a close of an open position is new. -/
theorem ExitRun.unused (h : ExitRun config s) (hproper : ProperClose s.ledger close)
    (hopen : close.position.status = .opened) :
    Unused s.ledger (exitOrder close.position.positionId close.code) := by
  intro fill hfill heq
  cases htype : fill.fillType with
  | entry =>
      obtain ⟨candidateId, hentry⟩ := h.labelled.entries fill hfill htype
      exact entryOrder_ne_exitOrder _ _ _ (hentry.symm.trans heq)
  | exit =>
      obtain ⟨code, hcode, horder, hdone⟩ := h.labelled.exits fill hfill htype
      obtain ⟨hid, rfl⟩ := exitOrder_inj hcode hproper.code (horder.symm.trans heq)
      exact hproper.pending hopen (hdone _ (hid ▸ h.stored hproper))

theorem request_order (close : ExitClose) :
    close.request.order = exitOrder close.position.positionId close.code := by
  simp [CloseRequest.order, chosenOrder, ExitClose.request, Option.filter, exitOrder_ne_empty]

/-- A call with nothing to sell raises. -/
theorem brokerClose_of_nonpos (h : ¬ 0 < close.request.tokenAmount) :
    brokerClose config s close.request =
      (.error (.invalid "token_amount must be greater 0"), s) := by
  unfold brokerClose
  exact if_pos (not_lt.mp h)

/-- A close of the exit loop raises and leaves the ledger, or books the exit. -/
theorem ExitRun.close_cases (h : ExitRun config s) (hproper : ProperClose s.ledger close) :
    ((brokerClose config s close.request).2.ledger = s.ledger ∧
      ∀ result, (brokerClose config s close.request).1 ≠ .ok result) ∨
    ∃ committed valid, Ledger.ExitCase s.ledger (close.request.closeArgs config committed)
        close.position.positionId close.position ∧
      (brokerClose config s close.request).2.ledger = s.ledger.exited config.zone.dateKey
        (close.request.closeArgs config committed) close.position.positionId close.position
        valid := by
  by_cases hamount : 0 < close.request.tokenAmount
  · have hopen := h.opened hproper hamount
    have hunused := h.unused hproper hopen
    rcases brokerClose_cases config s close.request with
      hstopped | ⟨committed, db, hreached, hbooked⟩
    · refine Or.inl ⟨by rw [hstopped.state], fun result hok => hstopped.answer result hok ?_⟩
      have hnone : fillByOrder s.ledger (exitOrder close.position.positionId close.code) = none := by
        refine List.find?_eq_none.mpr fun fill hfill => ?_
        simpa using hunused fill (List.mem_reverse.mp hfill)
      show ((some (exitOrder _ _)).bind (fillByOrder s.ledger)).filter _ = none
      rw [Option.bind_some, hnone]
      rfl
    · cases hbooked with
      | raised e outcome =>
          rw [outcome]
          exact Or.inl ⟨rfl, by rintro _ ⟨⟩⟩
      | booked ledger position result closed outcome =>
          right
          obtain ⟨p, hp, hmint, havailable⟩ := hreached.found
          obtain ⟨id, hid, hpopen⟩ := mem_openPositions.mp hp
          have hindexed := h.simulates.wellFormed.openIndexed _ _ (h.stored hproper) hopen
          -- the open position of the mint is the one of the close
          have hsame : id = close.position.positionId := by
            have hother := h.simulates.wellFormed.openIndexed id p hid hpopen
            rw [hmint, show close.request.tokenMint = close.position.tokenMint from rfl,
              hindexed] at hother
            exact (Option.some.inj hother).symm
          subst hsame
          rw [h.stored hproper] at hid
          cases hid
          have hcase : Ledger.ExitCase s.ledger (close.request.closeArgs config committed)
              close.position.positionId close.position :=
            ⟨hindexed, h.stored hproper, hopen, close.request.sellPriceUsd_nonneg config, hamount,
              havailable, h.simulates.newExit (by
                show Unused s.ledger close.request.order
                rw [request_order]
                exact hunused)⟩
          have hvalid := close.request.closeArgs_valid config committed
          refine ⟨committed, hvalid, hcase, ?_⟩
          rw [hcase.closePosition_eq config.zone.dateKey h.simulates.wellFormed hvalid] at closed
          cases closed
          rw [outcome]
  · left
    rw [brokerClose_of_nonpos hamount]
    exact ⟨rfl, by rintro _ ⟨⟩⟩

/-! ### Closes -/

section Close

variable {committed : Committed}

/-- An exit keeps what is done. -/
theorem Done.closedPosition {code : String} {p : PositionRecord} {args : CloseArgs}
    (h : Done code p) (hopen : p.status = .opened) : Done code (args.closedPosition p) := by
  have htp1 : (args.closedPosition p).tp1Taken = (p.tp1Taken || args.exitReason == some "TP1") := by
    unfold CloseArgs.closedPosition
    split <;> rfl
  have htp2 : (args.closedPosition p).tp2Taken = (p.tp2Taken || args.exitReason == some "TP2") := by
    unfold CloseArgs.closedPosition
    split <;> rfl
  rcases h with hclosed | ⟨hcode, htaken⟩ | ⟨hcode, htaken⟩
  · rw [hopen] at hclosed
    cases hclosed
  · exact Or.inr (Or.inl ⟨hcode, by rw [htp1, htaken]; rfl⟩)
  · exact Or.inr (Or.inr ⟨hcode, by rw [htp2, htaken]; rfl⟩)

/-- The whole position is sold. -/
theorem final_of_whole (h : close.fraction = 1) :
    (close.request.closeArgs config committed).Final close.position := by
  show close.position.remainingTokenAmount -
    close.position.remainingTokenAmount * close.fraction ≤ 0
  rw [h, mul_one, sub_self]

/-- With a quote for every part, a booked exit is done. -/
theorem done_of_quoted (hproper : ProperClose s.ledger close)
    (hopen : close.position.status = .opened)
    (hquoted : close.fraction < 1 → close.draw.quote ≠ none) :
    Done close.code ((close.request.closeArgs config committed).closedPosition close.position) := by
  by_cases hpart : close.fraction < 1
  · -- a part: a take-profit under its own reason
    have hreason : (close.request.closeArgs config committed).exitReason =
        some close.request.finalReason := rfl
    have hfinal : close.request.finalReason = close.code := by
      obtain ⟨quote, hquote⟩ := Option.ne_none_iff_exists'.mp (hquoted hpart)
      have hcode : close.code ≠ "" := by
        intro hempty
        have hmem := hproper.code
        rw [hempty] at hmem
        exact absurd hmem (by decide)
      unfold CloseRequest.finalReason
      rw [show close.request.quote = some quote from hquote]
      simp [ExitClose.request, Option.filter, hcode]
    by_cases h1 : close.code = "TP1"
    · refine Or.inr (Or.inl ⟨h1, ?_⟩)
      unfold CloseArgs.closedPosition
      split <;> simp [CloseArgs.reduced, hreason, hfinal, h1]
    · by_cases h2 : close.code = "TP2"
      · refine Or.inr (Or.inr ⟨h2, ?_⟩)
        unfold CloseArgs.closedPosition
        split <;> simp [CloseArgs.reduced, hreason, hfinal, h2]
      · exact absurd (hproper.whole h1 h2) hpart.ne
  · left
    rw [closedPosition_status hopen,
      if_pos (final_of_whole (le_antisymm hproper.fraction (not_lt.mp hpart)))]

theorem Labelled.exited (h : Labelled s.ledger) (hproper : ProperClose s.ledger close)
    (hquoted : close.fraction < 1 → close.draw.quote ≠ none) (dateKey : Time → String)
    (valid : (close.request.closeArgs config committed).costs.Valid)
    (hcase : Ledger.ExitCase s.ledger (close.request.closeArgs config committed)
      close.position.positionId close.position) :
    Labelled (s.ledger.exited dateKey (close.request.closeArgs config committed)
      close.position.positionId close.position valid) := by
  constructor
  · intro fill hfill htype
    rcases List.mem_append.mp hfill with hold | hnew
    · exact h.entries fill hold htype
    · rw [List.mem_singleton.mp hnew] at htype
      cases htype
  · intro fill hfill htype
    rcases List.mem_append.mp hfill with hold | hnew
    · obtain ⟨code, hcode, horder, hdone⟩ := h.exits fill hold htype
      refine ⟨code, hcode, horder, fun p hget => ?_⟩
      rcases hcase.stored_cases hget with ⟨hid, rfl⟩ | ⟨-, hget⟩
      · exact (hdone close.position (hid ▸ hcase.stored)).closedPosition hcase.opened
      · exact hdone p hget
    · rw [List.mem_singleton.mp hnew]
      refine ⟨close.code, hproper.code, request_order close, fun p hget => ?_⟩
      rcases hcase.stored_cases hget with ⟨-, rfl⟩ | ⟨hne, -⟩
      · exact done_of_quoted hproper hcase.opened hquoted
      · exact absurd rfl hne

end Close

/-- Without a quote the close sells the whole position. -/
theorem ExitRun.sellsAll (h : ExitRun config s) (hproper : ProperClose s.ledger close)
    (hopen : close.position.status = .opened)
    (hquoted : close.fraction < 1 → close.draw.quote ≠ none) :
    SellsAll s.ledger close.request := by
  intro hnone p hp hmint
  have hwhole : close.fraction = 1 := by
    refine le_antisymm hproper.fraction (not_lt.mp fun hpart => ?_)
    exact hquoted hpart hnone
  obtain ⟨id, hid, hpopen⟩ := mem_openPositions.mp hp
  have hindexed := h.simulates.wellFormed.openIndexed _ _ (h.stored hproper) hopen
  have hother := h.simulates.wellFormed.openIndexed id p hid hpopen
  rw [hmint, show close.request.tokenMint = close.position.tokenMint from rfl, hindexed] at hother
  cases hother
  rw [h.stored hproper] at hid
  cases hid
  show close.position.remainingTokenAmount ≤ close.position.remainingTokenAmount * close.fraction
  rw [hwhole, mul_one]

theorem ExitRun.closed (h : ExitRun config s) (hproper : ProperClose s.ledger close)
    (hquoted : close.fraction < 1 → close.draw.quote ≠ none) :
    ExitRun config (brokerClose config s close.request).2 := by
  by_cases hamount : 0 < close.request.tokenAmount
  · have hopen := h.opened hproper hamount
    refine ⟨h.simulates.brokerClose close.request (h.labelled.sides.oneSided_exit _ _ _)
      (h.sellsAll hproper hopen hquoted), ?_⟩
    rcases h.close_cases hproper with ⟨hsame, -⟩ | ⟨committed, valid, hcase, heq⟩
    · rw [hsame]
      exact h.labelled
    · rw [heq]
      exact h.labelled.exited hproper hquoted _ valid hcase
  · rw [brokerClose_of_nonpos hamount]
    exact h

/-! ### Entries -/

theorem Labelled.sameBooks {ledger checked : LedgerState} (h : Labelled ledger)
    (hsame : SameBooks ledger checked) : Labelled checked := by
  obtain ⟨halt, pause, date, baseline, rfl⟩ := hsame
  exact ⟨h.entries, h.exits⟩

/-- A position under a fresh id has no exit yet. -/
theorem Labelled.booked {ledger : LedgerState} (h : Labelled ledger) (hwf : WellFormed ledger)
    {args : OpenArgs} (valid : args.costs.Valid)
    (hfresh : ledger.positions.get? args.positionId = none)
    (horder : ∃ candidateId, args.orderId = entryOrder candidateId) :
    Labelled (ledger.booked args valid) := by
  constructor
  · intro fill hfill htype
    rcases List.mem_append.mp hfill with hold | hnew
    · exact h.entries fill hold htype
    · rw [List.mem_singleton.mp hnew]
      exact horder
  · intro fill hfill htype
    rcases List.mem_append.mp hfill with hold | hnew
    · obtain ⟨code, hcode, hexit, hdone⟩ := h.exits fill hold htype
      refine ⟨code, hcode, hexit, fun p hget => hdone p ?_⟩
      have hne : args.positionId ≠ fill.positionId := by
        intro heq
        obtain ⟨q, hq⟩ := hwf.fillPosition fill hold
        rw [← heq, hfresh] at hq
        cases hq
      simp only [LedgerState.booked, Dict.get?_set, if_neg hne] at hget
      exact hget
    · rw [List.mem_singleton.mp hnew] at htype
      cases htype

theorem ExitRun.brokerOpen (h : ExitRun config s) {req : OpenRequest}
    (hids : EntryIds s (.openPosition req)) : ExitRun config (brokerOpen config s req).2 := by
  obtain ⟨⟨candidateId, -, horder⟩, hid⟩ := hids
  have hside : OneSided s.ledger req.orderId req.drawnOrderId .entry := by
    rw [horder]
    exact h.labelled.sides.oneSided_entry _ _
  refine ⟨h.simulates.brokerOpen req hside hid, ?_⟩
  have hsame := checkedLedger_sameBooks config s.ledger req
  have hchecked := h.labelled.sameBooks hsame
  rcases brokerOpen_cases config s req with hstopped | ⟨quote, committed, db, hreached, hbooked⟩
  · rw [hstopped.state]
    exact hchecked
  · cases hbooked with
    | raised e outcome =>
        rw [outcome]
        exact hchecked
    | booked ledger position result opened outcome =>
        rw [outcome]
        rcases openPosition_cases opened with rfl | ⟨valid, rfl, -⟩
        · exact hchecked
        · -- the commit was of a new order, so the position id is fresh
          have hnew := h.simulates.newOrderRow (hside.unused hreached.new)
          obtain ⟨candidateId', poolAddress, hcommit⟩ := hreached.commit
          rcases commitPaperEntry_ok hcommit with ⟨-, hrecorded⟩ | ⟨account, hcase, -, rfl⟩
          · obtain ⟨order, hstored, -⟩ := hrecorded.order
            exact absurd (hnew.symm.trans hstored) (by simp)
          · have hfresh := h.simulates.unstored hcase.freshPosition
            refine hchecked.booked (h.simulates.sameBooks hsame).wellFormed valid ?_
              ⟨candidateId, ?_⟩
            · obtain ⟨halt, pause, date, baseline, heq⟩ := hsame
              rw [heq]
              exact hfresh
            · show chosenOrder req.orderId req.drawnOrderId = _
              rw [horder]
              simp [chosenOrder, Option.filter, entryOrder_ne_empty]

/-! ### Marks -/

theorem Done.markPosition {code : String} {p : PositionRecord} (prices : Dict String ℚ)
    (now : Time) (h : Done code p) : Done code (markPosition prices now p) := by
  have hflags : (Ledger.markPosition prices now p).tp1Taken = p.tp1Taken ∧
      (Ledger.markPosition prices now p).tp2Taken = p.tp2Taken := by
    unfold Ledger.markPosition
    split
    · exact ⟨rfl, rfl⟩
    · split <;> exact ⟨rfl, rfl⟩
  unfold Done
  rw [markPosition_status, hflags.1, hflags.2]
  exact h

theorem Labelled.markUpdate (h : Labelled s.ledger) (quotes : Dict String ExecutableQuote)
    (now : Time) : Labelled (markUpdate config s quotes now).ledger := by
  unfold Paper.markUpdate
  dsimp only
  split
  · refine ⟨h.entries, fun fill hfill htype => ?_⟩
    obtain ⟨code, hcode, horder, hdone⟩ := h.exits fill hfill htype
    refine ⟨code, hcode, horder, fun p hget => ?_⟩
    obtain ⟨old, hold, rfl⟩ := get?_markToMarket hget
    exact (hdone old hold).markPosition _ _
  · exact h

/-! ## Runs -/

theorem ExitRun.init (config : BrokerConfig) (startingEquity : ℚ) (now : Time) :
    ExitRun config (BrokerState.init config startingEquity now) :=
  ⟨Simulates.init config startingEquity now, by rintro _ ⟨⟩, by rintro _ ⟨⟩⟩

theorem ExitRun.apply (h : ExitRun config s) (op : ExitOp)
    (hop : EntryIds s op ∧ PartsQuoted policy s op) :
    ExitRun config (applyExit config policy s op) := by
  unfold applyExit
  cases hclose : op.close policy s.ledger with
  | some close => exact h.closed (properClose hclose) (hop.2 close hclose)
  | none =>
      cases op with
      | openPosition req => exact h.brokerOpen hop.1
      | mark quotes now =>
          exact ⟨h.simulates.markUpdate quotes now, h.labelled.markUpdate quotes now⟩
      | giveUp positionId draw => exact h
      | exit positionId price now momentumExit emergencyExit draw => exact h

/-- The call of the broker sells the fraction of the position, if it returns. -/
def SellsFraction (config : BrokerConfig) (s : BrokerState) (close : ExitClose) : Prop :=
  ∀ result, (brokerClose config s close.request).1 = .ok result →
    ∃ after, (brokerClose config s close.request).2.ledger.positions.get?
        close.position.positionId = some after ∧
      after.remainingTokenAmount = close.position.remainingTokenAmount * (1 - close.fraction)

theorem ExitRun.sellsFraction (h : ExitRun config s) (hproper : ProperClose s.ledger close) :
    SellsFraction config s close := by
  intro result hok
  rcases h.close_cases hproper with ⟨-, hraised⟩ | ⟨committed, valid, hcase, heq⟩
  · exact absurd hok (hraised result)
  · rw [heq]
    refine ⟨_, Dict.get?_set_self _ _ _, ?_⟩
    rw [closedPosition_remainingTokenAmount]
    show close.position.remainingTokenAmount -
      close.position.remainingTokenAmount * close.fraction = _
    ring

/-- In every run in which the partial closes find a quote, each close that the exit loop decides and
that returns has sold exactly the decided fraction. -/
theorem run_closes (config : BrokerConfig) (policy : ExitPolicy) (startingEquity : ℚ) (now : Time)
    (ops : List ExitOp)
    (hrun : Along (fun s op => EntryIds s op ∧ PartsQuoted policy s op) (applyExit config policy)
      (BrokerState.init config startingEquity now) ops)
    (op : ExitOp) (close : ExitClose)
    (hclose : op.close policy (exec (applyExit config policy)
      (BrokerState.init config startingEquity now) ops).ledger = some close) :
    SellsFraction config (exec (applyExit config policy)
      (BrokerState.init config startingEquity now) ops) close := by
  have hreached := hrun.invariant (I := ExitRun config) (fun _ op h hop => h.apply op hop)
    (ExitRun.init config startingEquity now)
  exact hreached.sellsFraction (properClose hclose)

/-! ## Two runs -/

/-- A close of the sample run; `none` when no sell quote is found. -/
def sampleDraw (fillId : String) (quote : Option ExecutableQuote) : CloseDraw :=
  ⟨fillId, "quote-" ++ fillId, seconds 3, quote⟩

/-- The sample position at twice its entry price, with the sell quote of the first take-profit. -/
def firstTakeProfit (fillId : String) (quote : Option ExecutableQuote) : ExitOp :=
  .exit "position" (2 / 5) (seconds 3) false false (sampleDraw fillId quote)

def quotedTakeProfit : List ExitOp :=
  [.openPosition sampleOpen,
    firstTakeProfit "fill-tp1" (some (dollarsOf 20 twenty_pos))]

/-- The position is given up after a take-profit that found a quote. -/
theorem run_closes_quotedTakeProfit :
    ∃ close, (ExitOp.giveUp "position" (sampleDraw "fill-end" none)).close {}
        (exec (applyExit sampleBroker {}) (BrokerState.init sampleBroker 500 0)
          quotedTakeProfit).ledger = some close ∧
      SellsFraction sampleBroker (exec (applyExit sampleBroker {})
        (BrokerState.init sampleBroker 500 0) quotedTakeProfit) close := by
  have hsome : ((ExitOp.giveUp "position" (sampleDraw "fill-end" none)).close {}
      (exec (applyExit sampleBroker {}) (BrokerState.init sampleBroker 500 0)
        quotedTakeProfit).ledger).isSome = true := by decide +kernel
  obtain ⟨close, hclose⟩ := Option.isSome_iff_exists.mp hsome
  exact ⟨close, hclose, run_closes sampleBroker {} 500 0 quotedTakeProfit (by decide +kernel)
    (.giveUp "position" (sampleDraw "fill-end" none)) close hclose⟩

/-- A first take-profit without a sell quote. -/
def unquotedTakeProfit : List ExitOp := [.openPosition sampleOpen, firstTakeProfit "fill-tp1" none]

/-- The same take-profit with a quote. -/
def secondAttempt : ExitOp :=
  firstTakeProfit "fill-again" (some (dollarsOf 20 twenty_pos))

/-- The state after the take-profit without a quote. -/
def unquotedState : BrokerState :=
  exec (applyExit sampleBroker {}) (BrokerState.init sampleBroker 500 0) unquotedTakeProfit

/-- The take-profit is decided again, the call returns, and nothing is sold. -/
theorem unquoted_tp1_swallowed :
    Along EntryIds (applyExit sampleBroker {}) (BrokerState.init sampleBroker 500 0)
      unquotedTakeProfit ∧
    ∃ close, secondAttempt.close {} unquotedState.ledger = some close ∧ close.code = "TP1" ∧
      close.position.status = .opened ∧ close.fraction = 1 / 2 ∧
      ¬ SellsFraction sampleBroker unquotedState close := by
  have hclose : (secondAttempt.close {} unquotedState.ledger).map (fun close => (close.code,
      close.position.status, close.fraction, close.position.remainingTokenAmount)) =
      some ("TP1", .opened, 1 / 2, 99 / 2) := by decide +kernel
  have hcall : (secondAttempt.close {} unquotedState.ledger).map (fun close =>
      ((brokerClose sampleBroker unquotedState close.request).1.toOption.isSome,
        ((brokerClose sampleBroker unquotedState close.request).2.ledger.positions.get?
          close.position.positionId).map (·.remainingTokenAmount))) =
      some (true, some (99 / 2)) := by decide +kernel
  obtain ⟨close, hsome, hfields⟩ := Option.map_eq_some_iff.mp hclose
  simp only [Prod.mk.injEq] at hfields
  obtain ⟨hcode, hstatus, hfraction, htokens⟩ := hfields
  rw [hsome, Option.map_some, Option.some.injEq, Prod.mk.injEq] at hcall
  obtain ⟨hreturns, hleft⟩ := hcall
  refine ⟨by decide +kernel, close, hsome, hcode, hstatus, hfraction, fun hsold => ?_⟩
  cases hanswer : (brokerClose sampleBroker unquotedState close.request).1 with
  | error e =>
      rw [hanswer] at hreturns
      cases hreturns
  | ok result =>
      obtain ⟨after, hafter, hamount⟩ := hsold result hanswer
      rw [hafter, Option.map_some, Option.some.injEq] at hleft
      rw [hleft, htokens, hfraction] at hamount
      norm_num at hamount

end SniperBot.Exits
