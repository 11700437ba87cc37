import SniperBot.Runtime.Controls

/-!
# Calls of the ledger

The methods of `PaperLedger` (`ledger.py`) that change its state: the three accounting operations
and the setters of the controls and of the daily equity baseline. A setter touches neither the
positions nor the fills nor the indices (`call_rule`).
-/

namespace SniperBot.Runtime

open Basis Ledger Risk

inductive LedgerCall
  | book (op : LedgerOp)
  | setPauseUntil (until' : Option Time)
  | setHalt (reason : String) (hard : Bool)
  | clearHalt (force : Bool)
  | setDailyHalt (dateKey reason : String)
  | clearExpiredDailyControls (dateKey : String) (now : Time)
  | setDailyEquityBaseline (dateKey : String) (equity : ℚ)
  | dailyLossExceeded (at' : Time)

/-- The state after a call; a call that raises changes nothing. -/
def ledgerCall (dateKey : Time → String) (s : LedgerState) : LedgerCall → LedgerState
  | .book op => s.apply dateKey op
  | .setPauseUntil until' => { s with pauseUntil := until' }
  | .setHalt reason hard => if hard then setHardHalt s reason else setHalt s reason
  | .clearHalt force => (clearHalt s force).2
  | .setDailyHalt day reason => setDailyHalt s day reason
  | .clearExpiredDailyControls day now => clearExpiredDailyControls s day now
  | .setDailyEquityBaseline day equity =>
      { s with dailyEquityBaseline := s.dailyEquityBaseline.set day equity }
  | .dailyLossExceeded at' => withBaseline s (dateKey at')

/-- New positions get fresh ids. -/
def FreshCall (s : LedgerState) : LedgerCall → Prop
  | .book op => FreshId s op
  | _ => True

instance (s : LedgerState) : (call : LedgerCall) → Decidable (FreshCall s call)
  | .book op => inferInstanceAs (Decidable (FreshId s op))
  | .setPauseUntil _ | .setHalt _ _ | .clearHalt _ | .setDailyHalt _ _
  | .clearExpiredDailyControls _ _ | .setDailyEquityBaseline _ _ | .dailyLossExceeded _ =>
      inferInstanceAs (Decidable True)

/-- The state with other controls and baselines. -/
def controlled (s : LedgerState) (baseline : Dict String ℚ) (haltReason : Option String)
    (pauseUntil : Option Time) (dailyHaltDate : Option String) : LedgerState :=
  { s with
    dailyEquityBaseline := baseline
    haltReason := haltReason
    pauseUntil := pauseUntil
    dailyHaltDate := dailyHaltDate }

/-- What holds after an accounting operation and does not depend on controls and baselines holds
after every call. -/
theorem call_rule {P : LedgerState → Prop} {dateKey : Time → String} {s : LedgerState}
    (call : LedgerCall) (hbook : ∀ op, call = .book op → P (s.apply dateKey op))
    (hcontrol : ∀ baseline halt pause date, P (controlled s baseline halt pause date)) :
    P (ledgerCall dateKey s call) := by
  cases call with
  | book op => exact hbook op rfl
  | setPauseUntil => exact hcontrol _ _ _ _
  | setHalt reason hard => cases hard <;> exact hcontrol _ _ _ _
  | clearHalt force =>
      simp only [ledgerCall, clearHalt]
      split <;> exact hcontrol _ _ _ _
  | setDailyHalt => exact hcontrol _ _ _ _
  | clearExpiredDailyControls day now =>
      simp only [ledgerCall, clearExpiredDailyControls]
      split <;> exact hcontrol _ _ _ _
  | setDailyEquityBaseline => exact hcontrol _ _ _ _
  | dailyLossExceeded => exact hcontrol _ _ _ _

theorem wellFormed_controlled {s : LedgerState} (h : WellFormed s) (baseline : Dict String ℚ)
    (halt : Option String) (pause : Option Time) (date : Option String) :
    WellFormed (controlled s baseline halt pause date) :=
  ⟨h.fillPosition, h.indexOpen, h.openIndexed, h.openTokens, h.closedTokens⟩

end SniperBot.Runtime
