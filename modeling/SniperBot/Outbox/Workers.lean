import SniperBot.Basis.Run
import SniperBot.Outbox.Table
import Mathlib.Logic.Function.Basic

/-!
# Outbox workers

`TelegramOutboxWorker.deliver_once` (`outbox.py`) as a step system. A worker leases a batch, then
handles one row after the other: it sends the message and marks the row by what the send did. Each
database call and each send is one step, so the steps of several workers and of the operator can
come in any order, and a worker can stop between any two of them. A mark that raises ends the
batch.

`log` is not part of the program: it records the leases, the sends and the recorded outcomes that
permit another send, in their order.
-/

namespace SniperBot.Outbox

open Basis

/-- How a send ends: a message id, `PermissionError` or `ValueError`, `RuntimeError`, or another
exception. -/
inductive SendOutcome
  | delivered (telegramMessageId : Option String)
  | refused (code : String)
  | rejected (code : String)
  | unknown (code : String)
  deriving DecidableEq, Repr

/-- A worker: the rows of its batch that are not marked yet, and the outcome of the send of the
first of them. -/
structure Worker where
  batch : List Leased := []
  outcome : Option SendOutcome := none
  deriving DecidableEq, Repr

inductive Note
  | leased (id : String)
  | sent (id : String)
  /-- a definite failure is recorded -/
  | failed (id : String)
  /-- the operator puts the row up for another attempt -/
  | retried (id : String)
  deriving DecidableEq, Repr

structure System where
  tables : Tables := {}
  workers : Nat → Worker := fun _ => {}
  nextToken : Nat := 0
  log : List Note := []

inductive Action
  | enqueue (id idempotencyKey eventType text : String) (dailyReport : ReportMetadata) (now : Time)
  | lease (worker : Nat) (now : Time) (locked : List String)
  | send (worker : Nat) (outcome : SendOutcome)
  | mark (worker : Nat) (now : Time)
  /-- the worker's task is cancelled, or its process dies -/
  | stop (worker : Nat)
  | resolve (id : String) (resolution : Resolution) (now : Time)

/-- `PROACTIVE_TELEGRAM_EVENT_TYPES` -/
def proactiveTelegramEventTypes : List String := ["system_start", "system_stop", "daily_report"]

/-- The message of the row is sent at all. -/
def Leased.Sendable (allowed : List String) (event : Leased) : Prop :=
  event.row.eventType ∈ allowed ∧ event.row.text ≠ ""

instance (allowed : List String) (event : Leased) : Decidable (event.Sendable allowed) :=
  inferInstanceAs (Decidable (_ ∧ _))

def SendOutcome.mark : SendOutcome → Mark
  | .delivered messageId => .delivered messageId
  | .refused code => .dead code
  | .rejected code => .failed code
  | .unknown code => .uncertain code

/-- The mark of the first row of a batch, once it is known. -/
def Leased.mark (allowed : List String) (event : Leased) (outcome : Option SendOutcome) :
    Option Mark :=
  if event.row.eventType ∉ allowed then some (.dead "TELEGRAM_POLICY_BLOCKED")
  else if event.row.text = "" then some (.dead "INVALID_EMPTY_MESSAGE")
  else outcome.map SendOutcome.mark

/-- The mark records a definite failure. -/
def Mark.Definite : Mark → Prop
  | .failed _ | .dead _ => True
  | .delivered _ | .uncertain _ => False

instance : (mark : Mark) → Decidable mark.Definite
  | .failed _ | .dead _ => inferInstanceAs (Decidable True)
  | .delivered _ | .uncertain _ => inferInstanceAs (Decidable False)

namespace System

variable (allowed : List String) (s : System)

/-- The worker has no batch. -/
def idle (worker : Nat) : System := { s with workers := Function.update s.workers worker {} }

/-- `pending_outbox(limit=100)` at the start of `deliver_once` -/
def lease (worker : Nat) (now : Time) (locked : List String) : System :=
  let (tables, next, events) := s.tables.pendingOutbox now 100 locked s.nextToken
  { tables := tables
    workers := Function.update s.workers worker { batch := events }
    nextToken := next
    log := s.log ++ events.map fun event => .leased event.id }

/-- The database call after a send. -/
def markFirst (worker : Nat) (now : Time) (event : Leased) (rest : List Leased) (mark : Mark) :
    System :=
  match event.row.claimToken with
  | none => s.idle worker
  | some token =>
      match s.tables.markOutbox event.id token now mark with
      | .error _ => s.idle worker
      | .ok tables =>
          { s with
            tables := tables
            workers := Function.update s.workers worker { batch := rest }
            log := s.log ++ if mark.Definite then [.failed event.id] else [] }

/-- A step; what a worker cannot do in its state changes nothing. -/
def step : Action → System
  | .enqueue id key eventType text report now =>
      { s with tables := s.tables.enqueueOutbox id key eventType text report now }
  | .lease worker now locked =>
      if (s.workers worker).batch = [] then s.lease worker now locked else s
  | .send worker outcome =>
      match s.workers worker with
      | ⟨event :: rest, none⟩ =>
          if event.Sendable allowed then
            { s with
              workers := Function.update s.workers worker ⟨event :: rest, some outcome⟩
              log := s.log ++ [.sent event.id] }
          else s
      | _ => s
  | .mark worker now =>
      match (s.workers worker).batch with
      | [] => s
      | event :: rest =>
          match event.mark allowed (s.workers worker).outcome with
          | none => s
          | some mark => s.markFirst worker now event rest mark
  | .stop worker => s.idle worker
  | .resolve id resolution now =>
      match s.tables.resolveUncertainOutbox id now resolution with
      | .error _ => s
      | .ok tables =>
          { s with
            tables := tables
            log := s.log ++ if resolution = .retry then [.retried id] else [] }

end System

/-! ## What a step does to one row -/

/-- The change of a stored row in one step. -/
inductive RowChange (allowed : List String) (s : System) (id : String) (row : OutboxRow) :
    Action → OutboxRow → Prop
  | kept (action : Action) : RowChange allowed s id row action row
  | expired (worker : Nat) (now : Time) (locked : List String) (lapsed : row.Lapsed now) :
      RowChange allowed s id row (.lease worker now locked) row.expired
  | leased (worker : Nat) (now : Time) (locked : List String) (token : Nat)
      (waiting : row.Waiting) :
      RowChange allowed s id row (.lease worker now locked) (row.leased now token)
  | marked (worker : Nat) (now : Time) (event : Leased) (rest : List Leased) (token : Nat)
      (mark : Mark) (first : (s.workers worker).batch = event :: rest) (own : event.id = id)
      (claim : event.row.claimToken = some token) (current : row.ClaimedBy token)
      (reported : event.mark allowed (s.workers worker).outcome = some mark) :
      RowChange allowed s id row (.mark worker now) (mark.row row now)
  | resolved (resolution : Resolution) (now : Time) (uncertain : row.deliveryState = .uncertain) :
      RowChange allowed s id row (.resolve id resolution now) (resolution.row row now)

variable {allowed : List String} {s : System}

theorem markFirst_row {worker : Nat} {now : Time} {event : Leased} {rest : List Leased}
    {mark : Mark} {id : String} {row : OutboxRow}
    (hfirst : (s.workers worker).batch = event :: rest)
    (hmark : event.mark allowed (s.workers worker).outcome = some mark)
    (h : s.tables.rows.get? id = some row) :
    ∃ row', (s.markFirst worker now event rest mark).tables.rows.get? id = some row' ∧
      RowChange allowed s id row (.mark worker now) row' := by
  unfold System.markFirst
  split
  · exact ⟨row, h, .kept _⟩
  · rename_i token hclaim
    split
    · exact ⟨row, h, .kept _⟩
    · rename_i tables hok
      obtain ⟨claimed, hget, hcurrent, hrows⟩ := markOutbox_ok hok
      by_cases hid : event.id = id
      · subst hid
        rw [h] at hget
        cases hget
        refine ⟨_, ?_, .marked worker now event rest token mark hfirst rfl hclaim hcurrent hmark⟩
        rw [hrows, Dict.get?_set_self]
      · refine ⟨row, ?_, .kept _⟩
        rw [hrows, Dict.get?_set_ne _ hid]
        exact h

theorem step_row (allowed : List String) (action : Action) {id : String} {row : OutboxRow}
    (h : s.tables.rows.get? id = some row) :
    ∃ row', (s.step allowed action).tables.rows.get? id = some row' ∧
      RowChange allowed s id row action row' := by
  cases action with
  | enqueue newId key eventType text report now =>
      refine ⟨row, ?_, .kept _⟩
      show (s.tables.enqueueOutbox newId key eventType text report now).rows.get? id = some row
      unfold Tables.enqueueOutbox
      split
      · exact h
      · rename_i hnew
        have hfresh := (not_or.mp hnew).1
        rw [Bool.not_eq_true, Dict.contains_eq_false] at hfresh
        have hne : newId ≠ id := by
          rintro rfl
          rw [h] at hfresh
          cases hfresh
        exact (Dict.get?_set_ne _ hne _).trans h
  | lease worker now locked =>
      unfold System.step
      dsimp only
      split
      · obtain ⟨row', hget, hchange⟩ := pendingOutbox_row now 100 locked s.nextToken h
        refine ⟨row', hget, ?_⟩
        cases hchange with
        | kept _ => exact .kept _
        | expired lapsed _ => exact .expired worker now locked lapsed
        | leased token deliverable _ => exact .leased worker now locked token deliverable.2.1
      · exact ⟨row, h, .kept _⟩
  | send worker outcome =>
      refine ⟨row, ?_, .kept _⟩
      unfold System.step
      dsimp only
      split
      · split <;> exact h
      · exact h
  | mark worker now =>
      unfold System.step
      dsimp only
      split
      · exact ⟨row, h, .kept _⟩
      · rename_i event rest hfirst
        split
        · exact ⟨row, h, .kept _⟩
        · rename_i mark hmark
          exact markFirst_row hfirst hmark h
  | stop worker => exact ⟨row, h, .kept _⟩
  | resolve resolvedId resolution now =>
      unfold System.step
      dsimp only
      split
      · exact ⟨row, h, .kept _⟩
      · rename_i tables hok
        obtain ⟨found, hget, hstate, hrows⟩ := resolveUncertainOutbox_ok hok
        by_cases hid : resolvedId = id
        · subst hid
          rw [h] at hget
          cases hget
          refine ⟨_, ?_, .resolved resolution now hstate⟩
          show tables.rows.get? resolvedId = _
          rw [hrows, Dict.get?_set_self]
        · refine ⟨row, ?_, .kept _⟩
          show tables.rows.get? id = _
          rw [hrows, Dict.get?_set_ne _ hid]
          exact h

/-- A row that appears is a new one. -/
theorem step_unstored (allowed : List String) (action : Action) {id : String}
    (h : s.tables.rows.get? id = none) :
    (s.step allowed action).tables.rows.get? id = none ∨
    ∃ row, (s.step allowed action).tables.rows.get? id = some row ∧ row.attempts = 0 := by
  cases action with
  | enqueue newId key eventType text report now =>
      show (s.tables.enqueueOutbox newId key eventType text report now).rows.get? id = none ∨
        ∃ row, (s.tables.enqueueOutbox newId key eventType text report now).rows.get? id =
          some row ∧ row.attempts = 0
      unfold Tables.enqueueOutbox
      split
      · exact Or.inl h
      · dsimp only
        rw [Dict.get?_set]
        split
        · exact Or.inr ⟨_, rfl, rfl⟩
        · exact Or.inl h
  | lease worker now locked =>
      left
      unfold System.step
      dsimp only
      split
      · exact pendingOutbox_unstored now 100 locked s.nextToken h
      · exact h
  | send worker outcome =>
      left
      unfold System.step
      dsimp only
      split
      · split <;> exact h
      · exact h
  | mark worker now =>
      left
      unfold System.step
      dsimp only
      split
      · exact h
      · split
        · exact h
        · unfold System.markFirst
          split
          · exact h
          · split
            · exact h
            · rename_i hok
              obtain ⟨row, hget, -, hrows⟩ := markOutbox_ok hok
              dsimp only
              rw [hrows, Dict.get?_set_ne _ (by rintro rfl; rw [h] at hget; cases hget)]
              exact h
  | stop worker => exact Or.inl h
  | resolve resolvedId resolution now =>
      left
      unfold System.step
      dsimp only
      split
      · exact h
      · rename_i hok
        obtain ⟨row, hget, -, hrows⟩ := resolveUncertainOutbox_ok hok
        dsimp only
        rw [hrows, Dict.get?_set_ne _ (by rintro rfl; rw [h] at hget; cases hget)]
        exact h

/-- A step that is not a lease notes no lease. -/
theorem step_log (allowed : List String) (s : System) (action : Action)
    (h : ∀ worker now locked, action ≠ .lease worker now locked) :
    ∃ notes, (s.step allowed action).log = s.log ++ notes ∧ ∀ id, Note.leased id ∉ notes := by
  have hsame : ∃ notes, s.log = s.log ++ notes ∧ ∀ id, Note.leased id ∉ notes :=
    ⟨[], (List.append_nil _).symm, fun _ => List.not_mem_nil⟩
  cases action with
  | enqueue id key eventType text report now => exact hsame
  | lease worker now locked => exact absurd rfl (h worker now locked)
  | send worker outcome =>
      unfold System.step
      dsimp only
      split
      · split
        · exact ⟨_, rfl, by simp⟩
        · exact hsame
      · exact hsame
  | mark worker now =>
      unfold System.step
      dsimp only
      split
      · exact hsame
      · split
        · exact hsame
        · unfold System.markFirst
          split
          · exact hsame
          · split
            · exact hsame
            · refine ⟨_, rfl, fun id hmem => ?_⟩
              split at hmem <;> simp at hmem
  | stop worker => exact hsame
  | resolve id resolution now =>
      unfold System.step
      dsimp only
      split
      · exact hsame
      · refine ⟨_, rfl, fun id hmem => ?_⟩
        split at hmem <;> simp at hmem

end SniperBot.Outbox
