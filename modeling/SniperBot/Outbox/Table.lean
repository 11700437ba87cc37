import SniperBot.Domain
import SniperBot.Basis.Dict
import Mathlib.Data.List.Sort

/-!
# The outbox table

The rows of Telegram messages (`db_models.py`) and the transactions on them (`database.py`):
`enqueue_outbox`, `pending_outbox`, the four `mark_outbox_*` calls of a worker and the operator's
`resolve_uncertain_outbox`. A raising transaction is an `Except.error` and writes nothing.

Claim tokens are fresh uuids; they are drawn as numbers from a counter. What delivery reads of a
payload is its stripped text and the metadata of a daily report.
-/

namespace SniperBot.Outbox

open Basis

inductive DeliveryState
  | pending | sending | failed | uncertain | delivered | dead
  deriving DecidableEq, Repr

structure ReportKey where
  date : String
  timezone : String
  strategyVersion : String
  deriving DecidableEq, Repr

/-- The `_daily_report` entry of a payload; reading it can raise. -/
inductive ReportMetadata
  | absent
  | malformed
  | of (key : ReportKey)
  deriving DecidableEq, Repr

structure OutboxRow where
  idempotencyKey : String
  eventType : String
  text : String
  dailyReport : ReportMetadata := .absent
  createdAt : Time
  availableAt : Time
  attempts : Nat := 0
  deliveryState : DeliveryState := .pending
  claimedAt : Option Time := none
  claimToken : Option Nat := none
  deliveredAt : Option Time := none
  telegramMessageId : Option String := none
  lastError : Option String := none
  deriving DecidableEq, Repr

/-- The delivery columns of a daily report. -/
structure DailyReportRow where
  telegramMessageId : Option String := none
  sentAt : Option Time := none
  deriving DecidableEq, Repr

structure Tables where
  rows : Dict String OutboxRow := Dict.empty
  reports : Dict ReportKey DailyReportRow := Dict.empty

inductive OutboxError
  | missing | superseded | notUncertain | messageIdRequired | reportMetadata
  deriving DecidableEq, Repr

/-! ## Rows -/

/-- `timedelta(seconds=30)`, the length of a lease. -/
def leaseTime : Int := seconds 30

/-- The most attempts after which a definite failure is still retried. -/
def maxAttempts : Nat := 10

/-- `error_code[:500]` -/
def errorText (code : String) : String := String.ofList (code.toList.take 500)

namespace OutboxRow

variable (row : OutboxRow)

/-- The lease of the row has run out at `now`. -/
def Lapsed (now : Time) : Prop :=
  row.deliveryState = .sending ∧ ∃ claimedAt ∈ row.claimedAt, claimedAt ≤ now - leaseTime

instance (now : Time) : Decidable (row.Lapsed now) := inferInstanceAs (Decidable (_ ∧ _))

/-- The row is up for a lease. -/
def Waiting : Prop := row.deliveryState = .pending ∨ row.deliveryState = .failed

instance : Decidable row.Waiting := inferInstanceAs (Decidable (_ ∨ _))

/-- The filter of the `SELECT` in `pending_outbox`. -/
def Deliverable (now : Time) : Prop :=
  row.deliveredAt = none ∧ row.Waiting ∧ row.availableAt ≤ now

instance (now : Time) : Decidable (row.Deliverable now) := inferInstanceAs (Decidable (_ ∧ _))

def expired : OutboxRow :=
  { row with
    deliveryState := .uncertain
    lastError := some "DELIVERY_OUTCOME_UNKNOWN_AFTER_LEASE_EXPIRY"
    claimToken := none }

def leased (now : Time) (token : Nat) : OutboxRow :=
  { row with
    availableAt := now + leaseTime
    attempts := row.attempts + 1
    deliveryState := .sending
    claimedAt := some now
    claimToken := some token }

def delivered (at' : Time) (telegramMessageId : Option String) : OutboxRow :=
  { row with
    deliveredAt := some at'
    telegramMessageId := telegramMessageId
    lastError := none
    deliveryState := .delivered
    claimedAt := none
    claimToken := none }

/-- The row without its claim. -/
def released (state : DeliveryState) (error : String) : OutboxRow :=
  { row with
    deliveryState := state
    lastError := some error
    claimedAt := none
    claimToken := none }

/-- Seconds until the next attempt. -/
def retryDelay : Int := min 300 (2 ^ min row.attempts 8)

def rejected (now : Time) (code : String) : OutboxRow :=
  { row.released (if row.attempts ≥ maxAttempts then .dead else .failed) (errorText code) with
    availableAt := now + seconds row.retryDelay }

def retried (now : Time) : OutboxRow :=
  { row.released .failed "OPERATOR_RETRY_AFTER_RECONCILIATION" with availableAt := now }

/-- `_validate_outbox_claim` -/
def ClaimedBy (token : Nat) : Prop :=
  row.deliveryState = .sending ∧ row.claimToken = some token

instance (token : Nat) : Decidable (row.ClaimedBy token) := inferInstanceAs (Decidable (_ ∧ _))

end OutboxRow

namespace Tables

variable (t : Tables)

/-! ## Adding -/

/-- `enqueue_outbox` with the new row id: nothing happens when the idempotency key is taken. -/
def enqueueOutbox (id idempotencyKey eventType text : String) (dailyReport : ReportMetadata)
    (now : Time) : Tables :=
  if t.rows.contains id ∨ ∃ e ∈ t.rows.entries, e.2.idempotencyKey = idempotencyKey then t
  else
    let row : OutboxRow :=
      { idempotencyKey := idempotencyKey, eventType := eventType, text := text
        dailyReport := dailyReport, createdAt := now, availableAt := now }
    { t with rows := t.rows.set id row }

/-! ## Leasing -/

/-- The first statement of `pending_outbox`. -/
def expireLeases (now : Time) : Tables :=
  { t with rows := t.rows.mapValues fun _ row => if row.Lapsed now then row.expired else row }

/-- The rows that `pending_outbox` selects; rows that another transaction has locked are skipped. -/
def selectDeliverable (now : Time) (limit : Nat) (locked : List String) :
    List (String × OutboxRow) :=
  ((t.rows.entries.filter fun e => e.2.Deliverable now ∧ e.1 ∉ locked).insertionSort
    fun e f => e.2.createdAt ≤ f.2.createdAt).take limit

end Tables

/-- A row as `pending_outbox` returns it. -/
structure Leased where
  id : String
  row : OutboxRow
  deriving DecidableEq, Repr

/-- The loop of `pending_outbox` over the selected rows. -/
def leaseRows (now : Time) : List (String × OutboxRow) → Nat → Dict String OutboxRow →
    Dict String OutboxRow × Nat × List Leased
  | [], next, rows => (rows, next, [])
  | (id, row) :: rest, next, rows =>
      let leased := row.leased now next
      let (rows, next, events) := leaseRows now rest (next + 1) (rows.set id leased)
      (rows, next, ⟨id, leased⟩ :: events)

/-- `pending_outbox`: the tables, the next token and the leased rows. -/
def Tables.pendingOutbox (t : Tables) (now : Time) (limit : Nat) (locked : List String)
    (next : Nat) : Tables × Nat × List Leased :=
  let expired := t.expireLeases now
  let (rows, next, events) :=
    leaseRows now (expired.selectDeliverable now limit locked) next expired.rows
  ({ expired with rows := rows }, next, events)

/-! ## Marking -/

/-- `_apply_outbox_delivery` -/
def Tables.applyOutboxDelivery (t : Tables) (id : String) (row : OutboxRow) (deliveredAt : Time)
    (telegramMessageId : Option String) : Except OutboxError Tables :=
  let rows := t.rows.set id (row.delivered deliveredAt telegramMessageId)
  match row.dailyReport with
  | .absent => .ok { t with rows := rows }
  | .malformed => .error .reportMetadata
  | .of key => .ok
      { rows := rows
        reports := t.reports.update key fun _ =>
          { telegramMessageId := telegramMessageId, sentAt := some deliveredAt } }

/-- What a worker reports about a row. -/
inductive Mark
  | delivered (telegramMessageId : Option String)
  | failed (code : String)
  | uncertain (code : String)
  | dead (code : String)
  deriving DecidableEq, Repr

/-- The row after the report. -/
def Mark.row (row : OutboxRow) (now : Time) : Mark → OutboxRow
  | .delivered messageId => row.delivered now messageId
  | .failed code => row.rejected now code
  | .uncertain code => row.released .uncertain (errorText code)
  | .dead code => row.released .dead (errorText code)

/-- `mark_outbox_delivered`, `mark_outbox_failed`, `mark_outbox_uncertain` and
`mark_outbox_dead`. -/
def Tables.markOutbox (t : Tables) (id : String) (token : Nat) (now : Time) (mark : Mark) :
    Except OutboxError Tables :=
  match t.rows.get? id with
  | none => .error .missing
  | some row =>
      if ¬ row.ClaimedBy token then .error .superseded
      else match mark with
        | .delivered messageId => t.applyOutboxDelivery id row now messageId
        | _ => .ok { t with rows := t.rows.set id (mark.row row now) }

/-! ## The operator -/

inductive Resolution
  | retry
  | delivered (telegramMessageId : Option String)
  | dead
  deriving DecidableEq, Repr

def Resolution.row (row : OutboxRow) (now : Time) : Resolution → OutboxRow
  | .retry => row.retried now
  | .delivered messageId => row.delivered now messageId
  | .dead => row.released .dead "OPERATOR_CONFIRMED_DEAD"

/-- `resolve_uncertain_outbox` -/
def Tables.resolveUncertainOutbox (t : Tables) (id : String) (now : Time)
    (resolution : Resolution) : Except OutboxError Tables :=
  if resolution = .delivered none ∨ resolution = .delivered (some "") then
    .error .messageIdRequired
  else match t.rows.get? id with
    | none => .error .missing
    | some row =>
        if row.deliveryState ≠ .uncertain then .error .notUncertain
        else match resolution with
          | .delivered messageId => t.applyOutboxDelivery id row now messageId
          | _ => .ok { t with rows := t.rows.set id (resolution.row row now) }

/-! ## What a transaction does to one row -/

theorem get?_expireLeases (t : Tables) (now : Time) (id : String) :
    (t.expireLeases now).rows.get? id =
      (t.rows.get? id).map fun row => if row.Lapsed now then row.expired else row :=
  Dict.get?_mapValues _ _ _

/-- The selected rows are stored, deliverable and pairwise different. -/
theorem mem_selectDeliverable {t : Tables} {now : Time} {limit : Nat} {locked : List String}
    {e : String × OutboxRow} (h : e ∈ t.selectDeliverable now limit locked) :
    t.rows.get? e.1 = some e.2 ∧ e.2.Deliverable now := by
  have hsorted := List.mem_of_mem_take h
  rw [List.mem_insertionSort, List.mem_filter, decide_eq_true_eq] at hsorted
  exact ⟨Dict.mem_entries.mp hsorted.1, hsorted.2.1⟩

theorem selectDeliverable_nodup (t : Tables) (now : Time) (limit : Nat) (locked : List String) :
    ((t.selectDeliverable now limit locked).map Prod.fst).Nodup := by
  have hfilter := (List.filter_sublist (p := fun e : String × OutboxRow =>
    decide (e.2.Deliverable now ∧ e.1 ∉ locked)) (l := t.rows.entries)).map Prod.fst
  have hsorted := ((List.perm_insertionSort (fun e f : String × OutboxRow =>
    e.2.createdAt ≤ f.2.createdAt) (t.rows.entries.filter fun e =>
      e.2.Deliverable now ∧ e.1 ∉ locked)).map Prod.fst).nodup_iff.mpr
    (hfilter.nodup t.rows.nodup)
  exact ((List.take_sublist _ _).map Prod.fst).nodup hsorted

/-- What the loop of `pending_outbox` does for pairwise different rows. -/
structure LeaseSpec (now : Time) (selected : List (String × OutboxRow)) (next : Nat)
    (rows : Dict String OutboxRow) (result : Dict String OutboxRow × Nat × List Leased) :
    Prop where
  other : ∀ id, id ∉ selected.map Prod.fst → result.1.get? id = rows.get? id
  events : ∀ event ∈ result.2.2, result.1.get? event.id = some event.row ∧
    ∃ row token, (event.id, row) ∈ selected ∧ event.row = row.leased now token ∧ next ≤ token
  leased : ∀ id row, (id, row) ∈ selected → ∃ token, ⟨id, row.leased now token⟩ ∈ result.2.2
  ids : result.2.2.map (·.id) = selected.map Prod.fst

theorem leaseRows_spec (now : Time) (selected : List (String × OutboxRow)) (next : Nat)
    (rows : Dict String OutboxRow) (hnodup : (selected.map Prod.fst).Nodup) :
    LeaseSpec now selected next rows (leaseRows now selected next rows) := by
  induction selected generalizing next rows with
  | nil =>
      exact ⟨fun _ _ => rfl, by rintro _ ⟨⟩, by rintro _ _ ⟨⟩, rfl⟩
  | cons e rest ih =>
      obtain ⟨id, row⟩ := e
      rw [List.map_cons, List.nodup_cons] at hnodup
      have hrest := ih (next + 1) (rows.set id (row.leased now next)) hnodup.2
      have hown : (leaseRows now rest (next + 1) (rows.set id (row.leased now next))).1.get? id =
          some (row.leased now next) := by
        rw [hrest.other id hnodup.1, Dict.get?_set_self]
      refine ⟨?_, ?_, ?_, ?_⟩
      · intro other hother
        rw [List.map_cons, List.mem_cons, not_or] at hother
        rw [leaseRows, hrest.other other hother.2, Dict.get?_set_ne _ (Ne.symm hother.1)]
      · intro event hevent
        rcases List.mem_cons.mp hevent with rfl | hlater
        · exact ⟨hown, row, next, List.mem_cons_self, rfl, le_rfl⟩
        · obtain ⟨hget, old, token, hold, heq, hle⟩ := hrest.events event hlater
          exact ⟨hget, old, token, List.mem_cons_of_mem _ hold, heq, by omega⟩
      · intro other old hmem
        rcases List.mem_cons.mp hmem with heq | hlater
        · cases heq
          exact ⟨next, List.mem_cons_self⟩
        · obtain ⟨token, htoken⟩ := hrest.leased other old hlater
          exact ⟨token, List.mem_cons_of_mem _ htoken⟩
      · show id :: _ = id :: _
        rw [hrest.ids]

/-- What `pending_outbox` can do to a stored row. -/
inductive LeaseChange (now : Time) (events : List Leased) (id : String) (row : OutboxRow) :
    OutboxRow → Prop
  | kept (notLeased : ∀ event ∈ events, event.id ≠ id) : LeaseChange now events id row row
  | expired (lapsed : row.Lapsed now) (notLeased : ∀ event ∈ events, event.id ≠ id) :
      LeaseChange now events id row row.expired
  | leased (token : Nat) (deliverable : row.Deliverable now)
      (returned : ⟨id, row.leased now token⟩ ∈ events) :
      LeaseChange now events id row (row.leased now token)

section Lease

variable {t : Tables} {now : Time} {limit : Nat} {locked : List String}

/-- A selected row was not touched by the expiry. -/
theorem selected_stored {id : String} {row : OutboxRow}
    (h : (id, row) ∈ (t.expireLeases now).selectDeliverable now limit locked) :
    t.rows.get? id = some row ∧ row.Deliverable now := by
  obtain ⟨hget, hdeliverable⟩ := mem_selectDeliverable h
  rw [get?_expireLeases] at hget
  obtain ⟨old, hold, heq⟩ := Option.map_eq_some_iff.mp hget
  dsimp only at heq
  split at heq
  · -- an expired row is uncertain
    have hwaiting := hdeliverable.2.1
    rw [← heq] at hwaiting
    rcases hwaiting with hstate | hstate <;> cases hstate
  · rw [← heq]
    exact ⟨hold, heq ▸ hdeliverable⟩

theorem pendingOutbox_row (now : Time) (limit : Nat) (locked : List String) (next : Nat)
    {id : String} {row : OutboxRow} (h : t.rows.get? id = some row) :
    ∃ row', (t.pendingOutbox now limit locked next).1.rows.get? id = some row' ∧
      LeaseChange now (t.pendingOutbox now limit locked next).2.2 id row row' := by
  have hspec := leaseRows_spec now ((t.expireLeases now).selectDeliverable now limit locked) next
    (t.expireLeases now).rows (selectDeliverable_nodup _ now limit locked)
  by_cases hmem : id ∈ ((t.expireLeases now).selectDeliverable now limit locked).map Prod.fst
  · obtain ⟨⟨j, selected⟩, hselected, rfl⟩ := List.mem_map.mp hmem
    obtain ⟨hget, hdeliverable⟩ := selected_stored hselected
    rw [h] at hget
    cases hget
    obtain ⟨token, htoken⟩ := hspec.leased j row hselected
    exact ⟨_, (hspec.events _ htoken).1, .leased token hdeliverable htoken⟩
  · have hnot : ∀ event ∈ (t.pendingOutbox now limit locked next).2.2, event.id ≠ id := by
      rintro event hevent rfl
      refine hmem ?_
      rw [← hspec.ids]
      exact List.mem_map_of_mem hevent
    have hget := hspec.other id hmem
    rw [get?_expireLeases, h, Option.map_some] at hget
    by_cases hlapsed : row.Lapsed now
    · rw [if_pos hlapsed] at hget
      exact ⟨_, hget, .expired hlapsed hnot⟩
    · rw [if_neg hlapsed] at hget
      exact ⟨_, hget, .kept hnot⟩

/-- The returned rows are stored as they are returned, each once. -/
theorem pendingOutbox_events (t : Tables) (now : Time) (limit : Nat) (locked : List String)
    (next : Nat) :
    (∀ event ∈ (t.pendingOutbox now limit locked next).2.2, ∃ row token,
      t.rows.get? event.id = some row ∧ row.Deliverable now ∧ event.row = row.leased now token ∧
      (t.pendingOutbox now limit locked next).1.rows.get? event.id = some event.row) ∧
    ((t.pendingOutbox now limit locked next).2.2.map (·.id)).Nodup := by
  have hspec := leaseRows_spec now ((t.expireLeases now).selectDeliverable now limit locked) next
    (t.expireLeases now).rows (selectDeliverable_nodup _ now limit locked)
  constructor
  · intro event hevent
    obtain ⟨hget, row, token, hselected, heq, -⟩ := hspec.events event hevent
    obtain ⟨hstored, hdeliverable⟩ := selected_stored hselected
    exact ⟨row, token, hstored, hdeliverable, heq, hget⟩
  · show ((leaseRows now _ next _).2.2.map (·.id)).Nodup
    rw [hspec.ids]
    exact selectDeliverable_nodup _ now limit locked

theorem pendingOutbox_unstored (now : Time) (limit : Nat) (locked : List String) (next : Nat)
    {id : String} (h : t.rows.get? id = none) :
    (t.pendingOutbox now limit locked next).1.rows.get? id = none := by
  have hspec := leaseRows_spec now ((t.expireLeases now).selectDeliverable now limit locked) next
    (t.expireLeases now).rows (selectDeliverable_nodup _ now limit locked)
  refine (hspec.other id fun hmem => ?_).trans (by rw [get?_expireLeases, h]; rfl)
  obtain ⟨⟨j, selected⟩, hselected, rfl⟩ := List.mem_map.mp hmem
  rw [(selected_stored hselected).1] at h
  cases h

end Lease

theorem applyOutboxDelivery_ok {t t' : Tables} {id : String} {row : OutboxRow} {at' : Time}
    {messageId : Option String} (h : t.applyOutboxDelivery id row at' messageId = .ok t') :
    t'.rows = t.rows.set id (row.delivered at' messageId) := by
  unfold Tables.applyOutboxDelivery at h
  dsimp only at h
  split at h <;> cases h <;> rfl

/-- A mark that succeeds was made with the current claim of the row. -/
theorem markOutbox_ok {t t' : Tables} {id : String} {token : Nat} {now : Time} {mark : Mark}
    (h : t.markOutbox id token now mark = .ok t') :
    ∃ row, t.rows.get? id = some row ∧ row.ClaimedBy token ∧
      t'.rows = t.rows.set id (mark.row row now) := by
  unfold Tables.markOutbox at h
  split at h
  · cases h
  · rename_i row hget
    split at h
    · cases h
    · rename_i hclaim
      refine ⟨row, hget, not_not.mp hclaim, ?_⟩
      split at h
      · exact applyOutboxDelivery_ok h
      · cases h
        rfl

theorem resolveUncertainOutbox_ok {t t' : Tables} {id : String} {now : Time}
    {resolution : Resolution} (h : t.resolveUncertainOutbox id now resolution = .ok t') :
    ∃ row, t.rows.get? id = some row ∧ row.deliveryState = .uncertain ∧
      t'.rows = t.rows.set id (resolution.row row now) := by
  unfold Tables.resolveUncertainOutbox at h
  split at h
  · cases h
  · split at h
    · cases h
    · rename_i row hget
      split at h
      · cases h
      · rename_i hstate
        refine ⟨row, hget, not_not.mp hstate, ?_⟩
        split at h
        · exact applyOutboxDelivery_ok h
        · cases h
          rfl

end SniperBot.Outbox
