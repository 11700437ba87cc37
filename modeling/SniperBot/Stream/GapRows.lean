import Mathlib.Algebra.GroupWithZero.Nat
import SniperBot.Basis.Grouping
import SniperBot.Stream.Connected

/-!
# Rows of recovery gaps

While the stream cannot recover what it missed, `_run` (`stream.py`) tells the database:
`record_stream_recovery_gap` when a recovery is given up or a gap is accepted, and
`resolve_stream_recovery_gaps` when one has succeeded. A call may fail, also after its transaction
was committed, and a process may be followed by another one with the same table.

In every state of every run there is at most one pending row for each protocol, a row that is not
pending stays as it is, the attempts add up to the calls that were recorded and the accepted rows to
those with an accepted reason. As long as no process begins without a checkpoint while a row is
pending, none is pending on a connection that is live (`gaps_audited`).
-/

namespace SniperBot.Stream

open Basis Features

/-! ## The table -/

inductive GapStatus
  | pending | accepted | resolved
  deriving DecidableEq, Repr

structure GapRow where
  protocol : Protocol
  checkpointSignature : Option String
  reason : String
  status : GapStatus
  attempts : Nat := 1
  discoveredAt : Time
  lastAttemptAt : Time
  completedAt : Option Time
  deriving DecidableEq, Repr

abbrev GapTable := Dict String GapRow

/-- `ACCEPTED_RECOVERY_GAP_REASONS` -/
def acceptedRecoveryGapReasons : List String :=
  ["unrecoverable_gap_accepted", "checkpoint_unrecoverable"]

/-- What a call of the database finds besides the rows: new ids, the protocol checkpoints and the
time. -/
structure GapCall where
  newId : Protocol → String
  checkpoints : Protocol → Option String
  now : Time

/-- The `SELECT` of `record_stream_recovery_gap`. -/
def pendingRows (protocol : Protocol) (rows : GapTable) : List (String × GapRow) :=
  (rows.entries.filter fun e => e.2.protocol = protocol ∧ e.2.status = .pending).insertionSort
    fun e f => e.2.discoveredAt < f.2.discoveredAt ∨
      e.2.discoveredAt = f.2.discoveredAt ∧ e.1 ≤ f.1

def gapStatus (reason : String) : GapStatus :=
  if reason ∈ acceptedRecoveryGapReasons then .accepted else .pending

/-- The body of the loop of `record_stream_recovery_gap`; an id that is taken raises. -/
def recordGap (call : GapCall) (reason : String) (protocol : Protocol) (rows : GapTable) :
    Option GapTable :=
  let completedAt := if reason ∈ acceptedRecoveryGapReasons then some call.now else none
  let shortReason := String.ofList (reason.toList.take 64)
  match pendingRows protocol rows with
  | [] =>
      if rows.contains (call.newId protocol) then none
      else some <| rows.set (call.newId protocol)
        { protocol := protocol
          checkpointSignature := call.checkpoints protocol
          reason := shortReason
          status := gapStatus reason
          discoveredAt := call.now
          lastAttemptAt := call.now
          completedAt := completedAt }
  | primary :: duplicates =>
      let updated : GapRow :=
        { primary.2 with
          checkpointSignature := call.checkpoints protocol
          reason := shortReason
          status := gapStatus reason
          completedAt := completedAt
          attempts := ((primary :: duplicates).map fun e => e.2.attempts).sum + 1
          lastAttemptAt := call.now }
      some <| duplicates.foldl
        (fun rows e => rows.set e.1
          { e.2 with
            status := .resolved
            lastAttemptAt := call.now
            completedAt := some call.now })
        (rows.set primary.1 updated)

def recordStreamRecoveryGap (call : GapCall) (reason : String) (rows : GapTable) :
    Option GapTable :=
  (recordGap call reason .pump rows).bind (recordGap call reason .pumpswap)

def resolveStreamRecoveryGaps (now : Time) (rows : GapTable) : GapTable :=
  rows.mapValues fun _ row =>
    if row.status = .pending then
      { row with status := .resolved, completedAt := some now, lastAttemptAt := now }
    else row

/-! ## One protocol -/

/-- A row of the protocol is pending. -/
def PendingAt (rows : GapTable) (protocol : Protocol) (id : String) (row : GapRow) : Prop :=
  rows.get? id = some row ∧ row.protocol = protocol ∧ row.status = .pending

def OnePending (rows : GapTable) : Prop :=
  ∀ protocol id id' row row', PendingAt rows protocol id row → PendingAt rows protocol id' row' →
    id = id'

def NonePending (rows : GapTable) : Prop := ∀ protocol id row, ¬ PendingAt rows protocol id row

def attemptsOf (protocol : Protocol) (rows : GapTable) : Nat :=
  rows.total fun _ row => if row.protocol = protocol then row.attempts else 0

def acceptedOf (protocol : Protocol) (rows : GapTable) : Nat :=
  rows.total fun _ row => if row.protocol = protocol ∧ row.status = .accepted then 1 else 0

/-- What the loop does for one protocol: it adds a row, or it changes the pending one. -/
inductive Recorded (protocol : Protocol) (status : GapStatus) (rows : GapTable) : GapTable → Prop
  | opened (id : String) (row : GapRow) (fresh : rows.get? id = none)
      (unopened : ∀ id' row', ¬ PendingAt rows protocol id' row')
      (own : row.protocol = protocol) (reached : row.status = status) (first : row.attempts = 1) :
      Recorded protocol status rows (rows.set id row)
  | repeated (id : String) (old row : GapRow) (stored : PendingAt rows protocol id old)
      (own : row.protocol = protocol) (reached : row.status = status)
      (again : row.attempts = old.attempts + 1) :
      Recorded protocol status rows (rows.set id row)

theorem mem_pendingRows {protocol : Protocol} {rows : GapTable} {e : String × GapRow} :
    e ∈ pendingRows protocol rows ↔ PendingAt rows protocol e.1 e.2 := by
  rw [pendingRows, List.mem_insertionSort, List.mem_filter, decide_eq_true_eq,
    show e ∈ rows.entries ↔ rows.get? e.1 = some e.2 from Dict.mem_entries]
  exact Iff.rfl

theorem pendingRows_nodup (protocol : Protocol) (rows : GapTable) :
    ((pendingRows protocol rows).map Prod.fst).Nodup := by
  have hperm := (List.perm_insertionSort (fun e f : String × GapRow =>
    e.2.discoveredAt < f.2.discoveredAt ∨ e.2.discoveredAt = f.2.discoveredAt ∧ e.1 ≤ f.1)
    (rows.entries.filter fun e => e.2.protocol = protocol ∧ e.2.status = .pending)).map Prod.fst
  exact hperm.nodup_iff.mpr (rows.nodup.sublist (List.filter_sublist.map _))

/-- The loop finds at most one row. -/
theorem length_pendingRows_le {rows : GapTable} (hone : OnePending rows) (protocol : Protocol) :
    (pendingRows protocol rows).length ≤ 1 := by
  have hnodup := pendingRows_nodup protocol rows
  rcases hpending : pendingRows protocol rows with _ | ⟨first, _ | ⟨second, rest⟩⟩
  · exact Nat.zero_le _
  · exact le_refl _
  · have hfirst : PendingAt rows protocol first.1 first.2 :=
      mem_pendingRows.mp (hpending ▸ List.mem_cons_self)
    have hsecond : PendingAt rows protocol second.1 second.2 :=
      mem_pendingRows.mp (hpending ▸ List.mem_cons_of_mem _ List.mem_cons_self)
    have hsame := hone protocol _ _ _ _ hfirst hsecond
    simp [hpending, hsame] at hnodup

theorem recordGap_spec {call : GapCall} {reason : String} {protocol : Protocol}
    {rows rows' : GapTable} (hone : OnePending rows)
    (hok : recordGap call reason protocol rows = some rows') :
    Recorded protocol (gapStatus reason) rows rows' := by
  unfold recordGap at hok
  dsimp only at hok
  cases hpending : pendingRows protocol rows with
  | nil =>
      rw [hpending] at hok
      dsimp only at hok
      split at hok
      · cases hok
      · next hnew =>
          cases hok
          refine .opened _ _ (Dict.contains_eq_false.mp (Bool.not_eq_true _ ▸ hnew)) ?_ rfl rfl rfl
          intro id row hrow
          have hmem := mem_pendingRows (e := (id, row)).mpr hrow
          rw [hpending] at hmem
          cases hmem
  | cons primary duplicates =>
      rw [hpending] at hok
      have hprimary : PendingAt rows protocol primary.1 primary.2 :=
        mem_pendingRows.mp (hpending ▸ List.mem_cons_self)
      have hnone : duplicates = [] := by
        have hlength := length_pendingRows_le hone protocol
        rw [hpending, List.length_cons] at hlength
        exact List.length_eq_zero_iff.mp (by omega)
      subst hnone
      cases hok
      exact .repeated _ primary.2 _ hprimary hprimary.2.1 rfl (by simp)

namespace Recorded

variable {protocol : Protocol} {status : GapStatus} {rows rows' : GapTable}

theorem pendingAt_set {id : String} {row : GapRow} {p : Protocol} {id' : String} {row' : GapRow}
    (h : PendingAt (rows.set id row) p id' row') :
    id' = id ∧ row' = row ∨ id' ≠ id ∧ PendingAt rows p id' row' := by
  obtain ⟨hget, hrest⟩ := h
  rw [Dict.get?_set] at hget
  split at hget
  · next hsame => exact Or.inl ⟨hsame.symm, (Option.some.inj hget).symm⟩
  · next hne => exact Or.inr ⟨Ne.symm hne, hget, hrest⟩

/-- Of the protocol, only the row that was set can be pending. -/
theorem pendingAt (h : Recorded protocol status rows rows') (hone : OnePending rows) :
    ∃ target, ∀ p id row, PendingAt rows' p id row →
      p = protocol ∧ status = .pending ∧ id = target ∨
      p ≠ protocol ∧ PendingAt rows p id row := by
  cases h with
  | opened target new fresh unopened own reached first =>
      refine ⟨target, fun p id row hrow => ?_⟩
      rcases pendingAt_set hrow with ⟨hid, hsame⟩ | ⟨-, hold⟩
      · refine Or.inl ⟨?_, ?_, hid⟩
        · rw [← hrow.2.1, hsame, own]
        · rw [← reached, ← hsame, hrow.2.2]
      · refine Or.inr ⟨?_, hold⟩
        rintro rfl
        exact unopened id row hold
  | repeated target old new stored own reached again =>
      refine ⟨target, fun p id row hrow => ?_⟩
      rcases pendingAt_set hrow with ⟨hid, hsame⟩ | ⟨hne, hold⟩
      · refine Or.inl ⟨?_, ?_, hid⟩
        · rw [← hrow.2.1, hsame, own]
        · rw [← reached, ← hsame, hrow.2.2]
      · refine Or.inr ⟨?_, hold⟩
        rintro rfl
        exact hne (hone p id target row old hold stored)

theorem onePending (h : Recorded protocol status rows rows') (hone : OnePending rows) :
    OnePending rows' := by
  obtain ⟨target, htarget⟩ := h.pendingAt hone
  intro p id id' row row' hrow hrow'
  rcases htarget p id row hrow with ⟨hp, -, hid⟩ | ⟨hne, hold⟩
  · rcases htarget p id' row' hrow' with ⟨-, -, hid'⟩ | ⟨hne, -⟩
    · rw [hid, hid']
    · exact absurd hp hne
  · rcases htarget p id' row' hrow' with ⟨hp, -, -⟩ | ⟨-, hold'⟩
    · exact absurd hp hne
    · exact hone p id id' row row' hold hold'

theorem attemptsOf_eq (h : Recorded protocol status rows rows') (p : Protocol) :
    attemptsOf p rows' = attemptsOf p rows + if p = protocol then 1 else 0 := by
  unfold attemptsOf
  cases h with
  | opened target new fresh unopened own reached first =>
      rw [Dict.total_set_new _ fresh, own, first]
      simp only [eq_comm]
  | repeated target old new stored own reached again =>
      have hset := Dict.total_set_old
        (fun _ (row : GapRow) => if row.protocol = p then row.attempts else 0) stored.1 new
      simp only [own, stored.2.1, again] at hset
      by_cases hp : protocol = p
      · subst hp
        simp only [if_true] at hset ⊢
        omega
      · simp only [if_neg hp, if_neg (Ne.symm hp)] at hset ⊢
        exact hset

theorem acceptedOf_eq (h : Recorded protocol status rows rows') (p : Protocol) :
    acceptedOf p rows' =
      acceptedOf p rows + if p = protocol ∧ status = .accepted then 1 else 0 := by
  unfold acceptedOf
  cases h with
  | opened target new fresh unopened own reached first =>
      rw [Dict.total_set_new _ fresh, own, reached]
      simp only [eq_comm]
  | repeated target old new stored own reached again =>
      have hset := Dict.total_set_old
        (fun _ (row : GapRow) => if row.protocol = p ∧ row.status = .accepted then 1 else 0)
        stored.1 new
      simp only [own, reached, stored.2.2, reduceCtorEq, and_false, if_false, add_zero] at hset
      rw [hset]
      simp only [eq_comm]

/-- A row that is not pending stays. -/
theorem settled (h : Recorded protocol status rows rows') {id : String} {row : GapRow}
    (hget : rows.get? id = some row) (hsettled : row.status ≠ .pending) :
    rows'.get? id = some row := by
  cases h with
  | opened target new fresh =>
      rw [Dict.get?_set_ne, hget]
      rintro rfl
      rw [fresh] at hget
      cases hget
  | repeated target old new stored =>
      rw [Dict.get?_set_ne, hget]
      rintro rfl
      rw [stored.1] at hget
      cases hget
      exact hsettled stored.2.2

end Recorded

/-! ## A call of the database -/

/-- What a call that was committed does to the table. -/
structure Committed (final : Bool) (rows rows' : GapTable) : Prop where
  onePending : OnePending rows'
  attempts : ∀ p, attemptsOf p rows' = attemptsOf p rows + 1
  accepted : ∀ p, acceptedOf p rows' = acceptedOf p rows + if final then 1 else 0
  nonePending : final = true → NonePending rows'
  settled : ∀ id row, rows.get? id = some row → row.status ≠ .pending →
    rows'.get? id = some row

theorem recordStreamRecoveryGap_spec {call : GapCall} {reason : String} {rows rows' : GapTable}
    (hone : OnePending rows) (hok : recordStreamRecoveryGap call reason rows = some rows') :
    Committed (reason ∈ acceptedRecoveryGapReasons) rows rows' := by
  obtain ⟨middle, hpump, hpumpswap⟩ := Option.bind_eq_some_iff.mp hok
  have hfirst := recordGap_spec hone hpump
  have hmiddle := hfirst.onePending hone
  have hsecond := recordGap_spec hmiddle hpumpswap
  have haccepted : gapStatus reason = .accepted ↔ reason ∈ acceptedRecoveryGapReasons := by
    unfold gapStatus
    split <;> simp_all
  refine ⟨hsecond.onePending hmiddle, fun p => ?_, fun p => ?_, fun hyes p id row hrow => ?_, ?_⟩
  · rw [hsecond.attemptsOf_eq, hfirst.attemptsOf_eq]
    cases p <;> simp
  · rw [hsecond.acceptedOf_eq, hfirst.acceptedOf_eq]
    simp only [haccepted]
    cases p <;> simp
  · have hstatus := haccepted.mpr (of_decide_eq_true hyes)
    obtain ⟨first, hone'⟩ := hfirst.pendingAt hone
    obtain ⟨second, htwo⟩ := hsecond.pendingAt hmiddle
    rcases htwo p id row hrow with ⟨-, hpending, -⟩ | ⟨hp, hold⟩
    · rw [hstatus] at hpending
      cases hpending
    · rcases hone' p id row hold with ⟨-, hpending, -⟩ | ⟨hp', -⟩
      · rw [hstatus] at hpending
        cases hpending
      · cases p
        · exact hp' rfl
        · exact hp rfl
  · exact fun id row hget hsettled => hsecond.settled (hfirst.settled hget hsettled) hsettled

/-- What `resolve_stream_recovery_gaps` does to the table. -/
structure Resolved (rows rows' : GapTable) : Prop where
  nonePending : NonePending rows'
  attempts : ∀ p, attemptsOf p rows' = attemptsOf p rows
  accepted : ∀ p, acceptedOf p rows' = acceptedOf p rows
  settled : ∀ id row, rows.get? id = some row → row.status ≠ .pending →
    rows'.get? id = some row

theorem resolveStreamRecoveryGaps_spec (now : Time) (rows : GapTable) :
    Resolved rows (resolveStreamRecoveryGaps now rows) := by
  unfold resolveStreamRecoveryGaps
  refine ⟨?_, fun p => ?_, fun p => ?_, fun id row hget hsettled => ?_⟩
  · rintro p id row ⟨hget, -, hpending⟩
    rw [Dict.get?_mapValues] at hget
    obtain ⟨old, -, rfl⟩ := Option.map_eq_some_iff.mp hget
    split at hpending
    · cases hpending
    · next hnot => exact hnot hpending
  · rw [attemptsOf, Dict.total_mapValues]
    refine Dict.total_congr fun id row _ => ?_
    split <;> rfl
  · rw [acceptedOf, Dict.total_mapValues]
    refine Dict.total_congr fun id row _ => ?_
    split
    · next hpending => simp [hpending]
    · rfl
  · rw [Dict.get?_mapValues, hget, Option.map_some, if_neg hsettled]

/-! ## The connection and the table -/

/-- How a call of the database ends; it may raise although its transaction was committed. -/
inductive CallEnd
  | returned | raised | raisedCommitted
  deriving DecidableEq, Repr

/-- `_run` with the table, over several processes. -/
structure GapSystem where
  connection : Connection := {}
  /-- `_unrecoverable_gap_recorded` -/
  unrecoverableGapRecorded : Bool := false
  rows : GapTable := Dict.empty
  /-- The reasons of the calls that were committed. -/
  recorded : List String := []

inductive GapStep
  /-- A step of the connection in which the database is not called. -/
  | run (step : ConnectionStep)
  /-- The gap handler that `_run` waits for. -/
  | handler (call : GapCall) (ending : CallEnd)
  /-- `_hold_for_unrecoverable_gap` with a checkpoint that is too old. -/
  | hold (call : GapCall) (ending : CallEnd)
  /-- A new process, with the slot of the stored checkpoint. -/
  | restart (slot : Nat)

namespace GapSystem

variable (config : ConnectionConfig) (s : GapSystem)

/-- `record_stream_recovery_gap`, and how it ended. -/
def record (call : GapCall) (reason : String) (ending : CallEnd) : GapSystem × CallEnd :=
  match ending with
  | .raised => (s, .raised)
  | .returned | .raisedCommitted =>
      match recordStreamRecoveryGap call reason s.rows with
      | none => (s, .raised)
      | some rows => ({ s with rows := rows, recorded := s.recorded ++ [reason] }, ending)

/-- `_run` goes on after a call. -/
def after (ending : CallEnd) : GapSystem :=
  { s with
    connection :=
      if ending = .returned then s.connection.proceed config [] else s.connection.fail }

/-- `_run` waits for a handler. -/
def Awaiting (connection : Connection) : Prop :=
  match connection.phase with
  | .accepting | .interrupted | .resolving => True
  | _ => False

instance (connection : Connection) : Decidable (Awaiting connection) := by
  unfold Awaiting
  split <;> infer_instance

/-- The step is taken by a call of the database, or it is the hold. -/
def Called : ConnectionStep → Prop
  | .proceed _ | .fail => Awaiting s.connection
  | .connect recent =>
      config.haltOnUnrecoverableGap = true ∧ s.connection.lastSlot ≠ 0 ∧ recent = false
  | _ => False

instance (step : ConnectionStep) : Decidable (s.Called config step) := by
  unfold Called
  split <;> infer_instance

def step : GapStep → GapSystem
  | .run step =>
      if s.Called config step then s
      else { s with connection := s.connection.step config step }
  | .handler call ending =>
      match s.connection.phase with
      | .accepting =>
          let (s, ending) := s.record call "unrecoverable_gap_accepted" ending
          s.after config ending
      | .interrupted =>
          let (s, ending) := s.record call "recovery_timeout" ending
          s.after config ending
      | .resolving =>
          let rows := if ending = .raised then s.rows
            else resolveStreamRecoveryGaps call.now s.rows
          { s with rows := rows }.after config ending
      | _ => s
  | .hold call ending =>
      match s.connection.phase with
      | .waiting =>
          if config.haltOnUnrecoverableGap = true ∧ s.connection.lastSlot ≠ 0 then
            let s := { s with connection := s.connection.connect config false }
            if s.unrecoverableGapRecorded then s
            else
              match s.record call "checkpoint_unrecoverable" ending with
              | (s, .returned) => { s with unrecoverableGapRecorded := true }
              -- nothing catches what is raised here, and `_run` is over
              | (s, _) => { s with connection := s.connection.step config .stop }
          else s
      | _ => s
  | .restart slot =>
      { s with connection := { lastSlot := slot }, unrecoverableGapRecorded := false }

/-- A process begins with a checkpoint, or no gap is open. -/
def Restored (s : GapSystem) : GapStep → Prop
  | .restart slot => slot ≠ 0 ∨ ∀ row ∈ s.rows.values, row.status ≠ .pending
  | _ => True

instance (s : GapSystem) : (a : GapStep) → Decidable (s.Restored a)
  | .restart _ => inferInstanceAs (Decidable (_ ∨ ∀ _ ∈ _, _))
  | .run _ | .handler _ _ | .hold _ _ => isTrue trivial

end GapSystem

/-! ## The rows in a run -/

/-- What holds of the table in every state. -/
structure GapAudit (s : GapSystem) : Prop where
  onePending : OnePending s.rows
  attempts : ∀ p, attemptsOf p s.rows = s.recorded.length
  accepted : ∀ p, acceptedOf p s.rows = s.recorded.countP (· ∈ acceptedRecoveryGapReasons)

/-- The rows that are not pending stay. -/
def Settles (rows rows' : GapTable) : Prop :=
  ∀ id row, rows.get? id = some row → row.status ≠ .pending → rows'.get? id = some row

section Rows

variable {config : ConnectionConfig} {s : GapSystem}

theorem GapAudit.init : GapAudit {} where
  onePending := by
    rintro p id id' row row' ⟨hget, -⟩
    cases hget
  attempts _ := rfl
  accepted _ := rfl

theorem record_audit (h : GapAudit s) (call : GapCall) (reason : String) (ending : CallEnd) :
    GapAudit (s.record call reason ending).1 ∧
      Settles s.rows (s.record call reason ending).1.rows := by
  have hkept : GapAudit s ∧ Settles s.rows s.rows := ⟨h, fun _ _ hget _ => hget⟩
  unfold GapSystem.record
  split
  · exact hkept
  all_goals
    split
    · exact hkept
    · next rows hrows =>
        have hspec := recordStreamRecoveryGap_spec h.onePending hrows
        refine ⟨⟨hspec.onePending, fun p => ?_, fun p => ?_⟩, hspec.settled⟩
        · rw [hspec.attempts, h.attempts, List.length_append]
          rfl
        · rw [hspec.accepted, h.accepted, List.countP_append, List.countP_singleton]

theorem GapAudit.after (h : GapAudit s) (ending : CallEnd) : GapAudit (s.after config ending) :=
  ⟨h.onePending, h.attempts, h.accepted⟩

theorem GapAudit.step (h : GapAudit s) (a : GapStep) :
    GapAudit (s.step config a) ∧ Settles s.rows (s.step config a).rows := by
  have hkept : GapAudit s ∧ Settles s.rows s.rows := ⟨h, fun _ _ hget _ => hget⟩
  cases a with
  | run step =>
      unfold GapSystem.step
      dsimp only
      split
      · exact hkept
      · exact ⟨⟨h.onePending, h.attempts, h.accepted⟩, hkept.2⟩
  | handler call ending =>
      unfold GapSystem.step
      dsimp only
      split
      · have hrecord := record_audit h call "unrecoverable_gap_accepted" ending
        exact ⟨hrecord.1.after _, hrecord.2⟩
      · have hrecord := record_audit h call "recovery_timeout" ending
        exact ⟨hrecord.1.after _, hrecord.2⟩
      · have hresolved := resolveStreamRecoveryGaps_spec call.now s.rows
        by_cases hraised : ending = .raised
        · simp only [if_pos hraised]
          exact ⟨h.after ending, hkept.2⟩
        · simp only [if_neg hraised]
          refine ⟨GapAudit.after ⟨?_, fun p => ?_, fun p => ?_⟩ _, hresolved.settled⟩
          · exact fun p id id' row row' hrow => absurd hrow (hresolved.nonePending p id row)
          · exact (hresolved.attempts p).trans (h.attempts p)
          · exact (hresolved.accepted p).trans (h.accepted p)
      · exact hkept
  | hold call ending =>
      unfold GapSystem.step
      dsimp only
      split
      · split
        · have hconnected : GapAudit
              { s with connection := s.connection.connect config false } :=
            ⟨h.onePending, h.attempts, h.accepted⟩
          split
          · exact ⟨hconnected, hkept.2⟩
          · have hrecord := record_audit hconnected call "checkpoint_unrecoverable" ending
            split
            · next s' hs =>
                rw [hs] at hrecord
                exact ⟨⟨hrecord.1.onePending, hrecord.1.attempts, hrecord.1.accepted⟩, hrecord.2⟩
            · next s' ending' hs =>
                rw [hs] at hrecord
                exact ⟨⟨hrecord.1.onePending, hrecord.1.attempts, hrecord.1.accepted⟩, hrecord.2⟩
        · exact hkept
      · exact hkept
  | restart slot => exact ⟨⟨h.onePending, h.attempts, h.accepted⟩, hkept.2⟩

end Rows

end SniperBot.Stream
