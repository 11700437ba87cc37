import SniperBot.Archive.Recorder
import SniperBot.Events.Claims

/-!
# Archiving, and the recovery of the archive

The archive stage (`_apply_archive_batch`, `pipeline.py`) takes the claimed events in their order,
writes one file for each hour and protocol of a batch, and records the segments
(`record_raw_archive_segments`, `database.py`). A start loads the rows after the last recorded
sequence number and does the same with them, batch by batch (`start_background_workers`).

`ArchiveProcess.step` is what the archive stage, the other stages or a crash do between two points
at which the process may end. The events of a batch are those that the state stage works on, which
writes a flag into their payloads and the mint of a known pool into their rows. An event that is
delivered again before it is processed, or after it has failed, is claimed again: it keeps its row
and its number, and goes to the archive stage once more. `filed` is not part of the program: it
records the hour, the protocol and the sequence numbers of each written file.
-/

namespace SniperBot.Archive

open Basis

/-! ## Tables -/

/-- The raw rows, as `_event_from_row` reads them, the recorded segments and the files. -/
structure Store where
  rows : List EventEnvelope := []
  segments : List RawArchiveSegment := []
  files : Files := Dict.empty

inductive RecoveryError
  | archive (error : ArchiveError)
  /-- `RuntimeError`: raw archive segment checksum changed -/
  | checksumChanged
  /-- The loop has made more rounds than there are rows; it does not. -/
  | unfinished
  deriving DecidableEq, Repr

namespace Store

variable (store : Store)

/-- `last_archived_sequence` -/
def lastArchivedSequence : Nat := (store.segments.map (·.endSequence)).foldl max 0

/-- `load_events_for_archive` -/
def loadEventsForArchive (afterSequence : Nat) : List EventEnvelope :=
  (sortBySequence (store.rows.filter (afterSequence < ·.sequence))).take Events.maxEventBatchSize

end Store

/-- `record_raw_archive_segments`; a raising call writes nothing. -/
def recordRawArchiveSegments (recorded : List RawArchiveSegment) :
    List RawArchiveSegment → Except RecoveryError (List RawArchiveSegment)
  | [] => .ok recorded
  | segment :: segments =>
      if segment.startSequence = 0 then recordRawArchiveSegments recorded segments
      else match recorded.find? (·.path = segment.path) with
        | some existing =>
            if existing.checksumSha256 ≠ segment.checksumSha256 then .error .checksumChanged
            else recordRawArchiveSegments recorded segments
        | none => recordRawArchiveSegments (recorded ++ [segment]) segments

/-- `max(int(event.ingest_sequence or 0) for event in events)` -/
def maxSequence (events : List EventEnvelope) : Nat :=
  (events.map EventEnvelope.sequence).foldl max 0

/-! ## The recovery of a start -/

/-- The loop of `start_background_workers`. -/
def Codec.recoverFrom (codec : Codec) : Nat → Store → Nat → Except RecoveryError Store
  | 0, _, _ => .error .unfinished
  | rounds + 1, store, afterSequence =>
      let events := store.loadEventsForArchive afterSequence
      if events = [] then .ok store
      else match codec.writeSegments store.files events with
        | (_, .error error) => .error (.archive error)
        | (files, .ok segments) =>
            match recordRawArchiveSegments store.segments segments with
            | .error error => .error error
            | .ok recorded =>
                codec.recoverFrom rounds { store with segments := recorded, files := files }
                  (maxSequence events)

/-- The recovery of a start, from the last recorded sequence number on. -/
def Codec.recover (codec : Codec) (store : Store) : Except RecoveryError Store :=
  codec.recoverFrom (store.rows.length + 1) store store.lastArchivedSequence

/-! ## The process -/

/-- `event.payload["same_funder_cluster"] = flag` -/
def EventEnvelope.flagged (event : EventEnvelope) (flag : Bool) : EventEnvelope :=
  { event with
    payload :=
      if "same_funder_cluster" ∈ event.payload.map Prod.fst then
        event.payload.map fun field =>
          if field.1 = "same_funder_cluster" then (field.1, .bool flag) else field
      else event.payload ++ [("same_funder_cluster", .bool flag)] }

/-- An event in memory, flagged when it has the sequence number. -/
def EventEnvelope.reflagged (sequence : Nat) (flag : Bool) (event : EventEnvelope) : EventEnvelope :=
  if event.sequence = sequence then event.flagged flag else event

/-- A row, with another mint and pool when it has the sequence number. -/
def EventEnvelope.recontext (sequence : Nat) (mint poolAddress : Option String)
    (row : EventEnvelope) : EventEnvelope :=
  if row.sequence = sequence then { row with mint := mint, poolAddress := poolAddress } else row

structure ArchiveProcess where
  store : Store := {}
  /-- `after_sequence` of a start that is not finished -/
  recovering : Option Nat := some 0
  /-- The claimed events that the archive worker has not taken. A crash loses them, so one before
  they are enqueued is like one after. -/
  queue : List EventEnvelope := []
  batch : List EventEnvelope := []
  /-- The groups of the batch that this attempt has not written. -/
  pending : List ArchiveKey := []
  /-- The segments that this attempt has written. -/
  segments : List RawArchiveSegment := []
  filed : List (ArchiveKey × List Nat) := []

inductive ArchiveStep
  /-- The durable stage commits the rows of the new events among those that it claims. -/
  | claim (events : List EventEnvelope)
  /-- `_observe_event` -/
  | observe (sequence : Nat) (flag : Bool)
  /-- `update_raw_event_context` -/
  | context (sequence : Nat) (mint poolAddress : Option String)
  /-- A start loads the next batch of rows, or finds none and ends. -/
  | load
  /-- The archive worker takes a batch. -/
  | take (count : Nat)
  /-- The file of the next group is written. -/
  | write
  /-- An attempt fails for another reason. -/
  | fail
  | record
  | crash

/-- The claimed events that have no row yet. -/
def unrecorded (rows events : List EventEnvelope) : List EventEnvelope :=
  events.filter fun event => event.sequence ∉ rows.map EventEnvelope.sequence

/-- New sequence numbers, in their order. -/
def FreshEvents (rows events : List EventEnvelope) : Prop :=
  (∀ event ∈ events, event.ingestSequence ≠ none ∧ ∀ row ∈ rows, row.sequence < event.sequence) ∧
    (events.map EventEnvelope.sequence).Pairwise (· < ·) ∧
    ∀ event ∈ events, 0 < event.sequence

instance (rows events : List EventEnvelope) : Decidable (FreshEvents rows events) :=
  inferInstanceAs (Decidable (_ ∧ _))

/-- An event is claimed with the number of its row, or with a new one. -/
def Claimable (rows events : List EventEnvelope) : Prop :=
  FreshEvents rows (unrecorded rows events) ∧
    ∀ event ∈ events, ∀ row ∈ rows, row.sequence = event.sequence → row.eventId = event.eventId

instance (rows events : List EventEnvelope) : Decidable (Claimable rows events) :=
  inferInstanceAs (Decidable (_ ∧ _))

namespace ArchiveProcess

variable (s : ArchiveProcess)

/-- The process begins with a batch, or begins again with the one that it has. -/
def attempt (batch : List EventEnvelope) : ArchiveProcess :=
  { s with
    batch := batch
    pending := (Dict.group EventEnvelope.key batch).keys
    segments := [] }

/-- A group of the batch, with what its events are now. -/
def members (key : ArchiveKey) : List EventEnvelope := s.batch.filter (·.key = key)

/-- The next start, before it has loaded anything. -/
def crash : ArchiveProcess where
  store := s.store
  recovering := some s.store.lastArchivedSequence
  filed := s.filed

/-- An error ends a start, and the next one begins; the archive worker tries its batch again. -/
def fail : ArchiveProcess := if s.recovering = none then s.attempt s.batch else s.crash

/-- The body of the loop of `_write_segments_sync`. -/
def write (codec : Codec) : ArchiveProcess :=
  match s.pending with
  | [] => s
  | key :: pending =>
      match codec.prepare key (s.members key) with
      | .error _ => s.fail
      | .ok prepared =>
          match codec.writeAtomicSegment s.store.files prepared with
          | .error _ => s.fail
          | .ok files =>
              { s with
                store := { s.store with files := files }
                pending := pending
                segments := s.segments ++ [prepared.segment]
                filed :=
                  if (s.store.files.get? prepared.segment.path).isSome then s.filed
                  else s.filed ++ [(key, (s.members key).map EventEnvelope.sequence)] }

/-- The segments of a written batch are recorded. -/
def record : ArchiveProcess :=
  if s.batch = [] ∨ s.pending ≠ [] then s
  else match recordRawArchiveSegments s.store.segments s.segments with
    | .error _ => s.fail
    | .ok segments =>
        { s with
          store := { s.store with segments := segments }
          recovering := s.recovering.map fun _ => maxSequence s.batch
          batch := []
          segments := [] }

def load : ArchiveProcess :=
  match s.recovering with
  | none => s
  | some afterSequence =>
      if s.batch ≠ [] then s
      else if s.store.loadEventsForArchive afterSequence = [] then { s with recovering := none }
      else s.attempt (s.store.loadEventsForArchive afterSequence)

def take (count : Nat) : ArchiveProcess :=
  if s.recovering ≠ none ∨ s.batch ≠ [] then s
  else
    { s with queue := s.queue.drop (min count Events.maxEventBatchSize) }.attempt
      (s.queue.take (min count Events.maxEventBatchSize))

def claim (events : List EventEnvelope) : ArchiveProcess :=
  if s.recovering = none ∧ Claimable s.store.rows events then
    { s with
      store := { s.store with rows := s.store.rows ++ unrecorded s.store.rows events }
      queue := s.queue ++ events }
  else s

def observe (sequence : Nat) (flag : Bool) : ArchiveProcess :=
  { s with
    queue := s.queue.map (EventEnvelope.reflagged sequence flag)
    batch := s.batch.map (EventEnvelope.reflagged sequence flag) }

def context (sequence : Nat) (mint poolAddress : Option String) : ArchiveProcess :=
  { s with
    store := { s.store with
      rows := s.store.rows.map (EventEnvelope.recontext sequence mint poolAddress) } }

end ArchiveProcess

def ArchiveProcess.step (codec : Codec) (s : ArchiveProcess) : ArchiveStep → ArchiveProcess
  | .claim events => s.claim events
  | .observe sequence flag => s.observe sequence flag
  | .context sequence mint poolAddress => s.context sequence mint poolAddress
  | .load => s.load
  | .take count => s.take count
  | .write => s.write codec
  | .fail => s.fail
  | .record => s.record
  | .crash => s.crash

end SniperBot.Archive
