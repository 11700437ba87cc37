import SniperBot.Basis.Buffers
import SniperBot.Events.Delivery
import SniperBot.Features.Registry
import Mathlib.Data.List.Sort
import Mathlib.Data.List.TakeWhile
import Mathlib.Data.Finset.Sort
import Mathlib.Data.String.Basic

/-!
# Checkpoints of the processed prefix

The loads that a start reads (`database.py`): `load_processed_events_since`,
`load_processed_pool_creation_events`, `load_stream_checkpoint`, `load_protocol_checkpoints`,
`load_unprocessed_events` and `load_quarantined_event_protocols`. The first four look at the rows
before the first one that is not `PROCESSED` only. A checkpoint is one signature for each
protocol, and the gateway fetches what follows it in the stream of that protocol again.

`checkpoints_lose_only_quarantined` follows every run of calls that records whole transactions in
stream order, by any number of instances one after the other. What the loads return has settled
predecessors, every transaction up to a checkpoint is stored, and no event is lost unless its
attempts are used up; then its protocol is reported.

Retention, which deletes raw rows by age, is left out.
-/

namespace SniperBot.Events

open Basis Features

/-! ## Loads -/

/-- `MAX_EVENT_PROCESSING_ATTEMPTS` -/
def maxEventProcessingAttempts : Nat := 3

/-- A row of `raw_chain_events` joined with the row of `event_dedup` for its event. -/
structure JoinedRow where
  ingestSequence : Nat
  event : EventEnvelope
  claim : DedupRow

section Loads

variable (columns : String → EventEnvelope) (db : EventDb)

/-- The join on `event_id`; `columns` is what the raw row of an event stores of its envelope. -/
def EventDb.joined : List JoinedRow :=
  db.raw.entries.filterMap fun entry =>
    (db.dedup.get? entry.1).map fun claim => ⟨entry.2, columns entry.1, claim⟩

/-- `first_unresolved` -/
def firstUnresolved (rows : List JoinedRow) : Option Nat :=
  ((rows.filter fun row => row.claim.status ≠ .processed).map JoinedRow.ingestSequence).min?

/-- `_processed_prefix_condition` -/
def InProcessedPrefix (rows : List JoinedRow) (row : JoinedRow) : Prop :=
  ∀ first ∈ firstUnresolved rows, row.ingestSequence < first

instance (rows : List JoinedRow) (row : JoinedRow) : Decidable (InProcessedPrefix rows row) := by
  unfold InProcessedPrefix
  infer_instance

/-- The rows that the four prefix loads select, with their own condition on the event. -/
def processedPrefix (rows : List JoinedRow) (condition : EventEnvelope → Prop)
    [DecidablePred condition] : List JoinedRow :=
  rows.filter fun row =>
    row.claim.status = .processed ∧ condition row.event ∧ InProcessedPrefix rows row

/-- `ORDER BY ingest_sequence` -/
def orderByIngestSequence (rows : List JoinedRow) : List JoinedRow :=
  rows.insertionSort fun a b => a.ingestSequence ≤ b.ingestSequence

def EventDb.loadProcessedEventsSince (since : Time) : List EventEnvelope :=
  (orderByIngestSequence
    (processedPrefix (db.joined columns) fun event => since ≤ event.blockTime)).map
      JoinedRow.event

def EventDb.loadProcessedPoolCreationEvents (poolAddresses : Finset String) :
    List EventEnvelope :=
  (orderByIngestSequence
    ((slices 500 (Text.sorted poolAddresses)).flatMap fun chunk =>
      processedPrefix (db.joined columns) fun event =>
        event.eventType = .poolCreated ∧ ∃ address ∈ event.poolAddress, address ∈ chunk)).map
      JoinedRow.event

def EventDb.loadStreamCheckpoint : Nat × Option String × Option Time :=
  match (orderByIngestSequence
    (processedPrefix (db.joined columns) fun event => event.source ≠ .replay)).getLast? with
  | none => (0, none, none)
  | some row => (row.event.slot, some row.event.signature, some row.event.blockTime)

/-- The signature that the loop of `load_protocol_checkpoints` reads for one protocol. -/
def EventDb.protocolCheckpoint (protocol : Protocol) : Option String :=
  ((orderByIngestSequence
    (processedPrefix (db.joined columns) fun event =>
      event.protocol = protocol ∧ event.source ≠ .replay)).getLast?).map fun row =>
        row.event.signature

def EventDb.loadProtocolCheckpoints : Dict Protocol String :=
  let protocols := ((db.raw.entries.map fun entry => columns entry.1).filter fun event =>
    event.source ≠ .replay).map EventEnvelope.protocol
  Dict.collect id (fun protocol =>
    (db.protocolCheckpoint columns protocol).filter (· ≠ "")) protocols.dedup Dict.empty

def EventDb.loadUnprocessedEvents (now : Time) (includeOwnedProcessing : Bool) :
    List EventEnvelope :=
  let staleBefore := now - seconds 120
  (orderByIngestSequence ((db.joined columns).filter fun row =>
    row.claim.attempts < maxEventProcessingAttempts ∧
      (row.claim.status = .failed ∨
        (row.claim.status = .processing ∧
          (includeOwnedProcessing = true ∨
            ∀ attempt ∈ row.claim.lastAttemptAt, attempt ≤ staleBefore))))).map JoinedRow.event

def EventDb.loadQuarantinedEventProtocols : Finset Protocol :=
  let rows := db.joined columns
  let protocols := ((rows.filter fun row =>
    (row.claim.status = .failed ∨ row.claim.status = .processing) ∧
      maxEventProcessingAttempts ≤ row.claim.attempts).map fun row => row.event.protocol).toFinset
  match firstUnresolved rows with
  | none => protocols
  | some first =>
      let processedSuffixCount := (rows.filter fun row =>
        first < row.ingestSequence ∧ row.claim.status = .processed).length
      if processedSuffixCount = 0 then protocols
      else protocols ∪ ((db.raw.entries.filter fun entry => first ≤ entry.2).map fun entry =>
        (columns entry.1).protocol).toFinset

end Loads

/-! ## Streams -/

/-- A transaction of a protocol stream with the ids of the events that its decoder reads. -/
structure Transaction where
  protocol : Protocol
  signature : String
  events : List String
  deriving DecidableEq

/-- The transactions of the protocol streams, those of one protocol in its order. -/
structure ChainStream where
  transactions : List Transaction
  signatures : (transactions.map fun tx => (tx.protocol, tx.signature)).Nodup

/-- Columns of raw rows that agree with a stream. -/
structure StoredColumns (stream : ChainStream) where
  event : String → EventEnvelope
  decoded : ∀ tx ∈ stream.transactions, ∀ id ∈ tx.events,
    (event id).protocol = tx.protocol ∧ (event id).signature = tx.signature

section Streams

variable (stream : ChainStream)

def ChainStream.ofProtocol (protocol : Protocol) : List Transaction :=
  stream.transactions.filter fun tx => tx.protocol = protocol

/-- What a protocol stream holds up to the signature and including it. -/
def ChainStream.through (protocol : Protocol) (signature : String) : List Transaction :=
  ((stream.ofProtocol protocol).takeWhile fun tx => tx.signature ≠ signature) ++
    ((stream.ofProtocol protocol).dropWhile fun tx => tx.signature ≠ signature).take 1

/-- What is fetched again when the checkpoint of the protocol is `signature`. -/
def ChainStream.after (protocol : Protocol) (signature : String) : List Transaction :=
  ((stream.ofProtocol protocol).dropWhile fun tx => tx.signature ≠ signature).drop 1

/-- The event has a durable raw row. -/
def EventDb.Stored (db : EventDb) (id : String) : Prop := db.raw.get? id ≠ none

instance (db : EventDb) (id : String) : Decidable (db.Stored id) :=
  inferInstanceAs (Decidable (¬ _))

/-- A call records events of the stream only, and with an event of a transaction everything up
to that transaction is recorded or stored already. -/
def ChainStream.InOrder (w : World) : ClaimOp → Prop
  | .record _ ids _ _ =>
      (∀ id ∈ ids, ∃ tx ∈ stream.transactions, id ∈ tx.events) ∧
      ∀ tx ∈ stream.transactions, (∃ id ∈ tx.events, id ∈ ids) →
        ∀ earlier ∈ stream.through tx.protocol tx.signature, ∀ id ∈ earlier.events,
          id ∈ ids ∨ w.db.Stored id
  | .settle .. => True
  | .release .. => True

instance (w : World) : ∀ op, Decidable (stream.InOrder w op)
  | .record _ _ _ _ => inferInstanceAs (Decidable (_ ∧ _))
  | .settle _ _ _ _ _ => inferInstanceAs (Decidable True)
  | .release _ _ => inferInstanceAs (Decidable True)

end Streams

section Positions

variable {stream : ChainStream} {protocol : Protocol} {signature : String} {tx : Transaction}

theorem mem_ofProtocol :
    tx ∈ stream.ofProtocol protocol ↔ tx ∈ stream.transactions ∧ tx.protocol = protocol := by
  rw [ChainStream.ofProtocol, List.mem_filter, decide_eq_true_eq]

/-- A transaction of the protocol lies up to the signature or after it. -/
theorem mem_through_or_after (htx : tx ∈ stream.transactions) (hprotocol : tx.protocol = protocol)
    (signature : String) :
    tx ∈ stream.through protocol signature ∨ tx ∈ stream.after protocol signature := by
  have hmem := mem_ofProtocol.mpr ⟨htx, hprotocol⟩
  rw [← List.takeWhile_append_dropWhile (p := fun tx => decide (tx.signature ≠ signature))
    (l := stream.ofProtocol protocol), ← List.take_append_drop 1
      ((stream.ofProtocol protocol).dropWhile _), ← List.append_assoc] at hmem
  exact List.mem_append.mp hmem

/-- The signature determines the transaction. -/
theorem ChainStream.unique {tx' : Transaction} (htx : tx ∈ stream.transactions)
    (htx' : tx' ∈ stream.transactions) (hprotocol : tx.protocol = tx'.protocol)
    (hsignature : tx.signature = tx'.signature) : tx = tx' :=
  List.inj_on_of_nodup_map stream.signatures htx htx' (Prod.ext hprotocol hsignature)

/-- A transaction is the last one up to its own signature. -/
theorem mem_through_self (htx : tx ∈ stream.transactions) :
    tx ∈ stream.through tx.protocol tx.signature := by
  rw [ChainStream.through, List.mem_append]
  refine Or.inr ?_
  cases hrest : (stream.ofProtocol tx.protocol).dropWhile
      fun other => decide (other.signature ≠ tx.signature) with
  | nil =>
      have hall := List.dropWhile_eq_nil_iff.mp hrest tx (mem_ofProtocol.mpr ⟨htx, rfl⟩)
      exact absurd rfl (of_decide_eq_true hall)
  | cons head rest =>
      have hhead : head ∈ stream.ofProtocol tx.protocol :=
        (List.dropWhile_sublist _).mem (hrest ▸ List.mem_cons_self)
      have hsame : head.signature = tx.signature := by
        have hnot := List.head?_dropWhile_not
          (fun other : Transaction => decide (other.signature ≠ tx.signature))
          (stream.ofProtocol tx.protocol)
        rw [hrest] at hnot
        exact not_not.mp (of_decide_eq_false hnot)
      obtain ⟨hstream, hprotocol⟩ := mem_ofProtocol.mp hhead
      rw [ChainStream.unique htx hstream hprotocol.symm hsame.symm]
      exact List.mem_cons_self

end Positions

/-! ## Prefixes -/

/-- The event and everything before it in ingest order is settled. -/
def EventDb.PrefixSettled (db : EventDb) (id : String) : Prop :=
  ∃ n, db.raw.get? id = some n ∧
    ∀ other m, db.raw.get? other = some m → m ≤ n → db.Settled other

section Prefix

variable {columns : String → EventEnvelope} {db : EventDb} {dialect : Dialect}
  {condition : EventEnvelope → Prop} [DecidablePred condition] {row : JoinedRow}

theorem mem_joined : row ∈ db.joined columns ↔ ∃ id, db.raw.get? id = some row.ingestSequence ∧
    db.dedup.get? id = some row.claim ∧ row.event = columns id := by
  rw [EventDb.joined, List.mem_filterMap]
  constructor
  · rintro ⟨⟨id, n⟩, hentry, hrow⟩
    obtain ⟨claim, hclaim, rfl⟩ := Option.map_eq_some_iff.mp hrow
    exact ⟨id, Dict.mem_entries.mp hentry, hclaim, rfl⟩
  · rintro ⟨id, hraw, hclaim, hevent⟩
    refine ⟨(id, row.ingestSequence), Dict.mem_entries.mpr hraw, ?_⟩
    rw [hclaim, Option.map_some, ← hevent]

/-- Every stored event has a joined row. -/
theorem Sequences.joined (h : Sequences dialect db) (columns : String → EventEnvelope)
    {id : String} {n : Nat} (hraw : db.raw.get? id = some n) :
    ∃ claim, db.dedup.get? id = some claim ∧ ⟨n, columns id, claim⟩ ∈ db.joined columns := by
  have hclaim : db.dedup.get? id ≠ none := by
    intro hnone
    rw [(h.coupled id).mpr hnone] at hraw
    cases hraw
  obtain ⟨claim, hclaim⟩ := Option.ne_none_iff_exists'.mp hclaim
  exact ⟨claim, hclaim, mem_joined.mpr ⟨id, hraw, hclaim, rfl⟩⟩

/-- The first unresolved sequence is not above that of any unresolved row. -/
theorem firstUnresolved_le {rows : List JoinedRow} (hrow : row ∈ rows)
    (hstatus : row.claim.status ≠ .processed) :
    ∃ first ∈ firstUnresolved rows, first ≤ row.ingestSequence := by
  have hmem : row.ingestSequence ∈ (rows.filter fun row => row.claim.status ≠ .processed).map
      JoinedRow.ingestSequence :=
    List.mem_map_of_mem (List.mem_filter.mpr ⟨hrow, decide_eq_true hstatus⟩)
  obtain ⟨first, hfirst⟩ := Option.isSome_iff_exists.mp (List.isSome_min?_of_mem hmem)
  exact ⟨first, hfirst, (List.min?_eq_some_iff.mp hfirst).2 _ hmem⟩

theorem mem_orderByIngestSequence {rows : List JoinedRow} :
    row ∈ orderByIngestSequence rows ↔ row ∈ rows := List.mem_insertionSort _

/-- A row that a prefix load selects is one of a settled prefix. -/
theorem Sequences.processedPrefix (h : Sequences dialect db)
    (hrow : row ∈ processedPrefix (db.joined columns) condition) :
    ∃ id, db.PrefixSettled id ∧ row.event = columns id ∧ condition row.event := by
  obtain ⟨hjoined, hselected⟩ := List.mem_filter.mp hrow
  obtain ⟨-, hcondition, hprefix⟩ := of_decide_eq_true hselected
  obtain ⟨id, hraw, -, hevent⟩ := mem_joined.mp hjoined
  refine ⟨id, ⟨row.ingestSequence, hraw, fun other m hother hle => ?_⟩, hevent, hcondition⟩
  obtain ⟨claim, hclaim, hmem⟩ := h.joined columns hother
  by_contra hopen
  -- an open predecessor would end the prefix before the row
  obtain ⟨first, hfirst, hbelow⟩ :=
    firstUnresolved_le hmem fun hstatus => hopen ⟨claim, hclaim, hstatus⟩
  have hlt := hprefix first hfirst
  dsimp only at hbelow
  omega

end Prefix

/-! ## Whole transactions -/

/-- Only events of the stream are stored, and with an event of a transaction everything up to
that transaction. -/
structure EventDb.Whole (db : EventDb) (stream : ChainStream) : Prop where
  decoded : ∀ id, db.Stored id → ∃ tx ∈ stream.transactions, id ∈ tx.events
  through : ∀ tx ∈ stream.transactions, (∃ id ∈ tx.events, db.Stored id) →
    ∀ earlier ∈ stream.through tx.protocol tx.signature, ∀ id ∈ earlier.events, db.Stored id

section Whole

variable {stream : ChainStream} {dialect : Dialect} {w : World}

/-- A batch stores its own events in addition to those stored before. -/
theorem Sequences.stored_claimBatch {db : EventDb} (h : Sequences dialect db) {call : ClaimCall}
    {held claims : Dict String Nat} {unique : List String} (hnodup : unique.Nodup) (id : String) :
    (db.claimBatch dialect call held claims unique).Stored id ↔ id ∈ unique ∨ db.Stored id := by
  rw [EventDb.Stored, EventDb.Stored, ne_eq, (h.claimBatch hnodup).coupled id,
    claimBatch_dedup hnodup, ne_eq, h.coupled id]
  split
  · rename_i hid
    exact iff_of_true nofun (Or.inl hid)
  · rename_i hid
    exact (or_iff_right hid).symm

theorem EventDb.Whole.apply (h : w.db.Whole stream) (hsound : Sound dialect w) (op : ClaimOp)
    (horder : stream.InOrder w op) : (w.apply dialect op).db.Whole stream := by
  cases op with
  | record owner ids call outcome =>
      rw [World.apply]
      rcases recordEvents_db dialect w owner ids call outcome with ⟨last, -, heq⟩ | ⟨claims, heq⟩
      · rw [heq]
        exact ⟨h.decoded, h.through⟩
      · have hstored : ∀ id, (w.recordEvents dialect owner ids call outcome).db.Stored id ↔
            id ∈ ids ∨ w.db.Stored id := fun id => by
          rw [heq, hsound.sequences.stored_claimBatch (firstOccurrences_nodup ids),
            mem_firstOccurrences]
        refine ⟨fun id hid => ?_, fun tx htx htouched earlier hearlier id hid => ?_⟩
        · rcases (hstored id).mp hid with hid | hid
          · exact horder.1 id hid
          · exact h.decoded id hid
        · rw [hstored]
          obtain ⟨touched, htouched, hnew⟩ := htouched
          rcases (hstored touched).mp hnew with hnew | hold
          · exact horder.2 tx htx ⟨touched, htouched, hnew⟩ earlier hearlier id hid
          · exact Or.inr (h.through tx htx ⟨touched, htouched, hold⟩ earlier hearlier id hid)
  | settle owner ids how at' outcome =>
      rw [World.apply]
      rcases settleEvents_db w owner ids how at' outcome with heq | ⟨-, heq⟩
      · rw [heq]
        exact h
      · rw [heq]
        exact ⟨h.decoded, h.through⟩
  | release owner id => exact h

/-- What holds after every run that records whole transactions in stream order. -/
theorem whole_run (dialect : Dialect) (stream : ChainStream) {ops : List ClaimOp}
    (hrun : Along stream.InOrder (World.apply dialect) {} ops) :
    Sound dialect (exec (World.apply dialect) {} ops) ∧
      (exec (World.apply dialect) {} ops).db.Whole stream := by
  refine Along.invariant (I := fun w => Sound dialect w ∧ w.db.Whole stream) ?_
    ⟨Sound.init dialect, ⟨fun _ hstored => absurd rfl hstored, ?_⟩⟩ hrun
  · rintro w op ⟨hsound, hwhole⟩ horder
    exact ⟨(hsound.apply op).1, hwhole.apply hsound op horder⟩
  · rintro tx - ⟨id, -, hstored⟩
    exact absurd rfl hstored

end Whole

/-! ## Accounting for every event -/

/-- The attempts at the event are used up. -/
def EventDb.Quarantined (db : EventDb) (id : String) : Prop :=
  ∃ row, db.dedup.get? id = some row ∧ row.status ≠ .processed ∧
    maxEventProcessingAttempts ≤ row.attempts

section Accounting

variable {columns : String → EventEnvelope} {db : EventDb} {dialect : Dialect} {id : String}

theorem EventDb.loadProcessedEventsSince_prefix (h : Sequences dialect db) {since : Time}
    {event : EventEnvelope} (hevent : event ∈ db.loadProcessedEventsSince columns since) :
    ∃ id, db.PrefixSettled id ∧ event = columns id := by
  obtain ⟨row, hrow, rfl⟩ := List.mem_map.mp hevent
  obtain ⟨id, hprefix, heq, -⟩ := h.processedPrefix (mem_orderByIngestSequence.mp hrow)
  exact ⟨id, hprefix, heq⟩

theorem EventDb.loadProcessedPoolCreationEvents_prefix (h : Sequences dialect db)
    {poolAddresses : Finset String} {event : EventEnvelope}
    (hevent : event ∈ db.loadProcessedPoolCreationEvents columns poolAddresses) :
    ∃ id, db.PrefixSettled id ∧ event = columns id := by
  obtain ⟨row, hrow, rfl⟩ := List.mem_map.mp hevent
  obtain ⟨chunk, -, hrow⟩ := List.mem_flatMap.mp (mem_orderByIngestSequence.mp hrow)
  obtain ⟨id, hprefix, heq, -⟩ := h.processedPrefix hrow
  exact ⟨id, hprefix, heq⟩

theorem EventDb.loadStreamCheckpoint_prefix (h : Sequences dialect db) :
    db.loadStreamCheckpoint columns = (0, none, none) ∨
      ∃ id, db.PrefixSettled id ∧ db.loadStreamCheckpoint columns =
        ((columns id).slot, some (columns id).signature, some (columns id).blockTime) := by
  unfold EventDb.loadStreamCheckpoint
  split
  · exact Or.inl rfl
  · rename_i row hlast
    obtain ⟨id, hprefix, heq, -⟩ :=
      h.processedPrefix (mem_orderByIngestSequence.mp (List.mem_of_getLast? hlast))
    exact Or.inr ⟨id, hprefix, by rw [heq]⟩

/-- A checkpoint is the signature of a row of its protocol in the settled prefix. -/
theorem EventDb.loadProtocolCheckpoints_prefix (h : Sequences dialect db) {protocol : Protocol}
    {signature : String}
    (hcheckpoint : (db.loadProtocolCheckpoints columns).get? protocol = some signature) :
    ∃ id, db.PrefixSettled id ∧ (columns id).protocol = protocol ∧
      (columns id).signature = signature := by
  have hsome : (db.protocolCheckpoint columns protocol).filter (· ≠ "") = some signature := by
    rcases Dict.exists_of_get?_collect _ _ _ hcheckpoint with ⟨other, -, hsame, hvalue⟩ | hempty
    · rw [← show other = protocol from hsame]
      exact hvalue
    · cases hempty
  have hloaded := (Option.filter_eq_some_iff.mp hsome).1
  obtain ⟨row, hlast, hsignature⟩ := Option.map_eq_some_iff.mp hloaded
  obtain ⟨id, hprefix, heq, hprotocol, -⟩ :=
    h.processedPrefix (mem_orderByIngestSequence.mp (List.mem_of_getLast? hlast))
  rw [heq] at hprotocol hsignature
  exact ⟨id, hprefix, hprotocol, hsignature⟩

/-- A stored event is settled, loaded as unprocessed, or reported as quarantined. -/
theorem Sequences.accounted (h : Sequences dialect db) (columns : String → EventEnvelope)
    (hstored : db.Stored id) (now : Time) :
    db.Settled id ∨ columns id ∈ db.loadUnprocessedEvents columns now true ∨
      (db.Quarantined id ∧
        (columns id).protocol ∈ db.loadQuarantinedEventProtocols columns) := by
  obtain ⟨n, hraw⟩ := Option.ne_none_iff_exists'.mp hstored
  obtain ⟨claim, hclaim, hjoined⟩ := h.joined columns hraw
  by_cases hstatus : claim.status = .processed
  · exact Or.inl ⟨claim, hclaim, hstatus⟩
  · have hopen : claim.status = .failed ∨ claim.status = .processing := by
      cases hcase : claim.status with
      | processing => exact Or.inr rfl
      | processed => exact absurd hcase hstatus
      | failed => exact Or.inl rfl
    by_cases hattempts : claim.attempts < maxEventProcessingAttempts
    · refine Or.inr (Or.inl (List.mem_map.mpr ⟨_, mem_orderByIngestSequence.mpr
        (List.mem_filter.mpr ⟨hjoined, decide_eq_true ⟨hattempts, ?_⟩⟩), rfl⟩))
      exact hopen.imp (fun hfailed => hfailed) fun hprocessing => ⟨hprocessing, Or.inl rfl⟩
    · refine Or.inr (Or.inr ⟨⟨claim, hclaim, hstatus, not_lt.mp hattempts⟩, ?_⟩)
      have hterminal : (columns id).protocol ∈ (((db.joined columns).filter fun row =>
          (row.claim.status = .failed ∨ row.claim.status = .processing) ∧
            maxEventProcessingAttempts ≤ row.claim.attempts).map fun row =>
              row.event.protocol).toFinset :=
        List.mem_toFinset.mpr (List.mem_map.mpr ⟨_, List.mem_filter.mpr
          ⟨hjoined, decide_eq_true ⟨hopen, not_lt.mp hattempts⟩⟩, rfl⟩)
      unfold EventDb.loadQuarantinedEventProtocols
      dsimp only
      split
      · exact hterminal
      · split
        · exact hterminal
        · exact Finset.mem_union_left _ hterminal

end Accounting

/-- After every run that records whole transactions in stream order: what the prefix loads return
has settled predecessors; every event up to the checkpoint of a protocol, and of any transaction
that has an event at or before it in ingest order, is stored; and every event of the protocol is
settled, loaded as unprocessed, fetched again, or reported with its attempts used up. -/
theorem checkpoints_lose_only_quarantined (dialect : Dialect) (stream : ChainStream)
    (columns : StoredColumns stream) (ops : List ClaimOp)
    (hrun : Along stream.InOrder (World.apply dialect) {} ops) :
    let db := (exec (World.apply dialect) {} ops).db
    (∀ since, ∀ event ∈ db.loadProcessedEventsSince columns.event since,
      ∃ id, db.PrefixSettled id ∧ event = columns.event id) ∧
    (∀ poolAddresses, ∀ event ∈ db.loadProcessedPoolCreationEvents columns.event poolAddresses,
      ∃ id, db.PrefixSettled id ∧ event = columns.event id) ∧
    (db.loadStreamCheckpoint columns.event = (0, none, none) ∨
      ∃ id, db.PrefixSettled id ∧ db.loadStreamCheckpoint columns.event =
        ((columns.event id).slot, some (columns.event id).signature,
          some (columns.event id).blockTime)) ∧
    ∀ protocol signature,
      (db.loadProtocolCheckpoints columns.event).get? protocol = some signature →
      ∃ tx ∈ stream.transactions, tx.protocol = protocol ∧ tx.signature = signature ∧
        (∃ id ∈ tx.events, db.PrefixSettled id) ∧
        (∀ earlier ∈ stream.through protocol signature, ∀ id ∈ earlier.events, db.Stored id) ∧
        (∀ other ∈ stream.transactions, (∃ id ∈ other.events, ∃ n ∈ db.raw.get? id,
            ∃ last ∈ tx.events, ∃ m ∈ db.raw.get? last, n ≤ m) →
          ∀ id ∈ other.events, db.Stored id) ∧
        ∀ other ∈ stream.transactions, other.protocol = protocol → ∀ id ∈ other.events, ∀ now,
          db.Settled id ∨ columns.event id ∈ db.loadUnprocessedEvents columns.event now true ∨
            other ∈ stream.after protocol signature ∨
            (db.Quarantined id ∧
              protocol ∈ db.loadQuarantinedEventProtocols columns.event) := by
  intro db
  obtain ⟨hsound, hwhole⟩ := whole_run dialect stream hrun
  have hsequences := hsound.sequences
  refine ⟨fun since event => EventDb.loadProcessedEventsSince_prefix hsequences,
    fun poolAddresses event => EventDb.loadProcessedPoolCreationEvents_prefix hsequences,
    EventDb.loadStreamCheckpoint_prefix hsequences, fun protocol signature hcheckpoint => ?_⟩
  obtain ⟨id, hprefix, hprotocol, hsignature⟩ :=
    EventDb.loadProtocolCheckpoints_prefix hsequences hcheckpoint
  have hstored : db.Stored id := by
    obtain ⟨n, hraw, -⟩ := hprefix
    exact Option.ne_none_iff_exists'.mpr ⟨n, hraw⟩
  obtain ⟨tx, htx, hid⟩ := hwhole.decoded id hstored
  obtain ⟨htxprotocol, htxsignature⟩ := columns.decoded tx htx id hid
  have hthrough := hwhole.through tx htx ⟨id, hid, hstored⟩
  rw [← htxprotocol, ← htxsignature, hprotocol, hsignature] at hthrough
  refine ⟨tx, htx, htxprotocol.symm.trans hprotocol, htxsignature.symm.trans hsignature,
    ⟨id, hid, hprefix⟩, hthrough, ?_, fun other hother hsame event hevent now => ?_⟩
  · rintro other hother ⟨first, hfirst, n, hraw, -⟩
    exact hwhole.through other hother ⟨first, hfirst, Option.ne_none_iff_exists'.mpr ⟨n, hraw⟩⟩
      other (mem_through_self hother)
  · rcases mem_through_or_after hother hsame signature with hbefore | hafter
    · rcases hsequences.accounted columns.event (hthrough other hbefore event hevent) now
        with hsettled | hloaded | ⟨hquarantined, hreported⟩
      · exact Or.inl hsettled
      · exact Or.inr (Or.inl hloaded)
      · rw [(columns.decoded other hother event hevent).1, hsame] at hreported
        exact Or.inr (Or.inr (Or.inr ⟨hquarantined, hreported⟩))
    · exact Or.inr (Or.inr (Or.inl hafter))

/-- Two transactions of one protocol, with two events and with one. -/
def sampleStream : ChainStream where
  transactions := [⟨.pump, "first", ["a", "b"]⟩, ⟨.pump, "second", ["c"]⟩]
  signatures := by decide

def sampleColumns : StoredColumns sampleStream where
  event := fun id =>
    { eventId := id, source := .heliusWss, protocol := .pump, eventType := .swapBuy, slot := 1
      signature := if id = "c" then "second" else "first", blockTime := 0, observedAt := 0 }
  decoded := by decide

/-- A crash while the second transaction is being processed. -/
def crashedRun : List ClaimOp :=
  [.record 0 ["a", "b"] { now := 0 } .committed,
   .record 0 ["c"] { now := 0 } .committed,
   .settle 0 ["b", "a"] .processed 1 .committed]

theorem checkpoints_lose_only_quarantined_crashed :
    let db := (exec (World.apply .sqlite) {} crashedRun).db
    ∃ tx ∈ sampleStream.transactions, tx.signature = "first" ∧ ∀ id ∈ tx.events, db.Stored id := by
  have hrun : Along sampleStream.InOrder (World.apply .sqlite) {} crashedRun := by decide
  obtain ⟨-, -, -, hcheckpoints⟩ :=
    checkpoints_lose_only_quarantined .sqlite sampleStream sampleColumns crashedRun hrun
  obtain ⟨tx, htx, hprotocol, hsignature, -, hthrough, -⟩ :=
    hcheckpoints .pump "first" (by decide +kernel)
  exact ⟨tx, htx, hsignature, hthrough tx (hprotocol ▸ hsignature ▸ mem_through_self htx)⟩

/-- Both events fail, the first is processed after a restart, and the second fails until its
attempts are used up. -/
def quarantinedRun : List ClaimOp :=
  [.record 0 ["a", "b"] { now := 0 } .committed,
   .settle 0 ["a", "b"] (.failed "RuntimeError") 1 .committed,
   .record 1 ["a"] { now := 2, reclaim := true } .committed,
   .settle 1 ["a"] .processed 3 .committed,
   .record 1 ["b"] { now := 4, reclaim := true } .committed,
   .settle 1 ["b"] (.failed "RuntimeError") 5 .committed,
   .record 2 ["b"] { now := 6, reclaim := true } .committed,
   .settle 2 ["b"] (.failed "RuntimeError") 7 .committed]

/-- The checkpoint is the signature of the transaction whose second event is neither settled nor
loaded nor fetched again. -/
theorem quarantined_event_skipped :
    Along sampleStream.InOrder (World.apply .sqlite) {} quarantinedRun ∧
    let db := (exec (World.apply .sqlite) {} quarantinedRun).db
    (db.loadProtocolCheckpoints sampleColumns.event).get? .pump = some "first" ∧
      ∃ tx ∈ sampleStream.transactions, tx.protocol = .pump ∧ "b" ∈ tx.events ∧
        tx ∉ sampleStream.after .pump "first" ∧
        ¬ db.Settled "b" ∧
        ∀ now, sampleColumns.event "b" ∉ db.loadUnprocessedEvents sampleColumns.event now true := by
  refine ⟨by decide, by decide +kernel, ⟨.pump, "first", ["a", "b"]⟩, by decide, rfl, by decide,
    by decide, ?_, fun now hloaded => ?_⟩
  · rintro ⟨row, hrow, hstatus⟩
    cases hrow
    cases hstatus
  · cases hloaded

end SniperBot.Events
