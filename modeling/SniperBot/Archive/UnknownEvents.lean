import SniperBot.Archive.Decoders
import SniperBot.Archive.RoundTrip
import SniperBot.Events.Claims

/-!
# Transactions that cannot be decoded

`process_transactions` up to the decoded batches, and `_record_unknown` (`pipeline.py`). A
transaction with an unknown layout blocks its protocol, is archived as an event of type `UNKNOWN`, and
the `AnchorDecodeError` is raised again; the worker then calls again with the same batch.

The name of the archived file depends on the transaction, its content on the time of the call as
well. The second call finds the file of the first with another checksum and raises
`RuntimeError` instead, unless both calls read the same time (`recordedOnce_iff`).
-/

namespace SniperBot.Archive

open Basis Features Protocols

/-! ## Recording -/

/-- The clock readings of a call. -/
structure Readings where
  /-- while the transaction of a number is decoded -/
  decodedAt : ℕ → DateTime
  /-- in place of a missing block time -/
  missingBlockTime : DateTime
  /-- `observed_at` of the recorded event -/
  observedAt : DateTime

/-- An element of a batch. -/
structure Incoming where
  protocol : Protocol
  transaction : ChainTransaction
  source : EventSource

/-- The signature of the recorded event. -/
def ChainTransaction.recordedSignature (transaction : ChainTransaction) : String :=
  match transaction.signatures with
  | signature :: _ => signature
  | [] => (transaction.signature.filter (· ≠ "")).getD "missing-signature"

/-- The block time of the recorded event. -/
def ChainTransaction.recordedBlockTime (transaction : ChainTransaction) (readings : Readings) :
    Except PipelineError DateTime :=
  match transaction.blockTime with
  | none => .ok readings.missingBlockTime
  | some seconds =>
      match fromTimestamp seconds with
      | some blockTime => .ok blockTime
      | none => .error .blockTimeRange

/-- The event that `_record_unknown` builds. -/
def Codec.unknownEvent (codec : Codec) (incoming : Incoming) (readings : Readings) :
    Except PipelineError EventEnvelope := do
  let blockTime ← incoming.transaction.recordedBlockTime readings
  codec.envelope
    { source := incoming.source
      protocol := incoming.protocol
      eventType := .unknown
      slot := incoming.transaction.slot
      signature := incoming.transaction.recordedSignature
      instructionIndex := 0
      blockTime := blockTime
      observedAt := readings.observedAt
      payload := [("transaction", incoming.transaction.whole),
        ("reason", .string "UNKNOWN_PROTOCOL_LAYOUT")] }

/-- `_record_unknown` -/
def Codec.recordUnknown (codec : Codec) (files : Files) (incoming : Incoming)
    (readings : Readings) : Files × Except PipelineError Unit :=
  match codec.unknownEvent incoming readings with
  | .error e => (files, .error e)
  | .ok event =>
      match codec.writeSegments files [event] with
      | (files, .error e) => (files, .error (.archive e))
      | (files, .ok _) => (files, .ok ())

/-- The file of an event without a sequence number. -/
def Codec.fileOf (codec : Codec) (event : EventEnvelope) : Prepared :=
  codec.legacy event.key [event]

theorem Codec.checksum_fileOf (codec : Codec) (event : EventEnvelope) :
    (codec.fileOf event).segment.checksumSha256 = codec.sha256 (codec.fileOf event).payload := rfl

/-! ## Decoding a batch -/

/-- The two decoders of the pipeline, by their IDLs. -/
structure Decoders where
  pump : AnchorIdlDecoder
  pumpswap : AnchorIdlDecoder

def Decoders.decoder (decoders : Decoders) (protocol : Protocol) : ProtocolDecoder :=
  if protocol = .pump then pumpDecoder decoders.pump else pumpswapDecoder decoders.pumpswap

/-- What ends the decoding of a batch early. -/
inductive DecodeStop
  | undecodable (incoming : Incoming) (error : AnchorDecodeError)
  | raised (error : PipelineError)

section Processing

variable (codec : Codec) (decoders : Decoders)

/-- One transaction is decoded. -/
def decode (incoming : Incoming) (observedAt : DateTime) :
    Except PipelineError (List EventEnvelope) :=
  codec.decodeTransaction (decoders.decoder incoming.protocol) incoming.transaction
    incoming.source observedAt

/-- The loop over the transactions, with the number of the next one, the complete batches and the
current one. -/
def decodeBatches (readings : Readings) :
    List Incoming → ℕ → List (List EventEnvelope) → List EventEnvelope →
      Except DecodeStop (List (List EventEnvelope))
  | [], _, batches, current => .ok (if current = [] then batches else batches ++ [current])
  | incoming :: rest, index, batches, current =>
      match decode codec decoders incoming (readings.decodedAt index) with
      | .error (.anchor error) => .error (.undecodable incoming error)
      | .error error => .error (.raised error)
      | .ok decoded =>
          if decoded.length > Events.maxEventBatchSize then .error (.raised .batchLimit)
          else if current ≠ [] ∧ current.length + decoded.length > Events.maxEventBatchSize then
            decodeBatches readings rest (index + 1) (batches ++ [current]) decoded
          else decodeBatches readings rest (index + 1) batches (current ++ decoded)

/-- What the calls change. -/
structure Intake where
  poisoned : Bool := false
  blockedProtocols : List Protocol := []
  files : Files

/-- `process_transactions`, up to the batches that it passes on. -/
def processTransactions (transactions : List Incoming) (s : Intake) (readings : Readings) :
    Intake × Except PipelineError (List (List EventEnvelope)) :=
  if s.poisoned then (s, .error .poisoned)
  else match decodeBatches codec decoders readings transactions 1 [] [] with
    | .ok batches => (s, .ok batches)
    | .error (.raised error) => (s, .error error)
    | .error (.undecodable incoming error) =>
        let s := { s with blockedProtocols := incoming.protocol :: s.blockedProtocols }
        match codec.recordUnknown s.files incoming readings with
        | (files, .error e) => ({ s with files := files }, .error e)
        | (files, .ok _) => ({ s with files := files }, .error (.anchor error))

/-- The state and the outcome of every call, one after another. -/
def calls (transactions : List Incoming) (s : Intake) :
    List Readings → List (Intake × Except PipelineError (List (List EventEnvelope)))
  | [] => []
  | readings :: rest =>
      let call := processTransactions codec decoders transactions s readings
      call :: calls transactions call.1 rest

/-- The state after all calls. -/
def after (transactions : List Incoming) (s : Intake) (readings : List Readings) : Intake :=
  readings.foldl (fun s call => (processTransactions codec decoders transactions s call).1) s

end Processing

/-! ## The clock does not decide what can be decoded -/

theorem mapM_map {ε α β γ : Type} (f : α → Except ε β) (g : β → γ) (xs : List α) :
    xs.mapM (fun x => (f x).map g) = (xs.mapM f).map (List.map g) := by
  induction xs with
  | nil => rfl
  | cons x xs ih =>
      rw [List.mapM_cons, List.mapM_cons, ih]
      cases f x with
      | error e => rfl
      | ok b =>
          cases xs.mapM f with
          | error e => rfl
          | ok bs => rfl

section Clock

variable {codec : Codec} {decoders : Decoders}

/-- The event, observed at another time. -/
def EventEnvelope.observed (at' : DateTime) (event : EventEnvelope) : EventEnvelope :=
  { event with observedAt := at' }

/-- The path does not depend on the time of the observation. -/
theorem path_observed (codec : Codec) (event : EventEnvelope) (at' : DateTime) :
    (codec.fileOf (event.observed at')).segment.path = (codec.fileOf event).segment.path := rfl

theorem adapt_observed (decoder : ProtocolDecoder) (transaction : ChainTransaction)
    (source : EventSource) (signature : String) (blockTime first second : DateTime)
    (event : AnchorEvent) :
    codec.adapt decoder transaction source signature blockTime second event =
      (codec.adapt decoder transaction source signature blockTime first event).map
        (Option.map (EventEnvelope.observed second)) := by
  unfold Codec.adapt
  cases decoder.eventType event with
  | none => rfl
  | some eventType =>
      dsimp only
      generalize Dict.put (Dict.put event.fields "anchor_event" (Value.text event.name))
        "adapter_version" (Value.text decoder.adapterVersion) = fields
      cases decoder.mint fields with
      | error e => rfl
      | ok mint =>
          cases decoder.poolAddress fields with
          | error e => rfl
          | ok poolAddress =>
              by_cases hinvalid : transaction.slot < 0 ∨ signature = ""
              · simp only [Codec.envelope, bind, Except.bind, if_pos hinvalid, Except.map]
              · simp only [Codec.envelope, bind, Except.bind, if_neg hinvalid, Except.map, pure,
                  Except.pure, Option.map_some, EventEnvelope.observed]

theorem decode_observed (incoming : Incoming) (first second : DateTime) :
    decode codec decoders incoming second =
      (decode codec decoders incoming first).map (List.map (EventEnvelope.observed second)) := by
  unfold decode Codec.decodeTransaction
  cases incoming.transaction.readSignature with
  | error e => rfl
  | ok signature =>
      cases incoming.transaction.readBlockTime with
      | error e => rfl
      | ok blockTime =>
          dsimp only [bind, Except.bind]
          split
          · rfl
          · rfl
          next events _ =>
            have hadapt : codec.adapt (decoders.decoder incoming.protocol) incoming.transaction
                incoming.source signature blockTime second = _ :=
              funext (adapt_observed _ _ _ _ _ first second)
            rw [hadapt, mapM_map]
            cases events.mapM (codec.adapt (decoders.decoder incoming.protocol)
              incoming.transaction incoming.source signature blockTime first) with
            | error e => rfl
            | ok adapted =>
                have hreduce : ∀ items : List (Option EventEnvelope),
                    items.reduceOption = items.filterMap id := fun _ => rfl
                simp only [Except.map, pure, Except.pure, hreduce, List.filterMap_map,
                  List.map_filterMap]
                rfl

/-- What stops the decoding of a batch, if anything does. -/
def stopOf {α : Type} : Except DecodeStop α → Option DecodeStop
  | .ok _ => none
  | .error stop => some stop

theorem decodeBatches_stop (first second : Readings) (transactions : List Incoming) (index : ℕ)
    (batches batches' : List (List EventEnvelope)) {current current' : List EventEnvelope}
    (h : current.length = current'.length) :
    stopOf (decodeBatches codec decoders first transactions index batches current) =
      stopOf (decodeBatches codec decoders second transactions index batches' current') := by
  induction transactions generalizing index batches batches' current current' with
  | nil => rfl
  | cons incoming rest ih =>
      unfold decodeBatches
      rw [decode_observed incoming (first.decodedAt index) (second.decodedAt index)]
      cases decode codec decoders incoming (first.decodedAt index) with
      | error e => cases e <;> rfl
      | ok decoded =>
          have hempty : current ≠ [] ↔ current' ≠ [] := by
            rw [← List.length_pos_iff, ← List.length_pos_iff, h]
          simp only [Except.map, List.length_map, hempty, h]
          split
          · rfl
          split
          · exact ih _ _ _ (List.length_map _).symm
          · exact ih _ _ _ (by rw [List.length_append, List.length_append, List.length_map, h])

end Clock

/-! ## One call -/

section Calls

variable {codec : Codec} {decoders : Decoders}

/-- A transaction that cannot be decoded has a block time. -/
theorem blockTime_of_undecodable {incoming : Incoming} {observedAt : DateTime}
    {error : AnchorDecodeError}
    (h : decode codec decoders incoming observedAt = .error (.anchor error)) :
    ∃ blockTime, incoming.transaction.readBlockTime = .ok blockTime := by
  unfold decode Codec.decodeTransaction at h
  cases hsignature : incoming.transaction.readSignature with
  | error e =>
      rw [hsignature] at h
      cases h
      unfold ChainTransaction.readSignature at hsignature
      split at hsignature
      · cases hsignature
      · split at hsignature <;> cases hsignature
  | ok signature =>
      cases hblock : incoming.transaction.readBlockTime with
      | ok blockTime => exact ⟨blockTime, rfl⟩
      | error e =>
          rw [hsignature, hblock] at h
          cases h
          unfold ChainTransaction.readBlockTime at hblock
          split at hblock
          · cases hblock
          · split at hblock <;> cases hblock

theorem decodeBatches_undecodable {readings : Readings} {transactions : List Incoming} {index : ℕ}
    {batches : List (List EventEnvelope)} {current : List EventEnvelope} {incoming : Incoming}
    {error : AnchorDecodeError}
    (h : decodeBatches codec decoders readings transactions index batches current =
      .error (.undecodable incoming error)) :
    incoming ∈ transactions ∧
      ∀ at', decode codec decoders incoming at' = .error (.anchor error) := by
  induction transactions generalizing index batches current with
  | nil => cases h
  | cons other rest ih =>
      unfold decodeBatches at h
      split at h
      next hdecode =>
        cases h
        refine ⟨List.mem_cons_self, fun at' => ?_⟩
        rw [decode_observed incoming (readings.decodedAt index) at', hdecode]
        rfl
      · cases h
      · split at h
        · cases h
        split at h
        · exact ⟨List.mem_cons_of_mem _ (ih h).1, (ih h).2⟩
        · exact ⟨List.mem_cons_of_mem _ (ih h).1, (ih h).2⟩

theorem decodeBatches_raised {readings : Readings} {transactions : List Incoming} {index : ℕ}
    {batches : List (List EventEnvelope)} {current : List EventEnvelope} {e : PipelineError}
    (h : decodeBatches codec decoders readings transactions index batches current =
      .error (.raised e)) (error : AnchorDecodeError) : e ≠ .anchor error := by
  induction transactions generalizing index batches current with
  | nil => cases h
  | cons other rest ih =>
      unfold decodeBatches at h
      split at h
      · cases h
      next hother _ =>
        cases h
        exact hother error
      · split at h
        · cases h
          exact nofun
        split at h
        · exact ih h
        · exact ih h

/-! ## The recorded event -/

theorem writeSegments_single {event : EventEnvelope} (h : event.ingestSequence = none)
    (files : Files) :
    codec.writeSegments files [event] =
      match files.get? (codec.fileOf event).segment.path with
      | none => (files.set (codec.fileOf event).segment.path (codec.fileOf event).payload,
          .ok [(codec.fileOf event).segment])
      | some existing =>
          if codec.sha256 existing ≠ (codec.fileOf event).segment.checksumSha256 then
            (files, .error .identityCollision)
          else (files, .ok [(codec.fileOf event).segment]) := by
  have hgroups : (Dict.group EventEnvelope.key [event]).entries = [(event.key, [event])] := rfl
  have hprepare : codec.prepare event.key [event] = .ok (codec.fileOf event) := by
    simp [Codec.prepare, h, Codec.fileOf, pure, Except.pure]
  rw [Codec.writeSegments, hgroups, Codec.writeGroups, hprepare]
  dsimp only
  rw [Codec.writeAtomicSegment]
  cases files.get? (codec.fileOf event).segment.path with
  | none => rfl
  | some existing =>
      dsimp only
      by_cases hsame : codec.sha256 existing ≠ (codec.fileOf event).segment.checksumSha256
      · rw [if_pos hsame, if_pos hsame]
        rfl
      · rw [if_neg hsame, if_neg hsame]
        rfl

/-- The event of a transaction passes its validation. -/
def ChainTransaction.Recordable (transaction : ChainTransaction) : Prop :=
  0 ≤ transaction.slot ∧ transaction.recordedSignature ≠ ""

theorem recordedBlockTime_eq {transaction : ChainTransaction} {blockTime : DateTime}
    (h : transaction.readBlockTime = .ok blockTime) (readings : Readings) :
    transaction.recordedBlockTime readings = .ok blockTime := by
  unfold ChainTransaction.readBlockTime at h
  unfold ChainTransaction.recordedBlockTime
  cases hraw : transaction.blockTime with
  | none => rw [hraw] at h; cases h
  | some seconds => rw [hraw] at h; exact h

/-- What the recorded events of a transaction share. -/
structure UnknownOf (codec : Codec) (incoming : Incoming) (event : EventEnvelope) : Prop where
  eventType : event.eventType = .unknown
  eventId : event.eventId =
    codec.makeEventId incoming.transaction.recordedSignature 0 (-1) .unknown
  ingestSequence : event.ingestSequence = none

/-- The events of two calls differ in the time of the observation only. -/
theorem unknownEvent_cases (codec : Codec) {incoming : Incoming} {blockTime : DateTime}
    (h : incoming.transaction.readBlockTime = .ok blockTime) :
    (incoming.transaction.Recordable ∧ ∃ event, UnknownOf codec incoming event ∧
      ∀ readings, codec.unknownEvent incoming readings =
        .ok (event.observed readings.observedAt)) ∨
    ¬ incoming.transaction.Recordable ∧
      ∀ readings, codec.unknownEvent incoming readings = .error .validation := by
  by_cases hinvalid : incoming.transaction.slot < 0 ∨ incoming.transaction.recordedSignature = ""
  · refine .inr ⟨fun hrecordable => ?_, fun readings => ?_⟩
    · rcases hinvalid with hslot | hsignature
      · exact absurd hrecordable.1 (not_le.mpr hslot)
      · exact hrecordable.2 hsignature
    · unfold Codec.unknownEvent Codec.envelope
      rw [recordedBlockTime_eq h]
      exact if_pos hinvalid
  · refine .inl ⟨⟨not_lt.mp fun hslot => hinvalid (.inl hslot),
      fun hsignature => hinvalid (.inr hsignature)⟩, ?_⟩
    refine ⟨{
      eventId := codec.makeEventId incoming.transaction.recordedSignature 0 (-1) .unknown
      ingestSequence := none
      source := incoming.source
      protocol := incoming.protocol
      eventType := .unknown
      slot := incoming.transaction.slot.toNat
      signature := incoming.transaction.recordedSignature
      instructionIndex := 0
      blockTime := blockTime
      observedAt := blockTime
      payload := [("transaction", incoming.transaction.whole),
        ("reason", .string "UNKNOWN_PROTOCOL_LAYOUT")] }, ⟨rfl, rfl, rfl⟩, fun readings => ?_⟩
    unfold Codec.unknownEvent Codec.envelope
    rw [recordedBlockTime_eq h]
    exact if_neg hinvalid

/-! ## One call after another -/

variable {transactions : List Incoming} {s : Intake}

theorem recordUnknown_eq {incoming : Incoming} {readings : Readings} {event : EventEnvelope}
    (hbuilt : codec.unknownEvent incoming readings = .ok event)
    (hsequence : event.ingestSequence = none) (files : Files) :
    codec.recordUnknown files incoming readings =
      match files.get? (codec.fileOf event).segment.path with
      | none => (files.set (codec.fileOf event).segment.path (codec.fileOf event).payload, .ok ())
      | some existing =>
          if codec.sha256 existing ≠ (codec.fileOf event).segment.checksumSha256 then
            (files, .error (.archive .identityCollision))
          else (files, .ok ()) := by
  unfold Codec.recordUnknown
  rw [hbuilt]
  dsimp only
  rw [writeSegments_single hsequence]
  cases files.get? (codec.fileOf event).segment.path with
  | none => rfl
  | some existing =>
      dsimp only
      by_cases hsame : codec.sha256 existing ≠ (codec.fileOf event).segment.checksumSha256
      · rw [if_pos hsame, if_pos hsame]
      · rw [if_neg hsame, if_neg hsame]

/-- A call that stops at a transaction of an unknown layout, on a path that is free. -/
theorem call_first {readings : Readings} {incoming : Incoming} {error : AnchorDecodeError}
    {event : EventEnvelope} (hpoisoned : s.poisoned = false)
    (hstop : decodeBatches codec decoders readings transactions 1 [] [] =
      .error (.undecodable incoming error))
    (hbuilt : codec.unknownEvent incoming readings = .ok event)
    (hsequence : event.ingestSequence = none)
    (hfree : s.files.get? (codec.fileOf event).segment.path = none) :
    processTransactions codec decoders transactions s readings =
      ({ s with
          blockedProtocols := incoming.protocol :: s.blockedProtocols
          files := s.files.set (codec.fileOf event).segment.path (codec.fileOf event).payload },
        .error (.anchor error)) := by
  unfold processTransactions
  rw [hpoisoned, hstop]
  dsimp only
  rw [recordUnknown_eq hbuilt hsequence, hfree]
  rfl

/-- A call that finds a file at the path. -/
theorem call_again {readings : Readings} {incoming : Incoming} {error : AnchorDecodeError}
    {event : EventEnvelope} {existing : ByteArray} (hpoisoned : s.poisoned = false)
    (hstop : decodeBatches codec decoders readings transactions 1 [] [] =
      .error (.undecodable incoming error))
    (hbuilt : codec.unknownEvent incoming readings = .ok event)
    (hsequence : event.ingestSequence = none)
    (hthere : s.files.get? (codec.fileOf event).segment.path = some existing) :
    processTransactions codec decoders transactions s readings =
      ({ s with blockedProtocols := incoming.protocol :: s.blockedProtocols },
        .error (if codec.sha256 existing = (codec.fileOf event).segment.checksumSha256 then
          .anchor error else .archive .identityCollision)) := by
  unfold processTransactions
  rw [hpoisoned, hstop]
  dsimp only
  rw [recordUnknown_eq hbuilt hsequence, hthere]
  by_cases hsame : codec.sha256 existing = (codec.fileOf event).segment.checksumSha256
  · simp [hsame]
  · simp [hsame]

/-- A call raises `AnchorDecodeError` only at a transaction of an unknown layout that it can
record. -/
theorem undecodable_of_anchor {readings : Readings} {error : AnchorDecodeError}
    (h : (processTransactions codec decoders transactions s readings).2 = .error (.anchor error)) :
    s.poisoned = false ∧ ∃ incoming other,
      decodeBatches codec decoders readings transactions 1 [] [] =
        .error (.undecodable incoming other) ∧ incoming.transaction.Recordable := by
  unfold processTransactions at h
  cases hpoisoned : s.poisoned with
  | true => rw [hpoisoned] at h; cases h
  | false =>
    rw [hpoisoned] at h
    refine ⟨rfl, ?_⟩
    cases hdecoded : decodeBatches codec decoders readings transactions 1 [] [] with
    | ok batches => rw [hdecoded] at h; cases h
    | error stop =>
      rw [hdecoded] at h
      cases stop with
      | raised e => exact absurd (Except.error.inj h) (decodeBatches_raised hdecoded error)
      | undecodable incoming other =>
        obtain ⟨blockTime, hblock⟩ := blockTime_of_undecodable
          ((decodeBatches_undecodable hdecoded).2 readings.observedAt)
        refine ⟨incoming, other, rfl, ?_⟩
        rcases unknownEvent_cases codec hblock with ⟨hrecordable, -⟩ | ⟨-, hbuilt⟩
        · exact hrecordable
        · dsimp only [Bool.false_eq_true, if_false] at h
          unfold Codec.recordUnknown at h
          rw [hbuilt] at h
          cases h

theorem decodeBatches_undecodable_all {first : Readings} {incoming : Incoming}
    {error : AnchorDecodeError}
    (h : decodeBatches codec decoders first transactions 1 [] [] =
      .error (.undecodable incoming error)) (readings : Readings) :
    decodeBatches codec decoders readings transactions 1 [] [] =
      .error (.undecodable incoming error) := by
  have hstop : stopOf (decodeBatches codec decoders first transactions 1 [] []) =
      stopOf (decodeBatches codec decoders readings transactions 1 [] []) :=
    decodeBatches_stop first readings transactions 1 [] [] rfl
  rw [h] at hstop
  cases hdecoded : decodeBatches codec decoders readings transactions 1 [] [] with
  | ok batches => rw [hdecoded] at hstop; cases hstop
  | error stop => rw [hdecoded] at hstop; exact congrArg Except.error (Option.some.inj hstop).symm

/-- The calls after a file is there: none of them writes, and those whose event has the checksum of
the file raise `AnchorDecodeError`. -/
theorem calls_again (s : Intake) {incoming : Incoming} {error : AnchorDecodeError}
    {event : EventEnvelope} {existing : ByteArray} (hpoisoned : s.poisoned = false)
    (hstop : ∀ readings, decodeBatches codec decoders readings transactions 1 [] [] =
      .error (.undecodable incoming error))
    (hbuilt : ∀ readings, codec.unknownEvent incoming readings =
      .ok (event.observed readings.observedAt))
    (hsequence : event.ingestSequence = none)
    (hthere : s.files.get? (codec.fileOf event).segment.path = some existing)
    (rest : List Readings) :
    (after codec decoders transactions s rest).files = s.files ∧
      (∀ call ∈ calls codec decoders transactions s rest,
        incoming.protocol ∈ call.1.blockedProtocols) ∧
      ((∀ call ∈ calls codec decoders transactions s rest, call.2 = .error (.anchor error)) ↔
        ∀ readings ∈ rest, codec.sha256 existing =
          (codec.fileOf (event.observed readings.observedAt)).segment.checksumSha256) := by
  induction rest generalizing s with
  | nil => exact ⟨rfl, nofun, iff_of_true nofun nofun⟩
  | cons readings rest ih =>
      have hcall := call_again hpoisoned (hstop readings) (hbuilt readings) hsequence
        hthere
      have hpoisoned' :
          (processTransactions codec decoders transactions s readings).1.poisoned = false := by
        rw [hcall]
        exact hpoisoned
      obtain ⟨hfiles, hblocked, hraised⟩ := ih _ hpoisoned' (by rw [hcall]; exact hthere)
      rw [calls]
      refine ⟨?_, ?_, ?_⟩
      · change (after codec decoders transactions
          (processTransactions codec decoders transactions s readings).1 rest).files = s.files
        rw [hfiles, hcall]
      · rw [List.forall_mem_cons]
        refine ⟨?_, hblocked⟩
        rw [hcall]
        exact List.mem_cons_self
      · rw [List.forall_mem_cons, List.forall_mem_cons, hraised]
        refine and_congr_left fun _ => ?_
        rw [hcall]
        split
        next hsame => exact iff_of_true rfl hsame
        next hother => exact iff_of_false nofun hother

/-! ## The condition -/

/-- What the libraries are relied on for, with some events that are archived alone: compression
and JSON lose nothing, and the files have different checksums. -/
structure Codec.TellsApart (codec : Codec) (events : Set EventEnvelope) : Prop where
  decompress_compress : ∀ payload, codec.decompress (codec.compress payload) = some payload
  load_dump : ∀ event ∈ events, codec.loadJson (codec.dumpJson event) = some event
  sha256_inj : ∀ event ∈ events, ∀ other ∈ events,
    codec.sha256 (codec.fileOf event).payload = codec.sha256 (codec.fileOf other).payload →
      (codec.fileOf event).payload = (codec.fileOf other).payload

theorem Codec.TellsApart.eq {events : Set EventEnvelope} (h : codec.TellsApart events)
    {event other : EventEnvelope} (hevent : event ∈ events) (hother : other ∈ events)
    (hsame : codec.sha256 (codec.fileOf event).payload =
      codec.sha256 (codec.fileOf other).payload) : event = other := by
  have hpayload : codec.compress (codec.serialized [event]).toUTF8 =
      codec.compress (codec.serialized [other]).toUTF8 :=
    h.sha256_inj event hevent other hother hsame
  have htext := congrArg codec.decompress hpayload
  rw [h.decompress_compress, h.decompress_compress] at htext
  have hlines := congrArg String.fromUTF8? (Option.some.inj htext)
  rw [fromUTF8?_toUTF8, fromUTF8?_toUTF8] at hlines
  have hline : ∀ event, (codec.serialized [event]).toList =
      (codec.dumpJson event).toList ++ ['\n'] := by
    intro event
    rw [serialized_cons]
    rfl
  have hdump : codec.dumpJson event = codec.dumpJson other := by
    have hchars := congrArg String.toList (Option.some.inj hlines)
    rw [hline, hline] at hchars
    exact String.toList_inj.mp (List.append_cancel_right hchars)
  have hload := h.load_dump event hevent
  rw [hdump, h.load_dump other hother] at hload
  exact (Option.some.inj hload).symm

variable (codec decoders transactions s)

/-- Every call raises the same `AnchorDecodeError` and blocks the protocol, and the archive has one
more file, with one `UNKNOWN` event of a transaction that cannot be decoded. -/
def RecordedOnce (readings : List Readings) : Prop :=
  ∃ incoming ∈ transactions, ∃ error,
    (∀ at', decode codec decoders incoming at' = .error (.anchor error)) ∧
    (∀ call ∈ calls codec decoders transactions s readings,
      call.2 = .error (.anchor error) ∧ incoming.protocol ∈ call.1.blockedProtocols) ∧
    ∃ event, UnknownOf codec incoming event ∧
      (after codec decoders transactions s readings).files =
        s.files.set (codec.fileOf event).segment.path (codec.fileOf event).payload

/-- The state is consistent, nothing but the unknown layout of a transaction that can be recorded
stops the decoding, and the later calls read the same time as the first. -/
def Repeatable (first : Readings) (rest : List Readings) : Prop :=
  s.poisoned = false ∧
    (∃ incoming error, decodeBatches codec decoders first transactions 1 [] [] =
      .error (.undecodable incoming error) ∧ incoming.transaction.Recordable) ∧
    ∀ readings ∈ rest, readings.observedAt = first.observedAt

/-- The events that calls may record. -/
def recordable (readings : List Readings) : Set EventEnvelope :=
  {event | ∃ incoming ∈ transactions, ∃ call ∈ readings,
    codec.unknownEvent incoming call = .ok event}

variable {codec decoders transactions s}

theorem Repeatable.of_recordedOnce {first : Readings} {rest : List Readings}
    (hfresh : ∀ event ∈ recordable codec transactions (first :: rest),
      s.files.get? (codec.fileOf event).segment.path = none)
    (happart : codec.TellsApart (recordable codec transactions (first :: rest)))
    (h : RecordedOnce codec decoders transactions s (first :: rest)) :
    Repeatable codec decoders transactions s first rest := by
  obtain ⟨_, -, error, -, hcalls, -⟩ := h
  rw [calls, List.forall_mem_cons] at hcalls
  obtain ⟨⟨hfirst, -⟩, hrest⟩ := hcalls
  obtain ⟨hpoisoned, incoming, other, hstop, hrecordable⟩ := undecodable_of_anchor hfirst
  refine ⟨hpoisoned, ⟨incoming, other, hstop, hrecordable⟩, ?_⟩
  obtain ⟨hmem, hundecodable⟩ := decodeBatches_undecodable hstop
  obtain ⟨blockTime, hblock⟩ := blockTime_of_undecodable (hundecodable first.observedAt)
  obtain ⟨-, event, hunknown, hbuilt⟩ | ⟨hnot, -⟩ := unknownEvent_cases codec hblock
  swap
  · exact absurd hrecordable hnot
  have hrecorded : ∀ call ∈ first :: rest,
      event.observed call.observedAt ∈ recordable codec transactions (first :: rest) :=
    fun call hcall => ⟨incoming, hmem, call, hcall, hbuilt call⟩
  have hfree := hfresh _ (hrecorded first List.mem_cons_self)
  have hcall := call_first hpoisoned hstop (hbuilt first) hunknown.ingestSequence hfree
  rw [hcall] at hfirst
  obtain rfl : other = error := PipelineError.anchor.inj (Except.error.inj hfirst)
  have hagain := (calls_again (processTransactions codec decoders transactions s first).1
    (by rw [hcall]; exact hpoisoned) (decodeBatches_undecodable_all hstop) hbuilt
    hunknown.ingestSequence (by rw [hcall]; exact Dict.get?_set_self ..) rest).2.2.mp
      fun call hmember => (hrest call hmember).1
  intro readings hreadings
  have hsame := happart.eq (hrecorded first List.mem_cons_self)
    (hrecorded readings (List.mem_cons_of_mem _ hreadings)) (hagain readings hreadings)
  exact (congrArg EventEnvelope.observedAt hsame).symm

theorem Repeatable.recordedOnce {first : Readings} {rest : List Readings}
    (hfresh : ∀ event ∈ recordable codec transactions (first :: rest),
      s.files.get? (codec.fileOf event).segment.path = none)
    (h : Repeatable codec decoders transactions s first rest) :
    RecordedOnce codec decoders transactions s (first :: rest) := by
  obtain ⟨hpoisoned, ⟨incoming, error, hstop, hrecordable⟩, htimes⟩ := h
  obtain ⟨hmem, hundecodable⟩ := decodeBatches_undecodable hstop
  obtain ⟨blockTime, hblock⟩ := blockTime_of_undecodable (hundecodable first.observedAt)
  obtain ⟨-, event, hunknown, hbuilt⟩ | ⟨hnot, -⟩ := unknownEvent_cases codec hblock
  swap
  · exact absurd hrecordable hnot
  have hfree := hfresh _ ⟨incoming, hmem, first, List.mem_cons_self, hbuilt first⟩
  have hcall := call_first hpoisoned hstop (hbuilt first) hunknown.ingestSequence hfree
  obtain ⟨hfiles, hblocked, hraised⟩ := calls_again
    (processTransactions codec decoders transactions s first).1 (by rw [hcall]; exact hpoisoned)
    (decodeBatches_undecodable_all hstop) hbuilt hunknown.ingestSequence
    (by rw [hcall]; exact Dict.get?_set_self ..) rest
  refine ⟨incoming, hmem, error, hundecodable, ?_, event.observed first.observedAt,
    ⟨hunknown.eventType, hunknown.eventId, hunknown.ingestSequence⟩, ?_⟩
  · rw [calls, List.forall_mem_cons]
    refine ⟨?_, fun call hmember => ⟨hraised.mpr ?_ call hmember, hblocked call hmember⟩⟩
    · rw [hcall]
      exact ⟨rfl, List.mem_cons_self⟩
    · intro readings hreadings
      rw [htimes readings hreadings]
      rfl
  · change (after codec decoders transactions
      (processTransactions codec decoders transactions s first).1 rest).files = _
    rw [hfiles, hcall]

end Calls

/-- Calls with one batch all raise `AnchorDecodeError`, and archive one `UNKNOWN` event, exactly
when they read the same time, apart from batches and states in which the first call fails
already. -/
theorem recordedOnce_iff (codec : Codec) (decoders : Decoders) (transactions : List Incoming)
    (s : Intake) (first : Readings) (rest : List Readings)
    (hfresh : ∀ event ∈ recordable codec transactions (first :: rest),
      s.files.get? (codec.fileOf event).segment.path = none)
    (happart : codec.TellsApart (recordable codec transactions (first :: rest))) :
    RecordedOnce codec decoders transactions s (first :: rest) ↔
      Repeatable codec decoders transactions s first rest :=
  ⟨Repeatable.of_recordedOnce hfresh happart, Repeatable.recordedOnce hfresh⟩

/-! ## An unknown discriminator -/

def pumpProgramId : String := "6EF8rrecthR5Dkzon8Nwu78hRvfCKubJ14M5uBEwF6P"

/-- A pump transaction whose only event has an unknown discriminator. -/
def sampleIncoming : Incoming where
  protocol := .pump
  source := .heliusWss
  transaction :=
    { signatures := ["signature-1"]
      slot := 123
      blockTime := some 1776700000
      logs :=
        ["Program " ++ pumpProgramId ++ " invoke [1]", "Program data: //////////8=",
          "Program " ++ pumpProgramId ++ " success"]
      whole := .object [("slot", .number "123")] }

def sampleDecoders : Decoders where
  pump := { programId := pumpProgramId, types := Dict.empty, events := Dict.empty, depth := 0 }
  pumpswap := { programId := "pAMM", types := Dict.empty, events := Dict.empty, depth := 0 }

def sampleTime (second : Nat) : DateTime where
  year := 2026
  month := 4
  day := 20
  hour := 15
  minute := 47
  second := second

def sampleReadings (second : Nat) : Readings where
  decodedAt _ := sampleTime second
  missingBlockTime := sampleTime second
  observedAt := sampleTime second

def sampleFront : String :=
  "\x7b\"event_id\":\"signature-1:0:-1:unknown\",\"source\":\"helius_wss\"," ++
  "\"network\":\"solana-mainnet\",\"protocol\":\"pump\",\"event_type\":\"unknown\"," ++
  "\"slot\":123,\"signature\":\"signature-1\",\"instruction_index\":0," ++
  "\"inner_instruction_index\":-1,\"block_time\":\"2026-04-20T15:46:40Z\"," ++
  "\"observed_at\":\"2026-04-20T15:47:"

def sampleBack : String :=
  "Z\",\"commitment\":\"confirmed\",\"payload\":\x7b\"transaction\":\x7b\"slot\":123\x7d," ++
  "\"reason\":\"UNKNOWN_PROTOCOL_LAYOUT\"\x7d\x7d"

def sampleText (second : Nat) : String := sampleFront ++ padded 2 second ++ sampleBack

/-- The recorded event. -/
def sampleUnknown (second : Nat) : EventEnvelope where
  eventId := "signature-1:0:-1:unknown"
  ingestSequence := none
  source := .heliusWss
  protocol := .pump
  eventType := .unknown
  slot := 123
  signature := "signature-1"
  instructionIndex := 0
  blockTime := { sampleTime 40 with minute := 46 }
  observedAt := sampleTime second
  payload := [("transaction", .object [("slot", .number "123")]),
    ("reason", .string "UNKNOWN_PROTOCOL_LAYOUT")]

/-- The JSON text of the event; compression does nothing, and a text is its own checksum. -/
def sampleCodec : Codec where
  dumpJson event := sampleText event.observedAt.second
  loadJson line := ([1, 2].find? fun second => line = sampleText second).map sampleUnknown
  compress payload := payload
  decompress payload := some payload
  sha256 payload := (String.fromUTF8? payload).getD ""

theorem sampleText_ne : sampleText 1 ≠ sampleText 2 := by
  intro h
  have hchars := congrArg String.toList h
  simp only [sampleText, String.toList_append, List.append_assoc] at hchars
  have hseconds := List.append_cancel_right (List.append_cancel_left hchars)
  exact absurd hseconds (by decide)

/-- The error of a run that raised. -/
def errorOf {ε α : Type} : Except ε α → Option ε
  | .error e => some e
  | .ok _ => none

theorem eq_error_of_errorOf {ε α : Type} {x : Except ε α} {e : ε} (h : errorOf x = some e) :
    x = .error e := by
  cases x with
  | error e' => exact congrArg Except.error (Option.some.inj h)
  | ok a => cases h

theorem sample_decoded :
    errorOf (sampleDecoders.pump.decodeLogs sampleIncoming.transaction.logs) =
        some (.unknownDiscriminator pumpProgramId (List.replicate 8 255)) ∧
      fromTimestamp 1776700000 = some (sampleUnknown 1).blockTime := by
  decide +kernel

theorem sample_blockTime :
    sampleIncoming.transaction.readBlockTime = .ok (sampleUnknown 1).blockTime := by
  change (match fromTimestamp 1776700000 with
    | some blockTime => .ok blockTime
    | none => .error .blockTimeRange) = Except.ok (sampleUnknown 1).blockTime
  rw [sample_decoded.2]

theorem sample_stop (readings : Readings) :
    decodeBatches sampleCodec sampleDecoders readings [sampleIncoming] 1 [] [] =
      .error (.undecodable sampleIncoming
        (.unknownDiscriminator pumpProgramId (List.replicate 8 255))) := by
  have hdecode : decode sampleCodec sampleDecoders sampleIncoming (readings.decodedAt 1) =
      .error (.anchor (.unknownDiscriminator pumpProgramId (List.replicate 8 255))) := by
    change Codec.decodeTransaction _ (pumpDecoder sampleDecoders.pump) _ _ _ = _
    unfold Codec.decodeTransaction
    rw [show sampleIncoming.transaction.readSignature = .ok "signature-1" from rfl,
      sample_blockTime]
    dsimp only [bind, Except.bind, pumpDecoder]
    rw [eq_error_of_errorOf sample_decoded.1]
    rfl
  rw [decodeBatches, hdecode]

theorem sample_recordable : sampleIncoming.transaction.Recordable :=
  ⟨by decide, by decide⟩

theorem sample_sha256 (text : String) : sampleCodec.sha256 text.toUTF8 = text := by
  unfold sampleCodec
  dsimp only
  rw [fromUTF8?_toUTF8, Option.getD_some]

theorem sample_eventId :
    sampleCodec.makeEventId "signature-1" 0 (-1) .unknown = "signature-1:0:-1:unknown" := by
  rw [Codec.makeEventId, sample_sha256]
  decide

theorem sample_unknownEvent (second : Nat) :
    sampleCodec.unknownEvent sampleIncoming (sampleReadings second) =
      .ok (sampleUnknown second) := by
  unfold Codec.unknownEvent
  rw [recordedBlockTime_eq sample_blockTime]
  dsimp only [bind, Except.bind]
  have hvalid : ¬ (sampleIncoming.transaction.slot < 0 ∨
      sampleIncoming.transaction.recordedSignature = "") := by decide
  rw [Codec.envelope, if_neg hvalid]
  have hid : sampleCodec.makeEventId sampleIncoming.transaction.recordedSignature 0 (-1)
      .unknown = (sampleUnknown second).eventId := sample_eventId
  dsimp only
  rw [hid]
  rfl

theorem sample_recorded {readings : List Nat} {event : EventEnvelope}
    (h : event ∈ recordable sampleCodec [sampleIncoming] (readings.map sampleReadings)) :
    ∃ second ∈ readings, event = sampleUnknown second := by
  obtain ⟨incoming, hincoming, call, hcall, hevent⟩ := h
  obtain rfl := List.mem_singleton.mp hincoming
  obtain ⟨second, hsecond, rfl⟩ := List.mem_map.mp hcall
  rw [sample_unknownEvent] at hevent
  exact ⟨second, hsecond, (Except.ok.inj hevent).symm⟩

theorem sample_tellsApart {readings : List Nat} (h : ∀ second ∈ readings, second ∈ [1, 2]) :
    sampleCodec.TellsApart (recordable sampleCodec [sampleIncoming]
      (readings.map sampleReadings)) where
  decompress_compress _ := rfl
  load_dump event hevent := by
    obtain ⟨second, hsecond, rfl⟩ := sample_recorded hevent
    have hload : sampleCodec.loadJson (sampleCodec.dumpJson (sampleUnknown second)) =
        ([1, 2].find? fun other => sampleText second = sampleText other).map sampleUnknown := by
      simp only [sampleCodec, sampleUnknown, sampleTime]
    rw [hload]
    rcases List.mem_cons.mp (h second hsecond) with rfl | hsecond
    · simp
    · obtain rfl := List.mem_singleton.mp hsecond
      simp [sampleText_ne.symm]
  sha256_inj event _ other _ hsame := by
    have hpayload : ∀ event, (sampleCodec.fileOf event).payload =
        (sampleCodec.serialized [event]).toUTF8 := fun _ => rfl
    rw [hpayload, hpayload, sample_sha256, sample_sha256] at hsame
    rw [hpayload, hpayload, hsame]

theorem recordedOnce_same_time :
    RecordedOnce sampleCodec sampleDecoders [sampleIncoming] { files := Dict.empty }
      [sampleReadings 1, sampleReadings 1] := by
  have happart : sampleCodec.TellsApart (recordable sampleCodec [sampleIncoming]
      [sampleReadings 1, sampleReadings 1]) := @sample_tellsApart [1, 1] (by decide)
  refine (recordedOnce_iff sampleCodec sampleDecoders [sampleIncoming] { files := Dict.empty }
    (sampleReadings 1) [sampleReadings 1] (fun _ _ => rfl) happart).mpr ?_
  exact ⟨rfl, ⟨sampleIncoming, _, sample_stop _, sample_recordable⟩,
    List.forall_mem_singleton.mpr rfl⟩

/-- The second call, a second later, finds the file of the first with another checksum. -/
theorem not_recordedOnce :
    (calls sampleCodec sampleDecoders [sampleIncoming] { files := Dict.empty }
        [sampleReadings 1, sampleReadings 2]).map (fun call => errorOf call.2) =
      [some (.anchor (.unknownDiscriminator pumpProgramId (List.replicate 8 255))),
        some (.archive .identityCollision)] ∧
    ¬ RecordedOnce sampleCodec sampleDecoders [sampleIncoming] { files := Dict.empty }
      [sampleReadings 1, sampleReadings 2] := by
  have hcalls : (calls sampleCodec sampleDecoders [sampleIncoming] { files := Dict.empty }
        [sampleReadings 1, sampleReadings 2]).map (fun call => errorOf call.2) =
      [some (.anchor (.unknownDiscriminator pumpProgramId (List.replicate 8 255))),
        some (.archive .identityCollision)] := by
    have happart : sampleCodec.TellsApart (recordable sampleCodec [sampleIncoming]
        [sampleReadings 1, sampleReadings 2]) := @sample_tellsApart [1, 2] (by decide)
    have hrecorded : ∀ second ∈ [1, 2], sampleUnknown second ∈
        recordable sampleCodec [sampleIncoming] [sampleReadings 1, sampleReadings 2] :=
      fun second hsecond => ⟨sampleIncoming, List.mem_singleton_self _, sampleReadings second,
        List.mem_map_of_mem hsecond, sample_unknownEvent second⟩
    have hother : sampleCodec.sha256 (sampleCodec.fileOf (sampleUnknown 1)).payload ≠
        (sampleCodec.fileOf (sampleUnknown 2)).segment.checksumSha256 := by
      intro hsame
      rw [Codec.checksum_fileOf] at hsame
      have hevents := happart.eq (hrecorded 1 (by decide)) (hrecorded 2 (by decide)) hsame
      exact absurd (congrArg EventEnvelope.observedAt hevents) (by decide)
    have hpath : (sampleCodec.fileOf (sampleUnknown 2)).segment.path =
        (sampleCodec.fileOf (sampleUnknown 1)).segment.path :=
      path_observed sampleCodec (sampleUnknown 1) (sampleTime 2)
    have hthere : (Dict.set (Dict.empty : Files) (sampleCodec.fileOf (sampleUnknown 1)).segment.path
        (sampleCodec.fileOf (sampleUnknown 1)).payload).get?
          (sampleCodec.fileOf (sampleUnknown 2)).segment.path =
            some (sampleCodec.fileOf (sampleUnknown 1)).payload := by
      rw [hpath]
      exact Dict.get?_set_self ..
    rw [calls, call_first rfl (sample_stop _) (sample_unknownEvent 1) rfl (Dict.get?_empty _),
      calls, call_again rfl (sample_stop _) (sample_unknownEvent 2) rfl hthere, if_neg hother]
    rfl
  refine ⟨hcalls, fun h => ?_⟩
  obtain ⟨_, -, error, -, hraised, -⟩ := h
  have hsecond : some (.archive .identityCollision) ∈
      (calls sampleCodec sampleDecoders [sampleIncoming] { files := Dict.empty }
        [sampleReadings 1, sampleReadings 2]).map (fun call => errorOf call.2) := by
    rw [hcalls]
    exact List.mem_cons_of_mem _ List.mem_cons_self
  obtain ⟨call, hcall, herror⟩ := List.mem_map.mp hsecond
  rw [(hraised call hcall).1] at herror
  cases herror

end SniperBot.Archive
