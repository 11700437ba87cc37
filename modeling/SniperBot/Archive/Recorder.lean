import SniperBot.Basis.Grouping
import SniperBot.Basis.Text
import SniperBot.Features.Registry
import Mathlib.Data.List.Sort
import Mathlib.Data.String.Basic

/-!
# The archive of raw events

`RawEventRecorder._write_segments_sync`, `_write_atomic_segment`, `_read_zstd_events` and
`RawEventReader.iter_events` (`events.py`). A batch is grouped by day, hour and protocol; each
group becomes one file of JSON lines whose name holds the range of its sequence numbers. A file
that exists is left as it is, provided that its checksum is that of the payload.

Text in JSON, compression and checksums come from libraries: they are the fields of `Codec`. The
files are a dictionary from paths, relative to the root, to their bytes; the temporary file of a
write is not among them, since no reader looks at it.
-/

namespace SniperBot.Archive

open Basis
open Features (EventSource Protocol ChainEventType)

/-! ## Events -/

/-- A JSON value; a number is kept as it is written. -/
inductive Json
  | null
  | bool (b : Bool)
  | number (literal : String)
  | string (text : String)
  | array (items : List Json)
  | object (fields : List (String × Json))

mutual

/-- The strings in a value, keys included. -/
def Json.texts : Json → List String
  | .string text => [text]
  | .array items => Json.itemTexts items
  | .object fields => Json.fieldTexts fields
  | _ => []

def Json.itemTexts : List Json → List String
  | [] => []
  | item :: items => item.texts ++ Json.itemTexts items

def Json.fieldTexts : List (String × Json) → List String
  | [] => []
  | (name, value) :: fields => name :: value.texts ++ Json.fieldTexts fields

end

/-- An aware time, in UTC. -/
structure DateTime where
  year : Nat
  month : Nat
  day : Nat
  hour : Nat
  minute : Nat := 0
  second : Nat := 0
  microsecond : Nat := 0
  deriving DecidableEq, Repr

/-- `EventEnvelope`, with everything that is archived. -/
structure EventEnvelope where
  eventId : String
  ingestSequence : Option Nat
  source : EventSource
  network : String := "solana-mainnet"
  protocol : Protocol
  eventType : ChainEventType
  slot : Nat
  signature : String
  instructionIndex : Nat
  innerInstructionIndex : Int := -1
  blockTime : DateTime
  observedAt : DateTime
  commitment : String := "confirmed"
  mint : Option String := none
  poolAddress : Option String := none
  payload : List (String × Json) := []

/-- The strings of an event: those of its fields, and the keys and values of its payload. -/
def EventEnvelope.texts (event : EventEnvelope) : List String :=
  [event.eventId, event.network, event.signature, event.commitment] ++ event.mint.toList ++
    event.poolAddress.toList ++ Json.fieldTexts event.payload

/-- `int(event.ingest_sequence or 0)` -/
def EventEnvelope.sequence (event : EventEnvelope) : Nat := event.ingestSequence.getD 0

/-! ## Segments -/

/-- What the libraries do. -/
structure Codec where
  /-- `event.model_dump_json(exclude_none=True)` -/
  dumpJson : EventEnvelope → String
  /-- `EventEnvelope.model_validate(json.loads(line))`; `none` when one of them raises. -/
  loadJson : String → Option EventEnvelope
  compress : ByteArray → ByteArray
  decompress : ByteArray → Option ByteArray
  /-- `hashlib.sha256(payload).hexdigest()` -/
  sha256 : ByteArray → String

inductive ArchiveError
  | mixedBatch
  | identityCollision
  deriving DecidableEq, Repr

def ArchiveError.message : ArchiveError → String
  | .mixedBatch => "raw archive batch cannot mix sequenced and legacy events"
  | .identityCollision => "raw archive segment identity collision"

/-- The parts of a path below the root. -/
abbrev Path := List String

/-- The files below the root. -/
abbrev Files := Dict Path ByteArray

/-- `f"{n:0{width}d}"` -/
def padded (width n : Nat) : String :=
  String.ofList (List.replicate (width - (Nat.toDigits 10 n).length) '0' ++ Nat.toDigits 10 n)

/-- `protocol.value` -/
def protocolValue : Protocol → String
  | .pump => "pump"
  | .pumpswap => "pumpswap"

/-- The day, the hour and the protocol of a group. -/
structure ArchiveKey where
  day : String
  hour : String
  protocol : Protocol
  deriving DecidableEq, Repr

def EventEnvelope.key (event : EventEnvelope) : ArchiveKey where
  day := padded 4 event.blockTime.year ++ "-" ++ padded 2 event.blockTime.month ++ "-" ++
    padded 2 event.blockTime.day
  hour := padded 2 event.blockTime.hour
  protocol := event.protocol

structure RawArchiveSegment where
  path : Path
  startSequence : Nat
  endSequence : Nat
  eventCount : Nat
  checksumSha256 : String
  protocol : Protocol
  deriving DecidableEq

/-- A segment and the bytes of its file. -/
structure Prepared where
  segment : RawArchiveSegment
  payload : ByteArray

/-- The lines of a segment. -/
def Codec.serialized (codec : Codec) (events : List EventEnvelope) : String :=
  String.join (events.map fun event => codec.dumpJson event ++ "\n")

/-- `sorted(..., key=lambda event: int(event.ingest_sequence or 0))` -/
def sortBySequence (events : List EventEnvelope) : List EventEnvelope :=
  events.insertionSort fun a b => a.sequence ≤ b.sequence

def startSequence (ordered : List EventEnvelope) : Nat :=
  (ordered.head?.map EventEnvelope.sequence).getD 0

def endSequence (ordered : List EventEnvelope) : Nat :=
  (ordered.getLast?.map EventEnvelope.sequence).getD 0

/-- The name of a file of sequenced events. -/
def segmentName (startSequence endSequence : Nat) : String :=
  padded 20 startSequence ++ "-" ++ padded 20 endSequence ++ ".ndjson.zst"

/-- The segment of ordered events, at a path. -/
def Codec.segmentAt (codec : Codec) (key : ArchiveKey) (path : Path) (ordered : List EventEnvelope)
    (startSequence endSequence : Nat) : Prepared :=
  let compressed := codec.compress (codec.serialized ordered).toUTF8
  { segment :=
      { path := path
        startSequence := startSequence
        endSequence := endSequence
        eventCount := ordered.length
        checksumSha256 := codec.sha256 compressed
        protocol := key.protocol }
    payload := compressed }

/-- A group of sequenced events. -/
def Codec.sequenced (codec : Codec) (key : ArchiveKey) (events : List EventEnvelope) : Prepared :=
  let ordered := sortBySequence events
  codec.segmentAt key [key.day, key.hour, protocolValue key.protocol,
      segmentName (startSequence ordered) (endSequence ordered)]
    ordered (startSequence ordered) (endSequence ordered)

/-- A group of events without sequence numbers. -/
def Codec.legacy (codec : Codec) (key : ArchiveKey) (events : List EventEnvelope) : Prepared :=
  let identity := String.ofList
    ((codec.sha256 (String.join (events.map EventEnvelope.eventId)).toUTF8).toList.take 16)
  codec.segmentAt key [key.day, protocolValue key.protocol ++ "-events-" ++ key.hour ++
    "-legacy-" ++ identity ++ ".ndjson.zst"] events 0 0

/-- The body of the loop over the groups, up to the write. -/
def Codec.prepare (codec : Codec) (key : ArchiveKey) (events : List EventEnvelope) :
    Except ArchiveError Prepared :=
  if ∀ event ∈ events, event.ingestSequence ≠ none then return codec.sequenced key events
  else if ∃ event ∈ events, event.ingestSequence ≠ none then throw .mixedBatch
  else return codec.legacy key events

/-- `_write_atomic_segment` -/
def Codec.writeAtomicSegment (codec : Codec) (files : Files) (prepared : Prepared) :
    Except ArchiveError Files :=
  match files.get? prepared.segment.path with
  | some existing =>
      if codec.sha256 existing ≠ prepared.segment.checksumSha256 then throw .identityCollision
      else return files
  | none => return files.set prepared.segment.path prepared.payload

/-- The loop over the groups. What was written before an error stays. -/
def Codec.writeGroups (codec : Codec) (files : Files) :
    List (ArchiveKey × List EventEnvelope) → Files × Except ArchiveError (List RawArchiveSegment)
  | [] => (files, .ok [])
  | (key, events) :: groups =>
      match codec.prepare key events with
      | .error e => (files, .error e)
      | .ok prepared =>
          match codec.writeAtomicSegment files prepared with
          | .error e => (files, .error e)
          | .ok written =>
              let (rest, segments) := codec.writeGroups written groups
              (rest, segments.map (prepared.segment :: ·))

/-- `_write_segments_sync` -/
def Codec.writeSegments (codec : Codec) (files : Files) (events : List EventEnvelope) :
    Files × Except ArchiveError (List RawArchiveSegment) :=
  codec.writeGroups files (Dict.group EventEnvelope.key events).entries

/-! ## Reading -/

/-- The lines of a file; `none` when one of them does not hold an event. -/
def Codec.loadLines (codec : Codec) : List (List Char) → Option (List EventEnvelope)
  | [] => some []
  | line :: lines =>
      if Text.strip (String.ofList line) = "" then codec.loadLines lines
      else do
        let event ← codec.loadJson (String.ofList line)
        return event :: (← codec.loadLines lines)

/-- `_read_zstd_events` -/
def Codec.readZstdEvents (codec : Codec) (payload : ByteArray) : Option (List EventEnvelope) := do
  let text ← String.fromUTF8? (← codec.decompress payload)
  codec.loadLines (Text.splitLines text.toList)

/-- The order of the paths, by their parts. -/
def sortedPaths (files : Files) : List (Path × ByteArray) :=
  files.entries.insertionSort fun a b => a.1 ≤ b.1

/-- The loop of `iter_events`. -/
def Codec.readFiles (codec : Codec) : List (Path × ByteArray) → Option (List EventEnvelope)
  | [] => some []
  | file :: files => do
      let events ← codec.readZstdEvents file.2
      return events ++ (← codec.readFiles files)

/-- `RawEventReader.iter_events`; `none` when it raises. -/
def Codec.iterEvents (codec : Codec) (files : Files) : Option (List EventEnvelope) :=
  codec.readFiles ((sortedPaths files).filter fun file =>
    Text.EndsWith ".ndjson.zst" (file.1.getLast?.getD ""))

end SniperBot.Archive
