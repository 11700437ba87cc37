import SniperBot.Archive.Recorder
import SniperBot.Basis.Calendar
import Mathlib.Data.Prod.Lex
import Mathlib.Algebra.Order.Ring.Unbundled.Rat

/-!
# The replay of an archive

`RawEventReplayRunner.run` (`replay.py`), from the events that the reader returns to the end of the
last tick. Times are microseconds; the seconds of a delay are a float in the source, which is exact
for delays of less than 285 years.

What the replay drives is a `Driven`: the entry gate, the stream gateway, the pipeline and the exit
pass, on a state of any type. A step that raises ends the run. The broker sleeps on the clock of the
replay before a fill and between the tries of a sell quote, so that a tick moves the clock. The
hashes of the result are functions of the events and of the last state, and are left out.
-/

namespace SniperBot.Replay

open Basis
open Archive (EventEnvelope DateTime)

/-- The microseconds since the year 1 begins, for the times of one zone. -/
def microseconds (t : DateTime) : Int :=
  (((Date.ordinal ⟨t.year, t.month, t.day⟩ * 24 + t.hour) * 60 + t.minute) * 60 + t.second) *
    1000000 + t.microsecond

/-- `event.block_time` -/
def blockTime (event : EventEnvelope) : Int := microseconds event.blockTime

/-! ## The order of the events -/

abbrev SortKey := Nat ×ₗ Nat ×ₗ Int ×ₗ Nat ×ₗ String ×ₗ Nat ×ₗ Int

def sortKey (event : EventEnvelope) : SortKey :=
  toLex (if event.ingestSequence = none then 1 else 0,
    toLex (event.sequence, toLex (blockTime event, toLex (event.slot, toLex (event.signature,
      toLex (event.instructionIndex, event.innerInstructionIndex))))))

def sortEvents (events : List EventEnvelope) : List EventEnvelope :=
  events.insertionSort fun a b => sortKey a ≤ sortKey b

inductive ReplayOrder
  | canonicalIngestSequence
  | legacyOrder
  deriving DecidableEq, Repr

def replayOrder (events : List EventEnvelope) : ReplayOrder :=
  if ∀ event ∈ events, event.ingestSequence ≠ none then .canonicalIngestSequence else .legacyOrder

/-! ## The loop -/

inductive ReplaySpeed
  | oneX
  | realtime
  | fiveX
  | tenX
  | maximum
  | max
  deriving DecidableEq, Repr

def ReplaySpeed.wallTimeDivisor : ReplaySpeed → Option Rat
  | .oneX | .realtime => some 1
  | .fiveX => some 5
  | .tenX => some 10
  | .maximum | .max => none

/-- What a replay drives. The functions that may raise are given the time of the clock; the two that
reach the broker also say how long it slept, in microseconds. -/
structure Driven (σ ε : Type*) where
  /-- `entry_gate.unblock` of the reasons of a start -/
  unblock : σ → σ
  /-- `last_observed_at` and `last_slot` of the gateway -/
  arrive : σ → DateTime → Nat → σ
  processEvent : σ → Int → EventEnvelope → Except ε σ
  evaluateCandidates : σ → Int → Except ε (σ × Nat)
  /-- `none` when there is no broker; the argument `now` and then the clock, which the sleeps of the
  entries have moved -/
  evaluateAndCloseExits : Option (σ → Int → Int → Except ε (σ × Nat))
  hasActiveLifecycle : σ → Bool

structure ReplayConfig where
  paper : Bool := true
  maxPoolAgeSeconds : Nat := 180
  maximumHoldingSeconds : Nat := 600
  /-- `self.clock`, by its time -/
  clock : Option Int := none
  speed : ReplaySpeed := .max

structure ReplayState (σ : Type*) where
  state : σ
  clock : Int
  previous : Int
  /-- The seconds that the sleeper of the runner was given. -/
  slept : List Rat := []

inductive ReplayError (ε : Type*)
  /-- `ValueError`: raw replay input contains no events -/
  | noEvents
  | raised (error : ε)

structure RawReplayResult (σ : Type*) where
  state : σ
  eventsExecuted : Nat
  startedAt : Int
  finishedAt : Int
  ordering : ReplayOrder
  slept : List Rat

variable {σ ε : Type*}

/-- `event.model_copy(update={"observed_at": event.block_time})` -/
def replayed (event : EventEnvelope) : EventEnvelope := { event with observedAt := event.blockTime }

namespace Driven

variable (driven : Driven σ ε)

/-- `_tick`, with the time that the broker slept -/
def tick (s : σ) (now : Int) : Except ε (σ × Nat) :=
  driven.evaluateCandidates s now >>= fun entered =>
    match driven.evaluateAndCloseExits with
    | some closeExits => (closeExits entered.1 now (now + entered.2)).map fun left =>
        (left.1, entered.2 + left.2)
    | none => .ok entered

/-- What happens when the clock shows the time of an event. -/
def perform (s : σ) (now : Int) (event : EventEnvelope) : Except ε (σ × Nat) :=
  driven.processEvent (driven.arrive s event.blockTime event.slot) now (replayed event) >>= fun s =>
    driven.tick s now

/-- The body of the loop over the events. -/
def replayEvent (speed : ReplaySpeed) (s : ReplayState σ) (event : EventEnvelope) :
    Except ε (ReplayState σ) :=
  let delay := max 0 (blockTime event - s.previous)
  driven.perform s.state (s.clock + delay) event >>= fun performed => .ok
    { state := performed.1
      clock := s.clock + delay + performed.2
      previous := blockTime event
      slept := s.slept ++
        (speed.wallTimeDivisor.map fun divisor => (delay / 1000000 : Rat) / divisor).toList }

/-- The loop over the seconds after the last event. -/
def wind (deadline : Int) (s : σ) (now : Int) : Except ε (σ × Int) :=
  if now < deadline ∧ driven.hasActiveLifecycle s then
    match driven.tick s (now + 1000000) with
    | .error error => .error error
    | .ok (s, slept) => wind deadline s (now + 1000000 + slept)
  else .ok (s, now)
termination_by (deadline - now).toNat

/-- What follows the last event. -/
def windUp (config : ReplayConfig) (s : σ) (now : Int) : Except ε (σ × Int) :=
  if config.paper then
    driven.wind (now + max config.maxPoolAgeSeconds config.maximumHoldingSeconds * 1000000) s now
  else .ok (s, now)

/-- `RawEventReplayRunner.run` -/
def run (config : ReplayConfig) (s : σ) (read : List EventEnvelope) :
    Except (ReplayError ε) (RawReplayResult σ) :=
  match sortEvents read with
  | [] => .error .noEvents
  | first :: rest =>
      let clock := config.clock.getD (blockTime first)
      let start : ReplayState σ :=
        { state := driven.unblock s, clock := clock, previous := blockTime first }
      let finish := (first :: rest).foldlM (driven.replayEvent config.speed) start >>= fun s =>
        (driven.windUp config s.state s.clock).map fun wound => (wound, s.slept)
      match finish with
      | .error error => .error (.raised error)
      | .ok ((state, finishedAt), slept) => .ok
          { state := state
            eventsExecuted := (first :: rest).length
            startedAt := clock
            finishedAt := finishedAt
            ordering := replayOrder (first :: rest)
            slept := slept }

end Driven

end SniperBot.Replay
