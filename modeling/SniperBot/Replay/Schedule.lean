import SniperBot.Archive.Crashes
import SniperBot.Replay.Runner

/-!
# What a replay does, and when

The events are performed in their order, each at a time that follows from the block times and from
what the broker slept before: the clock goes forward as the block times do, and by the sleeps, and
never back, so that it is ahead of the block time of an event by the sleeps and by the sum of the
steps back up to it. The speed of a replay changes what its own sleeper is given and nothing else.

An archive that a recovery has completed is replayed as the table of the raw rows: each row once, in
the order of the sequence numbers, however the rows were divided into files before and after the
crashes.
-/

namespace SniperBot.Replay

open Basis
open Archive (EventEnvelope Codec Store)

variable {σ ε : Type*}

/-! ## Times -/

/-- An event of a run, with the time of the clock at which it is performed, and for how long the
broker sleeps then. -/
structure Visit where
  event : EventEnvelope
  time : Int
  slept : Nat

/-- The time of the clock when the visit is over. -/
def Visit.over (visit : Visit) : Int := visit.time + visit.slept

/-- The clock of the visits: it goes forward with the block times, and while the broker sleeps. -/
def Timed : Int → Int → List Visit → Prop
  | _, _, [] => True
  | clock, previous, visit :: visits =>
      visit.time = clock + max 0 (blockTime visit.event - previous) ∧
        Timed visit.over (blockTime visit.event) visits

section Timed

variable {clock previous : Int} {visits : List Visit}

/-- The clock does not go back. -/
theorem Timed.pairwise (h : Timed clock previous visits) :
    (clock :: visits.map (·.time)).Pairwise (· ≤ ·) := by
  induction visits generalizing clock previous with
  | nil => exact List.pairwise_singleton _ _
  | cons visit visits ih =>
      obtain ⟨htime, hrest⟩ := h
      obtain ⟨hover, hlater⟩ := List.pairwise_cons.mp (ih hrest)
      have hstep : clock ≤ visit.time := by omega
      have hslept : visit.time ≤ visit.over := by
        unfold Visit.over
        omega
      rw [List.map_cons]
      refine List.pairwise_cons.mpr ⟨fun t ht => ?_, List.pairwise_cons.mpr
        ⟨fun t ht => hslept.trans (hover t ht), hlater⟩⟩
      rcases List.mem_cons.mp ht with rfl | ht
      · exact hstep
      · exact hstep.trans (hslept.trans (hover t ht))

/-- The last visit is over last. -/
theorem Timed.over_le (h : Timed clock previous visits) :
    clock ≤ (visits.map Visit.over).getLastD clock ∧
      ∀ visit ∈ visits, visit.over ≤ (visits.map Visit.over).getLastD clock := by
  induction visits generalizing clock previous with
  | nil => exact ⟨le_rfl, List.forall_mem_nil _⟩
  | cons visit visits ih =>
      obtain ⟨htime, hrest⟩ := h
      obtain ⟨hover, hlater⟩ := ih hrest
      have hstep : clock ≤ visit.over := by
        unfold Visit.over
        omega
      rw [List.map_cons, List.getLastD_cons]
      exact ⟨hstep.trans hover, List.forall_mem_cons.mpr ⟨hover, hlater⟩⟩

/-- A clock that is not behind the block times stays so. -/
theorem Timed.ahead (h : Timed clock previous visits) (hahead : previous ≤ clock) :
    ∀ visit ∈ visits, blockTime visit.event ≤ visit.time := by
  induction visits generalizing clock previous with
  | nil => exact List.forall_mem_nil _
  | cons visit visits ih =>
      obtain ⟨htime, hrest⟩ := h
      have hvisit : blockTime visit.event ≤ visit.time := by omega
      refine List.forall_mem_cons.mpr ⟨hvisit, ih hrest ?_⟩
      unfold Visit.over
      omega

/-- The times are the block times exactly when the clock starts with these, they do not go back and
nothing sleeps before the last visit. -/
theorem Timed.exact_iff (h : Timed clock previous visits) (hahead : previous ≤ clock) :
    (∀ visit ∈ visits, visit.time = blockTime visit.event) ↔
      (visits = [] ∨ clock = previous) ∧
        (previous :: visits.map fun visit => blockTime visit.event).IsChain (· ≤ ·) ∧
        ∀ visit ∈ visits.dropLast, visit.slept = 0 := by
  induction visits generalizing clock previous with
  | nil => exact ⟨fun _ => ⟨.inl rfl, .singleton _, List.forall_mem_nil _⟩,
      fun _ => List.forall_mem_nil _⟩
  | cons visit visits ih =>
      obtain ⟨htime, hrest⟩ := h
      have hover : blockTime visit.event ≤ visit.over := by
        unfold Visit.over
        omega
      have hfirst : visit.time = blockTime visit.event ↔
          clock = previous ∧ previous ≤ blockTime visit.event := by
        omega
      have hawake : visit.time = blockTime visit.event →
          (visit.over = blockTime visit.event ↔ visit.slept = 0) := by
        intro hsame
        unfold Visit.over
        omega
      have hdrop : (∀ visit' ∈ (visit :: visits).dropLast, visit'.slept = 0) ↔
          (visits = [] ∨ visit.slept = 0) ∧ ∀ visit' ∈ visits.dropLast, visit'.slept = 0 := by
        cases visits with
        | nil => simp
        | cons next visits =>
            rw [List.dropLast_cons_cons, List.forall_mem_cons]
            simp
      rw [List.forall_mem_cons, ih hrest hover, List.map_cons, List.isChain_cons_cons, hdrop]
      constructor
      · rintro ⟨hsame, hstart, hchain, hslept⟩
        obtain ⟨hclock, hforward⟩ := hfirst.mp hsame
        exact ⟨.inr hclock, ⟨hforward, hchain⟩, hstart.imp id (hawake hsame).mp, hslept⟩
      · rintro ⟨hclock, ⟨hforward, hchain⟩, hstart, hslept⟩
        have hsame := hfirst.mpr ⟨hclock.resolve_left (List.cons_ne_nil _ _), hforward⟩
        exact ⟨hsame, hstart.imp id (hawake hsame).mpr, hchain, hslept⟩

end Timed

/-! ## The loop follows the visits -/

namespace Driven

variable (driven : Driven σ ε)

/-- The visits of the loop over the events; the last one may be one that raises. -/
def visits (s : σ) (clock previous : Int) : List EventEnvelope → List Visit
  | [] => []
  | event :: events =>
      let now := clock + max 0 (blockTime event - previous)
      match driven.perform s now event with
      | .error _ => [⟨event, now, 0⟩]
      | .ok (s, slept) => ⟨event, now, slept⟩ :: visits s (now + slept) (blockTime event) events

/-- The events of a list of visits at their times, and then the seconds after them. -/
def runAt (config : ReplayConfig) (s : σ) (clock : Int) (visits : List Visit) :
    Except ε (σ × Int) :=
  visits.foldlM (fun s visit => (driven.perform s visit.time visit.event).map Prod.fst) s >>=
    fun s => driven.windUp config s ((visits.map Visit.over).getLastD clock)

section Visits

variable {driven} {s : σ} {clock previous : Int} {events : List EventEnvelope}

theorem visits_timed : Timed clock previous (driven.visits s clock previous events) := by
  induction events generalizing s clock previous with
  | nil => trivial
  | cons event events ih =>
      rw [visits]
      split
      · exact ⟨rfl, trivial⟩
      · exact ⟨rfl, ih⟩

theorem visits_prefix : (driven.visits s clock previous events).map (·.event) <+: events := by
  induction events generalizing s clock previous with
  | nil => exact List.nil_prefix
  | cons event events ih =>
      rw [visits]
      split
      · exact List.prefix_append [event] events
      · exact List.cons_prefix_cons.mpr ⟨rfl, ih⟩

end Visits

/-- The loop performs its visits, and ends when the last one is over. -/
theorem foldlM_replayEvent (speed : ReplaySpeed) (events : List EventEnvelope)
    (s : ReplayState σ) :
    (events.foldlM (driven.replayEvent speed) s).map (fun t => (t.state, t.clock)) =
      ((driven.visits s.state s.clock s.previous events).foldlM
          (fun x visit => (driven.perform x visit.time visit.event).map Prod.fst) s.state).map
        fun x => (x, ((driven.visits s.state s.clock s.previous events).map
          Visit.over).getLastD s.clock) := by
  induction events generalizing s with
  | nil => rfl
  | cons event events ih =>
      rw [List.foldlM_cons, replayEvent, visits]
      cases h : driven.perform s.state (s.clock + max 0 (blockTime event - s.previous)) event with
      | error error =>
          dsimp only
          rw [List.foldlM_cons, h]
          rfl
      | ok performed =>
          dsimp only
          rw [List.foldlM_cons, h, List.map_cons, List.getLastD_cons]
          exact ih _

/-- A loop that does not raise performs every event. -/
theorem visits_of_ok {speed : ReplaySpeed} {events : List EventEnvelope} {s t : ReplayState σ}
    (h : events.foldlM (driven.replayEvent speed) s = .ok t) :
    (driven.visits s.state s.clock s.previous events).map (·.event) = events := by
  induction events generalizing s with
  | nil => rfl
  | cons event events ih =>
      rw [List.foldlM_cons, replayEvent] at h
      rw [visits]
      cases hperform : driven.perform s.state
          (s.clock + max 0 (blockTime event - s.previous)) event with
      | error error =>
          rw [hperform] at h
          cases h
      | ok performed =>
          rw [hperform] at h
          exact congrArg (event :: ·) (ih h)

/-- The seconds after the last event only add to the clock. -/
theorem le_wind {deadline now finishedAt : Int} {s end' : σ}
    (h : driven.wind deadline s now = .ok (end', finishedAt)) : now ≤ finishedAt := by
  fun_induction wind driven deadline s now with
  | case1 s now _ error hraised => cases h
  | case2 s now _ s' slept htick ih =>
      have hrest := ih h
      omega
  | case3 s now hstop =>
      obtain ⟨-, rfl⟩ := Prod.mk.inj (Except.ok.inj h)
      exact le_rfl

theorem le_windUp {config : ReplayConfig} {now finishedAt : Int} {s end' : σ}
    (h : driven.windUp config s now = .ok (end', finishedAt)) : now ≤ finishedAt := by
  unfold windUp at h
  split at h
  · exact driven.le_wind h
  · obtain ⟨-, rfl⟩ := Prod.mk.inj (Except.ok.inj h)
    exact le_rfl

end Driven

/-- What a replay returns, without what its sleeper was given. -/
def RawReplayResult.outcome (result : RawReplayResult σ) : σ × Nat × Int × Int × ReplayOrder :=
  (result.state, result.eventsExecuted, result.startedAt, result.finishedAt, result.ordering)

section Run

variable {driven : Driven σ ε} {config : ReplayConfig} {s : σ} {read events : List EventEnvelope}
  {first : EventEnvelope}

/-- A replay that starts its own clock performs the visits of the sorted events. -/
theorem run_outcome (hclock : config.clock = none) (hsorted : sortEvents read = first :: events) :
    (driven.run config s read).map RawReplayResult.outcome =
      ((driven.runAt config (driven.unblock s) (blockTime first)
          (driven.visits (driven.unblock s) (blockTime first) (blockTime first)
            (first :: events))).map fun wound =>
        (wound.1, (first :: events).length, blockTime first, wound.2,
          replayOrder (first :: events))).mapError .raised := by
  have hloop := driven.foldlM_replayEvent config.speed (first :: events)
    { state := driven.unblock s, clock := blockTime first, previous := blockTime first }
  unfold Driven.run Driven.runAt
  rw [hsorted]
  dsimp only at hloop ⊢
  rw [hclock, Option.getD_none]
  generalize List.foldlM (m := Except ε) (driven.replayEvent config.speed) _ _ = looped at hloop ⊢
  generalize List.foldlM (m := Except ε) _ (driven.unblock s) _ = performed at hloop ⊢
  cases looped with
  | error error =>
      cases performed with
      | error error' => rw [Except.error.inj hloop]; rfl
      | ok state => cases hloop
  | ok finished =>
      cases performed with
      | error error => cases hloop
      | ok state =>
          obtain ⟨rfl, htime⟩ := Prod.mk.inj (Except.ok.inj hloop)
          rw [← htime]
          dsimp only [bind, Except.bind]
          generalize driven.windUp config finished.state finished.clock = wound
          cases wound <;> rfl

/-- A replay that returns has performed every event and ends when the last one is over, or later. -/
theorem run_returns (hclock : config.clock = none) (hsorted : sortEvents read = first :: events)
    {result : RawReplayResult σ} (h : driven.run config s read = .ok result) :
    (driven.visits (driven.unblock s) (blockTime first) (blockTime first)
        (first :: events)).map (·.event) = first :: events ∧
      ((driven.visits (driven.unblock s) (blockTime first) (blockTime first)
        (first :: events)).map Visit.over).getLastD (blockTime first) ≤ result.finishedAt := by
  have hloop := driven.foldlM_replayEvent config.speed (first :: events)
    { state := driven.unblock s, clock := blockTime first, previous := blockTime first }
  unfold Driven.run at h
  rw [hsorted] at h
  dsimp only at h
  rw [hclock, Option.getD_none] at h
  cases hlooped : (first :: events).foldlM (driven.replayEvent config.speed)
      { state := driven.unblock s, clock := blockTime first, previous := blockTime first } with
  | error error =>
      rw [hlooped] at h
      cases h
  | ok finished =>
      refine ⟨driven.visits_of_ok hlooped, ?_⟩
      rw [hlooped] at h hloop
      dsimp only [bind, Except.bind] at h
      generalize List.foldlM (m := Except ε) _ _ (driven.visits _ _ _ _) = performed at hloop
      cases performed with
      | error error => cases hloop
      | ok state =>
          obtain ⟨-, htime⟩ := Prod.mk.inj (Except.ok.inj hloop)
          cases hwound : driven.windUp config finished.state finished.clock with
          | error error =>
              rw [hwound] at h
              cases h
          | ok wound =>
              rw [hwound] at h
              rw [← Except.ok.inj h, ← htime]
              exact driven.le_windUp hwound

end Run

/-- The first visit is that of the first event. -/
theorem isChain_blockTimes {visits : List Visit} {first : EventEnvelope}
    {events : List EventEnvelope} (h : visits.map (·.event) <+: first :: events) :
    (blockTime first :: visits.map fun visit => blockTime visit.event).IsChain (· ≤ ·) ↔
      (visits.map fun visit => blockTime visit.event).Pairwise (· ≤ ·) := by
  rw [← List.isChain_iff_pairwise]
  cases visits with
  | nil => exact ⟨fun _ => .nil, fun _ => .singleton _⟩
  | cons visit visits =>
      rw [List.map_cons, List.cons_prefix_cons] at h
      rw [List.map_cons, List.isChain_cons_cons, h.1]
      exact ⟨fun hchain => hchain.2, fun hchain => ⟨le_rfl, hchain⟩⟩

/-- The visits of a replay are the events in their order, at times that never go back and are never
before the block times, and that are the block times exactly when these do not go back and the
broker does not sleep before the last visit. What a replay returns is what the pipeline does at
these times, the same at every speed. -/
theorem replay_times (driven : Driven σ ε) {config : ReplayConfig} (hclock : config.clock = none)
    (s : σ) {read events : List EventEnvelope} {first : EventEnvelope}
    (hsorted : sortEvents read = first :: events) {visits : List Visit}
    (hvisits : driven.visits (driven.unblock s) (blockTime first) (blockTime first)
      (first :: events) = visits) :
    visits.map (·.event) <+: first :: events ∧
      (visits.map (·.time)).Pairwise (· ≤ ·) ∧
      (∀ visit ∈ visits, blockTime visit.event ≤ visit.time) ∧
      ((∀ visit ∈ visits, visit.time = blockTime visit.event) ↔
        (visits.map fun visit => blockTime visit.event).Pairwise (· ≤ ·) ∧
          ∀ visit ∈ visits.dropLast, visit.slept = 0) ∧
      (∀ result, driven.run config s read = .ok result → visits.map (·.event) = first :: events ∧
        ∀ visit ∈ visits, visit.over ≤ result.finishedAt) ∧
      ∀ speed, (driven.run { config with speed := speed } s read).map RawReplayResult.outcome =
        ((driven.runAt config (driven.unblock s) (blockTime first) visits).map fun wound =>
          (wound.1, (first :: events).length, blockTime first, wound.2,
            replayOrder (first :: events))).mapError .raised := by
  subst hvisits
  have htimed : Timed (blockTime first) (blockTime first)
      (driven.visits (driven.unblock s) (blockTime first) (blockTime first) (first :: events)) :=
    Driven.visits_timed
  refine ⟨Driven.visits_prefix, (List.pairwise_cons.mp htimed.pairwise).2, htimed.ahead le_rfl,
    ?_, ?_, ?_⟩
  · rw [htimed.exact_iff le_rfl, isChain_blockTimes Driven.visits_prefix]
    exact ⟨fun h => h.2, fun h => ⟨.inr rfl, h⟩⟩
  · intro result hresult
    obtain ⟨hevents, hfinished⟩ := run_returns hclock hsorted hresult
    exact ⟨hevents, fun visit hvisit => (htimed.over_le.2 visit hvisit).trans hfinished⟩
  · exact fun speed => run_outcome hclock hsorted

/-! ## Archives -/

theorem sortKey_lt {a b : EventEnvelope} (ha : a.ingestSequence ≠ none)
    (hb : b.ingestSequence ≠ none) (h : a.sequence < b.sequence) : sortKey a < sortKey b := by
  unfold sortKey
  rw [if_neg ha, if_neg hb, Prod.Lex.toLex_lt_toLex]
  exact Or.inr ⟨rfl, Prod.Lex.toLex_lt_toLex.mpr (Or.inl h)⟩

/-- Sequenced events are sorted by their numbers. -/
theorem sortEvents_eq {read rows : List EventEnvelope} (hrows : Archive.Increasing rows)
    (hsequenced : ∀ row ∈ rows, row.ingestSequence ≠ none) (hread : read.Perm rows) :
    sortEvents read = rows := by
  have hsorted : rows.Pairwise fun a b => sortKey a < sortKey b :=
    hrows.imp_of_mem fun ha hb hlt => sortKey_lt (hsequenced _ ha) (hsequenced _ hb) hlt
  have hread' : (sortEvents read).Perm rows := (List.perm_insertionSort _ _).trans hread
  refine hread'.eq_of_pairwise (fun a b ha hb hab hba => ?_) (List.pairwise_insertionSort _ _)
    (hsorted.imp fun hlt => hlt.le)
  have ha' := hread'.mem_iff.mp ha
  rcases lt_trichotomy a.sequence b.sequence with hlt | hsame | hgt
  · exact absurd hba (sortKey_lt (hsequenced a ha') (hsequenced b hb) hlt).not_ge
  · exact hrows.eq ha' hb hsame
  · exact absurd hab (sortKey_lt (hsequenced b hb) (hsequenced a ha') hgt).not_ge

/-- A pipeline that enters at every tick, with a broker that sleeps 1.2 seconds before a fill. -/
def enteringDriven : Driven Nat Unit where
  unblock s := s
  arrive s _ _ := s
  processEvent s _ _ := .ok s
  evaluateCandidates s _ := .ok (s + 1, 1200000)
  evaluateAndCloseExits := none
  hasActiveLifecycle _ := false

/-- The clock is ahead of the second event although the block times go forward. -/
theorem replay_times_sample :
    let visits := enteringDriven.visits 0 (blockTime (Archive.crashEvent 1 9))
      (blockTime (Archive.crashEvent 1 9)) [Archive.crashEvent 1 9, Archive.crashEvent 2 10]
    (visits.map fun visit => blockTime visit.event).Pairwise (· ≤ ·) ∧
      (∀ visit ∈ visits, blockTime visit.event ≤ visit.time) ∧
      ¬ ∀ visit ∈ visits, visit.time = blockTime visit.event := by
  intro visits
  have hsorted : sortEvents [Archive.crashEvent 1 9, Archive.crashEvent 2 10] =
      [Archive.crashEvent 1 9, Archive.crashEvent 2 10] :=
    sortEvents_eq (Archive.increasing_iff.mpr (by decide)) (by decide) (List.Perm.refl _)
  obtain ⟨-, -, hahead, hexact, -, -⟩ := replay_times enteringDriven
    (rfl : ({} : ReplayConfig).clock = none) 0 hsorted (rfl : _ = visits)
  exact ⟨by decide, hahead, fun h => absurd (hexact.mp h).2 (by decide)⟩

end SniperBot.Replay
