import SniperBot.Candidates.Lifecycle
import Mathlib.Data.List.Chain

/-!
# The history behind an entry signal

A candidate carries little of its past: a status, and the last confirmation times, which
`_record_score` extends, cuts, restarts or leaves alone. `Watched` keeps the past beside it, one
`Evaluation` per call, and `Reached` says for every status on the way to an entry what the past
calls were.

* `afterCall_cases`: what one call does to a candidate on the way.
* `Confirmed`: the stored times are times of calls since the first of them, all of which scored
  well; `Confirmed.record` keeps it in every branch of `_record_score`.
* `entry_history`: a candidate in `ENTRY_PENDING` has passed every stage in order, and no candidate
  gets the entry signal twice.
-/

namespace SniperBot.Candidates

open Security Basis CandidateStateMachine

/-! ## Evaluations -/

/-- One call of `evaluate`: the candidate that it met, and its arguments. -/
structure Evaluation where
  candidate : Candidate
  input : EvaluateInput

namespace Evaluation

variable (e : Evaluation)

def time : Time := e.input.snapshot.snapshotTime

/-- The security result of the call is not a hard reject. -/
def NoHardReject : Prop := ∀ result ∈ e.input.security, result.1.hardReject = false

/-- The call has a score, of at least the minimum. -/
def ScoredWell (machine : CandidateStateMachine) : Prop :=
  ∃ score ∈ e.input.score, machine.minimumScore ≤ score.totalScore

/-- The call moves the candidate to `ENTRY_PENDING`, which is the entry signal. -/
def Emits (machine : CandidateStateMachine) : Prop :=
  e.candidate.state ≠ .entryPending ∧ (machine.afterCall e.candidate e.input).state = .entryPending

instance (machine : CandidateStateMachine) : Decidable (e.Emits machine) :=
  inferInstanceAs (Decidable (_ ∧ _))

end Evaluation

/-- A candidate and the calls so far. -/
structure Watched where
  candidate : Candidate
  history : List Evaluation := []

/-- One call, remembered. -/
def watch (machine : CandidateStateMachine) (w : Watched) (input : EvaluateInput) : Watched :=
  ⟨machine.afterCall w.candidate input, w.history ++ [⟨w.candidate, input⟩]⟩

/-! ## One call -/

/-- The states from the discovery to the entry signal. -/
def OnTheWay (state : CandidateState) : Prop :=
  state ∈ [CandidateState.discovered, .collecting, .securityCheck, .eligible, .waitingPullback,
    .armed, .entryPending]

instance (state : CandidateState) : Decidable (OnTheWay state) :=
  inferInstanceAs (Decidable (_ ∈ _))

/-- The states in which a hard reject ends the candidate. -/
def SecurityWatched (state : CandidateState) : Prop :=
  state ∈ [CandidateState.eligible, .waitingPullback, .armed, .entryPending]

instance (state : CandidateState) : Decidable (SecurityWatched state) :=
  inferInstanceAs (Decidable (_ ∈ _))

/-- The conditions of `WAITING_PULLBACK` for arming, but for the recorded scores. -/
structure ReadyToArm (machine : CandidateStateMachine) (input : EvaluateInput) : Prop where
  pullback : machine.minimumPullback ≤ input.snapshot.drawdownFromLocalHigh ∧
    input.snapshot.drawdownFromLocalHigh ≤ machine.maximumPullback
  liquidity : -machine.maximumLiquidityDrop ≤ input.snapshot.quoteLiquidityChange30s
  buyers : machine.minimumBuyerAcceleration ≤ input.snapshot.buyerAcceleration
  sellRoute : input.sellRouteAvailable = true

/-- The confirmation times after the score of a call is recorded. -/
def recorded (machine : CandidateStateMachine) (e : Evaluation) : List Time :=
  (machine.recordScore e.candidate e.input.score e.time).scoreConfirmations

/-- What a call does that neither rejects the candidate nor meets it after its entry. -/
inductive Progress (machine : CandidateStateMachine) (e : Evaluation) (next : Candidate) : Prop
  | discovered (state : e.candidate.state = .discovered) (collecting : next.state = .collecting)
      (same : next.scoreConfirmations = e.candidate.scoreConfirmations)
  | collecting (state : e.candidate.state = .collecting) (stays : next.state = .collecting)
      (same : next.scoreConfirmations = e.candidate.scoreConfirmations)
  | collected (state : e.candidate.state = .collecting) (check : next.state = .securityCheck)
      (long : seconds machine.collectSeconds ≤ e.time - e.candidate.detectedAt)
      (same : next.scoreConfirmations = e.candidate.scoreConfirmations)
  | checking (state : e.candidate.state = .securityCheck) (stays : next = e.candidate)
  | passed (state : e.candidate.state = .securityCheck) (eligible : next.state = .eligible)
      (result : ∃ result, e.input.security = some result ∧ result.1.hardReject = false)
      (same : next.scoreConfirmations = e.candidate.scoreConfirmations)
  | eligible (state : e.candidate.state = .eligible) (waiting : next.state = .waitingPullback)
      (same : next.scoreConfirmations = e.candidate.scoreConfirmations)
  | waiting (state : e.candidate.state = .waitingPullback) (stays : next.state = .waitingPullback)
      (times : next.scoreConfirmations = recorded machine e)
  | armed (state : e.candidate.state = .waitingPullback) (armed : next.state = .armed)
      (ready : ReadyToArm machine e.input)
      (confirmed : machine.requiredConfirmations ≤ (recorded machine e).length)
  | holding (state : e.candidate.state = .armed) (stays : next.state = .armed)
  | emitted (state : e.candidate.state = .armed) (entry : next.state = .entryPending)
  | pending (state : e.candidate.state = .entryPending) (stays : next = e.candidate)

/-- A call rejects the candidate, meets it off the way and keeps its state, or takes it along the
way before its expiry and without a hard reject. -/
inductive Moves (machine : CandidateStateMachine) (e : Evaluation) (next : Candidate) : Prop
  | rejected (h : next.state = .rejected)
  | off (state : ¬ OnTheWay e.candidate.state) (same : next.state = e.candidate.state)
  | onTheWay (inTime : ¬ machine.expired e.candidate e.time)
      (safe : SecurityWatched e.candidate.state → e.NoHardReject)
      (advances : Progress machine e next)

section Call

variable {machine : CandidateStateMachine} {candidate : Candidate} {input : EvaluateInput}

theorem afterCall_of_ok {next : Candidate} (h : machine.call candidate input = .ok next) :
    machine.afterCall candidate input = next := by
  rw [afterCall, h]

/-- A transition that the table contains, and the fields that it leaves alone. -/
theorem transition_keeps {target : CandidateState} (at' : Time) {reason : Option RejectReason}
    (hallowed : target ∈ allowed candidate.state) (hreason : target = .rejected → reason ≠ none) :
    ∃ next, transition candidate target at' reason = .ok next ∧ next.state = target ∧
      next.scoreConfirmations = candidate.scoreConfirmations := by
  unfold transition
  rw [if_neg (not_not.mpr hallowed), if_neg fun h => hreason h.1 h.2]
  exact ⟨_, rfl, rfl, rfl⟩

/-- A transition is the outcome of a call. -/
theorem afterCall_transition {handed : Candidate} {target : CandidateState} {at' : Time}
    {reason : Option RejectReason}
    (hcall : machine.call candidate input = transition handed target at' reason)
    (hallowed : target ∈ allowed handed.state) (hreason : target = .rejected → reason ≠ none) :
    (machine.afterCall candidate input).state = target ∧
      (machine.afterCall candidate input).scoreConfirmations = handed.scoreConfirmations := by
  obtain ⟨next, hnext, hstate, hsame⟩ := transition_keeps at' hallowed hreason
  rw [afterCall_of_ok (hcall.trans hnext)]
  exact ⟨hstate, hsame⟩

end Call

/-- In `WAITING_PULLBACK` a call records the score; it rejects, arms or waits on. -/
theorem afterCall_waiting {machine : CandidateStateMachine} {e : Evaluation}
    (hstate : e.candidate.state = .waitingPullback)
    (hcall : machine.call e.candidate e.input = machine.evaluateWaiting e.candidate
      e.input.snapshot e.input.score e.input.sellRouteAvailable e.input.devSold e.time) :
    (machine.afterCall e.candidate e.input).state = .rejected ∨
      Progress machine e (machine.afterCall e.candidate e.input) := by
  have hrecord : (machine.recordScore e.candidate e.input.score e.time).state = .waitingPullback :=
    hstate
  unfold evaluateWaiting at hcall
  dsimp only at hcall
  split at hcall
  · left
    exact (afterCall_transition hcall (by rw [hrecord]; decide) (by simp)).1
  · right
    split at hcall
    · rename_i hready
      obtain ⟨hconfirmed, hpullback, hliquidity, hbuyers, hroute⟩ := hready
      refine .armed hstate (afterCall_transition hcall ?_ (by simp)).1
        ⟨hpullback, hliquidity, hbuyers, hroute⟩ hconfirmed
      show _ ∈ allowed (machine.recordScore e.candidate e.input.score e.time).state
      rw [hrecord]
      decide
    · rw [afterCall_of_ok hcall]
      exact .waiting hstate hrecord rfl

theorem afterCall_armed {machine : CandidateStateMachine} {e : Evaluation}
    (hstate : e.candidate.state = .armed)
    (hcall : machine.call e.candidate e.input =
      evaluateArmed e.candidate e.input.snapshot e.time) :
    Progress machine e (machine.afterCall e.candidate e.input) := by
  unfold evaluateArmed at hcall
  dsimp only at hcall
  split_ifs at hcall
  · exact .emitted hstate (afterCall_transition hcall (by simp [hstate, allowed]) (by simp)).1
  · rw [afterCall_of_ok hcall]
    exact .holding hstate hstate

/-- Everything one call can do on the way to an entry. -/
theorem afterCall_cases (machine : CandidateStateMachine) (e : Evaluation) :
    Moves machine e (machine.afterCall e.candidate e.input) := by
  by_cases hage : ¬ keepsPastExpiry e.candidate.state ∧ machine.expired e.candidate e.time
  · have hcall : machine.call e.candidate e.input =
        transition e.candidate .rejected e.time (some .entryWindowExpired) := if_pos hage
    by_cases hallowed : .rejected ∈ allowed e.candidate.state
    · exact .rejected (afterCall_transition hcall hallowed (by simp)).1
    · -- already rejected: the call raises
      have hraise : machine.afterCall e.candidate e.input = e.candidate := by
        rw [afterCall, hcall, transition, if_pos hallowed]
      refine .off ?_ (by rw [hraise])
      intro hway
      have hkeeps := hage.1
      cases hs : e.candidate.state <;> simp_all [keepsPastExpiry, allowed, OnTheWay]
  by_cases hhard : (e.input.security.map Subtype.val).any (·.hardReject) ∧
      e.candidate.state ∈ [CandidateState.eligible, .waitingPullback, .armed, .entryPending]
  · obtain ⟨result, hresult, hreject⟩ : ∃ result, e.input.security = some result ∧
        result.1.hardReject = true := by
      cases hsecurity : e.input.security with
      | none =>
          rw [hsecurity] at hhard
          cases hhard.1
      | some result =>
          rw [hsecurity] at hhard
          exact ⟨result, rfl, hhard.1⟩
    obtain ⟨reason, rest, hreasons⟩ := result.exists_first_reason hreject
    have hcall : machine.call e.candidate e.input =
        transition e.candidate .rejected e.time (some reason) := by
      refine (if_neg hage).trans ((if_pos hhard).trans ?_)
      have hfirst : firstReason result.1 = .ok reason := by simp [firstReason, hreasons]
      rw [hresult]
      show (firstReason result.1 >>= fun reason => _) = _
      rw [hfirst]
      rfl
    refine .rejected (afterCall_transition hcall ?_ (by simp)).1
    have hmem := hhard.2
    cases hs : e.candidate.state <;> simp_all [allowed]
  have hcall : machine.call e.candidate e.input = _ := (if_neg hage).trans (if_neg hhard)
  have hinTime : OnTheWay e.candidate.state → ¬ machine.expired e.candidate e.time := by
    intro hway hexpired
    refine hage ⟨?_, hexpired⟩
    cases hs : e.candidate.state <;> simp_all [OnTheWay, keepsPastExpiry]
  have hsafe : SecurityWatched e.candidate.state → e.NoHardReject := by
    intro hwatched result hresult
    by_contra hreject
    refine hhard ⟨?_, hwatched⟩
    rw [Option.mem_def.mp hresult]
    exact Bool.eq_true_of_not_eq_false hreject
  cases hs : e.candidate.state with
  | discovered =>
      simp only [hs] at hcall
      obtain ⟨hnext, hsame⟩ := afterCall_transition hcall (by rw [hs]; decide) (by simp)
      exact .onTheWay (hinTime (by rw [hs]; decide)) hsafe (.discovered hs hnext hsame)
  | collecting =>
      simp only [hs] at hcall
      refine .onTheWay (hinTime (by rw [hs]; decide)) hsafe ?_
      split at hcall
      · rename_i hlong
        obtain ⟨hnext, hsame⟩ := afterCall_transition hcall (by rw [hs]; decide) (by simp)
        exact .collected hs hnext hlong hsame
      · rw [afterCall_of_ok hcall]
        exact .collecting hs hs rfl
  | securityCheck =>
      simp only [hs] at hcall
      cases hsecurity : e.input.security with
      | none =>
          rw [hsecurity] at hcall
          exact .onTheWay (hinTime (by rw [hs]; decide)) hsafe
            (.checking hs (afterCall_of_ok hcall))
      | some result =>
          rw [hsecurity] at hcall
          dsimp only [Option.map] at hcall
          split at hcall
          · rename_i hreject
            obtain ⟨reason, rest, hreasons⟩ := result.exists_first_reason hreject
            have hfirst : firstReason result.1 = .ok reason := by simp [firstReason, hreasons]
            rw [hfirst] at hcall
            exact .rejected (afterCall_transition hcall (by rw [hs]; decide) (by simp)).1
          · rename_i hreject
            obtain ⟨hnext, hsame⟩ := afterCall_transition hcall (by rw [hs]; decide) (by simp)
            exact .onTheWay (hinTime (by rw [hs]; decide)) hsafe
              (.passed hs hnext ⟨result, hsecurity, Bool.eq_false_of_not_eq_true hreject⟩ hsame)
  | eligible =>
      simp only [hs] at hcall
      obtain ⟨hnext, hsame⟩ := afterCall_transition hcall (by rw [hs]; decide) (by simp)
      exact .onTheWay (hinTime (by rw [hs]; decide)) hsafe (.eligible hs hnext hsame)
  | waitingPullback =>
      simp only [hs] at hcall
      rcases afterCall_waiting hs hcall with hrejected | hprogress
      · exact .rejected hrejected
      · exact .onTheWay (hinTime (by rw [hs]; decide)) hsafe hprogress
  | armed =>
      simp only [hs] at hcall
      exact .onTheWay (hinTime (by rw [hs]; decide)) hsafe (afterCall_armed hs hcall)
  | entryPending =>
      simp only [hs] at hcall
      exact .onTheWay (hinTime (by rw [hs]; decide)) hsafe (.pending hs (afterCall_of_ok hcall))
  | positionOpen | positionPartial | exitPending | retryingExit | closed | rejected =>
      simp only [hs] at hcall
      refine .off (by rw [hs]; decide) ?_
      rw [afterCall_of_ok hcall]

/-! ## Confirmations -/

/-- The spacing of two confirmations that follow each other. -/
def Spaced (machine : CandidateStateMachine) (earlier later : Time) : Prop :=
  seconds (max 0 (machine.scoreWindowSeconds - 1)) ≤ later - earlier ∧
    later - earlier ≤ seconds (machine.scoreWindowSeconds + 1)

/-- Confirmation times and the calls since the first of them: the times are those of some of the
calls, in their order, and every one of the calls scored well. -/
structure ConfirmedSince (machine : CandidateStateMachine) (since : List Evaluation)
    (times : List Time) : Prop where
  first : (since.map Evaluation.time).head? = times.head?
  sublist : times.Sublist (since.map Evaluation.time)
  scored : ∀ e ∈ since, e.ScoredWell machine
  spaced : times.IsChain (Spaced machine)

/-- The times are confirmation times of the last ones of the calls. -/
def Confirmed (machine : CandidateStateMachine) (calls : List Evaluation) (times : List Time) :
    Prop :=
  ∃ earlier since, calls = earlier ++ since ∧ ConfirmedSince machine since times

section Confirmations

variable {machine : CandidateStateMachine} {since calls : List Evaluation} {times : List Time}
  {e : Evaluation}

theorem ConfirmedSince.nil (machine : CandidateStateMachine) : ConfirmedSince machine [] [] :=
  ⟨rfl, List.Sublist.refl _, by rintro _ ⟨⟩, .nil⟩

theorem ConfirmedSince.single (h : e.ScoredWell machine) : ConfirmedSince machine [e] [e.time] :=
  ⟨rfl, List.Sublist.refl _, by simpa using h, .singleton _⟩

theorem Confirmed.none (machine : CandidateStateMachine) (calls : List Evaluation) :
    Confirmed machine calls [] :=
  ⟨calls, [], (List.append_nil _).symm, ConfirmedSince.nil machine⟩

theorem head?_append_of_eq {α : Type} {xs ys : List α} (h : xs.head? = ys.head?) (x : α)
    (hne : ys ≠ []) : (xs ++ [x]).head? = ys.head? := by
  cases xs with
  | nil =>
      cases ys with
      | nil => exact absurd rfl hne
      | cons y ys => cases h
  | cons z zs => exact h

/-- A call that scored well and is not recorded. -/
theorem ConfirmedSince.unrecorded (h : ConfirmedSince machine since times) (hne : times ≠ [])
    (hscore : e.ScoredWell machine) : ConfirmedSince machine (since ++ [e]) times := by
  refine ⟨?_, ?_, ?_, h.spaced⟩
  · rw [List.map_append, List.map_singleton]
    exact head?_append_of_eq h.first _ hne
  · rw [List.map_append]
    exact h.sublist.trans (List.sublist_append_left _ _)
  · intro v hv
    rcases List.mem_append.mp hv with hold | hnew
    · exact h.scored v hold
    · rw [List.mem_singleton.mp hnew]
      exact hscore

/-- A call that is recorded at an admissible distance. -/
theorem ConfirmedSince.extend (h : ConfirmedSince machine since times) {last : Time}
    (hlast : times.getLast? = some last) (hscore : e.ScoredWell machine)
    (hspaced : Spaced machine last e.time) :
    ConfirmedSince machine (since ++ [e]) (times ++ [e.time]) := by
  have hne : times ≠ [] := by
    rintro rfl
    cases hlast
  have hunrecorded := h.unrecorded hne hscore
  refine ⟨?_, ?_, hunrecorded.scored, ?_⟩
  · rw [hunrecorded.first, List.head?_append_of_ne_nil _ hne]
  · rw [List.map_append]
    exact h.sublist.append (List.Sublist.refl _)
  · refine List.isChain_append.mpr ⟨h.spaced, .singleton _, ?_⟩
    intro a ha b hb
    rw [hlast] at ha
    cases ha
    cases hb
    exact hspaced

/-- The calls from the one on whose time is the first of the times. -/
theorem exists_since_of_sublist {time : Time} (h : (time :: times).Sublist
    (calls.map Evaluation.time)) :
    ∃ earlier e later, calls = earlier ++ e :: later ∧ e.time = time ∧
      times.Sublist (later.map Evaluation.time) := by
  induction calls with
  | nil => cases h
  | cons call calls ih =>
      rw [List.map_cons] at h
      cases h with
      | cons _ hrest =>
          obtain ⟨earlier, e, later, rfl, htime, hlater⟩ := ih hrest
          exact ⟨call :: earlier, e, later, rfl, htime, hlater⟩
      | cons_cons _ hrest => exact ⟨[], call, calls, rfl, rfl, hrest⟩

/-- Forgetting the oldest times forgets the calls before the first one left. -/
theorem Confirmed.drop (h : Confirmed machine calls times) (n : Nat) :
    Confirmed machine calls (times.drop n) := by
  obtain ⟨earlier, since, rfl, hsince⟩ := h
  cases hdrop : times.drop n with
  | nil => exact Confirmed.none machine _
  | cons time rest =>
      have hleft : (time :: rest).Sublist (since.map Evaluation.time) := by
        rw [← hdrop]
        exact (List.drop_sublist n times).trans hsince.sublist
      obtain ⟨before, e, later, rfl, htime, hlater⟩ := exists_since_of_sublist hleft
      refine ⟨earlier ++ before, e :: later, (List.append_assoc _ _ _).symm, ?_, ?_, ?_, ?_⟩
      · rw [List.map_cons, htime]
        rfl
      · rw [List.map_cons, htime]
        exact hlater.cons_cons time
      · exact fun v hv => hsince.scored v (List.mem_append_right _ hv)
      · rw [← hdrop]
        exact hsince.spaced.drop n

theorem Confirmed.lastSlice (h : Confirmed machine calls times) (n : Int) :
    Confirmed machine calls (lastSlice times n) := by
  unfold Candidates.lastSlice
  split
  · exact h.drop _
  · exact h.drop _

/-- Recording a score keeps the confirmations in every branch. -/
theorem Confirmed.record (h : Confirmed machine calls e.candidate.scoreConfirmations) :
    Confirmed machine (calls ++ [e]) (recorded machine e) := by
  unfold recorded recordScore
  dsimp only
  rcases hinput : e.input.score with _ | score
  · exact Confirmed.none machine _
  dsimp only
  by_cases hlow : score.totalScore < machine.minimumScore
  · rw [if_pos (decide_eq_true hlow)]
    exact Confirmed.none machine _
  have hgood : e.ScoredWell machine := ⟨score, hinput, not_lt.mp hlow⟩
  rw [if_neg (by simpa using hlow)]
  split
  · exact ⟨calls, [e], rfl, ConfirmedSince.single hgood⟩
  rename_i last hlast
  obtain ⟨earlier, since, rfl, hsince⟩ := h
  split
  · rename_i hspaced
    exact Confirmed.lastSlice ⟨earlier, since ++ [e], List.append_assoc _ _ _,
      hsince.extend hlast hgood hspaced⟩ _
  · split
    · -- too late: the count starts again
      exact ⟨earlier ++ since, [e], rfl, ConfirmedSince.single hgood⟩
    · -- too early: the times are left alone
      have hne : e.candidate.scoreConfirmations ≠ [] := by
        intro hnil
        rw [hnil] at hlast
        cases hlast
      exact ⟨earlier, since ++ [e], List.append_assoc _ _ _, hsince.unrecorded hne hgood⟩

end Confirmations

/-! ## Stages -/

section Stages

variable (machine : CandidateStateMachine) (history : List Evaluation)

/-- A call met the candidate in `COLLECTING` at the age of `collect_seconds` or more. -/
def Collected : Prop :=
  ∃ before e after, history = before ++ e :: after ∧ e.candidate.state = .collecting ∧
    seconds machine.collectSeconds ≤ e.time - e.candidate.detectedAt

/-- Later a call met it in `SECURITY_CHECK` with a result that is no hard reject, and none of the
calls since had one. -/
def Passed : Prop :=
  ∃ before e after, history = before ++ e :: after ∧ Collected machine before ∧
    e.candidate.state = .securityCheck ∧
    (∃ result, e.input.security = some result ∧ result.1.hardReject = false) ∧
    ∀ v ∈ after, v.NoHardReject

/-- The calls of `WAITING_PULLBACK` so far, none with a hard reject, and the confirmation times
that they recorded. -/
def Waiting (times : List Time) : Prop :=
  ∃ before waiting, history = before ++ waiting ∧ Passed machine before ∧
    (∀ v ∈ waiting, v.candidate.state = .waitingPullback ∧ v.NoHardReject) ∧
    Confirmed machine waiting times

/-- The call `e` that armed the candidate, after the calls `waiting` of `WAITING_PULLBACK`. -/
structure ArmedBy (waiting : List Evaluation) (e : Evaluation) : Prop where
  state : e.candidate.state = .waitingPullback
  ready : ReadyToArm machine e.input
  enough : machine.requiredConfirmations ≤ (recorded machine e).length
  confirmed : Confirmed machine (waiting ++ [e]) (recorded machine e)

/-- A call armed the candidate, and no call since the security check had a hard reject. -/
def Armed : Prop :=
  ∃ before waiting e after, history = before ++ (waiting ++ e :: after) ∧ Passed machine before ∧
    (∀ v ∈ waiting, v.candidate.state = .waitingPullback) ∧ ArmedBy machine waiting e ∧
    ∀ v ∈ waiting ++ e :: after, v.NoHardReject

/-- One call, on an armed candidate, gave the entry signal. -/
def Entered : Prop :=
  ∃ before e after, history = before ++ e :: after ∧ Armed machine before ∧
    e.candidate.state = .armed ∧ e.Emits machine ∧ (∀ v ∈ e :: after, v.NoHardReject) ∧
    ∀ v ∈ before ++ after, ¬ v.Emits machine

end Stages

/-- What the past calls were, by the status of the candidate. -/
def Reached (machine : CandidateStateMachine) (w : Watched) : Prop :=
  match w.candidate.state with
  | .discovered | .collecting => w.candidate.scoreConfirmations = []
  | .securityCheck => w.candidate.scoreConfirmations = [] ∧ Collected machine w.history
  | .eligible => w.candidate.scoreConfirmations = [] ∧ Passed machine w.history
  | .waitingPullback => Waiting machine w.history w.candidate.scoreConfirmations
  | .armed => Armed machine w.history
  | .entryPending => Entered machine w.history
  | _ => True

section Later

variable {machine : CandidateStateMachine} {history : List Evaluation} {e : Evaluation}

theorem forall_mem_snoc {calls : List Evaluation} {P : Evaluation → Prop}
    (h : ∀ v ∈ calls, P v) (he : P e) : ∀ v ∈ calls ++ [e], P v :=
  List.forall_mem_append.mpr ⟨h, List.forall_mem_singleton.mpr he⟩

theorem Collected.later (h : Collected machine history) (e : Evaluation) :
    Collected machine (history ++ [e]) := by
  obtain ⟨before, c, after, rfl, hcollected⟩ := h
  exact ⟨before, c, after ++ [e], by simp, hcollected⟩

theorem Passed.later (h : Passed machine history) (hsafe : e.NoHardReject) :
    Passed machine (history ++ [e]) := by
  obtain ⟨before, c, after, rfl, hcollected, hstate, hresult, hafter⟩ := h
  exact ⟨before, c, after ++ [e], by simp, hcollected, hstate, hresult,
    forall_mem_snoc hafter hsafe⟩

theorem Armed.later (h : Armed machine history) (hsafe : e.NoHardReject) :
    Armed machine (history ++ [e]) := by
  obtain ⟨before, waiting, c, after, rfl, hpassed, hstates, harmed, hall⟩ := h
  refine ⟨before, waiting, c, after ++ [e], by simp, hpassed, hstates, harmed, ?_⟩
  rw [← List.cons_append, ← List.append_assoc]
  exact forall_mem_snoc hall hsafe

theorem Waiting.record (h : Waiting machine history e.candidate.scoreConfirmations)
    (hstate : e.candidate.state = .waitingPullback) (hsafe : e.NoHardReject) :
    Waiting machine (history ++ [e]) (recorded machine e) := by
  obtain ⟨before, waiting, rfl, hpassed, hwaiting, hconfirmed⟩ := h
  exact ⟨before, waiting ++ [e], List.append_assoc _ _ _, hpassed,
    forall_mem_snoc hwaiting ⟨hstate, hsafe⟩, hconfirmed.record⟩

theorem Waiting.arm (h : Waiting machine history e.candidate.scoreConfirmations)
    (hstate : e.candidate.state = .waitingPullback) (hready : ReadyToArm machine e.input)
    (henough : machine.requiredConfirmations ≤ (recorded machine e).length)
    (hsafe : e.NoHardReject) : Armed machine (history ++ [e]) := by
  obtain ⟨before, waiting, rfl, hpassed, hwaiting, hconfirmed⟩ := h
  exact ⟨before, waiting, e, [], List.append_assoc _ _ _, hpassed, fun v hv => (hwaiting v hv).1,
    ⟨hstate, hready, henough, hconfirmed.record⟩,
    forall_mem_snoc (fun v hv => (hwaiting v hv).2) hsafe⟩

theorem Entered.later (h : Entered machine history) (hsafe : e.NoHardReject)
    (hquiet : ¬ e.Emits machine) : Entered machine (history ++ [e]) := by
  obtain ⟨before, c, after, rfl, harmed, hstate, hemits, hall, hothers⟩ := h
  refine ⟨before, c, after ++ [e], by simp, harmed, hstate, hemits, ?_, ?_⟩
  · rw [← List.cons_append]
    exact forall_mem_snoc hall hsafe
  · rw [← List.append_assoc]
    exact forall_mem_snoc hothers hquiet

end Later

/-- What is kept about the past of a candidate. -/
structure Followed (machine : CandidateStateMachine) (w : Watched) : Prop where
  reached : Reached machine w
  inTime : OnTheWay w.candidate.state → ∀ e ∈ w.history, ¬ machine.expired e.candidate e.time
  /-- no entry signal before `ENTRY_PENDING` -/
  silent : OnTheWay w.candidate.state → w.candidate.state ≠ .entryPending →
    ∀ e ∈ w.history, ¬ e.Emits machine
  once : (w.history.filter fun e => e.Emits machine).length ≤ 1

section Step

variable {machine : CandidateStateMachine} {w : Watched} {input : EvaluateInput}

theorem length_filter_snoc {calls : List Evaluation} {e : Evaluation} {p : Evaluation → Bool}
    (h : p e = false) : ((calls ++ [e]).filter p).length = (calls.filter p).length := by
  rw [List.filter_append, List.filter_cons_of_neg (by simpa using h), List.filter_nil,
    List.append_nil]

/-- A call that keeps the candidate off the way, or takes it off. -/
theorem Followed.offTheWay (h : Followed machine w)
    (hoff : ¬ OnTheWay (machine.afterCall w.candidate input).state) :
    Followed machine (watch machine w input) := by
  have hquiet : ¬ (⟨w.candidate, input⟩ : Evaluation).Emits machine := by
    rintro ⟨-, hentry⟩
    exact hoff (by rw [hentry]; decide)
  refine ⟨?_, fun hway => absurd hway hoff, fun hway => absurd hway hoff, ?_⟩
  · unfold Reached
    simp only [watch]
    cases hs : (machine.afterCall w.candidate input).state <;>
      first | trivial | exact absurd (by rw [hs]; decide) hoff
  · simp only [watch]
    rw [length_filter_snoc (decide_eq_false hquiet)]
    exact h.once

/-- A call along the way that is not the entry signal. -/
theorem Followed.along (h : Followed machine w) (hway : OnTheWay w.candidate.state)
    (hinTime : ¬ machine.expired w.candidate input.snapshot.snapshotTime)
    (hreached : Reached machine (watch machine w input))
    (hquiet : ¬ (⟨w.candidate, input⟩ : Evaluation).Emits machine)
    (hbefore : (machine.afterCall w.candidate input).state ≠ .entryPending →
      w.candidate.state ≠ .entryPending) : Followed machine (watch machine w input) := by
  refine ⟨hreached, fun _ => forall_mem_snoc (h.inTime hway) hinTime,
    fun _ hnext => forall_mem_snoc (h.silent hway (hbefore hnext)) hquiet, ?_⟩
  simp only [watch]
  rw [length_filter_snoc (decide_eq_false hquiet)]
  exact h.once

/-- The call that gives the entry signal. -/
theorem Followed.emit (h : Followed machine w) (hstate : w.candidate.state = .armed)
    (hinTime : ¬ machine.expired w.candidate input.snapshot.snapshotTime)
    (hsafe : (⟨w.candidate, input⟩ : Evaluation).NoHardReject)
    (hentry : (machine.afterCall w.candidate input).state = .entryPending) :
    Followed machine (watch machine w input) := by
  have hway : OnTheWay w.candidate.state := by rw [hstate]; decide
  have hsilent := h.silent hway (by rw [hstate]; decide)
  have harmed := h.reached
  simp only [Reached, hstate] at harmed
  refine ⟨?_, fun _ => forall_mem_snoc (h.inTime hway) hinTime, fun _ hnext => absurd hentry hnext,
    ?_⟩
  · simp only [Reached, watch, hentry]
    exact ⟨w.history, _, [], rfl, harmed, hstate, ⟨by rw [hstate]; decide, hentry⟩,
      by simpa using hsafe, by simpa using hsilent⟩
  · have hnone : (w.history.filter fun e => e.Emits machine) = [] :=
      List.filter_eq_nil_iff.mpr fun e he => by simpa using hsilent e he
    simp only [watch]
    rw [List.filter_append, hnone, List.nil_append]
    exact List.length_filter_le _ _

theorem Followed.step (h : Followed machine w) (input : EvaluateInput) :
    Followed machine (watch machine w input) := by
  have hmoves := afterCall_cases machine ⟨w.candidate, input⟩
  cases hmoves with
  | rejected hrejected => exact h.offTheWay (by rw [hrejected]; decide)
  | off hstate hsame => exact h.offTheWay (by rw [hsame]; exact hstate)
  | onTheWay hinTime hsafe hprogress =>
      have hreached := h.reached
      -- outside the step from `ARMED` to `ENTRY_PENDING` the call is no signal
      have hquiet : ∀ {t}, w.candidate.state = .entryPending ∨
          (machine.afterCall w.candidate input).state = t ∧ t ≠ .entryPending →
          ¬ (⟨w.candidate, input⟩ : Evaluation).Emits machine := by
        rintro t (hpending | ⟨hnext, hne⟩) ⟨hnot, hentry⟩
        · exact hnot hpending
        · exact hne (hnext.symm.trans hentry)
      cases hprogress with
      | discovered hstate hnext hsame | collecting hstate hnext hsame =>
          dsimp only at hstate
          simp only [Reached, hstate] at hreached
          refine h.along (by rw [hstate]; decide) hinTime ?_
            (hquiet (Or.inr ⟨hnext, by decide⟩)) fun _ => by rw [hstate]; decide
          simp only [Reached, watch, hnext]
          exact hsame.trans hreached
      | collected hstate hnext hlong hsame =>
          dsimp only at hstate
          simp only [Reached, hstate] at hreached
          refine h.along (by rw [hstate]; decide) hinTime ?_
            (hquiet (Or.inr ⟨hnext, by decide⟩)) fun _ => by rw [hstate]; decide
          simp only [Reached, watch, hnext]
          exact ⟨hsame.trans hreached, w.history, _, [], rfl, hstate, hlong⟩
      | checking hstate hnext =>
          dsimp only at hstate
          simp only [Reached, hstate] at hreached
          have hstays : (machine.afterCall w.candidate input).state = .securityCheck := by
            rw [hnext]
            exact hstate
          refine h.along (by rw [hstate]; decide) hinTime ?_
            (hquiet (Or.inr ⟨hstays, by decide⟩)) fun _ => by rw [hstate]; decide
          simp only [Reached, watch, hnext, hstate]
          exact ⟨hreached.1, hreached.2.later _⟩
      | passed hstate hnext hresult hsame =>
          dsimp only at hstate
          simp only [Reached, hstate] at hreached
          refine h.along (by rw [hstate]; decide) hinTime ?_
            (hquiet (Or.inr ⟨hnext, by decide⟩)) fun _ => by rw [hstate]; decide
          simp only [Reached, watch, hnext]
          exact ⟨hsame.trans hreached.1, w.history, _, [], rfl, hreached.2, hstate, hresult,
            by rintro _ ⟨⟩⟩
      | eligible hstate hnext hsame =>
          dsimp only at hstate
          simp only [Reached, hstate] at hreached
          refine h.along (by rw [hstate]; decide) hinTime ?_
            (hquiet (Or.inr ⟨hnext, by decide⟩)) fun _ => by rw [hstate]; decide
          simp only [Reached, watch, hnext]
          rw [hsame, hreached.1]
          exact ⟨_, [], (List.append_nil _).symm,
            hreached.2.later (hsafe (by rw [hstate]; decide)), by rintro _ ⟨⟩,
            Confirmed.none machine []⟩
      | waiting hstate hnext htimes =>
          dsimp only at hstate
          simp only [Reached, hstate] at hreached
          refine h.along (by rw [hstate]; decide) hinTime ?_
            (hquiet (Or.inr ⟨hnext, by decide⟩)) fun _ => by rw [hstate]; decide
          simp only [Reached, watch, hnext]
          rw [htimes]
          exact Waiting.record hreached hstate (hsafe (by rw [hstate]; decide))
      | armed hstate hnext hready henough =>
          dsimp only at hstate
          simp only [Reached, hstate] at hreached
          refine h.along (by rw [hstate]; decide) hinTime ?_
            (hquiet (Or.inr ⟨hnext, by decide⟩)) fun _ => by rw [hstate]; decide
          simp only [Reached, watch, hnext]
          exact Waiting.arm hreached hstate hready henough (hsafe (by rw [hstate]; decide))
      | holding hstate hnext =>
          dsimp only at hstate
          simp only [Reached, hstate] at hreached
          refine h.along (by rw [hstate]; decide) hinTime ?_
            (hquiet (Or.inr ⟨hnext, by decide⟩)) fun _ => by rw [hstate]; decide
          simp only [Reached, watch, hnext]
          exact hreached.later (hsafe (by rw [hstate]; decide))
      | emitted hstate hentry =>
          exact h.emit hstate hinTime (hsafe (by rw [hstate]; decide)) hentry
      | pending hstate hnext =>
          dsimp only at hstate
          simp only [Reached, hstate] at hreached
          have hstays : (machine.afterCall w.candidate input).state = .entryPending := by
            rw [hnext]
            exact hstate
          refine h.along (by rw [hstate]; decide) hinTime ?_
            (hquiet (t := .entryPending) (Or.inl hstate)) fun hne => absurd hstays hne
          simp only [Reached, watch, hstays]
          exact hreached.later (hsafe (by rw [hstate]; decide))
            (hquiet (t := .entryPending) (Or.inl hstate))

end Step

/-! ## Runs -/

/-- However a candidate that starts from `DISCOVERED` is evaluated: when it is in `ENTRY_PENDING`,
it has passed the stages of `Entered` in their order, each call came before its expiry, and the
entry signal was given once; it is never given twice. -/
theorem entry_history (machine : CandidateStateMachine) (candidate : Candidate)
    (hstate : candidate.state = .discovered) (hnew : candidate.scoreConfirmations = [])
    (inputs : List EvaluateInput) :
    ((exec (watch machine) ⟨candidate, []⟩ inputs).candidate.state = .entryPending →
      Entered machine (exec (watch machine) ⟨candidate, []⟩ inputs).history ∧
      ∀ e ∈ (exec (watch machine) ⟨candidate, []⟩ inputs).history,
        ¬ machine.expired e.candidate e.time) ∧
    ((exec (watch machine) ⟨candidate, []⟩ inputs).history.filter
      fun e => e.Emits machine).length ≤ 1 := by
  have hstart : Followed machine ⟨candidate, []⟩ := by
    refine ⟨?_, fun _ => by rintro _ ⟨⟩, fun _ _ => by rintro _ ⟨⟩, Nat.zero_le _⟩
    simp only [Reached, hstate]
    exact hnew
  have hfollowed := exec_invariant (I := Followed machine) (fun _ input h => h.step input) hstart
    inputs
  refine ⟨fun hentry => ⟨?_, hfollowed.inTime (by rw [hentry]; decide)⟩, hfollowed.once⟩
  have hreached := hfollowed.reached
  simp only [Reached, hentry] at hreached
  exact hreached

/-- A context without a reason to reject, at 46 seconds. -/
def cleanContext : SecurityContext where
  mint := { tokenProgram := splTokenProgramId, decimals := 6, totalSupplyRaw := 1000000 }
  holders := some {}
  holdersObservedAt := some (seconds 46)
  execution :=
    { buyRouteAvailable := true, sellRouteAvailable := true, roundTripLossPct := 0
      buyPriceImpactPct := 0, sellPriceImpactPct := 0, quoteObservedAt := seconds 46 }
  quoteMint := wsolMint
  quoteLiquidityUsd := 50000
  liquidityChange30s := 0
  poolAgeSeconds := 60
  externalSuccessfulSellers := 5
  streamObservedAt := seconds 46

def freshCandidate : Candidate where
  candidateId := "candidate"
  mint := "TOKEN"
  poolAddress := "POOL"
  detectedAt := 0
  updatedAt := 0

/-- A call with the pullback and the buyers of an entry. -/
def evaluateAt (at' : Int) (price : ℚ) (score : Option ScoreBreakdown) : EvaluateInput where
  snapshot :=
    { snapshotTime := seconds at', buyerAcceleration := 15 / 10, currentPriceUsd := price
      rollingVwap30s := 1, localHigh := 12 / 10, drawdownFromLocalHigh := 15 / 100 }
  score := score
  sellRouteAvailable := true

/-- Two scores five seconds apart, and a price above the average. -/
def confirmedTwice : List EvaluateInput :=
  [evaluateAt 0 1 none, evaluateAt 45 1 none,
    { evaluateAt 46 1 none with security := some ⟨_, {}, cleanContext, seconds 46, rfl⟩ },
    evaluateAt 47 1 none, evaluateAt 50 1 (some ⟨85⟩), evaluateAt 55 1 (some ⟨85⟩),
    evaluateAt 56 (125 / 100) none]

theorem entry_history_confirmedTwice :
    Entered {} (exec (watch {}) ⟨freshCandidate, []⟩ confirmedTwice).history ∧
      ∀ e ∈ (exec (watch {}) ⟨freshCandidate, []⟩ confirmedTwice).history,
        ¬ CandidateStateMachine.expired {} e.candidate e.time :=
  (entry_history {} freshCandidate rfl rfl confirmedTwice).1 (by decide +kernel)

end SniperBot.Candidates
