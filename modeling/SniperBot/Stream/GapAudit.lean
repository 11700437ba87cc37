import SniperBot.Stream.GapRows

/-!
# Recovery gaps and the connection

A row is pending from a recovery that was given up until one succeeds, or the gap is accepted. The
connection keeps its checkpoint in between, so it does not become live without one of the two: the
steps of the connection are `Moves`, and with what a call of the database does to the table they
give `GapsKnown`, the invariant behind `gaps_audited`.
-/

namespace SniperBot.Stream

open Basis Features

/-! ## A connection that is live -/

/-- What `_run` waits for returns. -/
def ConnectionStep.Proceeds : ConnectionStep → Prop
  | .proceed _ => True
  | _ => False

namespace Connection

variable {config : ConnectionConfig} {s s' : Connection}

/-- A recovery is under way, or its outcome is told to the database. -/
def Recovers (s : Connection) : Prop :=
  match s.phase with
  | .recovering _ | .interrupted | .committing _ | .resolving => True
  | _ => False

/-- The steps of a connection keep a checkpoint, recover only with one, and become live without one
only if no recovery is needed. -/
structure Moves (s s' : Connection) : Prop where
  slot : s'.lastSlot = 0 → s.lastSlot = 0
  recovers : (s.Recovers → s.lastSlot ≠ 0) → s'.Recovers → s'.lastSlot ≠ 0
  live : s'.phase = .live → s.phase = .live ∨ s'.lastSlot = 0

theorem Moves.refl (s : Connection) : Moves s s := ⟨id, id, Or.inl⟩

/-- Neither the checkpoint nor the phase changes. -/
theorem Moves.of_same (hslot : s'.lastSlot = s.lastSlot) (hphase : s'.phase = s.phase) :
    Moves s s' := by
  refine ⟨fun h => hslot ▸ h, fun h hrecovers => ?_, fun h => Or.inl (hphase ▸ h)⟩
  rw [hslot]
  refine h ?_
  unfold Recovers at hrecovers ⊢
  rwa [← hphase]

/-- The connection ends. -/
theorem Moves.of_closing (hslot : s'.lastSlot = s.lastSlot) (hrecovers : ¬ s'.Recovers)
    (hlive : s'.phase ≠ .live) : Moves s s' :=
  ⟨fun h => hslot ▸ h, fun _ h => absurd h hrecovers, fun h => absurd h hlive⟩

theorem Moves.close (s : Connection) (ending : Ending) : Moves s (s.close ending) :=
  .of_closing rfl (fun h => h) fun h => by cases h

theorem enqueue_lastSlot (config : ConnectionConfig) (s : Connection) (notice : Notice) :
    (s.enqueue config notice).1.lastSlot = s.lastSlot := by
  unfold enqueue
  split
  · rfl
  · dsimp only
    split <;> rfl

theorem handleMessage_lastSlot (config : ConnectionConfig) (s : Connection) (item : Incoming) :
    (s.handleMessage config item).1.lastSlot = s.lastSlot := by
  unfold handleMessage
  split
  · rfl
  · rfl
  · next notice _ =>
      have hslot := enqueue_lastSlot config s notice
      split <;> next henqueue => rw [henqueue] at hslot; exact hslot

theorem dispatchPending_lastSlot (config : ConnectionConfig) (s : Connection)
    (items : List Incoming) : (s.dispatchPending config items).lastSlot = s.lastSlot := by
  induction items generalizing s with
  | nil => rfl
  | cons item rest ih =>
      have hslot := handleMessage_lastSlot config s item
      rw [dispatchPending]
      split
      · rfl
      · split
        · next s₁ hhandled =>
            rw [hhandled] at hslot
            exact (ih s₁).trans hslot
        · next s₁ hhandled =>
            rw [hhandled] at hslot
            exact hslot

theorem dispatchPending_phase (config : ConnectionConfig) (s : Connection)
    (items : List Incoming) :
    (s.dispatchPending config items).phase = .live ∨
      (s.dispatchPending config items).phase = .closing .retry := by
  obtain ⟨before, after, -, -, -, -, hphase⟩ := (dispatchPending_spec config s items).split
  exact hphase.imp_left And.left

theorem not_recovers_dispatchPending (config : ConnectionConfig) (s : Connection)
    (items : List Incoming) : ¬ (s.dispatchPending config items).Recovers := by
  unfold Recovers
  rcases dispatchPending_phase config s items with h | h <;> rw [h] <;> exact fun h => h

/-- What was held back is handled without a checkpoint. -/
theorem Moves.dispatchPending (items : List Incoming) (hslot : s.lastSlot = 0)
    (hzero : s'.lastSlot = 0) : Moves s' (s.dispatchPending config items) := by
  have hsame := dispatchPending_lastSlot config s items
  refine ⟨fun _ => hzero, fun _ h => ?_, fun _ => Or.inr (hsame.trans hslot)⟩
  exact absurd h (not_recovers_dispatchPending config s items)

theorem Moves.settle (s : Connection) (hzero' : s.lastSlot = 0 → s'.lastSlot = 0) :
    Moves s' (s.settle config) := by
  unfold Connection.settle
  split
  · next hzero => exact .dispatchPending _ hzero (hzero' hzero)
  · next hnonzero =>
      exact ⟨fun h => absurd h hnonzero, fun _ _ => hnonzero, fun h => by cases h⟩

theorem Moves.subscribed (s : Connection) (hsame : s'.lastSlot = s.lastSlot) (recent : Bool)
    (buffered : List Incoming) : Moves s' (s.subscribed config recent buffered) := by
  unfold Connection.subscribed
  split
  · exact .of_closing hsame.symm (fun h => h) fun h => by cases h
  · dsimp only
    split
    · next hzero => exact .dispatchPending _ hzero (hsame.trans hzero)
    · next hnonzero =>
        split
        · exact ⟨fun h => absurd h hnonzero, fun _ _ => hnonzero, fun h => by cases h⟩
        · exact .of_closing hsame.symm (fun h => h) fun h => by cases h

theorem Moves.receiveHandshake (s : Connection) (recent : Bool)
    (acknowledged : List (Int × Bool)) (buffered : List Incoming) (message : Json) :
    Moves s (s.receiveHandshake config recent acknowledged buffered message) := by
  unfold Connection.receiveHandshake
  split
  · dsimp only
    split
    · exact .of_closing rfl (fun h => h) fun h => by cases h
    · split
      · exact .subscribed s rfl recent buffered
      · exact .close s _
  · dsimp only
    split
    · exact .of_closing rfl (fun h => h) fun h => by cases h
    · exact .of_closing rfl (fun h => h) fun h => by cases h
  · exact .of_closing rfl (fun h => h) fun h => by cases h

theorem Moves.receive (s : Connection) (message : Json) (recent : Bool) :
    Moves s (s.receive config message recent) := by
  unfold Connection.receive
  split
  · exact .receiveHandshake s recent _ _ message
  · next buffered hphase =>
      have hrecovers : s.Recovers := by
        rw [Recovers, hphase]
        trivial
      unfold Connection.receiveRecovering
      dsimp only
      split
      · exact ⟨id, fun h _ => h hrecovers, fun h => by cases h⟩
      · exact ⟨id, fun h _ => h hrecovers, fun h => by cases h⟩
  · next hphase =>
      have hslot := handleMessage_lastSlot config (s.arrive message) (s.incoming message)
      unfold Connection.receiveLive
      split
      · exact .of_closing rfl (fun h => h) fun h => by cases h
      · split
        · next s₁ hhandled =>
            have hphase' := (handleMessage_handles hhandled).phase
            rw [hhandled] at hslot
            exact .of_same hslot hphase'
        · next s₁ hhandled =>
            rw [hhandled] at hslot
            exact .of_closing hslot (fun h => h) fun h => by cases h
  · exact .refl s

/-- No call of the database and no step of `accepting` is taken. -/
theorem Moves.proceed (s : Connection) (slots : List Nat) (hcalled : ¬ GapSystem.Awaiting s) :
    Moves s (s.proceed config slots) := by
  unfold GapSystem.Awaiting at hcalled
  unfold Connection.proceed
  split
  · next hphase =>
      rw [hphase] at hcalled
      exact absurd trivial hcalled
  · next buffered hphase =>
      have hrecovers : s.Recovers := by
        rw [Recovers, hphase]
        trivial
      dsimp only
      split
      · exact .settle _ id
      · exact ⟨id, fun h _ => h hrecovers, fun h => by cases h⟩
  · next hphase =>
      rw [hphase] at hcalled
      exact absurd trivial hcalled
  · next slot rest hphase =>
      have hrecovers : s.Recovers := by
        rw [Recovers, hphase]
        trivial
      have hmax : max s.lastSlot slot = 0 → s.lastSlot = 0 := by omega
      dsimp only
      split
      · exact .settle _ hmax
      · exact ⟨hmax, fun h _ hzero => h hrecovers (hmax hzero), fun h => by cases h⟩
  · next hphase =>
      rw [hphase] at hcalled
      exact absurd trivial hcalled
  · exact .refl s

theorem Moves.expire (s : Connection) : Moves s s.expire := by
  unfold Connection.expire
  split
  · exact .close s _
  · next buffered hphase =>
      have hrecovers : s.Recovers := by
        rw [Recovers, hphase]
        trivial
      exact ⟨id, fun h _ => h hrecovers, fun h => by cases h⟩
  · exact .refl s

theorem Moves.fail (s : Connection) : Moves s s.fail := by
  unfold Connection.fail
  split
  · exact .of_same rfl rfl
  all_goals first
    | exact .refl s
    | exact .close s .retry

theorem Moves.connect (s : Connection) (recent : Bool) : Moves s (s.connect config recent) := by
  unfold Connection.connect
  split
  · dsimp only
    split
    · exact .of_same rfl rfl
    · exact .of_closing rfl (fun h => h) fun h => by cases h
  · exact .refl s

theorem cancelLogFetchTasks_lastSlot (s : Connection) (fetching : Bool) :
    (s.cancelLogFetchTasks fetching).lastSlot = s.lastSlot := by
  unfold cancelLogFetchTasks
  dsimp only
  split <;> rfl

theorem Moves.closed (s : Connection) (fetching : Bool) : Moves s (s.closed fetching) := by
  unfold Connection.closed
  split
  · next ending hphase =>
      have hslot := cancelLogFetchTasks_lastSlot s fetching
      dsimp only
      generalize s.cancelLogFetchTasks fetching = s₁ at hslot
      split
      · exact .of_closing hslot (fun h => h) fun h => by cases h
      · unfold extendHandshakeBuffer
        split
        · exact .of_closing hslot (fun h => h) fun h => by cases h
        · exact .of_closing hslot (fun h => h) fun h => by cases h
      · exact .of_closing hslot (fun h => h) fun h => by cases h
  · exact .refl s

theorem Moves.dispatch (s : Connection) (ok : Bool) : Moves s (s.dispatch ok) := by
  unfold Connection.dispatch
  split
  · split
    · exact .refl s
    · split
      · exact .of_same rfl rfl
      · exact .of_same rfl rfl
  · exact .refl s

theorem Moves.step (s : Connection) (step : ConnectionStep)
    (hcalled : step.Proceeds → ¬ GapSystem.Awaiting s) : Moves s (s.step config step) := by
  cases step with
  | connect recent => exact .connect s recent
  | receive message recent => exact .receive s message recent
  | expire => exact .expire s
  | fail => exact .fail s
  | proceed slots => exact .proceed s slots (hcalled trivial)
  | closed fetching => exact .closed s fetching
  | dispatch ok => exact .dispatch s ok
  | failTask => exact .of_same rfl rfl
  | observe slot =>
      have hmax : max s.lastSlot slot = 0 → s.lastSlot = 0 := by omega
      exact ⟨hmax, fun h hrecovers hzero => h hrecovers (hmax hzero), Or.inl⟩
  | block reason =>
      unfold Connection.step
      dsimp only
      split
      · exact .refl s
      · exact .of_same rfl rfl
  | unblock reason =>
      unfold Connection.step
      dsimp only
      split
      · exact .refl s
      · exact .of_same rfl rfl
  | stop => exact .of_closing rfl (fun h => h) fun h => by cases h

end Connection

/-- What holds of the connection and the table as long as no process begins without a checkpoint
while a gap is open. -/
structure GapsKnown (s : GapSystem) : Prop extends GapAudit s where
  recovers : s.connection.Recovers → s.connection.lastSlot ≠ 0
  unchecked : s.connection.lastSlot = 0 → NonePending s.rows
  live : s.connection.phase = .live → NonePending s.rows

section Known

variable {config : ConnectionConfig} {s : GapSystem}

theorem GapsKnown.init : GapsKnown {} where
  toGapAudit := .init
  recovers h := h.elim
  unchecked _ := by
    rintro p id row ⟨hget, -⟩
    cases hget
  live h := by cases h

/-- A step of the connection with the same table. -/
theorem GapsKnown.move (h : GapsKnown s) {connection : Connection}
    (hmoves : Connection.Moves s.connection connection) :
    GapsKnown { s with connection := connection } where
  toGapAudit := ⟨h.onePending, h.attempts, h.accepted⟩
  recovers := hmoves.recovers h.recovers
  unchecked hzero := h.unchecked (hmoves.slot hzero)
  live hlive := by
    rcases hmoves.live hlive with hlive | hzero
    · exact h.live hlive
    · exact h.unchecked (hmoves.slot hzero)

/-- Other rows, while there is a checkpoint and the connection is not live. -/
theorem GapsKnown.replace (h : GapsKnown s) {s' : GapSystem} (haudit : GapAudit s')
    (hconnection : s'.connection = s.connection) (hslot : s.connection.lastSlot ≠ 0)
    (hlive : s.connection.phase ≠ .live) : GapsKnown s' where
  toGapAudit := haudit
  recovers hrecovers := by
    rw [hconnection] at hrecovers ⊢
    exact h.recovers hrecovers
  unchecked hzero := absurd (hconnection ▸ hzero) hslot
  live hphase := absurd (hconnection ▸ hphase) hlive

/-- The connection ends with the table in which nothing is pending. -/
theorem GapsKnown.of_nonePending {s' : GapSystem} (haudit : GapAudit s')
    (hrecovers : s'.connection.Recovers → s'.connection.lastSlot ≠ 0)
    (hnone : NonePending s'.rows) : GapsKnown s' where
  toGapAudit := haudit
  recovers := hrecovers
  unchecked _ := hnone
  live _ := hnone

theorem record_connection (s : GapSystem) (call : GapCall) (reason : String) (ending : CallEnd) :
    (s.record call reason ending).1.connection = s.connection := by
  unfold GapSystem.record
  split
  · rfl
  all_goals split <;> rfl

/-- After a call with an accepted reason that was committed, nothing is pending. -/
theorem record_accepted (h : GapAudit s) {reason : String}
    (haccepted : reason ∈ acceptedRecoveryGapReasons) (call : GapCall) (ending : CallEnd) :
    (s.record call reason ending).2 = .raised ∧ (s.record call reason ending).1 = s ∨
      NonePending (s.record call reason ending).1.rows := by
  unfold GapSystem.record
  split
  · exact Or.inl ⟨rfl, rfl⟩
  all_goals
    split
    · exact Or.inl ⟨rfl, rfl⟩
    · next rows hrows =>
        have hspec := recordStreamRecoveryGap_spec h.onePending hrows
        exact Or.inr (hspec.nonePending (decide_eq_true haccepted))

theorem GapsKnown.accepting (h : GapsKnown s) (hphase : s.connection.phase = .accepting)
    (call : GapCall) (ending : CallEnd) :
    GapsKnown (s.step config (.handler call ending)) := by
  have haudit : GapAudit (s.step config (.handler call ending)) := (h.toGapAudit.step _).1
  have hrecord := record_accepted h.toGapAudit
    (by decide : "unrecoverable_gap_accepted" ∈ acceptedRecoveryGapReasons) call ending
  have hconnection := record_connection s call "unrecoverable_gap_accepted" ending
  unfold GapSystem.step at haudit ⊢
  simp only [hphase] at haudit ⊢
  generalize s.record call "unrecoverable_gap_accepted" ending = result at *
  obtain ⟨s', ending'⟩ := result
  dsimp only at haudit hconnection hrecord ⊢
  rcases hrecord with ⟨rfl, rfl⟩ | hnone
  · exact h.move (.fail s'.connection)
  · refine .of_nonePending haudit (fun hrecovers => ?_) hnone
    unfold GapSystem.after at hrecovers
    rw [hconnection] at hrecovers
    exfalso
    split at hrecovers
    · unfold Connection.proceed at hrecovers
      simp only [hphase] at hrecovers
      exact Connection.not_recovers_dispatchPending _ _ _ hrecovers
    · unfold Connection.fail at hrecovers
      simp only [hphase] at hrecovers
      exact hrecovers

theorem GapsKnown.interrupted (h : GapsKnown s) (hphase : s.connection.phase = .interrupted)
    (call : GapCall) (ending : CallEnd) :
    GapsKnown (s.step config (.handler call ending)) := by
  have hrecovers : s.connection.Recovers := by
    rw [Connection.Recovers, hphase]
    trivial
  have hrecord := (record_audit h.toGapAudit call "recovery_timeout" ending).1
  have hconnection := record_connection s call "recovery_timeout" ending
  unfold GapSystem.step
  simp only [hphase]
  generalize s.record call "recovery_timeout" ending = result at *
  obtain ⟨s', ending'⟩ := result
  have hknown : GapsKnown s' := h.replace hrecord hconnection (h.recovers hrecovers)
    (by rw [hphase]; exact fun h => (by cases h))
  have hphase' : s'.connection.phase = .interrupted := by rw [hconnection, hphase]
  unfold GapSystem.after
  split
  · refine hknown.move ?_
    unfold Connection.proceed
    simp only [hphase']
    exact .close _ _
  · exact hknown.move (.fail s'.connection)

theorem GapsKnown.resolving (h : GapsKnown s) (hphase : s.connection.phase = .resolving)
    (call : GapCall) (ending : CallEnd) :
    GapsKnown (s.step config (.handler call ending)) := by
  have haudit : GapAudit (s.step config (.handler call ending)) := (h.toGapAudit.step _).1
  unfold GapSystem.step at haudit ⊢
  simp only [hphase] at haudit ⊢
  by_cases hraised : ending = .raised
  · subst hraised
    exact h.move (.fail s.connection)
  · simp only [if_neg hraised] at haudit ⊢
    refine .of_nonePending haudit (fun hrecovers => ?_)
      (resolveStreamRecoveryGaps_spec call.now s.rows).nonePending
    unfold GapSystem.after at hrecovers
    exfalso
    split at hrecovers
    · unfold Connection.proceed at hrecovers
      simp only [hphase] at hrecovers
      exact Connection.not_recovers_dispatchPending _ _ _ hrecovers
    · unfold Connection.fail at hrecovers
      simp only [hphase] at hrecovers
      exact hrecovers

theorem GapsKnown.hold (h : GapsKnown s) (call : GapCall) (ending : CallEnd) :
    GapsKnown (s.step config (.hold call ending)) := by
  unfold GapSystem.step
  dsimp only
  split
  · next hphase =>
      split
      · next hstale =>
          have hmoves : Connection.Moves s.connection (s.connection.connect config false) :=
            .connect s.connection false
          have hconnected := h.move hmoves
          have hslot : (s.connection.connect config false).lastSlot ≠ 0 :=
            fun hzero => hstale.2 (hmoves.slot hzero)
          have hlive : (s.connection.connect config false).phase ≠ .live := by
            intro hlive
            rcases hmoves.live hlive with hbefore | hzero
            · rw [hphase] at hbefore
              cases hbefore
            · exact hslot hzero
          split
          · exact hconnected
          · have hrecord := (record_audit hconnected.toGapAudit call "checkpoint_unrecoverable"
              ending).1
            have hconnection := record_connection
              { s with connection := s.connection.connect config false } call
              "checkpoint_unrecoverable" ending
            split
            · next s' hs =>
                rw [hs] at hrecord hconnection
                have hknown := hconnected.replace hrecord hconnection hslot hlive
                exact ⟨⟨hknown.onePending, hknown.attempts, hknown.accepted⟩, hknown.recovers,
                  hknown.unchecked, hknown.live⟩
            · next s' _ ending' hs =>
                rw [hs] at hrecord hconnection
                have hknown := hconnected.replace hrecord hconnection hslot hlive
                exact hknown.move (.step s'.connection .stop fun h => h.elim)
      · exact h
  · exact h

theorem GapsKnown.step (h : GapsKnown s) (a : GapStep) (hrestored : s.Restored a) :
    GapsKnown (s.step config a) := by
  cases a with
  | run step =>
      unfold GapSystem.step
      dsimp only
      split
      · exact h
      · next hcalled =>
          refine h.move (.step s.connection step fun hproceeds => ?_)
          cases step with
          | proceed slots => exact hcalled
          | _ => exact hproceeds.elim
  | handler call ending =>
      cases hphase : s.connection.phase with
      | accepting => exact h.accepting hphase call ending
      | interrupted => exact h.interrupted hphase call ending
      | resolving => exact h.resolving hphase call ending
      | _ =>
          unfold GapSystem.step
          simp only [hphase]
          exact h
  | hold call ending => exact h.hold call ending
  | restart slot =>
      refine ⟨⟨h.onePending, h.attempts, h.accepted⟩, fun hrecovers => hrecovers.elim, ?_,
        fun hlive => by cases hlive⟩
      intro hzero
      rintro p id row ⟨hget, -, hpending⟩
      rcases hrestored with hslot | hnone
      · exact hslot hzero
      · exact hnone row (Dict.mem_values.mpr ⟨id, hget⟩) hpending

end Known

/-- In every state of every run: a protocol has at most one pending row, its attempts add up to the
calls that were committed, its accepted rows to those with an accepted reason, and a row that is not
pending stays for the rest of the run. If no process began without a checkpoint while a row was
pending, none is pending while the connection is live. -/
theorem gaps_audited (config : ConnectionConfig) (before after : List GapStep) :
    let s := exec (GapSystem.step config) {} before
    (∀ protocol, (pendingRows protocol s.rows).length ≤ 1) ∧
    (∀ protocol, attemptsOf protocol s.rows = s.recorded.length ∧
      acceptedOf protocol s.rows = s.recorded.countP (· ∈ acceptedRecoveryGapReasons)) ∧
    (∀ id row, s.rows.get? id = some row → row.status ≠ .pending →
      (exec (GapSystem.step config) {} (before ++ after)).rows.get? id = some row) ∧
    (Along GapSystem.Restored (GapSystem.step config) {} before →
      s.connection.phase = .live → ∀ row ∈ s.rows.values, row.status ≠ .pending) := by
  intro s
  have haudit : GapAudit s :=
    exec_invariant (fun _ a h => (h.step a).1) GapAudit.init before
  refine ⟨length_pendingRows_le haudit.onePending,
    fun protocol => ⟨haudit.attempts protocol, haudit.accepted protocol⟩,
    fun id row hget hsettled => ?_, fun hrun hlive row hrow hpending => ?_⟩
  · rw [exec_append]
    exact (exec_invariant (I := fun s' : GapSystem => GapAudit s' ∧ s'.rows.get? id = some row)
      (fun _ a h => ⟨(h.1.step a).1, (h.1.step a).2 id row h.2 hsettled⟩) ⟨haudit, hget⟩ after).2
  · have hknown : GapsKnown s := hrun.invariant (fun _ a h hguard => h.step a hguard) .init
    obtain ⟨id, hget⟩ := Dict.mem_values.mp hrow
    exact hknown.live hlive row.protocol id row ⟨hget, rfl, hpending⟩

/-! ## A run -/

def gapCall (now : Time) : GapCall where
  newId protocol := if protocol = .pump then "a" else "b"
  checkpoints _ := some "sig"
  now := now

/-- A socket with both acknowledgements. -/
def subscribed : List GapStep :=
  [.run (.connect true), .run (.receive (acknowledgement 1) true),
    .run (.receive (acknowledgement 2) true)]

/-- A recovery is given up; the row is committed, although the handler raises. The next one
succeeds. -/
def recoveredLater : List GapStep :=
  [.restart 5] ++ subscribed ++
    [.run .expire, .handler (gapCall 1) .raisedCommitted, .run (.closed false)] ++ subscribed ++
    [.run (.proceed []), .handler (gapCall 2) .returned]

theorem gaps_audited_sample :
    let s := exec (GapSystem.step {}) {} recoveredLater
    s.connection.phase = .live ∧ attemptsOf .pump s.rows = 1 ∧
    s.rows.values.map (·.status) = [.resolved, .resolved] ∧
    ∀ row ∈ s.rows.values, row.status ≠ .pending := by
  have hlive : (exec (GapSystem.step {}) {} recoveredLater).connection.phase = .live := rfl
  exact ⟨hlive, by decide +kernel, by decide +kernel,
    (gaps_audited {} recoveredLater []).2.2.2 (by decide +kernel) hlive⟩

/-- A process without a checkpoint is live while the row of the one before it is pending. -/
example :
    let s := exec (GapSystem.step {}) {} ([.restart 5] ++ subscribed ++
      [.run .expire, .handler (gapCall 1) .returned, .restart 0] ++ subscribed)
    .streamDisconnected ∉ s.connection.gate.reasons ∧
      s.rows.values.map (·.status) = [.pending, .pending] := by
  decide +kernel

end SniperBot.Stream
