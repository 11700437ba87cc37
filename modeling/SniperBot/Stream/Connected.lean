import SniperBot.Basis.HoldBack
import SniperBot.Basis.Run
import SniperBot.Stream.Connection

/-!
# What a connection of the stream keeps

The messages of `_run` are those of a receiver that holds them back until it is ready
(`Connection.view`, `view_step`), so they are handled in the order of receipt and at most once, and
an entry gate that is open to the stream has a connection behind it of which every message was
handled (`connection_run`).

A message that was kept back stays until it is handled. One that cannot be handled therefore keeps
every later connection from getting ready, until a recovery is given up, which clears the messages
(`closed_until_interrupted`).
-/

namespace SniperBot.Stream

open Basis SniperBot.Runtime

/-- `handle_message` does not raise because of what the message says. -/
def Incoming.Readable (item : Incoming) : Prop :=
  ∃ notice, readMessage item.message = .ok notice

namespace Connection

variable {config : ConnectionConfig} {s : Connection}

/-! ## The messages that are held back -/

/-- The messages of the connection that are not among the pending ones. -/
def fresh (s : Connection) : List Incoming :=
  match s.phase with
  | .handshaking _ buffered => buffered
  | .recovering buffered => buffered.drop s.pending.length
  | .closing (.handshakeFailed buffered) => buffered
  | _ => []

def up (s : Connection) : Bool :=
  match s.phase with
  | .handshaking _ _ | .accepting | .recovering _ | .committing _ | .resolving | .live => true
  | .waiting | .interrupted | .closing _ | .stopped => false

def ready (s : Connection) : Bool :=
  match s.phase with
  | .live => true
  | _ => false

/-- The messages as a receiver has them that connects again and again. -/
def view (s : Connection) : HoldBack Incoming where
  received := s.received
  arrived := s.arrived
  handled := s.handled
  pending := s.pending
  fresh := s.fresh
  up := s.up
  ready := s.ready

/-- The view in a phase. -/
def viewAt (s : Connection) (fresh : List Incoming) (up ready : Bool) : HoldBack Incoming :=
  ⟨s.received, s.arrived, s.handled, s.pending, fresh, up, ready⟩

theorem view_of_handshaking {acknowledged : List (Int × Bool)} {buffered : List Incoming}
    (h : s.phase = .handshaking acknowledged buffered) : s.view = s.viewAt buffered true false := by
  simp [view, viewAt, fresh, up, ready, h]

theorem view_of_recovering {buffered : List Incoming} (h : s.phase = .recovering buffered) :
    s.view = s.viewAt (buffered.drop s.pending.length) true false := by
  simp [view, viewAt, fresh, up, ready, h]

theorem view_of_live (h : s.phase = .live) : s.view = s.viewAt [] true true := by
  simp [view, viewAt, fresh, up, ready, h]

/-- The connection is set up, and `_run` waits for something else than messages. -/
def Settling (s : Connection) : Prop :=
  s.phase = .accepting ∨ (∃ slots, s.phase = .committing slots) ∨ s.phase = .resolving

theorem view_of_settling (h : s.Settling) : s.view = s.viewAt [] true false := by
  rcases h with h | ⟨slots, h⟩ | h <;> simp [view, viewAt, fresh, up, ready, h]

/-- There is no connection. -/
def Down (s : Connection) : Prop :=
  s.phase = .waiting ∨ s.phase = .interrupted ∨ s.phase = .closing .retry ∨
    s.phase = .closing .returned ∨ s.phase = .stopped

theorem view_of_down (h : s.Down) : s.view = s.viewAt [] false false := by
  rcases h with h | h | h | h | h <;> simp [view, viewAt, fresh, up, ready, h]

theorem view_of_handshakeFailed {buffered : List Incoming}
    (h : s.phase = .closing (.handshakeFailed buffered)) :
    s.view = s.viewAt buffered false false := by
  simp [view, viewAt, fresh, up, ready, h]

/-! ## The pending messages are handled -/

/-- The gate is closed by a reason of `_run`. -/
def Shut (s : Connection) : Prop :=
  .startup ∈ s.gate.reasons ∨ .streamDisconnected ∈ s.gate.reasons

/-- Messages are handled, and of the connection nothing else changes. -/
structure Handles (s s' : Connection) (items : List Incoming) : Prop where
  received : s'.received = s.received
  arrived : s'.arrived = s.arrived
  phase : s'.phase = s.phase
  pending : s'.pending = s.pending
  handled : s'.handled = s.handled ++ items
  readable : ∀ item ∈ items, item.Readable
  shut_iff : s'.Shut ↔ s.Shut

theorem Handles.refl (s : Connection) : Handles s s [] :=
  ⟨rfl, rfl, rfl, rfl, (List.append_nil _).symm, List.forall_mem_nil _, Iff.rfl⟩

theorem enqueue_handles (config : ConnectionConfig) (s : Connection) (notice : Notice) :
    Handles s (s.enqueue config notice).1 [] := by
  unfold enqueue
  split
  · exact .refl s
  · simp only []
    split
    · refine ⟨rfl, rfl, rfl, rfl, (List.append_nil _).symm, List.forall_mem_nil _, ?_⟩
      simp [Shut, EntryGate.requestFatalRestart, EntryGate.block]
    · exact ⟨rfl, rfl, rfl, rfl, (List.append_nil _).symm, List.forall_mem_nil _, Iff.rfl⟩

theorem handleMessage_handles {item : Incoming} {s' : Connection} {ok : Bool}
    (h : s.handleMessage config item = (s', ok)) :
    Handles s s' (if ok then [item] else []) := by
  unfold handleMessage at h
  split at h
  · cases h
    exact .refl s
  · next hread =>
      cases h
      exact ⟨rfl, rfl, rfl, rfl, rfl, List.forall_mem_singleton.mpr ⟨none, hread⟩, Iff.rfl⟩
  · next notice hread =>
      have hqueued := enqueue_handles config s notice
      split at h
      · next s₁ henqueue =>
          cases h
          rw [henqueue] at hqueued
          refine ⟨hqueued.received, hqueued.arrived, hqueued.phase, hqueued.pending, ?_,
            List.forall_mem_singleton.mpr ⟨some notice, hread⟩, hqueued.shut_iff⟩
          exact congrArg (· ++ [item]) (hqueued.handled.trans (List.append_nil _))
      · next s₁ henqueue =>
          cases h
          rw [henqueue] at hqueued
          exact hqueued

/-- The pending messages are handled up to one that raises, or all of them. -/
structure Dispatched (s t : Connection) (items : List Incoming) : Prop where
  received : t.received = s.received
  arrived : t.arrived = s.arrived
  split : ∃ before after, items = before ++ after ∧ t.handled = s.handled ++ before ∧
    t.pending = after ∧ (∀ item ∈ before, item.Readable) ∧
    (t.phase = .live ∧ after = [] ∨ t.phase = .closing .retry)
  gate : (.startup ∉ t.gate.reasons ∧ .streamDisconnected ∉ t.gate.reasons) ↔ t.phase = .live

theorem dispatchPending_spec (config : ConnectionConfig) (s : Connection) (items : List Incoming) :
    Dispatched s (s.dispatchPending config items) items := by
  have hstopped (s : Connection) (items : List Incoming) :
      Dispatched s ({ s with pending := items }.close .retry) items := by
    refine ⟨rfl, rfl, ⟨[], items, rfl, (List.append_nil _).symm, rfl, List.forall_mem_nil _,
      .inr rfl⟩, ?_⟩
    simp [close, EntryGate.block]
  induction items generalizing s with
  | nil =>
      refine ⟨rfl, rfl, ⟨[], [], rfl, (List.append_nil _).symm, rfl, List.forall_mem_nil _,
        .inl ⟨rfl, rfl⟩⟩, ?_⟩
      simp [dispatchPending, EntryGate.unblock]
  | cons item rest ih =>
      rw [dispatchPending]
      split
      · exact hstopped s (item :: rest)
      · split
        · next s' hhandled =>
            have hfirst := handleMessage_handles hhandled
            obtain ⟨hreceived, harrived, ⟨before, after, hrest, hdone, hpending, hreadable, hend⟩,
              hgate⟩ := ih s'
            refine ⟨hreceived.trans hfirst.received, harrived.trans hfirst.arrived,
              ⟨item :: before, after, ?_, ?_, hpending, ?_, hend⟩, hgate⟩
            · rw [hrest, List.cons_append]
            · rw [hdone, hfirst.handled, if_pos rfl, List.append_assoc, List.singleton_append]
            · exact List.forall_mem_cons.mpr
                ⟨hfirst.readable item (List.mem_singleton_self item), hreadable⟩
        · next s' hhandled =>
            have hfirst := handleMessage_handles hhandled
            obtain ⟨hreceived, harrived, ⟨before, after, hrest, hdone, hpending, hreadable, hend⟩,
              hgate⟩ := hstopped s' (item :: rest)
            refine ⟨hreceived.trans hfirst.received, harrived.trans hfirst.arrived,
              ⟨before, after, hrest, ?_, hpending, hreadable, hend⟩, hgate⟩
            rw [hdone, hfirst.handled, if_neg Bool.false_ne_true, List.append_nil]

/-! ## A step of the connection -/

open HoldBack

variable {mayClear : Prop}

theorem dispatchPending_steps (s : Connection) :
    Steps mayClear (s.viewAt [] true false) (s.dispatchPending config s.pending).view := by
  obtain ⟨hreceived, harrived, ⟨before, after, hpending, hhandled, hafter, -, hend⟩, -⟩ :=
    dispatchPending_spec config s s.pending
  rcases hend with ⟨hlive, rfl⟩ | hclosing
  · rw [List.append_nil] at hpending
    rw [← hpending] at hhandled
    rw [view_of_live hlive]
    simp only [viewAt, hreceived, harrived, hhandled, hafter]
    exact .single (.finish (s.viewAt [] true false) rfl rfl)
  · rw [view_of_down (.inr (.inr (.inl hclosing)))]
    simp only [viewAt, hreceived, harrived, hhandled, hafter]
    exact .single (.stop (s.viewAt [] true false) before after hpending)

theorem settle_steps (s : Connection) :
    Steps mayClear (s.viewAt [] true false) (s.settle config).view := by
  unfold settle
  split
  · exact dispatchPending_steps s
  · exact .refl

theorem subscribed_steps (recent : Bool) (buffered : List Incoming) :
    Steps mayClear (s.viewAt buffered true false) (s.subscribed config recent buffered).view := by
  have habsorb : Steps mayClear (s.viewAt buffered true false)
      ({ s with pending := s.pending ++ buffered }.viewAt [] true false) :=
    .single (.absorb (s.viewAt buffered true false) rfl)
  unfold subscribed
  split
  · exact .single (.drop (s.viewAt buffered true false))
  · simp only []
    split
    · exact habsorb.trans (dispatchPending_steps _)
    · split
      · refine habsorb.trans (.trans .refl ?_)
        rw [view_of_recovering rfl]
        simp only [List.drop_length]
        exact .refl
      · exact habsorb

theorem receiveHandshake_steps (recent : Bool) {acknowledged : List (Int × Bool)}
    {buffered : List Incoming} (message : Json) :
    Steps mayClear (s.viewAt buffered true false)
      (s.receiveHandshake config recent acknowledged buffered message).view := by
  have hkeep : Steps mayClear (s.viewAt buffered true false)
      ((s.arrive message).viewAt (buffered ++ [s.incoming message]) true false) :=
    .single (.keep (s.viewAt buffered true false) (s.incoming message) rfl)
  unfold receiveHandshake
  split
  · simp only []
    split
    · exact .refl
    · split
      · exact subscribed_steps recent buffered
      · exact .single (.shut (s.viewAt buffered true false))
  · simp only []
    split
    · exact hkeep.tail (.shut _)
    · exact hkeep
  · exact .single (.lose (s.viewAt buffered true false) (s.incoming message))

def recoversNow (s : Connection) : Bool :=
  match s.phase with
  | .recovering _ => true
  | _ => false

def interruptedNow (s : Connection) : Bool :=
  match s.phase with
  | .interrupted => true
  | _ => false

/-- A recovery is given up. -/
def Interrupts (config : ConnectionConfig) (s : Connection) (a : ConnectionStep) : Prop :=
  s.recoversNow = true ∧ (s.step config a).interruptedNow = true

instance (a : ConnectionStep) : Decidable (s.Interrupts config a) :=
  inferInstanceAs (Decidable (_ ∧ _))

theorem interrupt_steps (hclear : mayClear) (s : Connection) {h : HoldBack Incoming}
    (hreceived : h.received = s.received) (harrived : h.arrived = s.arrived)
    (hhandled : h.handled = s.handled) : Steps mayClear h s.interrupt.view := by
  rw [view_of_down (.inr (.inl rfl))]
  have hstep := Step.clear h hclear
  rw [down, hreceived, harrived, hhandled] at hstep
  exact .single hstep

theorem receiveRecovering_steps {fresh buffered : List Incoming}
    (hbuffered : buffered = s.pending ++ fresh) (message : Json)
    (hclear : (s.receiveRecovering buffered message).interruptedNow = true → mayClear) :
    Steps mayClear (s.viewAt fresh true false) (s.receiveRecovering buffered message).view := by
  unfold receiveRecovering at hclear ⊢
  simp only [] at hclear ⊢
  split
  · next hfull =>
      rw [if_pos hfull] at hclear
      exact .trans (.single (.lose (s.viewAt fresh true false) (s.incoming message)))
        (interrupt_steps (hclear rfl) _ rfl rfl rfl)
  · rw [view_of_recovering rfl, hbuffered, List.append_assoc]
    simp only [arrive, List.drop_left]
    exact .single (.keep (s.viewAt fresh true false) (s.incoming message) rfl)

theorem receiveLive_steps (hlive : s.phase = .live) (message : Json) :
    Steps mayClear (s.viewAt [] true true) (s.receiveLive config message).view := by
  have hlost : Steps mayClear (s.viewAt [] true true) ((s.arrive message).close .retry).view :=
    .single (.lose (s.viewAt [] true true) (s.incoming message))
  unfold receiveLive
  split
  · exact hlost
  · split
    · next s' hhandle =>
        have hhandles := handleMessage_handles hhandle
        rw [view_of_live (hhandles.phase.trans hlive)]
        simp only [viewAt, hhandles.received, hhandles.arrived, hhandles.handled, hhandles.pending]
        exact .single (.pass (s.viewAt [] true true) (s.incoming message) rfl)
    · next s' hhandle =>
        have hhandles := handleMessage_handles hhandle
        rw [view_of_down (.inr (.inr (.inl rfl)))]
        simp only [viewAt, close, hhandles.received, hhandles.arrived, hhandles.handled,
          hhandles.pending]
        rw [if_neg Bool.false_ne_true, List.append_nil]
        exact hlost

/-- What a recovery has buffered begins with the messages that were pending. -/
def Buffers (s : Connection) : Prop :=
  ∀ buffered, s.phase = .recovering buffered → s.pending <+: buffered

theorem connect_steps (recent : Bool) : Steps mayClear s.view (s.connect config recent).view := by
  unfold connect
  split
  · simp only []
    split
    · exact .refl
    · exact .single (.connect s.view)
  · exact .refl

theorem receive_steps (hbuffers : s.Buffers) (message : Json) (recent : Bool)
    (hclear : s.Interrupts config (.receive message recent) → mayClear) :
    Steps mayClear s.view (s.receive config message recent).view := by
  have hstep : s.step config (.receive message recent) = s.receive config message recent := rfl
  unfold Interrupts at hclear
  rw [hstep] at hclear
  unfold receive at hclear ⊢
  split
  · next hphase =>
      rw [view_of_handshaking hphase]
      exact receiveHandshake_steps recent message
  · next buffered hphase =>
      have hrecovers : s.recoversNow = true := by rw [recoversNow, hphase]
      rw [hphase] at hclear
      obtain ⟨fresh, hfresh⟩ := hbuffers buffered hphase
      rw [view_of_recovering hphase, ← hfresh, List.drop_left]
      rw [hfresh]
      exact receiveRecovering_steps hfresh.symm message fun hnow => hclear ⟨hrecovers, hnow⟩
  · next hphase =>
      rw [view_of_live hphase]
      exact receiveLive_steps hphase message
  · exact .refl

theorem expire_steps (config : ConnectionConfig) (hclear : s.Interrupts config .expire → mayClear) :
    Steps mayClear s.view s.expire.view := by
  have hstep : s.step config .expire = s.expire := rfl
  unfold Interrupts at hclear
  rw [hstep] at hclear
  unfold expire at hclear ⊢
  split
  · next hphase =>
      rw [view_of_handshaking hphase]
      exact .single (.shut (s.viewAt _ true false))
  · next hphase =>
      have hrecovers : s.recoversNow = true := by rw [recoversNow, hphase]
      rw [hphase] at hclear
      exact interrupt_steps (hclear ⟨hrecovers, rfl⟩) s rfl rfl rfl
  · exact .refl

theorem fail_steps : Steps mayClear s.view s.fail.view := by
  unfold fail
  split
  · exact .refl
  all_goals first
    | exact .refl
    | exact .single (.drop s.view)

theorem proceed_steps (hbuffers : s.Buffers) (slots : List Nat) :
    Steps mayClear s.view (s.proceed config slots).view := by
  unfold proceed
  split
  · next hphase =>
      rw [view_of_settling (.inl hphase)]
      exact dispatchPending_steps s.accept
  · next buffered hphase =>
      obtain ⟨fresh, hfresh⟩ := hbuffers buffered hphase
      rw [view_of_recovering hphase, ← hfresh, List.drop_left]
      have habsorb : Steps mayClear (s.viewAt fresh true false)
          ({ s with pending := s.pending ++ fresh }.viewAt [] true false) :=
        .single (.absorb (s.viewAt fresh true false) rfl)
      simp only []
      split
      · exact habsorb.trans (settle_steps _)
      · exact habsorb
  · exact .single (.drop s.view)
  · next hphase =>
      rw [view_of_settling (.inr (.inl ⟨_, hphase⟩))]
      simp only []
      split
      · exact settle_steps { s with lastSlot := max s.lastSlot _ }
      · exact .refl
  · next hphase =>
      rw [view_of_settling (.inr (.inr hphase))]
      exact dispatchPending_steps s
  · exact .refl

theorem cancelLogFetchTasks_viewAt (fetching : Bool) (fresh : List Incoming) (up ready : Bool) :
    (s.cancelLogFetchTasks fetching).viewAt fresh up ready = s.viewAt fresh up ready := by
  unfold cancelLogFetchTasks
  simp only []
  split <;> rfl

theorem closed_steps (fetching : Bool) : Steps mayClear s.view (s.closed fetching).view := by
  unfold closed
  split
  · next ending hphase =>
      simp only []
      split
      · rw [view_of_down (s := s) (.inr (.inr (.inl hphase)))]
        exact Eq.subst (cancelLogFetchTasks_viewAt fetching [] false false).symm .refl
      · next buffered =>
          rw [view_of_handshakeFailed hphase,
            ← cancelLogFetchTasks_viewAt (s := s) fetching buffered false false]
          generalize s.cancelLogFetchTasks fetching = s'
          unfold extendHandshakeBuffer
          split
          · exact .single (.drop (s'.viewAt buffered false false))
          · exact .single (.absorb (s'.viewAt buffered false false) rfl)
      · rw [view_of_down (s := s) (.inr (.inr (.inr (.inl hphase))))]
        exact Eq.subst (cancelLogFetchTasks_viewAt fetching [] false false).symm .refl
  · exact .refl

theorem dispatch_view (ok : Bool) : (s.dispatch ok).view = s.view := by
  unfold dispatch
  split
  · split
    · rfl
    · split <;> rfl
  · rfl

/-- Every step is one of a receiver that holds messages back. -/
theorem view_step (hbuffers : s.Buffers) (a : ConnectionStep) :
    Steps (s.Interrupts config a) s.view (s.step config a).view := by
  cases a with
  | connect recent => exact connect_steps recent
  | receive message recent => exact receive_steps hbuffers message recent id
  | expire => exact expire_steps config id
  | fail => exact fail_steps
  | proceed slots => exact proceed_steps hbuffers slots
  | closed fetching => exact closed_steps fetching
  | dispatch ok => exact Eq.subst (dispatch_view ok).symm .refl
  | failTask | observe => exact .refl
  | block reason =>
      rw [step]
      split <;> exact .refl
  | unblock reason =>
      rw [step]
      split <;> exact .refl
  | stop => exact .single (.drop s.view)

/-! ## Gate and buffers -/

/-- The messages are numbered, can be read where they were handled, and fit into the buffer. -/
structure Messages (s : Connection) : Prop where
  numbered : s.received.map Incoming.number = List.range s.received.length
  readable : ∀ item ∈ s.handled, item.Readable
  pending_le : s.pending.length ≤ messageBufferLimit

theorem Messages.same {s' : Connection} (h : s.Messages) (hreceived : s'.received = s.received)
    (hhandled : s'.handled = s.handled) (hpending : s'.pending = s.pending) : s'.Messages where
  numbered := by
    rw [hreceived]
    exact h.numbered
  readable := by
    rw [hhandled]
    exact h.readable
  pending_le := by
    rw [hpending]
    exact h.pending_le

structure Kept (s : Connection) : Prop where
  messages : s.Messages
  buffered : ∀ buffered, s.phase = .recovering buffered →
    s.pending <+: buffered ∧ buffered.length ≤ messageBufferLimit
  shut_iff : s.Shut ↔ s.phase ≠ .live

theorem Kept.buffers (h : s.Kept) : s.Buffers := fun buffered hphase =>
  (h.buffered buffered hphase).1

theorem Kept.init : ({} : Connection).Kept where
  messages := ⟨rfl, List.forall_mem_nil _, Nat.zero_le _⟩
  buffered _ h := by cases h
  shut_iff := ⟨fun _ h => (by cases h), fun _ => .inl (by decide)⟩

/-- Between two connections, or while `_run` waits for something else than messages. -/
theorem Kept.of_shut (hmessages : s.Messages) (hshut : s.Shut) (hlive : s.phase ≠ .live)
    (hrecovering : ∀ buffered, s.phase ≠ .recovering buffered) : s.Kept where
  messages := hmessages
  buffered buffered hphase := absurd hphase (hrecovering buffered)
  shut_iff := ⟨fun _ => hlive, fun _ => hshut⟩

theorem Messages.arrive (h : s.Messages) (message : Json) : (s.arrive message).Messages where
  numbered := by
    simp only [Connection.arrive, List.map_append, h.numbered, List.length_append,
      List.map_singleton, incoming, List.length_singleton, List.range_succ]
  readable := h.readable
  pending_le := h.pending_le

theorem Messages.close (h : s.Messages) (ending : Ending) : (s.close ending).Kept :=
  .of_shut (h.same rfl rfl rfl) (.inr (Finset.mem_insert_self _ _))
    (fun hphase => by cases hphase) fun _ hphase => by cases hphase

theorem Messages.interrupt (h : s.Messages) (hshut : s.Shut) : s.interrupt.Kept := by
  refine .of_shut ⟨h.numbered, h.readable, Nat.zero_le _⟩ ?_ (fun hphase => by cases hphase)
    fun _ hphase => by cases hphase
  exact hshut.imp (Finset.mem_insert_of_mem ·) (Finset.mem_insert_of_mem ·)

theorem Messages.dispatchPending (h : s.Messages) : (s.dispatchPending config s.pending).Kept := by
  obtain ⟨hreceived, -, ⟨before, after, hpending, hhandled, hafter, hreadable, hend⟩, hgate⟩ :=
    dispatchPending_spec config s s.pending
  refine ⟨⟨?_, ?_, ?_⟩, fun buffered hphase => ?_, ?_⟩
  · rw [hreceived]
    exact h.numbered
  · rw [hhandled]
    exact List.forall_mem_append.mpr ⟨h.readable, hreadable⟩
  · have hle := h.pending_le
    rw [hpending, List.length_append] at hle
    rw [hafter]
    omega
  · rcases hend with ⟨hlive, -⟩ | hclosing
    · rw [hlive] at hphase
      cases hphase
    · rw [hclosing] at hphase
      cases hphase
  · rw [ne_eq, ← hgate, Shut, not_and_or, not_not, not_not]

theorem Messages.settle (h : s.Messages) (hshut : s.Shut) : (s.settle config).Kept := by
  unfold Connection.settle
  split
  · exact h.dispatchPending
  · refine .of_shut (h.same rfl rfl rfl) ?_ (fun hphase => by cases hphase)
      fun _ hphase => by cases hphase
    exact hshut.imp (Finset.mem_erase_of_ne_of_mem (by decide))
      (Finset.mem_erase_of_ne_of_mem (by decide))

theorem Messages.subscribed (h : s.Messages) (hshut : s.Shut) (recent : Bool)
    (buffered : List Incoming) : (s.subscribed config recent buffered).Kept := by
  unfold Connection.subscribed
  split
  · exact h.close .returned
  · next hle =>
      have hextended : ({ s with pending := s.pending ++ buffered } : Connection).Messages :=
        ⟨h.numbered, h.readable, by rw [List.length_append]; exact Nat.not_lt.mp hle⟩
      simp only []
      split
      · exact hextended.dispatchPending
      · split
        · refine ⟨⟨h.numbered, h.readable, hextended.pending_le⟩, fun _ hphase => ?_,
            fun _ hphase => (by cases hphase), fun _ => hshut⟩
          cases hphase
          exact ⟨List.prefix_refl _, hextended.pending_le⟩
        · refine .of_shut ⟨h.numbered, h.readable, hextended.pending_le⟩ ?_
            (fun hphase => by cases hphase) fun _ hphase => by cases hphase
          exact hshut.imp (Finset.mem_insert_of_mem ·) (Finset.mem_insert_of_mem ·)

theorem Messages.receiveHandshake (h : s.Messages) (hshut : s.Shut) (recent : Bool)
    (acknowledged : List (Int × Bool)) (buffered : List Incoming) (message : Json) :
    (s.receiveHandshake config recent acknowledged buffered message).Kept := by
  have hwaits (t : Connection) (ht : t.Messages) (hshut : t.Shut)
      (acknowledged : List (Int × Bool)) (buffered : List Incoming) :
      ({ t with phase := .handshaking acknowledged buffered } : Connection).Kept :=
    .of_shut (ht.same rfl rfl rfl) hshut (fun hphase => by cases hphase)
      fun _ hphase => by cases hphase
  unfold Connection.receiveHandshake
  split
  · simp only []
    split
    · exact hwaits s h hshut _ _
    · split
      · exact h.subscribed hshut recent buffered
      · exact h.close _
  · simp only []
    split
    · exact (h.arrive message).close _
    · exact hwaits _ (h.arrive message) hshut _ _
  · exact (h.arrive message).close _

theorem Messages.receiveRecovering (h : s.Messages) (hshut : s.Shut) {buffered : List Incoming}
    (hinit : s.pending <+: buffered) (message : Json) :
    (s.receiveRecovering buffered message).Kept := by
  unfold Connection.receiveRecovering
  simp only []
  split
  · exact (h.arrive message).interrupt hshut
  · next hle =>
      refine ⟨⟨(h.arrive message).numbered, h.readable, h.pending_le⟩, fun _ hphase => ?_,
        fun _ hphase => (by cases hphase), fun _ => hshut⟩
      cases hphase
      exact ⟨hinit.trans (List.prefix_append _ _), Nat.not_lt.mp hle⟩

theorem Handles.messages {s' : Connection} {items : List Incoming} (hs : Handles s s' items)
    (h : s.Messages) : s'.Messages where
  numbered := by
    rw [hs.received]
    exact h.numbered
  readable := by
    rw [hs.handled]
    exact List.forall_mem_append.mpr ⟨h.readable, hs.readable⟩
  pending_le := by
    rw [hs.pending]
    exact h.pending_le

theorem Kept.receiveLive (h : s.Kept) (hlive : s.phase = .live) (message : Json) :
    (s.receiveLive config message).Kept := by
  have hmessages := h.messages.arrive message
  unfold Connection.receiveLive
  split
  · exact hmessages.close .retry
  · split
    · next s' hhandle =>
        have hhandles := handleMessage_handles hhandle
        have hlive' := hhandles.phase.trans hlive
        refine ⟨hhandles.messages hmessages, fun _ hphase => ?_, ?_⟩
        · rw [hlive'] at hphase
          cases hphase
        · have hshut := h.shut_iff
          rw [hlive] at hshut
          rw [hlive', hhandles.shut_iff]
          exact hshut
    · next s' hhandle =>
        exact ((handleMessage_handles hhandle).messages hmessages).close .retry

theorem Kept.connect (h : s.Kept) (recent : Bool) : (s.connect config recent).Kept := by
  have hmessages := h.messages
  unfold Connection.connect
  split
  · next hphase =>
      simp only []
      split
      · refine .of_shut (hmessages.same rfl rfl rfl) (.inr ?_)
          (by rw [hphase]; exact fun h => (by cases h))
          (by rw [hphase]; exact fun _ h => (by cases h))
        exact Finset.mem_insert_of_mem (Finset.mem_insert_self _ _)
      · refine .of_shut (hmessages.same rfl rfl rfl) (.inr ?_)
          (fun h => by cases h) fun _ h => by cases h
        exact Finset.mem_insert_of_mem (Finset.mem_insert_of_mem (Finset.mem_insert_self _ _))
  · exact h

theorem Kept.receive (h : s.Kept) (message : Json) (recent : Bool) :
    (s.receive config message recent).Kept := by
  unfold Connection.receive
  split
  · next hphase =>
      have hshut := h.shut_iff.mpr (by rw [hphase]; exact fun h => (by cases h))
      exact h.messages.receiveHandshake hshut recent _ _ message
  · next buffered hphase =>
      have hshut := h.shut_iff.mpr (by rw [hphase]; exact fun h => (by cases h))
      exact h.messages.receiveRecovering hshut (h.buffers buffered hphase) message
  · next hphase => exact h.receiveLive hphase message
  · exact h

theorem Kept.expire (h : s.Kept) : s.expire.Kept := by
  unfold Connection.expire
  split
  · exact h.messages.close _
  · next hphase =>
      exact h.messages.interrupt (h.shut_iff.mpr (by rw [hphase]; exact fun h => (by cases h)))
  · exact h

theorem Kept.fail (h : s.Kept) : s.fail.Kept := by
  unfold Connection.fail
  split
  · next hphase =>
      refine .of_shut (h.messages.same rfl rfl rfl)
        (.inr (Finset.mem_insert_self _ _)) (by rw [hphase]; exact fun h => (by cases h))
        (by rw [hphase]; exact fun _ h => (by cases h))
  all_goals first
    | exact h
    | exact h.messages.close .retry

theorem Kept.proceed (h : s.Kept) (slots : List Nat) : (s.proceed config slots).Kept := by
  have hmessages := h.messages
  unfold Connection.proceed
  split
  · exact Messages.dispatchPending (s := s.accept)
      (hmessages.same rfl rfl rfl)
  · next buffered hphase =>
      have hshut := h.shut_iff.mpr (by rw [hphase]; exact fun h => (by cases h))
      have hbuffered : ({ s with pending := buffered } : Connection).Messages :=
        ⟨hmessages.numbered, hmessages.readable, (h.buffered buffered hphase).2⟩
      simp only []
      split
      · exact hbuffered.settle hshut
      · exact .of_shut (hbuffered.same rfl rfl rfl) hshut (fun h => by cases h)
          fun _ h => by cases h
  · exact hmessages.close .retry
  · next slot rest hphase =>
      have hshut := h.shut_iff.mpr (by rw [hphase]; exact fun h => (by cases h))
      simp only []
      split
      · exact Messages.settle (s := { s with lastSlot := max s.lastSlot slot })
          (hmessages.same rfl rfl rfl) hshut
      · exact .of_shut (hmessages.same rfl rfl rfl) hshut
          (fun h => by cases h) fun _ h => by cases h
  · exact hmessages.dispatchPending
  · exact h

theorem cancelLogFetchTasks_messages (h : s.Messages) (fetching : Bool) :
    (s.cancelLogFetchTasks fetching).Messages := by
  unfold cancelLogFetchTasks
  simp only []
  split <;> exact (h.same rfl rfl rfl)

theorem cancelLogFetchTasks_shut (h : s.Shut) (fetching : Bool) :
    (s.cancelLogFetchTasks fetching).Shut := by
  unfold cancelLogFetchTasks
  simp only []
  split
  · exact h.imp (Finset.mem_insert_of_mem ·) (Finset.mem_insert_of_mem ·)
  · exact h

theorem Kept.closed (h : s.Kept) (fetching : Bool) : (s.closed fetching).Kept := by
  unfold Connection.closed
  split
  · next ending hphase =>
      have hshut := cancelLogFetchTasks_shut
        (h.shut_iff.mpr (by rw [hphase]; exact fun h => (by cases h))) fetching
      have hmessages := cancelLogFetchTasks_messages h.messages fetching
      simp only []
      generalize s.cancelLogFetchTasks fetching = s' at hshut hmessages
      split
      · exact .of_shut (hmessages.same rfl rfl rfl) hshut
          (fun h => by cases h) fun _ h => by cases h
      · unfold extendHandshakeBuffer
        split
        · exact .of_shut (hmessages.same rfl rfl rfl)
            (.inr (Finset.mem_insert_self _ _)) (fun h => by cases h) fun _ h => by cases h
        · next hle =>
            refine .of_shut ⟨hmessages.numbered, hmessages.readable, ?_⟩ hshut
              (fun h => by cases h) fun _ h => by cases h
            rw [List.length_append]
            exact Nat.not_lt.mp hle
      · exact .of_shut (hmessages.same rfl rfl rfl) hshut
          (fun h => by cases h) fun _ h => by cases h
  · exact h

/-- Only the gate changes, and by no reason of `_run`. -/
theorem Kept.of_gate {s' : Connection} (h : s.Kept) (hmessages : s'.Messages)
    (hphase : s'.phase = s.phase) (hpending : s'.pending = s.pending)
    (hshut : s'.Shut ↔ s.Shut) : s'.Kept where
  messages := hmessages
  buffered buffered hphase' := by
    rw [hpending]
    exact h.buffered buffered (hphase.symm.trans hphase')
  shut_iff := by
    rw [hshut, hphase]
    exact h.shut_iff

theorem shut_block (s : Connection) {reason : Reason} (hstartup : reason ≠ .startup)
    (hdisconnected : reason ≠ .streamDisconnected) :
    ({ s with gate := s.gate.block reason } : Connection).Shut ↔ s.Shut := by
  simp only [Shut, EntryGate.block, Finset.mem_insert, Ne.symm hstartup, Ne.symm hdisconnected,
    false_or]

theorem shut_fetchError (s : Connection) :
    ({ s with gate := s.gate.block .streamFetchError } : Connection).Shut ↔ s.Shut :=
  shut_block s (by decide) (by decide)

theorem shut_unblock {reason : Reason} (hstartup : reason ≠ .startup)
    (hdisconnected : reason ≠ .streamDisconnected) :
    ({ s with gate := s.gate.unblock reason } : Connection).Shut ↔ s.Shut := by
  simp only [Shut, EntryGate.unblock, Finset.mem_erase, ne_eq, Ne.symm hstartup,
    Ne.symm hdisconnected, not_false_eq_true, true_and]

theorem Kept.dispatch (h : s.Kept) (ok : Bool) : (s.dispatch ok).Kept := by
  have hmessages := h.messages
  unfold Connection.dispatch
  split
  · split
    · exact h
    · split
      · exact h.of_gate (hmessages.same rfl rfl rfl) rfl rfl Iff.rfl
      · exact h.of_gate (hmessages.same rfl rfl rfl) rfl rfl
          (shut_fetchError s)
  · exact h

theorem Kept.step (h : s.Kept) (a : ConnectionStep) : (s.step config a).Kept := by
  have hmessages := h.messages
  cases a with
  | connect recent => exact h.connect recent
  | receive message recent => exact h.receive message recent
  | expire => exact h.expire
  | fail => exact h.fail
  | proceed slots => exact h.proceed slots
  | closed fetching => exact h.closed fetching
  | dispatch ok => exact h.dispatch ok
  | failTask =>
      exact h.of_gate (hmessages.same rfl rfl rfl) rfl rfl
        (shut_fetchError s)
  | observe slot =>
      exact h.of_gate (hmessages.same rfl rfl rfl) rfl rfl Iff.rfl
  | block reason =>
      rw [Connection.step]
      split
      · exact h
      · next hown =>
          rw [not_or] at hown
          exact h.of_gate (hmessages.same rfl rfl rfl) rfl rfl
            (shut_block s hown.1 hown.2)
  | unblock reason =>
      rw [Connection.step]
      split
      · exact h
      · next hown =>
          have hstartup : reason ≠ .startup := fun heq => hown (by rw [heq]; decide)
          have hdisconnected : reason ≠ .streamDisconnected := fun heq => hown (by rw [heq]; decide)
          exact h.of_gate (hmessages.same rfl rfl rfl) rfl rfl
            (shut_unblock hstartup hdisconnected)
  | stop =>
      exact .of_shut (hmessages.same rfl rfl rfl)
        (.inr (Finset.mem_insert_self _ _)) (fun h => by cases h) fun _ h => by cases h

/-! ## Runs -/

/-- The state of the run is one of a receiver that holds messages back. -/
theorem run_kept (config : ConnectionConfig) (as : List ConnectionStep) :
    (exec (step config) {} as).Kept ∧ (exec (step config) {} as).view.Sound := by
  refine exec_invariant (I := fun s : Connection => s.Kept ∧ s.view.Sound) (fun s a hs => ?_)
    ⟨Kept.init, Sound.init⟩ as
  exact ⟨hs.1.step a, hs.2.steps (view_step hs.1.buffers a)⟩

theorem run_steps {s : Connection} (hs : s.Kept) (as : List ConnectionStep)
    (hrun : Along (fun s a => ¬s.Interrupts config a) (step config) s as) :
    Steps False s.view (exec (step config) s as).view := by
  induction as generalizing s with
  | nil => exact .refl
  | cons a as ih =>
      have hfirst : Steps False s.view (s.step config a).view :=
        (view_step hs.buffers a).mono hrun.1
      exact hfirst.trans (ih (hs.step a) hrun.2)

theorem handled_of_view {s : Connection} (h : s.view.Sound) (hlive : s.phase = .live) :
    s.pending = [] ∧ s.arrived <:+ s.handled := by
  have hready : s.view.ready = true := by
    rw [view_of_live hlive]
    rfl
  exact ⟨(h.ready hready).2.1, h.handled_of_ready hready⟩

end Connection

/-- What the stream promises of its messages and of the gate. -/
structure Delivered (s : Connection) : Prop where
  numbered : s.received.map Incoming.number = List.range s.received.length
  /-- In the order of receipt, and at most once. -/
  inOrder : (s.handled ++ s.pending).Sublist s.received
  bounded : s.pending.length ≤ messageBufferLimit
  gate_iff : (.startup ∉ s.gate.reasons ∧ .streamDisconnected ∉ s.gate.reasons) ↔ s.phase = .live
  /-- A connection that is ready has handled what came in since it began. -/
  complete : s.phase = .live → s.pending = [] ∧ s.arrived <:+ s.handled

/-- Whatever comes in and whichever step fails, in every state of every run. -/
theorem connection_run (config : ConnectionConfig) (as : List ConnectionStep) :
    Delivered (exec (Connection.step config) {} as) := by
  obtain ⟨hkept, hsound⟩ := Connection.run_kept config as
  refine ⟨hkept.messages.numbered, ?_, hkept.messages.pending_le, ?_,
    Connection.handled_of_view hsound⟩
  · have hsublist := hsound.sublist_down
    rwa [List.append_nil] at hsublist
  · have hiff := not_congr hkept.shut_iff
    rwa [Connection.Shut, not_or, not_not] at hiff

/-- A message that was kept back is kept until it is handled. One that `handle_message` refuses is
kept, and with it the gate is closed, as long as no recovery is given up. -/
theorem closed_until_interrupted (config : ConnectionConfig) (before after : List ConnectionStep)
    {item : Incoming} (hitem : item ∈ (exec (Connection.step config) {} before).pending)
    (hrun : Along (fun s a => ¬s.Interrupts config a) (Connection.step config)
      (exec (Connection.step config) {} before) after) :
    let s := exec (Connection.step config) {} (before ++ after)
    (item ∈ s.pending ∨ item ∈ s.handled) ∧
      (¬item.Readable → item ∈ s.pending ∧ ¬s.gate.Enabled) := by
  intro s
  have hs : s = exec (Connection.step config) (exec (Connection.step config) {} before) after :=
    exec_append _ _ _ _
  obtain ⟨hkept, hsound⟩ := Connection.run_kept config (before ++ after)
  have hsteps := Connection.run_steps (Connection.run_kept config before).1 after hrun
  rw [← hs] at hsteps
  have hstays : item ∈ s.pending ∨ item ∈ s.handled := hsteps.mem_pending hitem
  refine ⟨hstays, fun hunreadable => ?_⟩
  have hpending : item ∈ s.pending :=
    hstays.resolve_right fun hhandled => hunreadable (hkept.messages.readable item hhandled)
  refine ⟨hpending, fun henabled => ?_⟩
  have hempty : (exec (Connection.step config) {} (before ++ after)).gate.reasons = ∅ := henabled.1
  have hlive : ¬s.phase ≠ .live := by
    rw [← hkept.shut_iff, Connection.Shut, hempty]
    simp
  rw [(Connection.handled_of_view hsound (not_not.mp hlive)).1] at hpending
  exact absurd hpending List.not_mem_nil

/-- An acknowledgement of a subscription. -/
def acknowledgement (id : Int) : Json :=
  .object [("jsonrpc", .text "2.0"), ("id", .int id), ("result", .int 7)]

/-- An error that is no answer to a request. -/
def errorMessage : Json :=
  .object [("jsonrpc", .text "2.0"), ("error", .object [("code", .int (-32005))])]

/-- A connection that subscribes, with a message that comes in meanwhile. -/
def subscribing : List ConnectionStep :=
  [.connect true, .receive (acknowledgement 1) true, .receive errorMessage true,
    .receive (acknowledgement 2) true]

/-- The next connection. -/
def reconnecting : List ConnectionStep :=
  [.closed false, .connect true, .receive (acknowledgement 2) true,
    .receive (acknowledgement 1) true]

theorem closed_until_interrupted_sample :
    let s := exec (Connection.step {}) {} (subscribing ++ reconnecting)
    (⟨0, errorMessage⟩ ∈ s.pending ∨ ⟨0, errorMessage⟩ ∈ s.handled) ∧
      (¬(⟨0, errorMessage⟩ : Incoming).Readable →
        ⟨0, errorMessage⟩ ∈ s.pending ∧ ¬s.gate.Enabled) :=
  closed_until_interrupted {} subscribing reconnecting (List.mem_singleton_self _)
    (by decide +kernel)

end SniperBot.Stream
