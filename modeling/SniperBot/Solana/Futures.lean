import SniperBot.Solana.Batcher

/-!
# The futures of the batcher

Every loop of the batcher over a batch gives its open futures a value and leaves the others as they
are (`Batcher.settleAll`). `Settlement` says which values a turn of a worker can give, and `Advances`
what every step leaves alone: a future that is done, and a batch that was posted.
-/

namespace SniperBot.Solana

open Basis

variable {R : Type}

/-! ## Futures -/

/-- A future that is done stays as it is. -/
def Future.settle (value : Future R) : Future R → Future R
  | .pending => value
  | future => future

theorem Future.settle_of_done (value : Future R) {future : Future R} (h : future ≠ .pending) :
    value.settle future = future := by
  cases future with
  | pending => exact absurd rfl h
  | cancelled => rfl
  | exception => rfl
  | response statusCode row => rfl

/-- A future is open after it was settled only if it was open before. -/
theorem Future.pending_of_settle {value future : Future R} (hvalue : value ≠ .pending)
    (h : value.settle future = .pending) : False := by
  cases future with
  | pending => exact hvalue h
  | _ => cases h

namespace Batcher

variable (b : Batcher R)

/-- The open futures of a batch get their values. -/
def settleAll (batch : List Nat) (value : Nat → Future R) : Batcher R :=
  { b with futures := fun f => if f ∈ batch then (value f).settle (b.futures f) else b.futures f }

theorem settleAll_cons (f : Nat) (batch : List Nat) (value : Nat → Future R) :
    (b.settleAll [f] value).settleAll batch value = b.settleAll (f :: batch) value := by
  simp only [settleAll, Batcher.mk.injEq, true_and, and_true]
  funext g
  by_cases hg : g = f
  · subst hg
    by_cases hmem : g ∈ batch
    · simp only [if_true, List.mem_cons, true_or, hmem]
      cases b.futures g <;> cases value g <;> rfl
    · simp [hmem]
  · simp [hg]

theorem completeOpen_eq (value : Nat → Future R) (f : Nat) :
    b.completeOpen value f = b.settleAll [f] value := by
  unfold completeOpen complete settleAll
  cases hf : b.futures f with
  | pending =>
      simp only [Batcher.mk.injEq, true_and, and_true]
      funext g
      by_cases hg : g = f
      · subst hg
        simp [hf, Future.settle]
      · simp [hg]
  | _ =>
      cases b
      simp only [Batcher.mk.injEq, true_and, and_true]
      funext g
      by_cases hg : g = f
      · subst hg
        simp_all [Future.settle]
      · simp [hg]

/-- The loops over a batch never complete a future twice. -/
theorem completeAll_eq (batch : List Nat) (value : Nat → Future R) :
    b.completeAll batch value = b.settleAll batch value := by
  induction batch generalizing b with
  | nil => simp [completeAll, settleAll]
  | cons f batch ih =>
      have hloop : b.completeAll (f :: batch) value =
          (b.completeOpen value f).completeAll batch value := rfl
      rw [hloop, ih, completeOpen_eq, settleAll_cons]

theorem cancelFuture_eq (f : Nat) : b.cancelFuture f = b.settleAll [f] fun _ => .cancelled := by
  rw [← completeOpen_eq]
  unfold cancelFuture completeOpen complete
  cases b.futures f <;> rfl

theorem cancelAll_eq (batch : List Nat) :
    b.cancelAll batch = b.settleAll batch fun _ => .cancelled := by
  induction batch generalizing b with
  | nil => simp [cancelAll, settleAll]
  | cons f batch ih =>
      have hloop : b.cancelAll (f :: batch) = (b.cancelFuture f).cancelAll batch := rfl
      rw [hloop, ih, cancelFuture_eq, settleAll_cons]

theorem mem_active {batch : List Nat} {f : Nat} :
    f ∈ b.active batch ↔ f ∈ batch ∧ b.futures f = .pending := by
  unfold active
  rw [List.mem_filter]
  cases b.futures f <;> simp

theorem active_sublist (batch : List Nat) : (b.active batch).Sublist batch := List.filter_sublist

end Batcher

/-- What a response gives to a request. -/
def outcome (ids : Nat → Int) (batch : List Nat) (statusCode : Nat) (payload : Payload R)
    (f : Nat) : Future R :=
  if statusCode < 200 ∨ 300 ≤ statusCode then .response statusCode emptyRow
  else
    match payload with
    | .invalid => .exception
    | payload => .response statusCode (rowOf ids batch payload f)

theorem outcome_ne_pending (ids : Nat → Int) (batch : List Nat) (statusCode : Nat)
    (payload : Payload R) (f : Nat) : outcome ids batch statusCode payload f ≠ .pending := by
  unfold outcome
  split
  · simp
  · cases payload <;> simp

theorem Batcher.respond_eq (b : Batcher R) (ids : Nat → Int) (batch : List Nat)
    (statusCode : Nat) (payload : Payload R) :
    b.respond ids batch statusCode payload =
      b.settleAll batch (outcome ids batch statusCode payload) := by
  unfold Batcher.respond outcome
  split
  · exact b.completeAll_eq batch _
  · cases payload <;> exact b.completeAll_eq batch _

/-! ## What a step does to the futures -/

variable {b : Batcher R}

/-- The open futures of a batch have got their values, and the requests are as they were. -/
structure Batcher.SettledBy (b b' : Batcher R) (batch : List Nat) (value : Nat → Future R) :
    Prop where
  futures : b'.futures = (b.settleAll batch value).futures
  requests : b'.requests = b.requests
  invalidState : b'.invalidState = b.invalidState
  posted : b.posted <+: b'.posted

theorem Batcher.SettledBy.none {b' : Batcher R} (hfutures : b'.futures = b.futures)
    (hrequests : b'.requests = b.requests) (hinvalid : b'.invalidState = b.invalidState)
    (hposted : b.posted <+: b'.posted) (value : Nat → Future R) : b.SettledBy b' [] value :=
  ⟨by rw [hfutures, Batcher.settleAll]; simp, hrequests, hinvalid, hposted⟩

theorem Batcher.SettledBy.done {b' : Batcher R} {batch : List Nat} {value : Nat → Future R}
    (h : b.SettledBy b' batch value) {f : Nat} (hf : b.futures f ≠ .pending) :
    b'.futures f = b.futures f := by
  rw [h.futures, Batcher.settleAll]
  simp only
  split
  · exact Future.settle_of_done _ hf
  · rfl

theorem Batcher.SettledBy.mem {b' : Batcher R} {batch : List Nat} {value : Nat → Future R}
    (h : b.SettledBy b' batch value) {f : Nat} (hopen : b.futures f = .pending) (hf : f ∈ batch) :
    b'.futures f = value f := by
  rw [h.futures, Batcher.settleAll]
  simp [hf, hopen, Future.settle]

theorem Batcher.SettledBy.notMem {b' : Batcher R} {batch : List Nat} {value : Nat → Future R}
    (h : b.SettledBy b' batch value) {f : Nat} (hf : f ∉ batch) :
    b'.futures f = b.futures f := by
  rw [h.futures, Batcher.settleAll]
  simp [hf]

/-- The values that a turn of a worker gives to a batch. -/
inductive Settlement (ids : Nat → Int) (b : Batcher R) (w : Nat) :
    Answer R → List Nat → (Nat → Future R) → Prop
  | cancelled (answer : Answer R) (batch : List Nat) :
      Settlement ids b w answer batch fun _ => .cancelled
  | failed : Settlement ids b w .raised (b.workers w).hand fun _ => .exception
  | answered {batch : List Nat} {statusCode : Nat} {payload : Payload R}
      (hphase : b.workers w = .closing batch statusCode payload) (left : Nat)
      (rest : Payload R) :
      Settlement ids b w (.response left rest) batch (outcome ids batch statusCode payload)

theorem Batcher.finish_futures (b : Batcher R) (w : Nat) (cancelled : Bool) :
    (b.finish w cancelled).futures =
      (b.settleAll (if cancelled then b.pending else []) fun _ => .cancelled).futures := by
  cases cancelled <;>
    simp only [finish, cancelAll_eq, settleAll, setWorker, startWorker, if_true, if_false,
      Bool.false_eq_true, reduceCtorEq] <;>
    split_ifs <;> rfl

theorem Batcher.finish_requests (b : Batcher R) (w : Nat) (cancelled : Bool) :
    (b.finish w cancelled).requests = b.requests := by
  cases cancelled <;>
    simp only [finish, cancelAll_eq, settleAll, setWorker, startWorker] <;> split_ifs <;> rfl

theorem Batcher.finish_invalidState (b : Batcher R) (w : Nat) (cancelled : Bool) :
    (b.finish w cancelled).invalidState = b.invalidState := by
  cases cancelled <;>
    simp only [finish, cancelAll_eq, settleAll, setWorker, startWorker] <;> split_ifs <;> rfl

theorem Batcher.finish_posted (b : Batcher R) (w : Nat) (cancelled : Bool) :
    (b.finish w cancelled).posted = b.posted := by
  cases cancelled <;>
    simp only [finish, cancelAll_eq, settleAll, setWorker, startWorker] <;> split_ifs <;> rfl

theorem Batcher.runWorker_settles (b : Batcher R) (size : BatchSize) (ids : Nat → Int) (w : Nat)
    (answer : Answer R) : ∃ batch value, Settlement ids b w answer batch value ∧
      b.SettledBy (b.runWorker size ids w answer) batch value := by
  have hquiet : ∀ b' : Batcher R, b'.futures = b.futures → b'.requests = b.requests →
      b'.invalidState = b.invalidState → b.posted <+: b'.posted →
      ∃ batch value, Settlement ids b w answer batch value ∧ b.SettledBy b' batch value :=
    fun b' hfutures hrequests hinvalid hposted =>
      ⟨[], _, .cancelled answer [], .none hfutures hrequests hinvalid hposted _⟩
  have hfail : ∀ batch, (b.workers w).hand = batch → ∃ batch' value,
      Settlement ids b w .raised batch' value ∧
        b.SettledBy ((b.completeAll batch fun _ => .exception).setWorker w .taking) batch'
          value := by
    rintro batch rfl
    rw [completeAll_eq]
    exact ⟨_, _, .failed, rfl, rfl, rfl, List.prefix_rfl⟩
  unfold Batcher.runWorker
  split <;> rename_i hphase
  · exact hquiet _ rfl rfl rfl List.prefix_rfl
  · exact hquiet _ rfl rfl rfl List.prefix_rfl
  · unfold Batcher.take
    split
    · exact hquiet _ rfl rfl rfl List.prefix_rfl
    · dsimp only
      split <;> exact hquiet _ rfl rfl rfl List.prefix_rfl
  · exact hquiet _ rfl rfl rfl List.prefix_rfl
  · split <;> exact hquiet _ rfl rfl rfl List.prefix_rfl
  · unfold Batcher.post
    split
    · exact hquiet _ rfl rfl rfl List.prefix_rfl
    · exact hquiet _ rfl rfl rfl (List.prefix_append _ _)
  · exact hquiet _ rfl rfl rfl List.prefix_rfl
  · rw [respond_eq]
    exact ⟨_, _, .answered hphase _ _, rfl, rfl, rfl, List.prefix_rfl⟩
  · exact hfail _ (by rw [hphase]; rfl)
  · exact hfail _ (by rw [hphase]; rfl)
  · exact hfail _ (by rw [hphase]; rfl)
  · exact hfail _ (by rw [hphase]; rfl)
  · exact hfail _ (by rw [hphase]; rfl)
  · exact hquiet _ rfl rfl rfl List.prefix_rfl
  · next cancelled =>
    exact ⟨_, _, .cancelled _ _, b.finish_futures w cancelled, b.finish_requests w cancelled,
      b.finish_invalidState w cancelled, b.finish_posted w cancelled ▸ List.prefix_rfl⟩
  · unfold Batcher.settle
    split
    · rw [cancelAll_eq]
      exact ⟨_, _, .cancelled _ b.pending, rfl, rfl, rfl, List.prefix_rfl⟩
    · exact hquiet _ rfl rfl rfl List.prefix_rfl
  · exact hquiet _ rfl rfl rfl List.prefix_rfl
  · exact hquiet _ rfl rfl rfl List.prefix_rfl

/-- A worker that is cancelled cancels the batch that it has in hand. -/
theorem Batcher.cancelWorker_settles (b : Batcher R) (w : Nat) :
    b.SettledBy (b.cancelWorker w) (b.workers w).hand fun _ => .cancelled := by
  have hquiet : ∀ b' : Batcher R, (b.workers w).hand = [] → b'.futures = b.futures →
      b'.requests = b.requests → b'.invalidState = b.invalidState → b.posted <+: b'.posted →
        b.SettledBy b' (b.workers w).hand fun _ => .cancelled :=
    fun b' hhand hfutures hrequests hinvalid hposted =>
      hhand ▸ .none hfutures hrequests hinvalid hposted _
  have habort : ∀ batch, (b.workers w).hand = batch →
      b.SettledBy ((b.cancelAll batch).setWorker w (.finishing true)) (b.workers w).hand
        fun _ => .cancelled := by
    rintro batch rfl
    rw [cancelAll_eq]
    exact ⟨rfl, rfl, rfl, List.prefix_rfl⟩
  unfold Batcher.cancelWorker
  cases hphase : b.workers w <;> rw [hphase] at hquiet habort
  case opening batch => exact habort batch rfl
  case acquiring batch => exact habort batch rfl
  case pacing batch active => exact habort batch rfl
  case posting batch => exact habort batch rfl
  case closing batch statusCode payload => exact habort batch rfl
  all_goals exact hquiet _ rfl rfl rfl rfl List.prefix_rfl

/-- How far a request is. -/
def RequestPhase.stage : RequestPhase → Nat
  | .unborn => 0
  | .entering => 1
  | .awaiting => 2
  | .cancelled => 3
  | .answered => 3

/-- What every step leaves alone: requests do not go back, a future that is done and a batch that
was posted stay. -/
structure Batcher.Advances (b b' : Batcher R) : Prop where
  stage : ∀ f, (b.requests f).stage ≤ (b'.requests f).stage
  done : ∀ f, b.futures f ≠ .pending → b'.futures f = b.futures f
  posted : b.posted <+: b'.posted

theorem Batcher.Advances.refl (b : Batcher R) : b.Advances b :=
  ⟨fun _ => Nat.le_refl _, fun _ _ => rfl, List.prefix_rfl⟩

theorem Batcher.Advances.trans {b₁ b₂ b₃ : Batcher R} (h : b₁.Advances b₂)
    (h' : b₂.Advances b₃) : b₁.Advances b₃ where
  stage := fun f => Nat.le_trans (h.stage f) (h'.stage f)
  done := fun f hf => by
    have hkept := h.done f hf
    exact (h'.done f (hkept.symm ▸ hf)).trans hkept
  posted := h.posted.trans h'.posted

theorem Batcher.SettledBy.advances {b' : Batcher R} {batch : List Nat} {value : Nat → Future R}
    (h : b.SettledBy b' batch value) : b.Advances b' :=
  ⟨fun f => by rw [h.requests], fun _ hf => h.done hf, h.posted⟩

theorem Batcher.setRequest_requests (b : Batcher R) (f : Nat) (phase : RequestPhase) :
    (b.setRequest f phase).requests = Function.update b.requests f phase := rfl

/-- A request goes on. -/
theorem Batcher.Advances.setRequest {f : Nat} {phase : RequestPhase}
    (h : (b.requests f).stage ≤ phase.stage) : b.Advances (b.setRequest f phase) := by
  refine ⟨fun g => ?_, fun _ _ => rfl, List.prefix_rfl⟩
  by_cases heq : g = f
  · subst heq
    rwa [setRequest_requests, Function.update_self]
  · rw [setRequest_requests, Function.update_of_ne heq]

theorem Batcher.enqueue_fields (b : Batcher R) (f : Nat) : (b.enqueue f).requests =
    (b.setRequest f .awaiting).requests ∧ (b.enqueue f).futures = b.futures ∧
      (b.enqueue f).posted = b.posted ∧ (b.enqueue f).invalidState = b.invalidState := by
  unfold Batcher.enqueue
  dsimp only
  split <;> exact ⟨rfl, rfl, rfl, rfl⟩

theorem Batcher.step_advances (size : BatchSize) (ids : Nat → Int) (b : Batcher R)
    (step : Step R) : b.Advances (b.step size ids step) := by
  cases step with
  | call f =>
      simp only [Batcher.step]
      split
      · next hf => exact .setRequest (by rw [hf]; decide)
      · exact .refl b
  | runRequest f =>
      simp only [Batcher.step, Batcher.runRequest]
      split
      · next hf =>
          obtain ⟨hrequests, hfutures, hposted, -⟩ := b.enqueue_fields f
          have hstage : b.Advances (b.setRequest f .awaiting) := .setRequest (by rw [hf]; decide)
          exact ⟨hrequests ▸ hstage.stage, fun g _ => by rw [hfutures],
            hposted ▸ List.prefix_rfl⟩
      · next hf =>
          split
          · exact .refl b
          · exact .setRequest (by rw [hf]; decide)
          · exact .setRequest (by rw [hf]; decide)
      · exact .refl b
  | runWorker w answer =>
      obtain ⟨batch, value, -, hsettled⟩ := b.runWorker_settles size ids w answer
      exact hsettled.advances
  | cancelRequest f =>
      simp only [Batcher.step, Batcher.cancelRequest]
      split
      · next hf => exact .setRequest (by rw [hf]; decide)
      · next hf =>
          have hcancel : b.SettledBy (b.cancelFuture f) [f] fun _ => .cancelled := by
            rw [cancelFuture_eq]
            exact ⟨rfl, rfl, rfl, List.prefix_rfl⟩
          refine hcancel.advances.trans (.setRequest ?_)
          rw [hcancel.requests, hf]
          decide
      · exact .refl b
  | cancelWorker w => exact (b.cancelWorker_settles w).advances

end SniperBot.Solana
