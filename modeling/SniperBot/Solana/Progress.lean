import SniperBot.Solana.Settled

/-!
# Requests of the batcher end

A fair run gives a turn to every request that can go on and to every worker that is alive; the
turn of a worker also stands for the answer that it waits for. `Batcher.distance` counts the turns
of workers until an open request is settled, whatever else happens meanwhile, and
`FairLoop.called_ends` puts the stages together: a request that was made is enqueued, its future is
done, and it ends.
-/

namespace SniperBot.Solana

open Basis

variable {R : Type}

/-! ## The distance of a request -/

/-- The turns that a worker needs at most until it takes candidates again or is over. -/
def WorkerPhase.rank : WorkerPhase R → Nat
  | .unborn => 0
  | .created => 9
  | .sleeping => 8
  | .taking => 2
  | .opening _ => 7
  | .acquiring _ => 6
  | .pacing _ _ => 5
  | .posting _ => 4
  | .closing _ _ _ => 3
  | .leaving => 3
  | .finishing true => 1
  | .finishing false => 10
  | .stopped => 0
  | .returned => 0

namespace Batcher

variable (b : Batcher R)

/-- What the place of a request in the pending list counts for: more than any rank. -/
def queued (f : Nat) : Nat := if f ∈ b.pending then 11 * (b.pending.idxOf f + 1) else 0

/-- The worker that is to settle what is open. -/
def server : Nat := b.flushTask.getD 0

def distance (f : Nat) : Nat := b.queued f + (b.workers b.server).rank

variable {b}

theorem server_of_some {w : Nat} (h : b.flushTask = some w) : b.server = w := by
  rw [server, h, Option.getD_some]

theorem distance_of_some {w : Nat} (h : b.flushTask = some w) (f : Nat) :
    b.distance f = b.queued f + (b.workers w).rank := by
  rw [distance, server_of_some h]

/-- A worker is one turn nearer, and the pending list is as it was. -/
theorem distance_lt {b' : Batcher R} {w : Nat} (h : b.flushTask = some w)
    (hflush : b'.flushTask = b.flushTask) (hpending : b'.pending = b.pending)
    (hrank : (b'.workers w).rank < (b.workers w).rank) (f : Nat) :
    b'.distance f < b.distance f := by
  rw [distance_of_some h, distance_of_some (hflush.trans h), queued, queued, hpending]
  omega

/-- Another request is enqueued behind. -/
theorem queued_append {b' : Batcher R} {f g : Nat} (hpending : b'.pending = b.pending ++ [g])
    (hne : f ≠ g) : b'.queued f = b.queued f := by
  have hmem : f ∈ b'.pending ↔ f ∈ b.pending := by simp [hpending, hne]
  by_cases hf : f ∈ b.pending
  · rw [queued, queued, if_pos hf, if_pos (hmem.mpr hf), hpending, List.idxOf_append_of_mem hf]
  · rw [queued, queued, if_neg hf, if_neg (mt hmem.mp hf)]

/-- A batch is taken from the front of the pending list. -/
theorem queued_drop {b' : Batcher R} {size f : Nat} (hsize : 0 < size)
    (hpending : b'.pending = b.pending.drop size) (hdistinct : b.pending.Nodup)
    (hf : f ∈ b.pending) : b'.queued f + 11 ≤ b.queued f := by
  rw [queued, queued, if_pos hf]
  split
  · next hdrop =>
      rw [hpending] at hdrop ⊢
      have hsplit := List.take_append_drop size b.pending
      have hnot : f ∉ b.pending.take size := fun htake =>
        List.disjoint_of_nodup_append (hsplit.symm ▸ hdistinct) htake hdrop
      have hidx : b.pending.idxOf f =
          (b.pending.take size).length + (b.pending.drop size).idxOf f := by
        conv_lhs => rw [← hsplit]
        exact List.idxOf_append_of_notMem hnot
      have hlength : 0 < (b.pending.take size).length := by
        rw [List.length_take]
        exact Nat.lt_min.mpr ⟨hsize, List.length_pos_of_mem hf⟩
      omega
  · omega

end Batcher

/-! ## One step -/

/-- A request is open, and a worker has it. -/
structure Waiting (b : Batcher R) (f w : Nat) : Prop where
  linked : Linked b
  request : b.requests f = .awaiting
  isOpen : b.futures f = .pending
  server : b.flushTask = some w
  place : f ∈ b.pending ∨ f ∈ (b.workers w).hand

variable {b : Batcher R} {f w : Nat}

theorem Linked.waiting (h : Linked b) (hf : b.requests f = .awaiting)
    (hopen : b.futures f = .pending) : ∃ w, Waiting b f w := by
  obtain ⟨w, hw, hplace⟩ := h.worker hf hopen
  exact ⟨w, h, hf, hopen, hw, hplace⟩

theorem Waiting.pending (h : Waiting b f w) (hempty : (b.workers w).hand = []) :
    f ∈ b.pending :=
  h.place.resolve_right (by rw [hempty]; exact List.not_mem_nil)

/-- The worker takes candidates. -/
theorem Waiting.take (h : Waiting b f w) (size : BatchSize) (hphase : b.workers w = .taking) :
    (b.take size w).distance f < b.distance f := by
  have hf : f ∈ b.pending := h.pending (by rw [hphase]; rfl)
  have hcloser : ∀ (b' : Batcher R) (phase : WorkerPhase R), b'.flushTask = b.flushTask →
      b'.pending = b.pending.drop size.size → b'.workers w = phase → phase.rank < 11 →
      b'.distance f < b.distance f := by
    rintro b' phase hflush hpending hworker hrank
    have hqueued := Batcher.queued_drop size.positive hpending h.linked.distinct hf
    rw [Batcher.distance_of_some h.server, Batcher.distance_of_some (hflush.trans h.server),
      hworker]
    omega
  unfold Batcher.take
  split
  · next hnil =>
      rw [hnil] at hf
      cases hf
  · dsimp only
    split
    · exact hcloser _ .taking rfl rfl (Function.update_self _ _ _)
        (by simp [WorkerPhase.rank])
    · exact hcloser _ (.opening _) rfl rfl (Function.update_self _ _ _)
        (by simp [WorkerPhase.rank])

/-- The worker settles its batch, and takes candidates again. -/
theorem Waiting.settle (h : Waiting b f w) {b' : Batcher R} (value : Nat → Future R)
    (hvalue : ∀ g, value g ≠ .pending)
    (hb' : b' = (b.settleAll (b.workers w).hand value).setWorker w .taking)
    (hrank : 2 < (b.workers w).rank) :
    b'.futures f ≠ .pending ∨ b'.distance f < b.distance f := by
  subst hb'
  by_cases hhand : f ∈ (b.workers w).hand
  · refine Or.inl ?_
    simp only [Batcher.setWorker, Batcher.settleAll, if_pos hhand, h.isOpen, Future.settle]
    exact hvalue f
  · refine Or.inr (Batcher.distance_lt h.server (by rfl) (by rfl) ?_ f)
    simpa [Batcher.setWorker, WorkerPhase.rank] using hrank

/-- The worker that has a request brings it nearer. -/
theorem Waiting.turn (h : Waiting b f w) (size : BatchSize) (ids : Nat → Int)
    (answer : Answer R) : (b.runWorker size ids w answer).futures f ≠ .pending ∨
      (b.runWorker size ids w answer).distance f < b.distance f := by
  have halive := h.linked.alive w h.server
  have hon : ∀ phase : WorkerPhase R, phase.rank < (b.workers w).rank →
      (b.setWorker w phase).distance f < b.distance f := fun phase hrank =>
    Batcher.distance_lt h.server (by rfl) (by rfl) (by simpa [Batcher.setWorker] using hrank) f
  have hfail : ∀ batch, (b.workers w).hand = batch → 2 < (b.workers w).rank →
      ((b.completeAll batch fun _ => .exception).setWorker w .taking).futures f ≠ .pending ∨
        ((b.completeAll batch fun _ => .exception).setWorker w .taking).distance f <
          b.distance f := by
    rintro batch rfl hrank
    exact h.settle (fun _ => .exception) (fun _ => by simp) (by rw [Batcher.completeAll_eq]) hrank
  have hdone : ∀ b' : Batcher R, f ∈ b.pending →
      b'.futures = (b.settleAll b.pending fun _ => .cancelled).futures → b'.futures f ≠ .pending :=
    fun b' hf hfutures => by simp [hfutures, Batcher.settleAll, hf, h.isOpen, Future.settle]
  unfold Batcher.runWorker
  split <;> rename_i hphase <;> rw [hphase] at halive hon hfail
  · exact Or.inr (hon _ (by simp [WorkerPhase.rank]))
  · exact Or.inr (hon _ (by simp [WorkerPhase.rank]))
  · exact Or.inr (h.take size hphase)
  · exact Or.inr (hon _ (by simp [WorkerPhase.rank]))
  · split <;> exact Or.inr (hon _ (by simp [WorkerPhase.rank]))
  · unfold Batcher.post
    split
    · exact Or.inr (hon _ (by simp [WorkerPhase.rank]))
    · exact Or.inr (Batcher.distance_lt h.server (by rfl) (by rfl)
        (by simp [Batcher.setWorker, hphase, WorkerPhase.rank]) f)
  · exact Or.inr (hon _ (by simp [WorkerPhase.rank]))
  · next batch statusCode payload _ _ =>
      exact h.settle _ (outcome_ne_pending ids batch statusCode payload)
        (by rw [Batcher.respond_eq, hphase]; rfl) (by simp [hphase, WorkerPhase.rank])
  · exact hfail _ rfl (by simp [WorkerPhase.rank])
  · exact hfail _ rfl (by simp [WorkerPhase.rank])
  · exact hfail _ rfl (by simp [WorkerPhase.rank])
  · exact hfail _ rfl (by simp [WorkerPhase.rank])
  · exact hfail _ rfl (by simp [WorkerPhase.rank])
  · exact Or.inr (hon _ (by simp [WorkerPhase.rank]))
  · next cancelled =>
      have hf : f ∈ b.pending := h.pending (by rw [hphase]; rfl)
      cases cancelled with
      | true => exact Or.inl (hdone _ hf (b.finish_futures w true))
      | false =>
          -- what came in meanwhile gets a new worker
          refine Or.inr ?_
          have hnew : b.nextWorker ≠ w := by
            rintro rfl
            rw [h.linked.fresh _ (Nat.le_refl _)] at hphase
            cases hphase
          have hnext : (b.finish w false).flushTask = some b.nextWorker := by
            simp [Batcher.finish, Batcher.startWorker, Batcher.setWorker, Batcher.cancelAll_eq,
              Batcher.settleAll, h.server, List.ne_nil_of_mem hf]
          rw [Batcher.distance_of_some h.server, Batcher.distance_of_some hnext, hphase]
          simp [Batcher.finish, Batcher.startWorker, Batcher.setWorker, Batcher.cancelAll_eq,
            Batcher.settleAll, Batcher.queued, h.server, List.ne_nil_of_mem hf, hf,
            Function.update_of_ne hnew, WorkerPhase.rank]
  · refine Or.inl (hdone _ (h.pending (by rw [hphase]; rfl)) ?_)
    simp [Batcher.settle, h.server, Batcher.cancelAll_eq, Batcher.setWorker, Batcher.settleAll]
  · exact halive.elim
  · exact halive.elim

/-- The request is as near as before, and the same worker has it. -/
def Batcher.Level (b b' : Batcher R) (f : Nat) : Prop :=
  b'.distance f = b.distance f ∧ b'.server = b.server

theorem Batcher.Level.of_queued {b' : Batcher R} (hw : b.flushTask = some w)
    (hflush : b'.flushTask = b.flushTask) (hqueued : b'.queued f = b.queued f)
    (hworker : b'.workers w = b.workers w) : b.Level b' f := by
  rw [Level, distance_of_some hw, distance_of_some (hflush.trans hw), hqueued, hworker,
    server_of_some hw, server_of_some (hflush.trans hw)]
  exact ⟨rfl, rfl⟩

/-- Another worker does nothing that matters to the request. -/
theorem Waiting.other (h : Waiting b f w) (size : BatchSize) (ids : Nat → Int) {v : Nat}
    (hv : v ≠ w) (answer : Answer R) : b.Level (b.runWorker size ids v answer) f ∧
      b.cancelWorker v = b := by
  have hidle : ¬ (b.workers v).working := fun hworking => by
    have hlone := h.linked.lone v hworking
    rw [h.server] at hlone
    cases hlone
    exact hv rfl
  have hsame : b.Level b f := .of_queued h.server rfl rfl rfl
  unfold Batcher.runWorker Batcher.cancelWorker
  cases hphase : b.workers v with
  | unborn => exact ⟨hsame, rfl⟩
  | returned => exact ⟨hsame, rfl⟩
  | stopped =>
      have hflush : b.flushTask ≠ some v := fun hflush => hv (by
        rw [h.server] at hflush
        cases hflush
        rfl)
      refine ⟨?_, rfl⟩
      simp only [Batcher.settle, if_neg hflush]
      exact .of_queued h.server rfl rfl (Function.update_of_ne hv.symm _ _)
  | _ =>
      rw [hphase] at hidle
      exact absurd trivial hidle

/-- The worker that has the request is cancelled. -/
theorem Waiting.cancelled (h : Waiting b f w) : (b.cancelWorker w).futures f ≠ .pending ∨
    (b.cancelWorker w).distance f < b.distance f ∨ b.Level (b.cancelWorker w) f := by
  have hsame : b.Level b f := .of_queued h.server rfl rfl rfl
  by_cases hhand : f ∈ (b.workers w).hand
  · have hsettled := (b.cancelWorker_settles w).mem h.isOpen hhand
    exact Or.inl (by rw [hsettled]; simp)
  have hon : ∀ phase : WorkerPhase R, phase.rank < (b.workers w).rank →
      (b.setWorker w phase).distance f < b.distance f := fun phase hrank =>
    Batcher.distance_lt h.server (by rfl) (by rfl) (by simpa [Batcher.setWorker] using hrank) f
  have habort : ∀ batch, 1 < (b.workers w).rank →
      ((b.cancelAll batch).setWorker w (.finishing true)).distance f < b.distance f :=
    fun batch hrank => by
      rw [Batcher.cancelAll_eq]
      exact Batcher.distance_lt h.server (by rfl) (by rfl)
        (by simpa [Batcher.setWorker, WorkerPhase.rank] using hrank) f
  refine Or.inr ?_
  unfold Batcher.cancelWorker
  cases hphase : b.workers w <;> rw [hphase] at hon habort
  case created => exact Or.inl (hon _ (by simp [WorkerPhase.rank]))
  case sleeping => exact Or.inl (hon _ (by simp [WorkerPhase.rank]))
  case taking => exact Or.inl (hon _ (by simp [WorkerPhase.rank]))
  case opening batch => exact Or.inl (habort batch (by simp [WorkerPhase.rank]))
  case acquiring batch => exact Or.inl (habort batch (by simp [WorkerPhase.rank]))
  case pacing batch active => exact Or.inl (habort batch (by simp [WorkerPhase.rank]))
  case posting batch => exact Or.inl (habort batch (by simp [WorkerPhase.rank]))
  case closing batch _ _ => exact Or.inl (habort batch (by simp [WorkerPhase.rank]))
  case leaving => exact Or.inl (hon _ (by simp [WorkerPhase.rank]))
  case finishing cancelled =>
    exact Or.inl (hon _ (by cases cancelled <;> simp [WorkerPhase.rank]))
  case unborn => exact Or.inr hsame
  case stopped => exact Or.inr hsame
  case returned => exact Or.inr hsame

/-- No step moves an open request away. -/
theorem Waiting.step (h : Waiting b f w) (size : BatchSize) (ids : Nat → Int) (step : Step R) :
    (b.step size ids step).futures f ≠ .pending ∨
      (b.step size ids step).distance f < b.distance f ∨ b.Level (b.step size ids step) f := by
  have hsame : b.Level b f := .of_queued h.server rfl rfl rfl
  cases step with
  | call g =>
      simp only [Batcher.step]
      split
      · exact Or.inr (Or.inr (.of_queued h.server rfl rfl rfl))
      · exact Or.inr (Or.inr hsame)
  | runRequest g =>
      refine Or.inr (Or.inr ?_)
      simp only [Batcher.step, Batcher.runRequest]
      split
      · next hg =>
          have hne : f ≠ g := by
            rintro rfl
            rw [h.request] at hg
            cases hg
          rw [Batcher.enqueue_of_some h.server]
          exact .of_queued h.server rfl (Batcher.queued_append rfl hne) rfl
      · split
        · exact hsame
        · exact .of_queued h.server rfl rfl rfl
        · exact .of_queued h.server rfl rfl rfl
      · exact hsame
  | runWorker v answer =>
      by_cases hv : v = w
      · subst hv
        exact (h.turn size ids answer).imp_right Or.inl
      · exact Or.inr (Or.inr (h.other size ids hv answer).1)
  | cancelRequest g =>
      refine Or.inr (Or.inr ?_)
      simp only [Batcher.step, Batcher.cancelRequest]
      split
      · exact .of_queued h.server rfl rfl rfl
      · rw [Batcher.cancelFuture_eq]
        exact .of_queued h.server rfl rfl rfl
      · exact hsame
  | cancelWorker v =>
      by_cases hv : v = w
      · subst hv
        exact h.cancelled
      · simp only [Batcher.step, (h.other size ids hv .raised).2]
        exact Or.inr (Or.inr hsame)

/-! ## Fair runs -/

/-- What gets turns. -/
inductive Task
  | request (f : Nat)
  | worker (w : Nat)

/-- A request can go on when it waits for the lock or its future is done. -/
def Task.enabled (b : Batcher R) : Task → Prop
  | .request f => b.requests f = .entering ∨ b.requests f = .awaiting ∧ b.futures f ≠ .pending
  | .worker w => (b.workers w).alive

/-- A step is a turn of a task. -/
def Task.turn : Task → Step R → Prop
  | .request f, .runRequest g => f = g
  | .worker w, .runWorker v _ => w = v
  | _, _ => False

/-- The event loop runs: every task that can go on is given a turn. -/
def FairLoop (size : BatchSize) (ids : Nat → Int) (labels : Nat → Step R) : Prop :=
  Fair Task.enabled Task.turn (Batcher.step size ids) {} labels

/-- The request is over. -/
def RequestPhase.ended (phase : RequestPhase) : Prop := phase = .cancelled ∨ phase = .answered

theorem RequestPhase.ended_iff (phase : RequestPhase) : phase.ended ↔ 3 ≤ phase.stage := by
  cases phase <;> simp [RequestPhase.ended, RequestPhase.stage]

theorem RequestPhase.entering_iff (phase : RequestPhase) :
    phase = .entering ↔ 1 ≤ phase.stage ∧ ¬ 2 ≤ phase.stage := by
  cases phase <;> simp [RequestPhase.stage]

theorem RequestPhase.awaiting_iff (phase : RequestPhase) :
    phase = .awaiting ↔ 2 ≤ phase.stage ∧ ¬ 3 ≤ phase.stage := by
  cases phase <;> simp [RequestPhase.stage]

section Runs

variable {size : BatchSize} {ids : Nat → Int} {labels : Nat → Step R}

theorem stateAt_linked (size : BatchSize) (ids : Nat → Int) (labels : Nat → Step R) (n : Nat) :
    Linked (stateAt (Batcher.step size ids) {} labels n) :=
  stateAt_invariant (fun _ step h (_ : (fun _ _ => True) _ step) => h.step size ids step) .init
    (fun _ => trivial) n

theorem stateAt_advances (size : BatchSize) (ids : Nat → Int) (labels : Nat → Step R) {n m : Nat}
    (h : n ≤ m) : (stateAt (Batcher.step size ids) {} labels n).Advances
      (stateAt (Batcher.step size ids) {} labels m) :=
  stateAt_relates Batcher.Advances.refl (fun _ _ _ => Batcher.Advances.trans)
    (Batcher.step_advances size ids) h

/-- A request that was made is enqueued or over. -/
theorem FairLoop.enqueued (hfair : FairLoop size ids labels) {n f : Nat}
    (hf : 1 ≤ ((stateAt (Batcher.step size ids) {} labels n).requests f).stage) :
    ∃ m, n ≤ m ∧ 2 ≤ ((stateAt (Batcher.step size ids) {} labels m).requests f).stage := by
  refine hfair.reaches (fun b => 1 ≤ (b.requests f).stage) (fun b => 2 ≤ (b.requests f).stage)
    (fun _ => 0) (fun _ => .request f)
    (fun b step h => Nat.le_trans h ((b.step_advances size ids step).stage f)) ?_ ?_
    (fun _ _ _ _ => Or.inr (Or.inr ⟨rfl, rfl⟩)) hf
  · exact fun b h hnot => Or.inl ((RequestPhase.entering_iff _).mpr ⟨h, hnot⟩)
  · intro b step h hnot hturn
    have hentering := (RequestPhase.entering_iff _).mpr ⟨h, hnot⟩
    cases step with
    | runRequest g =>
        cases hturn
        left
        simp only [Batcher.step, Batcher.runRequest, hentering, (b.enqueue_fields f).1,
          Batcher.setRequest_requests, Function.update_self]
        decide
    | _ => exact hturn.elim

/-- The future of a request that is enqueued is done, or the request is over. -/
theorem FairLoop.settled (hfair : FairLoop size ids labels) {n f : Nat}
    (hf : 2 ≤ ((stateAt (Batcher.step size ids) {} labels n).requests f).stage) :
    ∃ m, n ≤ m ∧ ((stateAt (Batcher.step size ids) {} labels m).futures f ≠ .pending ∨
      3 ≤ ((stateAt (Batcher.step size ids) {} labels m).requests f).stage) := by
  have hwaiting : ∀ b : Batcher R, Linked b ∧ 2 ≤ (b.requests f).stage →
      ¬ (b.futures f ≠ .pending ∨ 3 ≤ (b.requests f).stage) → ∃ w, Waiting b f w := by
    rintro b ⟨hlinked, hstage⟩ hnot
    exact hlinked.waiting ((RequestPhase.awaiting_iff _).mpr ⟨hstage, fun h => hnot (Or.inr h)⟩)
      (not_not.mp fun h => hnot (Or.inl h))
  refine hfair.reaches (fun b => Linked b ∧ 2 ≤ (b.requests f).stage)
    (fun b => b.futures f ≠ .pending ∨ 3 ≤ (b.requests f).stage) (fun b => b.distance f)
    (fun b => .worker b.server)
    (fun b step h => ⟨h.1.step size ids step,
      Nat.le_trans h.2 ((b.step_advances size ids step).stage f)⟩) ?_ ?_ ?_
    ⟨stateAt_linked size ids labels n, hf⟩
  · intro b h hnot
    obtain ⟨w, hw⟩ := hwaiting b h hnot
    have halive := hw.linked.alive w hw.server
    rwa [← Batcher.server_of_some hw.server] at halive
  · intro b step h hnot hturn
    obtain ⟨w, hw⟩ := hwaiting b h hnot
    cases step with
    | runWorker v answer =>
        have hv : v = w := (Eq.symm hturn).trans (Batcher.server_of_some hw.server)
        subst hv
        exact (hw.turn size ids answer).imp_left Or.inl
    | _ => exact hturn.elim
  · intro b step h hnot
    obtain ⟨w, hw⟩ := hwaiting b h hnot
    rcases hw.step size ids step with hdone | hless | ⟨hsame, hserver⟩
    · exact Or.inl (Or.inl hdone)
    · exact Or.inr (Or.inl hless)
    · exact Or.inr (Or.inr ⟨hsame, by rw [hserver]⟩)

/-- A request whose future is done ends. -/
theorem FairLoop.ended (hfair : FairLoop size ids labels) {n f : Nat}
    (hf : 2 ≤ ((stateAt (Batcher.step size ids) {} labels n).requests f).stage)
    (hdone : (stateAt (Batcher.step size ids) {} labels n).futures f ≠ .pending) :
    ∃ m, n ≤ m ∧ 3 ≤ ((stateAt (Batcher.step size ids) {} labels m).requests f).stage := by
  refine hfair.reaches (fun b => 2 ≤ (b.requests f).stage ∧ b.futures f ≠ .pending)
    (fun b => 3 ≤ (b.requests f).stage) (fun _ => 0) (fun _ => .request f) ?_ ?_ ?_
    (fun _ _ _ _ => Or.inr (Or.inr ⟨rfl, rfl⟩)) ⟨hf, hdone⟩
  · rintro b step ⟨hstage, hdone⟩
    have hadvances := b.step_advances size ids step
    exact ⟨Nat.le_trans hstage (hadvances.stage f), by rwa [hadvances.done f hdone]⟩
  · rintro b ⟨hstage, hdone⟩ hnot
    exact Or.inr ⟨(RequestPhase.awaiting_iff _).mpr ⟨hstage, hnot⟩, hdone⟩
  · rintro b step ⟨hstage, hdone⟩ hnot hturn
    have hawaiting := (RequestPhase.awaiting_iff _).mpr ⟨hstage, hnot⟩
    cases step with
    | runRequest g =>
        cases hturn
        left
        simp only [Batcher.step, Batcher.runRequest, hawaiting]
        split
        · next hopen => exact absurd hopen hdone
        · rw [Batcher.setRequest_requests, Function.update_self]
          decide
        · rw [Batcher.setRequest_requests, Function.update_self]
          decide
    | _ => exact hturn.elim

/-- No request is left pending. -/
theorem FairLoop.called_ends (hfair : FairLoop size ids labels) {n f : Nat}
    (hf : (stateAt (Batcher.step size ids) {} labels n).requests f ≠ .unborn) :
    ∃ m, n ≤ m ∧ ((stateAt (Batcher.step size ids) {} labels m).requests f).ended := by
  have hstage : 1 ≤ ((stateAt (Batcher.step size ids) {} labels n).requests f).stage := by
    revert hf
    cases (stateAt (Batcher.step size ids) {} labels n).requests f <;> simp [RequestPhase.stage]
  obtain ⟨k, hnk, hk⟩ := hfair.enqueued hstage
  obtain ⟨l, hkl, hdone | hended⟩ := hfair.settled hk
  · have hl := Nat.le_trans hk ((stateAt_advances size ids labels hkl).stage f)
    obtain ⟨m, hlm, hm⟩ := hfair.ended hl hdone
    exact ⟨m, hnk.trans (hkl.trans hlm), (RequestPhase.ended_iff _).mpr hm⟩
  · exact ⟨l, hnk.trans hkl, (RequestPhase.ended_iff _).mpr hended⟩

end Runs

end SniperBot.Solana
