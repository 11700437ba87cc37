import SniperBot.Solana.Futures
import Mathlib.Data.List.Nodup

/-!
# Where open requests are

`Linked` says where an open request can be: in the pending list or in the hands of the worker that
`_transaction_batch_flush_task` names, and there is such a worker as long as anything is pending.
It holds in every interleaving (`Linked.step`).
-/

namespace SniperBot.Solana

open Basis

variable {R : Type}

/-! ## The invariant -/

/-- A worker that has not come to an end, or whose cleanup is due. -/
def WorkerPhase.alive : WorkerPhase R → Prop
  | .unborn => False
  | .returned => False
  | _ => True

/-- A worker whose code has not come to an end. -/
def WorkerPhase.working : WorkerPhase R → Prop
  | .unborn => False
  | .returned => False
  | .stopped => False
  | _ => True

theorem WorkerPhase.working_of_hand {phase : WorkerPhase R} {f : Nat} (h : f ∈ phase.hand) :
    phase.working := by
  cases phase with
  | unborn => cases h
  | returned => cases h
  | stopped => cases h
  | _ => trivial

/-- The requests that are waited for under capacity are those of the batch that were open. -/
def WorkerPhase.Pacing (futures : Nat → Future R) : WorkerPhase R → Prop
  | .pacing batch active => active.Sublist batch ∧
      ∀ f ∈ batch, futures f = .pending → f ∈ active
  | _ => True

structure Linked (b : Batcher R) : Prop where
  alive : ∀ w, b.flushTask = some w → (b.workers w).alive
  lone : ∀ w, (b.workers w).working → b.flushTask = some w
  served : b.pending ≠ [] → ∃ w, b.flushTask = some w
  held : ∀ f, b.requests f = .awaiting → b.futures f = .pending →
    f ∈ b.pending ∨ ∃ w, f ∈ (b.workers w).hand
  fresh : ∀ w, b.nextWorker ≤ w → b.workers w = .unborn
  outside : ∀ f, b.requests f = .unborn ∨ b.requests f = .entering →
    b.futures f = .pending ∧ f ∉ b.pending ∧ ∀ w, f ∉ (b.workers w).hand
  distinct : b.pending.Nodup
  pacing : ∀ w, (b.workers w).Pacing b.futures

theorem Linked.init : Linked ({} : Batcher R) where
  alive := fun w h => by cases h
  lone := fun w h => h.elim
  served := fun h => absurd rfl h
  held := fun f h => by cases h
  fresh := fun w _ => rfl
  outside := fun f _ => ⟨rfl, fun h => (by cases h), fun w h => (by cases h)⟩
  distinct := List.nodup_nil
  pacing := fun w => trivial

variable {b : Batcher R}

/-- An open request has a worker. -/
theorem Linked.worker (h : Linked b) {f : Nat} (hf : b.requests f = .awaiting)
    (hopen : b.futures f = .pending) :
    ∃ w, b.flushTask = some w ∧ (f ∈ b.pending ∨ f ∈ (b.workers w).hand) := by
  rcases h.held f hf hopen with hpending | ⟨w, hhand⟩
  · obtain ⟨w, hw⟩ := h.served (List.ne_nil_of_mem hpending)
    exact ⟨w, hw, Or.inl hpending⟩
  · exact ⟨w, h.lone w (WorkerPhase.working_of_hand hhand), Or.inr hhand⟩

/-- What `Pacing` says survives as long as no future is opened. -/
theorem WorkerPhase.Pacing.mono {phase : WorkerPhase R} {futures futures' : Nat → Future R}
    (h : phase.Pacing futures) (hopen : ∀ f, futures' f = .pending → futures f = .pending) :
    phase.Pacing futures' := by
  cases phase with
  | pacing batch active => exact ⟨h.1, fun f hf hpending => h.2 f hf (hopen f hpending)⟩
  | _ => trivial

/-- A step that leaves workers, pending list and worker task as they are. -/
theorem Linked.quiet (h : Linked b) {b' : Batcher R} (hpending : b'.pending = b.pending)
    (hflush : b'.flushTask = b.flushTask) (hworkers : b'.workers = b.workers)
    (hnext : b'.nextWorker = b.nextWorker)
    (hfutures : ∀ f, b'.futures f = .pending → b.futures f = .pending)
    (hheld : ∀ f, b'.requests f = .awaiting → b'.futures f = .pending →
      b.requests f = .awaiting)
    (houtside : ∀ f, b'.requests f = .unborn ∨ b'.requests f = .entering →
      (b.requests f = .unborn ∨ b.requests f = .entering) ∧ b'.futures f = b.futures f) :
    Linked b' where
  alive := by rw [hflush, hworkers]; exact h.alive
  lone := by rw [hflush, hworkers]; exact h.lone
  served := by rw [hflush, hpending]; exact h.served
  held := by
    rw [hpending, hworkers]
    exact fun f hf hopen => h.held f (hheld f hf hopen) (hfutures f hopen)
  fresh := by rw [hnext, hworkers]; exact h.fresh
  outside := by
    rw [hpending, hworkers]
    intro f hf
    obtain ⟨hold, hsame⟩ := houtside f hf
    rw [hsame]
    exact h.outside f hold
  distinct := by rw [hpending]; exact h.distinct
  pacing := by
    rw [hworkers]
    exact fun w => (h.pacing w).mono hfutures

/-- The worker moves on, with the open requests that it had and those that it takes from the pending
list still in its hands. -/
theorem Linked.move (h : Linked b) {w : Nat} {phase : WorkerPhase R} {b' : Batcher R}
    (hw : b.flushTask = some w) (hworkers : b'.workers = Function.update b.workers w phase)
    (hrequests : b'.requests = b.requests) (hflush : b'.flushTask = b.flushTask)
    (hnext : b'.nextWorker = b.nextWorker) (halive : phase.alive)
    (hpending : b'.pending.Sublist b.pending)
    (hfutures : ∀ f, b'.futures f = .pending → b.futures f = .pending)
    (hsame : ∀ f, f ∉ (b.workers w).hand → b'.futures f = b.futures f)
    (hhand : ∀ f ∈ phase.hand, f ∈ b.pending ∨ f ∈ (b.workers w).hand)
    (hheld : ∀ f, b'.futures f = .pending → f ∈ b.pending ∨ f ∈ (b.workers w).hand →
      f ∈ b'.pending ∨ f ∈ phase.hand)
    (hpacing : phase.Pacing b'.futures) : Linked b' := by
  have hother : ∀ v, v ≠ w → b'.workers v = b.workers v := fun v hv => by
    rw [hworkers, Function.update_of_ne hv]
  have hself : b'.workers w = phase := by rw [hworkers, Function.update_self]
  refine ⟨fun v hv => ?_, fun v hv => ?_, fun hne => ?_, fun f hf hopen => ?_, fun v hv => ?_,
    fun f hf => ?_, h.distinct.sublist hpending, fun v => ?_⟩
  · rw [hflush, hw] at hv
    cases hv
    rwa [hself]
  · rw [hflush]
    by_cases heq : v = w
    · rw [heq, hw]
    · rw [hother v heq] at hv
      exact h.lone v hv
  · exact ⟨w, hflush.trans hw⟩
  · obtain ⟨v, hv, hmem⟩ := h.worker (hrequests ▸ hf) (hfutures f hopen)
    rw [hw] at hv
    cases hv
    rcases hheld f hopen hmem with hold | hnew
    · exact Or.inl hold
    · exact Or.inr ⟨w, hself ▸ hnew⟩
  · have hfresh := h.fresh v (hnext ▸ hv)
    by_cases heq : v = w
    · subst heq
      have := h.alive v hw
      rw [hfresh] at this
      exact this.elim
    · rw [hother v heq, hfresh]
  · obtain ⟨hopen, hnot, hnone⟩ := h.outside f (hrequests ▸ hf)
    refine ⟨(hsame f (hnone w)).trans hopen, fun hmem => hnot (hpending.subset hmem), fun v => ?_⟩
    by_cases heq : v = w
    · subst heq
      rw [hself]
      exact fun hmem => (hhand f hmem).elim hnot (hnone v)
    · rw [hother v heq]
      exact hnone v
  · by_cases heq : v = w
    · subst heq
      rwa [hself]
    · rw [hother v heq]
      exact (h.pacing v).mono hfutures

/-- A worker or a cleanup cancels what is pending. -/
theorem Linked.drain (h : Linked b) {w : Nat} {phase : WorkerPhase R} {b' : Batcher R}
    (hw : b.flushTask = some w) (hempty : (b.workers w).hand = [])
    (hworkers : b'.workers = Function.update b.workers w phase) (hphase : ¬ phase.working)
    (hrequests : b'.requests = b.requests) (hnext : b'.nextWorker = b.nextWorker)
    (hflush : b'.flushTask = none) (hpending : b'.pending = [])
    (hfutures : b'.futures = (b.settleAll b.pending fun _ => .cancelled).futures) : Linked b' := by
  have hother : ∀ v, v ≠ w → b'.workers v = b.workers v := fun v hv => by
    rw [hworkers, Function.update_of_ne hv]
  have hself : b'.workers w = phase := by rw [hworkers, Function.update_self]
  have hidle : ∀ v, ¬ (b'.workers v).working := fun v hv => by
    by_cases heq : v = w
    · rw [heq, hself] at hv
      exact hphase hv
    · rw [hother v heq] at hv
      cases (h.lone v hv).symm.trans hw
      exact heq rfl
  have hnone : ∀ f v, f ∉ (b'.workers v).hand := fun f v hmem =>
    hidle v (WorkerPhase.working_of_hand hmem)
  refine ⟨fun v hv => ?_, fun v hv => absurd hv (hidle v), fun hne => absurd hpending hne,
    fun f hf hopen => ?_, fun v hv => ?_, fun f hf => ?_, ?_, fun v => ?_⟩
  · rw [hflush] at hv
    cases hv
  · -- what was open was pending, and has been cancelled
    rw [hfutures, Batcher.settleAll] at hopen
    dsimp only at hopen
    split at hopen
    · exact (Future.pending_of_settle (by simp) hopen).elim
    · next hnot =>
        obtain ⟨v, hv, hmem⟩ := h.worker (hrequests ▸ hf) hopen
        cases hw.symm.trans hv
        rw [hempty] at hmem
        exact absurd (hmem.resolve_right (by simp)) hnot
  · have hfresh := h.fresh v (hnext ▸ hv)
    by_cases heq : v = w
    · have hdead := h.alive w hw
      rw [heq] at hfresh
      rw [hfresh] at hdead
      exact hdead.elim
    · rw [hother v heq, hfresh]
  · obtain ⟨hopen, hnot, -⟩ := h.outside f (hrequests ▸ hf)
    refine ⟨?_, by rw [hpending]; simp, hnone f⟩
    rw [hfutures, Batcher.settleAll]
    simp [hnot, hopen]
  · rw [hpending]
    exact List.nodup_nil
  · by_cases hworking : (b'.workers v).working
    · exact absurd hworking (hidle v)
    · cases hv : b'.workers v with
      | pacing batch active =>
          rw [hv] at hworking
          exact absurd trivial hworking
      | _ => trivial

/-- A worker ends with requests pending, and starts the next one. -/
theorem Linked.relay (h : Linked b) {w : Nat} (hw : b.flushTask = some w)
    (hempty : (b.workers w).hand = []) {b' : Batcher R}
    (hworkers : b'.workers =
      Function.update (Function.update b.workers b.nextWorker .created) w .returned)
    (hrequests : b'.requests = b.requests) (hnext : b'.nextWorker = b.nextWorker + 1)
    (hflush : b'.flushTask = some b.nextWorker) (hpending : b'.pending = b.pending)
    (hfutures : b'.futures = b.futures) : Linked b' := by
  have hnew : b.nextWorker ≠ w := by
    rintro heq
    have hdead := h.alive w hw
    rw [h.fresh w (Nat.le_of_eq heq)] at hdead
    exact hdead
  have hself : b'.workers w = .returned := by rw [hworkers, Function.update_self]
  have hcreated : b'.workers b.nextWorker = .created := by
    rw [hworkers, Function.update_of_ne hnew, Function.update_self]
  have hother : ∀ v, v ≠ w → v ≠ b.nextWorker → b'.workers v = b.workers v := fun v hv hn => by
    rw [hworkers, Function.update_of_ne hv, Function.update_of_ne hn]
  have hnone : ∀ f v, f ∉ (b'.workers v).hand := fun f v hmem => by
    by_cases heq : v = w
    · rw [heq, hself] at hmem
      cases hmem
    by_cases hn : v = b.nextWorker
    · rw [hn, hcreated] at hmem
      cases hmem
    · rw [hother v heq hn] at hmem
      have hv := h.lone v (WorkerPhase.working_of_hand hmem)
      rw [hw] at hv
      cases hv
      exact heq rfl
  refine ⟨fun v hv => ?_, fun v hv => ?_, fun hne => ⟨_, hflush⟩, fun f hf hopen => ?_,
    fun v hv => ?_, fun f hf => ?_, hpending ▸ h.distinct, fun v => ?_⟩
  · rw [hflush] at hv
    cases hv
    rw [hcreated]
    trivial
  · by_cases heq : v = w
    · rw [heq, hself] at hv
      exact hv.elim
    by_cases hn : v = b.nextWorker
    · rw [hn, hflush]
    · rw [hother v heq hn] at hv
      cases (h.lone v hv).symm.trans hw
      exact absurd rfl heq
  · obtain ⟨v, hv, hmem⟩ := h.worker (hrequests ▸ hf) (hfutures ▸ hopen)
    cases hw.symm.trans hv
    rw [hempty] at hmem
    exact Or.inl (hpending ▸ hmem.resolve_right (by simp))
  · rw [hnext] at hv
    have hfresh := h.fresh v (Nat.le_of_succ_le hv)
    have hn : v ≠ b.nextWorker := Nat.ne_of_gt hv
    by_cases heq : v = w
    · subst heq
      have hdead := h.alive v hw
      rw [hfresh] at hdead
      exact hdead.elim
    · rw [hother v heq hn, hfresh]
  · obtain ⟨hopen, hnot, -⟩ := h.outside f (hrequests ▸ hf)
    exact ⟨hfutures ▸ hopen, hpending ▸ hnot, hnone f⟩
  · rw [hworkers, hfutures]
    by_cases heq : v = w
    · rw [heq, Function.update_self]
      trivial
    rw [Function.update_of_ne heq]
    by_cases hn : v = b.nextWorker
    · rw [hn, Function.update_self]
      trivial
    · rw [Function.update_of_ne hn]
      exact h.pacing v

theorem Linked.finish (h : Linked b) {w : Nat} {cancelled : Bool}
    (hphase : b.workers w = .finishing cancelled) : Linked (b.finish w cancelled) := by
  have hw : b.flushTask = some w := h.lone w (by rw [hphase]; trivial)
  have hempty : (b.workers w).hand = [] := by rw [hphase]; rfl
  cases cancelled with
  | true =>
      have hstopped : ¬ (WorkerPhase.stopped : WorkerPhase R).working := id
      refine h.drain hw hempty ?_ hstopped ?_ ?_ ?_ ?_ ?_ <;>
        simp [Batcher.finish, Batcher.cancelAll_eq, Batcher.settleAll, Batcher.setWorker, hw]
  | false =>
      by_cases hpending : b.pending = []
      · have hover : ¬ (WorkerPhase.returned : WorkerPhase R).working := id
        refine h.drain hw hempty ?_ hover ?_ ?_ ?_ ?_ ?_ <;>
          simp [Batcher.finish, Batcher.cancelAll_eq, Batcher.settleAll, Batcher.setWorker, hw,
            hpending]
      · refine h.relay hw hempty ?_ ?_ ?_ ?_ ?_ ?_ <;>
          simp [Batcher.finish, Batcher.cancelAll_eq, Batcher.settleAll, Batcher.setWorker,
            Batcher.startWorker, hw, hpending]

theorem Linked.settle (h : Linked b) {w : Nat} (hphase : b.workers w = .stopped) :
    Linked (b.settle w) := by
  have hempty : (b.workers w).hand = [] := by rw [hphase]; rfl
  by_cases hw : b.flushTask = some w
  · have hover : ¬ (WorkerPhase.returned : WorkerPhase R).working := id
    refine h.drain hw hempty ?_ hover ?_ ?_ ?_ ?_ ?_ <;>
      simp [Batcher.settle, Batcher.cancelAll_eq, Batcher.settleAll, Batcher.setWorker, hw]
  · -- another worker has been started since
    rw [Batcher.settle, if_neg hw]
    have hother : ∀ v, v ≠ w → (b.setWorker w .returned).workers v = b.workers v := fun v hv =>
      Function.update_of_ne hv _ _
    have hself : (b.setWorker w .returned).workers w = .returned := Function.update_self _ _ _
    have hhand : ∀ v, ((b.setWorker w .returned).workers v).hand = (b.workers v).hand := fun v => by
      by_cases heq : v = w
      · rw [heq, hself, hempty]
        rfl
      · rw [hother v heq]
    refine ⟨fun v hv => ?_, fun v hv => ?_, h.served, fun f hf hopen => ?_, fun v hv => ?_,
      fun f hf => ?_, h.distinct, fun v => ?_⟩
    · have heq : v ≠ w := fun heq => hw (heq ▸ hv)
      rw [hother v heq]
      exact h.alive v hv
    · by_cases heq : v = w
      · rw [heq, hself] at hv
        exact hv.elim
      · rw [hother v heq] at hv
        exact h.lone v hv
    · simp only [hhand]
      exact h.held f hf hopen
    · by_cases heq : v = w
      · have hfresh := h.fresh v hv
        rw [heq, hphase] at hfresh
        cases hfresh
      · rw [hother v heq]
        exact h.fresh v hv
    · simp only [hhand]
      exact h.outside f hf
    · by_cases heq : v = w
      · rw [heq, hself]
        trivial
      · rw [hother v heq]
        exact h.pacing v

/-! ## Requests -/

theorem Batcher.enqueue_of_some {w : Nat} (h : b.flushTask = some w) (f : Nat) :
    b.enqueue f = { b.setRequest f .awaiting with pending := b.pending ++ [f] } := by
  simp only [Batcher.enqueue, Batcher.setRequest, h]

theorem Batcher.enqueue_of_none (h : b.flushTask = none) (f : Nat) :
    b.enqueue f =
      Batcher.startWorker { b.setRequest f .awaiting with pending := b.pending ++ [f] } := by
  simp only [Batcher.enqueue, Batcher.setRequest, h]

/-- A request is enqueued, and a worker is started if there is none. -/
theorem Linked.enqueue (h : Linked b) {f : Nat} (hf : b.requests f = .entering) :
    Linked (b.enqueue f) := by
  obtain ⟨hopen, hnot, hnone⟩ := h.outside f (Or.inr hf)
  have hrequests : ∀ g, (b.setRequest f .awaiting).requests g =
      if g = f then .awaiting else b.requests g := fun g => Function.update_apply _ _ _ _
  have hdistinct : (b.pending ++ [f]).Nodup :=
    List.Nodup.append h.distinct (List.nodup_singleton f) fun g hg hgf =>
      hnot (List.mem_singleton.mp hgf ▸ hg)
  -- what holds of the requests does not depend on the worker
  have houtside : ∀ g, (b.setRequest f .awaiting).requests g = .unborn ∨
      (b.setRequest f .awaiting).requests g = .entering →
      b.futures g = .pending ∧ g ∉ b.pending ++ [f] ∧ ∀ w, g ∉ (b.workers w).hand := by
    intro g hg
    rw [hrequests] at hg
    split at hg
    · rcases hg with hg | hg <;> cases hg
    · next hne =>
        obtain ⟨hgopen, hgnot, hgnone⟩ := h.outside g hg
        exact ⟨hgopen, fun hmem => (List.mem_append.mp hmem).elim hgnot
          fun hgf => hne (List.mem_singleton.mp hgf), hgnone⟩
  have hheld : ∀ g, (b.setRequest f .awaiting).requests g = .awaiting →
      b.futures g = .pending → g ∈ b.pending ++ [f] ∨ ∃ w, g ∈ (b.workers w).hand := by
    intro g hg hgopen
    rw [hrequests] at hg
    split at hg
    · next heq => exact Or.inl (List.mem_append_right _ (List.mem_singleton.mpr heq))
    · exact (h.held g hg hgopen).imp_left (List.mem_append_left _)
  cases hflush : b.flushTask with
  | some w =>
      rw [Batcher.enqueue_of_some hflush]
      exact ⟨h.alive, h.lone, fun _ => ⟨w, hflush⟩, hheld, h.fresh, houtside, hdistinct, h.pacing⟩
  | none =>
      rw [Batcher.enqueue_of_none hflush]
      have hidle : ∀ v, ¬ (b.workers v).working := fun v hv => by
        rw [h.lone v hv] at hflush
        cases hflush
      have hempty : ∀ g v, g ∉ (b.workers v).hand := fun g v hmem =>
        hidle v (WorkerPhase.working_of_hand hmem)
      have hworkers : ∀ v, (Function.update b.workers b.nextWorker .created) v =
          if v = b.nextWorker then .created else b.workers v := fun v =>
        Function.update_apply _ _ _ _
      refine ⟨fun v hv => ?_, fun v hv => ?_, fun _ => ⟨_, rfl⟩, fun g hg hgopen => ?_,
        fun v hv => ?_, fun g hg => ?_, hdistinct, fun v => ?_⟩
      · cases hv
        simp [Batcher.startWorker, Batcher.setWorker, WorkerPhase.alive]
      · by_cases heq : v = b.nextWorker
        · rw [heq]
          rfl
        · simp only [Batcher.startWorker, Batcher.setWorker, Batcher.setRequest, hworkers,
            if_neg heq] at hv
          exact absurd hv (hidle v)
      · exact Or.inl ((hheld g hg hgopen).resolve_right fun hex => hex.elim (hempty g))
      · have hlt : b.nextWorker + 1 ≤ v := hv
        simp only [Batcher.startWorker, Batcher.setWorker, Batcher.setRequest, hworkers,
          if_neg (Nat.ne_of_gt hlt)]
        exact h.fresh v (Nat.le_of_succ_le hlt)
      · obtain ⟨hgopen, hgnot, hgnone⟩ := houtside g hg
        refine ⟨hgopen, hgnot, fun v => ?_⟩
        simp only [Batcher.startWorker, Batcher.setWorker, Batcher.setRequest, hworkers]
        split
        · simp [WorkerPhase.hand]
        · exact hgnone v
      · simp only [Batcher.startWorker, Batcher.setWorker, Batcher.setRequest, hworkers]
        split
        · trivial
        · exact h.pacing v


/-- A request ends. -/
theorem Linked.endRequest (h : Linked b) {b' : Batcher R} {f : Nat} {phase : RequestPhase}
    (hphase : phase = .cancelled ∨ phase = .answered)
    (hrequests : b'.requests = Function.update b.requests f phase)
    (hpending : b'.pending = b.pending) (hflush : b'.flushTask = b.flushTask)
    (hworkers : b'.workers = b.workers) (hnext : b'.nextWorker = b.nextWorker)
    (hfutures : ∀ g, b'.futures g = .pending → b.futures g = .pending)
    (hsame : ∀ g, g ≠ f → b'.futures g = b.futures g) : Linked b' := by
  have hself : b'.requests f = phase := by rw [hrequests, Function.update_self]
  have hother : ∀ g, g ≠ f → b'.requests g = b.requests g := fun g hg => by
    rw [hrequests, Function.update_of_ne hg]
  refine h.quiet hpending hflush hworkers hnext hfutures (fun g hg _ => ?_) fun g hg => ?_
  · by_cases heq : g = f
    · rw [heq, hself] at hg
      rcases hphase with rfl | rfl <;> cases hg
    · rwa [← hother g heq]
  · by_cases heq : g = f
    · rw [heq, hself] at hg
      rcases hphase with rfl | rfl <;> rcases hg with hg | hg <;> cases hg
    · rw [hother g heq] at hg
      exact ⟨hg, hsame g heq⟩

theorem Linked.runRequest (h : Linked b) (f : Nat) : Linked (b.runRequest f) := by
  unfold Batcher.runRequest
  split
  · next hf => exact h.enqueue hf
  · split
    · exact h
    · exact h.endRequest (Or.inl rfl) rfl rfl rfl rfl rfl (fun _ hg => hg) fun _ _ => rfl
    · exact h.endRequest (Or.inr rfl) rfl rfl rfl rfl rfl (fun _ hg => hg) fun _ _ => rfl
  · exact h

theorem Linked.cancelRequest (h : Linked b) (f : Nat) : Linked (b.cancelRequest f) := by
  unfold Batcher.cancelRequest
  split
  · exact h.endRequest (Or.inl rfl) rfl rfl rfl rfl rfl (fun _ hg => hg) fun _ _ => rfl
  · rw [Batcher.cancelFuture_eq]
    refine h.endRequest (Or.inl rfl) rfl rfl rfl rfl rfl (fun g hg => ?_) fun g hg => ?_
    · simp only [Batcher.setRequest, Batcher.settleAll] at hg
      split at hg
      · exact (Future.pending_of_settle (by simp) hg).elim
      · exact hg
    · simp [Batcher.setRequest, Batcher.settleAll, hg]
  · exact h

/-! ## Workers -/

/-- The worker moves on with the open requests that it has in hand. -/
theorem Linked.keep (h : Linked b) {w : Nat} {phase : WorkerPhase R}
    (hw : b.flushTask = some w) (halive : phase.alive)
    (hhand : ∀ f ∈ phase.hand, f ∈ (b.workers w).hand)
    (hheld : ∀ f ∈ (b.workers w).hand, b.futures f = .pending → f ∈ phase.hand)
    (hpacing : phase.Pacing b.futures) : Linked (b.setWorker w phase) :=
  h.move hw rfl rfl rfl rfl halive (List.Sublist.refl _) (fun _ hf => hf) (fun _ _ => rfl)
    (fun f hf => Or.inr (hhand f hf)) (fun f hopen hf => hf.imp_right fun hmem =>
      hheld f hmem hopen) hpacing

/-- The worker settles what it has in hand, and goes on without. -/
theorem Linked.release (h : Linked b) {w : Nat} {phase : WorkerPhase R} {value : Nat → Future R}
    (hw : b.flushTask = some w) (halive : phase.alive) (hhand : phase.hand = [])
    (hpacing : ∀ futures, phase.Pacing futures) (hvalue : ∀ f, value f ≠ .pending) :
    Linked ((b.settleAll (b.workers w).hand value).setWorker w phase) := by
  refine h.move hw rfl rfl rfl rfl halive (List.Sublist.refl _) (fun f hf => ?_) (fun f hf => ?_)
    (fun f hf => by rw [hhand] at hf; cases hf) (fun f hf hmem => ?_) (hpacing _)
  · simp only [Batcher.setWorker, Batcher.settleAll] at hf
    split at hf
    · exact (Future.pending_of_settle (hvalue f) hf).elim
    · exact hf
  · simp [Batcher.setWorker, Batcher.settleAll, hf]
  · simp only [Batcher.setWorker, Batcher.settleAll] at hf
    split at hf
    · exact (Future.pending_of_settle (hvalue f) hf).elim
    · next hnot => exact Or.inl (hmem.resolve_right hnot)

/-- The worker ends its batch with an exception for each open request. -/
theorem Linked.fail (h : Linked b) {w : Nat} (hw : b.flushTask = some w) :
    Linked ((b.completeAll (b.workers w).hand fun _ => .exception).setWorker w .taking) := by
  rw [Batcher.completeAll_eq]
  exact h.release hw trivial rfl (fun _ => trivial) fun _ => by simp

/-- The worker is cancelled with a batch in hand. -/
theorem Linked.abort (h : Linked b) {w : Nat} (hw : b.flushTask = some w) :
    Linked ((b.cancelAll (b.workers w).hand).setWorker w (.finishing true)) := by
  rw [Batcher.cancelAll_eq]
  exact h.release hw trivial rfl (fun _ => trivial) fun _ => by simp

theorem Linked.take (h : Linked b) (size : BatchSize) {w : Nat}
    (hphase : b.workers w = .taking) : Linked (b.take size w) := by
  have hw : b.flushTask = some w := h.lone w (by rw [hphase]; trivial)
  have hempty : (b.workers w).hand = [] := by rw [hphase]; rfl
  have hsplit : ∀ f ∈ b.pending, f ∈ b.pending.take size.size ∨ f ∈ b.pending.drop size.size :=
    fun f hf => List.mem_append.mp ((List.take_append_drop size.size b.pending).symm ▸ hf)
  -- an open request stays pending or is taken
  have htaken : ∀ f, b.futures f = .pending → f ∈ b.pending ∨ f ∈ (b.workers w).hand →
      f ∈ b.pending.drop size.size ∨ f ∈ b.active (b.pending.take size.size) := by
    intro f hopen hf
    rw [hempty] at hf
    rcases hsplit f (hf.resolve_right (by simp)) with htake | hdrop
    · exact Or.inr (b.mem_active.mpr ⟨htake, hopen⟩)
    · exact Or.inl hdrop
  unfold Batcher.take
  split
  · exact h.keep hw trivial (fun f hf => by cases hf) (fun f hf => by rw [hempty] at hf; cases hf)
      trivial
  · dsimp only
    split
    · next hnone =>
        rw [hnone] at htaken
        exact h.move hw rfl rfl rfl rfl trivial (List.drop_sublist _ _) (fun _ hf => hf)
          (fun _ _ => rfl) (fun f hf => by cases hf) htaken trivial
    · refine h.move hw rfl rfl rfl rfl trivial (List.drop_sublist _ _) (fun _ hf => hf)
          (fun _ _ => rfl) (fun f hf => Or.inl ?_) htaken trivial
      exact List.mem_of_mem_take (b.mem_active.mp hf).1

/-- The requests that are posted are those of the batch that are still open. -/
theorem Linked.post (h : Linked b) {w : Nat} {batch active : List Nat}
    (hphase : b.workers w = .pacing batch active) : Linked (b.post w active) := by
  have hw : b.flushTask = some w := h.lone w (by rw [hphase]; trivial)
  have hpacing := h.pacing w
  rw [hphase] at hpacing
  have hheld : ∀ f ∈ (b.workers w).hand, b.futures f = .pending → f ∈ b.active active := by
    rw [hphase]
    exact fun f hf hopen => b.mem_active.mpr ⟨hpacing.2 f hf hopen, hopen⟩
  have hsub : ∀ f ∈ b.active active, f ∈ (b.workers w).hand := by
    rw [hphase]
    exact fun f hf => hpacing.1.subset (b.mem_active.mp hf).1
  unfold Batcher.post
  split
  · next hnone =>
      rw [hnone] at hheld
      exact h.keep hw trivial (fun f hf => by cases hf) hheld trivial
  · exact h.move hw rfl rfl rfl rfl trivial (List.Sublist.refl _) (fun _ hf => hf)
      (fun _ _ => rfl) (fun f hf => Or.inr (hsub f hf))
      (fun f hopen hf => hf.imp_right fun hmem => hheld f hmem hopen) trivial

theorem Linked.runWorker (h : Linked b) (size : BatchSize) (ids : Nat → Int) (w : Nat)
    (answer : Answer R) : Linked (b.runWorker size ids w answer) := by
  have hlone := h.lone w
  have hfail := fun hw => h.fail (w := w) hw
  have hkeep : ∀ phase : WorkerPhase R, b.flushTask = some w → phase.alive →
      phase.hand = (b.workers w).hand → phase.Pacing b.futures →
      Linked (b.setWorker w phase) := fun phase hw halive hhand hpacing =>
    h.keep hw halive (fun f hf => hhand ▸ hf) (fun f hf _ => hhand ▸ hf) hpacing
  unfold Batcher.runWorker
  split <;> rename_i hphase <;> rw [hphase] at hlone hfail hkeep
  · exact hkeep _ (hlone trivial) trivial rfl trivial
  · exact hkeep _ (hlone trivial) trivial rfl trivial
  · exact h.take size hphase
  · exact hkeep _ (hlone trivial) trivial rfl trivial
  · -- what is not open any more is not waited for
    next batch _ _ =>
    have hopen : ∀ f ∈ batch, b.futures f = .pending → f ∈ b.active batch := fun f hf hopen =>
      b.mem_active.mpr ⟨hf, hopen⟩
    split
    · next hnone =>
        rw [hnone] at hopen
        exact h.keep (hlone trivial) trivial (fun f hf => by cases hf)
          (by rw [hphase]; exact hopen) trivial
    · exact hkeep _ (hlone trivial) trivial rfl ⟨b.active_sublist batch, hopen⟩
  · exact h.post hphase
  · exact hkeep _ (hlone trivial) trivial rfl trivial
  · next batch statusCode payload _ _ =>
    rw [Batcher.respond_eq]
    have hrelease := h.release (hlone trivial) (show WorkerPhase.taking.alive from trivial) rfl
      (fun _ => trivial) (outcome_ne_pending ids batch statusCode payload)
    rwa [hphase] at hrelease
  · exact hfail (hlone trivial)
  · exact hfail (hlone trivial)
  · exact hfail (hlone trivial)
  · exact hfail (hlone trivial)
  · exact hfail (hlone trivial)
  · exact hkeep _ (hlone trivial) trivial rfl trivial
  · exact h.finish hphase
  · exact h.settle hphase
  · exact h
  · exact h

theorem Linked.cancelWorker (h : Linked b) (w : Nat) : Linked (b.cancelWorker w) := by
  have hlone := h.lone w
  have habort := fun hw => h.abort (w := w) hw
  have hkeep : ∀ phase : WorkerPhase R, b.flushTask = some w → phase.alive →
      phase.hand = (b.workers w).hand → phase.Pacing b.futures →
      Linked (b.setWorker w phase) := fun phase hw halive hhand hpacing =>
    h.keep hw halive (fun f hf => hhand ▸ hf) (fun f hf _ => hhand ▸ hf) hpacing
  unfold Batcher.cancelWorker
  cases hphase : b.workers w <;> rw [hphase] at hlone habort hkeep
  case created => exact hkeep _ (hlone trivial) trivial rfl trivial
  case sleeping => exact hkeep _ (hlone trivial) trivial rfl trivial
  case taking => exact hkeep _ (hlone trivial) trivial rfl trivial
  case opening => exact habort (hlone trivial)
  case acquiring => exact habort (hlone trivial)
  case pacing => exact habort (hlone trivial)
  case posting => exact habort (hlone trivial)
  case closing => exact habort (hlone trivial)
  case leaving => exact hkeep _ (hlone trivial) trivial rfl trivial
  case finishing => exact hkeep _ (hlone trivial) trivial rfl trivial
  case unborn => exact h
  case stopped => exact h
  case returned => exact h

theorem Linked.step (h : Linked b) (size : BatchSize) (ids : Nat → Int) (step : Step R) :
    Linked (b.step size ids step) := by
  cases step with
  | call f =>
      simp only [Batcher.step]
      split
      · next hf =>
          refine h.quiet rfl rfl rfl rfl (fun _ hg => hg) (fun g hg _ => ?_) fun g hg => ?_
          · by_cases heq : g = f
            · simp [Batcher.setRequest, heq] at hg
            · simpa [Batcher.setRequest, heq] using hg
          · by_cases heq : g = f
            · exact ⟨Or.inl (heq ▸ hf), rfl⟩
            · simpa [Batcher.setRequest, heq] using hg
      · exact h
  | runRequest f => exact h.runRequest f
  | runWorker w answer => exact h.runWorker size ids w answer
  | cancelRequest f => exact h.cancelRequest f
  | cancelWorker w => exact h.cancelWorker w

end SniperBot.Solana
