import SniperBot.Solana.Progress

/-!
# What the requests of the batcher end with

Every request is in one place: pending, in hand or posted (`Tracked`). So none is posted twice, in
any interleaving. That it ends with its own row or with an error, and that it was posted unless it
was cancelled, fails in two ways: an object whose `error` is an empty object is handed to every
request of the batch although `_call` takes it for a success, and an exception before the post ends
the batch unsent. `batcher_serves_iff` says that these are the only ones.
-/

namespace SniperBot.Solana

open Basis

variable {R : Type}

/-! ## Where requests are -/

/-- What a worker has in hand before the post. -/
def WorkerPhase.unsent : WorkerPhase R → List Nat
  | .opening batch => batch
  | .acquiring batch => batch
  | .pacing batch _ => batch
  | _ => []

/-- What a worker has in hand after the post. -/
def WorkerPhase.sent : WorkerPhase R → List Nat
  | .posting batch => batch
  | .closing batch _ _ => batch
  | _ => []

theorem WorkerPhase.hand_eq (phase : WorkerPhase R) : phase.hand = phase.unsent ++ phase.sent := by
  cases phase <;> simp [hand, unsent, sent]

theorem WorkerPhase.parts_of_hand {phase : WorkerPhase R} (h : phase.hand = []) :
    phase.unsent = [] ∧ phase.sent = [] := by
  rw [hand_eq] at h
  exact List.append_eq_nil_iff.mp h

theorem WorkerPhase.unsent_of_idle {phase : WorkerPhase R} (h : ¬ phase.working) :
    phase.unsent = [] ∧ phase.sent = [] := by
  cases phase with
  | unborn => exact ⟨rfl, rfl⟩
  | stopped => exact ⟨rfl, rfl⟩
  | returned => exact ⟨rfl, rfl⟩
  | _ => exact absurd trivial h

/-- How often a request is pending, in the hands of a worker to be sent, or sent. -/
def Batcher.places (b : Batcher R) (w f : Nat) : Nat :=
  b.pending.count f + (b.workers w).unsent.count f + b.posted.flatten.count f

structure Tracked (b : Batcher R) : Prop where
  valid : b.invalidState = false
  once : ∀ w f, b.places w f ≤ 1
  outside : ∀ f, b.requests f = .unborn ∨ b.requests f = .entering → f ∉ b.posted.flatten
  sent : ∀ w, ∀ f ∈ (b.workers w).sent, f ∈ b.posted.flatten
  answered : ∀ f, b.requests f = .answered → b.futures f ≠ .pending ∧ b.futures f ≠ .cancelled

theorem Tracked.init : Tracked ({} : Batcher R) where
  valid := rfl
  once := fun w f => by simp [Batcher.places, WorkerPhase.unsent]
  outside := fun f _ => by simp
  sent := fun w f hf => by cases hf
  answered := fun f h => by cases h

variable {b : Batcher R}

/-- A step of a worker. -/
theorem Tracked.serve (h : Tracked b) {b' : Batcher R} {batch : List Nat} {value : Nat → Future R}
    (hsettled : b.SettledBy b' batch value) (honce : ∀ w f, ∃ v, b'.places w f ≤ b.places v f)
    (houtside : ∀ f, b.requests f = .unborn ∨ b.requests f = .entering → f ∉ b'.posted.flatten)
    (hsent : ∀ w, ∀ f ∈ (b'.workers w).sent, f ∈ b'.posted.flatten) : Tracked b' where
  valid := hsettled.invalidState.trans h.valid
  once := fun w f => by
    obtain ⟨v, hv⟩ := honce w f
    exact Nat.le_trans hv (h.once v f)
  outside := hsettled.requests ▸ houtside
  sent := hsent
  answered := fun f hf => by
    rw [hsettled.requests] at hf
    have hold := h.answered f hf
    rwa [hsettled.done hold.1]

/-- A worker moves on without a post. -/
theorem Tracked.move (h : Tracked b) {b' : Batcher R} (w : Nat) (phase : WorkerPhase R)
    {batch : List Nat} {value : Nat → Future R} (hsettled : b.SettledBy b' batch value)
    (hposted : b'.posted = b.posted) (hpending : b'.pending.Sublist b.pending)
    (hworkers : ∀ v, b'.workers v = b.workers v ∨ (b'.workers v).hand = [] ∨
      v = w ∧ b'.workers v = phase)
    (hunsent : ∀ f, b'.pending.count f + phase.unsent.count f ≤
      b.pending.count f + (b.workers w).unsent.count f)
    (hsent : ∀ f ∈ phase.sent, f ∈ (b.workers w).sent) : Tracked b' := by
  refine h.serve hsettled (fun v f => ⟨v, ?_⟩) (fun f hf => hposted ▸ h.outside f hf)
    fun v f hf => ?_
  · rw [Batcher.places, Batcher.places, hposted]
    have hless := hpending.count_le f
    rcases hworkers v with hsame | hempty | ⟨rfl, hphase⟩
    · rw [hsame]
      omega
    · rw [(WorkerPhase.parts_of_hand hempty).1, List.count_nil]
      omega
    · have := hunsent f
      rw [hphase]
      omega
  · rw [hposted]
    rcases hworkers v with hsame | hempty | ⟨rfl, hphase⟩
    · exact h.sent v f (hsame ▸ hf)
    · rw [(WorkerPhase.parts_of_hand hempty).2] at hf
      cases hf
    · exact h.sent v f (hsent f (hphase ▸ hf))

theorem Batcher.setWorker_workers (b : Batcher R) (w : Nat) (phase : WorkerPhase R) (v : Nat) :
    (b.setWorker w phase).workers v = b.workers v ∨
      v = w ∧ (b.setWorker w phase).workers v = phase := by
  by_cases hv : v = w
  · subst hv
    exact Or.inr ⟨rfl, Function.update_self _ _ _⟩
  · exact Or.inl (Function.update_of_ne hv _ _)

/-- A worker moves on with a part of what it has in hand. -/
theorem Tracked.setWorker (h : Tracked b) {b₁ : Batcher R} {w : Nat} {phase : WorkerPhase R}
    {batch : List Nat} {value : Nat → Future R}
    (hsettled : b.SettledBy (b₁.setWorker w phase) batch value) (hposted : b₁.posted = b.posted)
    (hworkers : b₁.workers = b.workers) (hpending : b₁.pending.Sublist b.pending)
    (hunsent : phase.unsent.Sublist (b.workers w).unsent)
    (hsent : ∀ f ∈ phase.sent, f ∈ (b.workers w).sent) : Tracked (b₁.setWorker w phase) := by
  refine h.move w phase hsettled hposted hpending (fun v => ?_) (fun f => ?_) hsent
  · exact (hworkers ▸ b₁.setWorker_workers w phase v).imp_right Or.inr
  · exact Nat.add_le_add (hpending.count_le f) (hunsent.count_le f)

/-- What is taken from the pending list is in hand. -/
theorem Tracked.take (h : Tracked b) (size : BatchSize) {w : Nat} {batch : List Nat}
    {value : Nat → Future R} (hsettled : b.SettledBy (b.take size w) batch value)
    (hphase : b.workers w = .taking) : Tracked (b.take size w) := by
  revert hsettled
  unfold Batcher.take
  split
  · exact fun hsettled => h.setWorker hsettled rfl rfl (List.Sublist.refl _)
      (List.nil_sublist _) fun f hf => by cases hf
  · dsimp only
    split <;> intro hsettled
    · exact h.setWorker hsettled rfl rfl (List.drop_sublist _ _) (List.nil_sublist _)
        fun f hf => by cases hf
    · refine h.move w (.opening _) hsettled rfl (List.drop_sublist _ _)
        (fun v => (Batcher.setWorker_workers _ w _ v).imp_right Or.inr) (fun f => ?_)
        fun f hf => by cases hf
      have hsplit : b.pending.count f =
          (b.pending.take size.size).count f + (b.pending.drop size.size).count f := by
        rw [← List.count_append, List.take_append_drop]
      have hactive := (b.active_sublist (b.pending.take size.size)).count_le f
      rw [hphase, hsplit]
      simp only [Batcher.setWorker, WorkerPhase.unsent, List.count_nil]
      omega

/-- What is posted was in hand. -/
theorem Tracked.post (h : Tracked b) (hlinked : Linked b) {w : Nat} {batch active : List Nat}
    (hphase : b.workers w = .pacing batch active) {settled : List Nat} {value : Nat → Future R}
    (hsettled : b.SettledBy (b.post w active) settled value) : Tracked (b.post w active) := by
  have hlone : ∀ v, v ≠ w → (b.workers v).unsent = [] ∧ (b.workers v).sent = [] := fun v hv =>
    WorkerPhase.unsent_of_idle fun hworking => by
      have hw := hlinked.lone w (by rw [hphase]; trivial)
      rw [hlinked.lone v hworking] at hw
      cases hw
      exact hv rfl
  have hsub : (b.active active).Sublist (b.workers w).unsent := by
    have hpacing := hlinked.pacing w
    rw [hphase] at hpacing ⊢
    exact (b.active_sublist active).trans hpacing.1
  revert hsettled
  unfold Batcher.post
  split <;> intro hsettled
  · exact h.setWorker hsettled rfl rfl (List.Sublist.refl _) (List.nil_sublist _)
      fun f hf => by cases hf
  · refine h.serve hsettled (fun v f => ⟨w, ?_⟩) (fun f hf => ?_) fun v f hf => ?_
    · have hcount := hsub.count_le f
      have hnone : ((Function.update b.workers w (.posting (b.active active))) v).unsent = [] := by
        by_cases hv : v = w
        · subst hv
          rw [Function.update_self]
          rfl
        · rw [Function.update_of_ne hv]
          exact (hlone v hv).1
      simp only [Batcher.places, Batcher.setWorker, hnone, List.flatten_append,
        List.flatten_singleton, List.count_append, List.count_nil]
      omega
    · have hnot := (hlinked.outside f hf).2.2 w
      rw [WorkerPhase.hand_eq, List.mem_append, not_or] at hnot
      simp only [List.flatten_append, List.flatten_singleton, List.mem_append, not_or]
      exact ⟨h.outside f hf, fun hmem => hnot.1 (hsub.subset hmem)⟩
    · simp only [List.flatten_append, List.flatten_singleton, List.mem_append]
      by_cases hv : v = w
      · subst hv
        simp only [Batcher.setWorker, Function.update_self] at hf
        exact Or.inr hf
      · simp only [Batcher.setWorker, Function.update_of_ne hv] at hf
        exact Or.inl (h.sent v f hf)

theorem Batcher.finish_workers (b : Batcher R) (w : Nat) (cancelled : Bool) (v : Nat) :
    (b.finish w cancelled).workers v = b.workers v ∨
      ((b.finish w cancelled).workers v).hand = [] := by
  by_cases hv : v = w
  · subst hv
    right
    cases cancelled <;>
      simp [finish, cancelAll_eq, settleAll, Batcher.setWorker, WorkerPhase.hand]
  · by_cases hn : v = b.nextWorker
    · subst hn
      cases cancelled <;>
        simp only [finish, cancelAll_eq, settleAll, Batcher.setWorker, startWorker,
          Function.update_of_ne hv] <;>
        split_ifs <;> simp [WorkerPhase.hand]
    · left
      cases cancelled <;>
        simp only [finish, cancelAll_eq, settleAll, Batcher.setWorker, startWorker,
          Function.update_of_ne hv] <;>
        split_ifs <;> simp [Function.update_of_ne hn]

theorem Batcher.finish_pending (b : Batcher R) (w : Nat) (cancelled : Bool) :
    (b.finish w cancelled).pending = if cancelled then [] else b.pending := by
  cases cancelled <;>
    simp only [finish, cancelAll_eq, settleAll, Batcher.setWorker, startWorker] <;>
    split_ifs <;> rfl

theorem Tracked.runWorker (h : Tracked b) (hlinked : Linked b) (size : BatchSize)
    (ids : Nat → Int) (w : Nat) (answer : Answer R) :
    Tracked (b.runWorker size ids w answer) := by
  obtain ⟨settled, value, -, hsettled⟩ := b.runWorker_settles size ids w answer
  have hon : ∀ phase : WorkerPhase R, b.SettledBy (b.setWorker w phase) settled value →
      phase.unsent.Sublist (b.workers w).unsent → (∀ f ∈ phase.sent, f ∈ (b.workers w).sent) →
      Tracked (b.setWorker w phase) := fun phase hsettled =>
    h.setWorker hsettled rfl rfl (List.Sublist.refl _)
  have hdone : ∀ batch (value' : Nat → Future R),
      b.SettledBy ((b.settleAll batch value').setWorker w .taking) settled value →
      Tracked ((b.settleAll batch value').setWorker w .taking) := fun batch value' hsettled =>
    h.setWorker hsettled rfl rfl (List.Sublist.refl _) (List.nil_sublist _)
      fun f hf => by cases hf
  revert hsettled
  unfold Batcher.runWorker
  split <;> rename_i hphase <;> rw [hphase] at hon <;> intro hsettled
  · exact hon _ hsettled (List.nil_sublist _) fun f hf => by cases hf
  · exact hon _ hsettled (List.nil_sublist _) fun f hf => by cases hf
  · exact h.take size hsettled hphase
  · exact hon _ hsettled (List.Sublist.refl _) fun f hf => hf
  · split at hsettled
    · exact hon _ hsettled (List.nil_sublist _) fun f hf => by cases hf
    · exact hon _ hsettled (List.Sublist.refl _) fun f hf => hf
  · exact h.post hlinked hphase hsettled
  · exact hon _ hsettled (List.nil_sublist _) fun f hf => hf
  · rw [Batcher.respond_eq] at hsettled ⊢
    exact hdone _ _ hsettled
  · rw [Batcher.completeAll_eq] at hsettled ⊢
    exact hdone _ _ hsettled
  · rw [Batcher.completeAll_eq] at hsettled ⊢
    exact hdone _ _ hsettled
  · rw [Batcher.completeAll_eq] at hsettled ⊢
    exact hdone _ _ hsettled
  · rw [Batcher.completeAll_eq] at hsettled ⊢
    exact hdone _ _ hsettled
  · rw [Batcher.completeAll_eq] at hsettled ⊢
    exact hdone _ _ hsettled
  · exact hon _ hsettled (List.nil_sublist _) fun f hf => by cases hf
  · next cancelled =>
      have hpending : (b.finish w cancelled).pending.Sublist b.pending := by
        rw [b.finish_pending]
        split
        · exact List.nil_sublist _
        · exact List.Sublist.refl _
      exact h.move w .returned hsettled (b.finish_posted w cancelled) hpending
        (fun v => (b.finish_workers w cancelled v).imp_right Or.inl)
        (fun f => Nat.add_le_add (hpending.count_le f) (Nat.zero_le _)) fun f hf => by cases hf
  · unfold Batcher.settle at hsettled ⊢
    split at hsettled
    · next hflush =>
        rw [Batcher.cancelAll_eq] at hsettled
        rw [if_pos hflush, Batcher.cancelAll_eq]
        exact h.setWorker hsettled rfl rfl (List.nil_sublist _) (List.nil_sublist _)
          fun f hf => by cases hf
    · next hflush =>
        rw [if_neg hflush]
        exact hon _ hsettled (List.nil_sublist _) fun f hf => by cases hf
  · exact h
  · exact h

theorem Tracked.cancelWorker (h : Tracked b) (w : Nat) : Tracked (b.cancelWorker w) := by
  have hsettled := b.cancelWorker_settles w
  have hon : ∀ phase : WorkerPhase R, phase.hand = [] →
      b.SettledBy (b.setWorker w phase) (b.workers w).hand (fun _ => .cancelled) →
      Tracked (b.setWorker w phase) := fun phase hempty hsettled =>
    h.setWorker hsettled rfl rfl (List.Sublist.refl _)
      ((WorkerPhase.parts_of_hand hempty).1 ▸ List.nil_sublist _)
      fun f hf => by rw [(WorkerPhase.parts_of_hand hempty).2] at hf; cases hf
  have habort : ∀ batch, b.SettledBy ((b.cancelAll batch).setWorker w (.finishing true))
      (b.workers w).hand (fun _ => .cancelled) →
      Tracked ((b.cancelAll batch).setWorker w (.finishing true)) := fun batch hsettled => by
    rw [Batcher.cancelAll_eq] at hsettled ⊢
    exact h.setWorker hsettled rfl rfl (List.Sublist.refl _) (List.nil_sublist _)
      fun f hf => by cases hf
  revert hsettled
  unfold Batcher.cancelWorker
  cases hphase : b.workers w <;> rw [hphase] at hon habort <;> intro hsettled
  case created => exact hon _ rfl hsettled
  case sleeping => exact hon _ rfl hsettled
  case taking => exact hon _ rfl hsettled
  case opening => exact habort _ hsettled
  case acquiring => exact habort _ hsettled
  case pacing => exact habort _ hsettled
  case posting => exact habort _ hsettled
  case closing => exact habort _ hsettled
  case leaving => exact hon _ rfl hsettled
  case finishing => exact hon _ rfl hsettled
  case unborn => exact h
  case stopped => exact h
  case returned => exact h

/-! ## Requests -/

/-- A request goes on without being enqueued. -/
theorem Tracked.setRequest (h : Tracked b) {f : Nat} {phase : RequestPhase}
    (houtside : phase = .entering → b.requests f = .unborn)
    (hunborn : phase ≠ .unborn)
    (hanswered : phase = .answered → b.futures f ≠ .pending ∧ b.futures f ≠ .cancelled) :
    Tracked (b.setRequest f phase) := by
  refine ⟨h.valid, h.once, fun g hg => ?_, h.sent, fun g hg => ?_⟩
  · by_cases heq : g = f
    · subst heq
      rw [Batcher.setRequest_requests, Function.update_self] at hg
      exact h.outside g (Or.inl (houtside (hg.resolve_left hunborn)))
    · rw [Batcher.setRequest_requests, Function.update_of_ne heq] at hg
      exact h.outside g hg
  · by_cases heq : g = f
    · subst heq
      rw [Batcher.setRequest_requests, Function.update_self] at hg
      exact hanswered hg
    · rw [Batcher.setRequest_requests, Function.update_of_ne heq] at hg
      exact h.answered g hg

/-- A request that is enqueued was nowhere before. -/
theorem Tracked.enqueue (h : Tracked b) (hlinked : Linked b) {f : Nat}
    (hf : b.requests f = .entering) : Tracked (b.enqueue f) := by
  obtain ⟨hrequests, hfutures, hposted, hinvalid⟩ := b.enqueue_fields f
  have hpending : (b.enqueue f).pending = b.pending ++ [f] := by
    unfold Batcher.enqueue
    dsimp only
    split <;> rfl
  have hworkers : ∀ v, (b.enqueue f).workers v = b.workers v ∨
      ((b.enqueue f).workers v).hand = [] := by
    intro v
    cases hflush : b.flushTask with
    | some w =>
        rw [Batcher.enqueue_of_some hflush]
        exact Or.inl rfl
    | none =>
        rw [Batcher.enqueue_of_none hflush]
        rcases b.setWorker_workers b.nextWorker .created v with hsame | ⟨-, hcreated⟩
        · exact Or.inl hsame
        · exact Or.inr (congrArg WorkerPhase.hand hcreated)
  obtain ⟨-, hnot, hnone⟩ := hlinked.outside f (Or.inr hf)
  refine ⟨hinvalid.trans h.valid, fun v g => ?_, fun g hg => ?_, fun v g hg => ?_,
    fun g hg => ?_⟩
  · have hunsent : ((b.enqueue f).workers v).unsent.count g ≤
        (b.workers v).unsent.count g := by
      rcases hworkers v with hsame | hempty
      · rw [hsame]
      · rw [(WorkerPhase.parts_of_hand hempty).1]
        exact Nat.zero_le _
    have hold := h.once v g
    rw [Batcher.places] at hold ⊢
    rw [hposted, hpending, List.count_append]
    by_cases hg : g = f
    · subst hg
      have hhand := hnone v
      rw [WorkerPhase.hand_eq, List.mem_append, not_or] at hhand
      rw [List.count_eq_zero_of_not_mem hnot, List.count_singleton_self,
        List.count_eq_zero_of_not_mem (h.outside g (Or.inr hf))]
      rw [List.count_eq_zero_of_not_mem hhand.1] at hunsent
      omega
    · rw [List.count_eq_zero_of_not_mem (l := [f]) (by simpa using hg)]
      omega
  · rw [hposted]
    rw [hrequests, Batcher.setRequest_requests] at hg
    by_cases heq : g = f
    · subst heq
      exact h.outside g (Or.inr hf)
    · rw [Function.update_of_ne heq] at hg
      exact h.outside g hg
  · rw [hposted]
    rcases hworkers v with hsame | hempty
    · exact h.sent v g (hsame ▸ hg)
    · rw [(WorkerPhase.parts_of_hand hempty).2] at hg
      cases hg
  · rw [hrequests, Batcher.setRequest_requests] at hg
    rw [hfutures]
    by_cases heq : g = f
    · subst heq
      rw [Function.update_self] at hg
      cases hg
    · rw [Function.update_of_ne heq] at hg
      exact h.answered g hg

theorem Tracked.step (h : Tracked b) (hlinked : Linked b) (size : BatchSize) (ids : Nat → Int)
    (step : Step R) : Tracked (b.step size ids step) := by
  cases step with
  | call f =>
      simp only [Batcher.step]
      split
      · next hf => exact h.setRequest (fun _ => hf) (by decide) (fun h => by cases h)
      · exact h
  | runRequest f =>
      simp only [Batcher.step, Batcher.runRequest]
      split
      · next hf => exact h.enqueue hlinked hf
      · split
        · exact h
        · exact h.setRequest (fun h => by cases h) (by decide) (fun h => by cases h)
        · next hopen hcancelled =>
            exact h.setRequest (fun h => by cases h) (by decide) fun _ => ⟨hopen, hcancelled⟩
      · exact h
  | runWorker w answer => exact h.runWorker hlinked size ids w answer
  | cancelRequest f =>
      simp only [Batcher.step, Batcher.cancelRequest]
      split
      · exact h.setRequest (fun h => by cases h) (by decide) (fun h => by cases h)
      · refine Tracked.setRequest ?_ (fun h => by cases h) (by decide) (fun h => by cases h)
        rw [Batcher.cancelFuture_eq]
        have hsettled : b.SettledBy (b.settleAll [f] fun _ => .cancelled) [f] fun _ => .cancelled :=
          ⟨rfl, rfl, rfl, List.prefix_rfl⟩
        exact h.serve hsettled (fun w g => ⟨w, Nat.le_refl _⟩) h.outside h.sent
      · exact h
  | cancelWorker w => exact h.cancelWorker w

/-! ## Rows -/

/-- The rows that are collected have the ids under which they are kept. -/
theorem collectRow_keeps {expectedIds : List Int} {acc : Dict Int (Row R) × Bool}
    (hacc : ∀ id row, acc.1.get? id = some row → row.id = some id) (item : Option (Row R))
    {id : Int} {row : Row R} (h : (collectRow expectedIds acc item).1.get? id = some row) :
    row.id = some id := by
  unfold collectRow at h
  cases item with
  | none => exact hacc id row h
  | some new =>
      cases hid : new.id with
      | none =>
          simp only [hid] at h
          exact hacc id row h
      | some newId =>
          simp only [hid] at h
          split at h
          · exact hacc id row h
          · rw [Dict.get?_set] at h
            split at h
            · next heq =>
                cases h
                rw [hid, heq]
            · exact hacc id row h

theorem rowsById_keeps (expectedIds : List Int) (items : List (Option (Row R))) {id : Int}
    {row : Row R} (h : (rowsById expectedIds items).1.get? id = some row) : row.id = some id := by
  have hfold : ∀ (items : List (Option (Row R))) (acc : Dict Int (Row R) × Bool),
      (∀ id row, acc.1.get? id = some row → row.id = some id) →
      ∀ id row, (items.foldl (collectRow expectedIds) acc).1.get? id = some row →
        row.id = some id := by
    intro items
    induction items with
    | nil => exact fun acc hacc => hacc
    | cons item items ih =>
        exact fun acc hacc => ih _ fun id row hrow => collectRow_keeps hacc item hrow
  exact hfold items _ (fun id row hrow => by cases hrow) id row h

theorem invalidResponse_isError : (invalidResponse : Row R).isError := Or.inl rfl

/-- Only an object with an empty object as its error is taken for a success under another id. -/
theorem rowOf_own (ids : Nat → Int) (batch : List Nat) {payload : Payload R} {f : Nat}
    (h : ∀ row, payload = .object row → row.error = .emptyObject → row.id = some (ids f)) :
    (rowOf ids batch payload f).isError ∨ (rowOf ids batch payload f).id = some (ids f) := by
  cases payload with
  | invalid => exact Or.inl invalidResponse_isError
  | other => exact Or.inl invalidResponse_isError
  | object row =>
      simp only [rowOf]
      split
      · next herror =>
          rcases herror with herror | herror
          · exact Or.inl (Or.inl herror)
          · exact Or.inr (h row rfl herror)
      · exact Or.inl invalidResponse_isError
  | rows items =>
      simp only [rowOf]
      split
      · exact Or.inl invalidResponse_isError
      · cases hrow : (rowsById (batch.map ids) items).1.get? (ids f) with
        | none => exact Or.inl invalidResponse_isError
        | some row => exact Or.inr (rowsById_keeps _ _ hrow)

/-! ## Answers -/

/-- A result is an error or the row of its request, and what has a result or an exception was
posted. -/
structure Honest (ids : Nat → Int) (b : Batcher R) : Prop where
  own : ∀ f statusCode row, b.futures f = .response statusCode row →
    200 ≤ statusCode → statusCode < 300 → row.isError ∨ row.id = some (ids f)
  sent : ∀ f, b.futures f ≠ .pending → b.futures f ≠ .cancelled → f ∈ b.posted.flatten

/-- A step that does not end a request with the row of another or without a post. -/
def Proper (ids : Nat → Int) (b : Batcher R) : Step R → Prop
  | .runWorker w answer =>
      match b.workers w, answer with
      | .opening batch, .raised => b.active batch = []
      | .acquiring batch, .raised => b.active batch = []
      | .pacing batch _, .raised => b.active batch = []
      | .closing batch statusCode (.object row), .response _ _ =>
          200 ≤ statusCode → statusCode < 300 → row.error = .emptyObject →
            ∀ f ∈ b.active batch, row.id = some (ids f)
      | _, _ => True
  | _ => True

theorem Honest.init (ids : Nat → Int) : Honest ids ({} : Batcher R) where
  own := fun f statusCode row h => by cases h
  sent := fun f h => absurd rfl h

variable {ids : Nat → Int}

/-- The open futures of a batch get honest values. -/
theorem Honest.settledBy (h : Honest ids b) {b' : Batcher R} {batch : List Nat}
    {value : Nat → Future R} (hsettled : b.SettledBy b' batch value)
    (hown : ∀ f ∈ b.active batch, ∀ statusCode row, value f = .response statusCode row →
      200 ≤ statusCode → statusCode < 300 → row.isError ∨ row.id = some (ids f))
    (hsent : ∀ f ∈ b.active batch, value f ≠ .cancelled → f ∈ b.posted.flatten) :
    Honest ids b' := by
  have hposted : ∀ f, f ∈ b.posted.flatten → f ∈ b'.posted.flatten := by
    obtain ⟨rest, hrest⟩ := hsettled.posted
    exact fun f hf => by
      rw [← hrest, List.flatten_append]
      exact List.mem_append_left _ hf
  -- a future is as before, or it was open and its batch has been settled
  have hcases : ∀ f, b'.futures f = b.futures f ∨
      f ∈ b.active batch ∧ b'.futures f = value f := by
    intro f
    by_cases hf : f ∈ batch
    · by_cases hopen : b.futures f = .pending
      · exact Or.inr ⟨b.mem_active.mpr ⟨hf, hopen⟩, hsettled.mem hopen hf⟩
      · exact Or.inl (hsettled.done hopen)
    · exact Or.inl (hsettled.notMem hf)
  constructor
  · intro f statusCode row hrow
    rcases hcases f with hsame | ⟨hactive, hvalue⟩
    · exact h.own f statusCode row (hsame ▸ hrow)
    · exact hown f hactive statusCode row (hvalue ▸ hrow)
  · intro f hdone hcancelled
    rcases hcases f with hsame | ⟨hactive, hvalue⟩
    · rw [hsame] at hdone hcancelled
      exact hposted f (h.sent f hdone hcancelled)
    · rw [hvalue] at hcancelled
      exact hposted f (hsent f hactive hcancelled)

theorem outcome_own {batch : List Nat} {statusCode : Nat} {payload : Payload R} {f : Nat}
    (h : 200 ≤ statusCode → statusCode < 300 → ∀ row, payload = .object row →
      row.error = .emptyObject → row.id = some (ids f)) {code : Nat} {row : Row R}
    (houtcome : outcome ids batch statusCode payload f = .response code row)
    (hlow : 200 ≤ code) (hhigh : code < 300) : row.isError ∨ row.id = some (ids f) := by
  unfold outcome at houtcome
  split at houtcome
  · next hstatus =>
      cases houtcome
      omega
  · split at houtcome
    · cases houtcome
    · cases houtcome
      exact rowOf_own ids batch (h hlow hhigh)

theorem Proper.active_unsent {w : Nat} (h : Proper ids b (.runWorker w .raised)) :
    b.active (b.workers w).unsent = [] := by
  cases hphase : b.workers w <;> simp only [Proper, hphase] at h
  case opening => exact h
  case acquiring => exact h
  case pacing => exact h
  all_goals rfl

theorem Honest.runWorker (h : Honest ids b) (htracked : Tracked b) (size : BatchSize) {w : Nat}
    {answer : Answer R} (hproper : Proper ids b (.runWorker w answer)) :
    Honest ids (b.runWorker size ids w answer) := by
  obtain ⟨batch, value, hsettlement, hsettled⟩ := b.runWorker_settles size ids w answer
  cases hsettlement with
  | cancelled =>
      exact h.settledBy hsettled (fun f _ statusCode row hrow => by cases hrow)
        fun f _ hne => absurd rfl hne
  | failed =>
      refine h.settledBy hsettled (fun f _ statusCode row hrow => by cases hrow) fun f hf _ => ?_
      obtain ⟨hhand, hopen⟩ := b.mem_active.mp hf
      rw [WorkerPhase.hand_eq] at hhand
      rcases List.mem_append.mp hhand with hunsent | hsent
      · have hnone := hproper.active_unsent
        exact absurd (b.mem_active.mpr ⟨hunsent, hopen⟩) (by rw [hnone]; exact List.not_mem_nil)
      · exact htracked.sent w f hsent
  | answered hphase left rest =>
      refine h.settledBy hsettled (fun f hf statusCode row hrow hlow hhigh => ?_) fun f hf _ => ?_
      · refine outcome_own (fun hlow hhigh row' hpayload herror => ?_) hrow hlow hhigh
        subst hpayload
        simp only [Proper, hphase] at hproper
        exact hproper hlow hhigh herror f hf
      · refine htracked.sent w f ?_
        rw [hphase]
        exact (b.mem_active.mp hf).1

theorem Honest.step (h : Honest ids b) (htracked : Tracked b) (size : BatchSize) {step : Step R}
    (hproper : Proper ids b step) : Honest ids (b.step size ids step) := by
  cases step with
  | call f =>
      simp only [Batcher.step]
      split <;> exact ⟨h.own, h.sent⟩
  | runRequest f =>
      simp only [Batcher.step, Batcher.runRequest]
      split
      · obtain ⟨-, hfutures, hposted, -⟩ := b.enqueue_fields f
        exact ⟨hfutures ▸ h.own, by rw [hfutures, hposted]; exact h.sent⟩
      · split <;> exact ⟨h.own, h.sent⟩
      · exact h
  | runWorker w answer => exact h.runWorker htracked size hproper
  | cancelRequest f =>
      simp only [Batcher.step, Batcher.cancelRequest]
      split
      · exact ⟨h.own, h.sent⟩
      · rw [Batcher.cancelFuture_eq]
        have hsettled : b.SettledBy (b.settleAll [f] fun _ => .cancelled) [f] fun _ => .cancelled :=
          ⟨rfl, rfl, rfl, List.prefix_rfl⟩
        have hcancelled := h.settledBy hsettled (fun f _ statusCode row hrow => by cases hrow)
          fun f _ hne => absurd rfl hne
        exact ⟨hcancelled.own, hcancelled.sent⟩
      · exact h
  | cancelWorker w =>
      exact h.settledBy (b.cancelWorker_settles w) (fun f _ statusCode row hrow => by cases hrow)
        fun f _ hne => absurd rfl hne

/-- What is to be sent has not been. -/
theorem Tracked.not_posted (h : Tracked b) {w f : Nat} (hf : f ∈ (b.workers w).unsent) :
    f ∉ b.posted.flatten := by
  intro hposted
  have honce := h.once w f
  have hunsent := List.count_pos_iff.mpr hf
  have hcount := List.count_pos_iff.mpr hposted
  rw [Batcher.places] at honce
  omega

/-- A batch that ends with an exception before its post has no open request. -/
theorem Honest.active_nil (htracked : Tracked b) {w : Nat} {batch : List Nat}
    (hunsent : (b.workers w).unsent = batch)
    (h : Honest ids ((b.completeAll batch fun _ => .exception).setWorker w .taking)) :
    b.active batch = [] := by
  rw [Batcher.completeAll_eq] at h
  refine List.eq_nil_iff_forall_not_mem.mpr fun f hf => ?_
  obtain ⟨hmem, hopen⟩ := b.mem_active.mp hf
  have hvalue : ((b.settleAll batch fun _ => .exception).setWorker w .taking).futures f =
      .exception := by
    simp [Batcher.setWorker, Batcher.settleAll, hmem, hopen, Future.settle]
  exact htracked.not_posted (hunsent ▸ hmem)
    (h.sent f (by rw [hvalue]; simp) (by rw [hvalue]; simp))

/-- Any other step makes a state dishonest. -/
theorem Honest.proper (htracked : Tracked b) (size : BatchSize) {step : Step R}
    (h : Honest ids (b.step size ids step)) : Proper ids b step := by
  cases step with
  | runWorker w answer =>
      simp only [Batcher.step, Batcher.runWorker] at h
      simp only [Proper]
      split <;> rename_i hphase
      · simp only [hphase] at h
        exact h.active_nil htracked (by rw [hphase]; rfl)
      · simp only [hphase] at h
        exact h.active_nil htracked (by rw [hphase]; rfl)
      · simp only [hphase] at h
        exact h.active_nil htracked (by rw [hphase]; rfl)
      · next batch statusCode row _ _ =>
          simp only [hphase, Batcher.respond_eq] at h
          intro hlow hhigh herror f hf
          obtain ⟨hmem, hopen⟩ := b.mem_active.mp hf
          have hrow : rowOf ids batch (.object row) f = row := by simp [rowOf, herror]
          have hvalue : ((b.settleAll batch (outcome ids batch statusCode (.object row))).setWorker w
              .taking).futures f = .response statusCode row := by
            simp [Batcher.setWorker, Batcher.settleAll, hmem, hopen, Future.settle, outcome, hrow]
            omega
          have hown := h.own f statusCode row hvalue hlow hhigh
          exact hown.resolve_left (by simp [Row.isError, herror])
      · trivial
  | call f => trivial
  | runRequest f => trivial
  | cancelRequest f => trivial
  | cancelWorker w => trivial

/-! ## Runs -/

/-- What is promised of a state. -/
structure Sound (ids : Nat → Int) (b : Batcher R) : Prop where
  /-- No future has been completed again. -/
  valid : b.invalidState = false
  /-- A result is an error or the row with the id of the request. -/
  own : ∀ f statusCode row, b.futures f = .response statusCode row →
    200 ≤ statusCode → statusCode < 300 → row.isError ∨ row.id = some (ids f)
  once : ∀ f, b.posted.flatten.count f ≤ 1
  /-- A request whose future is done was sent in one batch, or has been cancelled. -/
  sent : ∀ f, b.futures f = .pending ∨ b.futures f = .cancelled ∨ b.posted.flatten.count f = 1
  answered : ∀ f, b.requests f = .answered → b.posted.flatten.count f = 1

/-- The promise of the batcher for a run. -/
structure Serves (size : BatchSize) (ids : Nat → Int) (labels : Nat → Step R) : Prop where
  sound : ∀ n, Sound ids (stateAt (Batcher.step size ids) {} labels n)
  /-- A future that is done stays as it is. -/
  lasting : ∀ n m f, n ≤ m → (stateAt (Batcher.step size ids) {} labels n).futures f ≠ .pending →
    (stateAt (Batcher.step size ids) {} labels m).futures f =
      (stateAt (Batcher.step size ids) {} labels n).futures f
  ends : FairLoop size ids labels → ∀ n f,
    (stateAt (Batcher.step size ids) {} labels n).requests f ≠ .unborn →
    ∃ m, n ≤ m ∧ ((stateAt (Batcher.step size ids) {} labels m).requests f).ended

theorem Tracked.count_le (h : Tracked b) (f : Nat) : b.posted.flatten.count f ≤ 1 :=
  Nat.le_trans (Nat.le_add_left _ _) (h.once 0 f)

theorem Tracked.count_eq (h : Tracked b) {f : Nat} (hf : f ∈ b.posted.flatten) :
    b.posted.flatten.count f = 1 :=
  Nat.le_antisymm (h.count_le f) (List.count_pos_iff.mpr hf)

theorem Tracked.sound_iff (h : Tracked b) : Sound ids b ↔ Honest ids b := by
  constructor
  · intro hsound
    refine ⟨hsound.own, fun f hopen hcancelled => ?_⟩
    have hcount := ((hsound.sent f).resolve_left hopen).resolve_left hcancelled
    exact List.count_pos_iff.mp (by omega)
  · intro hhonest
    refine ⟨h.valid, hhonest.own, h.count_le, fun f => ?_, fun f hf => ?_⟩
    · by_cases hopen : b.futures f = .pending
      · exact Or.inl hopen
      by_cases hcancelled : b.futures f = .cancelled
      · exact Or.inr (Or.inl hcancelled)
      · exact Or.inr (Or.inr (h.count_eq (hhonest.sent f hopen hcancelled)))
    · obtain ⟨hopen, hcancelled⟩ := h.answered f hf
      exact h.count_eq (hhonest.sent f hopen hcancelled)

theorem stateAt_tracked (size : BatchSize) (ids : Nat → Int) (labels : Nat → Step R) (n : Nat) :
    Tracked (stateAt (Batcher.step size ids) {} labels n) := by
  induction n with
  | zero => exact .init
  | succ n ih => exact ih.step (stateAt_linked size ids labels n) size ids (labels n)

/-- In any interleaving, the batcher keeps its promise as long as no object with an empty error is
handed to a request that it does not belong to, and no batch with an open request ends with an
exception before it is posted. -/
theorem batcher_serves_iff (size : BatchSize) (ids : Nat → Int) (labels : Nat → Step R) :
    Serves size ids labels ↔
      ∀ n, Proper ids (stateAt (Batcher.step size ids) {} labels n) (labels n) := by
  have htracked := stateAt_tracked size ids labels
  constructor
  · intro h n
    have hsound := h.sound (n + 1)
    rw [(htracked (n + 1)).sound_iff] at hsound
    exact hsound.proper (htracked n) size
  · intro hproper
    refine ⟨fun n => (htracked n).sound_iff.mpr ?_, fun n m f hnm hdone =>
      (stateAt_advances size ids labels hnm).done f hdone,
      fun hfair n f hf => hfair.called_ends hf⟩
    induction n with
    | zero => exact .init ids
    | succ n ih => exact ih.step (htracked n) size (hproper n)

/-- Two requests with the ids 7 and 8, whose batch is answered by an object with the id 7. -/
def sharedObject : List (Step Nat) :=
  [.call 0, .call 1, .runRequest 0, .runRequest 1, .runWorker 0 .raised, .runWorker 0 .raised,
    .runWorker 0 .raised, .runWorker 0 (.response 200 .other), .runWorker 0 (.response 200 .other),
    .runWorker 0 (.response 200 .other),
    .runWorker 0 (.response 200 (.object ⟨some 7, .emptyObject, some 5⟩)),
    .runWorker 0 (.response 200 .other)]

/-- The request with the id 8 gets the row of the other, as a success. -/
theorem shared_object_serves_other :
    ¬ Serves ⟨10, by decide⟩ (fun f => 7 + (f : Int))
      fun n => (sharedObject[n]?).getD (.call 0) := by
  intro h
  have hown := (h.sound 12).own 1 200 ⟨some 7, .emptyObject, some 5⟩ rfl (by decide) (by decide)
  revert hown
  decide

end SniperBot.Solana
